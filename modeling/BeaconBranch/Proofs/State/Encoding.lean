import BeaconBranch.Proofs.State.Existence

/-!
Buffers and families of sections. The offset table of a buffer is accepted exactly if the buffer is
the encoding of a family of sections, and then the buffer and the family tell the same: the table
holds nothing that the sizes of the sections do not tell already. Main statement: cutting a buffer
into sections and encoding sections as a buffer are inverse to each other.
-/

namespace BeaconBranch.State

open Outcome

/-! ### Families of sections -/

/-- Where the variable sections start, the first one of them at `heap`. -/
def startsFrom : Nat → List SectionField → List ByteArray → List Nat
  | heap, f :: fs, b :: bs =>
    if f.isVariable then heap :: startsFrom (heap + b.size) fs bs else startsFrom heap fs bs
  | _, _, _ => []

/-- A family of sections has one for each field: those of fixed size have this size, and all others
start where a word can tell. -/
structure Family (parts : List ByteArray) : Prop where
  sizes : List.Forall₂ (fun f b => ∀ n, f.size? = some n → b.size = n) fields parts
  starts : ∀ start ∈ startsFrom fixedRegionSize fields parts, start < twoTo 32

/-- Sections with the names of their fields. -/
def named (parts : List ByteArray) : Sections := (fields.map (·.name)).zip parts

section Fields

variable {heap n : Nat} {f : SectionField} {fs : List SectionField} {b : ByteArray}
  {bs : List ByteArray}

theorem startsFrom_inPlace (size : f.size? = some n) :
    startsFrom heap (f :: fs) (b :: bs) = startsFrom heap fs bs := by
  rw [startsFrom, isVariable_of_fixed size]
  rfl

theorem startsFrom_behind (size : f.size? = none) :
    startsFrom heap (f :: fs) (b :: bs) = heap :: startsFrom (heap + b.size) fs bs := by
  rw [startsFrom, isVariable_of_none size]
  rfl

/-- Sections tile a region exactly if the fixed ones have their sizes and the others start where a
word can tell. -/
theorem tiles_iff : Tiles heap fs bs ↔
    List.Forall₂ (fun f b => ∀ n, f.size? = some n → b.size = n) fs bs ∧
      ∀ start ∈ startsFrom heap fs bs, start < twoTo 32 := by
  constructor
  · intro tiles
    induction tiles with
    | nil => exact ⟨.nil, by rintro _ ⟨⟩⟩
    | inPlace size _ ih =>
      rw [startsFrom_inPlace size]
      exact ⟨.cons (fun n same => Option.some.inj (size.symm.trans same)) ih.1, ih.2⟩
    | behind size lt _ ih =>
      rw [startsFrom_behind size, List.forall_mem_cons]
      exact ⟨.cons (by simp [size]) ih.1, lt, ih.2⟩
  · rintro ⟨sizes, starts⟩
    induction sizes generalizing heap with
    | nil => exact .nil
    | @cons f b fs bs first _ ih =>
      cases size : f.size? with
      | some n =>
        rw [startsFrom_inPlace size] at starts
        exact .inPlace (by rw [size, first n size]) (ih starts)
      | none =>
        rw [startsFrom_behind size, List.forall_mem_cons] at starts
        exact .behind size starts.1 (ih starts.2)

end Fields

theorem family_iff_tiles {parts : List ByteArray} :
    Family parts ↔ Tiles fixedRegionSize fields parts :=
  ⟨fun family => tiles_iff.mpr ⟨family.sizes, family.starts⟩,
    fun tiles => ⟨(tiles_iff.mp tiles).1, (tiles_iff.mp tiles).2⟩⟩

/-! ### Offset tables -/

/-- Spans lie side by side from `start` to `stop`. -/
def Adjoining : Nat → Nat → List Span → Prop
  | start, stop, [] => start = stop
  | start, stop, s :: rest => s.start = start ∧ s.start ≤ s.stop ∧ Adjoining s.stop stop rest

/-- The spans are the table of a buffer with these sections: they name the variable fields in order,
fill everything behind the fixed region, and hold the sections of their names. -/
structure TableOf (data : ByteArray) (parts : List ByteArray) (spans : List Span) : Prop where
  names : spans.map (·.name) = variableFields.map (·.name)
  adjoining : Adjoining fixedRegionSize data.size spans
  sections : ∀ s ∈ spans, (s.name, data.extract s.start s.stop) ∈ named parts

theorem adjoining_of_spansFrom? {size : Nat} {offsets : List (String × Nat)} {spans : List Span}
    (cut : spansFrom? size offsets = .ok spans) : Adjoining (startOf size offsets) size spans := by
  induction offsets generalizing spans with
  | nil =>
    cases cut
    rfl
  | cons o offsets ih =>
    obtain ⟨le, -, rest, others, rfl⟩ := spansFrom?_cons.mp cut
    exact ⟨rfl, le, ih others⟩

theorem map_snd_placesFrom (start : Nat) (fs : List SectionField) :
    (placesFrom start fs).map (·.2) = fs := by
  induction fs generalizing start with
  | nil => rfl
  | cons f fs ih => rw [placesFrom, List.map_cons, ih]

/-- A table that is accepted is the one of the sections that it cuts out. -/
theorem tableOf_spans? {data : ByteArray} {parts : List ByteArray} {spans : List Span}
    (table : spans? data = .ok spans) (cut : sections? data = .ok (named parts)) :
    TableOf data parts spans := by
  obtain ⟨-, offsets, read, chained, start⟩ := spans?_eq_ok_iff.mp table
  have names : spans.map (·.name) = variableFields.map (·.name) :=
    (map_name_spansFrom? chained).trans (map_fst_offsetsFrom? read)
  refine ⟨names, start ▸ adjoining_of_spansFrom? chained, fun s mem => ?_⟩
  simp only [sections?, table, bind_eq_ok_iff, pure_eq_ok_iff, Except.ok.injEq] at cut
  obtain ⟨_, rfl, same⟩ := cut
  have listed : s.name ∈ variableFields.map (·.name) := names ▸ List.mem_map_of_mem mem
  obtain ⟨f, isField, name⟩ := List.mem_map.mp listed
  obtain ⟨inFields, varies⟩ := List.mem_filter.mp isField
  rw [← map_snd_placesFrom 0 fields] at inFields
  obtain ⟨⟨position, _⟩, place, rfl⟩ := List.mem_map.mp inFields
  rw [← same]
  refine List.mem_map.mpr ⟨_, place, ?_⟩
  have found := find?_of_nodup (names ▸ nodup_variable_names) mem
  dsimp only at name ⊢
  rw [← name] at found
  rw [sectionAt, Option.isNone_iff_eq_none.mp varies, found, name]

/-- Cutting a buffer into sections and encoding sections as a buffer are inverse to each other: the
encoding of every family of sections is accepted and cut into this family, and every buffer whose
table is accepted is the encoding of its sections, which fill it from end to end. -/
theorem sections?_inverse_encode :
    (∀ parts, Family parts → (∃ spans, spans? (encode parts) = .ok spans) ∧
      sections? (encode parts) = .ok (named parts)) ∧
    ∀ data spans, spans? data = .ok spans → ∃ parts, Family parts ∧
      sections? data = .ok (named parts) ∧ encode parts = data ∧ TableOf data parts spans := by
  constructor
  · intro parts family
    have cut : sections? (encode parts) = .ok (named parts) :=
      sections?_eq_ok_iff.mpr ⟨parts, family_iff_tiles.mp family, rfl, rfl⟩
    obtain ⟨spans, table, -⟩ := bind_eq_ok_iff.mp cut
    exact ⟨⟨spans, table⟩, cut⟩
  · intro data spans table
    have cut : sections? data =
        .ok (places.map fun p => (p.2.name, sectionAt data spans p.1 p.2)) :=
      bind_eq_ok_iff.mpr ⟨spans, table, rfl⟩
    obtain ⟨parts, tiles, all, whole⟩ := sections?_eq_ok_iff.mp cut
    rw [all] at cut
    exact ⟨parts, family_iff_tiles.mpr tiles, cut, whole, tableOf_spans? table cut⟩

theorem sections?_inverse_encode_lone : ∃ spans parts, spans? loneBuffer = .ok spans ∧
    Family parts ∧ encode parts = loneBuffer ∧ sections? (encode parts) = .ok (named parts) ∧
    TableOf loneBuffer parts spans := by
  obtain ⟨s, -, read, -⟩ := exists_loneState
  obtain ⟨all, cut, -⟩ := Snapshot.decode?_eq_ok_iff.mp read
  obtain ⟨spans, table, -⟩ := bind_eq_ok_iff.mp cut
  obtain ⟨parts, family, -, whole, told⟩ := sections?_inverse_encode.2 loneBuffer spans table
  exact ⟨spans, parts, table, family, whole, (sections?_inverse_encode.1 parts family).2, told⟩

end BeaconBranch.State
