import BeaconBranch.Proofs.Chunk.Reading
import BeaconBranch.State.Sections

/-!
Sections tile the state. The fixed region holds the sections of fixed size and the offsets of the
others, and behind it the others stand one after another without gaps. So where a variable section
starts is told by the sections in front of it, and the offsets tell nothing more. Main statement: a
buffer is cut into sections exactly if it is made of them, and there is one way to make it.
-/

namespace BeaconBranch.State

open Outcome

/-! ### Buffers made of sections -/

/-- Sections that fields can have if the first variable one starts at `heap`: one of fixed size has
this size, and a variable one starts where a word can tell. -/
inductive Tiles : Nat → List SectionField → List ByteArray → Prop
  | nil {heap : Nat} : Tiles heap [] []
  | inPlace {heap : Nat} {f : SectionField} {fs : List SectionField} {b : ByteArray}
      {bs : List ByteArray} (size : f.size? = some b.size) (rest : Tiles heap fs bs) :
      Tiles heap (f :: fs) (b :: bs)
  | behind {heap : Nat} {f : SectionField} {fs : List SectionField} {b : ByteArray}
      {bs : List ByteArray} (size : f.size? = none) (lt : heap < twoTo 32)
      (rest : Tiles (heap + b.size) fs bs) : Tiles heap (f :: fs) (b :: bs)

/-- The fixed region of sections, of which the first variable one starts at `heap`. -/
def fixedOf : Nat → List SectionField → List ByteArray → ByteArray
  | heap, f :: fs, b :: bs =>
    if f.isVariable then Bytes.ofNatLE Limits.offsetSize heap ++ fixedOf (heap + b.size) fs bs
    else b ++ fixedOf heap fs bs
  | _, _, _ => ByteArray.empty

/-- What stands behind the fixed region. -/
def heapOf : List SectionField → List ByteArray → ByteArray
  | f :: fs, b :: bs => if f.isVariable then b ++ heapOf fs bs else heapOf fs bs
  | _, _ => ByteArray.empty

/-- The buffer of a state with these sections. -/
def encode (parts : List ByteArray) : ByteArray :=
  fixedOf fixedRegionSize fields parts ++ heapOf fields parts

/-- Bytes that fields take in the fixed region. -/
def regionOf (fs : List SectionField) : Nat := fs.foldr (fun f n => f.width + n) 0

/-- The offsets of fields whose part of the fixed region starts at a position. -/
def offsetsFrom? (data : ByteArray) (position : Nat) (fs : List SectionField) :
    Except Fault (List (String × Nat)) :=
  ((placesFrom position fs).filter (·.2.isVariable)).mapM fun (position, f) => do
    return (f.name, ← Chunk.readUint32? data position)

/-- Where the first section behind the fixed region starts, or else the end of the buffer. -/
def startOf (size : Nat) (offsets : List (String × Nat)) : Nat :=
  (offsets.head?.map (·.2)).getD size

/-- The sections of fields, every variable one in the next span. -/
def partsFrom (data : ByteArray) : Nat → List SectionField → List Span → List ByteArray
  | _, [], _ => []
  | position, f :: fs, spans =>
    match f.size?, spans with
    | some n, spans => data.extract position (position + n) ::
        partsFrom data (position + f.width) fs spans
    | none, s :: rest => data.extract s.start s.stop ::
        partsFrom data (position + f.width) fs rest
    | none, [] => ByteArray.empty :: partsFrom data (position + f.width) fs []

section Fields

variable {data : ByteArray} {position heap n : Nat} {f : SectionField} {fs : List SectionField}
  {b : ByteArray} {bs : List ByteArray}

theorem regionOf_cons (f : SectionField) (fs : List SectionField) :
    regionOf (f :: fs) = f.width + regionOf fs := rfl

theorem width_of_fixed (size : f.size? = some n) : f.width = n := by
  rw [SectionField.width, size]
  rfl

theorem width_of_variable (size : f.size? = none) : f.width = 4 := by
  rw [SectionField.width, size]
  rfl

theorem isVariable_of_fixed (size : f.size? = some n) : f.isVariable = false := by
  rw [SectionField.isVariable, size]
  rfl

theorem isVariable_of_none (size : f.size? = none) : f.isVariable = true := by
  rw [SectionField.isVariable, size]
  rfl

theorem fixedOf_inPlace (size : f.size? = some n) (heap : Nat) (b : ByteArray)
    (bs : List ByteArray) : fixedOf heap (f :: fs) (b :: bs) = b ++ fixedOf heap fs bs := by
  rw [fixedOf, isVariable_of_fixed size]
  rfl

theorem fixedOf_behind (size : f.size? = none) (heap : Nat) (b : ByteArray) (bs : List ByteArray) :
    fixedOf heap (f :: fs) (b :: bs) =
      Bytes.ofNatLE 4 heap ++ fixedOf (heap + b.size) fs bs := by
  rw [fixedOf, isVariable_of_none size]
  rfl

theorem heapOf_inPlace (size : f.size? = some n) (b : ByteArray) (bs : List ByteArray) :
    heapOf (f :: fs) (b :: bs) = heapOf fs bs := by
  rw [heapOf, isVariable_of_fixed size]
  rfl

theorem heapOf_behind (size : f.size? = none) (b : ByteArray) (bs : List ByteArray) :
    heapOf (f :: fs) (b :: bs) = b ++ heapOf fs bs := by
  rw [heapOf, isVariable_of_none size]
  rfl

theorem size_fixedOf (tiles : Tiles heap fs bs) : (fixedOf heap fs bs).size = regionOf fs := by
  induction tiles with
  | nil => rfl
  | inPlace size _ ih =>
    rw [fixedOf_inPlace size, ByteArray.size_append, ih, regionOf_cons, width_of_fixed size]
  | behind size _ _ ih =>
    rw [fixedOf_behind size, ByteArray.size_append, ih, regionOf_cons, width_of_variable size,
      Bytes.size_ofNatLE]

theorem Tiles.length_eq (tiles : Tiles heap fs bs) : fs.length = bs.length := by
  induction tiles with
  | nil => rfl
  | inPlace _ _ ih => rw [List.length_cons, List.length_cons, ih]
  | behind _ _ _ ih => rw [List.length_cons, List.length_cons, ih]

/-- Every field has a part. -/
theorem Tiles.exists_part (tiles : Tiles heap fs bs) {k : Nat} (field : fs[k]? = some f) :
    ∃ b, bs[k]? = some b := by
  have lt : k < bs.length := tiles.length_eq ▸ (List.getElem?_eq_some_iff.mp field).1
  exact ⟨_, List.getElem?_eq_getElem lt⟩

/-- A section of fixed size has this size. -/
theorem Tiles.size_eq (tiles : Tiles heap fs bs) {k : Nat} (field : fs[k]? = some f)
    (part : bs[k]? = some b) (size : f.size? = some n) : b.size = n := by
  induction tiles generalizing k with
  | nil => simp at field
  | inPlace whole _ ih =>
    cases k with
    | zero =>
      obtain rfl := Option.some.inj field
      obtain rfl := Option.some.inj part
      exact Option.some.inj (whole.symm.trans size)
    | succ k => exact ih field part
  | behind none _ _ ih =>
    cases k with
    | zero =>
      obtain rfl := Option.some.inj field
      cases none.symm.trans size
    | succ k => exact ih field part

theorem partsFrom_inPlace (size : f.size? = some n) (position : Nat) (spans : List Span) :
    partsFrom data position (f :: fs) spans =
      data.extract position (position + n) :: partsFrom data (position + n) fs spans := by
  simp only [partsFrom, size, width_of_fixed size]

theorem partsFrom_behind (size : f.size? = none) (position : Nat) (s : Span) (spans : List Span) :
    partsFrom data position (f :: fs) (s :: spans) =
      data.extract s.start s.stop :: partsFrom data (position + 4) fs spans := by
  simp only [partsFrom, size, width_of_variable size]

theorem offsetsFrom?_inPlace (size : f.size? = some n) (position : Nat) :
    offsetsFrom? data position (f :: fs) = offsetsFrom? data (position + n) fs := by
  rw [offsetsFrom?, placesFrom, List.filter_cons_of_neg (by simp [isVariable_of_fixed size]),
    width_of_fixed size, offsetsFrom?]

theorem offsetsFrom?_behind (size : f.size? = none) {offsets : List (String × Nat)} :
    offsetsFrom? data position (f :: fs) = .ok offsets ↔ ∃ start rest,
      position + 4 ≤ data.size ∧ Bytes.toNatLE (data.extract position (position + 4)) = start ∧
      offsetsFrom? data (position + 4) fs = .ok rest ∧ offsets = (f.name, start) :: rest := by
  rw [offsetsFrom?, placesFrom, List.filter_cons_of_pos (by simp [isVariable_of_none size]),
    width_of_variable size]
  simp only [List.mapM_cons, bind_eq_ok_iff, pure_eq_ok_iff, Chunk.readUint32?_eq_ok_iff]
  constructor
  · rintro ⟨_, ⟨start, ⟨le, rfl⟩, rfl⟩, rest, others, rfl⟩
    exact ⟨_, rest, le, rfl, others, rfl⟩
  · rintro ⟨start, rest, le, word, others, rfl⟩
    exact ⟨_, ⟨start, ⟨le, word⟩, rfl⟩, rest, others, rfl⟩

end Fields

/-! ### Spans -/

theorem spansFrom?_cons {size start : Nat} {name : String} {offsets : List (String × Nat)}
    {spans : List Span} : spansFrom? size ((name, start) :: offsets) = .ok spans ↔
      start ≤ startOf size offsets ∧ startOf size offsets ≤ size ∧ ∃ rest,
        spansFrom? size offsets = .ok rest ∧
        spans = ⟨name, start, startOf size offsets⟩ :: rest := by
  rw [spansFrom?, ← startOf]
  by_cases falls : startOf size offsets < start
  · rw [if_pos falls]
    have none : ¬ start ≤ startOf size offsets := by omega
    simp [none]
  · rw [if_neg falls]
    by_cases outside : size < startOf size offsets
    · rw [if_pos outside]
      have none : ¬ startOf size offsets ≤ size := by omega
      simp [none]
    · rw [if_neg outside]
      simp only [bind_eq_ok_iff, pure_eq_ok_iff]
      constructor
      · rintro ⟨rest, others, rfl⟩
        exact ⟨by omega, by omega, rest, others, rfl⟩
      · rintro ⟨-, -, rest, others, rfl⟩
        exact ⟨rest, others, rfl⟩

theorem map_name_spansFrom? {size : Nat} {offsets : List (String × Nat)} {spans : List Span}
    (cut : spansFrom? size offsets = .ok spans) :
    spans.map (·.name) = offsets.map (·.1) := by
  induction offsets generalizing spans with
  | nil =>
    cases cut
    rfl
  | cons o offsets ih =>
    obtain ⟨-, -, rest, others, rfl⟩ := spansFrom?_cons.mp cut
    rw [List.map_cons, List.map_cons, ih others]

/-! ### One field after another -/

/-- Fields whose words start at a position are cut into these sections, of which the first variable
one starts at `heap`. -/
def CutInto (data : ByteArray) (position heap : Nat) (fs : List SectionField)
    (parts : List ByteArray) : Prop :=
  ∃ offsets spans, offsetsFrom? data position fs = .ok offsets ∧
    spansFrom? data.size offsets = .ok spans ∧ startOf data.size offsets = heap ∧
    parts = partsFrom data position fs spans

/-- A buffer goes on with these sections, from a position on and from `heap` on. -/
structure MadeOf (data : ByteArray) (position heap : Nat) (fs : List SectionField)
    (parts : List ByteArray) : Prop where
  le : heap ≤ data.size
  region : data.extract position (position + regionOf fs) = fixedOf heap fs parts
  rest : data.extract heap data.size = heapOf fs parts

section Steps

variable {data : ByteArray} {position heap n : Nat} {f : SectionField} {fs : List SectionField}
  {b : ByteArray} {bs parts : List ByteArray}

theorem cutInto_inPlace (size : f.size? = some n) :
    CutInto data position heap (f :: fs) parts ↔ ∃ bs, CutInto data (position + n) heap fs bs ∧
      parts = data.extract position (position + n) :: bs := by
  simp only [CutInto, offsetsFrom?_inPlace size, partsFrom_inPlace size]
  constructor
  · rintro ⟨offsets, spans, read, cut, start, rfl⟩
    exact ⟨_, ⟨offsets, spans, read, cut, start, rfl⟩, rfl⟩
  · rintro ⟨_, ⟨offsets, spans, read, cut, start, rfl⟩, rfl⟩
    exact ⟨offsets, spans, read, cut, start, rfl⟩

/-- A variable section reaches from where its word tells to where the next one starts. -/
theorem cutInto_behind (size : f.size? = none) :
    CutInto data position heap (f :: fs) parts ↔ ∃ next bs, position + 4 ≤ data.size ∧
      Bytes.toNatLE (data.extract position (position + 4)) = heap ∧ heap ≤ next ∧
      next ≤ data.size ∧ CutInto data (position + 4) next fs bs ∧
      parts = data.extract heap next :: bs := by
  simp only [CutInto, offsetsFrom?_behind size]
  constructor
  · rintro ⟨_, _, ⟨start, offsets, inside, word, read, rfl⟩, cut, rfl, rfl⟩
    obtain ⟨le, stops, spans, cutRest, rfl⟩ := spansFrom?_cons.mp cut
    exact ⟨_, _, inside, word, le, stops, ⟨offsets, spans, read, cutRest, rfl, rfl⟩,
      partsFrom_behind size position _ spans⟩
  · rintro ⟨_, _, inside, word, le, stops, ⟨offsets, spans, read, cut, rfl, rfl⟩, rfl⟩
    have parts := @partsFrom_behind data f fs size position
      ⟨f.name, heap, startOf data.size offsets⟩ spans
    exact ⟨_, _, ⟨heap, offsets, inside, word, read, rfl⟩,
      spansFrom?_cons.mpr ⟨le, stops, spans, cut, rfl⟩, rfl, parts.symm⟩

theorem madeOf_inPlace (size : f.size? = some b.size)
    (inside : position + b.size + regionOf fs ≤ data.size) :
    MadeOf data position heap (f :: fs) (b :: bs) ↔
      data.extract position (position + b.size) = b ∧
        MadeOf data (position + b.size) heap fs bs := by
  have split : data.extract position (position + regionOf (f :: fs)) =
      data.extract position (position + b.size) ++
        data.extract (position + b.size) (position + b.size + regionOf fs) := by
    rw [regionOf_cons, width_of_fixed size, ← Nat.add_assoc]
    exact ByteArray.extract_eq_extract_append_extract _ (by omega) (by omega)
  have width : (data.extract position (position + b.size)).size = b.size := by
    rw [ByteArray.size_extract]
    omega
  constructor
  · rintro ⟨le, region, rest⟩
    rw [split, fixedOf_inPlace size] at region
    rw [heapOf_inPlace size] at rest
    obtain ⟨first, others⟩ := Bytes.append_injective width region
    exact ⟨first, le, others, rest⟩
  · rintro ⟨first, le, others, rest⟩
    refine ⟨le, ?_, ?_⟩
    · rw [split, fixedOf_inPlace size, first, others]
    · rw [heapOf_inPlace size, rest]

theorem madeOf_behind (size : f.size? = none) (inside : position + 4 + regionOf fs ≤ data.size) :
    MadeOf data position heap (f :: fs) (b :: bs) ↔
      data.extract position (position + 4) = Bytes.ofNatLE 4 heap ∧
        heap + b.size ≤ data.size ∧ data.extract heap (heap + b.size) = b ∧
        MadeOf data (position + 4) (heap + b.size) fs bs := by
  have split : data.extract position (position + regionOf (f :: fs)) =
      data.extract position (position + 4) ++
        data.extract (position + 4) (position + 4 + regionOf fs) := by
    rw [regionOf_cons, width_of_variable size, ← Nat.add_assoc]
    exact ByteArray.extract_eq_extract_append_extract _ (by omega) (by omega)
  have width : (data.extract position (position + 4)).size = (Bytes.ofNatLE 4 heap).size := by
    rw [ByteArray.size_extract, Bytes.size_ofNatLE]
    omega
  have splitHeap : heap + b.size ≤ data.size → data.extract heap data.size =
      data.extract heap (heap + b.size) ++ data.extract (heap + b.size) data.size :=
    fun stops => ByteArray.extract_eq_extract_append_extract _ (by omega) stops
  constructor
  · rintro ⟨le, region, rest⟩
    rw [split, fixedOf_behind size] at region
    rw [heapOf_behind size] at rest
    obtain ⟨word, others⟩ := Bytes.append_injective width region
    have stops : heap + b.size ≤ data.size := by
      have total := congrArg ByteArray.size rest
      rw [ByteArray.size_extract, Nat.min_self, ByteArray.size_append] at total
      omega
    have length : (data.extract heap (heap + b.size)).size = b.size := by
      rw [ByteArray.size_extract]
      omega
    rw [splitHeap stops] at rest
    obtain ⟨first, behind⟩ := Bytes.append_injective length rest
    exact ⟨word, stops, first, stops, others, behind⟩
  · rintro ⟨word, stops, first, -, others, behind⟩
    refine ⟨by omega, ?_, ?_⟩
    · rw [split, fixedOf_behind size, word, others]
    · rw [heapOf_behind size, splitHeap stops, first, behind]

/-- A word tells a number exactly if it is written as this number. -/
theorem word_eq_iff (inside : position + 4 ≤ data.size) :
    Bytes.toNatLE (data.extract position (position + 4)) = heap ↔
      heap < twoTo 32 ∧ data.extract position (position + 4) = Bytes.ofNatLE 4 heap := by
  have width : (data.extract position (position + 4)).size = 4 := by
    rw [ByteArray.size_extract]
    omega
  have power : twoTo 32 = 256 ^ 4 := Bytes.twoTo_eight_mul 4
  rw [power]
  exact Bytes.toNatLE_eq_iff width

end Steps

/-- Fields are cut into sections exactly if these tile the buffer and the buffer is made of them. -/
theorem cutInto_iff_tiles {data : ByteArray} {position heap : Nat} {fs : List SectionField}
    {parts : List ByteArray} (inside : position + regionOf fs ≤ data.size) :
    CutInto data position heap fs parts ↔
      Tiles heap fs parts ∧ MadeOf data position heap fs parts := by
  induction fs generalizing position heap parts with
  | nil =>
    constructor
    · rintro ⟨_, _, ⟨⟩, ⟨⟩, rfl, rfl⟩
      exact ⟨.nil, Nat.le_refl _, ByteArray.extract_same, ByteArray.extract_same⟩
    · rintro ⟨⟨⟩, le, -, rest⟩
      have ends : (data.extract heap data.size).size = 0 := by
        rw [rest]
        rfl
      rw [ByteArray.size_extract, Nat.min_self] at ends
      have start : data.size = heap := by omega
      exact ⟨[], [], rfl, rfl, start, rfl⟩
  | cons f fs ih =>
    rw [regionOf_cons, ← Nat.add_assoc] at inside
    cases size : f.size? with
    | some n =>
      rw [width_of_fixed size] at inside
      rw [cutInto_inPlace size]
      constructor
      · rintro ⟨bs, cut, rfl⟩
        obtain ⟨tiles, made⟩ := (ih inside).mp cut
        have width : (data.extract position (position + n)).size = n := by
          rw [ByteArray.size_extract]
          omega
        have whole : f.size? = some (data.extract position (position + n)).size := by
          rw [size, width]
        exact ⟨.inPlace whole tiles,
          (madeOf_inPlace whole (by rwa [width])).mpr (by rw [width]; exact ⟨rfl, made⟩)⟩
      · rintro ⟨tiles, made⟩
        cases tiles with
        | behind none => cases size.symm.trans none
        | @inPlace _ _ _ b bs whole tiles =>
          obtain rfl : n = b.size := Option.some.inj (size.symm.trans whole)
          obtain ⟨first, others⟩ := (madeOf_inPlace whole inside).mp made
          exact ⟨bs, (ih inside).mpr ⟨tiles, others⟩, by rw [first]⟩
    | none =>
      rw [width_of_variable size] at inside
      rw [cutInto_behind size]
      constructor
      · -- The section ends where the next variable one starts, which its own size tells.
        rintro ⟨next, bs, here, word, le, stops, cut, rfl⟩
        obtain ⟨tiles, made⟩ := (ih inside).mp cut
        obtain ⟨lt, word⟩ := (word_eq_iff here).mp word
        have reaches : heap + (data.extract heap next).size = next := by
          rw [ByteArray.size_extract]
          omega
        refine ⟨.behind size lt (by rwa [reaches]), (madeOf_behind size inside).mpr ?_⟩
        rw [reaches]
        exact ⟨word, stops, rfl, made⟩
      · rintro ⟨tiles, made⟩
        cases tiles with
        | inPlace whole => cases size.symm.trans whole
        | @behind _ _ _ b bs _ lt tiles =>
          obtain ⟨word, stops, first, others⟩ := (madeOf_behind size inside).mp made
          have here : position + 4 ≤ data.size := by omega
          exact ⟨heap + b.size, bs, here, (word_eq_iff here).mpr ⟨lt, word⟩,
            Nat.le_add_right _ _, stops, (ih inside).mpr ⟨tiles, others⟩, by rw [first]⟩

/-! ### Sections by name -/

/-- A span is found by its name if no other one has it. -/
theorem find?_of_nodup {spans : List Span} (nodup : (spans.map (·.name)).Nodup) {s : Span}
    (mem : s ∈ spans) : spans.find? (·.name == s.name) = some s := by
  induction spans with
  | nil => cases mem
  | cons t rest ih =>
    rw [List.map_cons, List.nodup_cons] at nodup
    obtain ⟨fresh, nodup⟩ := nodup
    rcases List.mem_cons.mp mem with rfl | later
    · exact List.find?_cons_of_pos (by simp)
    · have differ : t.name ≠ s.name := fun same => fresh (same ▸ List.mem_map_of_mem later)
      rw [List.find?_cons_of_neg (by simpa using differ), ih nodup later]

theorem map_fst_offsetsFrom? {data : ByteArray} {position : Nat} {fs : List SectionField}
    {offsets : List (String × Nat)} (read : offsetsFrom? data position fs = .ok offsets) :
    offsets.map (·.1) = (fs.filter (·.isVariable)).map (·.name) := by
  induction fs generalizing position offsets with
  | nil =>
    cases read
    rfl
  | cons f fs ih =>
    cases size : f.size? with
    | some n =>
      rw [offsetsFrom?_inPlace size] at read
      rw [List.filter_cons_of_neg (by simp [isVariable_of_fixed size]), ih read]
    | none =>
      obtain ⟨start, rest, -, -, others, rfl⟩ := (offsetsFrom?_behind size).mp read
      rw [List.filter_cons_of_pos (isVariable_of_none size), List.map_cons, List.map_cons,
        ih others]

/-- Spans that are found by their names are found in their order. -/
theorem partsFrom_eq_map {data : ByteArray} {position : Nat} {fs : List SectionField}
    {spans all : List Span}
    (names : spans.map (·.name) = (fs.filter (·.isVariable)).map (·.name))
    (found : ∀ s ∈ spans, all.find? (·.name == s.name) = some s) :
    partsFrom data position fs spans =
      (placesFrom position fs).map fun (position, f) => sectionAt data all position f := by
  induction fs generalizing position spans with
  | nil => rfl
  | cons f fs ih =>
    rw [placesFrom, List.map_cons]
    dsimp only
    cases size : f.size? with
    | some n =>
      rw [List.filter_cons_of_neg (by simp [isVariable_of_fixed size])] at names
      rw [partsFrom_inPlace size, ih names found, width_of_fixed size, sectionAt, size]
    | none =>
      rw [List.filter_cons_of_pos (isVariable_of_none size), List.map_cons] at names
      cases spans with
      | nil => cases names
      | cons s rest =>
        obtain ⟨name, others⟩ := List.cons.inj names
        have first := found s List.mem_cons_self
        rw [show s.name = f.name from name] at first
        rw [partsFrom_behind size, ih others fun t mem => found t (List.mem_cons_of_mem _ mem),
          width_of_variable size, sectionAt, size]
        dsimp only
        rw [first]

/-- Sections stand beside the names of their fields. -/
theorem map_placesFrom_eq_zip (section? : Nat → SectionField → ByteArray) (position : Nat)
    (fs : List SectionField) :
    ((placesFrom position fs).map fun (position, f) => (f.name, section? position f)) =
      (fs.map (·.name)).zip
        ((placesFrom position fs).map fun (position, f) => section? position f) := by
  induction fs generalizing position with
  | nil => rfl
  | cons f fs ih =>
    rw [placesFrom, List.map_cons, List.map_cons, List.map_cons, List.zip_cons_cons, ih]

/-! ### Whole buffers -/

theorem nodup_variable_names : (variableFields.map (·.name)).Nodup := by decide

theorem spans?_eq_ok_iff {data : ByteArray} {spans : List Span} : spans? data = .ok spans ↔
    fixedRegionSize ≤ data.size ∧ ∃ offsets, offsetsFrom? data 0 fields = .ok offsets ∧
      spansFrom? data.size offsets = .ok spans ∧
      startOf data.size offsets = fixedRegionSize := by
  have words : readOffsets? data = offsetsFrom? data 0 fields := rfl
  rw [spans?, words]
  by_cases short : data.size < fixedRegionSize
  · rw [if_pos short]
    have none : ¬ fixedRegionSize ≤ data.size := by omega
    simp [none]
  · rw [if_neg short]
    have inside : fixedRegionSize ≤ data.size := by omega
    simp only [bind_eq_ok_iff, inside, true_and]
    refine exists_congr fun offsets => and_congr_right ?_
    intro read
    have names := map_fst_offsetsFrom? read
    match offsets, names with
    | (name, start) :: rest, _ =>
      have first : startOf data.size ((name, start) :: rest) = start := rfl
      rw [first]
      dsimp only
      by_cases right : start = fixedRegionSize
      · simp [right]
      · simp [right, bind, Except.bind, throw, throwThe, MonadExceptOf.throw]

/-- A buffer is cut into sections exactly if these can stand in a state and the buffer is made of
them. -/
theorem sections?_eq_ok_iff {data : ByteArray} {all : Sections} : sections? data = .ok all ↔
    ∃ parts, Tiles fixedRegionSize fields parts ∧ all = (fields.map (·.name)).zip parts ∧
      encode parts = data := by
  have byName : ∀ {offsets spans}, offsetsFrom? data 0 fields = .ok offsets →
      spansFrom? data.size offsets = .ok spans → partsFrom data 0 fields spans =
        places.map fun (position, f) => sectionAt data spans position f := by
    intro offsets spans read cut
    have names := (map_name_spansFrom? cut).trans (map_fst_offsetsFrom? read)
    exact partsFrom_eq_map names fun s mem =>
      find?_of_nodup (names ▸ nodup_variable_names) mem
  simp only [sections?, bind_eq_ok_iff, pure_eq_ok_iff, spans?_eq_ok_iff]
  constructor
  · rintro ⟨spans, ⟨inside, offsets, read, cut, start⟩, rfl⟩
    obtain ⟨tiles, -, region, rest⟩ := (cutInto_iff_tiles (by rw [Nat.zero_add]; exact inside)).mp
      ⟨offsets, spans, read, cut, start, rfl⟩
    refine ⟨_, tiles, ?_, ?_⟩
    · rw [byName read cut]
      exact map_placesFrom_eq_zip (sectionAt data spans) 0 fields
    · rw [Nat.zero_add] at region
      rw [encode, ← region, ← rest]
      exact (ByteArray.extract_eq_extract_append_extract fixedRegionSize (Nat.zero_le _)
        inside).symm.trans ByteArray.extract_zero_size
  · rintro ⟨parts, tiles, rfl, rfl⟩
    have region := size_fixedOf tiles
    have size : (encode parts).size = fixedRegionSize + (heapOf fields parts).size := by
      rw [encode, ByteArray.size_append, region]
      rfl
    have front : (encode parts).extract 0 (regionOf fields) =
        fixedOf fixedRegionSize fields parts := ByteArray.extract_append_eq_left region.symm
    have behind : (encode parts).extract fixedRegionSize (encode parts).size =
        heapOf fields parts := by
      rw [size]
      exact ByteArray.extract_append_eq_right region.symm (congrArg (· + _) region.symm)
    have inside : fixedRegionSize ≤ (encode parts).size := by omega
    obtain ⟨offsets, spans, read, cut, start, whole⟩ :=
      (cutInto_iff_tiles (by rw [Nat.zero_add]; exact inside)).mpr
        ⟨tiles, inside, by rw [Nat.zero_add]; exact front, behind⟩
    refine ⟨spans, ⟨inside, offsets, read, cut, start⟩, ?_⟩
    have zipped := map_placesFrom_eq_zip (sectionAt (encode parts) spans) 0 fields
    exact zipped.trans (congrArg _ (whole.trans (byName read cut)).symm)

end BeaconBranch.State
