import BeaconBranch.Proofs.Record.Acceptance
import BeaconBranch.Proofs.State.Encoding

/-!
The grammar of state buffers. A buffer that holds the fixed region is judged by what its offsets
tell and by the three sections that are read record by record; all other sections may hold any
bytes. Main statement: a state is read exactly from the buffers of the grammar, too short a buffer
is refused as truncated, and every other one is refused for its bounds.
-/

namespace BeaconBranch

open Outcome

/-- A computation fails with a fault of a kind. -/
def Fails {α : Type} (kind : FaultKind) (x : Except Fault α) : Prop :=
  ∃ f, x = .error f ∧ f.kind = kind

namespace State

/-! ### What the offsets tell -/

/-- The number that the word at a position tells. -/
def wordAt (data : ByteArray) (position : Nat) : Nat :=
  Bytes.toNatLE (data.extract position (position + 4))

/-- The offsets of the variable fields, in order. -/
def offsets (data : ByteArray) : List (String × Nat) :=
  (places.filter (·.2.isVariable)).map fun (position, f) => (f.name, wordAt data position)

/-- The spans from each offset to the next one, and from the last one to the end. -/
def spansBetween (size : Nat) : List (String × Nat) → List Span
  | [] => []
  | (name, start) :: rest => ⟨name, start, startOf size rest⟩ :: spansBetween size rest

/-- The bytes of a variable field, as the offsets tell. -/
def told (data : ByteArray) (name : String) : ByteArray :=
  match (spansBetween data.size (offsets data)).find? (·.name == name) with
  | some s => data.extract s.start s.stop
  | none => ByteArray.empty

/-- The first offset leads behind the fixed region, they never decrease, and the last one does not
lead behind the buffer. -/
structure Rising (data : ByteArray) : Prop where
  first : (offsets data).head?.map (·.2) = some fixedRegionSize
  pairwise : ((offsets data).map (·.2)).Pairwise (· ≤ ·)
  last : ∀ o ∈ (offsets data).getLast?, o.2 ≤ data.size

/-- A buffer whose offsets rise and whose validators, balances and payload header can be read. -/
structure WellFormed (data : ByteArray) : Prop where
  rising : Rising data
  validators : (told data "validators").size % 121 = 0
  flags : ∀ record ∈ Bytes.chunks 121 (told data "validators"), IsFlagAt record 88
  balances : (told data "balances").size % 8 = 0
  payloadSize : 584 ≤ (told data "latest_execution_payload_header").size ∧
    (told data "latest_execution_payload_header").size ≤ 616
  payloadOffset : wordAt (told data "latest_execution_payload_header") 436 = 584

/-! ### Offset tables -/

theorem inside_of_mem_placesFrom {start : Nat} {fs : List SectionField} {p : Nat × SectionField}
    (mem : p ∈ placesFrom start fs) : p.1 + p.2.width ≤ start + regionOf fs := by
  induction fs generalizing start with
  | nil => cases mem
  | cons f rest ih =>
    rw [regionOf_cons]
    rcases List.mem_cons.mp mem with rfl | later
    · dsimp only
      omega
    · have inside := ih later
      omega

variable {data : ByteArray}

/-- The offsets lie inside the fixed region. -/
theorem readOffsets?_eq (inside : fixedRegionSize ≤ data.size) :
    readOffsets? data = .ok (offsets data) := by
  refine (mapM_eq_ok_iff_map (p := fun p => p.1 + 4 ≤ data.size) ?_).mpr ⟨?_, rfl⟩
  · rintro ⟨position, f⟩ - y
    simp only [bind_eq_ok_iff, pure_eq_ok_iff, Chunk.readUint32?_eq_ok_iff]
    constructor
    · rintro ⟨_, ⟨le, rfl⟩, rfl⟩
      exact ⟨le, rfl⟩
    · rintro ⟨le, rfl⟩
      exact ⟨_, ⟨le, rfl⟩, rfl⟩
  · intro p mem
    obtain ⟨place, varies⟩ := List.mem_filter.mp mem
    have before := inside_of_mem_placesFrom place
    rw [width_of_variable (Option.isNone_iff_eq_none.mp varies), Nat.zero_add] at before
    exact Nat.le_trans before inside

theorem map_fst_offsets (data : ByteArray) :
    (offsets data).map (·.1) = variableFields.map (·.name) := by
  have whole := map_snd_placesFrom 0 fields
  rw [variableFields, ← whole, List.filter_map, offsets, List.map_map, List.map_map]
  rfl

/-- There are nine offsets. -/
example : variableFields.length = 9 := by decide

/-- Offsets that never decrease are bounded by the last one. -/
theorem le_of_mem_rising {size : Nat} {offsets : List (String × Nat)}
    (pairwise : (offsets.map (·.2)).Pairwise (· ≤ ·)) (last : ∀ o ∈ offsets.getLast?, o.2 ≤ size)
    {o : String × Nat} (mem : o ∈ offsets) : o.2 ≤ size := by
  rcases List.eq_nil_or_concat offsets with rfl | ⟨front, l, rfl⟩
  · cases mem
  · rw [List.concat_eq_append] at pairwise last mem
    have bound : l.2 ≤ size := last l List.getLast?_concat
    rcases List.mem_append.mp mem with before | single
    · rw [List.map_append, List.pairwise_append] at pairwise
      exact Nat.le_trans (pairwise.2.2 _ (List.mem_map_of_mem before) _ List.mem_cons_self) bound
    · rwa [List.mem_singleton.mp single]

/-- Offsets are cut into spans exactly if they rise and stay inside the buffer. -/
theorem spansFrom?_eq_ok_iff {size : Nat} {offsets : List (String × Nat)} {spans : List Span} :
    spansFrom? size offsets = .ok spans ↔
      (offsets.map (·.2)).Pairwise (· ≤ ·) ∧ (∀ o ∈ offsets.getLast?, o.2 ≤ size) ∧
        spans = spansBetween size offsets := by
  induction offsets generalizing spans with
  | nil => simp [spansFrom?, spansBetween, eq_comm]
  | cons o rest ih =>
    obtain ⟨name, start⟩ := o
    simp only [spansFrom?_cons, ih, spansBetween, List.map_cons]
    cases rest with
    | nil => simp [startOf, spansBetween]
    | cons next rest =>
      have first : startOf size (next :: rest) = next.2 := rfl
      rw [first, List.getLast?_cons_cons]
      -- Each offset is compared only with the next one, and with the end of the buffer.
      constructor
      · rintro ⟨le, -, _, ⟨pairwise, last, rfl⟩, rfl⟩
        refine ⟨List.pairwise_cons.mpr ⟨fun x mem => ?_, pairwise⟩, last, rfl⟩
        rcases List.mem_cons.mp mem with rfl | later
        · exact le
        · exact Nat.le_trans le ((List.pairwise_cons.mp pairwise).1 x later)
      · rintro ⟨pairwise, last, rfl⟩
        obtain ⟨before, pairwise⟩ := List.pairwise_cons.mp pairwise
        exact ⟨before _ List.mem_cons_self, le_of_mem_rising pairwise last List.mem_cons_self, _,
          ⟨pairwise, last, rfl⟩, rfl⟩

/-- A table is accepted exactly if the buffer holds the fixed region and its offsets rise. -/
theorem spans?_eq_ok_iff_rising {spans : List Span} : spans? data = .ok spans ↔
    fixedRegionSize ≤ data.size ∧ Rising data ∧
      spans = spansBetween data.size (offsets data) := by
  rw [spans?_eq_ok_iff]
  refine and_congr_right fun inside => ?_
  have read : offsetsFrom? data 0 fields = .ok (offsets data) := readOffsets?_eq inside
  have start : startOf data.size (offsets data) = fixedRegionSize ↔
      (offsets data).head?.map (·.2) = some fixedRegionSize := by
    have names := congrArg List.length (map_fst_offsets data)
    cases found : offsets data with
    | nil =>
      rw [found] at names
      exact absurd names (by decide)
    | cons o rest => simp [startOf]
  simp only [read, Except.ok.injEq, exists_eq_left', spansFrom?_eq_ok_iff, start]
  constructor
  · rintro ⟨⟨pairwise, last, rfl⟩, first⟩
    exact ⟨⟨first, pairwise, last⟩, rfl⟩
  · rintro ⟨⟨first, pairwise, last⟩, rfl⟩
    exact ⟨⟨pairwise, last, rfl⟩, first⟩

/-- A buffer is cut into sections exactly if it holds the fixed region and its offsets rise. -/
theorem exists_sections?_iff : (∃ all, sections? data = .ok all) ↔
    fixedRegionSize ≤ data.size ∧ Rising data := by
  simp only [sections?, bind_eq_ok_iff, pure_eq_ok_iff, spans?_eq_ok_iff_rising]
  constructor
  · rintro ⟨_, _, ⟨inside, rising, -⟩, -⟩
    exact ⟨inside, rising⟩
  · rintro ⟨inside, rising⟩
    exact ⟨_, _, ⟨inside, rising, rfl⟩, rfl⟩

/-! ### Sections by name -/

section Named

variable {all : Sections} {f : SectionField}

/-- A variable field has the section that the offsets tell. -/
theorem get_of_variable (cut : sections? data = .ok all) (mem : f ∈ fields)
    (size : f.size? = none) : all.get f.name = told data f.name := by
  simp only [sections?, bind_eq_ok_iff, pure_eq_ok_iff, spans?_eq_ok_iff_rising] at cut
  obtain ⟨spans, ⟨-, -, rfl⟩, rfl⟩ := cut
  obtain ⟨k, field⟩ := List.getElem?_of_mem mem
  have placed := congrArg (·[k]?) (map_snd_placesFrom 0 fields)
  rw [field, List.getElem?_map, Option.map_eq_some_iff] at placed
  obtain ⟨⟨position, _⟩, found, rfl⟩ := placed
  have zipped := map_placesFrom_eq_zip
    (sectionAt data (spansBetween data.size (offsets data))) 0 fields
  refine (congrArg (Sections.get · _) zipped).trans
    ((Snapshot.getD_section field (by rw [List.getElem?_map, found]; rfl)).trans ?_)
  dsimp only at size ⊢
  rw [sectionAt, size]
  rfl

/-- A field of fixed size has a section of this size. -/
theorem size_get_of_fixed (cut : sections? data = .ok all) {k n : Nat}
    (field : fields[k]? = some f) (size : f.size? = some n) : (all.get f.name).size = n := by
  obtain ⟨parts, tiles, rfl, -⟩ := sections?_eq_ok_iff.mp cut
  obtain ⟨b, part⟩ := tiles.exists_part field
  rw [Snapshot.getD_section field part]
  exact tiles.size_eq field part size

end Named

end State

open State

/-! ### Records of the state -/

theorem exists_decodeValidators?_iff {b : ByteArray} :
    (∃ vs, decodeValidators? b = .ok vs) ↔
      b.size % 121 = 0 ∧ ∀ record ∈ Bytes.chunks 121 b, IsFlagAt record 88 := by
  have width : Schema.validator.size = 121 := rfl
  simp only [decodeValidators?_eq_ok_iff, width, exists_and_left]
  refine and_congr_right fun whole => ?_
  have records : (∃ vs : Array Record,
      (Bytes.chunks 121 b).mapM Schema.validator.decode? = .ok vs) ↔
        ∃ vs : List Record,
          (Bytes.chunks 121 b).toList.mapM Schema.validator.decode? = .ok vs := by
    simp only [mapM_toList_eq_ok_iff]
    constructor
    · rintro ⟨vs, ok⟩
      exact ⟨vs.toList, ok⟩
    · rintro ⟨vs, ok⟩
      exact ⟨vs.toArray, ok⟩
  simp only [records, exists_mapM_eq_ok_iff, Array.mem_toList_iff]
  refine forall₂_congr fun record mem => ?_
  rw [Schema.exists_decode?_validator_iff]
  exact and_iff_right (Bytes.size_of_mem_chunks whole mem)

theorem exists_decodeBalances?_iff {b : ByteArray} :
    (∃ ns, decodeBalances? b = .ok ns) ↔ b.size % 8 = 0 := by
  simp [decodeBalances?_eq_ok_iff]

namespace Snapshot

variable {data : ByteArray} {all : Sections}

/-- Of the sections of a buffer, only the validators, the balances and the payload header can be
refused. -/
theorem exists_readFrom_iff (cut : sections? data = .ok all) : (∃ s, ReadFrom s all) ↔
    (∃ vs, decodeValidators? (all.get "validators") = .ok vs) ∧
      (∃ ns, decodeBalances? (all.get "balances") = .ok ns) ∧
      ∃ r, Schema.payloadHeader.decode? (all.get "latest_execution_payload_header") = .ok r := by
  constructor
  · rintro ⟨s, read⟩
    obtain ⟨r, payload, -⟩ := read.payloadHeader
    exact ⟨⟨_, read.validators⟩, ⟨_, read.balances⟩, r, payload⟩
  · rintro ⟨⟨vs, validators⟩, ⟨ns, balances⟩, payload, payloadOk⟩
    obtain ⟨fork, forkOk⟩ :=
      (Schema.exists_decode?_iff_size (s := .fork) (by decide) (by decide) (by decide)).mpr
        (size_get_of_fixed cut (k := 3) rfl rfl)
    obtain ⟨header, headerOk⟩ :=
      (Schema.exists_decode?_iff_size (s := .blockHeader) (by decide) (by decide) (by decide)).mpr
        (size_get_of_fixed cut (k := 4) rfl rfl)
    obtain ⟨eth1, eth1Ok⟩ :=
      (Schema.exists_decode?_iff_size (s := .eth1Data) (by decide) (by decide) (by decide)).mpr
        (size_get_of_fixed cut (k := 8) rfl rfl)
    exact ⟨⟨_, _, _, fork, header, vs, ns, _, _, some eth1, _, some payload, _⟩, rfl, rfl, rfl,
      forkOk, headerOk, validators, balances, rfl, rfl, ⟨eth1, eth1Ok, rfl⟩, rfl,
      ⟨payload, payloadOk, rfl⟩, rfl⟩

/-- The sections of a buffer whose offsets rise make a state exactly if the buffer is of the
grammar. -/
theorem exists_readFrom_iff_wellFormed (rising : Rising data) (cut : sections? data = .ok all) :
    (∃ s, ReadFrom s all) ↔ WellFormed data := by
  have validators : all.get "validators" = told data "validators" :=
    get_of_variable cut (List.mem_of_getElem? (show fields[11]? = _ from rfl)) rfl
  have balances : all.get "balances" = told data "balances" :=
    get_of_variable cut (List.mem_of_getElem? (show fields[12]? = _ from rfl)) rfl
  have payload : all.get "latest_execution_payload_header" =
      told data "latest_execution_payload_header" :=
    get_of_variable cut (List.mem_of_getElem? (show fields[24]? = _ from rfl)) rfl
  rw [exists_readFrom_iff cut, validators, balances, payload, exists_decodeValidators?_iff,
    exists_decodeBalances?_iff, Schema.exists_decode?_payloadHeader_iff]
  constructor
  · rintro ⟨⟨validators, flags⟩, balances, least, most, word⟩
    exact ⟨rising, validators, flags, balances, ⟨least, most⟩, word⟩
  · rintro ⟨-, validators, flags, balances, ⟨least, most⟩, word⟩
    exact ⟨⟨validators, flags⟩, balances, least, most, word⟩

/-- A state is read exactly from the buffers of the grammar. -/
theorem exists_decode?_iff : (∃ s, decode? data = .ok s) ↔
    fixedRegionSize ≤ data.size ∧ WellFormed data := by
  simp only [decode?_eq_ok_iff]
  constructor
  · rintro ⟨s, all, cut, read⟩
    obtain ⟨inside, rising⟩ := exists_sections?_iff.mp ⟨all, cut⟩
    exact ⟨inside, (exists_readFrom_iff_wellFormed rising cut).mp ⟨s, read⟩⟩
  · rintro ⟨inside, wellFormed⟩
    obtain ⟨all, cut⟩ := exists_sections?_iff.mpr ⟨inside, wellFormed.rising⟩
    obtain ⟨s, read⟩ := (exists_readFrom_iff_wellFormed wellFormed.rising cut).mpr wellFormed
    exact ⟨s, all, cut, read⟩

end Snapshot

/-! ### Faults -/

theorem State.boundsOnly_spansFrom? (size : Nat) (offsets : List (String × Nat)) :
    BoundsOnly (spansFrom? size offsets) := by
  induction offsets with
  | nil => exact .ok _
  | cons o rest ih =>
    obtain ⟨name, start⟩ := o
    rw [spansFrom?]
    split
    · exact .error rfl
    · split
      · exact .error rfl
      · exact ih.bind fun _ _ => .ok _

theorem State.boundsOnly_sections? {data : ByteArray} (inside : fixedRegionSize ≤ data.size) :
    BoundsOnly (sections? data) := by
  refine FailsOnly.bind ?_ fun _ _ => .ok _
  rw [spans?, if_neg (Nat.not_lt.mpr inside), readOffsets?_eq inside]
  refine (FailsOnly.ok _).bind fun read _ => ?_
  cases read with
  | nil => exact boundsOnly_spansFrom? _ _
  | cons o rest =>
    dsimp only
    split
    · exact .error rfl
    · exact boundsOnly_spansFrom? _ _

namespace Snapshot

variable {data : ByteArray}

/-- Every buffer that holds the fixed region is read, or refused for its bounds. -/
theorem boundsOnly_decode? (inside : fixedRegionSize ≤ data.size) : BoundsOnly (decode? data) := by
  rw [decode?]
  refine (boundsOnly_sections? inside).bind fun all _ => ?_
  dsimp only
  split
  · exact .error rfl
  · split
    · exact .error rfl
    · refine Schema.boundsOnly_decode?.bind fun _ _ => ?_
      refine Schema.boundsOnly_decode?.bind fun _ _ => ?_
      refine (boundsOnly_decodeValidators? _).bind fun _ _ => ?_
      refine (boundsOnly_decodeBalances? _).bind fun _ _ => ?_
      refine Schema.boundsOnly_decode?.bind fun _ _ => ?_
      exact Schema.boundsOnly_decode?.bind fun _ _ => .ok _

theorem decode?_of_short (short : data.size < fixedRegionSize) :
    decode? data = .error (.truncatedState data.size) := by
  rw [decode?, sections?, spans?, if_pos short]
  rfl

/-- A buffer shorter than the fixed region is refused as truncated, the buffers of the grammar are
read as states, and all others are refused for their bounds. -/
theorem decode?_grammar (data : ByteArray) :
    (Fails .truncatedInput (decode? data) ↔ data.size < fixedRegionSize) ∧
      ((∃ s, decode? data = .ok s) ↔ fixedRegionSize ≤ data.size ∧ WellFormed data) ∧
      (Fails .recordBounds (decode? data) ↔
        fixedRegionSize ≤ data.size ∧ ¬WellFormed data) := by
  refine ⟨?_, exists_decode?_iff, ?_⟩
  · constructor
    · rintro ⟨f, failed, kind⟩
      by_contra long
      rw [boundsOnly_decode? (Nat.not_lt.mp long) f failed] at kind
      cases kind
    · exact fun short => ⟨_, decode?_of_short short, rfl⟩
  · constructor
    · rintro ⟨f, failed, kind⟩
      have inside : fixedRegionSize ≤ data.size := by
        by_contra short
        rw [decode?_of_short (Nat.not_le.mp short), Except.error.injEq] at failed
        rw [← failed] at kind
        cases kind
      refine ⟨inside, fun wellFormed => ?_⟩
      obtain ⟨s, read⟩ := exists_decode?_iff.mpr ⟨inside, wellFormed⟩
      cases failed.symm.trans read
    · rintro ⟨inside, bad⟩
      rcases (boundsOnly_decode? inside).eq_ok_or with read | refused
      · exact absurd (exists_decode?_iff.mp read).2 bad
      · exact refused

end Snapshot

end BeaconBranch
