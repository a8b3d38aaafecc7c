import BeaconBranch.Proofs.Composer.Trees
import BeaconBranch.Proofs.State.Defects

/-!
Which states can be proved from. The composer of a state and the state's own root need the roots of
all fields, and both fail with the first defect of the lists that the state keeps as bytes. Main
statements: a state that was read has a composer and a root exactly if these lists are whole, and
how the way from a buffer to a composer can end.
-/

namespace BeaconBranch

open Outcome Merkle

/-! ### The kept lists -/

namespace State

/-- The lists of a state whose bytes are kept and can have a defect. -/
def keptLists : List String :=
  ["historical_roots", "eth1_data_votes", "inactivity_scores", "historical_summaries"]

/-- A field is one of these lists, or it has no defect whatever its bytes are. -/
theorem kept_or_sound : ∀ f ∈ fields, f.name ∈ keptLists ∨
    ∀ b, f.kind.defect? f.name b = none := by
  simp [fields, keptLists, SectionKind.defect?]

theorem exists_kept : ∀ name ∈ keptLists, ∃ f ∈ fields, f.name = name ∧ f.size? = none ∧
    Snapshot.typedFields.contains f.name = false := by decide

/-- The first defect is one of the kept lists. -/
theorem firstDefect?_congr {bytes others : String → ByteArray}
    (same : ∀ name ∈ keptLists, bytes name = others name) :
    firstDefect? bytes = firstDefect? others := by
  have listed : ∀ bytes : String → ByteArray, firstDefect? bytes =
      (fields.map fun f => f.kind.defect? f.name (bytes f.name)).findSome? id := by
    intro bytes
    rw [firstDefect?, List.findSome?_map]
    rfl
  rw [listed, listed]
  refine congrArg (List.findSome? id) (List.map_congr_left fun f mem => ?_)
  rcases kept_or_sound f mem with kept | sound
  · rw [same f.name kept]
  · rw [sound, sound]

end State

open State

namespace Snapshot

variable {data : ByteArray} {s : Snapshot} {all : Sections}

/-- The state holds the kept lists as the sections do. -/
theorem ReadFrom.get_sections (read : s.ReadFrom all) (cut : sections? data = .ok all)
    {name : String} (kept : name ∈ keptLists) : s.sections.get name = all.get name := by
  obtain ⟨parts, tiles, rfl, -⟩ := sections?_eq_ok_iff.mp cut
  obtain ⟨f, mem, rfl, -, untyped⟩ := exists_kept name kept
  obtain ⟨k, field⟩ := List.getElem?_of_mem mem
  obtain ⟨b, part⟩ := tiles.exists_part field
  rw [Sections.get, read.lookup_sections field part untyped, Sections.get,
    lookup_section field part]

/-- The state that was read, the sections and the offsets tell the same first defect. -/
theorem firstDefect?_of_decode? (cut : sections? data = .ok all) (read : s.ReadFrom all) :
    firstDefect? s.sections.get = firstDefect? all.get ∧
      firstDefect? (told data) = firstDefect? all.get := by
  refine ⟨firstDefect?_congr fun name kept => read.get_sections cut kept,
    firstDefect?_congr fun name kept => ?_⟩
  obtain ⟨f, mem, rfl, varies, -⟩ := exists_kept name kept
  exact (get_of_variable cut mem varies).symm

/-- The lists of the validators and of the balances always have a root. -/
theorem ReadFrom.exists_listRoots {parts : List ByteArray}
    (read : s.ReadFrom ((fields.map (·.name)).zip parts))
    (tiles : Tiles fixedRegionSize fields parts) :
    (∃ root, s.validatorsRoot? = .ok root) ∧ ∃ root, s.balancesRoot? = .ok root := by
  have hashes : ∀ (k : Nat) (f : SectionField), fields[k]? = some f →
      (∀ b, f.kind.defect? f.name b = none) → ∃ root, s.fieldRoot? f = .ok root := by
    intro k f field sound
    have mem := List.mem_of_getElem? field
    obtain ⟨b, part⟩ := tiles.exists_part field
    have regular := SectionKind.regular_of_mem_fields f mem
    have readOf := read.readOf tiles field part
    have holds := SectionKind.holds_of_sound regular (SectionKind.tolerant_of_mem_fields f mem)
      readOf (sound _)
    rw [read.fieldRoot?_eq tiles field part]
    exact ⟨_, (SectionKind.root?_eq_ok_iff regular readOf.size
      (read.size_payloadHeader field part)).mpr ⟨holds, rfl⟩⟩
  exact ⟨hashes 11 _ rfl fun _ => rfl, hashes 12 _ rfl fun _ => rfl⟩

end Snapshot

namespace Composer

variable {s : Snapshot}

/-- A composer whose lists have roots fails as the roots of the fields do. -/
theorem ofSnapshot?_of_fieldRoots? {vRoot bRoot : ByteArray} {f : Fault}
    (validators : s.validatorsRoot? = .ok vRoot) (balances : s.balancesRoot? = .ok bRoot)
    (fails : s.fieldRoots? [] = .error f) : ofSnapshot? s = .error f := by
  obtain ⟨make, made⟩ := exists_ofSnapshot?_eq validators balances
  rw [made, Snapshot.tree?, fails]
  rfl

end Composer

/-! ### A state with votes -/

namespace State

/-- The sections of a state of zeros with these votes. -/
def partsWithVotes (votes : ByteArray) : List ByteArray :=
  fields.map fun f =>
    match f.kind with
    | .recordList _ _ => votes
    | k => k.blank

/-- The buffer of a state with one vote more than a voting period has room for. -/
def crowdedBuffer : ByteArray := encode (partsWithVotes (Bytes.zeros (2049 * 72)))

variable {votes : ByteArray}

theorem tiles_partsWithVotes (short : votes.size ≤ 1000000) :
    Tiles fixedRegionSize fields (partsWithVotes votes) := by
  have room : fixedRegionSize + fields.length * 1000000 < twoTo 32 := by decide +kernel
  refine tiles_of_short ?_ room
  rw [partsWithVotes, List.forall₂_map_right_iff, List.forall₂_same]
  intro f _
  split
  · rename_i kind
    rw [SectionField.size?, kind]
    exact ⟨fun n size => (by cases size), fun _ => short⟩
  · exact f.kind.size_blank

/-- Whatever the votes are, the state of zeros with them is read, and of the lists that are kept it
has no other. -/
theorem exists_decode?_partsWithVotes (short : votes.size ≤ 1000000) :
    ∃ s, Snapshot.decode? (encode (partsWithVotes votes)) = .ok s ∧
      s.sections.get "eth1_data_votes" = votes ∧
      ∀ name ∈ keptLists, name ≠ "eth1_data_votes" → (s.sections.get name).size = 0 := by
  have cut := sections?_eq_ok_iff.mpr ⟨_, tiles_partsWithVotes short, rfl, rfl⟩
  have given {k : Nat} {f : SectionField} {b : ByteArray} :=
    @Snapshot.getD_section (partsWithVotes votes) k f b
  have reads := Snapshot.exists_readFrom_iff cut
  rw [given (k := 11) rfl rfl, given (k := 12) rfl rfl, given (k := 24) rfl rfl] at reads
  have validators := Snapshot.exists_decodeValidators? (SectionKind.holds_blank trivial)
  obtain ⟨s, read⟩ := reads.mpr ⟨validators, exists_decodeBalances?_iff.mpr rfl,
    SectionKind.holds_blank (k := .payloadHeader) trivial⟩
  refine ⟨s, Snapshot.decode?_eq_ok_iff.mpr ⟨_, cut, read⟩, ?_, fun name kept other => ?_⟩
  · rw [read.get_sections cut (by decide)]
    exact given (k := 9) rfl rfl
  · rw [read.get_sections cut kept]
    simp only [keptLists, List.mem_cons, List.not_mem_nil, or_false] at kept
    obtain rfl | rfl | rfl | rfl := kept
    · exact congrArg ByteArray.size (given (k := 7) rfl rfl)
    · exact absurd rfl other
    · exact congrArg ByteArray.size (given (k := 21) rfl rfl)
    · exact congrArg ByteArray.size (given (k := 27) rfl rfl)

/-- If only the votes have bytes, the lists are whole exactly if the votes are. -/
theorem listsWhole_iff_of_votes {bytes : String → ByteArray}
    (others : ∀ name ∈ keptLists, name ≠ "eth1_data_votes" → (bytes name).size = 0) :
    ListsWhole bytes ↔ (bytes "eth1_data_votes").size % 72 = 0 ∧
      (bytes "eth1_data_votes").size / 72 ≤ 2048 := by
  have roots := others "historical_roots" (by decide) (by decide)
  have scores := others "inactivity_scores" (by decide) (by decide)
  have summaries := others "historical_summaries" (by decide) (by decide)
  refine ⟨(·.eth1DataVotes), fun votes => ⟨?_, votes, ?_, ?_⟩⟩
  · simp [roots]
  · simp [scores]
  · simp [summaries]

/-- Too many votes are the first defect of a state without historical roots. -/
theorem firstDefect?_of_votes {bytes : String → ByteArray} {n : Nat}
    (noRoots : (bytes "historical_roots").size = 0)
    (votes : (bytes "eth1_data_votes").size = n * 72) (more : 2048 < n) :
    firstDefect? bytes = some (.tooManyChunks n 2048) := by
  have first : ∀ limit, piecesDefect? "historical_roots" 32 limit (bytes "historical_roots") =
      none := by
    intro limit
    rw [piecesDefect?_eq_none_iff, noRoots]
    exact ⟨rfl, Nat.zero_le _⟩
  have second : piecesDefect? "eth1_data_votes" Schema.eth1Data.size Limits.eth1DataVotes
      (bytes "eth1_data_votes") = some (.tooManyChunks n 2048) := by
    have most : depthForLimit Limits.eth1DataVotes = 11 := depthForLimit_twoTo 11
    have width : Schema.eth1Data.size = 72 := rfl
    have room : twoTo 11 = 2048 := rfl
    rw [piecesDefect?, votes, width, most, room, Nat.mul_mod_left, Nat.mul_div_cancel n (by decide),
      if_neg (by decide), if_pos more]
  refine List.findSome?_eq_some_iff.mpr ⟨fields.take 9, _, fields.drop 10, rfl, second, ?_⟩
  simp [fields, SectionKind.defect?, first]

/-- The state with too many votes is read like any other. -/
theorem exists_crowdedState : ∃ s, Snapshot.decode? crowdedBuffer = .ok s ∧
    (s.sections.get "eth1_data_votes").size = 2049 * 72 ∧
    ∀ name ∈ keptLists, name ≠ "eth1_data_votes" → (s.sections.get name).size = 0 := by
  have size : (Bytes.zeros (2049 * 72)).size = 2049 * 72 := Bytes.size_zeros _
  obtain ⟨s, read, votes, others⟩ := exists_decode?_partsWithVotes
    (show (Bytes.zeros (2049 * 72)).size ≤ 1000000 by rw [size]; decide)
  exact ⟨s, read, by rw [votes, size], others⟩

end State

/-! ### Which states can be proved from -/

namespace Snapshot

variable {data : ByteArray} {s : Snapshot}

/-- A state without defects has a root and a composer. -/
theorem provable_of_sound (read : decode? data = .ok s)
    (sound : firstDefect? s.sections.get = none) :
    (∃ root, s.root? = .ok root) ∧ ∃ c, Composer.ofSnapshot? s = .ok c := by
  obtain ⟨all, cut, readFrom⟩ := decode?_eq_ok_iff.mp read
  rw [(firstDefect?_of_decode? cut readFrom).1] at sound
  obtain ⟨parts, tiles, rfl, rfl⟩ := sections?_eq_ok_iff.mp cut
  cases hashed : s.fieldRoots? [] with
  | error e =>
    rw [(readFrom.fieldRoots?_eq_error_iff tiles).mp hashed] at sound
    cases sound
  | ok roots =>
    have holds := ((readFrom.fieldRoots?_eq_ok_iff tiles).mp hashed).1
    obtain ⟨s', read', -, root⟩ := exists_decode? tiles holds
    obtain rfl : s' = s := Except.ok.inj (read'.symm.trans read)
    exact ⟨⟨_, root⟩, Composer.exists_ofSnapshot? root⟩

/-- A state with a defect has neither, for the first one. -/
theorem refused_of_defect (read : decode? data = .ok s) {f : Fault}
    (defect : firstDefect? s.sections.get = some f) :
    s.root? = .error f ∧ Composer.ofSnapshot? s = .error f := by
  obtain ⟨all, cut, readFrom⟩ := decode?_eq_ok_iff.mp read
  rw [(firstDefect?_of_decode? cut readFrom).1] at defect
  obtain ⟨parts, tiles, rfl, -⟩ := sections?_eq_ok_iff.mp cut
  have fails := (readFrom.fieldRoots?_eq_error_iff tiles).mpr defect
  obtain ⟨⟨vRoot, validators⟩, bRoot, balances⟩ := readFrom.exists_listRoots tiles
  refine ⟨?_, Composer.ofSnapshot?_of_fieldRoots? validators balances fails⟩
  simp only [root?, tree?, fails, error_bind]

/-- A state that was read has a composer, and likewise a root, exactly if the lists that it keeps as
bytes are whole and not over their limits. -/
theorem provable_iff_listsWhole (read : decode? data = .ok s) :
    ((∃ c, Composer.ofSnapshot? s = .ok c) ↔ ListsWhole s.sections.get) ∧
      ((∃ root, s.root? = .ok root) ↔ ListsWhole s.sections.get) := by
  rw [← firstDefect?_eq_none_iff]
  cases defect : firstDefect? s.sections.get with
  | none => simp [provable_of_sound read defect]
  | some f => simp [refused_of_defect read defect]

theorem provable_iff_listsWhole_votes :
    (∃ s c root, decode? (encode (partsWithVotes (Bytes.zeros (2 * 72)))) = .ok s ∧
      Composer.ofSnapshot? s = .ok c ∧ s.root? = .ok root ∧ ListsWhole s.sections.get) ∧
    ∃ s, decode? crowdedBuffer = .ok s ∧ ¬ListsWhole s.sections.get ∧
      (¬∃ c, Composer.ofSnapshot? s = .ok c) ∧ ¬∃ root, s.root? = .ok root := by
  constructor
  · have size : (Bytes.zeros (2 * 72)).size = 2 * 72 := Bytes.size_zeros _
    obtain ⟨s, read, votes, others⟩ := exists_decode?_partsWithVotes
      (show (Bytes.zeros (2 * 72)).size ≤ 1000000 by rw [size]; decide)
    have whole : ListsWhole s.sections.get := by
      rw [listsWhole_iff_of_votes others, votes, size]
      decide
    obtain ⟨composer, hashes⟩ := provable_iff_listsWhole read
    obtain ⟨c, built⟩ := composer.mpr whole
    obtain ⟨root, hashed⟩ := hashes.mpr whole
    exact ⟨s, c, root, read, built, hashed, whole⟩
  · obtain ⟨s, read, votes, others⟩ := exists_crowdedState
    have crowded : ¬ListsWhole s.sections.get := by
      rw [listsWhole_iff_of_votes others, votes]
      decide
    obtain ⟨composer, hashes⟩ := provable_iff_listsWhole read
    exact ⟨s, read, crowded, mt composer.mp crowded, mt hashes.mp crowded⟩

end Snapshot

/-! ### From a buffer to a composer -/

namespace Composer

/-- The composer of the state in a buffer. -/
def ofBuffer? (data : ByteArray) : Except Fault Composer := do ofSnapshot? (← Snapshot.decode? data)

/-- How the way from a buffer to a composer can end, and when it ends so. -/
inductive Ending (data : ByteArray) : Except Fault Composer → Prop
  | truncated (short : data.size < fixedRegionSize) :
      Ending data (.error (.truncatedState data.size))
  | refused (long : fixedRegionSize ≤ data.size) (bad : ¬WellFormed data) {f : Fault}
      (kind : f.kind = .recordBounds) : Ending data (.error f)
  | uneven (long : fixedRegionSize ≤ data.size) (good : WellFormed data) {what : String}
      {size : Nat} {width : Int}
      (first : firstDefect? (told data) = some (.notWholeRecords what size width)) :
      Ending data (.error (.notWholeRecords what size width))
  | crowded (long : fixedRegionSize ≤ data.size) (good : WellFormed data) {count most : Nat}
      (first : firstDefect? (told data) = some (.tooManyChunks count most)) :
      Ending data (.error (.tooManyChunks count most))
  | built (long : fixedRegionSize ≤ data.size) (good : WellFormed data)
      (whole : firstDefect? (told data) = none) (c : Composer) : Ending data (.ok c)

theorem ending_ofBuffer? (data : ByteArray) : Ending data (ofBuffer? data) := by
  rw [ofBuffer?]
  rcases Nat.lt_or_ge data.size fixedRegionSize with short | long
  · rw [Snapshot.decode?_of_short short]
    exact .truncated short
  · rcases (Snapshot.boundsOnly_decode? long).eq_ok_or with ⟨s, read⟩ | ⟨f, failed, kind⟩
    · have good := (Snapshot.exists_decode?_iff.mp ⟨s, read⟩).2
      obtain ⟨all, cut, readFrom⟩ := Snapshot.decode?_eq_ok_iff.mp read
      obtain ⟨kept, toldSame⟩ := Snapshot.firstDefect?_of_decode? cut readFrom
      have same : firstDefect? (told data) = firstDefect? s.sections.get := toldSame.trans kept.symm
      rw [read, ok_bind]
      cases defect : firstDefect? s.sections.get with
      | none =>
        obtain ⟨-, c, built⟩ := Snapshot.provable_of_sound read defect
        rw [built]
        exact .built long good (same.trans defect) c
      | some f =>
        rw [(Snapshot.refused_of_defect read defect).2]
        cases isDefect_of_firstDefect? defect with
        | uneven => exact .uneven long good (same.trans defect)
        | tooMany => exact .crowded long good (same.trans defect)
    · rw [failed, error_bind]
      refine .refused long (fun good => ?_) kind
      obtain ⟨s, read⟩ := Snapshot.exists_decode?_iff.mpr ⟨long, good⟩
      cases failed.symm.trans read

/-- From a buffer to a composer there are two kinds of refusals for a state snapshot, and a third
one that is none: a list with more items than it may have, if every list in front of it is whole, is
reported as a wrong value and not as a defect of the snapshot. -/
theorem ofBuffer?_outcomes (data : ByteArray) :
    (Fails .truncatedInput (ofBuffer? data) ↔ data.size < fixedRegionSize) ∧
    (Fails .recordBounds (ofBuffer? data) ↔ fixedRegionSize ≤ data.size ∧ (WellFormed data →
      ∃ what size width, firstDefect? (told data) = some (.notWholeRecords what size width))) ∧
    (Fails .value (ofBuffer? data) ↔ fixedRegionSize ≤ data.size ∧ WellFormed data ∧
      ∃ count most, firstDefect? (told data) = some (.tooManyChunks count most)) ∧
    ((∃ c, ofBuffer? data = .ok c) ↔ fixedRegionSize ≤ data.size ∧ WellFormed data ∧
      ListsWhole (told data)) ∧
    ∀ f, ofBuffer? data = .error f →
      f.kind = .truncatedInput ∨ f.kind = .recordBounds ∨
        ∃ count most, f = .tooManyChunks count most := by
  rw [← firstDefect?_eq_none_iff]
  have ending := ending_ofBuffer? data
  generalize ofBuffer? data = result at ending ⊢
  cases ending with
  | truncated short => simp [Fails, short, Nat.not_le.mpr short, Fault.kind]
  | refused long bad kind => simp [Fails, long, Nat.not_lt.mpr long, bad, kind]
  | uneven long good first => simp [Fails, long, Nat.not_lt.mpr long, good, first, Fault.kind]
  | crowded long good first => simp [Fails, long, Nat.not_lt.mpr long, good, first, Fault.kind]
  | built long good whole c => simp [Fails, long, Nat.not_lt.mpr long, good, whole]

/-- A buffer that is read as a state can be refused for something that is no defect of it. -/
theorem crowdedBuffer_refused : ofBuffer? crowdedBuffer = .error (.tooManyChunks 2049 2048) ∧
    (Fault.tooManyChunks 2049 2048).kind.isSnapshotDefect = false := by
  refine ⟨?_, rfl⟩
  obtain ⟨s, read, votes, others⟩ := exists_crowdedState
  have defect : firstDefect? s.sections.get = some (.tooManyChunks 2049 2048) :=
    firstDefect?_of_votes (others "historical_roots" (by decide) (by decide)) votes (by decide)
  rw [ofBuffer?, read, ok_bind]
  exact (Snapshot.refused_of_defect read defect).2

end Composer

end BeaconBranch
