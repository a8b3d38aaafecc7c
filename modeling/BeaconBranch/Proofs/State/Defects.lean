import BeaconBranch.Proofs.State.Grammar

/-!
Defects of sections. Of a state that was read, most sections have a root whatever they hold: their
size is right, they were read before, or an offset cannot tell so many bytes that their tree would
be full. The bytes of five lists are only kept, and these can be wrong in two ways: a list is not
made of whole pieces, or it has more of them than its tree has room for. Main statements: the roots
of the fields fail with the first defect in the order of the fields, and there is none exactly if
four of the lists are whole and three of them short enough.
-/

namespace BeaconBranch

open Outcome Merkle

namespace Schema

variable {s : Schema} {b : ByteArray}

/-- A record of which every byte string of the right size is one. -/
def Plain (s : Schema) : Prop := s.extraDataPlace? = none ∧ ∀ p ∈ s.places, p.2.kind ≠ .flag

instance (s : Schema) : Decidable s.Plain :=
  inferInstanceAs (Decidable (s.extraDataPlace? = none ∧ ∀ p ∈ s.places, p.2.kind ≠ .flag))

theorem reads_of_size (regular : s.Regular) (plain : s.Plain) (size : b.size = s.size) :
    s.Reads b :=
  (exists_decode?_iff_size regular plain.1 plain.2).mpr size

theorem cut?_of_uneven {width : Nat} (pos : 0 < width) {what : String}
    (uneven : b.size % width ≠ 0) :
    cut? b width what = .error (.notWholeRecords what b.size width) := by
  rw [cut?, if_neg (by omega), if_pos (by omega)]

end Schema

namespace Merkle

theorem chunkListRoot?_of_large {chunks : Array ByteArray} {limit : Int}
    (large : twoTo (depthForLimit limit) < chunks.size) : chunkListRoot? chunks limit =
      .error (.tooManyChunks chunks.size (twoTo (depthForLimit limit))) := by
  rw [chunkListRoot?, listRoot?, rootAtDepth?, if_neg (by omega), Int.toNat_natCast]
  dsimp only
  rw [if_pos large]
  rfl

end Merkle

namespace State

/-! ### Defects of a list -/

/-- What is wrong with a list of pieces: their width comes before their number. -/
def piecesDefect? (name : String) (width limit : Nat) (b : ByteArray) : Option Fault :=
  if b.size % width ≠ 0 then some (.notWholeRecords name b.size width)
  else if twoTo (depthForLimit limit) < b.size / width then
    some (.tooManyChunks (b.size / width) (twoTo (depthForLimit limit)))
  else none

section Pieces

variable {name : String} {width limit : Nat} {b : ByteArray} {f : Fault}

theorem piecesDefect?_eq_none_iff : piecesDefect? name width limit b = none ↔
    b.size % width = 0 ∧ b.size / width ≤ twoTo (depthForLimit limit) := by
  rw [piecesDefect?]
  by_cases whole : b.size % width = 0
  · simp [whole]
  · simp [whole]

theorem size_pieces (pos : 0 < width) (whole : b.size % width = 0) :
    (Bytes.chunks width b).size = b.size / width :=
  (Nat.div_eq_of_eq_mul_left pos (Bytes.size_chunks_of_whole pos whole).symm).symm

/-- A list without defect can be hashed. -/
theorem pieced_of_sound (pos : 0 < width) (small : depthForLimit limit < 256)
    (sound : piecesDefect? name width limit b = none) : Pieced width (depthForLimit limit) b := by
  obtain ⟨whole, room⟩ := piecesDefect?_eq_none_iff.mp sound
  rw [← size_pieces pos whole] at room
  exact ⟨pos, whole, room, Nat.lt_of_le_of_lt room (twoTo_lt small)⟩

/-- A list with a defect is refused for it, however its pieces are hashed. -/
theorem pieceList_of_defect (hash? : Array ByteArray → Except Fault (Array ByteArray))
    (pos : 0 < width) (hashes : ∀ pieces, (∀ x ∈ pieces, x.size = width) →
      ∃ roots, hash? pieces = .ok roots ∧ roots.size = pieces.size)
    (defect : piecesDefect? name width limit b = some f) :
    (Schema.cut? b width name >>= fun pieces => hash? pieces >>= fun roots =>
      chunkListRoot? roots limit) = .error f := by
  rw [piecesDefect?] at defect
  split at defect
  · rename_i uneven
    rw [Schema.cut?_of_uneven pos uneven, Option.some.inj defect]
    rfl
  · rename_i even
    have whole : b.size % width = 0 := Decidable.not_not.mp even
    split at defect
    · rename_i large
      obtain ⟨roots, hashed, count⟩ :=
        hashes (Bytes.chunks width b) fun x mem => Bytes.size_of_mem_chunks whole mem
      rw [size_pieces pos whole] at count
      rw [Schema.cut?_eq_ok_iff.mpr ⟨⟨pos, whole⟩, rfl⟩]
      show (hash? (Bytes.chunks width b) >>= fun roots => chunkListRoot? roots limit) = .error f
      rw [hashed]
      show chunkListRoot? roots limit = .error f
      rw [chunkListRoot?_of_large (by rwa [count]), count, Option.some.inj defect]
    · cases defect

end Pieces

/-! ### Defects of a section -/

namespace SectionKind

/-- Why a section has no root, although the state was read. -/
def defect? (name : String) (b : ByteArray) : SectionKind → Option Fault
  | chunkList limit => piecesDefect? name 32 limit b
  | recordList s limit => piecesDefect? name s.size limit b
  | digestList s limit => piecesDefect? name s.size limit b
  | uint64List _ => if b.size % 8 ≠ 0 then some (.notWholeRecords name b.size 8) else none
  | _ => none

/-- A kind whose pieces are counted against a limit that a list can be over. -/
def isCounted : SectionKind → Bool
  | chunkList _ | recordList _ _ | digestList _ _ => true
  | _ => false

/-- The records of a kind can hold any bytes, the number of its pieces fits into a chunk, and packed
items have room for every list that an offset can tell. -/
def Tolerant : SectionKind → Prop
  | record s => s.Plain
  | recordList s limit => s.Plain ∧ depthForLimit limit < 256
  | chunkList limit | digestList _ limit => depthForLimit limit < 256
  | byteList limit | uint64List limit => twoTo 32 ≤ limit
  | _ => True

instance (k : SectionKind) : Decidable k.Tolerant :=
  match k with
  | record s => inferInstanceAs (Decidable s.Plain)
  | recordList s limit => inferInstanceAs (Decidable (s.Plain ∧ depthForLimit limit < 256))
  | chunkList limit | digestList _ limit => inferInstanceAs (Decidable (depthForLimit limit < 256))
  | byteList limit | uint64List limit => inferInstanceAs (Decidable (twoTo 32 ≤ limit))
  | uint64 | root | chunkVector _ | uint64Vector _ | bits | syncCommittee | validators | balances
  | payloadHeader => inferInstanceAs (Decidable True)

theorem tolerant_of_mem_fields : ∀ f ∈ fields, f.kind.Tolerant := by decide +kernel

/-- What reading a state tells of a section. -/
structure ReadOf (k : SectionKind) (b : ByteArray) : Prop where
  size : ∀ n, k.size? = some n → b.size = n
  short : k.size? = none → k.isCounted = false → b.size < twoTo 32
  validators : k = .validators → ∃ vs, decodeValidators? b = .ok vs
  balances : k = .balances → ∃ ns, decodeBalances? b = .ok ns
  payloadHeader : k = .payloadHeader → Schema.payloadHeader.Reads b

variable {k : SectionKind} {b : ByteArray} {name : String} {f : Fault}

/-- So many bytes as an offset can tell are packed into a tree that has room for them. -/
theorem packed_of_short {d n : Nat} (short : b.size < twoTo 32) (le : n ≤ b.size)
    (room : (b.size + 31) / 32 ≤ twoTo d) : Packed d n b := by
  have length : twoTo 32 < twoTo 256 := twoTo_lt (by decide)
  exact ⟨by rwa [size_chunksOf], by omega⟩

/-- A section without defect is one that its kind can have. -/
theorem holds_of_sound (regular : k.Regular) (tolerant : k.Tolerant) (read : k.ReadOf b)
    (sound : k.defect? name b = none) : k.Holds b := by
  have least : twoTo 32 < twoTo 38 := twoTo_lt (by decide)
  cases k with
  | uint64 | root | chunkVector _ | uint64Vector _ | bits | syncCommittee => exact read.size _ rfl
  | record s => exact Schema.reads_of_size regular tolerant (read.size _ rfl)
  | payloadHeader => exact read.payloadHeader rfl
  | chunkList limit => exact pieced_of_sound (by decide) tolerant sound
  | digestList s limit => exact pieced_of_sound regular tolerant sound
  | recordList s limit =>
    have pieced := pieced_of_sound regular.2 tolerant.2 sound
    exact ⟨pieced, fun x mem => Schema.reads_of_size regular.1 tolerant.1
      (Bytes.size_of_mem_chunks pieced.whole mem)⟩
  | validators =>
    obtain ⟨vs, decoded⟩ := read.validators rfl
    obtain ⟨whole, records⟩ := decodeValidators?_eq_ok_iff.mp decoded
    have short := read.short rfl rfl
    have count := size_pieces (by decide) whole
    have fewer : b.size / Schema.validator.size ≤ b.size := Nat.div_le_self _ _
    have length : twoTo 32 < twoTo 256 := twoTo_lt (by decide)
    have most : twoTo 38 < twoTo 40 := twoTo_lt (by decide)
    refine ⟨⟨by decide, whole, ⟨?_, by omega⟩⟩, fun x mem => ?_⟩
    · rw [Limits.validatorTreeHeight]
      omega
    · rw [mapM_toList_eq_ok_iff] at records
      exact exists_of_mapM records (Array.mem_toList_iff.mpr mem)
  | balances =>
    obtain ⟨ns, decoded⟩ := read.balances rfl
    have short := read.short rfl rfl
    refine ⟨(decodeBalances?_eq_ok_iff.mp decoded).1,
      packed_of_short short (Nat.div_le_self _ _) ?_⟩
    rw [Limits.balanceTreeHeight]
    omega
  | byteList limit =>
    have short := read.short rfl rfl
    have enough : twoTo 32 ≤ limit := tolerant
    have room := le_twoTo_depthForLimit ((limit + 31) / 32)
    exact packed_of_short short (Nat.le_refl _) (Nat.le_trans (by omega) room)
  | uint64List limit =>
    have short := read.short rfl rfl
    have enough : twoTo 32 ≤ limit := tolerant
    have room := le_twoTo_depthForLimit ((limit * 8 + 31) / 32)
    have whole : b.size % 8 = 0 := by
      by_contra uneven
      rw [defect?, if_pos uneven] at sound
      cases sound
    exact ⟨whole, packed_of_short short (Nat.div_le_self _ _) (Nat.le_trans (by omega) room)⟩

/-- A section with a defect is refused for it. -/
theorem root?_of_defect (regular : k.Regular) (tolerant : k.Tolerant)
    (defect : k.defect? name b = some f) : k.root? name b = .error f := by
  cases k with
  | chunkList limit =>
    exact pieceList_of_defect (fun pieces => .ok pieces) (by decide)
      (fun pieces _ => ⟨pieces, rfl, rfl⟩) defect
  | digestList s limit =>
    exact pieceList_of_defect (fun pieces => .ok (pieces.map Sha256.digest)) regular
      (fun pieces _ => ⟨_, rfl, Array.size_map⟩) defect
  | recordList s limit =>
    refine pieceList_of_defect _ regular.2 (fun pieces sizes => ?_) defect
    have reads : ∀ x ∈ pieces, s.Reads x := fun x mem =>
      Schema.reads_of_size regular.1 tolerant.1 (sizes x mem)
    refine ⟨_, (Schema.mapM_recordRoot?_eq_ok_iff regular.1).mpr
      ⟨reads, List.toList_toArray.symm⟩, ?_⟩
    rw [List.size_toArray, List.length_map, List.length_map, Array.length_toList]
  | uint64List limit =>
    rw [defect?] at defect
    split at defect
    · rename_i uneven
      have cut : Schema.cut? b 8 name = .error (.notWholeRecords name b.size 8) :=
        Schema.cut?_of_uneven (by decide) uneven
      rw [root?, cut, Option.some.inj defect]
      rfl
    · cases defect
  | uint64 | root | record _ | chunkVector _ | uint64Vector _ | bits | syncCommittee | validators
  | balances | byteList _ | payloadHeader => cases defect

/-- Of a state that was read, a section has no root exactly if it has a defect. -/
theorem root?_eq_error_iff (regular : k.Regular) (tolerant : k.Tolerant) (read : k.ReadOf b)
    (present : k = .payloadHeader → b.size ≠ 0) :
    k.root? name b = .error f ↔ k.defect? name b = some f := by
  cases defect : k.defect? name b with
  | some g =>
    rw [root?_of_defect regular tolerant defect]
    simp
  | none =>
    have holds := holds_of_sound regular tolerant read defect
    rw [(root?_eq_ok_iff regular read.size present).mpr ⟨holds, rfl⟩]
    simp

end SectionKind

/-! ### Short sections -/

section Tiled

variable {heap : Nat} {fs : List SectionField} {bs : List ByteArray}

/-- The next variable section starts where a word can tell. -/
theorem Tiles.lt_of_variable (tiles : Tiles heap fs bs) {g : SectionField} (mem : g ∈ fs)
    (varies : g.size? = none) : heap < twoTo 32 := by
  induction tiles with
  | nil => cases mem
  | @inPlace _ f _ _ _ size _ ih =>
    rcases List.mem_cons.mp mem with rfl | later
    · cases size.symm.trans varies
    · exact ih later
  | behind _ lt _ _ => exact lt

/-- A variable section in front of another one is so short that an offset can tell where it ends. -/
theorem Tiles.size_lt (tiles : Tiles heap fs bs) {k : Nat} {f : SectionField} {b : ByteArray}
    (field : fs[k]? = some f) (part : bs[k]? = some b) (varies : f.size? = none)
    {g : SectionField} (later : g ∈ fs.drop (k + 1)) (variesToo : g.size? = none) :
    b.size < twoTo 32 := by
  induction tiles generalizing k with
  | nil => cases field
  | inPlace size _ ih =>
    cases k with
    | zero =>
      obtain rfl := Option.some.inj field
      cases size.symm.trans varies
    | succ k => exact ih field part later
  | behind _ _ rest ih =>
    cases k with
    | zero =>
      obtain rfl := Option.some.inj part
      have next := rest.lt_of_variable later variesToo
      omega
    | succ k => exact ih field part later

end Tiled

/-- Behind every list that is not counted stands another variable section. -/
theorem exists_variable_behind : ∀ e ∈ fields.zipIdx, e.1.size? = none →
    e.1.kind.isCounted = false → ∃ g ∈ fields.drop (e.2 + 1), g.size? = none := by decide

theorem name_of_validators : ∀ f ∈ fields, f.kind = .validators → f.name = "validators" := by
  simp [fields]

theorem name_of_balances : ∀ f ∈ fields, f.kind = .balances → f.name = "balances" := by
  simp [fields]

/-! ### The first defect -/

/-- The first defect of a state, in the order of its fields. -/
def firstDefect? (bytes : String → ByteArray) : Option Fault :=
  fields.findSome? fun f => f.kind.defect? f.name (bytes f.name)

/-- The lists that a state keeps as bytes are made of whole pieces, and of no more than they may
have. -/
structure ListsWhole (bytes : String → ByteArray) : Prop where
  historicalRoots : (bytes "historical_roots").size % 32 = 0 ∧
    (bytes "historical_roots").size / 32 ≤ twoTo 24
  eth1DataVotes : (bytes "eth1_data_votes").size % 72 = 0 ∧
    (bytes "eth1_data_votes").size / 72 ≤ 2048
  inactivityScores : (bytes "inactivity_scores").size % 8 = 0
  historicalSummaries : (bytes "historical_summaries").size % 64 = 0 ∧
    (bytes "historical_summaries").size / 64 ≤ twoTo 24

theorem firstDefect?_eq_none_iff {bytes : String → ByteArray} :
    firstDefect? bytes = none ↔ ListsWhole bytes := by
  have roots : depthForLimit Limits.historicalRoots = 24 := depthForLimit_twoTo 24
  have votes : depthForLimit Limits.eth1DataVotes = 11 := depthForLimit_twoTo 11
  have widths : Schema.eth1Data.size = 72 ∧ Schema.historicalSummary.size = 64 := by decide
  rw [firstDefect?, List.findSome?_eq_none_iff]
  simp only [fields, List.forall_mem_cons, List.not_mem_nil, SectionKind.defect?]
  simp only [piecesDefect?_eq_none_iff, roots, votes, widths, ne_eq, ite_not, ite_eq_left_iff,
    reduceCtorEq, imp_false, Decidable.not_not, IsEmpty.forall_iff, implies_true, and_true,
    true_and]
  constructor
  · rintro ⟨historicalRoots, eth1DataVotes, inactivityScores, historicalSummaries⟩
    exact ⟨historicalRoots, eth1DataVotes, inactivityScores, historicalSummaries⟩
  · rintro ⟨historicalRoots, eth1DataVotes, inactivityScores, historicalSummaries⟩
    exact ⟨historicalRoots, eth1DataVotes, inactivityScores, historicalSummaries⟩

/-- The two kinds of defects. -/
inductive IsDefect : Fault → Prop
  | uneven (what : String) (size : Nat) (width : Int) : IsDefect (.notWholeRecords what size width)
  | tooMany (count capacity : Nat) : IsDefect (.tooManyChunks count capacity)

theorem isDefect_of_piecesDefect? {name : String} {width limit : Nat} {b : ByteArray} {f : Fault}
    (defect : piecesDefect? name width limit b = some f) : IsDefect f := by
  rw [piecesDefect?] at defect
  split at defect
  · exact Option.some.inj defect ▸ .uneven _ _ _
  · split at defect
    · exact Option.some.inj defect ▸ .tooMany _ _
    · cases defect

theorem isDefect_of_firstDefect? {bytes : String → ByteArray} {f : Fault}
    (defect : firstDefect? bytes = some f) : IsDefect f := by
  obtain ⟨field, -, found⟩ := List.exists_of_findSome?_eq_some defect
  cases kind : field.kind with
  | chunkList _ | recordList _ _ | digestList _ _ =>
    rw [kind] at found
    exact isDefect_of_piecesDefect? found
  | uint64List _ =>
    rw [kind, SectionKind.defect?] at found
    split at found
    · exact Option.some.inj found ▸ .uneven _ _ _
    · cases found
  | uint64 | root | record _ | chunkVector _ | uint64Vector _ | bits | syncCommittee | validators
  | balances | byteList _ | payloadHeader =>
    rw [kind] at found
    cases found

end State

open State

/-! ### Roots of a state that was read -/

namespace Snapshot

variable {s : Snapshot} {parts : List ByteArray} {k : Nat} {f : SectionField} {b : ByteArray}

/-- What reading a state told of each of its sections. -/
theorem ReadFrom.readOf (read : s.ReadFrom ((fields.map (·.name)).zip parts))
    (tiles : Tiles fixedRegionSize fields parts) (field : fields[k]? = some f)
    (part : parts[k]? = some b) : f.kind.ReadOf b := by
  have mem := List.mem_of_getElem? field
  have get := getD_section field part
  refine ⟨fun n size => tiles.size_eq field part size, fun varies uncounted => ?_, fun kind => ?_,
    fun kind => ?_, fun kind => ?_⟩
  · obtain ⟨g, later, variesToo⟩ := exists_variable_behind (f, k)
      (List.mem_zipIdx_iff_getElem?.mpr field) varies uncounted
    exact tiles.size_lt field part varies later variesToo
  · rw [name_of_validators f mem kind] at get
    exact ⟨_, get ▸ read.validators⟩
  · rw [name_of_balances f mem kind] at get
    exact ⟨_, get ▸ read.balances⟩
  · rw [name_of_payloadHeader f mem kind] at get
    obtain ⟨r, decoded, -⟩ := read.payloadHeader
    exact ⟨r, get ▸ decoded⟩

/-- The roots of the fields fail with the first defect of the sections. -/
theorem ReadFrom.fieldRoots?_eq_error_iff (read : s.ReadFrom ((fields.map (·.name)).zip parts))
    (tiles : Tiles fixedRegionSize fields parts) {e : Fault} : s.fieldRoots? [] = .error e ↔
      firstDefect? (Sections.get ((fields.map (·.name)).zip parts)) = some e := by
  rw [fieldRoots?_nil]
  refine mapM_eq_error_iff_findSome? fun f mem e => ?_
  obtain ⟨k, field⟩ := List.getElem?_of_mem mem
  obtain ⟨b, part⟩ := tiles.exists_part field
  rw [read.fieldRoot?_eq tiles field part, getD_section field part]
  exact SectionKind.root?_eq_error_iff (SectionKind.regular_of_mem_fields f mem)
    (SectionKind.tolerant_of_mem_fields f mem) (read.readOf tiles field part)
    (read.size_payloadHeader field part)

end Snapshot

end BeaconBranch
