import BeaconBranch.Proofs.Chunk.Registry
import BeaconBranch.Proofs.Merkle.Pieces
import BeaconBranch.Proofs.Record.Commitment
import BeaconBranch.State.SectionRoot

/-!
Roots of sections bind them. A section is a number or a root that stands in a chunk as it is, a
record, a vector, a list with its length, or a sync committee. For each kind it is told which bytes
it can have and how its root comes about from them. Main statements: a section has a root exactly if
its kind can have its bytes, and two sections of one kind with one root are equal unless two of the
hashed messages collide.
-/

namespace BeaconBranch

open Outcome Merkle

/-! ### Records from their bytes -/

namespace Schema

variable {s : Schema} {a b : ByteArray}

/-- A byte string is read as a record. -/
def Reads (s : Schema) (b : ByteArray) : Prop := ∃ r, s.decode? b = .ok r

/-- How the root of a record comes about from its bytes. -/
def derivation (s : Schema) (b : ByteArray) : Derivation :=
  match s.decode? b with
  | .ok r => r.derivation
  | .error _ => .given ByteArray.empty

theorem derivation_of_decode? {r : Record} (read : s.decode? b = .ok r) :
    s.derivation b = r.derivation := by
  rw [derivation, read]

theorem recordRoot?_eq_ok_iff (regular : s.Regular) {x : ByteArray} :
    (s.decode? b >>= Record.root?) = .ok x ↔ s.Reads b ∧ x = (s.derivation b).value := by
  have root : ∀ {r}, s.decode? b = .ok r → r.root? = .ok (s.derivation b).value := by
    intro r read
    rw [derivation_of_decode? read]
    exact Record.root?_eq regular ((decode?_eq_ok_iff regular).mp read).1
  rw [bind_eq_ok_iff]
  constructor
  · rintro ⟨r, read, hashed⟩
    exact ⟨⟨r, read⟩, Except.ok.inj (hashed.symm.trans (root read))⟩
  · rintro ⟨⟨r, read⟩, rfl⟩
    exact ⟨r, read, root read⟩

theorem size_derivation (regular : s.Regular) (reads : s.Reads b) :
    (s.derivation b).value.size = 32 := by
  obtain ⟨r, read⟩ := reads
  rw [derivation_of_decode? read]
  exact Record.size_derivation regular ((decode?_eq_ok_iff regular).mp read).1

/-- The root of a record binds its bytes. -/
theorem binds_derivation (regular : s.Regular) (readsA : s.Reads a) (readsB : s.Reads b) :
    Derivation.Binds (s.derivation a) (s.derivation b) (a = b) := by
  obtain ⟨r, readA⟩ := readsA
  obtain ⟨r', readB⟩ := readsB
  rw [derivation_of_decode? readA, derivation_of_decode? readB]
  refine (Record.binds_derivation regular ((decode?_eq_ok_iff regular).mp readA).1
    ((decode?_eq_ok_iff regular).mp readB).1).imp fun same => ?_
  exact decode?_injective regular readA (same ▸ readB)

theorem cut?_eq_ok_iff {width : Nat} {what : String} {pieces : Array ByteArray} :
    cut? b width what = .ok pieces ↔
      (0 < width ∧ b.size % width = 0) ∧ pieces = Bytes.chunks width b := by
  rw [cut?]
  by_cases zero : width = 0
  · subst zero
    simp
  · rw [if_neg (by omega), Int.toNat_natCast]
    by_cases whole : b.size % width = 0
    · have pos : 0 < width := by omega
      rw [if_neg (by omega)]
      simp [whole, pos, eq_comm]
    · rw [if_pos (by omega)]
      simp [whole]

theorem cut?_words_eq_ok_iff {what : String} {pieces : Array ByteArray} :
    cut? b 8 what = .ok pieces ↔ b.size % 8 = 0 ∧ pieces = Bytes.chunks 8 b := by
  have cut : cut? b 8 what = .ok pieces ↔
    (0 < 8 ∧ b.size % 8 = 0) ∧ pieces = Bytes.chunks 8 b := cut?_eq_ok_iff
  rw [cut, and_iff_right (show 0 < 8 by decide)]

theorem mapM_recordRoot?_eq_ok_iff (regular : s.Regular) {pieces roots : Array ByteArray} :
    pieces.mapM (fun b => s.decode? b >>= Record.root?) = .ok roots ↔
      (∀ x ∈ pieces, s.Reads x) ∧
        roots.toList = (pieces.toList.map s.derivation).map Derivation.value := by
  rw [mapM_toList_eq_ok_iff, mapM_eq_ok_iff_map fun b _ x => recordRoot?_eq_ok_iff regular,
    List.map_map]
  simp only [Array.mem_toList_iff]
  rfl

/-- Reading all records first and hashing them then gives the same roots. -/
theorem readRoots_iff (regular : s.Regular) {pieces roots : Array ByteArray} :
    (∃ records, pieces.mapM s.decode? = .ok records ∧ records.mapM Record.root? = .ok roots) ↔
      (∀ x ∈ pieces, s.Reads x) ∧
        roots.toList = (pieces.toList.map s.derivation).map Derivation.value := by
  rw [← mapM_recordRoot?_eq_ok_iff regular]
  simp only [mapM_toList_eq_ok_iff]
  rw [← mapM_bind_mapM_eq_ok_iff, bind_eq_ok_iff]
  exact ⟨fun ⟨records, read, hashed⟩ => ⟨records.toList, read, hashed⟩,
    fun ⟨records, read, hashed⟩ => ⟨records.toArray, read, hashed⟩⟩

end Schema

namespace State

/-! ### Registries from their bytes -/

theorem decodeValidators?_eq_ok_iff {b : ByteArray} {vs : Array Record} :
    decodeValidators? b = .ok vs ↔ b.size % Schema.validator.size = 0 ∧
      (Bytes.chunks Schema.validator.size b).mapM Schema.validator.decode? = .ok vs := by
  have pos : 0 < Schema.validator.size := by decide
  simp only [decodeValidators?, Schema.decodeAll?, bind_eq_ok_iff, Schema.cut?_eq_ok_iff]
  constructor
  · rintro ⟨_, ⟨⟨-, whole⟩, rfl⟩, read⟩
    exact ⟨whole, read⟩
  · rintro ⟨whole, read⟩
    exact ⟨_, ⟨⟨pos, whole⟩, rfl⟩, read⟩

theorem decodeBalances?_eq_ok_iff {b : ByteArray} {ns : List Int} :
    decodeBalances? b = .ok ns ↔ b.size % 8 = 0 ∧
      ns = (Bytes.chunks 8 b).toList.map fun x => (Bytes.toNatLE x : Int) := by
  simp only [decodeBalances?, bind_eq_ok_iff, pure_eq_ok_iff, Schema.cut?_words_eq_ok_iff]
  constructor
  · rintro ⟨_, ⟨whole, rfl⟩, rfl⟩
    exact ⟨whole, rfl⟩
  · rintro ⟨whole, rfl⟩
    exact ⟨_, ⟨whole, rfl⟩, rfl⟩

/-! ### Sync committees -/

/-- The public keys of the first members of a sync committee. -/
def memberKeys (n : Nat) (b : ByteArray) : List ByteArray :=
  (List.range n).map fun i => b.extract (i * 48) (i * 48 + 48)

/-- How the root of a sync committee comes about. -/
def committeeDerivation (n : Nat) (b : ByteArray) : Derivation :=
  .both (.ofList ((memberKeys n b).map Chunk.keyDerivation) (depthForLimit n))
    (Chunk.keyDerivation (b.extract (n * 48) b.size))

section Committee

variable {n : Nat} {a b : ByteArray}

theorem size_of_mem_memberKeys (size : b.size = n * 48 + 48) :
    ∀ key ∈ memberKeys n b, key.size = 48 := by
  intro key mem
  obtain ⟨i, inRange, rfl⟩ := List.mem_map.mp mem
  have lt : i < n := List.mem_range.mp inRange
  rw [ByteArray.size_extract]
  omega

theorem size_aggregateKey (size : b.size = n * 48 + 48) :
    (b.extract (n * 48) b.size).size = 48 := by
  rw [ByteArray.size_extract]
  omega

theorem size_memberDerivations (n : Nat) (b : ByteArray) :
    (Derivation.ofList ((memberKeys n b).map Chunk.keyDerivation) (depthForLimit n)).value.size =
      32 :=
  Derivation.size_ofList (Derivation.size_of_mem_map fun key _ => Chunk.size_keyDerivation key) _

/-- The root of the smallest tree over two chunks joins them. -/
theorem rootOfChunks_pair {x y : ByteArray} (sizeX : x.size = 32) (sizeY : y.size = 32) :
    rootOfChunks #[x, y] = .ok (join x y) :=
  rootOfChunks_eq (by simp [sizeX, sizeY])

theorem length_memberKeys (n : Nat) (b : ByteArray) : (memberKeys n b).length = n := by
  rw [memberKeys, List.length_map, List.length_range]

/-- The chunks of the members' keys. -/
theorem memberChunks?_eq (size : b.size = n * 48 + 48) :
    (Array.range n).mapM (fun i => Chunk.ofPublicKey? (b.extract (i * 48) (i * 48 + 48))) =
      .ok (((memberKeys n b).map Chunk.keyDerivation).map Derivation.value).toArray := by
  have each : ∀ i ∈ List.range n, ∀ x,
      Chunk.ofPublicKey? (b.extract (i * 48) (i * 48 + 48)) = .ok x ↔
        True ∧ x = (Chunk.keyDerivation (b.extract (i * 48) (i * 48 + 48))).value := by
    intro i mem x
    rw [Chunk.ofPublicKey?_eq (size_of_mem_memberKeys size _ (List.mem_map_of_mem mem))]
    simp [eq_comm]
  rw [mapM_toList_eq_ok_iff, Array.toList_range, mapM_eq_ok_iff_map each]
  refine ⟨fun _ _ => trivial, ?_⟩
  rw [memberKeys, List.map_map, List.map_map]
  rfl

/-- The root of the members' keys. -/
theorem membersRoot?_eq (n : Nat) (b : ByteArray) :
    vectorRoot? (((memberKeys n b).map Chunk.keyDerivation).map Derivation.value).toArray n =
      .ok (Derivation.ofList ((memberKeys n b).map Chunk.keyDerivation)
        (depthForLimit n)).value := by
  refine vectorRoot?_eq_ok_iff.mpr ⟨?_, Derivation.value_ofList_of_chunks rfl _⟩
  rw [List.size_toArray, List.length_map, List.length_map, length_memberKeys]
  exact le_twoTo_depthForLimit n

/-- A sync committee has a root. -/
theorem syncCommitteeRoot?_eq (size : b.size = Limits.syncCommitteeSize * 48 + 48) :
    syncCommitteeRoot? b = .ok (committeeDerivation Limits.syncCommitteeSize b).value := by
  simp only [syncCommitteeRoot?, bind_eq_ok_iff]
  exact ⟨_, memberChunks?_eq size, _, Chunk.ofPublicKey?_eq (size_aggregateKey size), _,
    membersRoot?_eq _ b,
    rootOfChunks_pair (size_memberDerivations _ b) (Chunk.size_keyDerivation _)⟩

/-- The root of a sync committee binds it. -/
theorem binds_committeeDerivation (sizeA : a.size = n * 48 + 48) (sizeB : b.size = n * 48 + 48) :
    Derivation.Binds (committeeDerivation n a) (committeeDerivation n b) (a = b) := by
  have aggregate := Chunk.binds_keyDerivation (size_aggregateKey sizeA) (size_aggregateKey sizeB)
  have members := Derivation.binds_ofList_map (g := Chunk.keyDerivation)
    ((length_memberKeys n a).trans (length_memberKeys n b).symm)
    (show (memberKeys n a).length ≤ twoTo (depthForLimit n) by
      rw [length_memberKeys]
      exact le_twoTo_depthForLimit n)
    (fun key _ => Chunk.size_keyDerivation key) (fun key _ => Chunk.size_keyDerivation key)
    fun x memX y memY => Chunk.binds_keyDerivation (size_of_mem_memberKeys sizeA x memX)
      (size_of_mem_memberKeys sizeB y memY)
  refine (Derivation.Binds.both ((size_memberDerivations n a).trans
    (size_memberDerivations n b).symm) aggregate fun _ => members).imp ?_
  rintro ⟨keys, last⟩
  have first := congrArg Bytes.concatList keys
  rw [memberKeys, memberKeys, Bytes.concatList_pieces, Bytes.concatList_pieces] at first
  have whole : ∀ {x : ByteArray}, x.size = n * 48 + 48 →
      x = x.extract 0 (n * 48) ++ x.extract (n * 48) x.size := by
    intro x size
    rw [← ByteArray.extract_eq_extract_append_extract _ (by omega) (by omega),
      ByteArray.extract_zero_size]
  rw [whole sizeA, whole sizeB, first, last]

end Committee

/-! ### Kinds of sections -/

/-- The chunks of a byte string leave room in a list of `n` items. -/
abbrev Packed (d n : Nat) (b : ByteArray) : Prop := Room (chunksOf b).size d n

namespace SectionKind

/-- The records of a kind have a regular schema, and its pieces are not empty. -/
def Regular : SectionKind → Prop
  | record s => s.Regular
  | recordList s _ => s.Regular ∧ 0 < s.size
  | digestList s _ => 0 < s.size
  | _ => True

instance (k : SectionKind) : Decidable k.Regular :=
  match k with
  | record s => inferInstanceAs (Decidable s.Regular)
  | recordList s _ => inferInstanceAs (Decidable (s.Regular ∧ 0 < s.size))
  | digestList s _ => inferInstanceAs (Decidable (0 < s.size))
  | uint64 | root | chunkVector _ | uint64Vector _ | bits | syncCommittee | chunkList _
  | validators | balances | byteList _ | uint64List _ | payloadHeader =>
    inferInstanceAs (Decidable True)

theorem regular_of_mem_fields : ∀ f ∈ fields, f.kind.Regular := by decide

/-- The bytes that a section of a kind can have. -/
def Holds (b : ByteArray) : SectionKind → Prop
  | uint64 => b.size = 8
  | root => b.size = 32
  | record s => s.Reads b
  | chunkVector n => b.size = n * 32
  | uint64Vector n => b.size = n * 8
  | bits => b.size = 1
  | syncCommittee => b.size = Limits.syncCommitteeSize * 48 + 48
  | chunkList limit => Pieced 32 (depthForLimit limit) b
  | recordList s limit =>
    Pieced s.size (depthForLimit limit) b ∧ ∀ x ∈ Bytes.chunks s.size b, s.Reads x
  | validators => Pieced Schema.validator.size Limits.validatorTreeHeight b ∧
      ∀ x ∈ Bytes.chunks Schema.validator.size b, Schema.validator.Reads x
  | balances => b.size % 8 = 0 ∧ Packed Limits.balanceTreeHeight (b.size / 8) b
  | byteList limit => Packed (depthForLimit (((limit : Int) + 31) / 32)) b.size b
  | uint64List limit =>
    b.size % 8 = 0 ∧ Packed (depthForLimit (((limit : Int) * 8 + 31) / 32)) (b.size / 8) b
  | payloadHeader => Schema.payloadHeader.Reads b
  | digestList s limit => Pieced s.size (depthForLimit limit) b

/-- How the root of a section comes about from its bytes. -/
def derivation (b : ByteArray) : SectionKind → Derivation
  | uint64 => .given (Bytes.padRight 32 b)
  | root => .given b
  | record s => s.derivation b
  | chunkVector n => .packed (depthForLimit n) b
  | uint64Vector n => .packed (depthForLimit ((n * 8 + 31) / 32 : Nat)) b
  | bits => .given (Bytes.padRight 32 b)
  | syncCommittee => committeeDerivation Limits.syncCommitteeSize b
  | chunkList limit => .ofPieces 32 .given (depthForLimit limit) b
  | recordList s limit => .ofPieces s.size s.derivation (depthForLimit limit) b
  | validators =>
    .ofPieces Schema.validator.size Schema.validator.derivation Limits.validatorTreeHeight b
  | balances => .ofPacked Limits.balanceTreeHeight (b.size / 8) b
  | byteList limit => .ofPacked (depthForLimit (((limit : Int) + 31) / 32)) b.size b
  | uint64List limit =>
    .ofPacked (depthForLimit (((limit : Int) * 8 + 31) / 32)) (b.size / 8) b
  | payloadHeader => Schema.payloadHeader.derivation b
  | digestList s limit => .ofPieces s.size .digest (depthForLimit limit) b

variable {a b r : ByteArray} {k : SectionKind} {name : String}

/-! #### Sections have roots -/

theorem ofUint64?_toNatLE (size : b.size = 8) :
    Chunk.ofUint64? (Bytes.toNatLE b) = .ok (Bytes.padRight 32 b) := by
  have lt := Bytes.toNatLE_lt b
  have back := Bytes.ofNatLE_toNatLE b
  have power : twoTo 64 = 256 ^ 8 := Bytes.twoTo_eight_mul 8
  rw [size] at lt back
  rw [← power] at lt
  have encoded : Chunk.encodeUint? 64 (Bytes.toNatLE b) = .ok b :=
    Chunk.encodeUint?_eq_ok_iff.mpr ⟨by omega, by omega, back.symm⟩
  rw [Chunk.ofUint64?, encoded]
  rfl

theorem size_chunksOf (b : ByteArray) : (chunksOf b).size = (b.size + 31) / 32 := by
  rw [chunksOf, Bytes.size_chunks, Bytes.size_padToMultiple]
  omega

/-- A vector of packed items has a root. -/
theorem packedRoot?_eq {n : Nat} (size : (b.size + 31) / 32 = n) :
    vectorRoot? (chunksOf b) n = .ok (Derivation.packed (depthForLimit n) b).value := by
  refine Derivation.vectorRoot?_iff_ofChunks.mpr ⟨?_, rfl⟩
  rw [size_chunksOf, size]
  exact le_twoTo_depthForLimit n

theorem packedListRoot?_eq_ok_iff {limit : Int} {n : Nat} :
    listRoot? (chunksOf b) limit n = .ok r ↔ Packed (depthForLimit limit) n b ∧
      r = (Derivation.ofPacked (depthForLimit limit) n b).value :=
  Derivation.listRoot?_iff_ofItems (Derivation.map_value_given (chunksOf b).toList)

/-- A list of pieces whose chunks are made of them all at once. -/
theorem pieceListRoot?_eq_ok_iff {width limit : Nat} {g : ByteArray → Derivation}
    {chunks : Array ByteArray → Array ByteArray}
    (ends : ∀ pieces, (pieces.toList.map g).map Derivation.value = (chunks pieces).toList) :
    (Schema.cut? b width name >>= fun pieces => chunkListRoot? (chunks pieces) limit) = .ok r ↔
      Pieced width (depthForLimit limit) b ∧
        r = (Derivation.ofPieces width g (depthForLimit limit) b).value := by
  simp only [bind_eq_ok_iff, Schema.cut?_eq_ok_iff,
    Derivation.chunkListRoot?_iff_ofItems (ends _)]
  constructor
  · rintro ⟨_, ⟨⟨pos, whole⟩, rfl⟩, room, rfl⟩
    exact ⟨⟨pos, whole, room⟩, rfl⟩
  · rintro ⟨pieced, rfl⟩
    exact ⟨_, ⟨⟨pieced.pos, pieced.whole⟩, rfl⟩, pieced.room, rfl⟩

theorem recordListRoot?_eq_ok_iff {s : Schema} (regular : s.Regular) {limit : Nat} :
    (Schema.cut? b s.size name >>= fun pieces =>
        pieces.mapM (fun x => s.decode? x >>= Record.root?) >>= fun roots =>
          chunkListRoot? roots limit) = .ok r ↔
      (Pieced s.size (depthForLimit limit) b ∧ ∀ x ∈ Bytes.chunks s.size b, s.Reads x) ∧
        r = (Derivation.ofPieces s.size s.derivation (depthForLimit limit) b).value := by
  simp only [bind_eq_ok_iff, Schema.cut?_eq_ok_iff, Schema.mapM_recordRoot?_eq_ok_iff regular]
  constructor
  · rintro ⟨_, ⟨⟨pos, whole⟩, rfl⟩, roots, ⟨reads, ends⟩, hashed⟩
    obtain ⟨room, rfl⟩ := (Derivation.chunkListRoot?_iff_ofItems ends.symm).mp hashed
    exact ⟨⟨⟨pos, whole, room⟩, reads⟩, rfl⟩
  · rintro ⟨⟨pieced, reads⟩, rfl⟩
    exact ⟨_, ⟨⟨pieced.pos, pieced.whole⟩, rfl⟩, _, ⟨reads, List.toList_toArray.symm⟩,
      (Derivation.chunkListRoot?_iff_ofItems rfl).mpr ⟨pieced.room, rfl⟩⟩

theorem validatorsRoot?_eq_ok_iff : validators.root? name b = .ok r ↔
    validators.Holds b ∧ r = (validators.derivation b).value := by
  have regular : Schema.validator.Regular := by decide
  have pos : 0 < Schema.validator.size := by decide
  simp only [root?, bind_eq_ok_iff, decodeValidators?_eq_ok_iff, Chunk.validatorsRoot?_eq_ok_iff]
  constructor
  · rintro ⟨records, ⟨whole, read⟩, roots, hashed, -, room, length, rfl⟩
    obtain ⟨reads, ends⟩ := (Schema.readRoots_iff regular).mp ⟨records, read, hashed⟩
    have count : roots.size = (Bytes.chunks Schema.validator.size b).size := by
      rw [← Array.length_toList, ends, List.length_map, List.length_map, Array.length_toList]
    refine ⟨⟨⟨pos, whole, ⟨count ▸ room, count ▸ length⟩⟩, reads⟩, ?_⟩
    rw [count]
    exact (Derivation.value_ofItems_of_chunks ends.symm _ _).symm
  · rintro ⟨⟨pieced, reads⟩, rfl⟩
    obtain ⟨records, read, hashed⟩ :=
      (Schema.readRoots_iff regular).mpr ⟨reads, List.toList_toArray.symm⟩
    refine ⟨records, ⟨pieced.whole, read⟩, _, hashed, fun x mem => ?_, ?_⟩
    · obtain ⟨t, inList, rfl⟩ := List.mem_map.mp (Array.mem_toList_iff.mpr mem)
      obtain ⟨y, inPieces, rfl⟩ := List.mem_map.mp inList
      exact Schema.size_derivation regular (reads y (Array.mem_toList_iff.mp inPieces))
    · rw [List.size_toArray, List.length_map, List.length_map, Array.length_toList]
      exact ⟨pieced.room.chunks, pieced.room.length, Derivation.value_ofItems_of_chunks rfl _ _⟩

theorem size_words (whole : b.size % 8 = 0) : (Bytes.chunks 8 b).size = b.size / 8 := by
  rw [Bytes.size_chunks]
  omega

theorem balancesRoot?_eq_ok_iff : balances.root? name b = .ok r ↔
    balances.Holds b ∧ r = (balances.derivation b).value := by
  have value := Derivation.value_ofItems_of_chunks (Derivation.map_value_given (chunksOf b).toList)
  simp only [root?, bind_eq_ok_iff, decodeBalances?_eq_ok_iff, Chunk.balancesRoot?_eq_ok_iff]
  constructor
  · rintro ⟨_, ⟨whole, rfl⟩, chunks, packed, room, length, rfl⟩
    obtain rfl := Except.ok.inj ((Chunk.packUint64s?_words whole).symm.trans packed)
    rw [List.length_map, Array.length_toList, size_words whole] at length ⊢
    exact ⟨⟨whole, ⟨room, length⟩⟩, (value _ _).symm⟩
  · rintro ⟨⟨whole, ⟨room, length⟩⟩, rfl⟩
    refine ⟨_, ⟨whole, rfl⟩, _, Chunk.packUint64s?_words whole, room, ?_⟩
    rw [List.length_map, Array.length_toList, size_words whole]
    exact ⟨length, value _ _⟩

theorem uint64ListRoot?_eq_ok_iff {limit : Nat} : (uint64List limit).root? name b = .ok r ↔
    (uint64List limit).Holds b ∧ r = ((uint64List limit).derivation b).value := by
  simp only [root?, Chunk.uint64ListRoot?, bind_eq_ok_iff, Schema.cut?_words_eq_ok_iff]
  constructor
  · rintro ⟨_, ⟨whole, rfl⟩, chunks, packed, hashed⟩
    rw [Array.toList_map, Chunk.packUint64s?_words whole] at packed
    obtain rfl := Except.ok.inj packed
    rw [Array.length_toList, Array.size_map, size_words whole] at hashed
    obtain ⟨room, rfl⟩ := packedListRoot?_eq_ok_iff.mp hashed
    exact ⟨⟨whole, room⟩, rfl⟩
  · rintro ⟨⟨whole, room⟩, rfl⟩
    refine ⟨_, ⟨whole, rfl⟩, chunksOf b, ?_, ?_⟩
    · rw [Array.toList_map]
      exact Chunk.packUint64s?_words whole
    · rw [Array.length_toList, Array.size_map, size_words whole]
      exact packedListRoot?_eq_ok_iff.mpr ⟨room, rfl⟩

theorem eq_ok_iff_of_eq {x : Except Fault ByteArray} {v : ByteArray} {p : Prop} (ok : x = .ok v)
    (holds : p) : x = .ok r ↔ p ∧ r = v := by
  rw [ok]
  simp [holds, eq_comm]

/-- A section of the right size has a root exactly if its kind can have its bytes. No bytes at all
are a payload header of zeros, which is why they are left out here. -/
theorem root?_eq_ok_iff (regular : k.Regular) (sizes : ∀ n, k.size? = some n → b.size = n)
    (present : k = payloadHeader → b.size ≠ 0) :
    k.root? name b = .ok r ↔ k.Holds b ∧ r = (k.derivation b).value := by
  cases k with
  | uint64 => exact eq_ok_iff_of_eq (ofUint64?_toNatLE (sizes 8 rfl)) (sizes 8 rfl)
  | root => exact eq_ok_iff_of_eq rfl (sizes 32 rfl)
  | record s => exact Schema.recordRoot?_eq_ok_iff regular
  | chunkVector n =>
    have size := sizes (n * 32) rfl
    exact eq_ok_iff_of_eq (packedRoot?_eq (by omega)) size
  | uint64Vector n =>
    have size := sizes (n * 8) rfl
    exact eq_ok_iff_of_eq (packedRoot?_eq (by omega)) size
  | bits => exact eq_ok_iff_of_eq rfl (sizes 1 rfl)
  | syncCommittee =>
    have size := sizes (Limits.syncCommitteeSize * 48 + 48) rfl
    exact eq_ok_iff_of_eq (syncCommitteeRoot?_eq size) size
  | chunkList limit =>
    exact pieceListRoot?_eq_ok_iff fun pieces => Derivation.map_value_given pieces.toList
  | recordList s limit => exact recordListRoot?_eq_ok_iff regular.1
  | validators => exact validatorsRoot?_eq_ok_iff
  | balances => exact balancesRoot?_eq_ok_iff
  | byteList limit => exact packedListRoot?_eq_ok_iff
  | uint64List limit => exact uint64ListRoot?_eq_ok_iff
  | payloadHeader =>
    rw [root?, if_neg (present rfl)]
    exact Schema.recordRoot?_eq_ok_iff (by decide)
  | digestList s limit =>
    refine pieceListRoot?_eq_ok_iff fun pieces => ?_
    rw [List.map_map, Array.toList_map]
    rfl

/-- Every root has 32 bytes. -/
theorem size_derivation (regular : k.Regular) (holds : k.Holds b) :
    (k.derivation b).value.size = 32 := by
  cases k with
  | uint64 =>
    have size : b.size = 8 := holds
    rw [derivation, Derivation.value, Bytes.size_padRight, size]
    rfl
  | bits =>
    have size : b.size = 1 := holds
    rw [derivation, Derivation.value, Bytes.size_padRight, size]
    rfl
  | root => exact holds
  | record s => exact Schema.size_derivation regular holds
  | payloadHeader => exact Schema.size_derivation (by decide) holds
  | chunkVector n => exact Derivation.size_packed _ b
  | uint64Vector n => exact Derivation.size_packed _ b
  | syncCommittee | chunkList _ | recordList _ _ | validators | balances | byteList _
  | uint64List _ | digestList _ _ => exact size_join _ _

/-- The root of a section binds it. -/
theorem binds_derivation (regular : k.Regular) (holdsA : k.Holds a) (holdsB : k.Holds b) :
    Derivation.Binds (k.derivation a) (k.derivation b) (a = b) := by
  have vector : ∀ n : Nat, a.size = b.size → (a.size + 31) / 32 = n →
      Derivation.Binds (.packed (depthForLimit n) a) (.packed (depthForLimit n) b) (a = b) := by
    intro n same count
    refine Derivation.binds_packed same ?_
    rw [← count, ← size_chunksOf]
    exact le_twoTo_depthForLimit _
  have records : ∀ {s : Schema} {d : Nat}, s.Regular → Pieced s.size d a → Pieced s.size d b →
      (∀ x ∈ Bytes.chunks s.size a, s.Reads x) → (∀ x ∈ Bytes.chunks s.size b, s.Reads x) →
      Derivation.Binds (.ofPieces s.size s.derivation d a) (.ofPieces s.size s.derivation d b)
        (a = b) := fun regular piecedA piecedB readsA readsB =>
    Derivation.binds_ofPieces piecedA piecedB
      (fun x mem => Schema.size_derivation regular (readsA x mem))
      (fun x mem => Schema.size_derivation regular (readsB x mem))
      fun x memX y memY => Schema.binds_derivation regular (readsA x memX) (readsB y memY)
  cases k with
  | uint64 =>
    exact (Derivation.binds_given _ _).imp (Bytes.padRight_injective (holdsA.trans holdsB.symm))
  | bits =>
    exact (Derivation.binds_given _ _).imp (Bytes.padRight_injective (holdsA.trans holdsB.symm))
  | root => exact Derivation.binds_given a b
  | record s => exact Schema.binds_derivation regular holdsA holdsB
  | payloadHeader => exact Schema.binds_derivation (by decide) holdsA holdsB
  | chunkVector n =>
    have size : a.size = n * 32 := holdsA
    exact vector n (holdsA.trans holdsB.symm) (by omega)
  | uint64Vector n =>
    have size : a.size = n * 8 := holdsA
    exact vector _ (holdsA.trans holdsB.symm) (by omega)
  | syncCommittee => exact binds_committeeDerivation holdsA holdsB
  | chunkList limit =>
    exact Derivation.binds_ofPieces holdsA holdsB
      (fun x mem => Bytes.size_of_mem_chunks holdsA.whole mem)
      (fun x mem => Bytes.size_of_mem_chunks holdsB.whole mem)
      fun x _ y _ => Derivation.binds_given x y
  | recordList s limit => exact records regular.1 holdsA.1 holdsB.1 holdsA.2 holdsB.2
  | validators => exact records (by decide) holdsA.1 holdsB.1 holdsA.2 holdsB.2
  | balances =>
    obtain ⟨wholeA, roomA⟩ := holdsA
    obtain ⟨wholeB, roomB⟩ := holdsB
    exact Derivation.binds_ofPacked (fun same => by omega) roomA roomB
  | uint64List limit =>
    obtain ⟨wholeA, roomA⟩ := holdsA
    obtain ⟨wholeB, roomB⟩ := holdsB
    exact Derivation.binds_ofPacked (fun same => by omega) roomA roomB
  | byteList limit => exact Derivation.binds_ofPacked (fun same => same) holdsA holdsB
  | digestList s limit =>
    exact Derivation.binds_ofPieces holdsA holdsB (fun x _ => Sha256.size_digest x)
      (fun x _ => Sha256.size_digest x) fun x _ y _ => Derivation.binds_digest x y

end SectionKind

end State

end BeaconBranch
