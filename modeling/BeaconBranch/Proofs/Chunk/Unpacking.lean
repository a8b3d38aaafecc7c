import BeaconBranch.Proofs.State.SectionRoot

/-!
Packed balances, seen as words. A row of chunks is a byte string, and the balances in it are the
numbers in the words of that string, four to a chunk. Packing balances, cutting out a single chunk,
reading a balance or a whole chunk and reading the section of a state are all told by these words.
Main statement: they invert each other.
-/

namespace BeaconBranch

open Outcome

namespace Chunk

/-! ### Words -/

/-- Whole words keep their numbers when other words are put behind them. -/
theorem wordsOf_append {a b : ByteArray} (wholeA : a.size % 8 = 0) (wholeB : b.size % 8 = 0) :
    wordsOf (a ++ b) = wordsOf a ++ wordsOf b := by
  rw [wordsOf, Bytes.chunks_append (by decide) wholeA wholeB, List.map_append]
  rfl

theorem wordsOf_zeros (k : Nat) : wordsOf (Bytes.zeros (8 * k)) = List.replicate k 0 := by
  induction k with
  | zero => rfl
  | succ k ih =>
    have last : wordsOf (Bytes.zeros 8) = [0] := by decide +kernel
    rw [Nat.mul_succ, Bytes.zeros_add, wordsOf_append (by simp) (by simp), ih, last,
      List.replicate_succ']

/-- A chunk is read as the numbers in its words. -/
theorem balancesIn?_words {chunk : ByteArray} (size : chunk.size = 32) :
    ∃ group, balancesIn? chunk = .ok group ∧ group.map Int.ofNat = wordsOf chunk := by
  have read := balanceIn?_natCast size
  refine ⟨_, mapM_eq_ok_iff.mpr (.cons (read 0) (.cons (read 1) (.cons (read 2) (.cons (read 3)
    .nil)))), ?_⟩
  rw [wordsOf, Bytes.chunks_toList, size]
  rfl

/-- A row of chunks is read as the numbers in its words. -/
theorem mapM_balancesIn?_words {row : List ByteArray} (sizes : ∀ b ∈ row, b.size = 32) :
    ∃ groups, row.mapM balancesIn? = .ok groups ∧
      groups.flatten.map Int.ofNat = wordsOf (Bytes.concatList row) := by
  induction row with
  | nil => exact ⟨[], rfl, rfl⟩
  | cons chunk row ih =>
    obtain ⟨size, rest⟩ := List.forall_mem_cons.mp sizes
    obtain ⟨group, read, words⟩ := balancesIn?_words size
    obtain ⟨groups, readRest, wordsRest⟩ := ih rest
    have total := Bytes.size_concatList rest
    refine ⟨group :: groups, ?_, ?_⟩
    · rw [List.mapM_cons, read, readRest]
      rfl
    · rw [List.flatten_cons, List.map_append, words, wordsRest, Bytes.concatList,
        wordsOf_append (by omega) (by omega)]

/-- Chunks are packed again from the numbers that are read in them. -/
theorem packUint64s?_row {row : List ByteArray} (sizes : ∀ b ∈ row, b.size = 32) :
    packUint64s? (wordsOf (Bytes.concatList row)) = .ok row.toArray := by
  have total := Bytes.size_concatList sizes
  have whole : (Bytes.concatList row).size % 8 = 0 := by omega
  have packed := packUint64s?_words whole
  rw [Bytes.padToMultiple_of_dvd (by omega)] at packed
  have same := Bytes.chunks_concatList (by decide) sizes
  exact packed.trans (congrArg Except.ok (Array.toList_inj.mp same))

/-! ### Chunks of packed numbers -/

/-- The chunks that numbers are packed into. -/
def packedChunks (ns : List Int) : Array ByteArray :=
  Bytes.chunks 32 (Bytes.padToMultiple 32 (packedBytes ns))

theorem packUint64s?_packedChunks {ns : List Int} (fit : ∀ n ∈ ns, 0 ≤ n ∧ n < twoTo 64) :
    packUint64s? ns = .ok (packedChunks ns) := packUint64s?_eq_ok_iff.mpr ⟨fit, rfl⟩

theorem size_packedChunks (ns : List Int) : (packedChunks ns).size = (ns.length + 3) / 4 := by
  rw [packedChunks, Bytes.size_chunks, Bytes.size_padToMultiple, size_packedBytes]
  omega

theorem packedBytes_append (as bs : List Int) :
    packedBytes (as ++ bs) = packedBytes as ++ packedBytes bs := by
  rw [packedBytes, List.map_append, Bytes.concatList_append]
  rfl

/-- Numbers that fill whole chunks leave those behind them to themselves. -/
theorem packedChunks_append {as : List Int} (whole : as.length % 4 = 0) (bs : List Int) :
    (packedChunks (as ++ bs)).toList = (packedChunks as).toList ++ (packedChunks bs).toList := by
  have size := size_packedBytes as
  have filled : (packedBytes as).size % 32 = 0 := by omega
  have own := Bytes.padToMultiple_of_dvd filled
  rw [packedChunks, packedBytes_append, Bytes.padToMultiple_append filled,
    Bytes.chunks_append (by decide) filled (Bytes.size_padToMultiple_mod (by decide) _),
    packedChunks, own]
  rfl

/-- The words of the chunks are the numbers and zeros up to the last chunk's end. -/
theorem wordsOf_packedChunks {ns : List Int} (fit : ∀ n ∈ ns, 0 ≤ n ∧ n < twoTo 64) :
    wordsOf (Bytes.concatList (packedChunks ns).toList) =
      ns ++ List.replicate (4 * (packedChunks ns).size - ns.length) 0 := by
  have size := size_packedBytes ns
  have rest : (32 - (packedBytes ns).size % 32) % 32 =
      8 * (4 * (packedChunks ns).size - ns.length) := by
    rw [size_packedChunks]
    omega
  have joined : Bytes.concatList (packedChunks ns).toList =
      packedBytes ns ++ Bytes.zeros (8 * (4 * (packedChunks ns).size - ns.length)) := by
    rw [← rest, ← Bytes.padToMultiple_eq]
    exact Bytes.concatList_chunks (by decide) _
  rw [joined, wordsOf_append (by omega) (by simp), wordsOf_packedBytes fit, wordsOf_zeros]

/-- The chunk of a group of four numbers is the first one from the group on. -/
theorem head_packedChunks (ns : List Int) :
    (packedChunks (ns.take 4)).toList[0]? = (packedChunks ns).toList[0]? := by
  by_cases long : 4 ≤ ns.length
  · have length : (ns.take 4).length = 4 := List.length_take_of_le long
    have whole : (ns.take 4).length % 4 = 0 := by rw [length]
    have split := packedChunks_append whole (ns.drop 4)
    rw [List.take_append_drop] at split
    have first := size_packedChunks (ns.take 4)
    rw [split, List.getElem?_append_left (by rw [Array.length_toList]; omega)]
  · rw [List.take_of_length_le (by omega)]

/-- The chunk of a single balance is the one that all balances have in its place. -/
theorem balanceChunk?_packed {ns : List Int} (fit : ∀ n ∈ ns, 0 ≤ n ∧ n < twoTo 64) {i : Nat}
    (lt : i < ns.length) :
    ∃ chunk, balanceChunk? ns i = .ok chunk ∧ (packedChunks ns)[i / 4]? = some chunk := by
  have inside : ¬ ((i : Int) < 0 ∨ (ns.length : Int) ≤ i) := by omega
  have length : (ns.take (i / 4 * 4)).length = i / 4 * 4 := List.length_take_of_le (by omega)
  have whole : (ns.take (i / 4 * 4)).length % 4 = 0 := by omega
  have before := size_packedChunks (ns.take (i / 4 * 4))
  have split := packedChunks_append whole (ns.drop (i / 4 * 4))
  rw [List.take_append_drop] at split
  have place : (packedChunks ns)[i / 4]? =
      (packedChunks ((ns.drop (i / 4 * 4)).take 4)).toList[0]? := by
    rw [head_packedChunks, ← Array.getElem?_toList, split,
      List.getElem?_append_right (by rw [Array.length_toList]; omega), Array.length_toList, before,
      length, show i / 4 - (i / 4 * 4 + 3) / 4 = 0 by omega]
  have packed : packUint64s? ((ns.drop (i / 4 * 4)).take 4) =
      .ok (packedChunks ((ns.drop (i / 4 * 4)).take 4)) :=
    packUint64s?_packedChunks fun n mem => fit n (List.mem_of_mem_drop (List.mem_of_mem_take mem))
  have count := size_packedChunks ns
  have found := Array.getElem?_eq_getElem (show i / 4 < (packedChunks ns).size by omega)
  refine ⟨_, ?_, found⟩
  rw [balanceChunk?, if_neg inside, Int.toNat_natCast]
  dsimp only
  rw [packed, ok_bind]
  refine congrArg Except.ok ?_
  rw [Array.getD_eq_getD_getElem?, ← Array.getElem?_toList, ← place, found, Option.getD_some]

/-! ### There and back -/

/-- What numbers are packed into: chunks of 32 bytes, four numbers to each, from which the numbers
are read back with zeros behind them. The chunk of a single number is cut out as it stands there. -/
structure PackedInto (ns : List Int) (chunks : Array ByteArray) : Prop where
  packed : packUint64s? ns = .ok chunks
  count : chunks.size = (ns.length + 3) / 4
  sizes : ∀ b ∈ chunks, b.size = 32
  unpacked : ∃ groups, chunks.toList.mapM balancesIn? = .ok groups ∧
    groups.flatten.map Int.ofNat = ns ++ List.replicate (4 * chunks.size - ns.length) 0
  single : ∀ (i : Nat) (n : Int), ns[i]? = some n → ∃ chunk, balanceChunk? ns i = .ok chunk ∧
    chunks[i / 4]? = some chunk ∧ balanceIn? chunk i = .ok n.toNat ∧ 0 ≤ n

theorem packedInto {ns : List Int} (fit : ∀ n ∈ ns, 0 ≤ n ∧ n < twoTo 64) :
    PackedInto ns (packedChunks ns) where
  packed := packUint64s?_packedChunks fit
  count := size_packedChunks ns
  sizes _ mem := size_of_mem_packUint64s? (packUint64s?_packedChunks fit) mem
  unpacked := by
    have sizes : ∀ b ∈ (packedChunks ns).toList, b.size = 32 := fun b mem =>
      size_of_mem_packUint64s? (packUint64s?_packedChunks fit) (Array.mem_toList_iff.mp mem)
    obtain ⟨groups, read, words⟩ := mapM_balancesIn?_words sizes
    exact ⟨groups, read, words.trans (wordsOf_packedChunks fit)⟩
  single i n found := by
    have packed := packUint64s?_packedChunks fit
    obtain ⟨chunk, cut, stands⟩ :=
      balanceChunk?_packed fit (List.getElem?_eq_some_iff.mp found).1
    obtain ⟨other, standsOther, read⟩ := balanceIn?_packed packed found
    obtain rfl : chunk = other := Option.some.inj (stands.symm.trans standsOther)
    exact ⟨chunk, cut, stands, read⟩

/-- Numbers of 64 bits are read back from the chunks that they are packed into, chunks of 32 bytes
are packed again from the numbers in them, and the balances of a section of whole words are packed
into the chunks of the section. -/
theorem packing_inverts :
    (∀ ns : List Int, (∀ n ∈ ns, 0 ≤ n ∧ n < twoTo 64) → ∃ chunks, PackedInto ns chunks) ∧
    (∀ row : List ByteArray, (∀ b ∈ row, b.size = 32) → ∃ groups,
      row.mapM balancesIn? = .ok groups ∧
        packUint64s? (groups.flatten.map Int.ofNat) = .ok row.toArray) ∧
    (∀ raw : ByteArray, raw.size % 8 = 0 → ∃ ns, decodeBalances? raw = .ok ns ∧
      packUint64s? ns = .ok (State.chunksOf raw)) := by
  refine ⟨fun ns fit => ⟨_, packedInto fit⟩, fun row sizes => ?_, fun raw whole => ?_⟩
  · obtain ⟨groups, read, words⟩ := mapM_balancesIn?_words sizes
    exact ⟨groups, read, words ▸ packUint64s?_row sizes⟩
  · exact ⟨_, State.decodeBalances?_eq_ok_iff.mpr ⟨whole, rfl⟩, packUint64s?_words whole⟩

/-- Five balances, the largest one among them, share two chunks with three zeros behind them; a
section of three balances has a single chunk. -/
theorem packing_inverts_five :
    (∃ chunks, PackedInto [1, 0, 3, 18446744073709551615, 5] chunks ∧ chunks.size = 2) ∧
    (∃ groups, [Merkle.zeroHash 1, Merkle.zeroChunk].mapM balancesIn? = .ok groups ∧
      packUint64s? (groups.flatten.map Int.ofNat) =
        .ok #[Merkle.zeroHash 1, Merkle.zeroChunk]) ∧
    (∃ ns, decodeBalances? (Bytes.zeros 24) = .ok ns ∧
      packUint64s? ns = .ok (State.chunksOf (Bytes.zeros 24))) := by
  obtain ⟨numbers, rows, sections⟩ := packing_inverts
  obtain ⟨chunks, packed⟩ := numbers [1, 0, 3, 18446744073709551615, 5] (by decide)
  exact ⟨⟨chunks, packed, packed.count⟩, rows _ (by simp), sections _ (by simp)⟩

end Chunk

end BeaconBranch
