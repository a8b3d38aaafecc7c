import BeaconBranch.Chunk.Balances
import BeaconBranch.Proofs.Bytes.Pieces
import BeaconBranch.Proofs.Outcome

/-!
Numbers in bytes and in chunks. Main statements: which numbers can be packed and what their chunks
are then, and a balance is read back from the chunk and the place where it was packed.
-/

namespace BeaconBranch.Chunk

open Outcome

/-- A number is written exactly if it fits. -/
theorem encodeUint?_eq_ok_iff {bits : Nat} {n : Int} {b : ByteArray} :
    encodeUint? bits n = .ok b ↔ 0 ≤ n ∧ n < twoTo bits ∧ b = Bytes.ofNatLE (bits / 8) n.toNat := by
  rw [encodeUint?]
  by_cases negative : n < 0
  · have below : ¬ 0 ≤ n := by omega
    simp [negative, below]
  · by_cases large : (twoTo bits : Int) ≤ n
    · have above : ¬ n < twoTo bits := by omega
      simp [negative, large, above]
    · have ge : 0 ≤ n := by omega
      have lt : n < twoTo bits := by omega
      simp [negative, large, ge, lt, eq_comm]

/-- The bytes of packed numbers, without the zeros behind them. -/
def packedBytes (ns : List Int) : ByteArray :=
  Bytes.concatList (ns.map fun n => Bytes.ofNatLE 8 n.toNat)

theorem size_of_mem_packed (ns : List Int) :
    ∀ b ∈ ns.map fun n => Bytes.ofNatLE 8 n.toNat, b.size = 8 := by
  intro b mem
  obtain ⟨n, -, rfl⟩ := List.mem_map.mp mem
  exact Bytes.size_ofNatLE 8 n.toNat

theorem size_packedBytes (ns : List Int) : (packedBytes ns).size = ns.length * 8 := by
  have size := Bytes.size_concatList (size_of_mem_packed ns)
  rwa [List.length_map] at size

/-- The numbers in the words of a byte string. -/
def wordsOf (b : ByteArray) : List Int :=
  (Bytes.chunks 8 b).toList.map fun x => (Bytes.toNatLE x : Int)

/-- Numbers that fit are the words that are written for them. -/
theorem wordsOf_packedBytes {ns : List Int} (fit : ∀ n ∈ ns, 0 ≤ n ∧ n < twoTo 64) :
    wordsOf (packedBytes ns) = ns := by
  have power : twoTo 64 = 256 ^ 8 := Bytes.twoTo_eight_mul 8
  rw [wordsOf, packedBytes, Bytes.chunks_concatList (by decide) (size_of_mem_packed ns),
    List.map_map]
  conv_rhs => rw [← List.map_id ns]
  refine List.map_congr_left fun n mem => ?_
  obtain ⟨ge, small⟩ := fit n mem
  have back : Bytes.toNatLE (Bytes.ofNatLE 8 n.toNat) = n.toNat :=
    Bytes.toNatLE_ofNatLE (by rw [← power]; omega)
  rw [Function.comp_apply, back, Int.toNat_of_nonneg ge, id]

/-- Whole words are the bytes of their numbers. -/
theorem packedBytes_wordsOf {b : ByteArray} (whole : b.size % 8 = 0) :
    packedBytes (wordsOf b) = b := by
  have back : (wordsOf b).map (fun n => Bytes.ofNatLE 8 n.toNat) = (Bytes.chunks 8 b).toList := by
    rw [wordsOf, List.map_map]
    conv_rhs => rw [← List.map_id (Bytes.chunks 8 b).toList]
    refine List.map_congr_left fun x mem => ?_
    have same := Bytes.ofNatLE_toNatLE x
    rw [Bytes.size_of_mem_chunks whole (Array.mem_toList_iff.mp mem)] at same
    exact same
  rw [packedBytes, back, Bytes.concatList_chunks (by decide)]

theorem mapM_encodeUint?_eq_ok_iff {ns : List Int} {bs : List ByteArray} :
    ns.mapM (encodeUint? 64) = .ok bs ↔
      (∀ n ∈ ns, 0 ≤ n ∧ n < twoTo 64) ∧ bs = ns.map fun n => Bytes.ofNatLE 8 n.toNat := by
  refine mapM_eq_ok_iff_map fun n _ b => ?_
  rw [encodeUint?_eq_ok_iff, and_assoc]

/-- Numbers are packed exactly if each of them fits into 64 bits. -/
theorem packUint64s?_eq_ok_iff {ns : List Int} {chunks : Array ByteArray} :
    packUint64s? ns = .ok chunks ↔ (∀ n ∈ ns, 0 ≤ n ∧ n < twoTo 64) ∧
      chunks = Bytes.chunks 32 (Bytes.padToMultiple 32 (packedBytes ns)) := by
  simp only [packUint64s?, bind_eq_ok_iff, pure_eq_ok_iff, mapM_encodeUint?_eq_ok_iff,
    Bytes.concat_eq]
  constructor
  · rintro ⟨_, ⟨fit, rfl⟩, rfl⟩
    exact ⟨fit, rfl⟩
  · rintro ⟨fit, rfl⟩
    exact ⟨_, ⟨fit, rfl⟩, rfl⟩

theorem size_of_mem_packUint64s? {ns : List Int} {chunks : Array ByteArray}
    (packed : packUint64s? ns = .ok chunks) {b : ByteArray} (mem : b ∈ chunks) : b.size = 32 := by
  obtain ⟨-, rfl⟩ := packUint64s?_eq_ok_iff.mp packed
  exact Bytes.size_of_mem_chunks (Bytes.size_padToMultiple_mod (by decide) _) mem

theorem size_packUint64s? {ns : List Int} {chunks : Array ByteArray}
    (packed : packUint64s? ns = .ok chunks) : chunks.size = (ns.length + 3) / 4 := by
  obtain ⟨-, rfl⟩ := packUint64s?_eq_ok_iff.mp packed
  rw [Bytes.size_chunks, Bytes.size_padToMultiple, size_packedBytes]
  omega

/-- A balance is read from its place in a chunk. -/
theorem balanceIn?_natCast {chunk : ByteArray} (size : chunk.size = 32) (i : Nat) :
    balanceIn? chunk i = .ok (Bytes.toNatLE (chunk.extract (8 * (i % 4)) (8 * (i % 4) + 8))) := by
  have place : ((i : Int) % 4).toNat * 8 = 8 * (i % 4) := by omega
  rw [balanceIn?, if_neg (by simpa using size), place]

/-- A number stands in a chunk of four at the place that its position tells. -/
theorem balanceIn?_packed {ns : List Int} {chunks : Array ByteArray}
    (packed : packUint64s? ns = .ok chunks) {i : Nat} {n : Int} (found : ns[i]? = some n) :
    ∃ chunk, chunks[i / 4]? = some chunk ∧ balanceIn? chunk i = .ok n.toNat ∧ 0 ≤ n := by
  have count := size_packUint64s? packed
  have sizes := fun b mem => size_of_mem_packUint64s? (b := b) packed mem
  obtain ⟨fit, rfl⟩ := packUint64s?_eq_ok_iff.mp packed
  have lt : i < ns.length := (List.getElem?_eq_some_iff.mp found).1
  obtain ⟨ge, small⟩ := fit n (List.mem_of_getElem? found)
  have inside : i / 4 < (Bytes.chunks 32 (Bytes.padToMultiple 32 (packedBytes ns))).size := by
    rw [count]; omega
  have chunk := Bytes.getElem?_chunks 32 (Bytes.padToMultiple 32 (packedBytes ns))
    (i := i / 4) (by rwa [Bytes.size_chunks] at inside)
  have power : twoTo 64 = 256 ^ 8 := Bytes.twoTo_eight_mul 8
  have start : i / 4 * 32 + 8 * (i % 4) = i * 8 := by omega
  have stop : i / 4 * 32 + (8 * (i % 4) + 8) = i * 8 + 8 := by omega
  refine ⟨_, chunk, ?_, ge⟩
  rw [balanceIn?_natCast (sizes _ (Array.mem_of_getElem? chunk)), ByteArray.extract_extract,
    Nat.min_eq_left (by omega), start, stop, Bytes.padToMultiple_eq,
    Bytes.extract_append_of_le (by rw [size_packedBytes]; omega), packedBytes,
    Bytes.extract_concatList (size_of_mem_packed ns) (by rw [List.getElem?_map, found]; rfl),
    Bytes.toNatLE_ofNatLE (by rw [← power]; omega)]

end BeaconBranch.Chunk
