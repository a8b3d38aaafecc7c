import BeaconBranch.Proofs.Chunk.Packing
import BeaconBranch.Proofs.Merkle.ListRoot
import BeaconBranch.Proofs.Merkle.Sparse

/-!
Roots of the registries. The lists of the validators and of the balances are hashed with sparse
trees of a fixed depth, which come to the same roots as any other tree over the same chunks. A tree
of such a depth has no more room than the limit of a registry leaves. Main statements: when the two
trees and the two roots are given, and which roots they are.
-/

namespace BeaconBranch

open Outcome Merkle

namespace Merkle.SparseTree

/-- A sparse tree over chunks is given exactly if it has room for them, and its root is the topmost
node over them. -/
theorem root_ofLeaves?_eq_ok_iff {d : Nat} {chunks : Array ByteArray} {r : ByteArray} :
    (∃ t, ofLeaves? d chunks.toList = .ok t ∧ t.root = r) ↔ (∀ b ∈ chunks, b.size = 32) ∧
      chunks.size ≤ twoTo d ∧ r = nodeOver (DenseTree.leafOf chunks) d 0 := by
  have leaves := DenseTree.getD_toList_eq_leafOf chunks
  constructor
  · rintro ⟨t, built, rfl⟩
    obtain ⟨sizes, room, sound, depth, leafAt, -⟩ := ofLeaves?_spec built
    refine ⟨fun b mem => sizes b (Array.mem_toList_iff.mpr mem), room, ?_⟩
    rw [root, computeRoot_fst sound, depth, leafAt, leaves]
  · rintro ⟨sizes, room, rfl⟩
    have sizesList : ∀ b ∈ chunks.toList, b.size = 32 :=
      fun b mem => sizes b (Array.mem_toList_iff.mp mem)
    obtain ⟨t, built, sound, depth, leafAt⟩ := exists_ofLeaves? sizesList room
    refine ⟨t, built, ?_⟩
    rw [root, computeRoot_fst sound, depth, leafAt, leaves]

end Merkle.SparseTree

namespace Chunk

theorem checkRegistry_eq_ok_iff {what : String} {n : Nat} :
    checkRegistry what n = .ok () ↔ n ≤ twoTo 40 := by
  rw [checkRegistry, Limits.validatorRegistry]
  split
  · rename_i long
    simp [Nat.not_le.mpr long]
  · rename_i short
    simp [Nat.not_lt.mp short]

/-- What has room in the tree of the validators is not too long for a registry. -/
theorem validatorsTree?_eq_ok_iff {roots : List ByteArray} {t : SparseTree} :
    validatorsTree? roots = .ok t ↔ SparseTree.ofLeaves? 40 roots = .ok t := by
  have run : validatorsTree? roots = checkRegistry "Validators" roots.length >>= fun _ =>
      SparseTree.ofLeaves? 40 roots := rfl
  rw [run, bind_eq_ok_iff]
  constructor
  · rintro ⟨-, -, built⟩
    exact built
  · intro built
    obtain ⟨-, room, -⟩ := SparseTree.ofLeaves?_spec built
    exact ⟨(), checkRegistry_eq_ok_iff.mpr room, built⟩

/-- Balances whose chunks have room in their tree are not too many for a registry. -/
theorem balancesTree?_eq_ok_iff {balances : List Int} {t : SparseTree} :
    balancesTree? balances = .ok t ↔ ∃ chunks, packUint64s? balances = .ok chunks ∧
      SparseTree.ofLeaves? 38 chunks.toList = .ok t := by
  have run : balancesTree? balances = checkRegistry "Balances" balances.length >>= fun _ =>
      packUint64s? balances >>= fun chunks => SparseTree.ofLeaves? 38 chunks.toList := rfl
  simp only [run, bind_eq_ok_iff]
  constructor
  · rintro ⟨-, -, chunks, packed, built⟩
    exact ⟨chunks, packed, built⟩
  · rintro ⟨chunks, packed, built⟩
    have room : chunks.size ≤ twoTo 38 := (SparseTree.ofLeaves?_spec built).2.1
    have count := size_packUint64s? packed
    have four : twoTo 40 = 4 * twoTo 38 := by decide +kernel
    exact ⟨(), checkRegistry_eq_ok_iff.mpr (by omega), chunks, packed, built⟩

theorem validatorsRoot?_eq_ok_iff {roots : Array ByteArray} {r : ByteArray} :
    validatorsRoot? roots.toList = .ok r ↔ (∀ b ∈ roots, b.size = 32) ∧ roots.size ≤ twoTo 40 ∧
      roots.size < twoTo 256 ∧
      r = join (nodeOver (DenseTree.leafOf roots) 40 0) (lengthChunk roots.size) := by
  simp only [validatorsRoot?, validatorsTree?_eq_ok_iff, bind_eq_ok_iff, Array.length_toList,
    mixInLength?_eq_ok_iff]
  constructor
  · rintro ⟨t, built, length, rfl⟩
    obtain ⟨sizes, room, root⟩ := SparseTree.root_ofLeaves?_eq_ok_iff.mp ⟨t, built, rfl⟩
    exact ⟨sizes, room, length, by rw [root]⟩
  · rintro ⟨sizes, room, length, rfl⟩
    obtain ⟨t, built, root⟩ := SparseTree.root_ofLeaves?_eq_ok_iff.mpr ⟨sizes, room, rfl⟩
    exact ⟨t, built, length, by rw [root]⟩

theorem balancesRoot?_eq_ok_iff {balances : List Int} {r : ByteArray} :
    balancesRoot? balances = .ok r ↔ ∃ chunks, packUint64s? balances = .ok chunks ∧
      chunks.size ≤ twoTo 38 ∧ balances.length < twoTo 256 ∧
      r = join (nodeOver (DenseTree.leafOf chunks) 38 0) (lengthChunk balances.length) := by
  simp only [balancesRoot?, balancesTree?_eq_ok_iff, bind_eq_ok_iff, mixInLength?_eq_ok_iff]
  constructor
  · rintro ⟨t, ⟨chunks, packed, built⟩, length, rfl⟩
    obtain ⟨-, room, root⟩ := SparseTree.root_ofLeaves?_eq_ok_iff.mp ⟨t, built, rfl⟩
    exact ⟨chunks, packed, room, length, by rw [root]⟩
  · rintro ⟨chunks, packed, room, length, rfl⟩
    obtain ⟨t, built, root⟩ := SparseTree.root_ofLeaves?_eq_ok_iff.mpr
      ⟨fun b mem => size_of_mem_packUint64s? packed mem, room, rfl⟩
    exact ⟨t, ⟨chunks, packed, built⟩, length, by rw [root]⟩

/-- Numbers that were read from whole words are packed into the chunks of the words. -/
theorem packUint64s?_words {data : ByteArray} (whole : data.size % 8 = 0) :
    packUint64s? ((Bytes.chunks 8 data).toList.map fun b => (Bytes.toNatLE b : Int)) =
      .ok (Bytes.chunks 32 (Bytes.padToMultiple 32 data)) := by
  have power : twoTo 64 = 256 ^ 8 := Bytes.twoTo_eight_mul 8
  have bytes := packedBytes_wordsOf whole
  refine packUint64s?_eq_ok_iff.mpr ⟨fun n mem => ?_, by rw [← wordsOf, bytes]⟩
  obtain ⟨b, inList, rfl⟩ := List.mem_map.mp mem
  have lt := Bytes.toNatLE_lt b
  rw [Bytes.size_of_mem_chunks whole (Array.mem_toList_iff.mp inList), ← power] at lt
  omega

end Chunk

end BeaconBranch
