import BeaconBranch.Merkle.ListRoot
import BeaconBranch.Proofs.Merkle.Dense
import BeaconBranch.Proofs.Outcome

/-!
Roots of lists and vectors. Only the populated part of a layer is there, and a zero hash stands for
every node behind it; so each layer is right at every position, and its single node at the end is
the topmost node over the chunks. Main statements: when a root is given, and which node it is.
-/

namespace BeaconBranch.Merkle

open Outcome

/-- A layer is right at every position, zero hashes filled in behind it. -/
def RightLayer (leaf : Nat → ByteArray) (h : Nat) (layer : Array ByteArray) : Prop :=
  ∀ p, layer.getD p (zeroHash h) = nodeOver leaf h p

theorem RightLayer.parents {leaf : Nat → ByteArray} {h : Nat} {layer : Array ByteArray}
    (right : RightLayer leaf h layer) : RightLayer leaf (h + 1) (parents (zeroHash h) layer) := by
  intro p
  rw [nodeOver, ← right, ← right]
  simp only [Merkle.parents, Array.getD_eq_getD_getElem?, Array.getElem?_ofFn]
  split
  · rfl
  · rename_i outside
    rw [Array.getElem?_eq_none (by omega), Array.getElem?_eq_none (by omega)]
    exact zeroHash_succ h

theorem rootAbove_eq {leaf : Nat → ByteArray} {n h : Nat} {layer : Array ByteArray}
    (right : RightLayer leaf h layer) : rootAbove n h layer = nodeOver leaf (h + n) 0 := by
  induction n generalizing h layer with
  | zero => exact right 0
  | succ n ih => rw [rootAbove, ih right.parents, Nat.add_right_comm, Nat.add_assoc]

theorem rightLayer_leafOf (chunks : Array ByteArray) :
    RightLayer (DenseTree.leafOf chunks) 0 chunks := by
  intro p
  rw [zeroHash_zero]
  rfl

/-- A root is given exactly if there is room for the chunks, and it is the topmost node. -/
theorem rootAtDepth?_eq_ok_iff {chunks : Array ByteArray} {d : Nat} {r : ByteArray} :
    rootAtDepth? chunks d = .ok r ↔
      chunks.size ≤ twoTo d ∧ r = nodeOver (DenseTree.leafOf chunks) d 0 := by
  have root : (if chunks.isEmpty then zeroHash d else rootAbove d 0 chunks) =
      nodeOver (DenseTree.leafOf chunks) d 0 := by
    split
    · rename_i empty
      rw [Array.isEmpty_iff] at empty
      subst empty
      exact (nodeOver_eq_zeroHash fun i _ _ => DenseTree.leafOf_of_le (Nat.zero_le i)).symm
    · rw [rootAbove_eq (rightLayer_leafOf chunks), Nat.zero_add]
  rw [rootAtDepth?, if_neg (by omega), Int.toNat_natCast]
  dsimp only
  rw [root]
  by_cases large : twoTo d < chunks.size
  · have none : ¬ chunks.size ≤ twoTo d := by omega
    simp [large, none]
  · have room : chunks.size ≤ twoTo d := by omega
    simp [large, room, eq_comm]

/-- A depth for so many chunks leaves room for them. -/
theorem le_twoTo_depthForLimit (n : Nat) : n ≤ twoTo (depthForLimit n) :=
  DenseTree.le_twoTo_depthFor n

/-- A limit that is a power of two takes as many levels as its exponent. -/
theorem depthForLimit_twoTo (d : Nat) : depthForLimit (twoTo d : Nat) = d :=
  DenseTree.depthFor_twoTo d

theorem vectorRoot?_eq_ok_iff {chunks : Array ByteArray} {limit : Int} {r : ByteArray} :
    vectorRoot? chunks limit = .ok r ↔ chunks.size ≤ twoTo (depthForLimit limit) ∧
      r = nodeOver (DenseTree.leafOf chunks) (depthForLimit limit) 0 :=
  rootAtDepth?_eq_ok_iff

/-! ### Lengths -/

/-- The chunk of a length. -/
def lengthChunk (n : Nat) : ByteArray := Bytes.ofNatLE 32 n

@[simp] theorem size_lengthChunk (n : Nat) : (lengthChunk n).size = 32 := Bytes.size_ofNatLE 32 n

theorem lengthChunk?_eq_ok_iff {n : Nat} {b : ByteArray} :
    lengthChunk? n = .ok b ↔ n < twoTo 256 ∧ b = lengthChunk n := by
  rw [lengthChunk?]
  by_cases large : (n : Int) < 0 ∨ (twoTo 256 : Int) ≤ n
  · rw [if_pos large]
    have none : ¬ n < twoTo 256 := by omega
    simp [none]
  · rw [if_neg large, Int.toNat_natCast]
    have fits : n < twoTo 256 := by omega
    simp [fits, lengthChunk, eq_comm]

theorem mixInLength?_eq_ok_iff {root r : ByteArray} {n : Nat} :
    mixInLength? root n = .ok r ↔ n < twoTo 256 ∧ r = join root (lengthChunk n) := by
  simp only [mixInLength?, bind_eq_ok_iff, pure_eq_ok_iff, lengthChunk?_eq_ok_iff]
  constructor
  · rintro ⟨_, ⟨lt, rfl⟩, rfl⟩
    exact ⟨lt, rfl⟩
  · rintro ⟨lt, rfl⟩
    exact ⟨_, ⟨lt, rfl⟩, rfl⟩

theorem listRoot?_eq_ok_iff {chunks : Array ByteArray} {limit : Int} {n : Nat} {r : ByteArray} :
    listRoot? chunks limit n = .ok r ↔ chunks.size ≤ twoTo (depthForLimit limit) ∧
      n < twoTo 256 ∧
      r = join (nodeOver (DenseTree.leafOf chunks) (depthForLimit limit) 0) (lengthChunk n) := by
  simp only [listRoot?, bind_eq_ok_iff, rootAtDepth?_eq_ok_iff, mixInLength?_eq_ok_iff]
  constructor
  · rintro ⟨_, ⟨room, rfl⟩, lt, rfl⟩
    exact ⟨room, lt, rfl⟩
  · rintro ⟨room, lt, rfl⟩
    exact ⟨_, ⟨room, rfl⟩, lt, rfl⟩

end BeaconBranch.Merkle
