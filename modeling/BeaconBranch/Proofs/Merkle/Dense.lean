import BeaconBranch.Merkle.Dense
import BeaconBranch.Proofs.Merkle.Node

/-!
Dense trees compute the nodes of the complete tree over their leaves. Every layer holds the nodes
of its height, so the root is the topmost node and a branch is the row of siblings up to it. Main
statements: when a dense tree is built, and what its root and its branches are then.
-/

namespace BeaconBranch.Merkle

/-- A layer holds the `n` nodes of a height. -/
def HoldsNodes (leaf : Nat → ByteArray) (h n : Nat) (layer : Array ByteArray) : Prop :=
  layer.size = n ∧ ∀ p, p < n → layer.getD p zeroChunk = nodeOver leaf h p

/-- The parents of a layer are the nodes one step further up. -/
theorem HoldsNodes.parents {leaf : Nat → ByteArray} {h n : Nat} {layer : Array ByteArray}
    (holds : HoldsNodes leaf h (2 * n) layer) :
    HoldsNodes leaf (h + 1) n (parents zeroChunk layer) := by
  obtain ⟨size, nodes⟩ := holds
  refine ⟨by rw [size_parents, size]; omega, fun p lt => ?_⟩
  have inside : p < (layer.size + 1) / 2 := by omega
  simp only [Merkle.parents, Array.getD_eq_getD_getElem?, Array.getElem?_ofFn, inside, dite_true,
    Option.getD_some]
  rw [← Array.getD_eq_getD_getElem?, ← Array.getD_eq_getD_getElem?, nodes _ (by omega),
    nodes _ (by omega), nodeOver]

namespace DenseTree

/-- The leaf of a tree at a position, zero chunks filled in. -/
def leafOf (leaves : Array ByteArray) (p : Nat) : ByteArray := leaves.getD p zeroChunk

theorem getD_toList_eq_leafOf (leaves : Array ByteArray) :
    (fun p => leaves.toList.getD p zeroChunk) = leafOf leaves := by
  funext p
  rw [leafOf, Array.getD_eq_getD_getElem?, List.getD_eq_getElem?_getD, Array.getElem?_toList]

theorem leafOf_of_le {leaves : Array ByteArray} {p : Nat} (le : leaves.size ≤ p) :
    leafOf leaves p = zeroChunk := by
  simp [leafOf, Array.getElem?_eq_none le]

theorem size_leafOf {leaves : Array ByteArray} (sizes : ∀ b ∈ leaves, b.size = 32) (p : Nat) :
    (leafOf leaves p).size = 32 := by
  rcases Nat.lt_or_ge p leaves.size with lt | ge
  · have mem : leaves[p] ∈ leaves := Array.getElem_mem lt
    simpa [leafOf, lt] using sizes _ mem
  · rw [leafOf_of_le ge, size_zeroChunk]

theorem holdsNodes_padLeaves {d : Nat} {leaves : Array ByteArray} (le : leaves.size ≤ twoTo d) :
    HoldsNodes (leafOf leaves) 0 (twoTo d) (padLeaves d leaves) := by
  refine ⟨by simp only [padLeaves, Array.size_append, Array.size_replicate]; omega, fun p _ => ?_⟩
  simp only [padLeaves, nodeOver, leafOf, Array.getD_eq_getD_getElem?, Array.getElem?_append,
    Array.getElem?_replicate]
  by_cases lt : p < leaves.size
  · rw [if_pos lt]
  · rw [if_neg lt, Array.getElem?_eq_none (Nat.le_of_not_lt lt)]
    split <;> rfl

/-- The last of the layers above a layer holds the root. -/
theorem getLastD_layersFrom {leaf : Nat → ByteArray} {h n : Nat} {layer : Array ByteArray}
    (holds : HoldsNodes leaf h (twoTo n) layer) :
    ((layersFrom n layer).getLastD #[]).getD 0 zeroChunk = nodeOver leaf (h + n) 0 := by
  induction n generalizing h layer with
  | zero => exact holds.2 0 (by simp)
  | succ n ih =>
    rw [twoTo_succ, ← Nat.two_mul] at holds
    have above := ih holds.parents
    rw [show h + (n + 1) = h + 1 + n by omega, ← above, layersFrom]
    cases n <;> rfl

theorem siblings_cons_layersFrom (layer above : Array ByteArray) (n i : Nat) :
    siblings (layer :: layersFrom n above) i =
      layer.getD (i ^^^ 1) zeroChunk :: siblings (layersFrom n above) (i / 2) := by
  cases n <;> rfl

/-- Reading siblings off the layers gives the branch. -/
theorem siblings_layersFrom {leaf : Nat → ByteArray} {h n p : Nat} {layer : Array ByteArray}
    (holds : HoldsNodes leaf h (twoTo n) layer) (lt : p < twoTo n) :
    siblings (layersFrom n layer) p = branchOver leaf h n p := by
  induction n generalizing h p layer with
  | zero => rfl
  | succ n ih =>
    rw [twoTo_succ, ← Nat.two_mul] at holds lt
    rw [layersFrom, siblings_cons_layersFrom, branchOver, holds.2 _ (xor_one_lt lt),
      ih holds.parents (by omega)]

theorem checkChunks_eq_ok_iff {nodes : Array ByteArray} :
    checkChunks nodes = .ok () ↔ ∀ b ∈ nodes, b.size = 32 := by
  unfold checkChunks
  split
  · rename_i b found
    simp only [reduceCtorEq, false_iff]
    intro sizes
    have mem := Array.mem_of_find?_eq_some found
    have wrong := Array.find?_some found
    simp [sizes b mem] at wrong
  · rename_i absent
    simpa using absent

/-- The depth of a tree that is asked for with a depth. -/
def depthAsked (leaves : Array ByteArray) (depth : Int) : Nat :=
  if depth = 0 then depthFor leaves.size else depth.toNat

/-- A dense tree is built from 32-byte leaves that it has room for, and from no others. -/
theorem ofLeaves?_eq_ok_iff {leaves : Array ByteArray} {depth : Int} {t : DenseTree} :
    ofLeaves? leaves depth = .ok t ↔ (∀ b ∈ leaves, b.size = 32) ∧ 0 ≤ depth ∧
      leaves.size ≤ twoTo (depthAsked leaves depth) ∧
      t = ⟨depthAsked leaves depth,
        layersFrom (depthAsked leaves depth) (padLeaves (depthAsked leaves depth) leaves)⟩ := by
  rw [← checkChunks_eq_ok_iff, ofLeaves?]
  cases checked : checkChunks leaves with
  | error size => simp
  | ok _ =>
    by_cases negative : depth < 0
    · have below : ¬ 0 ≤ depth := by omega
      simp [negative, below]
    · simp only [negative, if_false]
      rw [show (if depth = 0 then depthFor leaves.size else depth.toNat) =
        depthAsked leaves depth from rfl]
      by_cases large : twoTo (depthAsked leaves depth) < leaves.size
      · have none : ¬ leaves.size ≤ twoTo (depthAsked leaves depth) := by omega
        simp [large, none]
      · have room : leaves.size ≤ twoTo (depthAsked leaves depth) := by omega
        have ge : 0 ≤ depth := by omega
        simp [large, room, ge, eq_comm]

section Built

variable {leaves : Array ByteArray} {depth : Int} {t : DenseTree}

theorem depth_of_ofLeaves? (built : ofLeaves? leaves depth = .ok t) :
    t.depth = depthAsked leaves depth := by
  rw [(ofLeaves?_eq_ok_iff.mp built).2.2.2]

theorem holdsNodes_of_ofLeaves? (built : ofLeaves? leaves depth = .ok t) :
    HoldsNodes (leafOf leaves) 0 (twoTo t.depth) (padLeaves t.depth leaves) ∧
      t.layers = layersFrom t.depth (padLeaves t.depth leaves) := by
  obtain ⟨-, -, room, rfl⟩ := ofLeaves?_eq_ok_iff.mp built
  exact ⟨holdsNodes_padLeaves room, rfl⟩

/-- The root is the topmost node over the leaves. -/
theorem root_of_ofLeaves? (built : ofLeaves? leaves depth = .ok t) :
    t.root = nodeOver (leafOf leaves) t.depth 0 := by
  obtain ⟨holds, layers⟩ := holdsNodes_of_ofLeaves? built
  rw [root, layers, getLastD_layersFrom holds, Nat.zero_add]

/-- The branch of a leaf is the row of siblings on its way up. -/
theorem branch?_of_ofLeaves? (built : ofLeaves? leaves depth = .ok t) {i : Nat}
    (lt : i < twoTo t.depth) : t.branch? i = .ok (branchOver (leafOf leaves) 0 t.depth i) := by
  obtain ⟨holds, layers⟩ := holdsNodes_of_ofLeaves? built
  have inside : ¬((i : Int) < 0 ∨ (t.leafCount : Int) ≤ i) := by rw [leafCount]; omega
  rw [branch?, if_neg inside, layers, Int.toNat_natCast, siblings_layersFrom holds lt]

end Built

theorem depthFor_of_le_one {n : Nat} (le : n ≤ 1) : depthFor n = 0 := by
  rw [depthFor, if_neg (by omega)]

/-- The smallest tree for so many leaves has room for them. -/
theorem le_twoTo_depthFor (n : Nat) : n ≤ twoTo (depthFor n) := by
  rw [depthFor]
  split
  · have lt : n - 1 < twoTo ((n - 1).log2 + 1) := Nat.lt_log2_self
    omega
  · rw [twoTo_zero]
    omega

/-- The smallest tree for as many leaves as a depth has room for is the one of that depth. -/
theorem depthFor_twoTo (d : Nat) : depthFor (twoTo d) = d := by
  cases d with
  | zero => rfl
  | succ d =>
    have positive := twoTo_pos d
    have log : (twoTo (d + 1) - 1).log2 = d := by
      rw [Nat.log2_eq_iff (by rw [twoTo_succ]; omega)]
      show twoTo d ≤ _ ∧ _ < twoTo (d + 1)
      rw [twoTo_succ]
      omega
    rw [depthFor, if_pos (by rw [twoTo_succ]; omega), log]

/-- A depth that leaves room for the leaves is the depth of the tree. -/
theorem depthAsked_natCast {leaves : Array ByteArray} {d : Nat} (le : leaves.size ≤ twoTo d) :
    depthAsked leaves d = d := by
  cases d with
  | zero => exact depthFor_of_le_one le
  | succ d =>
    have positive : ((d : Int) + 1) ≠ 0 := by omega
    simp [depthAsked, positive]

/-- Chunks that a depth leaves room for always make a tree of that depth. -/
theorem exists_ofLeaves? {leaves : Array ByteArray} {d : Nat} (sizes : ∀ b ∈ leaves, b.size = 32)
    (room : leaves.size ≤ twoTo d) : ∃ t, ofLeaves? leaves d = .ok t ∧ t.depth = d := by
  have asked := depthAsked_natCast room
  refine ⟨_, ofLeaves?_eq_ok_iff.mpr ⟨sizes, Int.natCast_nonneg d, ?_, rfl⟩, asked⟩
  rwa [asked]

end DenseTree

/-- The root of the smallest tree over chunks. -/
theorem rootOfChunks_eq {chunks : Array ByteArray} (sizes : ∀ b ∈ chunks, b.size = 32) :
    rootOfChunks chunks =
      .ok (nodeOver (DenseTree.leafOf chunks) (depthFor chunks.size) 0) := by
  rw [rootOfChunks]
  split
  · rename_i empty
    rw [Array.isEmpty_iff] at empty
    subst empty
    rfl
  · have asked : DenseTree.depthAsked chunks 0 = depthFor chunks.size := rfl
    have built := DenseTree.ofLeaves?_eq_ok_iff.mpr ⟨sizes, Int.le_refl 0,
      asked ▸ DenseTree.le_twoTo_depthFor chunks.size, rfl⟩
    have root := DenseTree.root_of_ofLeaves? built
    rw [built]
    exact congrArg Except.ok root

end BeaconBranch.Merkle
