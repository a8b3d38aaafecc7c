import BeaconBranch.Proofs.Merkle.Opening

/-!
Inclusion in dense trees. Every node of a layer above the leaves was hashed from two nodes of the
layer below, and the way up from a leaf passes such pairs only, so replaying a genuine branch hashes
nothing that was not hashed for the tree. Main statement: each leaf of a tree is proven by its own
branch, and by no other branch of this length, nor is another leaf, unless two of the hashed
messages collide.
-/

namespace BeaconBranch.Merkle

namespace DenseTree

/-- The messages that are hashed when layers are built on one another: for each node of a layer the
two nodes below it. -/
def LayersHashed : List (Array ByteArray) → ByteArray → Prop
  | below :: above :: rest, m =>
    (∃ p, p < above.size ∧ m = below.getD (2 * p) zeroChunk ++ below.getD (2 * p + 1) zeroChunk) ∨
      LayersHashed (above :: rest) m
  | _, _ => False

/-- The messages that are hashed when a tree is built. -/
def Hashed (t : DenseTree) : ByteArray → Prop := LayersHashed t.layers

theorem layersHashed_cons (layer above : Array ByteArray) (n : Nat) (m : ByteArray) :
    LayersHashed (layer :: layersFrom n above) m ↔
      (∃ p, p < above.size ∧
        m = layer.getD (2 * p) zeroChunk ++ layer.getD (2 * p + 1) zeroChunk) ∨
        LayersHashed (layersFrom n above) m := by
  cases n <;> exact Iff.rfl

/-- Replaying the branch of a node hashes what was hashed for the layers above the node. -/
theorem layersHashed_of_replayed {leaf : Nat → ByteArray} {h n p : Nat} {layer : Array ByteArray}
    (holds : HoldsNodes leaf h (twoTo n) layer) (lt : p < twoTo n) {m : ByteArray}
    (replayed : Replayed (nodeOver leaf h p) (p : Int) (branchOver leaf h n p) m) :
    LayersHashed (layersFrom n layer) m := by
  induction n generalizing h p layer with
  | zero => exact replayed.elim
  | succ n ih =>
    rw [twoTo_succ, ← Nat.two_mul] at holds lt
    have parity : ((p : Int) % 2 = 0) ↔ p % 2 = 0 := by omega
    have half : (p : Int) / 2 = ((p / 2 : Nat) : Int) := rfl
    rw [branchOver, Replayed, half] at replayed
    simp only [parity] at replayed
    rw [append_sibling, join_sibling] at replayed
    rw [layersFrom, layersHashed_cons]
    rcases replayed with rfl | above
    · refine .inl ⟨p / 2, ?_, ?_⟩
      · rw [size_parents, holds.1]
        omega
      · rw [holds.2 _ (by omega), holds.2 _ (by omega)]
    · exact .inr (ih holds.parents (by omega) above)

section Built

variable {leaves : Array ByteArray} {depth : Int} {t : DenseTree}

/-- The first layer of a tree holds its leaves, zero chunks filled in. -/
theorem getElem?_leaves (built : ofLeaves? leaves depth = .ok t) {i : Nat}
    (lt : i < twoTo t.depth) : (t.layers.headD #[])[i]? = some (leafOf leaves i) := by
  obtain ⟨⟨size, nodes⟩, layers⟩ := holdsNodes_of_ofLeaves? built
  have first : t.layers.headD #[] = padLeaves t.depth leaves := by
    rw [layers]
    cases t.depth <;> rfl
  have inside : i < (padLeaves t.depth leaves).size := by rwa [size]
  have leaf := nodes i lt
  rw [Array.getD_eq_getD_getElem?, Array.getElem?_eq_getElem inside] at leaf
  rw [first, Array.getElem?_eq_getElem inside]
  exact congrArg some leaf

/-- Each leaf of a dense tree has a branch as long as the tree is deep, which proves it under the
root; and whatever else a branch of this length proves at the place of the leaf, it is this leaf by
this branch, or two different messages have one digest that were hashed for the tree or in the
check. -/
theorem branch_binds (built : ofLeaves? leaves depth = .ok t) {i : Nat} (lt : i < t.leafCount) :
    ∃ leaf branch, (t.layers.headD #[])[i]? = some leaf ∧ t.branch? i = .ok branch ∧
      branch.length = t.depth ∧ proves leaf branch (i : Int) t.root = true ∧
      ∀ (x : ByteArray) (p : List ByteArray), p.length = t.depth →
        proves x p (i : Int) t.root = true →
        (x = leaf ∧ p = branch) ∨ Collision fun m => t.Hashed m ∨ Replayed x (i : Int) p m := by
  have sizes := size_leafOf (ofLeaves?_eq_ok_iff.mp built).1
  have genuine := proves_branchOver sizes lt
  have root := root_of_ofLeaves? built
  refine ⟨_, _, getElem?_leaves built lt, branch?_of_ofLeaves? built lt, length_branchOver _ _ _ _,
    root ▸ genuine, fun x p length forged => ?_⟩
  obtain ⟨holds, layers⟩ := holdsNodes_of_ofLeaves? built
  have own : ∀ m, Replayed (leafOf leaves i) (i : Int) (branchOver (leafOf leaves) 0 t.depth i) m →
      t.Hashed m := by
    intro m replayed
    rw [Hashed, layers]
    exact layersHashed_of_replayed holds lt replayed
  obtain ⟨-, size, -, nodes, reaches⟩ := proves_iff.mp genuine
  obtain ⟨-, sizeX, -, nodesP, reachesX⟩ := proves_iff.mp forged
  refine (replay_unique (length.trans (length_branchOver _ _ _ _).symm) (sizeX.trans size.symm)
    nodesP nodes i (reachesX.trans (root.trans reaches.symm))).imp_right ?_
  exact Collision.mono fun m => Or.rec .inr fun replayed => .inl (own m replayed)

/-- Three leaves make a tree of two levels, whose fourth leaf is a zero chunk. -/
theorem branch_binds_padding :
    ∃ t leaf branch, ofLeaves? #[lengthChunk 1, lengthChunk 2, lengthChunk 3] 0 = .ok t ∧
      3 < t.leafCount ∧ (t.layers.headD #[])[3]? = some leaf ∧ t.branch? 3 = .ok branch ∧
      branch.length = t.depth ∧ proves leaf branch 3 t.root = true ∧
      ∀ (x : ByteArray) (p : List ByteArray), p.length = t.depth → proves x p 3 t.root = true →
        (x = leaf ∧ p = branch) ∨ Collision fun m => t.Hashed m ∨ Replayed x 3 p m := by
  obtain ⟨t, built, depth⟩ : ∃ t,
      ofLeaves? #[lengthChunk 1, lengthChunk 2, lengthChunk 3] 0 = .ok t ∧ t.depth = 2 :=
    ⟨_, ofLeaves?_eq_ok_iff.mpr ⟨by simp, Int.le_refl 0, by decide, rfl⟩, rfl⟩
  have lt : 3 < t.leafCount := by rw [leafCount, depth]; decide
  obtain ⟨leaf, branch, stands, made, length, holds, unique⟩ := branch_binds built lt
  exact ⟨t, leaf, branch, built, lt, stands, made, length, holds, unique⟩

end Built

end DenseTree

end BeaconBranch.Merkle
