import BeaconBranch.Proofs.Merkle.Dense
import BeaconBranch.Proofs.Merkle.Gindex
import BeaconBranch.Proofs.Outcome

/-!
Paths, generalized indices and nodes. A path of left and right steps, the number that it spells
behind a one, and a place in the layers of a tree are three names of one node. Main statement: the
names are translated into each other without loss, joining indices is joining paths, and the
siblings along the way from a leaf to the root are the indices of the nodes in the branch of the
leaf.
-/

namespace BeaconBranch

open Outcome

namespace Gindex

/-- The index at the end of a path that starts at a node. -/
def descend (g : Nat) (path : List Nat) : Nat := path.foldl (fun g b => 2 * g + b) g

/-- A path goes left or right at each step. -/
def IsPath (path : List Nat) : Prop := ∀ b ∈ path, b = 0 ∨ b = 1

theorem isPath_cons {b : Nat} {path : List Nat} :
    IsPath (b :: path) ↔ (b = 0 ∨ b = 1) ∧ IsPath path := List.forall_mem_cons

theorem descend_append (g : Nat) (path rest : List Nat) :
    descend g (path ++ rest) = descend (descend g path) rest := List.foldl_append

theorem descend_cons (g b : Nat) (path : List Nat) :
    descend g (b :: path) = descend (2 * g + b) path := rfl

/-- A path that starts at a node puts its digits behind those of the node. -/
theorem descend_eq (g : Nat) (path : List Nat) :
    descend g path + twoTo path.length = g * twoTo path.length + descend 1 path := by
  induction path generalizing g with
  | nil => simp [descend, Nat.add_comm]
  | cons b path ih =>
    have below := ih (2 * g + b)
    have belowRoot := ih (2 * 1 + b)
    have shift : 2 * g * twoTo path.length = g * (twoTo path.length + twoTo path.length) := by
      rw [← Nat.two_mul, Nat.mul_comm 2 g, Nat.mul_assoc]
    rw [Nat.add_mul, shift] at below
    rw [Nat.add_mul] at belowRoot
    rw [descend_cons, descend_cons, List.length_cons, twoTo_succ]
    omega

/-! ### Paths and numbers -/

theorem pathTo_one : pathTo 1 = [] := by
  rw [pathTo, if_pos (Nat.le_refl 1)]

/-- The path to a child is the path to its parent and one step more. -/
theorem pathTo_child {g b : Nat} (pos : 1 ≤ g) (bit : b = 0 ∨ b = 1) :
    pathTo (2 * g + b) = pathTo g ++ [b] := by
  rw [pathTo, if_neg (by omega), show (2 * g + b) / 2 = g by omega,
    show (2 * g + b) % 2 = b by omega]

theorem one_le_descend {g : Nat} (pos : 1 ≤ g) (path : List Nat) : 1 ≤ descend g path := by
  induction path generalizing g with
  | nil => exact pos
  | cons b path ih => exact ih (g := 2 * g + b) (by omega)

/-- The path to the end of a path from a node starts with the path to the node. -/
theorem pathTo_descend {g : Nat} (pos : 1 ≤ g) {path : List Nat} (isPath : IsPath path) :
    pathTo (descend g path) = pathTo g ++ path := by
  induction path generalizing g with
  | nil => exact (List.append_nil _).symm
  | cons b path ih =>
    obtain ⟨bit, rest⟩ := isPath_cons.mp isPath
    have further : pathTo (descend (2 * g + b) path) = pathTo (2 * g + b) ++ path :=
      ih (by omega) rest
    rw [pathTo_child pos bit, List.append_assoc] at further
    exact further

/-- The path to a node leads to it, step by step, and has as many steps as the node is deep. -/
theorem pathTo_spec {g : Nat} (pos : 1 ≤ g) :
    IsPath (pathTo g) ∧ descend 1 (pathTo g) = g ∧ (pathTo g).length = g.log2 := by
  induction g using Nat.strongRecOn with
  | ind g ih =>
    rcases Nat.eq_or_lt_of_le pos with rfl | deeper
    · rw [pathTo_one]
      exact ⟨List.forall_mem_nil _, rfl, rfl⟩
    · obtain ⟨isPath, leads, length⟩ := ih (g / 2) (by omega) (by omega)
      have bit : g % 2 = 0 ∨ g % 2 = 1 := Nat.mod_two_eq_zero_or_one g
      have split := pathTo_child (show 1 ≤ g / 2 by omega) bit
      rw [show 2 * (g / 2) + g % 2 = g by omega] at split
      rw [split]
      refine ⟨fun b mem => ?_, ?_, ?_⟩
      · rcases List.mem_append.mp mem with earlier | last
        · exact isPath b earlier
        · exact List.mem_singleton.mp last ▸ bit
      · rw [descend_append, leads]
        show 2 * (g / 2) + g % 2 = g
        omega
      · rw [List.length_append, length, List.length_singleton, Nat.log2_def g, if_pos (by omega)]

/-- The end of a path from the root is as deep as the path is long. -/
theorem log2_descend {path : List Nat} (isPath : IsPath path) :
    (descend 1 path).log2 = path.length := by
  rw [← (pathTo_spec (one_le_descend (Nat.le_refl 1) path)).2.2,
    pathTo_descend (Nat.le_refl 1) isPath, pathTo_one, List.nil_append]

/-! ### Rows of steps -/

/-- A path is walked from any node. -/
theorem walk_path {path : List Nat} (isPath : IsPath path) (g : Nat) :
    (path.map Int.ofNat).foldlM step? (g : Int) = .ok ((descend g path : Nat) : Int) := by
  induction path generalizing g with
  | nil => rfl
  | cons b path ih =>
    obtain ⟨bit, rest⟩ := isPath_cons.mp isPath
    have step : step? (g : Int) (Int.ofNat b) = .ok ((2 * g + b : Nat) : Int) :=
      if_pos (bit.imp (congrArg Int.ofNat) (congrArg Int.ofNat))
    rw [List.map_cons, List.foldlM_cons, step]
    exact ih rest _

/-- A row of steps is a path, or it is refused for the same step wherever it starts. -/
theorem path_or_refused (steps : List Int) :
    (∃ path : List Nat, IsPath path ∧ steps = path.map Int.ofNat) ∨
      ∃ fault, ∀ g : Int, steps.foldlM step? g = .error fault := by
  induction steps with
  | nil => exact .inl ⟨[], List.forall_mem_nil _, rfl⟩
  | cons s steps ih =>
    by_cases bit : s = 0 ∨ s = 1
    · rcases ih with ⟨path, isPath, rfl⟩ | ⟨fault, refused⟩
      · refine .inl ⟨s.toNat :: path, isPath_cons.mpr ⟨by omega, isPath⟩, ?_⟩
        have same : Int.ofNat s.toNat = s := Int.toNat_of_nonneg (by omega)
        rw [List.map_cons, same]
      · refine .inr ⟨fault, fun g => ?_⟩
        have step : step? g s = .ok (2 * g + s) := if_pos bit
        rw [List.foldlM_cons, step]
        exact refused _
    · refine .inr ⟨.notAPathStep (toString s), fun g => ?_⟩
      have none : step? g s = .error (.notAPathStep (toString s)) := if_neg bit
      rw [List.foldlM_cons, none]
      rfl

/-- The index of a path is the node at its end. -/
theorem ofPath?_path {path : List Nat} (isPath : IsPath path) :
    ofPath? (path.map Int.ofNat) = .ok ((descend 1 path : Nat) : Int) := walk_path isPath 1

theorem toPath?_natCast {g : Nat} (pos : 1 ≤ g) : toPath? (g : Int) = .ok (pathTo g) := by
  rw [toPath?, if_neg (by omega), Int.toNat_natCast]

/-- The index at the end of a row of steps has this row as its path, and no other index has. -/
theorem ofPath?_eq_ok_iff {path : List Nat} {g : Int} :
    ofPath? (path.map Int.ofNat) = .ok g ↔ toPath? g = .ok path := by
  constructor
  · intro ends
    rcases path_or_refused (path.map Int.ofNat) with ⟨path', isPath, same⟩ | ⟨fault, refused⟩
    · obtain rfl : path = path' := List.map_injective_iff.mpr (fun _ _ => Int.ofNat.inj) same
      rw [ofPath?_path isPath, Except.ok.injEq] at ends
      rw [← ends, toPath?_natCast (one_le_descend (Nat.le_refl 1) path),
        pathTo_descend (Nat.le_refl 1) isPath, pathTo_one, List.nil_append]
    · cases (refused 1).symm.trans ends
  · intro leads
    by_cases low : g < 1
    · rw [toPath?, if_pos low] at leads
      cases leads
    · have pos : 1 ≤ g.toNat := by omega
      rw [toPath?, if_neg low, Except.ok.injEq] at leads
      obtain ⟨isPath, ends, -⟩ := pathTo_spec pos
      rw [← leads, ofPath?_path isPath, ends, Int.toNat_of_nonneg (by omega)]

/-- Steps of unknown shape that are whole numbers are steps. -/
theorem ofSteps?_int (steps : List Int) : ofSteps? (steps.map .int) = ofPath? steps := by
  rw [ofSteps?, ofPath?, List.foldlM_map]
  rfl

/-! ### Joining -/

/-- An index inside the subtree of a node, counted from the root. -/
theorem join_descend (g : Nat) {path : List Nat} (isPath : IsPath path) :
    (do let depth ← depth? ((descend 1 path : Nat) : Int)
        .ok ((g : Int) * twoTo depth + (((descend 1 path : Nat) : Int) - twoTo depth))) =
      Except.ok ((descend g path : Nat) : Int) := by
  have split := congrArg (Nat.cast (R := Int)) (descend_eq g path)
  rw [Int.natCast_add, Int.natCast_add, Int.natCast_mul] at split
  rw [depth?_natCast (one_le_descend (Nat.le_refl 1) path), log2_descend isPath, ok_bind,
    Except.ok.injEq]
  omega

/-- Joining the indices of paths walks the paths one after another. -/
theorem concat?_paths (paths : List (List Int)) :
    paths.mapM ofPath? >>= concat? = ofPath? paths.flatten := by
  -- The paths in front are walked first, so the walk has to start at any node.
  suffices walks : ∀ whole : Nat, (paths.mapM ofPath? >>= fun gs => gs.foldlM (fun whole g => do
      let depth ← depth? g
      .ok (whole * twoTo depth + (g - twoTo depth))) (whole : Int)) =
        paths.flatten.foldlM step? (whole : Int) from walks 1
  induction paths with
  | nil => exact fun _ => rfl
  | cons path paths ih =>
    intro whole
    rw [List.mapM_cons, List.flatten_cons, List.foldlM_append]
    rcases path_or_refused path with ⟨path, isPath, rfl⟩ | ⟨fault, refused⟩
    · rw [ofPath?_path isPath, walk_path isPath, ok_bind, ok_bind, ← ih, bind_assoc]
      refine bind_congr fun gs => ?_
      rw [pure_bind, List.foldlM_cons, join_descend whole isPath, ok_bind]
    · have none : ofPath? path = .error fault := refused 1
      rw [none, refused]
      rfl

/-! ### Leaves -/

/-- The sibling of a node stands on its level. -/
theorem xor_one_leaf {n p : Nat} : (twoTo (n + 1) + p) ^^^ 1 = twoTo (n + 1) + (p ^^^ 1) := by
  have even : twoTo (n + 1) % 2 = 0 := by rw [twoTo_succ]; omega
  rcases Nat.mod_two_eq_zero_or_one p with left | right
  · rw [Merkle.xor_one_of_even left, Merkle.xor_one_of_even (by omega)]
    omega
  · rw [Merkle.xor_one_of_odd right, Merkle.xor_one_of_odd (by omega)]
    omega

end Gindex

namespace Merkle

open Gindex

namespace DenseTree

/-- The node that an index addresses: an index of depth `e` stands for a place in the layer that is
`e` layers below the root. -/
def nodeAt? (t : DenseTree) (g : Nat) : Option ByteArray :=
  if g.log2 ≤ t.depth then t.layers[t.depth - g.log2]?.bind (·[g - twoTo g.log2]?) else none

/-- Each layer above a layer holds the nodes of its height. -/
theorem holdsNodes_layersFrom {leaf : Nat → ByteArray} {h n k : Nat} {layer : Array ByteArray}
    (holds : HoldsNodes leaf h (twoTo n) layer) (le : k ≤ n) :
    ∃ above, (layersFrom n layer)[k]? = some above ∧
      HoldsNodes leaf (h + k) (twoTo (n - k)) above := by
  induction k generalizing h n layer with
  | zero =>
    refine ⟨layer, ?_, holds⟩
    cases n <;> rfl
  | succ k ih =>
    cases n with
    | zero => omega
    | succ n =>
      rw [twoTo_succ, ← Nat.two_mul] at holds
      obtain ⟨above, found, nodes⟩ := ih holds.parents (Nat.le_of_succ_le_succ le)
      rw [Nat.add_right_comm, Nat.add_assoc] at nodes
      rw [Nat.succ_sub_succ]
      exact ⟨above, found, nodes⟩

section Built

variable {leaves : Array ByteArray} {depth : Int} {t : DenseTree}

/-- The index of a place on a level addresses the node there. -/
theorem nodeAt?_of_ofLeaves? (built : ofLeaves? leaves depth = .ok t) {n p : Nat}
    (le : n ≤ t.depth) (lt : p < twoTo n) :
    t.nodeAt? (twoTo n + p) = some (nodeOver (leafOf leaves) (t.depth - n) p) := by
  obtain ⟨holds, layers⟩ := holdsNodes_of_ofLeaves? built
  obtain ⟨layer, found, size, nodes⟩ := holdsNodes_layersFrom holds (Nat.sub_le t.depth n)
  rw [Nat.sub_sub_self le] at size nodes
  have inside : p < layer.size := by omega
  have node := nodes p lt
  rw [Array.getD_eq_getD_getElem?, Array.getElem?_eq_getElem inside, Option.getD_some,
    Nat.zero_add] at node
  rw [nodeAt?, log2_leaf lt, if_pos le, layers, found, Nat.add_sub_cancel_left, Option.bind_some,
    Array.getElem?_eq_getElem inside, node]

/-- The siblings on the way to the root address the nodes of the branch. -/
theorem nodeAt?_siblingsOf (built : ofLeaves? leaves depth = .ok t) {n p : Nat}
    (le : n ≤ t.depth) (lt : p < twoTo n) :
    (siblingsOf (twoTo n + p)).map t.nodeAt? =
      (branchOver (leafOf leaves) (t.depth - n) n p).map some := by
  induction n generalizing p with
  | zero =>
    rw [twoTo_zero] at lt
    rw [siblingsOf, if_pos (by rw [twoTo_zero]; omega)]
    rfl
  | succ n ih =>
    have double : twoTo (n + 1) = 2 * twoTo n := by rw [twoTo_succ, Nat.two_mul]
    have pos := twoTo_pos n
    have beside := xor_one_lt (double ▸ lt)
    have node := nodeAt?_of_ofLeaves? built le (double ▸ beside)
    have above := ih (p := p / 2) (by omega) (by omega)
    have parent : (twoTo (n + 1) + p) / 2 = twoTo n + p / 2 := by omega
    have height : t.depth - n = t.depth - (n + 1) + 1 := by omega
    rw [siblingsOf, if_neg (by omega), List.map_cons, xor_one_leaf, node, parent, above, height,
      branchOver, List.map_cons]

/-- The siblings of the index of a leaf address the nodes of its branch, in their order. -/
theorem nodeAt?_siblings (built : ofLeaves? leaves depth = .ok t) {i : Nat}
    (lt : i < t.leafCount) : ∃ (g : Int) (branch : List ByteArray), ofLeaf? i t.depth = .ok g ∧
      t.branch? i = .ok branch ∧ (Gindex.siblings g).map t.nodeAt? = branch.map some := by
  refine ⟨_, _, ofLeaf?_eq lt, branch?_of_ofLeaves? built lt, ?_⟩
  rw [Gindex.siblings, Int.toNat_natCast, nodeAt?_siblingsOf built (Nat.le_refl _) lt, Nat.sub_self]

end Built

/-- An index selects a branch if it stands on the level of the leaves. -/
theorem branchAt?_eq (t : DenseTree) {g : Int} {n : Nat} (deep : depth? g = .ok n) :
    t.branchAt? g = if n = t.depth then t.branch? (g - twoTo t.depth)
      else .error (.depthMismatch g t.depth n) := by
  rw [branchAt?, toLeaf?, deep, ok_bind]
  by_cases same : n = t.depth
  · rw [if_pos same, same, if_neg (fun differ => differ rfl), ok_bind]
  · have differ : (n : Int) ≠ t.depth := by omega
    rw [if_neg same, if_pos differ]
    rfl

/-- Paths, indices and the places of the tree `t` are names of the same nodes. -/
structure NamesAgree (t : DenseTree) : Prop where
  /-- A path has an index exactly if the index has this path. -/
  inverse : ∀ (path : List Nat) (g : Int),
    ofPath? (path.map Int.ofNat) = .ok g ↔ toPath? g = .ok path
  /-- Every path has an index, which is as deep as the path is long. -/
  ofEveryPath : ∀ path, IsPath path → ∃ g : Int, 1 ≤ g ∧
    ofPath? (path.map Int.ofNat) = .ok g ∧ depth? g = .ok path.length
  /-- Every positive number has a path, which is as long as the number is deep. -/
  toEveryPath : ∀ g : Int, 1 ≤ g → ∃ path, IsPath path ∧
    toPath? g = .ok path ∧ depth? g = .ok path.length
  /-- Steps of unknown shape are read as the whole numbers that they are. -/
  steps : ∀ path : List Int, ofSteps? (path.map .int) = ofPath? path
  /-- Joining the indices of paths gives the index of the paths one after another. -/
  joined : ∀ paths : List (List Int), paths.mapM ofPath? >>= concat? = ofPath? paths.flatten
  /-- The siblings of the index of a leaf address the nodes of its branch. -/
  branch : ∀ i : Nat, i < t.leafCount → ∃ (g : Int) (branch : List ByteArray),
    ofLeaf? i t.depth = .ok g ∧ t.branch? i = .ok branch ∧
      (Gindex.siblings g).map t.nodeAt? = branch.map some
  /-- An index on the level of the leaves selects the branch of its leaf, any other one fails. -/
  selected : ∀ g : Int, 1 ≤ g → ∃ n, depth? g = .ok n ∧ t.branchAt? g =
    if n = t.depth then t.branch? (g - twoTo t.depth) else .error (.depthMismatch g t.depth n)

/-- In every dense tree the names of a node are translated into each other without loss. -/
theorem names_agree {leaves : Array ByteArray} {depth : Int} {t : DenseTree}
    (built : ofLeaves? leaves depth = .ok t) : NamesAgree t where
  inverse _ _ := ofPath?_eq_ok_iff
  ofEveryPath path isPath := by
    have pos := one_le_descend (Nat.le_refl 1) path
    refine ⟨_, Int.ofNat_le.mpr pos, ofPath?_path isPath, ?_⟩
    rw [depth?_natCast pos, log2_descend isPath]
  toEveryPath g pos := by
    obtain ⟨g, rfl⟩ := Int.eq_ofNat_of_zero_le (Int.le_of_lt pos)
    obtain ⟨isPath, -, length⟩ := pathTo_spec (Int.ofNat_le.mp pos)
    refine ⟨_, isPath, toPath?_natCast (Int.ofNat_le.mp pos), ?_⟩
    rw [depth?_natCast (Int.ofNat_le.mp pos), length]
  steps := ofSteps?_int
  joined := concat?_paths
  branch _ lt := nodeAt?_siblings built lt
  selected g pos := by
    obtain ⟨g, rfl⟩ := Int.eq_ofNat_of_zero_le (Int.le_of_lt pos)
    have deep := depth?_natCast (Int.ofNat_le.mp pos)
    exact ⟨_, deep, branchAt?_eq t deep⟩

/-- In a tree of four leaves the index 7 is the path of two steps to the right and selects the
branch of the last leaf, whose two nodes are those of the indices 6 and 2; the index 3 selects
nothing. -/
theorem names_agree_last_of_four :
    ∃ t branch, ofLeaves? #[zeroHash 1, zeroHash 2, zeroHash 3] 0 = .ok t ∧
      toPath? 7 = .ok [1, 1] ∧ t.branchAt? 7 = .ok branch ∧
      [6, 2].map t.nodeAt? = branch.map some ∧ t.branchAt? 3 = .error (.depthMismatch 3 2 1) := by
  obtain ⟨t, built, depth⟩ : ∃ t,
      ofLeaves? #[zeroHash 1, zeroHash 2, zeroHash 3] 0 = .ok t ∧ t.depth = 2 :=
    ⟨_, ofLeaves?_eq_ok_iff.mpr ⟨by simp, Int.le_refl 0, by decide, rfl⟩, rfl⟩
  have names := names_agree built
  obtain ⟨g, branch, index, made, nodes⟩ := names.branch 3 (by rw [leafCount, depth]; decide)
  obtain rfl : 7 = g := by
    rw [depth] at index
    exact Except.ok.inj index
  have siblings : Gindex.siblings 7 = [6, 2] := by decide +kernel
  obtain ⟨n, deep, selects⟩ := names.selected 7 (by decide)
  obtain ⟨m, high, refused⟩ := names.selected 3 (by decide)
  obtain rfl : 2 = n := Except.ok.inj deep
  obtain rfl : 1 = m := Except.ok.inj high
  rw [depth] at selects refused
  rw [siblings] at nodes
  exact ⟨t, branch, built, (names.inverse [1, 1] 7).mp rfl, selects.trans made, nodes, refused⟩

end DenseTree

end Merkle

end BeaconBranch
