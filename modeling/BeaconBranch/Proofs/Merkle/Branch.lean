import BeaconBranch.Merkle.Branch
import BeaconBranch.Proofs.Merkle.Node
import BeaconBranch.Proofs.Outcome

/-!
Branches through nested trees. A replay looks at as many binary digits of a position as the branch
has hashes, so the digits above them can tell the place of the whole tree in the next one. Main
statements: what a branch proves under one root and that root proves under another is proved by
both branches put one after the other, at the position made of both positions.
-/

namespace BeaconBranch

namespace Merkle

/-- What it means that a branch proves a leaf at a natural position. -/
theorem proves_iff {leaf root : ByteArray} {branch : List ByteArray} {i : Nat} :
    proves leaf branch (i : Int) root = true ↔ i < twoTo branch.length ∧ leaf.size = 32 ∧
      root.size = 32 ∧ (∀ b ∈ branch, b.size = 32) ∧ climb leaf i branch = root := by
  have inside : (i : Int) < (twoTo branch.length : Int) ↔ i < twoTo branch.length := by omega
  simp only [proves, isNode, Bool.and_eq_true, decide_eq_true_eq, beq_iff_eq, List.all_eq_true,
    inside, and_assoc, show (0 : Int) ≤ i by omega, true_and]

theorem nonneg_of_proves {leaf root : ByteArray} {branch : List ByteArray} {i : Int}
    (holds : proves leaf branch i root = true) : 0 ≤ i := by
  simp only [proves, Bool.and_eq_true, decide_eq_true_eq, and_assoc] at holds
  exact holds.1

theorem size_climb {leaf : ByteArray} (size : leaf.size = 32) (i : Int) (branch : List ByteArray) :
    (climb leaf i branch).size = 32 := by
  induction branch generalizing leaf i with
  | nil => exact size
  | cons sibling rest ih =>
    rw [climb]
    refine ih ?_ _
    split <;> exact size_join _ _

/-- Of the length of a branch a check asks no more than that the position fits it: every leaf is
proven under some root by a branch of every such length. -/
theorem exists_proves {leaf : ByteArray} (size : leaf.size = 32) {i n : Nat} (lt : i < twoTo n) :
    ∃ branch root, branch.length = n ∧ proves leaf branch (i : Int) root = true := by
  have length : (List.replicate n zeroChunk).length = n := List.length_replicate
  refine ⟨List.replicate n zeroChunk, _, length, proves_iff.mpr ⟨by rwa [length], size,
    size_climb size i _, fun b mem => ?_, rfl⟩⟩
  rw [List.eq_of_mem_replicate mem, size_zeroChunk]

/-- The digits of a position that lie above a branch do not count. -/
theorem climb_add_mul (b : ByteArray) (i k : Nat) (xs : List ByteArray) :
    climb b ((i + k * twoTo xs.length : Nat) : Int) xs = climb b (i : Int) xs := by
  induction xs generalizing b i with
  | nil => rfl
  | cons x xs ih =>
    have double : k * twoTo (x :: xs).length = 2 * (k * twoTo xs.length) := by
      rw [List.length_cons, mul_twoTo_succ, Nat.mul_assoc]
    have parity : (i + 2 * (k * twoTo xs.length)) % 2 = i % 2 := by omega
    have half : (i + 2 * (k * twoTo xs.length)) / 2 = i / 2 + k * twoTo xs.length := by omega
    rw [double, climb_cons, climb_cons, parity, half, ih]

theorem climb_nested (b : ByteArray) {i : Nat} (k : Nat) {xs : List ByteArray} (ys : List ByteArray)
    (lt : i < twoTo xs.length) :
    climb b ((i + k * twoTo xs.length : Nat) : Int) (xs ++ ys) =
      climb (climb b (i : Int) xs) (k : Int) ys := by
  have above : (i + k * twoTo xs.length) / twoTo xs.length = k := by
    rw [Nat.add_mul_div_right _ _ (twoTo_pos _), Nat.div_eq_of_lt lt, Nat.zero_add]
  rw [climb_append, climb_add_mul, above]

/-- A position in a nested tree fits the levels of both trees. -/
theorem nested_lt {i k n m : Nat} (low : i < twoTo n) (high : k < twoTo m) :
    i + k * twoTo n < twoTo (n + m) := by
  calc i + k * twoTo n
    _ < (k + 1) * twoTo n := by rw [Nat.succ_mul]; omega
    _ ≤ twoTo m * twoTo n := Nat.mul_le_mul_right _ high
    _ = twoTo (n + m) := by rw [Nat.add_comm, twoTo_add]

/-- Branches of nested trees put one after the other prove the leaf under the outer root. -/
theorem proves_append {leaf inner outer : ByteArray} {xs ys : List ByteArray} {i k : Nat}
    (low : proves leaf xs (i : Int) inner = true) (high : proves inner ys (k : Int) outer = true) :
    proves leaf (xs ++ ys) ((i + k * twoTo xs.length : Nat) : Int) outer = true := by
  obtain ⟨ltLow, size, -, nodesLow, climbLow⟩ := proves_iff.mp low
  obtain ⟨ltHigh, -, sizeOuter, nodesHigh, climbHigh⟩ := proves_iff.mp high
  refine proves_iff.mpr ⟨?_, size, sizeOuter, fun b mem => ?_, ?_⟩
  · rw [List.length_append]
    exact nested_lt ltLow ltHigh
  · exact (List.mem_append.mp mem).elim (nodesLow b) (nodesHigh b)
  · rw [climb_nested leaf k ys ltLow, climbLow, climbHigh]

/-- The branch of a leaf proves it under the root. -/
theorem proves_branchOver {leaf : Nat → ByteArray} (sizes : ∀ p, (leaf p).size = 32) {d i : Nat}
    (lt : i < twoTo d) :
    proves (leaf i) (branchOver leaf 0 d i) (i : Int) (nodeOver leaf d 0) = true :=
  proves_iff.mpr ⟨by rwa [length_branchOver], sizes i, size_nodeOver sizes d 0,
    fun _ mem => size_of_mem_branchOver sizes mem, climb_branchOver_root leaf lt⟩

/-- The rest of the branch of a leaf proves an inner node, at the position that this node has on its
own level. -/
theorem proves_branchOver_node {leaf : Nat → ByteArray} (sizes : ∀ p, (leaf p).size = 32)
    {h n p : Nat} (lt : p < twoTo n) :
    proves (nodeOver leaf h p) (branchOver leaf h n p) (p : Int) (nodeOver leaf (h + n) 0) =
      true := by
  have top := climb_branchOver leaf h n p
  rw [Nat.div_eq_of_lt lt] at top
  exact proves_iff.mpr ⟨by rwa [length_branchOver], size_nodeOver sizes h p,
    size_nodeOver sizes (h + n) 0, fun _ mem => size_of_mem_branchOver sizes mem, top⟩

/-- The node beside a list's data, its length, proves the data under the root of the list. -/
theorem proves_join {left right : ByteArray} (sizeLeft : left.size = 32)
    (sizeRight : right.size = 32) :
    proves left [right] ((0 : Nat) : Int) (join left right) = true :=
  proves_iff.mpr ⟨twoTo_pos 1, sizeLeft, size_join left right, by simpa using sizeRight, rfl⟩

end Merkle

/-! ### Positions -/

/-- Putting higher digits over a position adds them. -/
theorem orBits_shifted {i n : Nat} (lt : i < twoTo n) (k : Nat) :
    orBits (i : Int) ((k : Int) * (twoTo n : Int)) = ((i + k * twoTo n : Nat) : Int) := by
  have digits : i ||| k * twoTo n = i + k * twoTo n := by
    have sum := Nat.two_pow_add_eq_or_of_lt (i := n) lt k
    rw [Nat.or_comm, Nat.mul_comm, Nat.add_comm]
    exact sum.symm
  rw [← Int.natCast_mul]
  exact congrArg Int.ofNat digits

theorem orBits_comm (a b : Int) : orBits a b = orBits b a := by
  cases a <;> cases b <;> simp only [orBits, Nat.or_comm, Nat.and_comm]

/-- The position in a tree inside a list inside a field of the state, whether or not it fits the
tree. -/
theorem composePositions?_or (i n k depth : Nat) :
    composePositions? [((i : Int), (n : Int)), (0, 1), ((k : Int), (depth : Int))] =
      .ok ((i ||| k * twoTo (n + 1) : Nat) : Int) := by
  have digits : ∀ a b c : Nat,
      orBits (a : Int) ((b : Int) * (c : Int)) = ((a ||| b * c : Nat) : Int) :=
    fun a b c => (Int.natCast_mul b c) ▸ rfl
  have first : orBits 0 ((i : Int) * (twoTo (0 : Int).toNat : Int)) = (i : Int) := by
    have put := digits 0 i 1
    rwa [Nat.zero_or, Nat.mul_one] at put
  have second : orBits (i : Int) (0 * (twoTo ((0 : Int) + n).toNat : Int)) = (i : Int) := by
    have put := digits i 0 (twoTo ((0 : Int) + n).toNat)
    rwa [Nat.zero_mul, Nat.or_zero] at put
  have shift : ((0 : Int) + n + 1).toNat = n + 1 := by omega
  simp only [composePositions?, List.foldlM_cons, List.foldlM_nil]
  rw [if_neg (by omega), first, Outcome.ok_bind, if_neg (by omega), second, Outcome.ok_bind,
    if_neg (by omega), shift, digits]
  rfl

/-- The position in a tree inside a list inside a field of the state. -/
theorem composePositions?_nested {i n : Nat} (lt : i < twoTo n) (k depth : Nat) :
    composePositions? [((i : Int), (n : Int)), (0, 1), ((k : Int), (depth : Int))] =
      .ok ((i + k * twoTo (n + 1) : Nat) : Int) := by
  have wide : i < twoTo (n + 1) := by rw [twoTo_succ]; omega
  rw [composePositions?_or]
  exact congrArg Except.ok (orBits_shifted wide k)

/-- A negative position stays negative under any digits. -/
theorem orBits_neg {a : Int} (neg : a < 0) (b : Int) : orBits a b < 0 := by
  cases a with
  | ofNat n => exact absurd neg (Int.not_lt.mpr (Int.natCast_nonneg n))
  | negSucc n => cases b <;> exact Int.negSucc_lt_zero _

/-- A negative position in a tree makes a negative position in every tree around it. -/
theorem nonneg_of_composePositions? {i position : Int} {n : Nat} (k depth : Nat)
    (composed : composePositions? [(i, (n : Int)), (0, 1), ((k : Int), (depth : Int))] =
      .ok position) (ge : 0 ≤ position) : 0 ≤ i := by
  rw [← Int.not_lt]
  intro neg
  have first : orBits 0 (i * (twoTo (0 : Int).toNat : Int)) < 0 := by
    rw [orBits_comm]
    refine orBits_neg ?_ 0
    rw [Int.toNat_zero, twoTo_zero]
    omega
  have shift : ¬ (0 : Int) + n + 1 < 0 := by omega
  simp only [composePositions?, List.foldlM_cons, List.foldlM_nil, bind, Except.bind] at composed
  rw [if_neg (by omega)] at composed
  dsimp only at composed
  rw [if_neg (by omega)] at composed
  dsimp only at composed
  rw [if_neg shift] at composed
  obtain rfl := Except.ok.inj composed
  have second := orBits_neg first (0 * (twoTo ((0 : Int) + n).toNat : Int))
  exact absurd ge (Int.not_le.mpr (orBits_neg second _))

end BeaconBranch
