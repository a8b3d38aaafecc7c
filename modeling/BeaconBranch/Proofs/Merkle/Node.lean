import BeaconBranch.Merkle.Branch
import BeaconBranch.Merkle.ListRoot

/-!
The nodes of a complete tree, as the plain meaning of every tree of the library. A node of height
zero is a leaf, and any other one joins the two nodes below it. Dense, sparse and list trees are
compared with `nodeOver`, so what holds of its nodes and branches holds of all of them. Main
statements: a branch that is replayed from its leaf ends at the root, and a subtree of zero chunks
has the zero hash of its height.
-/

namespace BeaconBranch.Merkle

/-- The node at a height and a position of the tree over the given leaves. -/
def nodeOver (leaf : Nat → ByteArray) : Nat → Nat → ByteArray
  | 0, p => leaf p
  | h + 1, p => join (nodeOver leaf h (2 * p)) (nodeOver leaf h (2 * p + 1))

/-- The nodes beside the way up from position `p` of height `h`, over `n` heights. -/
def branchOver (leaf : Nat → ByteArray) : Nat → Nat → Nat → List ByteArray
  | _, 0, _ => []
  | h, n + 1, p => nodeOver leaf h (p ^^^ 1) :: branchOver leaf (h + 1) n (p / 2)

/-! ### Positions -/

theorem xor_one_of_even {p : Nat} (even : p % 2 = 0) : p ^^^ 1 = p + 1 := by
  have half : (p ^^^ 1) / 2 = p / 2 := by rw [Nat.xor_div_two]; simp
  have odd : (p ^^^ 1) % 2 = 1 := by rw [Nat.xor_mod_two_eq_one]; omega
  omega

theorem xor_one_of_odd {p : Nat} (odd : p % 2 = 1) : p ^^^ 1 = p - 1 := by
  have half : (p ^^^ 1) / 2 = p / 2 := by rw [Nat.xor_div_two]; simp
  have even : ¬(p ^^^ 1) % 2 = 1 := by rw [Nat.xor_mod_two_eq_one]; omega
  omega

/-- The sibling of a position on a level lies on that level. -/
theorem xor_one_lt {p n : Nat} (lt : p < 2 * n) : p ^^^ 1 < 2 * n := by
  rcases Nat.mod_two_eq_zero_or_one p with even | odd
  · rw [xor_one_of_even even]; omega
  · rw [xor_one_of_odd odd]; omega

theorem div_twoTo_succ (i h : Nat) : i / twoTo h / 2 = i / twoTo (h + 1) := by
  rw [Nat.div_div_eq_div_mul, twoTo_succ, ← Nat.mul_two]

/-- The first leaf below a node, counted by the nodes of the height below. -/
theorem mul_twoTo_succ (p h : Nat) : p * twoTo (h + 1) = 2 * p * twoTo h := by
  rw [twoTo_succ, ← Nat.mul_two, Nat.mul_comm 2 p, Nat.mul_assoc, Nat.mul_comm 2]

theorem div_twoTo_lt {i h n : Nat} (lt : i < twoTo (h + n)) : i / twoTo h < twoTo n := by
  rwa [Nat.div_lt_iff_lt_mul (twoTo_pos h), Nat.mul_comm, ← twoTo_add]

/-! ### Nodes -/

section Nodes

variable {leaf leaf' : Nat → ByteArray}

theorem size_nodeOver (sizes : ∀ p, (leaf p).size = 32) (h p : Nat) :
    (nodeOver leaf h p).size = 32 := by
  cases h with
  | zero => exact sizes p
  | succ h => exact size_join _ _

/-- A node depends on the leaves below it only. -/
theorem nodeOver_congr {h p : Nat}
    (same : ∀ i, p * twoTo h ≤ i → i < p * twoTo h + twoTo h → leaf i = leaf' i) :
    nodeOver leaf h p = nodeOver leaf' h p := by
  induction h generalizing p with
  | zero => exact same p (by simp) (by simp)
  | succ h ih =>
    have next : (2 * p + 1) * twoTo h = 2 * p * twoTo h + twoTo h := Nat.succ_mul _ _
    rw [mul_twoTo_succ, twoTo_succ] at same
    have low := ih (p := 2 * p) fun i ge lt => same i ge (by omega)
    have high := ih (p := 2 * p + 1) fun i ge lt => same i (by omega) (by omega)
    rw [nodeOver, nodeOver, low, high]

/-- The node above zero chunks. -/
theorem nodeOver_zeroChunk (h p : Nat) : nodeOver (fun _ => zeroChunk) h p = zeroHash h := by
  induction h generalizing p with
  | zero => exact zeroHash_zero.symm
  | succ h ih => rw [nodeOver, ih, ih, zeroHash_succ]

/-- A subtree whose leaves are all zero chunks is empty. -/
theorem nodeOver_eq_zeroHash {h p : Nat}
    (zero : ∀ i, p * twoTo h ≤ i → i < p * twoTo h + twoTo h → leaf i = zeroChunk) :
    nodeOver leaf h p = zeroHash h := by
  calc nodeOver leaf h p
    _ = nodeOver (fun _ => zeroChunk) h p := nodeOver_congr zero
    _ = zeroHash h := nodeOver_zeroChunk h p

/-- The root of a tree of `2 ^ d` leaves. -/
theorem rootOver_congr {d : Nat} (same : ∀ i, i < twoTo d → leaf i = leaf' i) :
    nodeOver leaf d 0 = nodeOver leaf' d 0 :=
  nodeOver_congr fun i _ lt => same i (by omega)

/-- A node and its sibling make the node above them. -/
theorem join_sibling (leaf : Nat → ByteArray) (h p : Nat) :
    (if p % 2 = 0 then join (nodeOver leaf h p) (nodeOver leaf h (p ^^^ 1))
      else join (nodeOver leaf h (p ^^^ 1)) (nodeOver leaf h p)) =
      nodeOver leaf (h + 1) (p / 2) := by
  rw [nodeOver]
  rcases Nat.mod_two_eq_zero_or_one p with even | odd
  · rw [if_pos even, xor_one_of_even even, show 2 * (p / 2) = p by omega]
  · rw [if_neg (by omega), xor_one_of_odd odd, show 2 * (p / 2) = p - 1 by omega,
      show p - 1 + 1 = p by omega]

end Nodes

/-! ### Branches -/

section Branches

variable {leaf leaf' : Nat → ByteArray}

@[simp] theorem length_branchOver (leaf : Nat → ByteArray) (h n p : Nat) :
    (branchOver leaf h n p).length = n := by
  induction n generalizing h p with
  | zero => rfl
  | succ n ih => rw [branchOver, List.length_cons, ih]

theorem size_of_mem_branchOver (sizes : ∀ p, (leaf p).size = 32) {h n p : Nat} {b : ByteArray}
    (mem : b ∈ branchOver leaf h n p) : b.size = 32 := by
  induction n generalizing h p with
  | zero => cases mem
  | succ n ih =>
    rcases List.mem_cons.mp mem with rfl | rest
    · exact size_nodeOver sizes h _
    · exact ih rest

/-- A way up goes on where its lower part ends. -/
theorem branchOver_add (leaf : Nat → ByteArray) (h m n p : Nat) :
    branchOver leaf h (m + n) p =
      branchOver leaf h m p ++ branchOver leaf (h + m) n (p / twoTo m) := by
  induction m generalizing h p with
  | zero => rw [Nat.zero_add, branchOver, List.nil_append, Nat.add_zero, twoTo_zero, Nat.div_one]
  | succ m ih =>
    rw [Nat.add_right_comm, branchOver, ih (h + 1) (p / 2), branchOver, List.cons_append,
      Nat.div_div_eq_div_mul, twoTo_succ, ← Nat.two_mul, Nat.add_right_comm, Nat.add_assoc]

/-- A branch inside a tree of `2 ^ d` leaves depends on these leaves only. -/
theorem branchOver_congr {d : Nat} (same : ∀ i, i < twoTo d → leaf i = leaf' i) {h n p : Nat}
    (top : h + n = d) (lt : p < twoTo n) : branchOver leaf h n p = branchOver leaf' h n p := by
  induction n generalizing h p with
  | zero => rfl
  | succ n ih =>
    rw [twoTo_succ] at lt
    have beside : p ^^^ 1 < 2 * twoTo n := xor_one_lt (by omega)
    have inside : ((p ^^^ 1) + 1) * twoTo h ≤ twoTo d :=
      calc ((p ^^^ 1) + 1) * twoTo h
        _ ≤ twoTo (n + 1) * twoTo h := Nat.mul_le_mul_right _ (by rw [twoTo_succ]; omega)
        _ = twoTo d := by rw [← top, Nat.mul_comm, ← twoTo_add]
    have node : nodeOver leaf h (p ^^^ 1) = nodeOver leaf' h (p ^^^ 1) :=
      nodeOver_congr fun i _ below => same i (by rw [Nat.succ_mul] at inside; omega)
    rw [branchOver, branchOver, node, ih (by omega) (by omega)]

/-- One step of a replay on a natural position. -/
theorem climb_cons (b sibling : ByteArray) (rest : List ByteArray) (p : Nat) :
    climb b (p : Int) (sibling :: rest) =
      climb (if p % 2 = 0 then join b sibling else join sibling b) ((p / 2 : Nat) : Int) rest := by
  have parity : ((p : Int) % 2 = 0) ↔ p % 2 = 0 := by omega
  simp only [climb, parity, Int.natCast_ediv, Int.cast_ofNat_Int]

/-- Replaying the branch of a node ends at the node above it. -/
theorem climb_branchOver (leaf : Nat → ByteArray) (h n p : Nat) :
    climb (nodeOver leaf h p) (p : Int) (branchOver leaf h n p) =
      nodeOver leaf (h + n) (p / twoTo n) := by
  induction n generalizing h p with
  | zero => simp [branchOver, climb]
  | succ n ih =>
    rw [branchOver, climb_cons, join_sibling, ih (h + 1) (p / 2), Nat.div_div_eq_div_mul,
      twoTo_succ, ← Nat.two_mul, Nat.add_right_comm, Nat.add_assoc]

/-- Replaying the branch of a leaf ends at the root. -/
theorem climb_branchOver_root (leaf : Nat → ByteArray) {d i : Nat} (lt : i < twoTo d) :
    climb (leaf i) (i : Int) (branchOver leaf 0 d i) = nodeOver leaf d 0 := by
  have whole := climb_branchOver leaf 0 d i
  rwa [Nat.zero_add, Nat.div_eq_of_lt lt] at whole

/-- Replaying two branches one after the other. -/
theorem climb_append (b : ByteArray) (p : Nat) (xs ys : List ByteArray) :
    climb b (p : Int) (xs ++ ys) =
      climb (climb b (p : Int) xs) ((p / twoTo xs.length : Nat) : Int) ys := by
  induction xs generalizing b p with
  | nil => simp [climb]
  | cons x xs ih =>
    rw [List.cons_append, climb_cons, climb_cons, ih, Nat.div_div_eq_div_mul, List.length_cons,
      twoTo_succ, ← Nat.two_mul]

end Branches

end BeaconBranch.Merkle
