import BeaconBranch.Proofs.Merkle.Branch
import BeaconBranch.Proofs.Merkle.Derivation

/-!
Openings of trees. Two branches of one length that lead from two nodes, at one position, to one root
are the same branch from the same node, or two of the messages that are hashed when they are
replayed collide. One of them may be the branch of the tree, and what is hashed on its way up was
hashed when the tree was built. Main statements: openings are unique, and what is hashed on the way
up from a leaf is hashed for the root, or for the zero hashes.
-/

namespace BeaconBranch.Merkle

/-- The messages that are hashed when a branch is replayed from a leaf. -/
def Replayed (leaf : ByteArray) (index : Int) : List ByteArray → ByteArray → Prop
  | [], _ => False
  | sibling :: rest, m =>
    m = (if index % 2 = 0 then leaf ++ sibling else sibling ++ leaf) ∨
      Replayed (if index % 2 = 0 then join leaf sibling else join sibling leaf) (index / 2) rest m

/-- The messages that are hashed for the zero hashes up to a height. -/
def ZeroHashed (d : Nat) (m : ByteArray) : Prop := ∃ h, h < d ∧ m = zeroHash h ++ zeroHash h

theorem ZeroHashed.mono {d e : Nat} {m : ByteArray} (le : d ≤ e) :
    ZeroHashed d m → ZeroHashed e m := by
  rintro ⟨h, lt, rfl⟩
  exact ⟨h, by omega, rfl⟩

/-! ### Replays -/

section Replays

variable {x y root : ByteArray} {xs ys : List ByteArray} {m : ByteArray}

/-- A node and its sibling are told by their join, or the two messages collide. -/
theorem step_unique {hashed : ByteArray → Prop} {even : Prop} [Decidable even] {s t : ByteArray}
    (sizes : x.size = y.size) (siblings : s.size = t.size)
    (left : hashed (if even then x ++ s else s ++ x))
    (right : hashed (if even then y ++ t else t ++ y))
    (same : (if even then join x s else join s x) = if even then join y t else join t y) :
    (x = y ∧ s = t) ∨ Collision hashed := by
  split at same
  · rename_i isEven
    rw [if_pos isEven] at left right
    exact (eq_or_collision left right same).imp_left (Bytes.append_injective sizes)
  · rename_i isOdd
    rw [if_neg isOdd] at left right
    refine (eq_or_collision left right same).imp_left ?_
    intro messages
    exact (Bytes.append_injective siblings messages).symm

/-- Branches that lead from two nodes to one root are the same, or two of the replayed messages
collide. -/
theorem replay_unique (length : xs.length = ys.length) (sizes : x.size = y.size)
    (nodes : ∀ b ∈ xs, b.size = 32) (nodes' : ∀ b ∈ ys, b.size = 32) (i : Int)
    (same : climb x i xs = climb y i ys) :
    (x = y ∧ xs = ys) ∨ Collision fun m => Replayed x i xs m ∨ Replayed y i ys m := by
  induction xs generalizing x y i ys with
  | nil =>
    obtain rfl := List.length_eq_zero_iff.mp length.symm
    exact .inl ⟨same, rfl⟩
  | cons s xs ih =>
    cases ys with
    | nil => cases length
    | cons t ys =>
      rw [List.forall_mem_cons] at nodes nodes'
      have joins : (if i % 2 = 0 then join x s else join s x).size =
          (if i % 2 = 0 then join y t else join t y).size := by split <;> rw [size_join, size_join]
      -- The rest of the branches leads from the two joins to one root, so the joins come first.
      rcases ih (Nat.succ.inj length) joins nodes.2 nodes'.2 _ same with ⟨above, rest⟩ | collision
      · have here : (x = y ∧ s = t) ∨
            Collision fun m => Replayed x i (s :: xs) m ∨ Replayed y i (t :: ys) m :=
          step_unique sizes (nodes.1.trans nodes'.1.symm) (.inl (.inl rfl)) (.inr (.inl rfl)) above
        refine here.imp_left fun ⟨node, sibling⟩ => ⟨node, ?_⟩
        rw [sibling, rest]
      · exact .inr (collision.mono fun m => Or.imp .inr .inr)

theorem replayed_append (i : Nat) : Replayed x (i : Int) (xs ++ ys) m ↔
    Replayed x (i : Int) xs m ∨
      Replayed (climb x (i : Int) xs) ((i / twoTo xs.length : Nat) : Int) ys m := by
  induction xs generalizing x i with
  | nil => simp [Replayed, climb]
  | cons s xs ih =>
    have half : (i : Int) / 2 = ((i / 2 : Nat) : Int) := rfl
    have parity : ((i : Int) % 2 = 0) ↔ i % 2 = 0 := by omega
    rw [List.cons_append, Replayed, Replayed, half, ih, climb_cons, or_assoc,
      Nat.div_div_eq_div_mul, List.length_cons, twoTo_succ, ← Nat.two_mul]
    simp only [parity]

/-- The digits of a position that lie above a branch do not count. -/
theorem replayed_add_mul (i k : Nat) : Replayed x ((i + k * twoTo xs.length : Nat) : Int) xs m ↔
    Replayed x (i : Int) xs m := by
  induction xs generalizing x i with
  | nil => exact Iff.rfl
  | cons s xs ih =>
    have double : k * twoTo (s :: xs).length = 2 * (k * twoTo xs.length) := by
      rw [List.length_cons, mul_twoTo_succ, Nat.mul_assoc]
    have parity : ((i + 2 * (k * twoTo xs.length) : Nat) : Int) % 2 = 0 ↔ (i : Int) % 2 = 0 := by
      omega
    have half : ((i + 2 * (k * twoTo xs.length) : Nat) : Int) / 2 =
        ((i / 2 + k * twoTo xs.length : Nat) : Int) := by omega
    have low : (i : Int) / 2 = ((i / 2 : Nat) : Int) := rfl
    rw [double, Replayed, Replayed, half, low, ih]
    simp only [parity]

/-- What is hashed in nested trees is hashed in one of them. -/
theorem replayed_nested {i : Nat} (k : Nat) (lt : i < twoTo xs.length) :
    Replayed x ((i + k * twoTo xs.length : Nat) : Int) (xs ++ ys) m ↔
      Replayed x (i : Int) xs m ∨ Replayed (climb x (i : Int) xs) (k : Int) ys m := by
  have above : (i + k * twoTo xs.length) / twoTo xs.length = k := by
    rw [Nat.add_mul_div_right _ _ (twoTo_pos _), Nat.div_eq_of_lt lt, Nat.zero_add]
  rw [replayed_append, replayed_add_mul, climb_add_mul, above]

end Replays

/-! ### Messages of trees -/

theorem branchOver_succ (leaf : Nat → ByteArray) (h n p : Nat) :
    branchOver leaf h (n + 1) p =
      branchOver leaf h n p ++ [nodeOver leaf (h + n) ((p / twoTo n) ^^^ 1)] :=
  branchOver_add leaf h n 1 p

/-- A node and its sibling side by side. -/
theorem append_sibling (leaf : Nat → ByteArray) (h p : Nat) :
    (if p % 2 = 0 then nodeOver leaf h p ++ nodeOver leaf h (p ^^^ 1)
      else nodeOver leaf h (p ^^^ 1) ++ nodeOver leaf h p) =
        nodeOver leaf h (2 * (p / 2)) ++ nodeOver leaf h (2 * (p / 2) + 1) := by
  rcases Nat.mod_two_eq_zero_or_one p with even | odd
  · rw [if_pos even, xor_one_of_even even, show 2 * (p / 2) = p by omega]
  · rw [if_neg (by omega), xor_one_of_odd odd, show 2 * (p / 2) = p - 1 by omega,
      show p - 1 + 1 = p by omega]

/-- A node is the left or the right one below its parent. -/
theorem div_twoTo_cases (h i : Nat) :
    i / twoTo h = 2 * (i / twoTo (h + 1)) ∨ i / twoTo h = 2 * (i / twoTo (h + 1)) + 1 := by
  rw [← div_twoTo_succ]
  omega

namespace Derivation

variable {leaf : Nat → Derivation} {n : Nat} {m : ByteArray}

/-- Nothing is hashed for an empty subtree. -/
theorem not_hashed_of_le {h p : Nat} (empty : n ≤ p * twoTo h) : ¬(tree leaf n h p).Hashed m := by
  cases h with
  | zero =>
    rw [twoTo_zero, Nat.mul_one] at empty
    rw [tree, if_pos empty]
    exact id
  | succ h =>
    rw [tree, if_pos empty]
    exact id

/-- What is hashed on the way up to a node from a leaf below it was hashed for the node, or for the
zero hashes. -/
theorem hashed_of_replayed (h i : Nat)
    (replayed : Replayed (leafValue leaf n i) (i : Int) (branchOver (leafValue leaf n) 0 h i) m) :
    (tree leaf n h (i / twoTo h)).Hashed m ∨ ZeroHashed h m := by
  induction h with
  | zero => exact replayed.elim
  | succ h ih =>
    rw [branchOver_succ, replayed_append, length_branchOver] at replayed
    have reached := climb_branchOver (leafValue leaf n) 0 h i
    rw [nodeOver, Nat.zero_add] at reached
    rw [Nat.zero_add, reached, Replayed, Replayed, or_false] at replayed
    have parity : (((i / twoTo h : Nat) : Int) % 2 = 0) ↔ i / twoTo h % 2 = 0 := by omega
    simp only [parity] at replayed
    rw [append_sibling, div_twoTo_succ] at replayed
    rw [tree]
    by_cases empty : n ≤ i / twoTo (h + 1) * twoTo (h + 1)
    · rw [if_pos empty]
      have left : n ≤ 2 * (i / twoTo (h + 1)) * twoTo h := by rwa [mul_twoTo_succ] at empty
      have right : n ≤ (2 * (i / twoTo (h + 1)) + 1) * twoTo h := by
        rw [Nat.succ_mul]
        omega
      rcases replayed with below | rfl
      · refine .inr (.mono (Nat.le_succ h) ((ih below).resolve_left ?_))
        rcases div_twoTo_cases h i with even | odd
        · rw [even]
          exact not_hashed_of_le left
        · rw [odd]
          exact not_hashed_of_le right
      · refine .inr ⟨h, Nat.lt_succ_self h, ?_⟩
        rw [nodeOver_of_le left, nodeOver_of_le right]
    · -- The message of the join itself was hashed for the node, every other one for a child.
      rw [if_neg empty]
      rcases replayed with below | rfl
      · refine (ih below).imp (fun hashed => .inr ?_) (.mono (Nat.le_succ h))
        rcases div_twoTo_cases h i with even | odd
        · exact .inl (even ▸ hashed)
        · exact .inr (odd ▸ hashed)
      · refine .inl (.inl ?_)
        rw [value_tree, value_tree]

/-- What is hashed for a leaf is hashed for every node above it. -/
theorem hashed_of_leaf {h i : Nat} (inside : i < n) (hashed : (leaf i).Hashed m) :
    (tree leaf n h (i / twoTo h)).Hashed m := by
  induction h with
  | zero =>
    rw [twoTo_zero, Nat.div_one, tree, if_neg (by omega)]
    exact hashed
  | succ h ih =>
    have le : i / twoTo (h + 1) * twoTo (h + 1) ≤ i := Nat.div_mul_le_self i _
    rw [tree, if_neg (by omega)]
    rcases div_twoTo_cases h i with even | odd
    · exact .inr (.inl (even ▸ ih))
    · exact .inr (.inr (odd ▸ ih))

/-! ### Messages of lists -/

section Lists

variable {ds : List Derivation} {d : Nat}

theorem hashed_ofList_of_replayed {i : Nat} (lt : i < twoTo d)
    (replayed : Replayed (leafOf ds i) (i : Int) (branchOver (leafOf ds) 0 d i) m) :
    (ofList ds d).Hashed m ∨ ZeroHashed d m := by
  rw [← leafValue_getD] at replayed
  have hashed := hashed_of_replayed d i replayed
  rwa [Nat.div_eq_of_lt lt] at hashed

/-- What is hashed for an item is hashed for the root over the list. -/
theorem hashed_ofList_of_getElem? {i : Nat} {t : Derivation} (found : ds[i]? = some t)
    (lt : i < twoTo d) (hashed : t.Hashed m) : (ofList ds d).Hashed m := by
  have inside : i < ds.length := (List.getElem?_eq_some_iff.mp found).1
  have leaf : (ds.getD i (given zeroChunk)).Hashed m := by
    rw [List.getD_eq_getElem?_getD, found]
    exact hashed
  have whole : (tree (fun p => ds.getD p (given zeroChunk)) ds.length d (i / twoTo d)).Hashed m :=
    hashed_of_leaf inside leaf
  rwa [Nat.div_eq_of_lt lt] at whole

theorem hashed_ofItems_of_getElem? {i n : Nat} {t : Derivation} (found : ds[i]? = some t)
    (lt : i < twoTo d) (hashed : t.Hashed m) : (ofItems ds d n).Hashed m :=
  .inr (.inl (hashed_ofList_of_getElem? found lt hashed))

end Lists

/-! ### Openings -/

/-- A branch opens a derivation at a position: it leads from a node up to the end, and all that is
hashed on the way was hashed for the derivation, or for the zero hashes up to a height. -/
structure Opens (t : Derivation) (d : Nat) (x : ByteArray) (i : Nat) (branch : List ByteArray) :
    Prop where
  lt : i < twoTo branch.length
  size : x.size = 32
  nodes : ∀ b ∈ branch, b.size = 32
  reaches : climb x (i : Int) branch = t.value
  hashed : ∀ m, Replayed x (i : Int) branch m → t.Hashed m ∨ ZeroHashed d m

namespace Opens

variable {t u : Derivation} {d i k : Nat} {x y : ByteArray} {xs ys : List ByteArray}

/-- The branch of a leaf opens the root over a list. -/
theorem ofList {ds : List Derivation} (sizes : ∀ t ∈ ds, t.value.size = 32) (lt : i < twoTo d) :
    (ofList ds d).Opens d (leafOf ds i) i (branchOver (leafOf ds) 0 d i) := by
  have leaves : ∀ p, (leafOf ds p).size = 32 := by
    rw [← leafValue_getD]
    exact size_leafValue fun p _ => size_getD sizes p
  refine ⟨by rwa [length_branchOver], leaves i, fun b mem => size_of_mem_branchOver leaves mem, ?_,
    fun m => hashed_ofList_of_replayed lt⟩
  rw [value_ofList, climb_branchOver_root _ lt]

/-- The length of a list opens the root of the list at its data. -/
theorem length (size : t.value.size = 32) (n d : Nat) :
    (both t (given (lengthChunk n))).Opens d t.value 0 [lengthChunk n] := by
  refine ⟨twoTo_pos 1, size, by simp, rfl, fun m replayed => ?_⟩
  rcases replayed with rfl | none
  · exact .inl (.inl rfl)
  · exact none.elim

/-- Branches put one after the other open the outer derivation, for which everything was hashed that
was hashed for the inner one. -/
theorem append (low : t.Opens d x i xs) (high : u.Opens d t.value k ys)
    (inner : ∀ m, t.Hashed m → u.Hashed m) :
    u.Opens d x (i + k * twoTo xs.length) (xs ++ ys) := by
  refine ⟨?_, low.size, fun b mem => ?_, ?_, fun m replayed => ?_⟩
  · rw [List.length_append]
    exact nested_lt low.lt high.lt
  · exact (List.mem_append.mp mem).elim (low.nodes b) (high.nodes b)
  · rw [climb_nested x k ys low.lt, low.reaches, high.reaches]
  · rw [replayed_nested k low.lt, low.reaches] at replayed
    exact replayed.elim (fun below => (low.hashed m below).imp_left (inner m)) (high.hashed m)

/-- The branch of an item and the length behind it open the root of the list. -/
theorem ofItems {ds : List Derivation} (sizes : ∀ t ∈ ds, t.value.size = 32) (n : Nat)
    (lt : i < twoTo d) :
    (ofItems ds d n).Opens d (leafOf ds i) i (branchOver (leafOf ds) 0 d i ++ [lengthChunk n]) := by
  have whole := (ofList sizes lt).append (length (size_ofList sizes d) n d) fun m hashed =>
    .inr (.inl hashed)
  rwa [Nat.zero_mul, Nat.add_zero] at whole

theorem mono {e : Nat} (opens : t.Opens d x i xs) (le : d ≤ e) : t.Opens e x i xs :=
  ⟨opens.lt, opens.size, opens.nodes, opens.reaches,
    fun m replayed => (opens.hashed m replayed).imp_right (.mono le)⟩

/-- A branch that proves a node is the one that opens the derivation, and so is the node, or two of
the hashed messages collide. -/
theorem unique (opens : t.Opens d x i xs) (length : ys.length = xs.length)
    (holds : proves y ys (i : Int) t.value = true) : (y = x ∧ ys = xs) ∨
      Collision fun m => (t.Hashed m ∨ ZeroHashed d m) ∨ Replayed y (i : Int) ys m := by
  obtain ⟨-, size, -, nodes, reaches⟩ := proves_iff.mp holds
  refine (replay_unique length (size.trans opens.size.symm) nodes opens.nodes i
    (reaches.trans opens.reaches.symm)).imp_right ?_
  exact Collision.mono fun m => fun
    | .inl own => .inr own
    | .inr genuine => .inl (opens.hashed m genuine)

end Opens

end Derivation

end BeaconBranch.Merkle
