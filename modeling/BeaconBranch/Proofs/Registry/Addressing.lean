import BeaconBranch.Proofs.Merkle.Path

/-!
Addresses of validators, for every natural number. An address puts the digits of the validator's
index over those of the list's place in the state, and the index is compared with the height of the
list nowhere. A digit that falls on one of the place's own digits is lost. Main statement: which
indices share an address, and that the two addresses of an index name the same place exactly for the
indices that the list has room for.
-/

namespace BeaconBranch

/-- Numbers that are put over the same digits are told apart by their other digits. -/
theorem or_eq_or_iff {a b mask : Nat} :
    a ||| mask = b ||| mask ↔ ∀ k, mask.testBit k = false → a.testBit k = b.testBit k := by
  constructor
  · intro same k clear
    have digit := congrArg (Nat.testBit · k) same
    simpa [Nat.testBit_or, clear] using digit
  · intro agree
    refine Nat.eq_of_testBit_eq fun k => ?_
    rw [Nat.testBit_or, Nat.testBit_or]
    cases taken : mask.testBit k with
    | true => rw [Bool.or_true, Bool.or_true]
    | false => rw [agree k taken]

namespace Registry

/-- The digits of an index put over the one in front of the positions of its list. -/
def marked (i : Nat) : Nat := twoTo 40 ||| i

theorem le_marked (i : Nat) : twoTo 40 ≤ marked i ∧ i ≤ marked i :=
  ⟨Nat.left_le_or, Nat.right_le_or⟩

theorem marked_bounds (i : Nat) :
    twoTo (marked i).log2 ≤ marked i ∧ marked i < 2 * twoTo (marked i).log2 := by
  have pos : marked i ≠ 0 := Nat.ne_of_gt (Nat.lt_of_lt_of_le (twoTo_pos 40) (le_marked i).1)
  have below : marked i < twoTo ((marked i).log2 + 1) := Nat.lt_log2_self
  rw [twoTo_succ, ← Nat.two_mul] at below
  exact ⟨Nat.log2_self_le pos, below⟩

theorem validatorPosition?_or (i : Nat) :
    validatorPosition? i = .ok ((i ||| 11 * twoTo 41 : Nat) : Int) :=
  composePositions?_or i 40 11 5

/-- The place of the list stands in front of the digits of an index, however many these are. -/
theorem validatorGindex?_or (i : Nat) :
    validatorGindex? i = .ok ((85 * twoTo (marked i).log2 + marked i : Nat) : Int) := by
  obtain ⟨above, below⟩ := marked_bounds i
  have fit : ∀ e ∈ [(5, 11), (1, 0), ((marked i).log2, marked i - twoTo (marked i).log2)],
      e.2 < twoTo e.1 := by
    simp only [List.forall_mem_cons]
    exact ⟨by decide, by decide, by omega, by simp⟩
  have whole := Gindex.concat?_leaves 1 _ fit
  have index : Gindex.ofLeaf? i (40 : Nat) =
      .ok ((twoTo (marked i).log2 + (marked i - twoTo (marked i).log2) : Nat) : Int) := by
    rw [Nat.add_sub_cancel' above]
    rfl
  rw [validatorGindex?, Limits.validatorTreeHeight, index]
  refine whole.trans (congrArg Except.ok ?_)
  simp only [List.foldl_cons, List.foldl_nil]
  have tree : twoTo 5 = 32 := rfl
  have side : twoTo 1 = 2 := rfl
  rw [tree, side]
  omega

/-! ### Indices that share an address -/

/-- The digits of the field of the validators, above the list and its length. -/
theorem testBit_field (k : Nat) :
    (11 * twoTo 41).testBit k = false ↔ k ≠ 41 ∧ k ≠ 42 ∧ k ≠ 44 := by
  have shifted : (11 * twoTo 41).testBit k = (decide (41 ≤ k) && Nat.testBit 11 (k - 41)) :=
    Nat.testBit_mul_two_pow ..
  rw [shifted]
  by_cases low : k < 41
  · have none : ¬ 41 ≤ k := by omega
    simp only [none, decide_false, Bool.false_and, true_iff]
    omega
  · obtain ⟨m, rfl⟩ := Nat.exists_eq_add_of_le (Nat.not_lt.mp low)
    simp only [Nat.le_add_right, decide_true, Bool.true_and, Nat.add_sub_cancel_left]
    match m with
    | 0 => decide
    | 1 => decide
    | 2 => decide
    | 3 => decide
    | m + 4 =>
      have high : Nat.testBit 11 (m + 4) = false :=
        Nat.testBit_lt_two_pow (Nat.lt_of_lt_of_le (by decide) (twoTo_le (Nat.le_add_left 4 m)))
      simp only [high, true_iff]
      omega

theorem position_eq_iff {i j : Nat} : i ||| 11 * twoTo 41 = j ||| 11 * twoTo 41 ↔
    ∀ k, k ≠ 41 ∧ k ≠ 42 ∧ k ≠ 44 → i.testBit k = j.testBit k := by
  rw [or_eq_or_iff]
  exact forall_congr' fun k => imp_congr_left (testBit_field k)

theorem marked_eq_iff {i j : Nat} :
    marked i = marked j ↔ ∀ k, k ≠ 40 → i.testBit k = j.testBit k := by
  rw [marked, marked, Nat.or_comm _ i, Nat.or_comm _ j, or_eq_or_iff]
  refine forall_congr' fun k => imp_congr_left ?_
  have front : (twoTo 40).testBit k = decide (40 = k) := Nat.testBit_two_pow
  rw [front, decide_eq_false_iff_not]
  exact ne_comm

/-- The place of the list in front of the digits of an index can be taken off again. -/
theorem gindex_eq_iff {i j : Nat} :
    85 * twoTo (marked i).log2 + marked i = 85 * twoTo (marked j).log2 + marked j ↔
      marked i = marked j := by
  refine ⟨fun same => ?_, fun same => by rw [same]⟩
  obtain ⟨aboveI, belowI⟩ := marked_bounds i
  obtain ⟨aboveJ, belowJ⟩ := marked_bounds j
  have double : ∀ {m n : Nat}, m < n → 2 * twoTo m ≤ twoTo n := fun {m n} lt => by
    rw [Nat.two_mul, ← twoTo_succ]
    exact twoTo_le lt
  rcases Nat.lt_trichotomy (marked i).log2 (marked j).log2 with lt | equal | gt
  · have higher := double lt
    omega
  · rw [equal] at same
    omega
  · have higher := double gt
    omega

/-! ### The two addresses of an index -/

theorem position_of_lt {i : Nat} (lt : i < twoTo 41) :
    i ||| 11 * twoTo 41 = i + 11 * twoTo 41 := Int.ofNat.inj (orBits_shifted lt 11)

theorem gindex_of_lt {i : Nat} (lt : i < twoTo 40) :
    85 * twoTo (marked i).log2 + marked i = 86 * twoTo 40 + i :=
  Int.ofNat.inj (Except.ok.inj ((validatorGindex?_or i).symm.trans (validatorGindex?_eq lt)))

/-- The one in front is lost on an index that has the same digit. -/
theorem marked_of_digit {i : Nat} (ge : twoTo 40 ≤ i) (lt : i < twoTo 41) : marked i = i := by
  have half : twoTo 41 = 2 * twoTo 40 := rfl
  have split : twoTo 40 * 1 + (i - twoTo 40) = twoTo 40 * 1 ||| (i - twoTo 40) :=
    Nat.two_pow_add_eq_or_of_lt (show i - twoTo 40 < twoTo 40 by omega) 1
  rw [Nat.mul_one, Nat.add_sub_cancel' ge] at split
  rw [marked, split, ← Nat.or_assoc, Nat.or_self]

/-- Past the room of the list the two addresses of an index name different places. -/
theorem gindex_ne_position {i : Nat} (beyond : twoTo 40 ≤ i) :
    85 * twoTo (marked i).log2 + marked i ≠ twoTo 46 + (i ||| 11 * twoTo 41) := by
  have size : twoTo 46 = 32 * twoTo 41 := rfl
  have half : twoTo 41 = 2 * twoTo 40 := rfl
  have pos := twoTo_pos 40
  by_cases next : i < twoTo 41
  -- The index stays on the level of the list and has lost its highest digit.
  · have own := marked_of_digit beyond next
    have level : (marked i).log2 = 40 := by
      rw [own, Nat.log2_eq_iff (by omega)]
      exact ⟨beyond, next⟩
    rw [level, own, position_of_lt next]
    omega
  -- The index is so many levels further down that no position reaches it.
  · obtain ⟨above, below⟩ := marked_bounds i
    have digits := (le_marked i).2
    have level : 41 ≤ (marked i).log2 :=
      (Nat.le_log2 (by omega)).mpr (show twoTo 41 ≤ marked i by omega)
    have wide : twoTo 41 ≤ twoTo (marked i).log2 := twoTo_le level
    have room : twoTo ((marked i).log2 + 4) = 16 * twoTo (marked i).log2 := by
      rw [twoTo_add, Nat.mul_comm]
      rfl
    have position : i ||| 11 * twoTo 41 < twoTo ((marked i).log2 + 4) :=
      Nat.or_lt_two_pow (show i < twoTo ((marked i).log2 + 4) by omega)
        (show 11 * twoTo 41 < twoTo ((marked i).log2 + 4) by omega)
    omega

theorem gindex_eq_position_iff {i : Nat} :
    85 * twoTo (marked i).log2 + marked i = twoTo 46 + (i ||| 11 * twoTo 41) ↔ i < twoTo 40 := by
  refine ⟨fun same => Nat.lt_of_not_le fun beyond => gindex_ne_position beyond same, fun lt => ?_⟩
  have size : twoTo 46 = 64 * twoTo 40 := rfl
  have half : twoTo 41 = 2 * twoTo 40 := rfl
  rw [gindex_of_lt lt, position_of_lt (by omega)]
  omega

/-- Every natural number has both addresses, and they name one place exactly for the numbers below
the limit of the registry. Two numbers share a position exactly if they differ in the digits 41, 42
and 44 only, and an index exactly if they differ in the digit 40 only. So no two validators of a
registry share an address. -/
theorem addresses_told_apart (i j : Nat) :
    ∃ p q g h : Nat, validatorPosition? i = .ok (p : Int) ∧ validatorPosition? j = .ok (q : Int) ∧
      validatorGindex? i = .ok (g : Int) ∧ validatorGindex? j = .ok (h : Int) ∧
      (g = twoTo 46 + p ↔ i < Limits.validatorRegistry) ∧
      (p = q ↔ ∀ k, k ≠ 41 ∧ k ≠ 42 ∧ k ≠ 44 → i.testBit k = j.testBit k) ∧
      (g = h ↔ ∀ k, k ≠ 40 → i.testBit k = j.testBit k) ∧
      (i < Limits.validatorRegistry → j < Limits.validatorRegistry → i ≠ j → p ≠ q ∧ g ≠ h) := by
  refine ⟨_, _, _, _, validatorPosition?_or i, validatorPosition?_or j, validatorGindex?_or i,
    validatorGindex?_or j, gindex_eq_position_iff, position_eq_iff,
    gindex_eq_iff.trans marked_eq_iff, fun ltI ltJ differ => ?_⟩
  have half : twoTo 41 = 2 * twoTo 40 := rfl
  have ltI : i < twoTo 40 := ltI
  have ltJ : j < twoTo 40 := ltJ
  rw [gindex_of_lt ltI, gindex_of_lt ltJ, position_of_lt (by omega), position_of_lt (by omega)]
  omega

/-- The first number that the registry has no room for has the index of the first validator, which
is not the place of its position; and twice this number has the position of the first validator. -/
theorem addresses_beyond_registry :
    validatorGindex? Limits.validatorRegistry = .ok (86 * twoTo 40 : Nat) ∧
      validatorGindex? 0 = .ok (86 * twoTo 40 : Nat) ∧
      validatorPosition? Limits.validatorRegistry = .ok (23 * twoTo 40 : Nat) ∧
      86 * twoTo 40 ≠ twoTo 46 + 23 * twoTo 40 ∧
      validatorPosition? (2 * Limits.validatorRegistry) = .ok (22 * twoTo 40 : Nat) ∧
      validatorPosition? 0 = .ok (22 * twoTo 40 : Nat) :=
  ⟨rfl, rfl, rfl, by decide, rfl, rfl⟩

end Registry

end BeaconBranch
