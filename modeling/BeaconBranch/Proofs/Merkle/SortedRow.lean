import BeaconBranch.Merkle.Sparse

/-!
Bisection in sorted rows. A row splits into a front part that is below a bound and a back part that
is not, and a bisection finds where. Main statements: a position that is put into a sorted row
leaves it sorted, and a sparse tree sees exactly the listed positions of a range.
-/

namespace BeaconBranch.Merkle

/-! ### The place that a bisection finds -/

/-- What is below the bound stands in front. -/
def FrontBelow (below : Nat → Bool) (row : Array Nat) : Prop :=
  ∀ i j, i ≤ j → j < row.size → below (row.getD j 0) = true → below (row.getD i 0) = true

/-- The search keeps everything before `lo` below the bound and nothing from `hi` on. -/
theorem bisect_bounds {below : Nat → Bool} {row : Array Nat} (front : FrontBelow below row)
    (lo hi : Nat) (order : lo ≤ hi) (size : hi ≤ row.size)
    (low : ∀ i, i < lo → below (row.getD i 0) = true)
    (high : ∀ i, hi ≤ i → i < row.size → below (row.getD i 0) = false) :
    bisect below row lo hi ≤ row.size ∧
      (∀ i, i < bisect below row lo hi → below (row.getD i 0) = true) ∧
      ∀ i, bisect below row lo hi ≤ i → i < row.size → below (row.getD i 0) = false := by
  induction lo, hi using bisect.induct below row with
  | case1 lo hi lt middle up ih =>
    rw [bisect, if_pos lt, if_pos up]
    refine ih (by omega) size (fun i below => ?_) high
    exact front i middle (by omega) (by omega) up
  | case2 lo hi lt middle down ih =>
    rw [bisect, if_pos lt, if_neg down]
    refine ih (by omega) (by omega) low ?_
    intro i above inside
    rw [← Bool.not_eq_true]
    exact fun up => down (front middle i above inside up)
  | case3 lo hi ge =>
    rw [bisect, if_neg ge]
    exact ⟨by omega, low, fun i above => high i (by omega)⟩

/-- The front part of a row is as long as a bisection says. -/
theorem exists_split_bisect (below : Nat → Bool) (row : Array Nat)
    (sorted : row.toList.Pairwise fun i j => below j = true → below i = true) :
    ∃ front back, row.toList = front ++ back ∧ (∀ j ∈ front, below j = true) ∧
      (∀ j ∈ back, below j = false) ∧ bisect below row 0 row.size = front.length := by
  have entry : ∀ i, (lt : i < row.toList.length) → row.getD i 0 = row.toList[i] := fun i lt => by
    simp [show i < row.size from lt]
  have frontBelow : FrontBelow below row := by
    intro i j le lt up
    rcases Nat.lt_or_eq_of_le le with less | rfl
    · rw [entry j lt] at up
      rw [entry i (Nat.lt_trans less lt)]
      exact List.pairwise_iff_getElem.mp sorted i j (by simpa using by omega) lt less up
    · exact up
  obtain ⟨size, low, high⟩ := bisect_bounds frontBelow 0 row.size (Nat.zero_le _) (Nat.le_refl _)
    (fun i lt => absurd lt (Nat.not_lt_zero i)) fun i ge lt => absurd lt (Nat.not_lt.mpr ge)
  refine ⟨row.toList.take (bisect below row 0 row.size),
    row.toList.drop (bisect below row 0 row.size), (List.take_append_drop _ _).symm, ?_, ?_, ?_⟩
  · intro j mem
    obtain ⟨i, lt, rfl⟩ := List.mem_take_iff_getElem.mp mem
    have inside : i < row.size := by simp at lt; omega
    rw [← entry i inside]
    exact low i (by omega)
  · intro j mem
    obtain ⟨i, lt, rfl⟩ := List.mem_drop_iff_getElem.mp mem
    have inside : bisect below row 0 row.size + i < row.size := by simp at lt; omega
    rw [← entry _ inside]
    exact high _ (Nat.le_add_right _ _) inside
  · simp only [List.length_take, Array.length_toList]; omega

/-! ### Positions put into a row -/

theorem insertIdx_length (front back : List Nat) (i : Nat) :
    (front ++ back).insertIdx front.length i = front ++ i :: back := by
  induction front with
  | nil => rfl
  | cons j front ih => rw [List.cons_append, List.length_cons, List.insertIdx_succ_cons, ih]; rfl

/-- A position goes between the positions up to it and those behind it. -/
theorem toList_insertIndex {row : Array Nat} (sorted : row.toList.Pairwise (· ≤ ·)) (i : Nat) :
    ∃ front back, row.toList = front ++ back ∧ (∀ j ∈ front, j ≤ i) ∧ (∀ j ∈ back, i < j) ∧
      (insertIndex i row).toList = front ++ i :: back := by
  obtain ⟨front, back, split, low, high, place⟩ :=
    exists_split_bisect (fun j => decide (j ≤ i)) row
      (sorted.imp fun le => by simp only [decide_eq_true_eq]; omega)
  refine ⟨front, back, split, fun j mem => by simpa using low j mem,
    fun j mem => by simpa using high j mem, ?_⟩
  have whole : row = (front ++ back).toArray := by rw [← split, Array.toArray_toList]
  rw [insertIndex, place, whole, List.insertIdxIfInBounds_toArray, insertIdx_length]

theorem mem_insertIndex {row : Array Nat} (sorted : row.toList.Pairwise (· ≤ ·)) {i j : Nat} :
    j ∈ (insertIndex i row).toList ↔ j = i ∨ j ∈ row.toList := by
  obtain ⟨front, back, split, -, -, whole⟩ := toList_insertIndex sorted i
  rw [whole, split, List.mem_append, List.mem_cons, List.mem_append]
  exact or_left_comm

/-- A sorted row stays sorted. -/
theorem sorted_insertIndex {row : Array Nat} (sorted : row.toList.Pairwise (· ≤ ·)) (i : Nat) :
    (insertIndex i row).toList.Pairwise (· ≤ ·) := by
  obtain ⟨front, back, split, low, high, whole⟩ := toList_insertIndex sorted i
  rw [split, List.pairwise_append] at sorted
  rw [whole, List.pairwise_append, List.pairwise_cons]
  refine ⟨sorted.1, ⟨fun j mem => Nat.le_of_lt (high j mem), sorted.2.1⟩, fun j mem k later => ?_⟩
  rcases List.mem_cons.mp later with rfl | behind
  · exact low j mem
  · exact sorted.2.2 j mem k behind

/-! ### Listed positions of a range -/

/-- A sparse tree finds a position in a range exactly if one is listed there. -/
theorem SparseTree.hasLeaves_iff {t : SparseTree} (sorted : t.row.toList.Pairwise (· ≤ ·))
    {start stop : Nat} :
    t.hasLeaves start stop = true ↔ ∃ j ∈ t.row.toList, start ≤ j ∧ j < stop := by
  obtain ⟨front, back, split, low, high, place⟩ :=
    exists_split_bisect (fun j => decide (j < start)) t.row
      (sorted.imp fun le => by simp only [decide_eq_true_eq]; omega)
  have first : t.row[front.length]? = back.head? := by
    rw [← Array.getElem?_toList, split, List.getElem?_append_right (Nat.le_refl _), Nat.sub_self,
      List.head?_eq_getElem?]
  rw [hasLeaves, place, first, split]
  cases back with
  | nil =>
    simp only [List.head?_nil, Bool.false_eq_true, List.append_nil, false_iff]
    rintro ⟨j, mem, ge, -⟩
    have lt : j < start := by simpa using low j mem
    omega
  | cons j rest =>
    have ge : start ≤ j := by simpa using high j List.mem_cons_self
    simp only [List.head?_cons, decide_eq_true_eq]
    refine ⟨fun lt => ⟨j, by simp, ge, lt⟩, ?_⟩
    rintro ⟨k, mem, from', lt⟩
    rcases List.mem_append.mp mem with before | behind
    · have under : k < start := by simpa using low k before
      omega
    · rw [split] at sorted
      have least := (List.pairwise_append.mp sorted).2.1
      rcases List.mem_cons.mp behind with rfl | later
      · exact lt
      · exact Nat.lt_of_le_of_lt ((List.pairwise_cons.mp least).1 k later) lt

end BeaconBranch.Merkle
