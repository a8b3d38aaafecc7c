import BeaconBranch.Text.Decimal
import Mathlib.Data.List.Basic
import Mathlib.Tactic.IntervalCases

/-!
Decimal text comes back. A number is written in ASCII digits, which are no blanks and have their
usual values. Main statement: a number that is not too long is read as it was written.
-/

namespace BeaconBranch.Decimal

variable {c : Char} {cs : List Char}

theorem toNat_of_isDigit (digit : c.isDigit = true) : 48 ≤ c.toNat ∧ c.toNat ≤ 57 := by
  simpa [Char.isDigit, UInt32.le_iff_toNat_le] using digit

theorem value?_of_isDigit (digit : c.isDigit = true) :
    DecimalDigit.value? c = some (c.toNat - 48) := by
  obtain ⟨ge, le⟩ := toNat_of_isDigit digit
  have ascii := DecimalDigit.value?_ofNat_ascii (c.toNat - 48) (by omega)
  rwa [show 48 + (c.toNat - 48) = c.toNat by omega, Char.ofNat_toNat] at ascii

theorem isNumberSpace_of_isDigit (digit : c.isDigit = true) : Blank.isNumberSpace c = false := by
  obtain ⟨ge, le⟩ := toNat_of_isDigit digit
  have same := Char.ofNat_toNat c
  generalize c.toNat = n at ge le same
  subst same
  interval_cases n <;> decide

theorem ne_of_isDigit (digit : c.isDigit = true) : c ≠ '_' ∧ c ≠ '-' ∧ c ≠ '+' := by
  refine ⟨?_, ?_, ?_⟩ <;> (rintro rfl; revert digit; decide)

/-- Digits without anything between them are read one by one. -/
theorem digitsFrom?_of_isDigit (some : cs ≠ []) (digits : ∀ c ∈ cs, c.isDigit = true) :
    digitsFrom? cs = .some (cs.map fun c => c.toNat - 48) := by
  induction cs with
  | nil => contradiction
  | cons c cs ih =>
    obtain ⟨first, others⟩ := List.forall_mem_cons.mp digits
    cases cs with
    | nil => rw [digitsFrom?, value?_of_isDigit first]; rfl
    | cons d ds =>
      have notMark := (ne_of_isDigit (others d List.mem_cons_self)).1
      rw [digitsFrom?, value?_of_isDigit first, ih (List.cons_ne_nil d ds) others]
      · rfl
      · simp [notMark]

theorem trimBy_of_isDigit (digits : ∀ c ∈ cs, c.isDigit = true) :
    Blank.trimBy Blank.isNumberSpace cs = cs := by
  have keep : ∀ l : List Char, (∀ c ∈ l, c.isDigit = true) →
      l.dropWhile Blank.isNumberSpace = l := by
    intro l digits
    cases l with
    | nil => rfl
    | cons c l =>
      rw [List.dropWhile_cons, isNumberSpace_of_isDigit (digits c List.mem_cons_self)]
      rfl
  rw [Blank.trimBy, keep cs digits, keep cs.reverse fun c mem => digits c (List.mem_reverse.mp mem),
    List.reverse_reverse]

theorem isDigit_of_mem {n : Nat} (mem : c ∈ Nat.toDigits 10 n) : c.isDigit = true :=
  Nat.isDigit_of_mem_toDigits (by decide) (by decide) mem

theorem natOfChars?_toDigits {n : Nat} (lt : n < 10 ^ maxDigits) :
    natOfChars? (Nat.toDigits 10 n) = some n := by
  have few : (Nat.toDigits 10 n).length ≤ maxDigits :=
    (Nat.length_toDigits_le_iff (by decide) (by decide)).mpr lt
  have value : ofDigits ((Nat.toDigits 10 n).map fun c => c.toNat - 48) = n := by
    rw [ofDigits, List.foldl_map]
    exact Nat.ofDigitChars_ten_toDigits
  rw [natOfChars?, digitsFrom?_of_isDigit Nat.toDigits_ne_nil fun c mem => isDigit_of_mem mem]
  show (if _ then some _ else none) = _
  rw [List.length_map, if_pos few, value]

theorem toList_toString (n : Nat) : (toString (n : Int)).toList = Nat.toDigits 10 n :=
  Nat.toList_repr

/-- A number of at most 4300 digits is read as it was written. -/
theorem toInt?_toString {n : Nat} (lt : n < 10 ^ maxDigits) :
    toInt? (toString (n : Int)) = some (n : Int) := by
  have read := natOfChars?_toDigits lt
  obtain ⟨c, cs, split⟩ := List.exists_cons_of_ne_nil (@Nat.toDigits_ne_nil n 10)
  have first : c.isDigit = true := isDigit_of_mem (n := n) (split ▸ List.mem_cons_self)
  obtain ⟨-, notMinus, notPlus⟩ := ne_of_isDigit first
  rw [toInt?, toList_toString, trimBy_of_isDigit fun c mem => isDigit_of_mem mem]
  rw [split] at read ⊢
  split
  · simp_all
  · simp_all
  · rw [read]
    rfl

end BeaconBranch.Decimal
