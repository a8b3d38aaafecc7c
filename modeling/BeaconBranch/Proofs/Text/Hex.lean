import BeaconBranch.Text.MarkedHex
import Mathlib.Data.List.Basic
import Mathlib.Tactic.IntervalCases

/-!
Hexadecimal text comes back. Each byte is written as two digits, and the digits of a byte are read
as this byte. Main statements: bytes written with the marker are read as these bytes, the case of
the digits does not matter, and every row of digits spells bytes once their number is even.
-/

namespace BeaconBranch.Hex

/-- Each of the sixteen digits is read as its own value. -/
theorem digitValue?_digit {n : Nat} (lt : n < 16) : digitValue? (digit n) = some n := by
  interval_cases n <;> decide

theorem isBlank_digit {n : Nat} (lt : n < 16) : isBlank (digit n) = false := by
  interval_cases n <;> decide

theorem toUInt8_halves (b : UInt8) : (16 * (b.toNat / 16) + b.toNat % 16).toUInt8 = b := by
  rw [Nat.div_add_mod]
  exact UInt8.ofNat_toNat

/-- The digits of bytes are read as these bytes. -/
theorem decodeChars?_flatMap (bs : List UInt8) (acc : ByteArray) :
    decodeChars? (bs.flatMap digits) acc = some ⟨acc.data ++ bs.toArray⟩ := by
  induction bs generalizing acc with
  | nil => simp [decodeChars?]
  | cons b bs ih =>
    have small : b.toNat < 256 := b.toNat_lt
    have high : b.toNat / 16 < 16 := by omega
    have low : b.toNat % 16 < 16 := by omega
    rw [List.flatMap_cons, digits, List.cons_append, List.cons_append, List.nil_append,
      decodeChars?, if_neg (by simp [isBlank_digit high]), digitValue?_digit high,
      digitValue?_digit low]
    dsimp only
    rw [toUInt8_halves, ih]
    simp

theorem decodeChars?_digits (b : ByteArray) :
    decodeChars? (b.data.toList.flatMap digits) ByteArray.empty = some b := by
  rw [decodeChars?_flatMap, Array.toArray_toList]
  exact congrArg (fun d => some (ByteArray.mk d)) Array.empty_append

theorem toList_marked (b : ByteArray) :
    (marked b).toList = '0' :: 'x' :: b.data.toList.flatMap digits := by
  simp [marked, encode]

/-- Marked bytes are read as these bytes. -/
theorem decodeMarked?_marked (b : ByteArray) : decodeMarked? (marked b) = some b := by
  rw [decodeMarked?, toList_marked, unmark, decodeChars?_digits]

theorem bytes?_marked (b : ByteArray) : bytes? (marked b) = .ok b := by
  rw [bytes?, decodeMarked?_marked]

theorem mem_digits {b : ByteArray} {c : Char} (mem : c ∈ b.data.toList.flatMap digits) :
    ∃ n < 16, c = digit n := by
  obtain ⟨u, -, inByte⟩ := List.mem_flatMap.mp mem
  have small : u.toNat < 256 := u.toNat_lt
  simp only [digits, List.mem_cons, List.not_mem_nil, or_false] at inByte
  rcases inByte with rfl | rfl
  · exact ⟨_, by omega, rfl⟩
  · exact ⟨_, by omega, rfl⟩

/-- Each byte has two digits. -/
theorem length_digits (b : ByteArray) : (b.data.toList.flatMap digits).length % 2 = 0 := by
  induction b.data.toList with
  | nil => rfl
  | cons u us ih =>
    rw [List.flatMap_cons, List.length_append, digits]
    simp only [List.length_cons, List.length_nil]
    omega

theorem markedDigits?_marked (b : ByteArray) :
    markedDigits? (marked b) = some (b.data.toList.flatMap digits) := by
  rw [markedDigits?, toList_marked]
  rfl

/-- The digits of bytes are whole bytes already. -/
theorem wholeDigits?_digits (s : String) (b : ByteArray) :
    wholeDigits? s (b.data.toList.flatMap digits) = .ok (b.data.toList.flatMap digits) := by
  have all : (b.data.toList.flatMap digits).all (fun c => (digitValue? c).isSome) = true := by
    refine List.all_eq_true.mpr fun c mem => ?_
    obtain ⟨n, lt, rfl⟩ := mem_digits mem
    rw [digitValue?_digit lt]
    rfl
  have even := length_digits b
  rw [wholeDigits?, if_pos all, evenDigits, if_neg (by omega)]

/-! ### Digits in either case -/

/-- What holds of the capitals from A to Z and of each character that is its own small letter holds
of all characters. -/
theorem of_toLower (p : Char → Prop) (capitals : ∀ n < 26, p (Char.ofNat (65 + n)))
    (others : ∀ c : Char, c.toLower = c → p c) (c : Char) : p c := by
  by_cases capital : 65 ≤ c.toNat ∧ c.toNat ≤ 90
  · have letter := capitals (c.toNat - 65) (by omega)
    rwa [show 65 + (c.toNat - 65) = c.toNat by omega, Char.ofNat_toNat] at letter
  · have notCapital : ¬(c.val ≥ 'A'.val ∧ c.val ≤ 'Z'.val) := by
      simpa [UInt32.le_iff_toNat_le] using capital
    exact others c (dif_neg notCapital)

theorem digitValue?_toLower (c : Char) : digitValue? c.toLower = digitValue? c :=
  of_toLower (fun c => digitValue? c.toLower = digitValue? c) (by decide)
    (fun _ same => congrArg digitValue? same) c

theorem isBlank_toLower (c : Char) : isBlank c.toLower = isBlank c :=
  of_toLower (fun c => isBlank c.toLower = isBlank c) (by decide)
    (fun _ same => congrArg isBlank same) c

/-- Bytes are read from digits in either case. -/
theorem decodeChars?_map_toLower (cs : List Char) (acc : ByteArray) :
    decodeChars? (cs.map Char.toLower) acc = decodeChars? cs acc := by
  fun_induction decodeChars? cs acc with
  | case1 => rfl
  | case2 c acc blank => simp [decodeChars?, isBlank_toLower, blank]
  | case3 c acc notBlank => simp [decodeChars?, isBlank_toLower, notBlank]
  | case4 c d rest acc blank ih =>
    rw [List.map_cons, List.map_cons, decodeChars?, if_pos (by rwa [isBlank_toLower]),
      ← List.map_cons, ih]
  | case5 c d rest acc notBlank high low highValue lowValue ih =>
    rw [List.map_cons, List.map_cons, decodeChars?, if_neg (by rwa [isBlank_toLower]),
      digitValue?_toLower, digitValue?_toLower, highValue, lowValue]
    exact ih
  | case6 c d rest acc notBlank notDigits =>
    rw [List.map_cons, List.map_cons, decodeChars?, if_neg (by rwa [isBlank_toLower]),
      digitValue?_toLower, digitValue?_toLower]
    split
    · rename_i highValue lowValue
      exact absurd lowValue (notDigits _ _ highValue)
    · rfl

/-- Bytes are written with small letters. -/
theorem map_toLower_digits (b : ByteArray) :
    (b.data.toList.flatMap digits).map Char.toLower = b.data.toList.flatMap digits := by
  have small : ∀ c ∈ b.data.toList.flatMap digits, c.toLower = c := by
    intro c mem
    obtain ⟨n, lt, rfl⟩ := mem_digits mem
    interval_cases n <;> decide
  rw [List.map_congr_left small, List.map_id']

/-! ### Digits of any number -/

/-- A row of digits and nothing else. -/
def AllDigits (cs : List Char) : Prop := ∀ c ∈ cs, (digitValue? c).isSome = true

theorem allDigits_digits (b : ByteArray) : AllDigits (b.data.toList.flatMap digits) := by
  intro c mem
  obtain ⟨n, lt, rfl⟩ := mem_digits mem
  rw [digitValue?_digit lt]
  rfl

theorem isBlank_of_digitValue? {c : Char} (digit : (digitValue? c).isSome = true) :
    isBlank c = false := by
  by_contra blank
  have low : c.toNat < 33 := by
    simp only [isBlank, Bool.not_eq_false, Bool.or_eq_true, Bool.and_eq_true, beq_iff_eq,
      decide_eq_true_eq] at blank
    rcases blank with rfl | ⟨-, le⟩
    · decide
    · exact Nat.lt_of_le_of_lt (show c.toNat ≤ 13 from le) (by decide)
  have noDigit : ∀ n < 33, (digitValue? (Char.ofNat n)).isSome = false := by decide
  have none := noDigit c.toNat low
  rw [Char.ofNat_toNat, digit] at none
  cases none

variable {cs : List Char}

theorem AllDigits.evenDigits (digits : AllDigits cs) : AllDigits (evenDigits cs) := by
  rw [Hex.evenDigits]
  split
  · exact List.forall_mem_cons.mpr ⟨by decide, digits⟩
  · exact digits

theorem length_evenDigits (cs : List Char) : (evenDigits cs).length % 2 = 0 := by
  rw [evenDigits]
  split
  · rw [List.length_cons]
    omega
  · omega

theorem evenDigits_ne_nil (nonempty : cs ≠ []) : evenDigits cs ≠ [] := by
  rw [evenDigits]
  split
  · exact List.cons_ne_nil _ _
  · exact nonempty

/-- An even number of digits spells bytes. -/
theorem AllDigits.exists_decodeChars? (digits : AllDigits cs) (even : cs.length % 2 = 0)
    (acc : ByteArray) : ∃ b, Hex.decodeChars? cs acc = some b := by
  fun_induction Hex.decodeChars? cs acc with
  | case1 acc => exact ⟨acc, rfl⟩
  | case2 | case3 => simp at even
  | case4 c d rest acc blank ih =>
    rw [isBlank_of_digitValue? (digits c List.mem_cons_self)] at blank
    cases blank
  | case5 c d rest acc notBlank high low highValue lowValue ih =>
    obtain ⟨-, others⟩ := List.forall_mem_cons.mp digits
    rw [List.length_cons, List.length_cons] at even
    exact ih (List.forall_mem_cons.mp others).2 (by omega)
  | case6 c d rest acc notBlank notDigits =>
    obtain ⟨first, others⟩ := List.forall_mem_cons.mp digits
    obtain ⟨high, highValue⟩ := Option.isSome_iff_exists.mp first
    obtain ⟨low, lowValue⟩ := Option.isSome_iff_exists.mp (others d List.mem_cons_self)
    exact (notDigits high low highValue lowValue).elim

theorem AllDigits.isSome_foldl (digits : AllDigits cs) (n : Nat) :
    (cs.foldl (fun acc c => do return 16 * (← acc) + (← digitValue? c)) (some n)).isSome =
      true := by
  induction cs generalizing n with
  | nil => rfl
  | cons c cs ih =>
    obtain ⟨first, others⟩ := List.forall_mem_cons.mp digits
    obtain ⟨value, isValue⟩ := Option.isSome_iff_exists.mp first
    rw [List.foldl_cons, isValue]
    exact ih others (16 * n + value)

/-- Digits spell a number if there are any. -/
theorem AllDigits.exists_toNat? (digits : AllDigits cs) (nonempty : cs ≠ []) :
    ∃ n, Hex.toNat? cs = some n := by
  rw [toNat?]
  · exact Option.isSome_iff_exists.mp (digits.isSome_foldl 0)
  · exact nonempty

theorem wholeDigits?_of_allDigits (s : String) (digits : AllDigits cs) :
    wholeDigits? s cs = .ok (evenDigits cs) := by
  rw [wholeDigits?, if_pos (List.all_eq_true.mpr digits)]

theorem wholeDigits?_of_not_allDigits (s : String) (notDigits : ¬AllDigits cs) :
    wholeDigits? s cs = .error (.invalidHex s) := by
  rw [wholeDigits?, if_neg fun all => notDigits (List.all_eq_true.mp all)]

end BeaconBranch.Hex
