/-!
Classes of characters: sets given as ranges of code points, blanks, and the decimal digits of all
scripts. Main statement: an ASCII digit has its usual value.
-/

namespace BeaconBranch

namespace CharRange

/-- Whether a character lies in one of the ranges, each given by its first and its last code
point. -/
def holds (ranges : List (Nat × Nat)) (c : Char) : Bool :=
  ranges.any fun (first, last) => first ≤ c.toNat && c.toNat ≤ last

end CharRange

/-! ### Blanks

Two sets are in use: `isSpace` for the ends of names and lists, and the smaller `isNumberSpace` for
the ends of numbers, which leaves out the four ASCII separators. -/

namespace Blank

/-- Blanks outside ASCII. -/
def isWideSpace (c : Char) : Bool :=
  let n := c.toNat
  n == 0x85 || n == 0xa0 || n == 0x1680 || (0x2000 ≤ n && n ≤ 0x200a) || n == 0x2028 ||
    n == 0x2029 || n == 0x202f || n == 0x205f || n == 0x3000

/-- Space, the five layout characters from tab to carriage return, and the blanks outside ASCII. -/
def isNumberSpace (c : Char) : Bool :=
  c == ' ' || (9 ≤ c.toNat && c.toNat ≤ 13) || isWideSpace c

/-- The blanks of `isNumberSpace` and the four ASCII separators. -/
def isSpace (c : Char) : Bool := isNumberSpace c || (0x1c ≤ c.toNat && c.toNat ≤ 0x1f)

/-- A list of characters without the blanks at both ends. -/
def trimBy (p : Char → Bool) (cs : List Char) : List Char :=
  ((cs.dropWhile p).reverse.dropWhile p).reverse

/-- A text without the blanks at both ends. -/
def trim (s : String) : String := String.ofList (trimBy isSpace s.toList)

end Blank

/-! ### Decimal digits

Each script that has its own decimal digits lists ten of them in a row from zero to nine, so the
table holds the zeros only. -/

namespace DecimalDigit

/-- The code points of the digit zero, one per row of ten digits. -/
def zeros : List Nat := [
  0x0030, 0x0660, 0x06f0, 0x07c0, 0x0966, 0x09e6, 0x0a66, 0x0ae6, 0x0b66, 0x0be6, 0x0c66, 0x0ce6,
  0x0d66, 0x0de6, 0x0e50, 0x0ed0, 0x0f20, 0x1040, 0x1090, 0x17e0, 0x1810, 0x1946, 0x19d0, 0x1a80,
  0x1a90, 0x1b50, 0x1bb0, 0x1c40, 0x1c50, 0xa620, 0xa8d0, 0xa900, 0xa9d0, 0xa9f0, 0xaa50, 0xabf0,
  0xff10, 0x104a0, 0x10d30, 0x11066, 0x110f0, 0x11136, 0x111d0, 0x112f0, 0x11450, 0x114d0,
  0x11650, 0x116c0, 0x11730, 0x118e0, 0x11950, 0x11c50, 0x11d50, 0x11da0, 0x16a60, 0x16ac0,
  0x16b50, 0x1d7ce, 0x1d7d8, 0x1d7e2, 0x1d7ec, 0x1d7f6, 0x1e140, 0x1e2f0, 0x1e950, 0x1fbf0]

/-- The value of a decimal digit of any script. -/
def value? (c : Char) : Option Nat :=
  (zeros.find? fun z => z ≤ c.toNat && c.toNat ≤ z + 9).map (c.toNat - ·)

theorem value?_ofNat_ascii : ∀ d < 10, value? (Char.ofNat (48 + d)) = some d := by decide

end DecimalDigit

end BeaconBranch
