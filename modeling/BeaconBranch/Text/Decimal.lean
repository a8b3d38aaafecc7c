import BeaconBranch.Text.CharClass

/-!
Whole numbers as decimal text. The reader takes blanks around the number, one sign, digits of any
script, and single underscores between digits. Numbers of more than 4300 digits are refused.
-/

namespace BeaconBranch.Decimal

/-- The most digits a number may have. -/
def maxDigits : Nat := 4300

/-- Reads digits and single underscores between them, with a digit first. -/
def digitsFrom? : List Char → Option (List Nat)
  | [] => none
  | [c] => (DecimalDigit.value? c).map ([·])
  | c :: '_' :: rest => do return (← DecimalDigit.value? c) :: (← digitsFrom? rest)
  | c :: d :: rest => do return (← DecimalDigit.value? c) :: (← digitsFrom? (d :: rest))

/-- The number a row of digits stands for. -/
def ofDigits (ds : List Nat) : Nat := ds.foldl (fun n d => 10 * n + d) 0

/-- The number that digits without a sign spell. -/
def natOfChars? (cs : List Char) : Option Nat := do
  let ds ← digitsFrom? cs
  if ds.length ≤ maxDigits then some (ofDigits ds) else none

/-- The number that a text spells. -/
def toInt? (s : String) : Option Int :=
  match Blank.trimBy Blank.isNumberSpace s.toList with
  | '-' :: cs => (natOfChars? cs).map fun n => -(n : Int)
  | '+' :: cs => (natOfChars? cs).map Int.ofNat
  | cs => (natOfChars? cs).map Int.ofNat

end BeaconBranch.Decimal
