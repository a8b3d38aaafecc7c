import BeaconBranch.Binary64

/-!
Writing a number with 53 significant bits: as the decimal with the fewest digits that is read as
this number again, and of two such decimals the nearer one. Numbers of usual size are written with
a point, all others with an exponent of two digits or more.
-/

namespace BeaconBranch.Binary64

/-- The least `k` with `m * 2 ^ e < 10 ^ k`; `m` is not zero. -/
def places (m : Nat) (e : Int) : Int :=
  let whole := wholePart m e
  if 0 < whole then decimalLength whole
  else 1 - (decimalLength ((twoTo (-e).toNat - 1) / m) : Int)

/-- The decimal with its last digit at `10 ^ power` that is read as `m * 2 ^ e`, if one of the two
neighbours is. If both are, the nearer one is taken, and of two equally near ones the even one. -/
def decimalAt? (m : Nat) (e power : Int) : Option (Nat × Int) :=
  let a := m * twoTo e.toNat * Nat.pow 10 (-power).toNat
  let b := twoTo (-e).toNat * Nat.pow 10 power.toNat
  let isRead (digits : Nat) : Bool := ofDecimal false digits power == finite false m e
  match isRead (a / b), isRead (a / b + 1) with
  | true, true => some (roundDiv a b, power)
  | true, false => some (a / b, power)
  | false, true => some (a / b + 1, power)
  | false, false => none

/-- `m * 2 ^ e` as a decimal with all its digits. -/
def exactDecimal (m : Nat) (e : Int) : Nat × Int :=
  (m * twoTo e.toNat * Nat.pow 5 (-e).toNat, min e 0)

/-- Drops up to `fuel` zeros at the end of a decimal's digits. -/
def dropZeros : Nat → Nat × Int → Nat × Int
  | 0, d => d
  | fuel + 1, (digits, power) =>
    if digits ≠ 0 ∧ digits % 10 = 0 then dropZeros fuel (digits / 10, power + 1)
    else (digits, power)

/-- The decimal with the fewest digits that is read as `m * 2 ^ e`; 17 digits are always enough. -/
def shortest (m : Nat) (e : Int) : Nat × Int :=
  if m = 0 then (0, 0)
  else
    let k := places m e
    dropZeros 17 (((List.range 17).findSome? fun n => decimalAt? m e (k - (n + 1 : Nat))).getD
      (exactDecimal m e))

/-- Digits with a point behind the first `point` of them, and zeros where digits are missing. -/
def pointed (digits : List Char) (point : Int) : List Char :=
  if point ≤ 0 then ['0', '.'] ++ List.replicate (-point).toNat '0' ++ digits
  else if (digits.length : Int) ≤ point then
    digits ++ List.replicate (point.toNat - digits.length) '0' ++ ['.', '0']
  else digits.take point.toNat ++ '.' :: digits.drop point.toNat

/-- An exponent with its sign and at least two digits. -/
def exponentText (e : Int) : List Char :=
  let digits := Nat.toDigits 10 e.natAbs
  (if e < 0 then '-' else '+') :: List.replicate (2 - digits.length) '0' ++ digits

/-- Digits with a point behind the first one, if there are more, and an exponent. -/
def exponential (digits : List Char) (e : Int) : List Char :=
  digits.take 1 ++ (if digits.length ≤ 1 then [] else '.' :: digits.drop 1) ++
    'e' :: exponentText e

/-- A decimal: with a point from `0.0001` to below `10 ^ 16`, with an exponent beyond. -/
def decimalText (d : Nat × Int) : List Char :=
  let digits := Nat.toDigits 10 d.1
  let point := digits.length + d.2
  if -4 < point ∧ point ≤ 16 then pointed digits point else exponential digits (point - 1)

/-- The text of a finite number. -/
def finiteText (negative : Bool) (m : Nat) (e : Int) : String :=
  String.ofList ((if negative then ['-'] else []) ++ decimalText (shortest m e))

/-- The text of a number in messages and tables. -/
def text : Binary64 → String
  | nan => "nan"
  | infinite negative => if negative then "-inf" else "inf"
  | finite negative m e => finiteText negative m e

end BeaconBranch.Binary64
