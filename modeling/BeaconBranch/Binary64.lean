/-!
Powers of two, which binary trees are counted in: the leaves of a tree of a depth, the first index
on a level, the numbers that fit in so many bits. And numbers with 53 significant bits, which
numbers with a point or an exponent are read as. A decimal becomes the nearest of them, of two
equally near ones that with the even mantissa. Beyond the largest one lies an infinity, and near
zero the bits run out step by step. Main statements: one step further doubles, powers grow with
their exponents, and none is zero.
-/

namespace BeaconBranch

/-- Two to the power of `n`. -/
def twoTo (n : Nat) : Nat := Nat.pow 2 n

@[simp] theorem twoTo_zero : twoTo 0 = 1 := rfl

theorem twoTo_succ (n : Nat) : twoTo (n + 1) = twoTo n + twoTo n := Nat.mul_two (twoTo n)

theorem twoTo_add (m n : Nat) : twoTo (m + n) = twoTo m * twoTo n := Nat.pow_add 2 m n

theorem twoTo_le {m n : Nat} (le : m ≤ n) : twoTo m ≤ twoTo n := Nat.pow_le_pow_right (by decide) le

theorem twoTo_lt {m n : Nat} (lt : m < n) : twoTo m < twoTo n := Nat.pow_lt_pow_right (by decide) lt

theorem twoTo_pos (n : Nat) : 0 < twoTo n := Nat.two_pow_pos n

/-- A number with 53 significant bits: `mantissa * 2 ^ exponent` or its negative, where zero has a
sign of its own, or an infinity, or no number at all. -/
inductive Binary64
  | nan
  | infinite (negative : Bool)
  | finite (negative : Bool) (mantissa : Nat) (exponent : Int)
  deriving DecidableEq, Repr, Inhabited

namespace Binary64

/-- The whole number nearest to a quotient, of two equally near ones the even one. -/
def roundDiv (n d : Nat) : Nat :=
  let q := n / d
  let r := n % d
  if 2 * r < d then q else if d < 2 * r then q + 1 else q + q % 2

/-- Zero, of either sign. -/
def zero (negative : Bool) : Binary64 := finite negative 0 (-1074)

/-- The fraction `n / d` divided by a power of two. -/
def scaleDown (n d : Nat) (exponent : Int) : Nat × Nat :=
  (n * twoTo (-exponent).toNat, d * twoTo exponent.toNat)

/-- The exponent at which a fraction has 53 significant bits before its point; it is never less
than that of the smallest number. -/
def exponentOf (n d : Nat) : Int :=
  let e := max ((n.log2 : Int) - d.log2 - 53) (-1074)
  let (a, b) := scaleDown n d e
  if twoTo 53 ≤ a / b then e + 1 else e

/-- The number nearest to a fraction, or its negative. -/
def ofFraction (negative : Bool) (n d : Nat) : Binary64 :=
  let e := exponentOf n d
  let (a, b) := scaleDown n d e
  let m := roundDiv a b
  let (m, e) := if m = twoTo 53 then (twoTo 52, e + 1) else (m, e)
  if 971 < e then infinite negative else finite negative m e

/-- The number nearest to a rational number. -/
def ofRat (q : Rat) : Binary64 := ofFraction (decide (q < 0)) q.num.natAbs q.den

/-- How many decimal digits a whole number has. -/
def decimalLength (n : Nat) : Nat := (Nat.toDigits 10 n).length

/-- The number nearest to `digits * 10 ^ power`, or its negative. What has its first digit far from
the point is an infinity or zero. -/
def ofDecimal (negative : Bool) (digits : Nat) (power : Int) : Binary64 :=
  let places := (decimalLength digits : Int) + power
  if digits = 0 ∨ places < -330 then zero negative
  else if 310 < places then infinite negative
  else ofFraction negative (digits * Nat.pow 10 power.toNat) (Nat.pow 10 (-power).toNat)

/-- Whether a number is zero, of either sign. -/
def isZero : Binary64 → Bool
  | finite _ m _ => m == 0
  | _ => false

/-- Whether a number lies below zero. -/
def isNegative : Binary64 → Bool
  | nan => false
  | infinite negative => negative
  | finite negative m _ => negative && m != 0

/-- The whole part of a mantissa with an exponent. -/
def wholePart (m : Nat) (e : Int) : Nat := m * twoTo e.toNat / twoTo (-e).toNat

/-- Whether a number is two to the power of `bits` or more. -/
def reaches (bits : Nat) : Binary64 → Bool
  | nan => false
  | infinite negative => !negative
  | finite negative m e => !negative && twoTo bits ≤ wholePart m e

/-- A whole number with a sign. -/
def signed (negative : Bool) (n : Nat) : Int := if negative then -n else n

/-- The value of a finite number. -/
def value? : Binary64 → Option Rat
  | finite negative m e =>
    some ((signed negative (m * twoTo e.toNat) : Rat) / (twoTo (-e).toNat : Rat))
  | _ => none

end Binary64

end BeaconBranch
