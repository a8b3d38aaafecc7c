import BeaconBranch.Binary64.Shortest

/-!
Numbers as they come from outside: whole ones of any size, and those with 53 significant bits.
-/

namespace BeaconBranch

/-- A number. -/
inductive Number
  | whole (n : Int)
  | real (x : Binary64)
  deriving DecidableEq, Repr, Inhabited

namespace Number

/-- The text of a number. -/
def text : Number → String
  | whole n => toString n
  | real x => x.text

/-- Whether a number is zero. -/
def isZero : Number → Bool
  | whole n => n == 0
  | real x => x.isZero

/-- The value of a number; an infinity has none, and neither has what is no number. -/
def value? : Number → Option Rat
  | whole n => some n
  | real x => x.value?

/-- Whether a number lies above a fraction. What is no number lies not below any. -/
def exceeds (x : Number) (q : Rat) : Bool :=
  match x.value? with
  | some v => decide (q < v)
  | none => x != .real (.infinite true)

/-- A number less a fraction, rounded to 53 significant bits. What has no value stays as it is. -/
def minus (x : Number) (q : Rat) : Number :=
  match x.value? with
  | some v => .real (.ofRat (v - q))
  | none => x

end Number

end BeaconBranch
