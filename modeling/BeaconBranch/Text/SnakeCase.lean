import BeaconBranch.Text.LowerCase

/-!
Snake-case names. A name in camel case gets an underscore before each capital that starts a word,
and then goes to lower case as a whole.
-/

namespace BeaconBranch.SnakeCase

/-- The capital letters A to Z. -/
def isCapital (c : Char) : Bool := 'A' ≤ c && c ≤ 'Z'

/-- The small letters a to z. -/
def isSmall (c : Char) : Bool := 'a' ≤ c && c ≤ 'z'

/-- First pass: a capital followed by small letters is a word of its own, and an underscore goes
before it unless it comes first or after a line feed. `skip` counts the small letters of the word
just split off, which are not looked at again. -/
def splitWords : Nat → List Char → List Char
  | _, [] => []
  | skip + 1, c :: rest => c :: splitWords skip rest
  | 0, c :: d :: e :: rest =>
    if c ≠ '\n' ∧ isCapital d ∧ isSmall e then
      c :: '_' :: splitWords (2 + (rest.takeWhile isSmall).length) (d :: e :: rest)
    else c :: splitWords 0 (d :: e :: rest)
  | 0, c :: rest => c :: splitWords 0 rest

/-- Second pass: an underscore goes between a small letter or a digit and a capital. -/
def splitCapitals : List Char → List Char
  | c :: d :: rest =>
    if (isSmall c ∨ ('0' ≤ c ∧ c ≤ '9')) ∧ isCapital d then c :: '_' :: d :: splitCapitals rest
    else c :: splitCapitals (d :: rest)
  | cs => cs

/-- The snake-case form of a name. -/
def ofCamel (name : String) : String :=
  LowerCase.lower (String.ofList (splitCapitals (splitWords 0 name.toList)))

end BeaconBranch.SnakeCase
