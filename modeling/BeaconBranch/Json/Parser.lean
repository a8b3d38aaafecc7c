import BeaconBranch.Value

/-!
Reading JSON. The reader keeps the order of the keys of an object; when a key comes twice its last
value stands at its first place. Besides the standard's values it takes the three number words
`NaN`, `Infinity` and `-Infinity`. Whole numbers have a limit on their digits, and the reader is
told how deep lists and objects may lie inside one another. Every step hands back the unread rest.
-/

namespace BeaconBranch.Json

/-- Why a text cannot be read. -/
inductive Problem
  | malformed
  | tooDeep
  | numberTooLong
  deriving DecidableEq, Repr

/-- The four blanks of the format. -/
def isBlank (c : Char) : Bool := c == ' ' || c == '\n' || c == '\r' || c == '\t'

/-- The unread rest without leading blanks. -/
def skipBlanks (cs : List Char) : List Char := cs.dropWhile isBlank

/-- The number that four hex digits spell. -/
def unit? (a b c d : Char) : Option Nat := Hex.toNat? [a, b, c, d]

/-- The code point of a high and a low code unit. -/
def ofPair (high low : Nat) : Nat := 0x10000 + 1024 * (high - 0xd800) + (low - 0xdc00)

/-- The character that follows a backslash stands for. -/
def escaped? : Char → Option Char
  | '"' => some '"'
  | '\\' => some '\\'
  | '/' => some '/'
  | 'b' => some '\x08'
  | 'f' => some '\x0c'
  | 'n' => some '\n'
  | 'r' => some '\r'
  | 't' => some '\t'
  | _ => none

/-- Reads a text up to its closing quote; `acc` holds its code points so far, last first. A code
unit that is half of a pair without its other half is a code point of its own. -/
def textFrom? : List Nat → List Char → Option (String × List Char)
  | _, [] => none
  | acc, '"' :: rest => some (CodePoints.text acc.reverse, rest)
  | acc, '\\' :: 'u' :: a :: b :: c :: d :: '\\' :: 'u' :: e :: f :: g :: h :: rest => do
    let high ← unit? a b c d
    let low ← unit? e f g h
    if 0xd800 ≤ high ∧ high ≤ 0xdbff ∧ 0xdc00 ≤ low ∧ low ≤ 0xdfff then
      textFrom? (ofPair high low :: acc) rest
    else textFrom? (high :: acc) ('\\' :: 'u' :: e :: f :: g :: h :: rest)
  | acc, '\\' :: 'u' :: a :: b :: c :: d :: rest => do
    textFrom? ((← unit? a b c d) :: acc) rest
  | acc, '\\' :: c :: rest => do textFrom? ((← escaped? c).toNat :: acc) rest
  | acc, c :: rest => if c.toNat < 32 then none else textFrom? (c.toNat :: acc) rest

/-- The decimal digits 0 to 9. -/
def isDigit (c : Char) : Bool := '0' ≤ c && c ≤ '9'

/-- The fraction of a number: a point and digits. -/
def fraction : List Char → List Char × List Char
  | '.' :: cs =>
    if (cs.takeWhile isDigit).isEmpty then ([], '.' :: cs)
    else ('.' :: cs.takeWhile isDigit, cs.dropWhile isDigit)
  | cs => ([], cs)

/-- The exponent of a number: the letter E, at most one sign, and digits. -/
def exponent : List Char → List Char × List Char
  | e :: s :: cs =>
    if e = 'e' ∨ e = 'E' then
      if (s = '+' ∨ s = '-') ∧ ¬ (cs.takeWhile isDigit).isEmpty then
        (e :: s :: cs.takeWhile isDigit, cs.dropWhile isDigit)
      else if isDigit s then (e :: (s :: cs).takeWhile isDigit, (s :: cs).dropWhile isDigit)
      else ([], e :: s :: cs)
    else ([], e :: s :: cs)
  | cs => ([], cs)

/-- The number that the digits `0` to `9` of a text spell; other characters are passed over. -/
def digitsOf (cs : List Char) : Nat :=
  Decimal.ofDigits ((cs.filter isDigit).map fun c => c.toNat - 48)

/-- The power of ten that an exponent asks for. -/
def powerOf (exp : List Char) : Int := if exp.contains '-' then -(digitsOf exp : Int) else digitsOf exp

/-- Reads a number: no leading zero before another digit. -/
def number (negative : Bool) (cs : List Char) : Except Problem (Value × List Char) :=
  let whole := match cs with
    | '0' :: _ => ['0']
    | _ => cs.takeWhile isDigit
  if whole.isEmpty then .error .malformed
  else
    let (frac, afterFrac) := fraction (cs.drop whole.length)
    let (exp, rest) := exponent afterFrac
    if !frac.isEmpty || !exp.isEmpty then
      let power := powerOf exp - (frac.length - 1 : Nat)
      .ok (.real (Binary64.ofDecimal negative (digitsOf (whole ++ frac)) power), rest)
    else if whole.length ≤ Decimal.maxDigits then
      .ok (.int (Binary64.signed negative (digitsOf whole)), rest)
    else .error .numberTooLong

/-- Reads a text that must be there. -/
def textOr (cs : List Char) : Except Problem (String × List Char) :=
  match textFrom? [] cs with
  | some r => .ok r
  | none => .error .malformed

mutual

/-- Reads a value; `fuel` bounds the number of values and separators still to come, and `depth` the
lists and objects that may lie inside one another. -/
def value : Nat → Nat → List Char → Except Problem (Value × List Char)
  | 0, _, _ => .error .malformed
  | fuel + 1, depth, cs =>
    match cs with
    | '"' :: rest => (textOr rest).map fun (s, rest) => (.text s, rest)
    | '[' :: rest =>
      match depth, skipBlanks rest with
      | 0, _ => .error .tooDeep
      | _ + 1, ']' :: rest => .ok (.list [], rest)
      | depth + 1, rest => items fuel depth [] rest
    | '\x7b' :: rest =>
      match depth, skipBlanks rest with
      | 0, _ => .error .tooDeep
      | _ + 1, '\x7d' :: rest => .ok (.object [], rest)
      | depth + 1, rest => entries fuel depth [] rest
    | 'n' :: 'u' :: 'l' :: 'l' :: rest => .ok (.null, rest)
    | 't' :: 'r' :: 'u' :: 'e' :: rest => .ok (.flag true, rest)
    | 'f' :: 'a' :: 'l' :: 's' :: 'e' :: rest => .ok (.flag false, rest)
    | 'N' :: 'a' :: 'N' :: rest => .ok (.real .nan, rest)
    | 'I' :: 'n' :: 'f' :: 'i' :: 'n' :: 'i' :: 't' :: 'y' :: rest =>
      .ok (.real (.infinite false), rest)
    | '-' :: 'I' :: 'n' :: 'f' :: 'i' :: 'n' :: 'i' :: 't' :: 'y' :: rest =>
      .ok (.real (.infinite true), rest)
    | '-' :: rest => number true rest
    | cs => number false cs

/-- Reads the items of a list up to its closing bracket; those already read come last first. -/
def items : Nat → Nat → List Value → List Char → Except Problem (Value × List Char)
  | 0, _, _, _ => .error .malformed
  | fuel + 1, depth, before, cs =>
    match value fuel depth (skipBlanks cs) with
    | .error p => .error p
    | .ok (x, rest) =>
      match skipBlanks rest with
      | ',' :: rest => items fuel depth (x :: before) rest
      | ']' :: rest => .ok (.list (x :: before).reverse, rest)
      | _ => .error .malformed

/-- Reads the entries of an object up to its closing brace, below those already read. -/
def entries : Nat → Nat → List (String × Value) → List Char → Except Problem (Value × List Char)
  | 0, _, _, _ => .error .malformed
  | fuel + 1, depth, es, cs =>
    match skipBlanks cs with
    | '"' :: rest =>
      match textOr rest with
      | .error p => .error p
      | .ok (key, rest) =>
        match skipBlanks rest with
        | ':' :: rest =>
          match value fuel depth (skipBlanks rest) with
          | .error p => .error p
          | .ok (v, rest) =>
            match skipBlanks rest with
            | ',' :: rest => entries fuel depth (Value.put key v es) rest
            | '\x7d' :: rest => .ok (.object (Value.put key v es), rest)
            | _ => .error .malformed
        | _ => .error .malformed
    | _ => .error .malformed

end

/-- The value that a text spells, with blanks around it and nothing else; lists and objects may lie
`depth` deep inside one another. -/
def parse (depth : Nat) (s : String) : Except Problem Value :=
  let cs := s.toList
  match value (2 * cs.length + 2) depth (skipBlanks cs) with
  | .error p => .error p
  | .ok (v, rest) => if (skipBlanks rest).isEmpty then .ok v else .error .malformed

end BeaconBranch.Json
