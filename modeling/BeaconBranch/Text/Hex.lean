/-!
Hexadecimal text. `Hex.encode` writes each byte as two lower-case digits, high half first; the
reader takes either case and lets blanks stand between two bytes, never inside one.
-/

namespace BeaconBranch.Hex

/-- The digit of a number below sixteen. -/
def digit (n : Nat) : Char :=
  if n < 10 then Char.ofNat (48 + n) else Char.ofNat (87 + n)

/-- The value of a digit in either case. -/
def digitValue? (c : Char) : Option Nat :=
  if '0' ≤ c ∧ c ≤ '9' then some (c.toNat - 48)
  else if 'a' ≤ c ∧ c ≤ 'f' then some (c.toNat - 87)
  else if 'A' ≤ c ∧ c ≤ 'F' then some (c.toNat - 55)
  else none

/-- The two digits of a byte, high half first. -/
def digits (b : UInt8) : List Char := [digit (b.toNat / 16), digit (b.toNat % 16)]

/-- The last `width` digits of a number. -/
def lastDigits : Nat → Nat → List Char
  | 0, _ => []
  | width + 1, n => lastDigits width (n / 16) ++ [digit (n % 16)]

/-- A byte string as lower-case digits. -/
def encode (b : ByteArray) : String := String.ofList (b.data.toList.flatMap digits)

/-- A byte string as lower-case digits after the marker `0x`. -/
def marked (b : ByteArray) : String := "0x" ++ encode b

/-- The blanks that may stand between two bytes. -/
def isBlank (c : Char) : Bool := c == ' ' || ('\t' ≤ c && c ≤ '\r')

/-- Reads pairs of digits; blanks may stand before, between and after the pairs. -/
def decodeChars? : List Char → ByteArray → Option ByteArray
  | [], acc => some acc
  | [c], acc => if isBlank c then some acc else none
  | c :: d :: rest, acc =>
    if isBlank c then decodeChars? (d :: rest) acc
    else match digitValue? c, digitValue? d with
      | some high, some low => decodeChars? rest (acc.push (16 * high + low).toUInt8)
      | _, _ => none

/-- The bytes that a text of digit pairs spells. -/
def decode? (s : String) : Option ByteArray := decodeChars? s.toList ByteArray.empty

/-- A text without its marker `0x`, if it has one. -/
def unmark : List Char → List Char
  | '0' :: 'x' :: rest => rest
  | cs => cs

/-- The bytes that a text spells, with or without the marker `0x`. -/
def decodeMarked? (s : String) : Option ByteArray :=
  decodeChars? (unmark s.toList) ByteArray.empty

/-- The number that a run of digits spells; nothing for an empty run or another character. -/
def toNat? : List Char → Option Nat
  | [] => none
  | cs => cs.foldl (fun acc c => do return 16 * (← acc) + (← digitValue? c)) (some 0)

end BeaconBranch.Hex
