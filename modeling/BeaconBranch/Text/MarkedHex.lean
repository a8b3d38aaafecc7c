import BeaconBranch.Fault

/-!
Hexadecimal text from outside. `Hex.bytes?` reads bytes with or without the marker `0x`;
`Hex.normalize?` looks only at marked text and brings it to whole bytes, with a zero digit in
front where their number is odd.
-/

namespace BeaconBranch.Hex

/-- The bytes that a text spells, with or without the marker. -/
def bytes? (s : String) : Except Fault ByteArray :=
  match decodeMarked? s with
  | some b => .ok b
  | none => .error (.misuse .value)

/-- `bytes?` for a value of unknown shape. -/
def bytesOf? : Value → Except Fault ByteArray
  | .text s => bytes? s
  | _ => .error (.misuse .missingAttribute)

/-- The digits of a marked text. -/
def markedDigits? (s : String) : Option (List Char) :=
  match s.toList with
  | '0' :: 'x' :: cs => some cs
  | _ => none

/-- Digits with a zero in front if their number is odd. -/
def evenDigits (cs : List Char) : List Char := if cs.length % 2 = 1 then '0' :: cs else cs

/-- The digits of whole bytes in a marked text `s`, `cs` being what follows its marker. -/
def wholeDigits? (s : String) (cs : List Char) : Except Fault (List Char) :=
  if cs.all fun c => (digitValue? c).isSome then .ok (evenDigits cs) else .error (.invalidHex s)

/-- A marked text with whole bytes, as many as expected if a number is given. Everything else
stays as it is. -/
def normalize? (v : Value) (expected : Option Int) : Except Fault Value :=
  match v with
  | .text s =>
    match markedDigits? s with
    | none => .ok v
    | some cs => do
      let ds ← wholeDigits? s cs
      match expected with
      | some n =>
        if (ds.length : Int) ≠ n * 2 then throw (.wrongHexLength n (ds.length / 2) s)
      | none => pure ()
      return .text (String.ofList ('0' :: 'x' :: ds))
  | v => .ok v

end BeaconBranch.Hex
