import BeaconBranch.Bytes.Basic
import BeaconBranch.Fault

/-!
Using a value of unknown shape as something definite. Each function says for every shape what it
gives or how it fails. A list can stand for bytes, and a decimal text for a number.
-/

namespace BeaconBranch

namespace Value

/-- The value as a number. -/
def toInt (v : Value) : Except Fault Int :=
  match v, v.integer? with
  | _, some n => .ok n
  | real _, none => .error (.misuse .missingAttribute)
  | _, none => .error .wrongType

/-- The number of items of a value that has items. -/
def length (v : Value) : Except Fault Nat :=
  match v.length? with
  | some n => .ok n
  | none => .error .wrongType

/-- A number as a byte. -/
def toByte (v : Value) : Except Fault UInt8 :=
  match v.integer? with
  | none => .error .wrongType
  | some n => if n < 0 ∨ 255 < n then .error (.misuse .value) else .ok n.toNat.toUInt8

/-- The bytes a value stands for: itself, a list of bytes, or a number of zero bytes. -/
def toBytes : Value → Except Fault ByteArray
  | bytes b => .ok b
  | list xs => do return ⟨(← xs.mapM toByte).toArray⟩
  | object [] => .ok ByteArray.empty
  | int n => if n < 0 then .error (.misuse .value) else .ok (Bytes.zeros n.toNat)
  | flag b => .ok (Bytes.zeros (if b then 1 else 0))
  | _ => .error .wrongType

/-- The value as a byte string of a given length, or a list that stands for one. A text is read as
hexadecimal. -/
def toVector (v : Value) (length : Nat) : Except Fault Value := do
  let v ← match v with
    | text s => match Hex.decodeMarked? s with
      | some b => .ok (bytes b)
      | none => .error (.misuse .value)
    | v => .ok v
  let n ← v.length
  if n = length then .ok v else .error (.wrongLength length n)

/-- The bytes of a value that has to be a byte string. -/
def asBytes : Value → Except Fault ByteArray
  | bytes b => .ok b
  | _ => .error .wrongType

/-- The whole number that a value means: itself, or what a decimal text spells. What is behind the
point of a number is dropped. -/
def whole? : Value → Except Fault Int
  | int n => .ok n
  | flag b => .ok (if b then 1 else 0)
  | text s => match Decimal.toInt? s with
    | some n => .ok n
    | none => .error (.misuse .value)
  | real .nan => .error (.misuse .value)
  | real (.infinite _) => .error (.misuse .overflow)
  | real (.finite negative m e) => .ok (Binary64.signed negative (Binary64.wholePart m e))
  | _ => .error .wrongType

/-- The entry of a key that has to be there. -/
def atKey? (key : String) : Value → Except Fault Value
  | object es => match lookup key es with
    | some v => .ok v
    | none => .error (.misuse .missingKey)
  | _ => .error .wrongType

/-- The entry of a key of an object, if it is there. -/
def find? (key : String) : Value → Except Fault (Option Value)
  | object es => .ok (lookup key es)
  | _ => .error (.misuse .missingAttribute)

/-- The items that a value is made of: those of a list, the characters of a text, the keys of an
object. -/
def items? : Value → Except Fault (List Value)
  | list xs => .ok xs
  | text s => .ok (s.toList.map fun c => text (String.singleton c))
  | object es => .ok (es.map fun (k, _) => text k)
  | _ => .error .wrongType

end Value

end BeaconBranch
