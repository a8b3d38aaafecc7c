import BeaconBranch.Chunk.Balances
import BeaconBranch.Merkle.Dense
import BeaconBranch.Value.Cast

/-!
Kinds of fields. A field holds a number, a flag or bytes, and its kind tells how the value becomes
a leaf of its record's tree. Values come from outside unchecked, so every kind says what it does
with a value of another type.
-/

namespace BeaconBranch

/-- The kind of a field. -/
inductive FieldKind
  | uint64
  | uint256
  | flag
  /-- A byte string of a fixed length: 4, 20, 32, 48 or 256. -/
  | bytes (length : Nat)
  /-- A chunk that is taken as it is. -/
  | chunk
  /-- Up to 32 bytes, with their number joined to them. -/
  | extraData
  deriving DecidableEq, Repr

namespace FieldKind

/-- The bytes of a value, up to 32 of them, joined with their number. -/
def extraDataLeaf (v : Value) : Except Fault ByteArray := do
  let n ← v.length
  if 32 < n then .error (.extraDataOverLimit n)
  else Merkle.mixInLength? (Bytes.padRight 32 (← v.asBytes)) n

/-- A piece of 32 items of a value with items. -/
def piece (v : Value) (i : Nat) : Except Fault Value :=
  match v with
  | .bytes b => .ok (.bytes (b.extract (32 * i) (32 * i + 32)))
  | .list xs => .ok (.list ((xs.drop (32 * i)).take 32))
  | _ => .error .wrongType

/-- The whole number of a value that is to be written with `bits` bits. A number with a point that
would fit into them has no bytes of its own. -/
def wholeFor? (bits : Nat) (v : Value) : Except Fault Int :=
  match v.number? with
  | some (.whole n) => .ok n
  | some (.real x) =>
    if x.isNegative then .error (.negativeNumber bits (.real x))
    else if x.reaches bits then .error (.numberTooLarge bits (.real x))
    else .error (.misuse .missingAttribute)
  | none => .error .wrongType

/-- The leaf of a value. -/
def leaf : FieldKind → Value → Except Fault Value
  | uint64, v => do return .bytes (← Chunk.ofUint64? (← wholeFor? 64 v))
  | uint256, v => do return .bytes (← Chunk.ofUint256? (← wholeFor? 256 v))
  | flag, v => .ok (.bytes (Chunk.ofFlag v.isTruthy))
  | chunk, v => .ok v
  | extraData, v => do return .bytes (← extraDataLeaf v)
  | bytes 32, v => v.toVector 32
  | bytes 48, v => do
    let n ← v.length
    if n = 48 then return .bytes (← Chunk.ofPublicKey? (← v.asBytes))
    else .error (.wrongLength 48 n)
  | bytes 256, v => do
    let v ← v.toVector 256
    let pieces ← (List.range 8).mapM fun i => do (← piece v i).toBytes
    return .bytes (← Merkle.rootOfChunks pieces.toArray)
  | bytes n, v => do return .bytes (Bytes.padRight 32 (← (← v.toVector n).asBytes))

/-- The kind that a name stands for. -/
def ofName? : String → Option FieldKind
  | "uint64" => some uint64
  | "uint256" => some uint256
  | "Boolean" => some flag
  | "bytes4" => some (bytes 4)
  | "bytes20" => some (bytes 20)
  | "bytes32" => some (bytes 32)
  | "bytes48" => some (bytes 48)
  | "bytes256" => some (bytes 256)
  | _ => none

/-- The leaf of a value whose kind is given by its name. Text is read as hexadecimal for every
name that starts with `bytes`, before the name is looked up. -/
def leafOfName (v : Value) (name : String) : Except Fault Value := do
  let v ← match v with
    | .text s =>
      if name.startsWith "bytes" then match Hex.decodeMarked? s with
        | some b => .ok (Value.bytes b)
        | none => .error (.misuse .value)
      else .ok v
    | v => .ok v
  match ofName? name with
  | some kind => kind.leaf v
  | none => .error (.unsupportedType name)

end FieldKind

end BeaconBranch
