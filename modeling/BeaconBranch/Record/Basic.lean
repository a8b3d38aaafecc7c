import BeaconBranch.Limits
import BeaconBranch.Record.Kind

/-!
Records. A schema names a record's fields and their kinds, and everything else follows from it:
the bytes of a record are those of its fields side by side, its leaves are the fields' leaves, and
its root is the root of the smallest tree over them. A record may come from outside with values
that do not fit their kinds; this shows when its leaves are asked for.
-/

namespace BeaconBranch

/-- A field of a schema; a field with a default may be left out. -/
structure Field where
  name : String
  kind : FieldKind
  default? : Option Value := none

/-- The fields of a record, in order. -/
structure Schema where
  name : String
  fields : List Field

/-- A record: one value for each field of its schema. -/
structure Record where
  schema : Schema
  values : List Value

namespace FieldKind

/-- Bytes that a field takes in the fixed part of its record. -/
def width : FieldKind → Nat
  | uint64 => 8
  | uint256 => 32
  | flag => 1
  | bytes n => n
  | chunk => 32
  | extraData => 4

/-- Reads the value of a field that stands at an offset of its record. -/
def read? (data : ByteArray) (offset : Nat) : FieldKind → Except Fault Value
  | uint64 => do return .int (← Chunk.readUint64? data offset)
  | uint256 => do return .int (Bytes.toNatLE (← Chunk.readBytes? data offset 32))
  | flag => do return .flag (← Chunk.readFlag? data offset)
  | bytes n => do return .bytes (← Chunk.readBytes? data offset n)
  | chunk => do return .bytes (← Chunk.readBytes? data offset 32)
  | extraData => do
    let start ← Chunk.readUint32? data offset
    return .bytes (data.extract start data.size)

end FieldKind

namespace Schema

/-- Bytes of the fixed part of a record. -/
def size (s : Schema) : Nat := s.fields.foldr (fun f n => f.kind.width + n) 0

/-- The offset of each field in the fixed part, from `start` on. -/
def placesFrom (start : Nat) : List Field → List (Nat × Field)
  | [] => []
  | f :: rest => (start, f) :: placesFrom (start + f.kind.width) rest

/-- The offset of each field in the fixed part. -/
def places (s : Schema) : List (Nat × Field) := placesFrom 0 s.fields

/-- The offset of the word that tells where a record's extra data starts. -/
def extraDataPlace? (s : Schema) : Option Nat :=
  (s.places.find? fun p => p.2.kind == .extraData).map (·.1)

/-- A record has the size of its schema. One with extra data has at least that size: the extra
data starts right behind the fixed part and has at most 32 bytes. -/
def checkSize (s : Schema) (data : ByteArray) : Except Fault Unit :=
  match s.extraDataPlace? with
  | none => if data.size = s.size then .ok () else .error (.wrongRecordSize s.name s.size data.size)
  | some place =>
    if data.size < s.size then .error (.payloadTooShort data.size)
    else do
      let start ← Chunk.readUint32? data place
      if start ≠ s.size then .error (.payloadOffset start)
      else if Limits.extraData < data.size - start then .error (.extraDataTooLong (data.size - start))
      else .ok ()

/-- Reads a record. -/
def decode? (s : Schema) (data : ByteArray) : Except Fault Record := do
  s.checkSize data
  return ⟨s, ← s.places.mapM fun (offset, f) => f.kind.read? data offset⟩

/-- The value of a field among named values. -/
def valueOf? (entries : List (String × Value)) (f : Field) : Except Fault Value :=
  match Value.lookup f.name entries, f.default? with
  | some v, _ => .ok v
  | none, some v => .ok v
  | none, none => .error .wrongType

/-- The record with named values. A name that is no field is refused, and so is a field without
value. -/
def build? (s : Schema) (entries : List (String × Value)) : Except Fault Record :=
  if entries.any fun (name, _) => !(s.fields.any (·.name == name)) then .error .wrongType
  else do return ⟨s, ← s.fields.mapM (valueOf? entries)⟩

/-- Cuts a list section into records of a fixed width. -/
def cut? (data : ByteArray) (width : Int) (what : String) : Except Fault (Array ByteArray) :=
  if width = 0 then .error (.misuse .zeroDivision)
  else if (data.size : Int) % width ≠ 0 then .error (.notWholeRecords what data.size width)
  else .ok (Bytes.chunks width.toNat data)

/-- Reads a list section of records. -/
def decodeAll? (s : Schema) (what : String) (data : ByteArray) : Except Fault (Array Record) := do
  (← cut? data s.size what).mapM s.decode?

end Schema

namespace Record

/-- The value of a named field. -/
def get (r : Record) (name : String) : Value :=
  (Value.lookup name ((r.schema.fields.map (·.name)).zip r.values)).getD .null

/-- The leaves of the fields. -/
def leaves? (r : Record) : Except Fault (List Value) :=
  (r.schema.fields.zip r.values).mapM fun (f, v) => f.kind.leaf v

/-- The tree over the leaves. -/
def tree? (r : Record) : Except Fault Merkle.DenseTree := do
  let leaves ← (← r.leaves?).mapM Value.toBytes
  Merkle.DenseTree.ofLeaves? leaves.toArray 0

/-- The root of a record. -/
def root? (r : Record) : Except Fault ByteArray := do return (← r.tree?).root

/-- The branch of a field under the root of its record. -/
def branch? (r : Record) (index : Int) : Except Fault (List ByteArray) := do
  (← r.tree?).branch? index

/-- A value as it stands in a document: bytes as marked hexadecimal text. -/
def showValue : Value → Value
  | .bytes b => .text (Hex.marked b)
  | v => v

/-- The fields by name, bytes as marked hexadecimal text. -/
def toEntries (r : Record) : List (String × Value) :=
  (r.schema.fields.map (·.name)).zip (r.values.map showValue)

/-- A record as a document. -/
def toValue (r : Record) : Value := .object r.toEntries

end Record

end BeaconBranch
