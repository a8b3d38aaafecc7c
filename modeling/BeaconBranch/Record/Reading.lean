import BeaconBranch.Record.Beacon
import BeaconBranch.Text.MarkedHex
import BeaconBranch.Text.SnakeCase

/-!
Reading records from JSON objects. Keys come in camel case or snake case. A text with the marker
`0x` is bytes or a hexadecimal number, as the field's name tells, and any other text is a decimal
number; other values stay as they are. Keys that are no fields are left out at the end, after
their values were read.
-/

namespace BeaconBranch.Record

/-- Fields whose marked text is a byte string. -/
def byteFields : List String :=
  ["pubkey", "withdrawal_credentials", "genesis_validators_root", "parent_root", "state_root",
    "body_root", "deposit_root", "block_hash", "previous_version", "current_version", "root"]

/-- Fields whose marked text is a number. -/
def numberFields : List String :=
  ["slot", "proposer_index", "effective_balance", "activation_eligibility_epoch",
    "activation_epoch", "exit_epoch", "withdrawable_epoch", "epoch", "deposit_count"]

/-- The field that a key means. -/
def fieldName (key : String) : String :=
  let name := SnakeCase.ofCamel key
  if name = "parent_block_root" then "parent_root" else name

/-- The value that a marked text means in a field; nothing in a field of another kind. -/
def readMarked? (name s : String) (cs : List Char) : Except Fault (Option Value) := do
  let ds ← Hex.wholeDigits? s cs
  if byteFields.contains name then
    match Hex.decodeChars? ds ByteArray.empty with
    | some b => return some (.bytes b)
    | none => throw (.misuse .value)
  else if numberFields.contains name then
    match Hex.toNat? ds with
    | some n => return some (.int n)
    | none => throw (.misuse .value)
  else return none

/-- The value that a JSON value means in a field. -/
def readValue? (name : String) (v : Value) : Except Fault (Option Value) :=
  match v with
  | .text s =>
    match Hex.markedDigits? s with
    | some cs => readMarked? name s cs
    | none =>
      match Decimal.toInt? s with
      | some n => .ok (some (.int n))
      | none => .error (.misuse .value)
  | v => .ok (some v)

/-- Reads entries one after another; a field that comes again is replaced. -/
def readEntries? (entries : List (String × Value)) : Except Fault (List (String × Value)) :=
  entries.foldlM (fun acc (key, v) => do
    let name := fieldName key
    return match ← readValue? name v with
      | some w => Value.put name w acc
      | none => acc) []

/-- The entries of an object; `what` names what it should have been. -/
def entriesOf? (what : String) : Value → Except Fault (List (String × Value))
  | .object es => .ok es
  | v => .error (.notAnObject what v.kindName)

/-- Reads a record from a JSON object. -/
def ofJson? (s : Schema) (v : Value) : Except Fault Record := do
  let read ← readEntries? (← entriesOf? s.name v)
  s.build? (read.filter fun (name, _) => s.fields.any (·.name == name))

end BeaconBranch.Record
