import BeaconBranch.State.SectionRoot
import BeaconBranch.State.Sections

/-!
Decoded states. A snapshot holds the fields that proofs read as values, and the bytes of all
others, so that its root can always be computed again. Each field is hashed from its value where
it has one, and from its bytes otherwise.
-/

namespace BeaconBranch

/-- A decoded state. -/
structure Snapshot where
  genesisTime : Int
  genesisValidatorsRoot : ByteArray
  slot : Int
  fork : Record
  latestBlockHeader : Record
  validators : Array Record
  balances : List Int
  blockRoots : Array ByteArray
  stateRoots : Array ByteArray
  eth1Data? : Option Record
  eth1DepositIndex : Int
  payloadHeader? : Option Record
  /-- The bytes of the fields that have no value here. -/
  sections : State.Sections

namespace Snapshot

open State

/-- The fields that are read as values. -/
def typedFields : List String :=
  ["genesis_time", "genesis_validators_root", "slot", "fork", "latest_block_header", "block_roots",
    "state_roots", "eth1_data", "eth1_deposit_index", "validators", "balances",
    "latest_execution_payload_header"]

/-- Reads a state. -/
def decode? (data : ByteArray) : Except Fault Snapshot := do
  let all ← sections? data
  let validators := all.get "validators"
  if validators.size % Limits.validatorRecordSize ≠ 0 then
    throw (.notWholeRecords "validators" validators.size Limits.validatorRecordSize)
  let balances := all.get "balances"
  if balances.size % 8 ≠ 0 then throw (.notWholeRecords "balances" balances.size 8)
  return {
    genesisTime := Bytes.toNatLE (all.get "genesis_time")
    genesisValidatorsRoot := all.get "genesis_validators_root"
    slot := Bytes.toNatLE (all.get "slot")
    fork := ← Schema.fork.decode? (all.get "fork")
    latestBlockHeader := ← Schema.blockHeader.decode? (all.get "latest_block_header")
    validators := ← decodeValidators? validators
    balances := ← decodeBalances? balances
    blockRoots := Bytes.chunks 32 (all.get "block_roots")
    stateRoots := Bytes.chunks 32 (all.get "state_roots")
    eth1Data? := some (← Schema.eth1Data.decode? (all.get "eth1_data"))
    eth1DepositIndex := Bytes.toNatLE (all.get "eth1_deposit_index")
    payloadHeader? :=
      some (← Schema.payloadHeader.decode? (all.get "latest_execution_payload_header"))
    sections := all.filter fun (name, _) => !typedFields.contains name }

/-- The roots of the validators. -/
def validatorRoots? (s : Snapshot) : Except Fault (List ByteArray) :=
  s.validators.toList.mapM Record.root?

/-- The root of the validators' list. -/
def validatorsRoot? (s : Snapshot) : Except Fault ByteArray := do
  Chunk.validatorsRoot? (← s.validatorRoots?)

/-- The root of the balances' list. -/
def balancesRoot? (s : Snapshot) : Except Fault ByteArray := Chunk.balancesRoot? s.balances

/-- A validator of the state. -/
def validator? (s : Snapshot) (index : Int) : Except Fault Record :=
  if index < 0 then .error (.indexOutOfRange "validator" index s.validators.size)
  else match s.validators[index.toNat]? with
    | some v => .ok v
    | none => .error (.indexOutOfRange "validator" index s.validators.size)

/-- The balance of a validator. -/
def balance? (s : Snapshot) (index : Int) : Except Fault Int :=
  if index < 0 then .error (.indexOutOfRange "balance" index s.balances.length)
  else match s.balances[index.toNat]? with
    | some b => .ok b
    | none => .error (.indexOutOfRange "balance" index s.balances.length)

/-- The root of a field that is hashed from its value; nothing for the others. -/
def typedRoot? (s : Snapshot) : String → Option (Except Fault ByteArray)
  | "genesis_time" => some (Chunk.ofUint64? s.genesisTime)
  | "genesis_validators_root" => some (Chunk.encodeBytes? s.genesisValidatorsRoot 32)
  | "slot" => some (Chunk.ofUint64? s.slot)
  | "fork" => some s.fork.root?
  | "latest_block_header" => some s.latestBlockHeader.root?
  | "block_roots" => vectorRoot? s.blockRoots
  | "state_roots" => vectorRoot? s.stateRoots
  | "eth1_data" => s.eth1Data?.map Record.root?
  | "eth1_deposit_index" => some (Chunk.ofUint64? s.eth1DepositIndex)
  | "validators" => some s.validatorsRoot?
  | "balances" => some s.balancesRoot?
  | "latest_execution_payload_header" => s.payloadHeader?.map Record.root?
  | _ => none
where
  /-- The root of a vector of past roots; none is hashed as if it were missing. -/
  vectorRoot? (roots : Array ByteArray) : Option (Except Fault ByteArray) :=
    if roots.isEmpty then none
    else some (Merkle.vectorRoot? roots Limits.slotsPerHistoricalRoot)

/-- Roots that are known beforehand, by field. -/
abbrev KnownRoots := List (Int × ByteArray)

/-- The root of a field. -/
def fieldRoot? (s : Snapshot) (f : SectionField) : Except Fault ByteArray :=
  match s.typedRoot? f.name with
  | some root => root
  | none => f.root? ((s.sections.lookup f.name).getD f.absent)

/-- The roots of all fields, in order; a root that is known is not computed. -/
def fieldRoots? (s : Snapshot) (known : KnownRoots) : Except Fault (List ByteArray) :=
  fields.zipIdx.mapM fun (f, i) =>
    match known.lookup (i : Int) with
    | some root => .ok root
    | none => s.fieldRoot? f

/-- The tree over the roots of the fields. -/
def tree? (s : Snapshot) (known : KnownRoots) : Except Fault Merkle.DenseTree := do
  Merkle.DenseTree.ofLeaves? (← s.fieldRoots? known).toArray Limits.stateTreeDepth

/-- The root of the state. -/
def root? (s : Snapshot) : Except Fault ByteArray := do return (← s.tree? []).root

/-- A field of the state has a number below 28. -/
def checkField (index : Int) : Except Fault Unit :=
  if index < 0 ∨ Limits.stateFieldCount ≤ index then
    .error (.indexOutOfRange "state field" index Limits.stateFieldCount)
  else .ok ()

/-- The branch of a field under the state root. -/
def fieldBranch? (s : Snapshot) (index : Int) (known : KnownRoots) :
    Except Fault (List ByteArray) := do
  checkField index
  (← s.tree? known).branch? index

/-- The second that the latest payload names. -/
def timestamp? (s : Snapshot) : Option Value := s.payloadHeader?.map (·.get "timestamp")

end Snapshot

end BeaconBranch
