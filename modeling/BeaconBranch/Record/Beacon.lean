import BeaconBranch.Record.Basic

/-!
The records of the beacon chain that proofs touch, and what is asked of single ones: the branch
of the state root in a block header, and the two digests of a validator's public key.
-/

namespace BeaconBranch

namespace Schema

/-- The fork a state belongs to. -/
def fork : Schema :=
  ⟨"Fork", [⟨"previous_version", .bytes 4, none⟩, ⟨"current_version", .bytes 4, none⟩,
    ⟨"epoch", .uint64, none⟩]⟩

example : fork.places.map (·.1) = [0, 4, 8] ∧ fork.size = 16 := by decide

/-- The header of a block; its root is the block root. -/
def blockHeader : Schema :=
  ⟨"BeaconBlockHeader", [⟨"slot", .uint64, none⟩, ⟨"proposer_index", .uint64, none⟩,
    ⟨"parent_root", .bytes 32, none⟩, ⟨"state_root", .bytes 32, none⟩,
    ⟨"body_root", .bytes 32, none⟩]⟩

example : blockHeader.places.map (·.1) = [0, 8, 16, 48, 80] ∧ blockHeader.size = 112 := by decide

/-- An epoch and the root of its block. -/
def checkpoint : Schema :=
  ⟨"Checkpoint", [⟨"epoch", .uint64, none⟩, ⟨"root", .bytes 32, none⟩]⟩

example : checkpoint.places.map (·.1) = [0, 8] ∧ checkpoint.size = 40 := by decide

/-- What a block tells about the deposit contract. -/
def eth1Data : Schema :=
  ⟨"Eth1Data", [⟨"deposit_root", .bytes 32, none⟩, ⟨"deposit_count", .uint64, none⟩,
    ⟨"block_hash", .bytes 32, none⟩]⟩

example : eth1Data.places.map (·.1) = [0, 32, 40] ∧ eth1Data.size = 72 := by decide

/-- The roots of a batch of past blocks and states. -/
def historicalSummary : Schema :=
  ⟨"HistoricalSummary", [⟨"block_summary_root", .chunk, none⟩,
    ⟨"state_summary_root", .chunk, none⟩]⟩

example : historicalSummary.places.map (·.1) = [0, 32] ∧ historicalSummary.size = 64 := by decide

/-- A validator. -/
def validator : Schema :=
  ⟨"Validator", [⟨"pubkey", .bytes 48, none⟩, ⟨"withdrawal_credentials", .bytes 32, none⟩,
    ⟨"effective_balance", .uint64, none⟩, ⟨"slashed", .flag, none⟩,
    ⟨"activation_eligibility_epoch", .uint64, none⟩, ⟨"activation_epoch", .uint64, none⟩,
    ⟨"exit_epoch", .uint64, none⟩, ⟨"withdrawable_epoch", .uint64, none⟩]⟩

example : validator.places.map (·.1) = [0, 48, 80, 88, 89, 97, 105, 113] ∧
    validator.size = 121 := by decide

/-- The header of an execution payload. -/
def payloadHeader : Schema :=
  ⟨"ExecutionPayloadHeader", [⟨"parent_hash", .bytes 32, none⟩, ⟨"fee_recipient", .bytes 20, none⟩,
    ⟨"state_root", .bytes 32, none⟩, ⟨"receipts_root", .bytes 32, none⟩,
    ⟨"logs_bloom", .bytes 256, none⟩, ⟨"prev_randao", .bytes 32, none⟩,
    ⟨"block_number", .uint64, none⟩, ⟨"gas_limit", .uint64, none⟩, ⟨"gas_used", .uint64, none⟩,
    ⟨"timestamp", .uint64, none⟩, ⟨"extra_data", .extraData, none⟩,
    ⟨"base_fee_per_gas", .uint256, none⟩, ⟨"block_hash", .bytes 32, none⟩,
    ⟨"transactions_root", .bytes 32, none⟩, ⟨"withdrawals_root", .bytes 32, none⟩,
    ⟨"blob_gas_used", .uint64, some (.int 0)⟩, ⟨"excess_blob_gas", .uint64, some (.int 0)⟩]⟩

example : payloadHeader.places.map (·.1) =
    [0, 32, 52, 84, 116, 372, 404, 412, 420, 428, 436, 440, 472, 504, 536, 568, 576] ∧
    payloadHeader.size = 584 := by decide

/-- All schemas. -/
def all : List Schema :=
  [fork, blockHeader, checkpoint, eth1Data, historicalSummary, validator, payloadHeader]

/-- The schema of a name. -/
def ofName? (name : String) : Option Schema := all.find? (·.name == name)

end Schema

namespace FieldKind

/-- The value whose bytes are all zero. -/
def zero : FieldKind → Value
  | uint64 | uint256 => .int 0
  | flag => .flag false
  | bytes n => .bytes (Bytes.zeros n)
  | chunk => .bytes (Bytes.zeros 32)
  | extraData => .bytes ByteArray.empty

end FieldKind

namespace Record

/-- The record whose values are all zero. -/
def zero (s : Schema) : Record := ⟨s, s.fields.map (·.kind.zero)⟩

/-- The branch of the state root under the root of a block header. -/
def stateRootBranch? (header : Record) : Except Fault (List ByteArray) :=
  header.branch? Limits.headerStateRootField

/-- The digest of a validator's public key, all 48 bytes in one. -/
def publicKeyDigest? (validator : Record) : Except Fault ByteArray := do
  return Sha256.digest (← (validator.get "pubkey").asBytes)

/-- The leaves of a validator as they are shown on chain: in place of the public key's leaf stands
its plain digest. -/
def shownLeaves? (validator : Record) : Except Fault (List Value) := do
  let leaves ← validator.leaves?
  return .bytes (← validator.publicKeyDigest?) :: leaves.drop 1

end Record

/-- Reads the section of the validators. -/
def decodeValidators? (data : ByteArray) : Except Fault (Array Record) :=
  Schema.validator.decodeAll? "validators" data

/-- Reads the section of the balances. -/
def decodeBalances? (data : ByteArray) : Except Fault (List Int) := do
  return (← Schema.cut? data 8 "balances").toList.map fun b => (Bytes.toNatLE b : Int)

end BeaconBranch
