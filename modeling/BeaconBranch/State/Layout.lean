import BeaconBranch.Record.Beacon

/-!
The layout of the beacon state: 28 fields in order. A field of fixed size stands in the fixed part
of the buffer; a field of variable size leaves a 4-byte offset there, and its bytes stand behind
the fixed part. The kind of a field tells its size and how its bytes are hashed.
-/

namespace BeaconBranch.State

/-- The kind of a state field. -/
inductive SectionKind
  | uint64
  | root
  | record (schema : Schema)
  /-- A vector of chunks. -/
  | chunkVector (count : Nat)
  /-- A vector of 64-bit numbers. -/
  | uint64Vector (count : Nat)
  /-- A few bits in one byte. -/
  | bits
  | syncCommittee
  | chunkList (limit : Nat)
  | recordList (schema : Schema) (limit : Nat)
  | validators
  | balances
  | byteList (limit : Nat)
  | uint64List (limit : Nat)
  /-- A payload header; without bytes it is the zero one. -/
  | payloadHeader
  /-- Records whose root is the digest of their bytes. -/
  | digestList (schema : Schema) (limit : Nat)

namespace SectionKind

/-- The bytes of a field of fixed size. -/
def size? : SectionKind → Option Nat
  | uint64 => some 8
  | root => some 32
  | record s => some s.size
  | chunkVector n => some (n * 32)
  | uint64Vector n => some (n * 8)
  | bits => some 1
  | syncCommittee => some (Limits.syncCommitteeSize * 48 + 48)
  | _ => none

end SectionKind

/-- A field of the state. -/
structure SectionField where
  name : String
  kind : SectionKind

namespace SectionField

/-- The bytes of a field, if they are always as many. -/
def size? (f : SectionField) : Option Nat := f.kind.size?

/-- Whether a field leaves an offset in the fixed part. -/
def isVariable (f : SectionField) : Bool := f.size?.isNone

/-- Bytes that a field takes in the fixed part. -/
def width (f : SectionField) : Nat := f.size?.getD Limits.offsetSize

/-- The bytes of a field that is missing: zeros, or none if its size varies. -/
def absent (f : SectionField) : ByteArray := Bytes.zeros (f.size?.getD 0)

end SectionField

/-- The fields of the state, in order. -/
def fields : List SectionField := [
  ⟨"genesis_time", .uint64⟩,
  ⟨"genesis_validators_root", .root⟩,
  ⟨"slot", .uint64⟩,
  ⟨"fork", .record .fork⟩,
  ⟨"latest_block_header", .record .blockHeader⟩,
  ⟨"block_roots", .chunkVector Limits.slotsPerHistoricalRoot⟩,
  ⟨"state_roots", .chunkVector Limits.slotsPerHistoricalRoot⟩,
  ⟨"historical_roots", .chunkList Limits.historicalRoots⟩,
  ⟨"eth1_data", .record .eth1Data⟩,
  ⟨"eth1_data_votes", .recordList .eth1Data Limits.eth1DataVotes⟩,
  ⟨"eth1_deposit_index", .uint64⟩,
  ⟨"validators", .validators⟩,
  ⟨"balances", .balances⟩,
  ⟨"randao_mixes", .chunkVector Limits.epochsPerHistoricalVector⟩,
  ⟨"slashings", .uint64Vector Limits.epochsPerSlashingsVector⟩,
  ⟨"previous_epoch_participation", .byteList Limits.validatorRegistry⟩,
  ⟨"current_epoch_participation", .byteList Limits.validatorRegistry⟩,
  ⟨"justification_bits", .bits⟩,
  ⟨"previous_justified_checkpoint", .record .checkpoint⟩,
  ⟨"current_justified_checkpoint", .record .checkpoint⟩,
  ⟨"finalized_checkpoint", .record .checkpoint⟩,
  ⟨"inactivity_scores", .uint64List Limits.validatorRegistry⟩,
  ⟨"current_sync_committee", .syncCommittee⟩,
  ⟨"next_sync_committee", .syncCommittee⟩,
  ⟨"latest_execution_payload_header", .payloadHeader⟩,
  ⟨"next_withdrawal_index", .uint64⟩,
  ⟨"next_withdrawal_validator_index", .uint64⟩,
  ⟨"historical_summaries", .digestList .historicalSummary Limits.historicalRoots⟩]

/-- Fields with the positions of their parts in the fixed region, from `start` on. -/
def placesFrom (start : Nat) : List SectionField → List (Nat × SectionField)
  | [] => []
  | f :: rest => (start, f) :: placesFrom (start + f.width) rest

/-- Each field with the position of its part in the fixed region. -/
def places : List (Nat × SectionField) := placesFrom 0 fields

/-- Bytes of the fixed region. -/
def fixedRegionSize : Nat := fields.foldr (fun f n => f.width + n) 0

/-- The fields of variable size. -/
def variableFields : List SectionField := fields.filter (·.isVariable)

/-- The size that the messages about short states name. -/
example : fixedRegionSize = 2736653 := by decide +kernel

end BeaconBranch.State
