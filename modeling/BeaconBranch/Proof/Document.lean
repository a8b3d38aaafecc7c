import BeaconBranch.Merkle.Branch
import BeaconBranch.Record.Beacon
import BeaconBranch.Registry.Address

/-!
Proofs as documents. Each kind of proof carries what it proves and the branch that proves it, and
is rendered with marked hexadecimal text under camel-case names. A check walks the branch at the
place where the proven node has to stand.
-/

namespace BeaconBranch

/-- The state root under a block root. -/
structure StateRootProof where
  stateRoot : ByteArray
  branch : List ByteArray

/-- The shown leaves of a validator, and the branch of its root under the state root. -/
structure ValidatorProof where
  index : Int
  leaves : List Value
  branch : List ByteArray

/-- The balances root under the state root. -/
structure BalanceContainerProof where
  balancesRoot : ByteArray
  branch : List ByteArray

/-- The chunk of a validator's balance under the balances root. -/
structure BalanceProof where
  publicKeyDigest : ByteArray
  chunk : ByteArray
  branch : List ByteArray

/-- What anchors a proof to a block: the second of its slot, its root, and its state root. -/
structure Anchor where
  timestamp : Int
  blockRoot : ByteArray
  stateRootProof : StateRootProof

/-- Withdrawal credentials of validators. -/
structure CredentialProof where
  anchor : Anchor
  indices : List Int
  validators : List ValidatorProof

/-- Balances of validators at a checkpoint. -/
structure CheckpointProof where
  anchor : Anchor
  container : BalanceContainerProof
  balances : List BalanceProof

/-- A validator with its current balance, to show that the balance on record is stale. -/
structure StaleBalanceProof where
  anchor : Anchor
  validator : ValidatorProof
  slashed : Value
  balance : Int

namespace Document

/-- Bytes as marked hexadecimal text. -/
def hex (b : ByteArray) : Value := .text (Hex.marked b)

/-- Byte strings as marked hexadecimal texts. -/
def hexList (bs : List ByteArray) : Value := .list (bs.map hex)

/-- A leaf as marked hexadecimal text; a leaf that is no byte string has none. -/
def leafHex? : Value → Except Fault Value
  | .bytes b => .ok (hex b)
  | _ => .error (.misuse .missingAttribute)

end Document

open Document

/-- The proof as a document. -/
def StateRootProof.toValue (p : StateRootProof) : Value :=
  .object [("beaconStateRoot", hex p.stateRoot), ("proof", hexList p.branch)]

/-- The proof as a document. -/
def ValidatorProof.toValue? (p : ValidatorProof) : Except Fault Value := do
  return .object [("validatorIndex", .int p.index),
    ("validatorFields", .list (← p.leaves.mapM leafHex?)), ("proof", hexList p.branch)]

/-- The proof as a document. -/
def BalanceContainerProof.toValue (p : BalanceContainerProof) : Value :=
  .object [("balanceContainerRoot", hex p.balancesRoot), ("proof", hexList p.branch)]

/-- The proof as a document. -/
def BalanceProof.toValue (p : BalanceProof) : Value :=
  .object [("pubkeyHash", hex p.publicKeyDigest), ("balanceRoot", hex p.chunk),
    ("proof", hexList p.branch)]

/-- The entries with which every anchored document starts. -/
def Anchor.toEntries (a : Anchor) : List (String × Value) :=
  [("beaconTimestamp", .int a.timestamp), ("beaconBlockRoot", hex a.blockRoot),
    ("stateRootProof", a.stateRootProof.toValue)]

/-- The proof as a document. -/
def CredentialProof.toValue? (p : CredentialProof) : Except Fault Value := do
  return .object (p.anchor.toEntries ++ [("validatorIndices", .list (p.indices.map .int)),
    ("validatorProofs", .list (← p.validators.mapM ValidatorProof.toValue?))])

/-- The proof as a document. -/
def CheckpointProof.toValue (p : CheckpointProof) : Value :=
  .object (p.anchor.toEntries ++ [("balanceContainerProof", p.container.toValue),
    ("balanceProofs", .list (p.balances.map BalanceProof.toValue))])

/-- The proof as a document. -/
def StaleBalanceProof.toValue? (p : StaleBalanceProof) : Except Fault Value := do
  return .object (p.anchor.toEntries ++ [("validatorProof", ← p.validator.toValue?),
    ("validatorSlashed", p.slashed), ("currentBalanceGwei", .int p.balance)])

/-- Whether the state root stands in the header of a block root. -/
def StateRootProof.holds (p : StateRootProof) (blockRoot : ByteArray) : Bool :=
  Merkle.proves p.stateRoot p.branch Limits.headerStateRootField blockRoot

/-- Whether a validator record stands at the proof's index under a state root. -/
def ValidatorProof.holds? (p : ValidatorProof) (validator : Record) (stateRoot : ByteArray) :
    Except Fault Bool := do
  let root ← validator.root?
  return Merkle.proves root p.branch (← Registry.validatorPosition? p.index) stateRoot

/-- Whether the balances root stands in a state. -/
def BalanceContainerProof.holds (p : BalanceContainerProof) (stateRoot : ByteArray) : Bool :=
  Merkle.proves p.balancesRoot p.branch Limits.balancesField stateRoot

/-- Whether the chunk of a validator's balance stands under a balances root. -/
def BalanceProof.holds (p : BalanceProof) (index : Int) (balancesRoot : ByteArray) : Bool :=
  Merkle.proves p.chunk p.branch (index / (Limits.balancesPerChunk : Int)) balancesRoot

/-- The proof of the state root in a block header. A state root that is no byte string cannot be
proven. -/
def StateRootProof.ofHeader? (header : Record) : Except Fault StateRootProof := do
  let branch ← header.stateRootBranch?
  match header.get "state_root" with
  | .bytes b => return ⟨b, branch⟩
  | _ => throw .stateRootUnproven

end BeaconBranch
