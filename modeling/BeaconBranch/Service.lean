import BeaconBranch.Pod.Credentials
import BeaconBranch.Proof.Source
import BeaconBranch.Remote.BeaconNode
import BeaconBranch.Remote.ExecutionNode
import BeaconBranch.Remote.ProverNode
import BeaconBranch.Settings

/-!
The proof service. A request fetches the finalized header, the state and the validators' records,
composes the proofs and checks each of them against its root: it ends with a consistent document
or with a fault. All requests of a service share one session.
-/

namespace BeaconBranch.Service

open Exchange

/-- The state and the block that every request is about. -/
def finalized : String := "finalized"

/-- A time budget: the seconds it has, and what the clock showed when it started. -/
structure Deadline where
  seconds : Number
  started : Rat

/-- Starts a time budget. -/
def Deadline.start (seconds : Number) : Exchange Deadline := return ⟨seconds, ← readClock⟩

/-- The seconds left of a time budget, of which there have to be some. -/
def Deadline.remaining (d : Deadline) : Exchange Number := do
  let elapsed := (← readClock) - d.started
  if d.seconds.exceeds elapsed then return d.seconds.minus elapsed else fail (.timedOut d.seconds)

/-- The beacon node of the settings. -/
def beaconNode (s : Settings) : Exchange BeaconNode := do
  BeaconNode.at? (some (← s.requireBeaconUrl?)) none (.whole 60)

/-- The prover of the settings: one of its own, or the beacon node. -/
def proverNode (s : Settings) : Except Fault ProverNode :=
  ProverNode.at? ((Settings.nonEmpty? s.proverUrl?).orElse fun _ => s.beaconUrl?) (.whole 60)

/-- The execution node of the settings, if they name one. -/
def executionNode? (s : Settings) : Option ExecutionNode :=
  (Settings.nonEmpty? s.executionUrl?).map ExecutionNode.mk

/-- Finds the network: that of the settings, or that of the execution node, or the main one. -/
def findNetwork (s : Settings) : Exchange Network :=
  if (Settings.nonEmpty? s.network?).isSome then lift s.networkOrMain?
  else match executionNode? s with
    | none => return Network.mainnet
    | some node => do
      match ← attempt node.network with
      | .ok network => return network
      | .error f =>
        if f.kind = .execution ∨ f.kind = .unsupportedNetwork then return Network.mainnet
        else fail f

/-- The network of a service, which is found once. -/
def network (s : Settings) : Exchange Network := do
  match (← session).network? with
  | some n => return n
  | none =>
    let n ← findNetwork s
    update fun state => { state with network? := some n }
    return n

/-- Asks the execution node, if there is one, whether it knows the block root. A node that cannot
tell is passed over. -/
def checkOracle (s : Settings) (timestamp : Int) (blockRoot : ByteArray) : Exchange Unit := do
  if (executionNode? s).isNone then return
  match ← attempt (ExecutionNode.confirms timestamp blockRoot) with
  | .ok true => return
  | .ok false => fail .oracleDiffers
  | .error f => if f.kind = .execution then return else fail f

/-- The slot of a header. -/
def slotOf? (header : Record) : Except Fault Int := (header.get "slot").toInt

/-- Anchors a request: the finalized header, and the proof of its state root. -/
def anchor (s : Settings) (deadline : Deadline) : Exchange (Record × Anchor) := do
  let node ← beaconNode s
  let header ← node.blockHeader finalized (some (← deadline.remaining))
  let blockRoot ← node.blockRoot finalized (some (← deadline.remaining))
  let root ← header.root?
  if root != blockRoot then fail (.blockRootDiffers root blockRoot)
  let genesisTime := (← network s).genesisTime
  let timestamp := slotStart (← slotOf? header) genesisTime
  checkOracle s timestamp blockRoot
  let proof ← StateRootProof.ofHeader? header
  if !proof.holds blockRoot then fail .stateRootUnproven
  return (header, ⟨timestamp, blockRoot, proof⟩)

/-- Fetches the state and builds its trees. The root has to be the one that was proven. -/
def composer (s : Settings) (stateRoot : ByteArray) (deadline : Deadline) : Exchange Composer := do
  let node ← beaconNode s
  let data ← node.stateBytes finalized (some (← deadline.remaining))
  let c ← Composer.ofSnapshot? (← Snapshot.decode? data)
  if c.stateRoot != stateRoot then fail (.stateRootDiffers c.stateRoot stateRoot)
  return c

/-- The record of a validator among descriptions: the last one with its index. -/
def describedAs? (index : Int) (descriptions : List (Int × Value)) : Option Value :=
  descriptions.reverse.lookup index

/-- The descriptions in a reply, each with the index it names. -/
def byIndex? (reply : Value) : Except Fault (List (Int × Value)) := do
  (← reply.items?).mapM fun d => do return (← (← d.atKey? "index").whole?, d)

/-- The text of a list of indices. -/
def showIndices (indices : List Int) : String := (Value.list (indices.map .int)).display

/-- The descriptions of the given validators, all of which have to be there. -/
def descriptions (s : Settings) (indices : List Int) (deadline : Deadline) :
    Exchange (List (Int × Value)) := do
  let node ← beaconNode s
  let reply ← node.validators finalized indices (some (← deadline.remaining))
  let found ← byIndex? reply
  let missing := indices.filter fun i => (describedAs? i found).isNone
  if !missing.isEmpty then fail (.validatorsMissing (showIndices missing))
  return found

/-- Indices to prove: at least one, and none of them negative. -/
def checkIndices (indices : List Int) : Except Fault Unit :=
  if indices.isEmpty then .error .noIndices
  else if indices.any (· < 0) then .error (.negativeIndices (showIndices indices))
  else .ok ()

/-- The proofs of validators under a state root, from a prover or from the whole state. -/
def validatorProofs (s : Settings) (stateRoot : ByteArray) (deadline : Deadline)
    (validators : List (Int × Record)) : Exchange (List ValidatorProof) := do
  if s.useProver then
    let prover ← proverNode s
    validators.mapM fun (index, validator) =>
      fetchValidatorProof (some deadline.remaining) (prover.validatorProof finalized (toString index))
        index validator
  else
    let c ← composer s stateRoot deadline
    let shown (index : Int) : Option Record := validators.lookup index
    proveMany? (fun index => c.validatorProof? index (shown index)) (validators.map (·.1)) s.maxWorkers

/-- Every validator has to stand under the state root. -/
def checkValidators (stateRoot : ByteArray) (proofs : List ValidatorProof)
    (validators : List Record) : Except Fault Unit :=
  (proofs.zip validators).forM fun (proof, validator) => do
    if !(← proof.holds? validator stateRoot) then throw (.validatorUnproven proof.index)

/-- Proves the withdrawal credentials of validators. -/
def credentialProof (s : Settings) (indices : List Int) : Exchange CredentialProof := do
  checkIndices indices
  let deadline ← Deadline.start s.credentialsTimeout
  let (_, anchor) ← anchor s deadline
  let found ← descriptions s indices deadline
  let validators ← indices.mapM fun i =>
    BeaconNode.validatorIn? ((describedAs? i found).getD .null)
  let stateRoot := anchor.stateRootProof.stateRoot
  let proofs ← validatorProofs s stateRoot deadline (indices.zip validators)
  checkValidators stateRoot proofs validators
  return ⟨anchor, indices, proofs⟩

/-- Every balance has to stand under the balances root. -/
def checkBalances (balancesRoot : ByteArray) (indices : List Int) (proofs : List BalanceProof) :
    Except Fault Unit :=
  (indices.zip proofs).forM fun (index, proof) =>
    if proof.holds index balancesRoot then .ok () else .error (.balanceUnproven index)

/-- Proves the balances of validators; the whole state is read for it. -/
def checkpointProof (s : Settings) (indices : List Int) : Exchange CheckpointProof := do
  checkIndices indices
  let deadline ← Deadline.start s.checkpointTimeout
  let (_, anchor) ← anchor s deadline
  let c ← composer s anchor.stateRootProof.stateRoot deadline
  let container ← c.balanceContainerProof?
  if !container.holds c.stateRoot then fail .containerUnproven
  let balances ← proveMany? c.balanceProof? indices s.maxWorkers
  checkBalances c.balancesRoot indices balances
  return ⟨anchor, container, balances⟩

/-- Proves a validator and tells its current balance. -/
def staleBalanceProof (s : Settings) (index : Int) : Exchange StaleBalanceProof := do
  checkIndices [index]
  let deadline ← Deadline.start s.staleBalanceTimeout
  let (_, anchor) ← anchor s deadline
  let node ← beaconNode s
  let description ← node.validator finalized (toString index) (some (← deadline.remaining))
  let validator ← BeaconNode.validatorIn? description
  let stateRoot := anchor.stateRootProof.stateRoot
  let proofs ← validatorProofs s stateRoot deadline [(index, validator)]
  checkValidators stateRoot proofs [validator]
  let balance ← (← description.atKey? "balance").whole?
  match proofs with
  | proof :: _ => return ⟨anchor, proof, validator.get "slashed", balance⟩
  | [] => fail (.validatorUnproven index)

end BeaconBranch.Service
