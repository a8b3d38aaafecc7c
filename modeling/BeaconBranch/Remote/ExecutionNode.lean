import BeaconBranch.Remote.Body

/-!
Execution nodes: the chain id, which tells the network, and the contract that keeps recent beacon
roots by timestamp.
-/

namespace BeaconBranch

/-- An execution node that can be asked. -/
structure ExecutionNode where
  url : String

namespace ExecutionNode

open Exchange Remote

/-- The node at an address. -/
def at? (url : String) : Except Fault ExecutionNode :=
  if url = "" then .error .executionUrlMissing else .ok ⟨url⟩

/-- The failures of a call that are the node's. -/
def isCallFault (k : FaultKind) : Bool := k == .web3 || k.isTransport || k.isInvalidInput

/-- The value of a reply; a failure of the node is worded by `wrap`. -/
def valueIn? (wrap : String → Fault) : CallReply → Except Fault Value
  | .answered v => .ok v
  | .failed kind text => .error (if isCallFault kind then wrap text else rawFault kind text)

/-- The whole number in a reply. A text that spells none counts as a failure of the node. -/
def wholeIn? (wrap : String → Fault) (r : CallReply) : Except Fault Int := do
  match (← valueIn? wrap r).whole? with
  | .ok n => return n
  | .error f => throw (if isCallFault f.kind then wrap f.text else f)

/-- The chain id; it is asked for until it has been told once. -/
def chainId (n : ExecutionNode) : Exchange Int := do
  match (← session).chainId? with
  | some id => return id
  | none =>
    let reply ← askExecution .chainId
    let id ← wholeIn? (.chainIdFailed n.url) reply
    update fun s => { s with chainId? := some id }
    return id

/-- The network of the chain. -/
def network (n : ExecutionNode) : Exchange Network := do
  let id ← n.chainId
  Network.ofChainId? id

/-- The number of the latest block. -/
def blockNumber : Exchange Int := do
  let reply ← askExecution .blockNumber
  wholeIn? .blockNumberFailed reply

/-- The second of a block. -/
def blockTimestamp (number : Int) : Exchange Int := do
  let reply ← askExecution (.block number)
  let block ← valueIn? (.blockFailed (toString number)) reply
  let timestamp ← block.atKey? "timestamp"
  timestamp.whole?

/-- The contract that keeps recent beacon roots. -/
def rootsContract : String := "0x000F3df6D732807Ef1319fB7B8bB8522d0Beac02"

/-- The question to the contract: the second as 32 bytes, highest first. -/
def rootCall? (timestamp : Int) : Except Fault Call :=
  if timestamp < 0 ∨ twoTo 256 ≤ timestamp then .error (.misuse .overflow)
  else .ok (.contract rootsContract (Hex.marked (Bytes.ofNatBE 32 timestamp.toNat)))

/-- The root in the contract's answer: 32 bytes, not all zero. -/
def rootIn? (timestamp : Int) (answer : Value) : Except Fault ByteArray := do
  let root ← if answer.isTruthy then answer.toBytes else .ok ByteArray.empty
  if root.size == 32 && root != Bytes.zeros 32 then return root
  else throw (.rootNotAvailable timestamp)

/-- The beacon root that the contract keeps for a second. -/
def beaconRoot (timestamp : Int) : Exchange ByteArray := do
  let call ← rootCall? timestamp
  let reply ← askExecution call
  let answer ← valueIn? (.rootQueryFailed timestamp) reply
  rootIn? timestamp answer

/-- Whether the contract keeps the given root for a second. -/
def confirms (timestamp : Int) (root : ByteArray) : Exchange Bool := do
  return (← beaconRoot timestamp) == root

/-- Walks back slot by slot, `n` slots at most, to a second for which the contract keeps a root. -/
def searchBack (lookback : Int) : Nat → Int → Exchange (ByteArray × Int)
  | 0, _ => fail (.noRecentRoot lookback)
  | n + 1, timestamp => do
    match ← attempt (beaconRoot timestamp) with
    | .ok root => return (root, timestamp)
    | .error f =>
      if f.kind = .execution then searchBack lookback n (timestamp - Limits.secondsPerSlot)
      else fail f

/-- The newest beacon root that the contract keeps, with its second; the seconds are those of whole
slots up to the latest block. -/
def latestBeaconRoot (lookback : Int) : Exchange (ByteArray × Int) := do
  let timestamp ← blockTimestamp (← blockNumber)
  searchBack lookback lookback.toNat (timestamp - timestamp % (Limits.secondsPerSlot : Int))

end ExecutionNode

end BeaconBranch
