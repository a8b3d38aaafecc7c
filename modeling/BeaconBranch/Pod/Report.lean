import BeaconBranch.Service

/-!
The status of a pod: the validators whose withdrawal credentials point at it, and what they have
at stake.
-/

namespace BeaconBranch.Pod

/-- A validator of a pod. -/
structure Member where
  index : Int
  publicKey : Value
  balance : Int
  standing : Standing
  /-- What the validator has at stake, if it is active. -/
  staked : Int

/-- The status of a pod. -/
structure Report where
  address : String
  credentials : ByteArray
  members : List Member

namespace Report

/-- The number of active validators. -/
def activeCount (r : Report) : Nat := r.members.countP (·.standing == .active)

/-- What the active validators have at stake together. -/
def totalStaked (r : Report) : Int := r.members.foldr (fun m total => m.staked + total) 0

/-- A validator as a document. -/
def memberValue (m : Member) : Value :=
  .object [("index", .int m.index), ("pubkey", m.publicKey), ("balanceGwei", .int m.balance),
    ("status", .int m.standing.code)]

/-- The status as a document. -/
def toValue (r : Report) : Value :=
  .object [("podAddress", .text r.address),
    ("withdrawalCredentials", .text (Hex.marked r.credentials)),
    ("hasRestaked", .flag (!r.members.isEmpty)), ("activeValidatorCount", .int r.activeCount),
    ("totalRestakedGwei", .int r.totalStaked), ("validators", .list (r.members.map memberValue))]

end Report

/-- The withdrawal credentials of a validator, in lower case. -/
def credentialsOf? (validator : Value) : Except Fault String := do
  match ← validator.atKey? "withdrawal_credentials" with
  | .text s => return LowerCase.lower s
  | _ => throw (.misuse .missingAttribute)

/-- The validator that a description tells of, if its credentials are among the given ones. -/
def memberIn? (credentials : List String) (description : Value) : Except Fault (Option Member) := do
  let validator ← description.atKey? "validator"
  if !credentials.contains (← credentialsOf? validator) then return none
  let status := (← description.find? "status").getD (.text "")
  let index ← (← description.atKey? "index").whole?
  let publicKey ← validator.atKey? "pubkey"
  let balance ← (← description.atKey? "balance").whole?
  let standing := Standing.ofValue status
  let staked ← if standing = .active then
      (validator.atKey? "effective_balance").bind Value.whole?
    else .ok 0
  return some ⟨index, publicKey, balance, standing, staked⟩

/-- The validators in a reply whose credentials are among the given ones. -/
def membersIn? (credentials : List String) (reply : Value) : Except Fault (List Member) := do
  return (← (← reply.items?).mapM (memberIn? credentials)).filterMap id

open Exchange

/-- Looks for the validators of a pod among the given ones, or among all of them. -/
def report (s : Settings) (address : String) (indices : List Int) : Exchange Report := do
  let credentials ← allCredentials? address
  let deadline ← Service.Deadline.start (.whole 30)
  let node ← Service.beaconNode s
  let reply ← node.validators Service.finalized indices (some (← deadline.remaining))
  let members ← membersIn? (credentials.map Hex.marked) reply
  return ⟨address, credentials.headD ByteArray.empty, members⟩

end BeaconBranch.Pod
