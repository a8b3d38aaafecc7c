import BeaconBranch.Rest.Shape

/-!
The documents that the web interface takes and gives. Branches consist of 32-byte hexadecimal
texts, a state root's branch has three of them, and a validator is shown with eight leaves.
-/

namespace BeaconBranch.Rest

/-- Hexadecimal digits after the marker `0x`, as many as given; one line feed may follow. -/
def isMarkedHex (digits : Nat) (s : String) : Bool :=
  match s.toList with
  | '0' :: 'x' :: cs =>
    let (hex, rest) := (cs.take digits, cs.drop digits)
    hex.length == digits && hex.all (fun c => (Hex.digitValue? c).isSome) &&
      (rest.isEmpty || rest == ['\n'])
  | _ => false

/-- A 32-byte hexadecimal text. -/
def isHex32 (s : String) : Bool := isMarkedHex 64 s

/-- A 20-byte hexadecimal text. -/
def isAddress (s : String) : Bool := isMarkedHex 40 s

/-- Every text has to be a 32-byte hexadecimal one; the first that is not is named. -/
def checkHex32 : Check (List String) := fun ts =>
  (ts.find? (!isHex32 ·)).map fun s =>
    s!"Expected a 32-byte hex string starting with '0x', got {s}"

/-- So many 32-byte hexadecimal texts; `rule` says what has to have them. -/
def checkCount (rule : String) (count : Nat) : Check (List String) := fun ts =>
  if ts.length ≠ count then some s!"{rule}, got {ts.length}" else checkHex32 ts

/-- The branch of a state root has three texts. -/
def checkStateRootBranch : Check (List String) :=
  checkCount "State root proof must have 3 elements" 3

/-- A validator has eight leaves. -/
def checkLeaves : Check (List String) := checkCount "Validator must have 8 fields" 8

/-- Indices to prove: at least one, none of them negative, all distinct. -/
def checkIndices : Check (List Int) := fun ns =>
  if ns.isEmpty then some "At least one validator index is required"
  else if ns.any (· < 0) then some "Validator indices must be non-negative"
  else if ns.eraseDups.length ≠ ns.length then some "Validator indices must be distinct"
  else none

/-- A pod's address is a 20-byte hexadecimal text. -/
def checkAddress : Check String := fun s =>
  if isAddress s then none else some "Pod address must be a 20-byte hex string starting with '0x'"

/-- A whole number. -/
def number : Shape := .number none

/-- A text. -/
def text : Shape := .text unchecked

/-- A request for several validators. -/
def indicesRequest : Shape := .entries [("validator_indices", .numbers checkIndices)]

/-- A request for one validator. -/
def indexRequest : Shape := .entries [("validator_index", .number (some 0))]

/-- A proof of a state root. -/
def stateRootProof : Shape :=
  .entries [("beacon_state_root", text), ("proof", .texts checkStateRootBranch)]

/-- A proof of a validator. -/
def validatorProof : Shape :=
  .entries [("validator_index", number), ("validator_fields", .texts checkLeaves),
    ("proof", .texts checkHex32)]

/-- A proof of the balances root. -/
def balanceContainerProof : Shape :=
  .entries [("balance_container_root", text), ("proof", .texts unchecked)]

/-- A proof of a balance. -/
def balanceProof : Shape :=
  .entries [("pubkey_hash", text), ("balance_root", text), ("proof", .texts checkHex32)]

/-- The entries with which every anchored document starts. -/
def anchored (rest : List (String × Shape)) : Shape :=
  .entries ([("beacon_timestamp", number), ("beacon_block_root", text),
    ("state_root_proof", stateRootProof)] ++ rest)

/-- The answer to a request for withdrawal credentials. -/
def credentialResponse : Shape :=
  anchored [("validator_indices", .numbers unchecked), ("validator_proofs", .listOf validatorProof)]

/-- The answer to a request for balances. -/
def checkpointResponse : Shape :=
  anchored [("balance_container_proof", balanceContainerProof),
    ("balance_proofs", .listOf balanceProof)]

/-- The answer to a request for a stale balance. -/
def staleBalanceResponse : Shape :=
  anchored [("validator_proof", validatorProof), ("validator_slashed", .flag),
    ("current_balance_gwei", number)]

/-- A validator of a pod. -/
def podValidator : Shape :=
  .entries [("index", number), ("pubkey", text), ("balance_gwei", number), ("status", number)]

/-- The answer to a question for a pod's status. -/
def podStatusResponse : Shape :=
  .entries [("pod_address", .text checkAddress), ("withdrawal_credentials", text),
    ("has_restaked", .flag), ("active_validator_count", number),
    ("total_restaked_gwei", number), ("validators", .listOf podValidator)]

end BeaconBranch.Rest
