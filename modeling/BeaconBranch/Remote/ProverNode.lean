import BeaconBranch.Remote.Body

/-!
Provers: nodes that answer with the branch of a single leaf, so that nobody has to read the whole
state.
-/

namespace BeaconBranch

/-- A prover that can be asked. -/
structure ProverNode where
  baseUrl : String
  /-- Seconds to wait where a request does not say. -/
  timeout : Number := .whole 60

namespace ProverNode

open Exchange Remote

/-- The prover at an address. -/
def at? (url : Option String) (timeout : Number) : Except Fault ProverNode :=
  match url with
  | some u => if u = "" then .error .proverUrlMissing else .ok ⟨trimSlashes u, timeout⟩
  | none => .error .proverUrlMissing

/-- The fault of a failed exchange. An error of the status without an answer has no status that
could be reported. -/
def failure (kind : FaultKind) (text : String) : Fault :=
  if kind = .httpStatus then .misuse .missingAttribute
  else if kind.isTransport then .proverRequest text
  else if kind.isInvalidInput then .proverNotJson text
  else rawFault kind text

/-- The `data` entry in an answer. A body that is no JSON counts as a failed request; one with a
number that is too long is JSON that cannot be read. -/
def dataIn? (a : Answer) : Except Fault Value :=
  if a.isError then .error (.proverStatus a.status (excerpt a.text))
  else match a.json with
    | .error .malformed => .error (.proverRequest Fault.unworded)
    | .error .numberTooLong => .error (.proverNotJson Fault.unworded)
    | .error .tooDeep => .error (.misuse .tooDeep)
    | .ok v =>
      match data? v with
      | some d => .ok d
      | none => .error .proverNoData

/-- Asks for the proof of a path in a state. -/
def proof (n : ProverNode) (state path : String) (timeout : Option Number) : Exchange Value := do
  let url := n.baseUrl ++ "/eth/v1/lightclient/proof/" ++ state
  match ← askProver ⟨url, some ("paths", path), none, timeoutOr n.timeout timeout⟩ with
  | .failed kind text => fail (failure kind text)
  | .answered a => dataIn? a

/-- Asks for the proof of a validator. -/
def validatorProof (n : ProverNode) (state index : String) (timeout : Option Number) : Exchange Value :=
  n.proof state ("validators/" ++ index) timeout

/-- Asks for the proof of the balances root. -/
def balancesProof (n : ProverNode) (state : String) (timeout : Option Number) : Exchange Value :=
  n.proof state "balances" timeout

end ProverNode

end BeaconBranch
