import BeaconBranch.Proof.Composer
import BeaconBranch.Remote.Exchange
import BeaconBranch.Text.MarkedHex

/-!
Sources of validator proofs. A proof comes from a composer of the whole state, or from a prover's
reply, whose generalized index has to name the very place of the validator.
-/

namespace BeaconBranch

namespace ProverReply

/-- The branch in a reply; a reply without one has an empty branch. -/
def branch? (reply : Value) : Except Fault (List ByteArray) := do
  let items ← ((← reply.find? "proof").getD (.list [])).items?
  items.mapM Hex.bytesOf?

/-- The generalized index in a reply has to fit the branch and to be the validator's own. -/
def checkGindex (gindex index : Int) (branchLength : Nat) : Except Fault Unit := do
  let depth ← Gindex.depth? gindex
  if depth ≠ branchLength then throw (.depthMismatch gindex branchLength depth)
  let expected ← Registry.validatorGindex? index
  if gindex ≠ expected then throw (.foreignGindex gindex index expected)

/-- The proof of a validator in a reply. A generalized index that is missing is not checked. -/
def validatorProof? (reply : Value) (index : Int) (validator : Record) :
    Except Fault ValidatorProof := do
  let branch ← branch? reply
  match (← reply.find? "gindex").getD .null with
  | .null => pure ()
  | g => checkGindex (← g.whole?) index branch.length
  return ⟨index, ← validator.shownLeaves?, branch⟩

end ProverReply

/-- Fetches the proof of a validator from a prover. The time budget, if there is one, bounds the
request and is looked at again after it. -/
def fetchValidatorProof (budget : Option (Exchange Number))
    (fetch : Option Number → Exchange Value) (index : Int) (validator : Record) :
    Exchange ValidatorProof := do
  let reply ← match budget with
    | none => fetch none
    | some remaining => do
      let left ← remaining
      let reply ← fetch (some left)
      let _ ← remaining
      pure reply
  ProverReply.validatorProof? reply index validator

end BeaconBranch
