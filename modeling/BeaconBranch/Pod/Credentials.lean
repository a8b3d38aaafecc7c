import BeaconBranch.Bytes.Basic
import BeaconBranch.Text.MarkedHex

/-!
Withdrawal credentials of a pod and the status of its validators. Credentials are a byte for their
kind, eleven zero bytes and the pod's address of 20 bytes.
-/

namespace BeaconBranch.Pod

/-- Credentials of one kind that point at an address. -/
def credentials? (address : String) (kind : Int) : Except Fault ByteArray := do
  let raw ← Hex.bytes? address
  if raw.size ≠ 20 then .error (.wrongAddressLength raw.size address)
  else if kind < 0 ∨ 255 < kind then .error (.misuse .value)
  else .ok ((Bytes.zeros 0).push kind.toNat.toUInt8 ++ Bytes.zeros 11 ++ raw)

/-- The credentials of both kinds, plain (1) and compounding (2), that point at an address. -/
def allCredentials? (address : String) : Except Fault (List ByteArray) :=
  [1, 2].mapM fun (kind : Int) => credentials? address kind

/-- What a pod makes of the status of a validator. -/
inductive Standing
  | inactive
  | active
  | withdrawn
  deriving DecidableEq, Repr

namespace Standing

/-- The status names of validators that are active. -/
def activeNames : List String := ["active_ongoing", "active_exiting", "active_slashed"]

/-- The status names of validators that have left. -/
def withdrawnNames : List String :=
  ["exited_unslashed", "exited_slashed", "withdrawal_possible", "withdrawal_done"]

/-- The standing that a status name tells; everything unknown is inactive. -/
def ofName (s : String) : Standing :=
  if activeNames.contains s then active
  else if withdrawnNames.contains s then withdrawn
  else inactive

/-- The standing that a status of unknown shape tells. -/
def ofValue : Value → Standing
  | .text s => ofName s
  | _ => inactive

/-- The number of a standing. -/
def code : Standing → Nat
  | inactive => 0
  | active => 1
  | withdrawn => 2

/-- The label of a standing in tables. -/
def label : Standing → String
  | inactive => "INACTIVE"
  | active => "ACTIVE"
  | withdrawn => "WITHDRAWN"

end Standing

end BeaconBranch.Pod
