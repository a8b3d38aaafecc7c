import BeaconBranch.Record.Reading
import BeaconBranch.Remote.Body

/-!
Beacon nodes: headers, roots, validators and whole states through their web interface. Every
failure below the level of the reply, every error status and every reply without its `data` entry
is a fault of the node.
-/

namespace BeaconBranch

/-- A beacon node that can be asked. -/
structure BeaconNode where
  baseUrl : String
  /-- Seconds to wait where a request does not say. -/
  timeout : Number := .whole 60

namespace BeaconNode

open Exchange Remote

/-- The node at an address, or else at the address that the environment names. -/
def at? (url environment : Option String) (timeout : Number) : Except Fault BeaconNode :=
  match [url, environment].filterMap id |>.find? (· != "") with
  | some u => .ok ⟨trimSlashes u, timeout⟩
  | none => .error .beaconUrlMissing

/-- The fault of a failed exchange. An error of the status without an answer has no status that
could be reported. -/
def failure (n : BeaconNode) (path : String) (kind : FaultKind) (text : String) : Fault :=
  if kind.isConnection then .beaconUnreachable n.baseUrl text
  else if kind.isTimeout then .beaconTimeout path n.baseUrl text
  else if kind = .httpStatus then .misuse .missingAttribute
  else if kind.isTransport then .beaconRequest n.baseUrl text
  else rawFault kind text

/-- Asks for a path and gets an answer that is no error. -/
def request (n : BeaconNode) (path : String) (parameter : Option (String × String))
    (accept : Option String) (timeout : Option Number) : Exchange Answer := do
  match ← askBeacon ⟨n.baseUrl ++ path, parameter, accept, timeoutOr n.timeout timeout⟩ with
  | .failed kind text => fail (n.failure path kind text)
  | .answered a =>
    if a.isError then fail (.beaconStatus a.status path (excerpt a.text)) else return a

/-- The `data` entry in the body of an answer. -/
def dataIn? (path : String) (a : Answer) : Except Fault Value :=
  match a.json with
  | .error .tooDeep => .error (.misuse .tooDeep)
  | .error _ => .error (.beaconNotJson path Fault.unworded)
  | .ok v =>
    match data? v with
    | some d => .ok d
    | none => .error .beaconNoData

/-- Asks for a path and gets the `data` entry of the answer. -/
def fetch (n : BeaconNode) (path : String) (parameter : Option (String × String))
    (timeout : Option Number) : Exchange Value := do
  let a ← n.request path parameter none timeout
  dataIn? path a

/-- The bytes of the root in a reply. -/
def rootIn? (data : Value) : Except Fault ByteArray := do Hex.bytesOf? (← data.atKey? "root")

/-- The root of a block. -/
def blockRoot (n : BeaconNode) (block : String) (timeout : Option Number) : Exchange ByteArray := do
  let data ← n.fetch ("/eth/v1/beacon/blocks/" ++ block ++ "/root") none timeout
  rootIn? data

/-- The root of a state. -/
def stateRoot (n : BeaconNode) (state : String) (timeout : Option Number) : Exchange ByteArray := do
  let data ← n.fetch ("/eth/v1/beacon/states/" ++ state ++ "/root") none timeout
  rootIn? data

/-- The block header in a reply. -/
def headerIn? (block : String) (data : Value) : Except Fault Record :=
  let parsed := do
    let message ← (← data.atKey? "header").atKey? "message"
    Record.ofJson? .blockHeader message
  match parsed with
  | .ok header => .ok header
  | .error f => .error (.malformedHeader block f.text)

/-- The header of a block. -/
def blockHeader (n : BeaconNode) (block : String) (timeout : Option Number) : Exchange Record := do
  let data ← n.fetch ("/eth/v1/beacon/headers/" ++ block) none timeout
  headerIn? block data

/-- One validator, as the node describes it. -/
def validator (n : BeaconNode) (state index : String) (timeout : Option Number) : Exchange Value :=
  n.fetch ("/eth/v1/beacon/states/" ++ state ++ "/validators/" ++ index) none timeout

/-- The parameter that selects validators; without indices all of them are meant. -/
def selection (indices : List Int) : Option (String × String) :=
  if indices.isEmpty then none else some ("id", ",".intercalate (indices.map toString))

/-- Validators, as the node describes them. -/
def validators (n : BeaconNode) (state : String) (indices : List Int) (timeout : Option Number) :
    Exchange Value :=
  n.fetch ("/eth/v1/beacon/states/" ++ state ++ "/validators") (selection indices) timeout

/-- The finality checkpoints of a state, as the node describes them. -/
def finalityCheckpoints (n : BeaconNode) (state : String) (timeout : Option Number) : Exchange Value :=
  n.fetch ("/eth/v1/beacon/states/" ++ state ++ "/finality_checkpoints") none timeout

/-- The bytes of a whole state. -/
def stateBytes (n : BeaconNode) (state : String) (timeout : Option Number) :
    Exchange ByteArray := do
  let a ← n.request ("/eth/v2/debug/beacon/states/" ++ state) none (some "application/octet-stream")
    timeout
  return a.body

/-- Whether the node is up. -/
def isHealthy (n : BeaconNode) : Exchange Bool := do
  match ← askBeacon ⟨n.baseUrl ++ "/eth/v1/node/health", none, none, .whole 10⟩ with
  | .answered a => return a.status == 200 || a.status == 206
  | .failed kind text => if kind.isTransport then return false else fail (rawFault kind text)

/-- The record in the description of a validator, or the description itself if it is one. -/
def validatorIn? (description : Value) : Except Fault Record := do
  let inner := (← description.find? "validator").getD description
  match Record.ofJson? .validator inner with
  | .ok v => .ok v
  | .error f => .error (.malformedValidator f.text)

end BeaconNode

end BeaconBranch
