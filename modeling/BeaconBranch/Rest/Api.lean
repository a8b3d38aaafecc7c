import BeaconBranch.Pod.Report
import BeaconBranch.Rest.Model

/-!
The web interface of the proof service. A request is a method, a path and perhaps a JSON body; the
answer is a status and a JSON body. A fault is answered with the status of its sort: 400 if the
request was wrong, 502 if a node failed, 500 otherwise. The reader of documents is a parameter.
-/

namespace BeaconBranch.Rest

/-- A request. -/
structure Request where
  method : String
  /-- The path as text, its escapes resolved. -/
  path : String
  body? : Option Value

/-- An answer; a refused body is answered without one. -/
structure Response where
  status : Nat
  body? : Option Value

/-- The version of the interface. -/
def version : String := "0.1.0"

/-- The status and the code of a fault. -/
def statusOf (f : Fault) : Nat × String :=
  if f.kind.isInvalidInput then (400, "VALIDATION_ERROR")
  else match f.kind with
    | .beaconNode => (502, "BEACON_API_ERROR")
    | .prover => (502, "PROVER_API_ERROR")
    | .execution => (502, "EXECUTION_API_ERROR")
    | .service => (500, "PROOF_ERROR")
    | _ => (500, "INTERNAL_ERROR")

/-- The text of a fault; what is internal is not told. An invalid answer has no text of its own. -/
def errorText (f : Fault) : List (String × Value) :=
  match f, (statusOf f).2 with
  | .invalidResponse, _ => []
  | _, "INTERNAL_ERROR" => [("error", .text "Internal server error")]
  | _, _ => [("error", .text f.text)]

/-- The answer to a fault whose text can be written. -/
def toldFault (f : Fault) : Response :=
  let (status, code) := statusOf f
  ⟨status, some (.object (errorText f ++ [("code", .text code),
    ("details", .object [("error_type", .text f.kind.name)])]))⟩

/-- The answer to a fault. A text that cannot be read as one makes no valid answer. -/
def faultResponse (read? : Reader) (f : Fault) : Response :=
  if (statusOf f).2 != "INTERNAL_ERROR" && (read? text (.text f.text)).isNone then
    toldFault .invalidResponse
  else toldFault f

/-- A document in the shape it is answered with. -/
def shaped (read? : Reader) (shape : Shape) (v : Value) : Except Fault Value :=
  match read? shape v with
  | some w => .ok w
  | none => .error .invalidResponse

/-- The paths of the interface. -/
inductive Route
  | root
  | health
  | credentials
  | checkpoint
  | staleBalance
  | podStatus (address : String)
  deriving DecidableEq, Repr

namespace Route

/-- The path between slashes. -/
def ofSegments? : List String → Option Route
  | [""] => some root
  | ["health"] => some health
  | ["proofs", "credentials"] => some credentials
  | ["proofs", "checkpoint"] => some checkpoint
  | ["proofs", "stale-balance"] => some staleBalance
  | ["pods", address, "status"] => if address = "" then none else some (podStatus address)
  | _ => none

/-- The route of a path. Slashes at the end of a path that has no route are dropped. -/
def ofPath? (path : String) : Option Route :=
  (ofSegments? (path.splitOn "/")).orElse fun _ =>
    ofSegments? ((Remote.trimSlashes path).splitOn "/")

/-- The method that a route takes. -/
def method : Route → String
  | root | health | podStatus _ => "GET"
  | _ => "POST"

end Route

/-- What the root tells about the interface. -/
def welcome : Value :=
  .object [("name", .text "TanglePod Proofs API"), ("version", .text version),
    ("description", .text "Generate beacon chain proofs for TanglePod"), ("docs", .text "/docs"),
    ("health", .text "/health")]

open Exchange

/-- Whether the beacon node is up, and the network. -/
def health (s : Settings) : Exchange Value := do
  let node ← Service.beaconNode s
  let up ← node.isHealthy
  let network ← Service.network s
  return .object [("status", .text (if up then "healthy" else "degraded")),
    ("beacon_api", .flag up), ("network", .text network.name), ("version", .text version)]

/-- The whole numbers of a list of whole numbers. -/
def numbersOf : Value → List Int
  | .list vs => vs.filterMap fun
    | .int n => some n
    | _ => none
  | _ => []

/-- The indices that a body asks for; nothing if the body is refused. -/
def requestedIndices? (read? : Reader) (body : Option Value) : Option (List Int) := do
  let document ← read? indicesRequest (body.getD .null)
  let indices ← (document.atKey? "validatorIndices").toOption
  return numbersOf indices

/-- The index that a body asks for; nothing if the body is refused. -/
def requestedIndex? (read? : Reader) (body : Option Value) : Option Int := do
  let document ← read? indexRequest (body.getD .null)
  let index ← (document.atKey? "validatorIndex").toOption
  index.integer?

/-- A body that is refused. -/
def refused : Exchange Response := return ⟨422, none⟩

/-- Gives the document that a computation ends with, in its shape. -/
def answered (read? : Reader) (shape : Shape) (x : Exchange Value) : Exchange Response := do
  let v ← x
  return ⟨200, some (← shaped read? shape v)⟩

/-- Answers a request on a route. -/
def dispatch (read? : Reader) (s : Settings) (body : Option Value) : Route → Exchange Response
  | .root => return ⟨200, some welcome⟩
  | .health => do return ⟨200, some (← health s)⟩
  | .credentials =>
    match requestedIndices? read? body with
    | none => refused
    | some is => answered read? credentialResponse do
      let proof ← Service.credentialProof s is
      proof.toValue?
  | .checkpoint =>
    match requestedIndices? read? body with
    | none => refused
    | some is => answered read? checkpointResponse do
      let proof ← Service.checkpointProof s is
      return proof.toValue
  | .staleBalance =>
    match requestedIndex? read? body with
    | none => refused
    | some i => answered read? staleBalanceResponse do
      let proof ← Service.staleBalanceProof s i
      proof.toValue?
  | .podStatus address => answered read? podStatusResponse do
      let report ← Pod.report s address []
      return report.toValue

/-- A short answer that says only what is wrong. -/
def detail (status : Nat) (text : String) : Response :=
  ⟨status, some (.object [("detail", .text text)])⟩

/-- Answers a request. -/
def respond (read? : Reader) (s : Settings) (r : Request) : Exchange Response :=
  match Route.ofPath? r.path with
  | none => return detail 404 "Not Found"
  | some route =>
    if r.method.toUpper ≠ route.method then return detail 405 "Method Not Allowed"
    else do
      match ← attempt (dispatch read? s r.body? route) with
      | .ok response => return response
      | .error f => return faultResponse read? f

end BeaconBranch.Rest
