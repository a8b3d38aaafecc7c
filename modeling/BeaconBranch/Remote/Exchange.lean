import BeaconBranch.Json.Parser
import BeaconBranch.Network
import BeaconBranch.Text.Utf8
import BeaconBranch.Value.Cast

/-!
Exchanges with remote nodes. What the nodes answer is a parameter: a function of everything that
was asked before and of the question. So is what the transport makes of an answer: whether it takes
the status for an error, and the text and the value it reads in the body. A session keeps the log of
the questions and what has been learned for good; it goes on after a failure.
-/

namespace BeaconBranch

/-- A question to a node's web interface. -/
structure Query where
  url : String
  /-- The one parameter of the address. -/
  parameter? : Option (String × String)
  /-- The format asked for in this question. -/
  accept? : Option String
  /-- Seconds to wait. -/
  timeout : Number
  deriving BEq, Repr

/-- An answer of a web interface, with what the transport makes of it. -/
structure Answer where
  status : Int
  body : ByteArray
  /-- Whether the transport takes the status for an error. -/
  isError : Bool
  /-- The text that the body is read as. -/
  text : String
  /-- The JSON value that the body is read as, or why it cannot be read. -/
  json : Except Json.Problem Value

/-- What transports are documented to make of an answer: the statuses from 400 to 599 are errors,
and a body is UTF-8 text. How deep its JSON value may be is up to the interpreter. -/
def Answer.documented (depth : Nat) (status : Int) (body : ByteArray) : Answer where
  status := status
  body := body
  isError := decide (400 ≤ status) && decide (status < 600)
  text := CodePoints.ofPlain (Utf8.decode body)
  json := Json.parse depth (Utf8.decode body)

/-- What comes back from a web interface. -/
inductive Reply
  | answered (a : Answer)
  | failed (kind : FaultKind) (text : String)

/-- A question to an execution node. -/
inductive Call
  | chainId
  | blockNumber
  | block (number : Int)
  | contract (address data : String)
  deriving BEq, Repr

/-- What comes back from an execution node. -/
inductive CallReply
  | answered (v : Value)
  | failed (kind : FaultKind) (text : String)

/-- A question that was asked. -/
inductive Event
  | beacon (q : Query)
  | prover (q : Query)
  | execution (c : Call)
  deriving BEq, Repr

/-- How the nodes and the clock behave: what they answer after a history of questions. -/
structure Nodes where
  beacon : List Event → Query → Reply
  prover : List Event → Query → Reply
  execution : List Event → Call → CallReply
  /-- The seconds that the clock shows when it is read for the `n`-th time. -/
  clock : Nat → Rat

/-- Nodes that no question reaches, and a clock that stands still. -/
def Nodes.unreachable : Nodes where
  beacon _ _ := .failed .connection "no transport"
  prover _ _ := .failed .connection "no transport"
  execution _ _ := .failed .connection "no transport"
  clock _ := 0

/-- What is kept between exchanges. -/
structure Session where
  /-- The questions so far, oldest first. -/
  log : List Event
  /-- How often the clock was read. -/
  clockReadings : Nat
  /-- The chain id, once the execution node has told it. -/
  chainId? : Option Int
  /-- The network, once it is settled. -/
  network? : Option Network

/-- The session before the first question. -/
def Session.start : Session := ⟨[], 0, none, none⟩

/-- A computation that may ask nodes and may fail; the session survives a failure. -/
def Exchange (α : Type) : Type := Nodes → Session → Except Fault α × Session

namespace Exchange

/-- The computation that asks nothing. -/
protected def pure {α : Type} (a : α) : Exchange α := fun _ s => (.ok a, s)

/-- One computation after another; a failure ends both. -/
protected def bind {α β : Type} (x : Exchange α) (f : α → Exchange β) : Exchange β := fun nodes s =>
  match x nodes s with
  | (.ok a, s) => f a nodes s
  | (.error e, s) => (.error e, s)

instance : Monad Exchange where
  pure := Exchange.pure
  bind := Exchange.bind

/-- The computation that fails. -/
def fail {α : Type} (f : Fault) : Exchange α := fun _ s => (.error f, s)

/-- A result that needs no node. -/
def lift {α : Type} (r : Except Fault α) : Exchange α := fun _ s => (r, s)

instance : MonadLift (Except Fault) Exchange := ⟨lift⟩

/-- Runs a computation and hands over its failure as a value. -/
def attempt {α : Type} (x : Exchange α) : Exchange (Except Fault α) := fun nodes s =>
  match x nodes s with
  | (r, s) => (.ok r, s)

/-- What the session holds. -/
def session : Exchange Session := fun _ s => (.ok s, s)

/-- Changes what the session holds. -/
def update (f : Session → Session) : Exchange Unit := fun _ s => (.ok (), f s)

/-- Adds a question to the log. -/
def note (e : Event) (s : Session) : Session := { s with log := s.log ++ [e] }

/-- Asks a beacon node. -/
def askBeacon (q : Query) : Exchange Reply := fun nodes s =>
  (.ok (nodes.beacon s.log q), note (.beacon q) s)

/-- Asks a prover. -/
def askProver (q : Query) : Exchange Reply := fun nodes s =>
  (.ok (nodes.prover s.log q), note (.prover q) s)

/-- Asks an execution node. -/
def askExecution (c : Call) : Exchange CallReply := fun nodes s =>
  (.ok (nodes.execution s.log c), note (.execution c) s)

/-- Reads the clock. -/
def readClock : Exchange Rat := fun nodes s =>
  (.ok (nodes.clock s.clockReadings), { s with clockReadings := s.clockReadings + 1 })

end Exchange

end BeaconBranch
