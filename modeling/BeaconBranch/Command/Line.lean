import BeaconBranch.Command.Options
import BeaconBranch.Fault

/-!
Command lines: options for all commands, the name of a command, and what belongs to that command.
The options in front are read first, then the name, then the rest. Validators are named by a list of
whole numbers with commas between them, of which parts that hold only blanks are skipped.
-/

namespace BeaconBranch.Command

/-- The indices of a list, which must name at least one validator. -/
def indices? (s : String) : Except Fault (List Int) :=
  if s = "" then .error .indexListMissing
  else
    let parts := (s.splitOn ",").filter fun part => Blank.trim part != ""
    match parts.mapM Decimal.toInt? with
    | none => .error (.indexListMalformed s)
    | some is => if is.isEmpty || is.any (· < 0) then .error .indexListNegative else .ok is

/-- The layouts that results are shown in. -/
inductive Layout
  | json
  | table
  deriving DecidableEq, Repr

/-- What the options in front of a command say. -/
structure Common where
  verbose : Bool
  beaconUrl? : Option String
  executionUrl? : Option String
  proverUrl? : Option String
  network? : Option String
  useProver : Bool
  /-- The file that results are written to. -/
  output? : Option String
  layout : Layout

/-- The names of the commands. -/
inductive Verb
  | credentials
  | checkpoint
  | staleBalance
  | status
  | inspect
  | serve
  deriving DecidableEq, Repr

/-- A command with what belongs to it. -/
inductive Task
  | credentials (indices : List Int)
  | checkpoint (indices : List Int)
  | staleBalance (index : Int)
  | status (address : String) (indices : List Int)
  | inspect (file : String) (index? : Option Int)
  | serve (host : String) (port : Int) (dev : Bool)

/-- The options in front of a command. -/
def commonSpecs : List OptionSpec :=
  [⟨"verbose", some 'v', false⟩, ⟨"beacon-node", none, true⟩, ⟨"exec-node", none, true⟩,
    ⟨"prover-url", none, true⟩, ⟨"network", none, true⟩, ⟨"use-prover", none, false⟩,
    ⟨"output", some 'o', true⟩, ⟨"format", none, true⟩]

/-- The layout of a name. -/
def layout? : String → Option Layout
  | "json" => some .json
  | "table" => some .table
  | _ => none

/-- The value of an option, or of a variable of the environment that is not empty. -/
def orVariable (w : Words) (environment : String → Option String) (name fallback : String) :
    Option String :=
  (w.value? name).orElse fun _ => (environment fallback).filter (· != "")

/-- What the options in front of a command say. -/
def common? (environment : String → Option String) (w : Words) : Option Common := do
  let layout ← layout? ((w.value? "format").getD "json")
  return {
    verbose := w.has "verbose"
    beaconUrl? := orVariable w environment "beacon-node" "BEACON_RPC_URL"
    executionUrl? := orVariable w environment "exec-node" "EXECUTION_RPC_URL"
    proverUrl? := orVariable w environment "prover-url" "PROVER_API_URL"
    network? := orVariable w environment "network" "TANGLEPOD_NETWORK"
    useProver := w.has "use-prover"
    output? := w.value? "output"
    layout := layout }

/-- The command of a name. -/
def verb? : String → Option Verb
  | "credentials" => some .credentials
  | "checkpoint" => some .checkpoint
  | "stale-balance" => some .staleBalance
  | "status" => some .status
  | "inspect" => some .inspect
  | "serve" => some .serve
  | _ => none

/-- The options of a command. -/
def specsOf : Verb → List OptionSpec
  | .credentials | .checkpoint => [⟨"validators", none, true⟩]
  | .staleBalance | .inspect => [⟨"validator", none, true⟩]
  | .status => [⟨"pod-address", none, true⟩, ⟨"validators", none, true⟩]
  | .serve => [⟨"host", none, true⟩, ⟨"port", none, true⟩, ⟨"dev", none, false⟩]

/-- An index: a whole number that is not negative. -/
def index? (s : String) : Option Int := (Decimal.toInt? s).filter (0 ≤ ·)

/-- The indices of a list. -/
def indexList? (s : String) : Option (List Int) := (indices? s).toOption

/-- The task that the words of a command make; `isFile` tells whether a file is there. -/
def task? (isFile : String → Bool) (verb : Verb) (w : Words) : Option Task :=
  match verb, w.others with
  | .credentials, [] => do return .credentials (← indexList? (← w.value? "validators"))
  | .checkpoint, [] => do return .checkpoint (← indexList? (← w.value? "validators"))
  | .staleBalance, [] => do return .staleBalance (← index? (← w.value? "validator"))
  | .status, [] => do
    let address ← w.value? "pod-address"
    let listed := (w.value? "validators").filter (· != "")
    match listed with
    | none => return .status address []
    | some s => return .status address (← indexList? s)
  | .inspect, [file] =>
    if !isFile file then none
    else match w.value? "validator" with
      | none => some (.inspect file none)
      | some s => (index? s).map fun i => .inspect file (some i)
  | .serve, [] => do
    let port ← ((w.value? "port").map Decimal.toInt?).getD (some 8000)
    return .serve ((w.value? "host").getD "127.0.0.1") port (w.has "dev")
  | _, _ => none

end BeaconBranch.Command
