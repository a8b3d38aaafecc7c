import BeaconBranch.Network
import BeaconBranch.Value.Cast

/-!
Settings of the proof service. They come from environment variables, and single ones can be
overridden. An address that is empty counts as missing where it is used.
-/

namespace BeaconBranch

/-- What the proof service is told beforehand. -/
structure Settings where
  beaconUrl? : Option String := none
  executionUrl? : Option String := none
  proverUrl? : Option String := none
  /-- The name of the network; without one it is asked from the execution node. -/
  network? : Option String := none
  useProver : Bool := false
  maxWorkers : Int := 4
  credentialsTimeout : Number := .whole 120
  checkpointTimeout : Number := .whole 180
  staleBalanceTimeout : Number := .whole 120

namespace Settings

/-- A text or nothing as a value. -/
def textOrNull (s : Option String) : Value := (s.map Value.text).getD .null

/-- The text of a value, if it is one. -/
def text? : Value → Option String
  | .text s => some s
  | _ => none

/-- The whole number of a value, with a fallback. -/
def whole (v : Value) (fallback : Int) : Int := v.integer?.getD fallback

/-- The number of a value, with a fallback. -/
def number (v : Value) (fallback : Number) : Number := v.number?.getD fallback

/-- Sets the setting of a name; another name is refused. -/
def set? (s : Settings) (name : String) (v : Value) : Except Fault Settings :=
  match name with
  | "beacon_url" => .ok { s with beaconUrl? := text? v }
  | "execution_url" => .ok { s with executionUrl? := text? v }
  | "prover_url" => .ok { s with proverUrl? := text? v }
  | "network" => .ok { s with network? := text? v }
  | "use_prover" => .ok { s with useProver := v.isTruthy }
  | "max_workers" => .ok { s with maxWorkers := whole v s.maxWorkers }
  | "credentials_timeout" => .ok { s with credentialsTimeout := number v s.credentialsTimeout }
  | "checkpoint_timeout" => .ok { s with checkpointTimeout := number v s.checkpointTimeout }
  | "stale_balance_timeout" => .ok { s with staleBalanceTimeout := number v s.staleBalanceTimeout }
  | _ => .error .wrongType

/-- Sets several settings. -/
def setAll? (s : Settings) (entries : List (String × Value)) : Except Fault Settings :=
  entries.foldlM (fun s (name, v) => s.set? name v) s

/-- All settings by name. -/
def toEntries (s : Settings) : List (String × Value) :=
  [("beacon_url", textOrNull s.beaconUrl?), ("execution_url", textOrNull s.executionUrl?),
    ("prover_url", textOrNull s.proverUrl?), ("network", textOrNull s.network?),
    ("use_prover", .flag s.useProver), ("max_workers", .int s.maxWorkers),
    ("credentials_timeout", .ofNumber s.credentialsTimeout),
    ("checkpoint_timeout", .ofNumber s.checkpointTimeout),
    ("stale_balance_timeout", .ofNumber s.staleBalanceTimeout)]

/-- Whether the text of a variable switches something on. -/
def isOn (s : String) : Bool :=
  ["1", "true", "yes", "on"].contains (LowerCase.lower (Blank.trim s))

/-- A text that is not empty. -/
def nonEmpty? (s : Option String) : Option String := s.filter (· != "")

/-- The number of workers that the environment names. -/
def workers? (environment : String → Option String) : Except Fault Int :=
  match environment "TANGLEPOD_MAX_WORKERS" with
  | none => .ok 4
  | some s =>
    match Decimal.toInt? s with
    | some n => .ok n
    | none => .error (.misuse .value)

/-- The settings that the environment names, below overrides; an override that is null counts for
nothing. The network has to be known. -/
def fromEnvironment? (environment : String → Option String) (overrides : List (String × Value)) :
    Except Fault Settings := do
  let workers ← workers? environment
  let base : Settings := {
    beaconUrl? := environment "BEACON_RPC_URL"
    executionUrl? := environment "EXECUTION_RPC_URL"
    proverUrl? := environment "PROVER_API_URL"
    network? := nonEmpty? (environment "TANGLEPOD_NETWORK")
    useProver := (environment "USE_PROVER_API").any isOn
    maxWorkers := workers }
  let given := overrides.filter fun (_, v) => v != .null
  match (Value.lookup "network" given).getD (textOrNull base.network?) with
  | .null => pure ()
  | name => let _ ← Network.ofValue? name
  base.setAll? given

/-- The network of the settings, or the main one. -/
def networkOrMain? (s : Settings) : Except Fault Network :=
  Network.ofName? ((nonEmpty? s.network?).getD Network.mainnet.name)

/-- The address of the beacon node, which has to be known. -/
def requireBeaconUrl? (s : Settings) : Except Fault String :=
  match nonEmpty? s.beaconUrl? with
  | some u => .ok u
  | none => .error .beaconUrlMissing

end Settings

end BeaconBranch
