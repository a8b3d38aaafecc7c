import BeaconBranch.Command.Line
import BeaconBranch.Command.Transcript
import BeaconBranch.Pod.Report

/-!
Running commands. A command line is settled step by step: the options in front, the name of the
command, the settings, then the words of the command. A wrong word ends with exit code 2, a fault
with its message and exit code 1.
-/

namespace BeaconBranch.Command

open Exchange

/-- The settings that a command line asks for, over those of the environment. -/
def settings? (environment : String → Option String) (c : Common) : Except Fault Settings :=
  Settings.fromEnvironment? environment
    [("beacon_url", Settings.textOrNull c.beaconUrl?),
      ("execution_url", Settings.textOrNull c.executionUrl?),
      ("prover_url", Settings.textOrNull c.proverUrl?),
      ("network", Settings.textOrNull c.network?),
      ("use_prover", if c.useProver then .flag true else .null)]

/-- The file that results are written to, if one is named. -/
def Common.file? (c : Common) : Option String := Settings.nonEmpty? c.output?

/-- The entries of a document. -/
def entriesOf : Value → List (String × Value)
  | .object es => es
  | _ => []

/-- Leaves the document of a computation behind. -/
def report (c : Common) (title : String) (x : Exchange Value) : Exchange Transcript := do
  match ← attempt x with
  | .ok v => return emit (entriesOf v) title c.file? (c.layout == .table)
  | .error f => return .ofFault f

/-- The status of a pod as a table of its validators. -/
def podTable? (r : Pod.Report) : Except Fault (List Block) := do
  let rows ← r.members.mapM fun m =>
    return [toString m.index, ← Shorten.cell? m.publicKey, toString m.balance, m.standing.label]
  return [.table ("Pod " ++ r.address) ["Index", "Pubkey", "Balance (gwei)", "Status"] rows,
    .line s!"Active validators: {r.activeCount}  Restaked: {r.totalStaked} gwei"]

/-- Shows the status of a pod. -/
def runStatus (c : Common) (s : Settings) (address : String) (indices : List Int) :
    Exchange Transcript := do
  match ← attempt (Pod.report s address indices) with
  | .error f => return .ofFault f
  | .ok r =>
    if c.layout = .json ∨ c.file?.isSome then
      return emit (entriesOf r.toValue) "Pod Status" c.file? (c.layout == .table)
    else
      match podTable? r with
      | .ok blocks => return { shown := blocks }
      | .error f => return .ofFault f

/-- The bytes of a fork's version as marked hexadecimal text. -/
def forkVersion (s : Snapshot) : String :=
  match s.fork.get "current_version" with
  | .bytes b => Hex.marked b
  | v => v.display

/-- What a state is about, as a table. -/
def stateTable (c : Composer) : Block :=
  let s := c.snapshot
  .table "Beacon State Information" ["Property", "Value"]
    [["Slot", toString s.slot], ["Genesis Time", toString s.genesisTime],
      ["Fork Version", forkVersion s], ["Validators", toString s.validators.size],
      ["Balances", toString s.balances.length], ["Validators Root", Hex.marked c.validatorsRoot],
      ["Balances Root", Hex.marked c.balancesRoot], ["State Root", Hex.marked c.stateRoot]]

/-- The proofs of a validator in a state. -/
def validatorDocument? (c : Composer) (index : Int) : Except Fault (List (String × Value)) := do
  let validator ← c.validatorProof? index none
  let container ← c.balanceContainerProof?
  let balance ← c.balanceProof? index
  return [("stateRoot", Document.hex c.stateRoot), ("validatorProof", ← validator.toValue?),
    ("balanceContainerProof", container.toValue), ("balanceProof", balance.toValue)]

/-- A failed inspection, with its trace if that is asked for. -/
def inspectionFailed (c : Common) (f : Fault) : Transcript :=
  if !Transcript.isTold f.kind then { exit := 1 }
  else
    let message : Block := .line ("[red]Inspection failed: " ++ f.text ++ "[/red]")
    { exit := 1, shown := if c.verbose then [message, .trace] else [message] }

/-- Inspects a state and perhaps proves one of its validators. -/
def runInspect (c : Common) (file : String) (data : ByteArray) (index? : Option Int) : Transcript :=
  Transcript.showFirst (.line ("[cyan]Inspecting " ++ file ++ "...[/cyan]"))
    (match (Snapshot.decode? data).bind Composer.ofSnapshot? with
    | .error f => inspectionFailed c f
    | .ok composer =>
      Transcript.showFirst (stateTable composer)
        (match index? with
        | none => {}
        | some index =>
          match validatorDocument? composer index with
          | .error f => inspectionFailed c f
          | .ok es => emit es s!"Validator {index}" c.file? false))

/-- Announces a server. -/
def runServe (s : Settings) (host : String) (port : Int) (dev : Bool) : Transcript :=
  let address := s!"http://{host}:{port}"
  { shown := [.panel ("Starting TanglePod Proofs API Server\n\nServer: " ++ address ++ "\nDocs: " ++
      address ++ "/docs\nHealth: " ++ address ++ "/health\n\nPress Ctrl+C to stop")]
    server? := some ⟨host, port, dev, if dev then none else some s⟩ }

/-- Does what a command line asks for. -/
def perform (files : String → Option ByteArray) (c : Common) (s : Settings) :
    Task → Exchange Transcript
  | .credentials indices => report c "Credential Proof" do
    let proof ← Service.credentialProof s indices
    proof.toValue?
  | .checkpoint indices => report c "Checkpoint Proof" do
    return (← Service.checkpointProof s indices).toValue
  | .staleBalance index => report c "Stale Balance Proof" do
    let proof ← Service.staleBalanceProof s index
    proof.toValue?
  | .status address indices => runStatus c s address indices
  | .inspect file index? => return runInspect c file ((files file).getD ByteArray.empty) index?
  | .serve host port dev => return runServe s host port dev

/-- The options in front of a command, the command, and the words that belong to it. -/
def heading? (environment : String → Option String) (words : List String) :
    Option (Common × Verb × List String) := do
  let w ← readWords? commonSpecs true words
  let c ← common? environment w
  let name ← w.others.head?
  return (c, ← verb? name, w.others.tail)

/-- The files that a command line may ask for: the words behind the command that are no options. -/
def filesNamed (environment : String → Option String) (words : List String) : List String :=
  match heading? environment words with
  | some (_, verb, rest) => ((readWords? (specsOf verb) false rest).map (·.others)).getD []
  | none => []

/-- Runs a command line. -/
def run (environment : String → Option String) (files : String → Option ByteArray)
    (words : List String) : Exchange Transcript :=
  match heading? environment words with
  | none => return .usage
  | some (c, verb, rest) =>
    match settings? environment c with
    | .error f => return .ofFault f
    | .ok s =>
      match (readWords? (specsOf verb) false rest).bind (task? (fun f => (files f).isSome) verb) with
      | none => return .usage
      | some task => perform files c s task

end BeaconBranch.Command
