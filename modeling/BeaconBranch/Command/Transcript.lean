import BeaconBranch.Json.Printer
import BeaconBranch.Settings
import BeaconBranch.Text.Shorten

/-!
What a command leaves behind: its exit code, its texts, what it shows, and the file it writes.
-/

namespace BeaconBranch.Command

/-- Something that is shown. -/
inductive Block
  /-- A line with colour marks. -/
  | line (text : String)
  | table (title : String) (columns : List String) (rows : List (List String))
  | panel (text : String)
  /-- The trace of a failure. -/
  | trace

/-- A server to be started; without settings it takes them from its own environment. -/
structure Server where
  host : String
  port : Int
  reload : Bool
  settings? : Option Settings

/-- What a command leaves behind. -/
structure Transcript where
  exit : Nat := 0
  out : String := ""
  err : String := ""
  shown : List Block := []
  /-- The path and the text of a file to be written. -/
  file? : Option (String × String) := none
  server? : Option Server := none

namespace Transcript

/-- A command line that makes no sense. -/
def usage : Transcript := { exit := 2 }

/-- A failure with a message. -/
def failed (text : String) : Transcript := { exit := 1, err := "Error: " ++ text ++ "\n" }

/-- The kinds of faults that are told by their message; all others just end the command. -/
def isTold (k : FaultKind) : Bool :=
  k.isInvalidInput || [.beaconNode, .prover, .execution, .service].contains k

/-- The transcript of a fault. -/
def ofFault (f : Fault) : Transcript := if isTold f.kind then failed f.text else { exit := 1 }

/-- Shows something before the rest. -/
def showFirst (b : Block) (t : Transcript) : Transcript := { t with shown := b :: t.shown }

end Transcript

/-- The text of a value in a table. Of a proof only its length is told, so a proof that has none
cannot be shown. -/
def cellText? : Value → Except Fault String
  | .text s => .ok (Shorten.cell s)
  | .list (.object e :: rest) =>
    let n := (Value.object e :: rest).length
    .ok s!"{n} proofs"
  | .object es =>
    match Value.lookup "proof" es with
    | none => .ok (Value.object es).display
    | some proof =>
      match proof.length? with
      | some n => .ok s!"{n} proof elements"
      | none => .error (.misuse .wrongType)
  | v => .ok v.display

/-- The entries of a result as a table. -/
def resultTable? (title : String) (entries : List (String × Value)) : Except Fault Block := do
  return .table title ["Property", "Value"]
    (← entries.mapM fun (k, v) => return [k, ← cellText? v])

/-- Leaves a result behind: in a file if one is named, and in the chosen layout. A table that cannot
be drawn ends the command after the file is written. -/
def emit (entries : List (String × Value)) (title : String) (output? : Option String)
    (asTable : Bool) : Transcript :=
  let json := Json.renderPretty (.object entries)
  let written : List Block := match output? with
    | some path => [.line ("[green]Proof written to " ++ path ++ "[/green]")]
    | none => []
  let base : Transcript := { file? := output?.map fun path => (path, json), shown := written }
  if asTable then
    match resultTable? title entries with
    | .ok table => { base with shown := written ++ [table] }
    | .error _ => { base with exit := 1 }
  else { base with out := if output?.isSome then "" else json ++ "\n" }

end BeaconBranch.Command
