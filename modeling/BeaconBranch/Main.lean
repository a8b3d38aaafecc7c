import BeaconBranch.Command.Run

/-!
The program: reads the environment and the files that its command line names, runs the command,
and shows what it leaves behind. It has no transport, so nodes count as unreachable; states are
inspected from their files.
-/

namespace BeaconBranch.Command

/-- The variables that settings come from. -/
def environmentNames : List String :=
  ["BEACON_RPC_URL", "EXECUTION_RPC_URL", "PROVER_API_URL", "TANGLEPOD_NETWORK", "USE_PROVER_API",
    "TANGLEPOD_MAX_WORKERS"]

/-- Reads the environment. -/
def readEnvironment : IO (List (String × String)) :=
  environmentNames.filterMapM fun name => do
    return (← IO.getEnv name).map fun value => (name, CodePoints.ofPlain value)

/-- Reads a file, if it can be read. -/
def readFile (path : String) : IO (Option (String × ByteArray)) := do
  try return some (path, ← IO.FS.readBinFile (CodePoints.toPlain path))
  catch _ => return none

/-- The lines of something that is shown. -/
def Block.lines : Block → List String
  | .line s => [s]
  | .table title columns rows => title :: ((columns :: rows).map fun r => "\t".intercalate r)
  | .panel s => [s]
  | .trace => []

/-- Shows what a command leaves behind, and gives its exit code. -/
def present (t : Transcript) : IO UInt32 := do
  for block in t.shown do
    for line in block.lines do IO.println (CodePoints.toPlain line)
  IO.print t.out
  IO.eprint (CodePoints.toPlain t.err)
  match t.file? with
  | some (path, text) => IO.FS.writeFile (CodePoints.toPlain path) text
  | none => pure ()
  return t.exit.toUInt32

end BeaconBranch.Command

open BeaconBranch Command in
/-- Runs the command line. -/
def main (arguments : List String) : IO UInt32 := do
  let words := arguments.map CodePoints.ofPlain
  let set ← readEnvironment
  let environment (name : String) := set.lookup name
  let found ← (filesNamed environment words).filterMapM readFile
  let files (path : String) := found.lookup path
  match run environment files words Nodes.unreachable Session.start with
  | (.ok t, _) => present t
  | (.error f, _) => present (.ofFault f)
