import BeaconBranch.Bytes.Basic
import BeaconBranch.Fault

/-!
Long texts in tables: the first and the last characters with three points between them.
-/

namespace BeaconBranch.Shorten

/-- Whether so many characters are no more than shortening would leave. -/
def isShort (length : Nat) (keep : Int) : Bool := (length : Int) ≤ 2 * keep + 3

/-- The first and the last `keep` of the items, each written by `shown`. The last ones are counted
from the right, and with none to count all of them stand there. -/
def bothEnds {α : Type} (shown : List α → String) (xs : List α) (keep : Int) : String :=
  shown (xs.take (Bytes.clampEnd xs.length keep)) ++ "..." ++
    shown (xs.drop (Bytes.clampEnd xs.length (-keep)))

/-- Keeps `keep` characters at both ends of a text that is longer than what that gives. -/
def ends (s : String) (keep : Int) : String :=
  if isShort (CodePoints.length s) keep then s
  else bothEnds CodePoints.text (CodePoints.ofText s) keep

/-- Shortens a value that may be something else than a text. A list is cut like a text; an object
has no ends, so only a short one is left as it is; nothing else has a length. -/
def value? (v : Value) (keep : Int) : Except Fault Value :=
  match v with
  | .text s => .ok (.text (ends s keep))
  | .list xs =>
    if isShort xs.length keep then .ok v
    else .ok (.text (bothEnds (fun ys => (Value.list ys).display) xs keep))
  | .object es => if isShort es.length keep then .ok v else .error (.misuse .wrongType)
  | _ => .error (.misuse .wrongType)

/-- A text with ten characters at both ends. -/
def cell (s : String) : String := ends s 10

/-- A value for a table, which takes texts only, with ten characters at both ends. -/
def cell? (v : Value) : Except Fault String := do
  match ← value? v 10 with
  | .text s => return s
  | _ => .error (.misuse .wrongType)

end BeaconBranch.Shorten
