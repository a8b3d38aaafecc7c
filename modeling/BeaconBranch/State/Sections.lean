import BeaconBranch.State.Layout

/-!
Cutting a state buffer into its sections. The offsets of all variable fields are read and checked
first: the first one points right behind the fixed part, they never decrease, and none points
behind the buffer. So each variable section ends where the next one starts, and the last one ends
with the buffer.
-/

namespace BeaconBranch.State

/-- The place of a variable section. -/
structure Span where
  name : String
  start : Nat
  stop : Nat
  deriving DecidableEq, Repr

/-- The offsets of the variable fields, as the buffer tells them. -/
def readOffsets? (data : ByteArray) : Except Fault (List (String × Nat)) :=
  (places.filter (·.2.isVariable)).mapM fun (position, f) => do
    return (f.name, ← Chunk.readUint32? data position)

/-- The spans between offsets, in a buffer of `size` bytes. -/
def spansFrom? (size : Nat) : List (String × Nat) → Except Fault (List Span)
  | [] => .ok []
  | (name, start) :: rest =>
    let stop := (rest.head?.map (·.2)).getD size
    if stop < start then .error (.offsetsDecrease name start stop)
    else if size < stop then .error (.sectionOutside name stop size)
    else do return ⟨name, start, stop⟩ :: (← spansFrom? size rest)

/-- The spans of the variable sections, in order. -/
def spans? (data : ByteArray) : Except Fault (List Span) :=
  if data.size < fixedRegionSize then .error (.truncatedState data.size)
  else do
    let offsets ← readOffsets? data
    match offsets with
    | (name, start) :: _ =>
      if start ≠ fixedRegionSize then throw (.firstOffset name start)
    | [] => pure ()
    spansFrom? data.size offsets

/-- Sections by field name. -/
abbrev Sections := List (String × ByteArray)

/-- The bytes of a field among the sections. -/
def Sections.get (s : Sections) (name : String) : ByteArray := (s.lookup name).getD ByteArray.empty

/-- The bytes of a field: those at its position, or those of its span. -/
def sectionAt (data : ByteArray) (spans : List Span) (position : Nat) (f : SectionField) :
    ByteArray :=
  match f.size? with
  | some n => data.extract position (position + n)
  | none =>
    match spans.find? (·.name == f.name) with
    | some s => data.extract s.start s.stop
    | none => ByteArray.empty

/-- The sections of a buffer, in the order of the fields. -/
def sections? (data : ByteArray) : Except Fault Sections := do
  let spans ← spans? data
  return places.map fun (position, f) => (f.name, sectionAt data spans position f)

end BeaconBranch.State
