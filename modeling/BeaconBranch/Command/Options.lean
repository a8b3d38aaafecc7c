/-!
Options on a command line. An option has a long name and perhaps a letter, and either takes a
value or is a flag. A value stands behind an equals sign or in the next word, whatever that looks
like; behind a letter it may follow at once. Two hyphens end the options.
-/

namespace BeaconBranch.Command

/-- An option: its name, its letter if it has one, and whether it takes a value. -/
structure OptionSpec where
  name : String
  letter? : Option Char
  takesValue : Bool

/-- Words that were read: the options in order, each with its value, and the other words. -/
structure Words where
  options : List (String × String)
  others : List String

namespace Words

/-- The value of an option; the last one counts. -/
def value? (w : Words) (name : String) : Option String := w.options.reverse.lookup name

/-- Whether an option is there. -/
def has (w : Words) (name : String) : Bool := (w.value? name).isSome

/-- Adds options in front. -/
def addOptions (options : List (String × String)) (w : Words) : Words :=
  ⟨options ++ w.options, w.others⟩

/-- Adds another word in front. -/
def addOther (word : String) (w : Words) : Words := ⟨w.options, word :: w.others⟩

end Words

/-- What a word that starts with hyphens means. -/
inductive Reading
  /-- Options that are complete. -/
  | complete (options : List (String × String))
  /-- Options, the last of which takes the next word as its value. -/
  | awaiting (options : List (String × String)) (name : String)
  /-- No option. -/
  | wrong

/-- Reads the letters of a word. -/
def readLetters (specs : List OptionSpec) : List Char → Reading
  | [] => .complete []
  | c :: rest =>
    match specs.find? (·.letter? == some c) with
    | none => .wrong
    | some spec =>
      if spec.takesValue then
        if rest.isEmpty then .awaiting [] spec.name
        else .complete [(spec.name, String.ofList rest)]
      else match readLetters specs rest with
        | .complete options => .complete ((spec.name, "") :: options)
        | .awaiting options name => .awaiting ((spec.name, "") :: options) name
        | .wrong => .wrong

/-- Reads a word that starts with two hyphens; `cs` follows them. -/
def readName (specs : List OptionSpec) (cs : List Char) : Reading :=
  let name := String.ofList (cs.takeWhile (· != '='))
  let behind := (cs.dropWhile (· != '=')).drop 1
  let value? := if cs.contains '=' then some (String.ofList behind) else none
  match specs.find? (·.name == name), value? with
  | none, _ => .wrong
  | some spec, some v => if spec.takesValue then .complete [(name, v)] else .wrong
  | some spec, none => if spec.takesValue then .awaiting [] name else .complete [(name, "")]

/-- Reads a word; nothing if it is no option at all. -/
def readWord (specs : List OptionSpec) (word : String) : Option Reading :=
  match word.toList with
  | '-' :: '-' :: cs => some (readName specs cs)
  | '-' :: c :: cs => some (readLetters specs (c :: cs))
  | _ => none

/-- Reads words; nothing if an option is wrong. Where `stopAtOther` is set, the first word that is
no option ends the options. -/
def readWords? (specs : List OptionSpec) (stopAtOther : Bool) : List String → Option Words
  | [] => some ⟨[], []⟩
  | "--" :: rest => some ⟨[], rest⟩
  | word :: rest =>
    match readWord specs word with
    | none =>
      if stopAtOther then some ⟨[], word :: rest⟩
      else (readWords? specs stopAtOther rest).map (Words.addOther word)
    | some .wrong => none
    | some (.complete options) =>
      (readWords? specs stopAtOther rest).map (Words.addOptions options)
    | some (.awaiting options name) =>
      match rest with
      | [] => none
      | value :: rest =>
        (readWords? specs stopAtOther rest).map (Words.addOptions (options ++ [(name, value)]))

end BeaconBranch.Command
