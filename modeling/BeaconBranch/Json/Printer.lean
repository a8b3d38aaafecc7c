import BeaconBranch.Value

/-!
Writing JSON in two layouts: on one line, with a blank after each comma and colon, and indented,
one item a line. Both write ASCII only, with escapes for everything else.
-/

namespace BeaconBranch.Json

/-- Appends the escape of one code unit. -/
def pushUnit (out : String) (n : Nat) : String :=
  out ++ String.ofList ('\\' :: 'u' :: Hex.lastDigits 4 n)

/-- Appends a code point of a text; one beyond 16 bits takes two code units. -/
def pushPoint (out : String) (p : Nat) : String :=
  match Char.ofNat p with
  | '"' => out ++ "\\\""
  | '\\' => out ++ "\\\\"
  | '\n' => out ++ "\\n"
  | '\r' => out ++ "\\r"
  | '\t' => out ++ "\\t"
  | '\x08' => out ++ "\\b"
  | '\x0c' => out ++ "\\f"
  | c =>
    if 32 ≤ p ∧ p < 127 then out.push c
    else if p < 0x10000 then pushUnit out p
    else pushUnit (pushUnit out (0xd800 + (p - 0x10000) / 1024)) (0xdc00 + (p - 0x10000) % 1024)

/-- Appends a quoted text. -/
def pushText (out s : String) : String :=
  ((CodePoints.ofText s).foldl pushPoint (out.push '"')).push '"'

/-- The text of a number that is not a whole one, with words for what is no finite number. -/
def realText : Binary64 → String
  | .nan => "NaN"
  | .infinite negative => if negative then "-Infinity" else "Infinity"
  | .finite negative m e => Binary64.finiteText negative m e

mutual

/-- Appends a value on one line; bytes have no form of their own and are written as null. -/
def pushValue (out : String) : Value → String
  | .null => out ++ "null"
  | .flag b => out ++ (if b then "true" else "false")
  | .int n => out ++ toString n
  | .real x => out ++ realText x
  | .text s => pushText out s
  | .bytes _ => out ++ "null"
  | .list xs => (pushItems (out.push '[') xs).push ']'
  | .object es => (pushEntries (out.push '\x7b') es).push '\x7d'

/-- Appends the items of a list. -/
def pushItems (out : String) : List Value → String
  | [] => out
  | [x] => pushValue out x
  | x :: y :: rest => pushItems (pushValue out x ++ ", ") (y :: rest)

/-- Appends the entries of an object. -/
def pushEntries (out : String) : List (String × Value) → String
  | [] => out
  | [(k, v)] => pushValue (pushText out k ++ ": ") v
  | (k, v) :: e :: rest => pushEntries (pushValue (pushText out k ++ ": ") v ++ ", ") (e :: rest)

end

/-- A value on one line. -/
def render (v : Value) : String := pushValue "" v

/-- Appends a line feed and `2 * level` blanks. -/
def pushLine (out : String) (level : Nat) : String :=
  out.push '\n' ++ String.ofList (List.replicate (2 * level) ' ')

mutual

/-- Appends a value whose inner lines are indented one step further than `level`. -/
def pushPretty (out : String) (level : Nat) : Value → String
  | .list [] => out ++ "[]"
  | .list (x :: xs) =>
    (pushLine (pushPrettyItems (out.push '[') (level + 1) (x :: xs)) level).push ']'
  | .object [] => (out.push '\x7b').push '\x7d'
  | .object (e :: es) =>
    (pushLine (pushPrettyEntries (out.push '\x7b') (level + 1) (e :: es)) level).push '\x7d'
  | v => pushValue out v

/-- Appends the items of a list, each on its own line. -/
def pushPrettyItems (out : String) (level : Nat) : List Value → String
  | [] => out
  | [x] => pushPretty (pushLine out level) level x
  | x :: y :: rest =>
    pushPrettyItems ((pushPretty (pushLine out level) level x).push ',') level (y :: rest)

/-- Appends the entries of an object, each on its own line. -/
def pushPrettyEntries (out : String) (level : Nat) : List (String × Value) → String
  | [] => out
  | [(k, v)] => pushPretty (pushText (pushLine out level) k ++ ": ") level v
  | (k, v) :: e :: rest =>
    pushPrettyEntries ((pushPretty (pushText (pushLine out level) k ++ ": ") level v).push ',')
      level (e :: rest)

end

/-- A value over several lines, indented by two blanks a level. -/
def renderPretty (v : Value) : String := pushPretty "" 0 v

end BeaconBranch.Json
