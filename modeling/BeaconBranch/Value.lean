import BeaconBranch.Number
import BeaconBranch.Text.CodePoints
import BeaconBranch.Text.Decimal
import BeaconBranch.Text.Hex
import BeaconBranch.Text.Printable

/-!
Values of unknown shape. Replies of remote nodes and request bodies are read into `Value` before
anything is known about them; a byte string can also be a value, so that the fields of a record
fit in as well. `Value.display` is the text of a value inside messages and tables.
-/

namespace BeaconBranch

/-- A value from outside. A number written with a point or an exponent is a `real`, even if it is
whole. -/
inductive Value
  | null
  | flag (b : Bool)
  | int (n : Int)
  | real (x : Binary64)
  | text (s : String)
  | bytes (b : ByteArray)
  | list (items : List Value)
  | object (entries : List (String × Value))
  deriving BEq, Inhabited

namespace Value

/-- The kind of a value as messages name it. -/
def kindName : Value → String
  | null => "NoneType"
  | flag _ => "bool"
  | int _ => "int"
  | real _ => "float"
  | text _ => "str"
  | bytes _ => "bytes"
  | list _ => "list"
  | object _ => "dict"

/-- Whether a value counts as true: not null, not zero, not empty. -/
def isTruthy : Value → Bool
  | null => false
  | flag b => b
  | int n => n != 0
  | real x => !x.isZero
  | text s => s != ""
  | bytes b => b.size != 0
  | list xs => !xs.isEmpty
  | object es => !es.isEmpty

/-- The number of items of a value that has items. -/
def length? : Value → Option Nat
  | text s => some (CodePoints.length s)
  | bytes b => some b.size
  | list xs => some xs.length
  | object es => some es.length
  | _ => none

/-- Whole numbers, with the flags counting as one and zero. -/
def integer? : Value → Option Int
  | int n => some n
  | flag b => some (if b then 1 else 0)
  | _ => none

/-- The number that a value is, with the flags counting as one and zero. -/
def number? : Value → Option Number
  | int n => some (.whole n)
  | flag b => some (.whole (if b then 1 else 0))
  | real x => some (.real x)
  | _ => none

/-- A number as a value. -/
def ofNumber : Number → Value
  | .whole n => int n
  | .real x => real x

/-- The entry of a key. -/
def lookup (key : String) : List (String × Value) → Option Value
  | [] => none
  | (k, v) :: rest => if k = key then some v else lookup key rest

/-- Puts an entry: a key that is there keeps its place, a new key goes last. -/
def put (key : String) (v : Value) : List (String × Value) → List (String × Value)
  | [] => [(key, v)]
  | (k, w) :: rest => if k = key then (key, v) :: rest else (k, w) :: put key v rest

/-- The escape of a code unit that shows nothing of its own, as short as its number allows. -/
def escapeUnit (n : Nat) : List Char :=
  if n < 0x100 then '\\' :: 'x' :: Hex.lastDigits 2 n
  else if n < 0x10000 then '\\' :: 'u' :: Hex.lastDigits 4 n
  else '\\' :: 'U' :: Hex.lastDigits 8 n

/-- A character inside a quoted text: the quote, the backslash and what shows nothing of its own
are escaped. -/
def escapeChar (quote c : Char) : List Char :=
  if c = quote ∨ c = '\\' then ['\\', c]
  else if c = '\n' then ['\\', 'n']
  else if c = '\r' then ['\\', 'r']
  else if c = '\t' then ['\\', 't']
  else if Printable.isPrintable c then [c]
  else escapeUnit c.toNat

/-- A code point inside a quoted text; half of a pair is escaped. -/
def escapePoint (quote : Char) (p : Nat) : List Char :=
  if CodePoints.isHalf p then escapeUnit p else escapeChar quote (Char.ofNat p)

/-- A text in single quotes, or in double quotes if only single ones occur in it. -/
def quoted (s : String) : String :=
  let quote := if s.contains '\'' && !s.contains '"' then '"' else '\''
  String.ofList (quote :: (CodePoints.ofText s).flatMap (escapePoint quote) ++ [quote])

/-- Bytes in quotes, behind the letter b; all but the ASCII ones are escaped. -/
def quotedBytes (b : ByteArray) : String :=
  let quote := if b.data.contains 39 && !b.data.contains 34 then '"' else '\''
  let shown (u : UInt8) : List Char :=
    if u < 127 then escapeChar quote (Char.ofNat u.toNat) else escapeUnit u.toNat
  String.ofList ('b' :: quote :: b.data.toList.flatMap shown ++ [quote])

mutual

/-- Appends the text of a value that stands inside another one. -/
def pushInner (out : String) : Value → String
  | null => out ++ "None"
  | flag b => out ++ (if b then "True" else "False")
  | int n => out ++ toString n
  | real x => out ++ x.text
  | text s => out ++ quoted s
  | bytes b => out ++ quotedBytes b
  | list xs => (pushItems (out.push '[') xs).push ']'
  | object es => (pushEntries (out.push '\x7b') es).push '\x7d'

/-- Appends the items of a list, with commas between them. -/
def pushItems (out : String) : List Value → String
  | [] => out
  | [x] => pushInner out x
  | x :: y :: rest => pushItems (pushInner out x ++ ", ") (y :: rest)

/-- Appends the entries of an object, with commas between them. -/
def pushEntries (out : String) : List (String × Value) → String
  | [] => out
  | [(k, v)] => pushInner (out ++ quoted k ++ ": ") v
  | (k, v) :: e :: rest => pushEntries (pushInner (out ++ quoted k ++ ": ") v ++ ", ") (e :: rest)

end

/-- The text of a value; a text stands for itself. -/
def display : Value → String
  | text s => s
  | v => pushInner "" v

end Value

end BeaconBranch
