import BeaconBranch.Value

/-!
Shapes of documents. A shape declares what a document holds: the types of its entries, and the
checks that they have to pass. How a document is read in its shape is up to the library for
documents, which is a parameter.
-/

namespace BeaconBranch.Rest

/-- A check of what was read: the text of what is wrong with it. -/
abbrev Check (α : Type) := α → Option String

/-- Nothing is checked. -/
def unchecked {α : Type} : Check α := fun _ => none

/-- The shape of a document. -/
inductive Shape
  /-- A whole number, which may have a bound. -/
  | number (least? : Option Int)
  | numbers (check : Check (List Int))
  | flag
  | text (check : Check String)
  | texts (check : Check (List String))
  | listOf (item : Shape)
  /-- Entries by name. -/
  | entries (fields : List (String × Shape))

/-- The shape of an entry. -/
def Shape.entry? (name : String) : Shape → Option Shape
  | entries fields => fields.lookup name
  | _ => none

/-- How documents are read: in their plain form, the entries under camel-case names. A document that
does not have the shape, or does not pass a check, is not read. -/
abbrev Reader := Shape → Value → Option Value

end BeaconBranch.Rest
