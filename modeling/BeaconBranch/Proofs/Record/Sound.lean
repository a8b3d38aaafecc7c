import BeaconBranch.Proofs.Record.Commitment

/-!
Records whose roots can be trusted to be of what they hold. A flag counts for no more than its
truth, so a record may hold anything as a flag and still have the root of a record that fits its
schema. Main statement: a record is sound exactly if its other values fit their fields.
-/

namespace BeaconBranch

open Outcome

/-- A value may stand in a field: anything as a flag, and otherwise what the kind of the field
holds. -/
def Field.Bears (f : Field) (v : Value) : Prop := f.kind = .flag ∨ f.kind.Holds v

/-- The value that counts in a field: the truth of a flag, and other values as they are. -/
def Field.settle (f : Field) (v : Value) : Value :=
  if f.kind = .flag then .flag v.isTruthy else v

namespace Field

variable {f : Field} {v : Value}

/-- A settled value makes the same leaf. -/
theorem leaf_settle (f : Field) (v : Value) : f.kind.leaf (f.settle v) = f.kind.leaf v := by
  rw [settle]
  split
  · rename_i flag
    rw [flag]
    rfl
  · rfl

theorem holds_settle (bears : f.Bears v) : f.kind.Holds (f.settle v) := by
  rw [settle]
  split
  · rename_i flag
    rw [flag]
    trivial
  · exact bears.resolve_left ‹_›

end Field

namespace Record

/-- A record with its values settled. -/
def settled (r : Record) : Record :=
  ⟨r.schema, List.zipWith Field.settle r.schema.fields r.values⟩

theorem mapM_leaf_settle (fields : List Field) (values : List Value) :
    (fields.zip (List.zipWith Field.settle fields values)).mapM (fun (f, v) => f.kind.leaf v) =
      (fields.zip values).mapM fun (f, v) => f.kind.leaf v := by
  induction fields generalizing values with
  | nil => rfl
  | cons f fields ih =>
    cases values with
    | nil => rfl
    | cons v values =>
      rw [List.zipWith_cons_cons, List.zip_cons_cons, List.zip_cons_cons, List.mapM_cons,
        List.mapM_cons, ih]
      dsimp only
      rw [Field.leaf_settle]

theorem forall₂_holds_settle {fields : List Field} {values : List Value}
    (bears : List.Forall₂ Field.Bears fields values) :
    List.Forall₂ (fun f v => f.kind.Holds v) fields
      (List.zipWith Field.settle fields values) := by
  induction bears with
  | nil => exact .nil
  | cons first _ ih => exact .cons (Field.holds_settle first) ih

/-- Settling the values of a record leaves its root as it is. -/
theorem root?_settled (r : Record) : r.settled.root? = r.root? := by
  have leaves : r.settled.leaves? = r.leaves? := mapM_leaf_settle r.schema.fields r.values
  rw [root?, tree?, leaves]
  rfl

/-- A record of a schema that has a root and whose values may stand in their fields. -/
structure Sound (r : Record) (s : Schema) : Prop where
  schema : r.schema = s
  rooted : ∃ root, r.root? = .ok root
  values : List.Forall₂ Field.Bears s.fields r.values

variable {r : Record} {s : Schema}

theorem fits_settled (schema : r.schema = s) (bears : List.Forall₂ Field.Bears s.fields r.values) :
    r.settled.Fits s := by
  subst schema
  exact ⟨rfl, forall₂_holds_settle bears⟩

/-- Values that may stand in their fields make a root. -/
theorem sound_iff (regular : s.Regular) (schema : r.schema = s) :
    r.Sound s ↔ List.Forall₂ Field.Bears s.fields r.values := by
  refine ⟨Sound.values, fun bears => ⟨schema, ?_, bears⟩⟩
  rw [← root?_settled]
  exact ⟨_, root?_eq regular (fits_settled schema bears)⟩

end Record

end BeaconBranch
