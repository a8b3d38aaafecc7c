import BeaconBranch.Proofs.Record.Entries
import BeaconBranch.Proofs.State.Existence

/-!
Foreign entries. The names of an object that are no fields of a schema are left out only after all
values were read, so an entry that says nothing about the record can still keep it from being read.
Main statement: an object with a foreign entry is read exactly if the entry is legible and the
object without it is read, and then as the same record; a foreign entry that is not legible is
refused as a wrong value.
-/

namespace BeaconBranch.Record

open Outcome

variable {schema : Schema} {r : Record} {name key : String} {v : Value}
  {es₁ es₂ : List (String × Value)}

theorem lastMeaning?_append : lastMeaning? name (es₁ ++ es₂) =
    (lastMeaning? name es₂).or (lastMeaning? name es₁) := by
  induction es₁ with
  | nil => rw [List.nil_append, lastMeaning?, Option.or_none]
  | cons e es₁ ih => rw [List.cons_append, lastMeaning?, lastMeaning?, ih, Option.or_assoc]

/-- An entry says nothing about a field of another name. -/
theorem lastMeaning?_insert (other : fieldName key ≠ name) (v : Value) :
    lastMeaning? name (es₁ ++ (key, v) :: es₂) = lastMeaning? name (es₁ ++ es₂) := by
  rw [lastMeaning?_append, lastMeaning?_append, lastMeaning?, if_neg other, Option.or_none]

theorem legible_insert_iff : (∀ e ∈ es₁ ++ (key, v) :: es₂, Legible (fieldName e.1) e.2) ↔
    Legible (fieldName key) v ∧ ∀ e ∈ es₁ ++ es₂, Legible (fieldName e.1) e.2 := by
  rw [List.forall_mem_append, List.forall_mem_cons, List.forall_mem_append, and_left_comm]

/-- Among legible entries a foreign one changes nothing. -/
theorem ofJson?_insert (foreign : fieldName key ∉ schema.fields.map (·.name))
    (legible : Legible (fieldName key) v)
    (others : ∀ e ∈ es₁ ++ es₂, Legible (fieldName e.1) e.2) :
    ofJson? schema (.object (es₁ ++ (key, v) :: es₂)) = ofJson? schema (.object (es₁ ++ es₂)) := by
  rw [ofJson?_of_legible (legible_insert_iff.mpr ⟨legible, others⟩), ofJson?_of_legible others]
  congr 1
  refine mapM_congr fun f mem => ?_
  have other : fieldName key ≠ f.name := fun same => foreign (same ▸ List.mem_map_of_mem mem)
  rw [valueFrom?, valueFrom?, lastMeaning?_insert other]

/-- A foreign entry decides whether an object is read, but not what it is read as. -/
theorem foreign_entry_outcome (foreign : fieldName key ∉ schema.fields.map (·.name)) (v : Value) :
    (∀ r, ofJson? schema (.object (es₁ ++ (key, v) :: es₂)) = .ok r ↔
      Legible (fieldName key) v ∧ ofJson? schema (.object (es₁ ++ es₂)) = .ok r) ∧
    (¬Legible (fieldName key) v →
      ∃ f, ofJson? schema (.object (es₁ ++ (key, v) :: es₂)) = .error f ∧ f.kind = .value) := by
  constructor
  · intro r
    constructor
    · intro read
      obtain ⟨legible, others⟩ := legible_insert_iff.mp (ofJson?_eq_ok_iff.mp read).1
      exact ⟨legible, (ofJson?_insert foreign legible others).symm.trans read⟩
    · rintro ⟨legible, read⟩
      have others := (ofJson?_eq_ok_iff.mp read).1
      exact (ofJson?_insert foreign legible others).trans read
  · intro illegible
    exact ofJson?_of_illegible schema fun all =>
      illegible (all (key, v) (List.mem_append_right _ List.mem_cons_self))

/-! ### A checkpoint with a status -/

theorem status_foreign : fieldName "status" ∉ Schema.checkpoint.fields.map (·.name) := by
  rw [fieldName_of_isSnake (by decide) (by decide)]
  decide

theorem ofJson?_zero_checkpoint :
    ofJson? .checkpoint (.object (zero .checkpoint).told) = .ok (zero .checkpoint) :=
  ofJson?_told (by decide) (by decide) (fits_zero .checkpoint) (.refl _)

/-- A status that is null is passed over. -/
theorem foreign_entry_outcome_null :
    ofJson? .checkpoint (.object ((zero .checkpoint).told ++ [("status", .null)])) =
      .ok (zero .checkpoint) := by
  refine ((foreign_entry_outcome status_foreign .null).1 _).mpr ⟨trivial, ?_⟩
  rw [List.append_nil]
  exact ofJson?_zero_checkpoint

/-- A status in words keeps a checkpoint from being read. -/
theorem foreign_words_refused :
    ofJson? .checkpoint (.object (zero .checkpoint).told) = .ok (zero .checkpoint) ∧
    fieldName "status" ∉ Schema.checkpoint.fields.map (·.name) ∧
    ∃ f, ofJson? .checkpoint (.object ((zero .checkpoint).told ++ [("status", .text "ok")])) =
      .error f ∧ f.kind = .value := by
  refine ⟨ofJson?_zero_checkpoint, status_foreign, ofJson?_of_illegible _ fun all => ?_⟩
  have legible := all ("status", .text "ok") (List.mem_append_right _ List.mem_cons_self)
  have unmarked : Hex.markedDigits? "ok" = none := by decide
  rw [Legible, unmarked] at legible
  exact absurd legible (by decide)

end BeaconBranch.Record
