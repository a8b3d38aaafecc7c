import BeaconBranch.Value
import Mathlib.Data.List.Basic

/-!
Entries under names. Names that are all different lead to the entries that stand at their places,
and to the same ones when the entries change places or those of other names are left out.
-/

namespace BeaconBranch

variable {α : Type}

theorem lookup_zip {names : List String} {parts : List α} (nodup : names.Nodup) {k : Nat}
    {name : String} {b : α} (named : names[k]? = some name) (part : parts[k]? = some b) :
    (names.zip parts).lookup name = some b := by
  induction names generalizing parts k with
  | nil => simp at named
  | cons first names ih =>
    rw [List.nodup_cons] at nodup
    obtain ⟨fresh, nodup⟩ := nodup
    cases parts with
    | nil => simp at part
    | cons x parts =>
      rw [List.zip_cons_cons, List.lookup_cons]
      cases k with
      | zero =>
        obtain rfl : first = name := Option.some.inj named
        obtain rfl : x = b := Option.some.inj part
        rw [beq_self_eq_true]
      | succ k =>
        have differ : name ≠ first := fun same => fresh (same ▸ List.mem_of_getElem? named)
        rw [beq_eq_false_iff_ne.mpr differ]
        exact ih nodup named part

theorem lookup_filter {all : List (String × α)} {keep : String → Bool} {name : String}
    (kept : keep name = true) : (all.filter fun e => keep e.1).lookup name = all.lookup name := by
  induction all with
  | nil => rfl
  | cons e rest ih =>
    obtain ⟨n, b⟩ := e
    rw [List.filter_cons]
    by_cases same : name = n
    · subst same
      rw [if_pos kept, List.lookup_cons, List.lookup_cons, beq_self_eq_true]
    · have skip : ∀ l : List (String × α), ((n, b) :: l).lookup name = l.lookup name := fun l => by
        rw [List.lookup_cons, beq_eq_false_iff_ne.mpr same]
      split
      · rw [skip, skip, ih]
      · rw [skip, ih]

/-- Entries of different names may stand in any order. -/
theorem lookup_of_perm {entries other : List (String × α)} (perm : entries.Perm other)
    (nodup : (entries.map Prod.fst).Nodup) (name : String) :
    entries.lookup name = other.lookup name := by
  induction perm with
  | nil => rfl
  | cons e _ ih =>
    rw [List.map_cons, List.nodup_cons] at nodup
    rw [List.lookup_cons, List.lookup_cons, ih nodup.2]
  | swap e f rest =>
    obtain ⟨⟨k, x⟩, ⟨l, y⟩⟩ := e, f
    rw [List.map_cons, List.map_cons, List.nodup_cons] at nodup
    have differ : l ≠ k := fun same => nodup.1 (same ▸ List.mem_cons_self)
    simp only [List.lookup_cons]
    by_cases first : name = l
    · rw [beq_iff_eq.mpr first, beq_eq_false_iff_ne.mpr (first ▸ differ)]
    · rw [beq_eq_false_iff_ne.mpr first]
  | trans first _ ih ih' =>
    rw [ih nodup, ih' ((first.map Prod.fst).nodup_iff.mp nodup)]

theorem lookup_cons_eq_ite (key : String) (v : α) (entries : List (String × α)) (name : String) :
    ((key, v) :: entries).lookup name = if key = name then some v else entries.lookup name := by
  rw [List.lookup_cons]
  by_cases same : key = name
  · rw [if_pos same, same, beq_self_eq_true]
  · rw [if_neg same, beq_eq_false_iff_ne.mpr (Ne.symm same)]

theorem Value.lookup_eq (key : String) (entries : List (String × Value)) :
    Value.lookup key entries = entries.lookup key := by
  induction entries with
  | nil => rfl
  | cons e rest ih =>
    obtain ⟨k, v⟩ := e
    rw [Value.lookup, lookup_cons_eq_ite, ih]

/-- An entry that is put is found under its key, and the others are found as before. -/
theorem Value.lookup_put (key : String) (v : Value) (entries : List (String × Value))
    (name : String) :
    (put key v entries).lookup name = if key = name then some v else entries.lookup name := by
  induction entries with
  | nil => exact lookup_cons_eq_ite key v [] name
  | cons e rest ih =>
    obtain ⟨k, w⟩ := e
    by_cases same : k = key
    · rw [put, if_pos same, lookup_cons_eq_ite, lookup_cons_eq_ite, same]
      split
      · rfl
      · rfl
    · rw [put, if_neg same, lookup_cons_eq_ite, lookup_cons_eq_ite, ih]
      by_cases own : key = name
      · rw [if_pos own, if_pos own, if_neg (own ▸ same)]
      · rw [if_neg own, if_neg own]

/-- A new key goes last. -/
theorem Value.put_of_notMem {key : String} {entries : List (String × Value)}
    (new : key ∉ entries.map Prod.fst) (v : Value) : put key v entries = entries ++ [(key, v)] := by
  induction entries with
  | nil => rfl
  | cons e rest ih =>
    simp only [List.map_cons, List.mem_cons, not_or] at new
    rw [put, if_neg (Ne.symm new.1), ih new.2, List.cons_append]

end BeaconBranch
