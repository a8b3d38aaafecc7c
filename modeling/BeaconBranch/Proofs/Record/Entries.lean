import BeaconBranch.Proofs.Record.Reading
import BeaconBranch.Proofs.Text.SnakeCase

/-!
Objects entry by entry. The entries of an object are read one after another, and the last one that
means a value of a field decides about the field. Main statement: an object is read as a record
exactly if every entry of it can be read and every field has a value, and the record then holds for
each field what the last entry of the field means, or the field's default.
-/

namespace BeaconBranch.Record

open Outcome

/-! ### Names -/

/-- A name in snake case is a key of its own field. -/
theorem fieldName_of_isSnake {name : String} (snake : SnakeCase.isSnake name = true)
    (plain : name ≠ "parent_block_root") : fieldName name = name := by
  rw [fieldName, SnakeCase.ofCamel_of_isSnake snake, if_neg plain]

/-! ### Values -/

/-- A value that can be read under the name of a field: a text is marked and goes on with digits, at
least one of them if the field is a number, or it spells a number. -/
def Legible (name : String) : Value → Prop
  | .text s =>
    match Hex.markedDigits? s with
    | some ds => Hex.AllDigits ds ∧ (numberFields.contains name = true → ds ≠ [])
    | none => (Decimal.toInt? s).isSome = true
  | _ => True

variable {name : String} {v : Value} {ds : List Char}

theorem byteFields_of_numberFields (isNumber : numberFields.contains name = true) :
    byteFields.contains name = false := by
  have apart : ∀ n ∈ numberFields, byteFields.contains n = false := by decide
  exact apart name (List.contains_iff_mem.mp isNumber)

theorem readMarked?_of_digits (s : String) (digits : Hex.AllDigits ds)
    (some : numberFields.contains name = true → ds ≠ []) :
    ∃ w?, readMarked? name s ds = .ok w? := by
  rw [readMarked?, Hex.wholeDigits?_of_allDigits s digits, ok_bind]
  by_cases isBytes : byteFields.contains name = true
  · obtain ⟨b, read⟩ :=
      digits.evenDigits.exists_decodeChars? (Hex.length_evenDigits ds) ByteArray.empty
    rw [if_pos isBytes, read]
    exact ⟨_, rfl⟩
  rw [if_neg isBytes]
  by_cases isNumber : numberFields.contains name = true
  · obtain ⟨n, read⟩ := digits.evenDigits.exists_toNat? (Hex.evenDigits_ne_nil (some isNumber))
    rw [if_pos isNumber, read]
    exact ⟨_, rfl⟩
  · rw [if_neg isNumber]
    exact ⟨_, rfl⟩

theorem readMarked?_of_not_digits (s : String)
    (bad : ¬(Hex.AllDigits ds ∧ (numberFields.contains name = true → ds ≠ []))) :
    ∃ f, readMarked? name s ds = .error f ∧ f.kind = .value := by
  by_cases digits : Hex.AllDigits ds
  · have empty : numberFields.contains name = true ∧ ds = [] := by
      simpa [digits] using bad
    obtain ⟨isNumber, rfl⟩ := empty
    refine ⟨.misuse .value, ?_, rfl⟩
    rw [readMarked?, Hex.wholeDigits?_of_allDigits s digits, ok_bind,
      byteFields_of_numberFields isNumber, if_neg (by decide), if_pos isNumber]
    rfl
  · refine ⟨.invalidHex s, ?_, rfl⟩
    rw [readMarked?, Hex.wholeDigits?_of_not_allDigits s digits, error_bind]

/-- A value is read exactly if it is legible, and refused as a wrong value otherwise. -/
theorem readValue?_spec (name : String) (v : Value) :
    Legible name v ∧ (∃ w?, readValue? name v = .ok w?) ∨
      ¬Legible name v ∧ ∃ f, readValue? name v = .error f ∧ f.kind = .value := by
  cases v with
  | text s =>
    rw [Legible, readValue?]
    cases Hex.markedDigits? s with
    | some ds =>
      dsimp only
      by_cases legible : Hex.AllDigits ds ∧ (numberFields.contains name = true → ds ≠ [])
      · exact .inl ⟨legible, readMarked?_of_digits s legible.1 legible.2⟩
      · exact .inr ⟨legible, readMarked?_of_not_digits s legible⟩
    | none =>
      cases Decimal.toInt? s with
      | some n => exact .inl ⟨rfl, _, rfl⟩
      | none => exact .inr ⟨Bool.false_ne_true, _, rfl, rfl⟩
  | null | flag | int | real | bytes | list | object => exact .inl ⟨trivial, _, rfl⟩

/-! ### Entries -/

/-- The value that an entry means; nothing if it is passed over. -/
def meaning? (e : String × Value) : Option Value :=
  match readValue? (fieldName e.1) e.2 with
  | .ok w? => w?
  | .error _ => none

/-- The value that entries mean for a field: what the last of them means that means anything for
the field. -/
def lastMeaning? (name : String) : List (String × Value) → Option Value
  | [] => none
  | e :: es => (lastMeaning? name es).or (if fieldName e.1 = name then meaning? e else none)

variable {es : List (String × Value)}

theorem lastMeaning?_eq_none (silent : ∀ e ∈ es, fieldName e.1 = name → meaning? e = none) :
    lastMeaning? name es = none := by
  induction es with
  | nil => rfl
  | cons e es ih =>
    obtain ⟨first, others⟩ := List.forall_mem_cons.mp silent
    rw [lastMeaning?, ih others, Option.none_or]
    split
    · exact first ‹_›
    · rfl

/-- Reads one entry, below those already read. -/
def readNext? (read : List (String × Value)) (e : String × Value) :
    Except Fault (List (String × Value)) := do
  return match ← readValue? (fieldName e.1) e.2 with
    | some w => Value.put (fieldName e.1) w read
    | none => read

theorem readEntries?_eq (es : List (String × Value)) : readEntries? es = es.foldlM readNext? [] :=
  rfl

/-- One entry is read exactly if it is legible, and decides about its own field alone. -/
theorem readNext?_spec (read : List (String × Value)) (e : String × Value) :
    (Legible (fieldName e.1) e.2 ∧ ∃ next, readNext? read e = .ok next ∧ ∀ name,
        next.lookup name =
          (if fieldName e.1 = name then meaning? e else none).or (read.lookup name)) ∨
      ¬Legible (fieldName e.1) e.2 ∧ ∃ f, readNext? read e = .error f ∧ f.kind = .value := by
  rcases readValue?_spec (fieldName e.1) e.2 with ⟨legible, w?, ok⟩ | ⟨illegible, f, refused, kind⟩
  · refine .inl ⟨legible, _, by rw [readNext?, ok]; rfl, fun name => ?_⟩
    cases w? with
    | none => simp [meaning?, ok]
    | some w =>
      dsimp only
      rw [meaning?, ok]
      dsimp only
      rw [Value.lookup_put]
      split <;> rfl
  · exact .inr ⟨illegible, f, by rw [readNext?, refused]; rfl, kind⟩

/-- Entries are read exactly if all of them are legible, and what is read for a field is what they
mean for it, or else what was read before. -/
theorem foldlM_readNext?_spec (es read : List (String × Value)) :
    ((∀ e ∈ es, Legible (fieldName e.1) e.2) ∧ ∃ all, es.foldlM readNext? read = .ok all ∧
        ∀ name, all.lookup name = (lastMeaning? name es).or (read.lookup name)) ∨
      ¬(∀ e ∈ es, Legible (fieldName e.1) e.2) ∧
        ∃ f, es.foldlM readNext? read = .error f ∧ f.kind = .value := by
  -- What was read before stands behind all that the entries mean, so it is left open.
  induction es generalizing read with
  | nil => exact .inl ⟨List.forall_mem_nil _, read, rfl, fun name => rfl⟩
  | cons e es ih =>
    rw [List.forall_mem_cons, List.foldlM_cons]
    rcases readNext?_spec read e with ⟨legible, next, ok, found⟩ | ⟨illegible, f, refused, kind⟩
    · rw [ok, ok_bind, and_iff_right legible]
      refine (ih next).imp_left fun ⟨others, all, rest, foundRest⟩ => ⟨others, all, rest, ?_⟩
      intro name
      rw [foundRest, found, lastMeaning?, Option.or_assoc]
    · exact .inr ⟨fun all => illegible all.1, f, by rw [refused, error_bind], kind⟩

theorem readEntries?_spec (es : List (String × Value)) :
    ((∀ e ∈ es, Legible (fieldName e.1) e.2) ∧ ∃ read, readEntries? es = .ok read ∧
        ∀ name, read.lookup name = lastMeaning? name es) ∨
      ¬(∀ e ∈ es, Legible (fieldName e.1) e.2) ∧
        ∃ f, readEntries? es = .error f ∧ f.kind = .value := by
  rw [readEntries?_eq]
  refine (foldlM_readNext?_spec es []).imp_left fun ⟨legible, read, ok, found⟩ =>
    ⟨legible, read, ok, fun name => ?_⟩
  rw [found, List.lookup_nil, Option.or_none]

/-! ### Records -/

variable {schema : Schema} {r : Record}

/-- The value that entries give to a field: what they mean for it, or its default. -/
def valueFrom? (es : List (String × Value)) (f : Field) : Option Value :=
  (lastMeaning? f.name es).or f.default?

/-- A value that has to be there. -/
def required : Option Value → Except Fault Value
  | some v => .ok v
  | none => .error .wrongType

theorem required_eq_ok_iff {v? : Option Value} : required v? = .ok v ↔ v? = some v := by
  cases v? <;> simp [required]

theorem required_eq_error_iff {v? : Option Value} {f : Fault} :
    required v? = .error f ↔ v? = none ∧ f = .wrongType := by
  cases v? <;> simp [required, eq_comm]

theorem valueOf?_eq (entries : List (String × Value)) (f : Field) :
    Schema.valueOf? entries f = required ((entries.lookup f.name).or f.default?) := by
  rw [Schema.valueOf?, Value.lookup_eq]
  cases entries.lookup f.name with
  | some v => rfl
  | none => cases f.default? <;> rfl

/-- Once the foreign names are left out, a record is built from the values of its fields. -/
theorem build?_filter (read : List (String × Value)) :
    schema.build? (read.filter fun (name, _) => schema.fields.any (·.name == name)) =
      (schema.fields.mapM (Schema.valueOf? read)).map (Record.mk schema) := by
  have known : (read.filter fun (name, _) => schema.fields.any (·.name == name)).any
      (fun (name, _) => !(schema.fields.any (·.name == name))) = false := by
    refine List.any_eq_false.mpr fun (name, v) mem => ?_
    have own : schema.fields.any (·.name == name) = true := (List.mem_filter.mp mem).2
    dsimp only
    rw [own]
    decide
  have values : schema.fields.mapM (Schema.valueOf?
      (read.filter fun (name, _) => schema.fields.any (·.name == name))) =
        schema.fields.mapM (Schema.valueOf? read) := by
    refine mapM_congr fun f mem => ?_
    have own : schema.fields.any (·.name == f.name) = true :=
      List.any_eq_true.mpr ⟨f, mem, beq_self_eq_true _⟩
    have kept := @lookup_filter _ read (fun name => schema.fields.any (·.name == name)) f.name own
    rw [valueOf?_eq, valueOf?_eq, kept]
  rw [Schema.build?, known, if_neg (by decide), values]
  cases schema.fields.mapM (Schema.valueOf? read) <;> rfl

/-- An object whose entries are legible is read as the record of the values that they give, if they
give one to each field. -/
theorem ofJson?_of_legible (legible : ∀ e ∈ es, Legible (fieldName e.1) e.2) :
    ofJson? schema (.object es) =
      (schema.fields.mapM fun f => required (valueFrom? es f)).map (Record.mk schema) := by
  rcases readEntries?_spec es with ⟨-, read, ok, found⟩ | ⟨illegible, -⟩
  · rw [ofJson?, entriesOf?, ok_bind, ok, ok_bind, build?_filter]
    congr 1
    refine mapM_congr fun f _ => ?_
    rw [valueOf?_eq, found, valueFrom?]
  · exact absurd legible illegible

/-- An object with an entry that is not legible is refused, whatever the other entries say. -/
theorem ofJson?_of_illegible (schema : Schema)
    (illegible : ¬∀ e ∈ es, Legible (fieldName e.1) e.2) :
    ∃ f, ofJson? schema (.object es) = .error f ∧ f.kind = .value := by
  rcases readEntries?_spec es with ⟨legible, -⟩ | ⟨-, f, refused, kind⟩
  · exact absurd legible illegible
  · exact ⟨f, by rw [ofJson?, entriesOf?, ok_bind, refused, error_bind], kind⟩

/-- An object whose entries are legible but give no value to some field is refused. -/
theorem ofJson?_of_incomplete (legible : ∀ e ∈ es, Legible (fieldName e.1) e.2)
    (incomplete : ∃ f ∈ schema.fields, valueFrom? es f = none) :
    ofJson? schema (.object es) = .error .wrongType := by
  obtain ⟨f, mem, none⟩ := incomplete
  obtain ⟨e, fails⟩ : ∃ e, (schema.fields.mapM fun f => required (valueFrom? es f)) = .error e :=
    exists_mapM_eq_error_iff.mpr
      ⟨f, mem, .wrongType, required_eq_error_iff.mpr ⟨none, rfl⟩⟩
  obtain ⟨_, _, _, -, -, missing⟩ := mapM_eq_error_iff.mp fails
  rw [ofJson?_of_legible legible, fails, (required_eq_error_iff.mp missing).2]
  rfl

/-- An object is read as a record exactly if its entries are legible and give each field its
value. -/
theorem ofJson?_eq_ok_iff : ofJson? schema (.object es) = .ok r ↔
    (∀ e ∈ es, Legible (fieldName e.1) e.2) ∧ r.schema = schema ∧
      List.Forall₂ (fun f v => valueFrom? es f = some v) schema.fields r.values := by
  by_cases legible : ∀ e ∈ es, Legible (fieldName e.1) e.2
  · rw [ofJson?_of_legible legible, and_iff_right legible, map_eq_ok_iff]
    simp only [mapM_eq_ok_iff, required_eq_ok_iff]
    constructor
    · rintro ⟨values, each, rfl⟩
      exact ⟨rfl, each⟩
    · rintro ⟨rfl, each⟩
      exact ⟨r.values, each, rfl⟩
  · obtain ⟨f, refused, -⟩ := ofJson?_of_illegible schema legible
    rw [refused]
    exact iff_of_false (by rintro ⟨⟩) fun read => legible read.1

end BeaconBranch.Record
