import BeaconBranch.Proofs.Record.Entries

/-!
Records in every spelling that beacon nodes use. A key is written in snake case or in camel case,
the digits of a byte string come in either case, and the entries of an object come in any order.
Main statement: a record is read from every object that spells it.
-/

namespace BeaconBranch

open Outcome

/-! ### Keys -/

namespace Record

/-- A key that spells the name of a field, in snake case or in camel case. The parent of a block has
two names. -/
inductive Spells : String → String → Prop
  | snake (name : String) : Spells name name
  | camel (name : String) : Spells (SnakeCase.toCamel name) name
  | block : Spells "parent_block_root" "parent_root"
  | camelBlock : Spells (SnakeCase.toCamel "parent_block_root") "parent_root"

variable {key name : String}

theorem fieldName_of_spells (spells : Spells key name) (snake : SnakeCase.isSnake name = true)
    (plain : name ≠ "parent_block_root") : fieldName key = name := by
  cases spells with
  | snake => exact fieldName_of_isSnake snake plain
  | camel => rw [fieldName, SnakeCase.ofCamel_toCamel snake, if_neg plain]
  | block => rw [fieldName, SnakeCase.ofCamel_of_isSnake (by decide), if_pos rfl]
  | camelBlock => rw [fieldName, SnakeCase.ofCamel_toCamel (by decide), if_pos rfl]

/-! ### Values -/

/-- A value is told: numbers as decimal text, bytes as marked text with digits in either case, and
flags as they are. -/
inductive Tells : Value → Value → Prop
  | number (n : Int) : Tells (.text (toString n)) (.int n)
  | bytes {s : String} {cs : List Char} (b : ByteArray) (marked : s.toList = '0' :: 'x' :: cs)
    (digits : cs.map Char.toLower = b.data.toList.flatMap Hex.digits) :
    Tells (.text s) (.bytes b)
  | flag (b : Bool) : Tells (.flag b) (.flag b)

variable {v w : Value} {f : Field}

/-- Digits of bytes in either case are read as these bytes. -/
theorem readMarked?_of_toLower (isBytes : byteFields.contains name = true) (s : String)
    {cs : List Char} {b : ByteArray}
    (digits : cs.map Char.toLower = b.data.toList.flatMap Hex.digits) :
    readMarked? name s cs = .ok (some (.bytes b)) := by
  have allDigits : Hex.AllDigits cs := by
    intro c mem
    rw [← Hex.digitValue?_toLower]
    exact Hex.allDigits_digits b _ (digits ▸ List.mem_map_of_mem mem)
  have even : Hex.evenDigits cs = cs := by
    have pairs := Hex.length_digits b
    rw [← digits, List.length_map] at pairs
    rw [Hex.evenDigits, if_neg (by omega)]
  rw [readMarked?, Hex.wholeDigits?_of_allDigits s allDigits, ok_bind, if_pos isBytes, even,
    ← Hex.decodeChars?_map_toLower, digits, Hex.decodeChars?_digits]
  rfl

theorem isBytes_of_tellable (tellable : isTellable f = true) {b : ByteArray}
    (holds : f.kind.Holds (.bytes b)) : byteFields.contains f.name = true := by
  obtain ⟨-, kind⟩ := Bool.and_eq_true_iff.mp tellable
  cases k : f.kind with
  | bytes n =>
    rw [k] at kind
    exact kind
  | uint64 | flag | uint256 =>
    rw [k] at holds
    exact holds.elim
  | chunk | extraData =>
    rw [k] at kind
    cases kind

/-- What is told of a field's value under a key that spells its name means this value. -/
theorem means_of_tells (spells : Spells key f.name) (snake : SnakeCase.isSnake f.name = true)
    (plain : f.name ≠ "parent_block_root") (tellable : isTellable f = true)
    (holds : f.kind.Holds w) (tells : Tells v w) : Means (key, v) (f.name, w) := by
  refine ⟨fieldName_of_spells spells snake plain, ?_⟩
  cases tells with
  | number n => exact (means_tell tellable holds).2
  | flag b => rfl
  | @bytes s cs b marked digits =>
    have rest : Hex.markedDigits? s = some cs := by
      rw [Hex.markedDigits?, marked]
      rfl
    simp only [readValue?, rest,
      readMarked?_of_toLower (isBytes_of_tellable tellable holds) s digits]

/-! ### Objects -/

/-- An object spells a record: in some order, its entries tell the values of the fields under keys
that spell their names. -/
def SpelledIn (r : Record) (es : List (String × Value)) : Prop :=
  ∃ ordered : List (String × Value), es.Perm ordered ∧
    List.Forall₂ (fun e f => Spells e.1 f.1 ∧ Tells e.2 f.2) ordered
      ((r.schema.fields.map (·.name)).zip r.values)

/-- A schema whose records can be spelled. -/
structure Spellable (s : Schema) : Prop where
  distinct : (s.fields.map (·.name)).Nodup
  snake : ∀ f ∈ s.fields, SnakeCase.isSnake f.name = true
  plain : ∀ f ∈ s.fields, f.name ≠ "parent_block_root"
  tellable : ∀ f ∈ s.fields, isTellable f = true

theorem spellable_validator : Spellable .validator where
  distinct := by decide
  snake := by decide
  plain := by decide
  tellable := by decide

theorem spellable_blockHeader : Spellable .blockHeader where
  distinct := by decide
  snake := by decide
  plain := by decide
  tellable := by decide

variable {s : Schema} {r : Record} {es : List (String × Value)}

theorem tells_tell {k : FieldKind} (holds : k.Holds w) : Tells (tell w) w := by
  rcases FieldKind.shape_of_holds holds with ⟨-, b, rfl⟩ | ⟨-, ⟨n, rfl⟩ | ⟨b, rfl⟩⟩
  · exact .bytes b (Hex.toList_marked b) (Hex.map_toLower_digits b)
  · exact .number n
  · exact .flag b

/-- A record is spelled in the object in which it is told. -/
theorem spelledIn_told (fits : r.Fits s) : r.SpelledIn r.told := by
  obtain ⟨rfl, holds⟩ := fits
  refine ⟨r.told, .refl _, ?_⟩
  rw [told]
  generalize r.schema.fields = fields, r.values = values at holds
  induction holds with
  | nil => exact .nil
  | cons first _ ih => exact .cons ⟨.snake _, tells_tell first⟩ ih

/-- The entries that spell a record in order mean the values of its fields. -/
theorem means_of_spelled (spellable : Spellable s) (fits : r.Fits s)
    (each : List.Forall₂ (fun e f => Spells e.1 f.1 ∧ Tells e.2 f.2) es
      ((r.schema.fields.map (·.name)).zip r.values)) :
    List.Forall₂ Means es ((r.schema.fields.map (·.name)).zip r.values) := by
  obtain ⟨length, each⟩ := List.forall₂_iff_zip.mp each
  refine List.forall₂_iff_zip.mpr ⟨length, fun {e n} pair => ?_⟩
  obtain ⟨spells, tells⟩ := each pair
  have inRecord := (List.of_mem_zip pair).2
  rw [← List.map_id' r.values] at inRecord
  obtain ⟨f, mem, w, holds, rfl⟩ := exists_of_mem_zip fits inRecord
  exact means_of_tells spells (spellable.snake f mem) (spellable.plain f mem)
    (spellable.tellable f mem) holds tells

/-- A record is read from every object that spells it. -/
theorem ofJson?_of_spelledIn (spellable : Spellable s) (fits : r.Fits s)
    (spelled : r.SpelledIn es) : ofJson? s (.object es) = .ok r := by
  obtain ⟨ordered, perm, each⟩ := spelled
  obtain ⟨read, means, order⟩ :=
    List.perm_comp_forall₂ perm (means_of_spelled spellable fits each)
  obtain ⟨rfl, holds⟩ := fits
  exact ofJson?_of_means spellable.distinct holds.length_eq.symm means order

theorem mem_of_means {read : List (String × Value)} (means : List.Forall₂ Means es read)
    {e : String × Value} (mem : e ∈ es) : fieldName e.1 ∈ read.map Prod.fst := by
  induction means with
  | nil => cases mem
  | cons first _ ih =>
    rw [List.map_cons]
    rcases List.mem_cons.mp mem with rfl | later
    · rw [first.1]
      exact List.mem_cons_self
    · exact List.mem_cons_of_mem _ (ih later)

/-- An object that spells a record has no keys but those of its fields. -/
theorem lookup_of_spelledIn (spellable : Spellable s) (fits : r.Fits s) (spelled : r.SpelledIn es)
    {key : String} (foreign : fieldName key ∉ s.fields.map (·.name)) :
    Value.lookup key es = none := by
  obtain ⟨ordered, perm, each⟩ := spelled
  rw [Value.lookup_eq, List.lookup_eq_none_iff]
  intro e mem
  have named := mem_of_means (means_of_spelled spellable fits each) (perm.mem_iff.mp mem)
  obtain ⟨n, inRecord, own⟩ := List.mem_map.mp named
  refine bne_iff_ne.mpr fun same => foreign ?_
  rw [same, ← own, ← fits.schema]
  exact (List.of_mem_zip inRecord).1

end Record

end BeaconBranch
