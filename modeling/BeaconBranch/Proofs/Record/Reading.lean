import BeaconBranch.Proofs.Lookup
import BeaconBranch.Proofs.Record.Codec
import BeaconBranch.Proofs.Record.Tree
import BeaconBranch.Proofs.Text.Decimal
import BeaconBranch.Proofs.Text.Hex
import BeaconBranch.Record.Reading
import Mathlib.Data.List.Perm.Basic

/-!
Records come back from JSON objects. An entry means a value of the field that its key names. Main
statements: an object that has an entry for each field of a schema, in any order, is read as the
record of the values that the entries mean; and a record comes back from the object in which a
beacon node tells it, with decimal numbers and marked bytes.
-/

namespace BeaconBranch

open Outcome

namespace FieldKind

/-- A kind that holds byte strings. -/
def isBytes : FieldKind → Bool
  | bytes _ | chunk | extraData => true
  | uint64 | uint256 | flag => false

/-- A value is a byte string exactly if its kind holds byte strings; otherwise it is a number or a
flag. -/
theorem shape_of_holds {k : FieldKind} {v : Value} (holds : k.Holds v) :
    (k.isBytes = true ∧ ∃ b, v = .bytes b) ∨
      k.isBytes = false ∧ ((∃ n, v = .int n) ∨ ∃ b, v = .flag b) := by
  cases k with
  | uint64 =>
    obtain ⟨n, rfl, -⟩ := holds_uint64_iff.mp holds
    exact .inr ⟨rfl, .inl ⟨n, rfl⟩⟩
  | uint256 =>
    obtain ⟨n, rfl, -⟩ := holds_uint256_iff.mp holds
    exact .inr ⟨rfl, .inl ⟨n, rfl⟩⟩
  | flag =>
    obtain ⟨b, rfl⟩ := holds_flag_iff.mp holds
    exact .inr ⟨rfl, .inr ⟨b, rfl⟩⟩
  | chunk =>
    obtain ⟨b, rfl, -⟩ := holds_chunk_iff.mp holds
    exact .inl ⟨rfl, b, rfl⟩
  | extraData =>
    obtain ⟨b, rfl, -⟩ := holds_extraData_iff.mp holds
    exact .inl ⟨rfl, b, rfl⟩
  | bytes n =>
    obtain ⟨b, rfl, -⟩ := holds_bytes_iff.mp holds
    exact .inl ⟨rfl, b, rfl⟩

end FieldKind

namespace Record

/-- An entry of an object means a value under the name of a field. -/
def Means (entry field : String × Value) : Prop :=
  fieldName entry.1 = field.1 ∧ readValue? field.1 entry.2 = .ok (some field.2)

/-- Marked bytes in a field of bytes mean these bytes. -/
theorem means_marked {name : String} (own : fieldName name = name)
    (isBytes : byteFields.contains name = true) (b : ByteArray) :
    Means (name, .text (Hex.marked b)) (name, .bytes b) := by
  have read : readMarked? name (Hex.marked b) (b.data.toList.flatMap Hex.digits) =
      .ok (some (.bytes b)) := by
    rw [readMarked?, bind_eq_ok_iff]
    refine ⟨_, Hex.wholeDigits?_digits _ b, ?_⟩
    rw [if_pos isBytes, Hex.decodeChars?_digits]
    rfl
  refine ⟨own, ?_⟩
  simp only [readValue?, Hex.markedDigits?_marked, read]

variable {es read : List (String × Value)}

/-- Steps that put one field each leave the fields in order, behind those already there. -/
theorem foldlM_put {step : List (String × Value) → String × Value →
      Except Fault (List (String × Value))}
    (puts : ∀ acc e f, Means e f → step acc e = .ok (Value.put f.1 f.2 acc))
    (means : List.Forall₂ Means es read) (acc : List (String × Value))
    (distinct : ((acc ++ read).map Prod.fst).Nodup) :
    es.foldlM step acc = .ok (acc ++ read) := by
  induction means generalizing acc with
  | nil =>
    rw [List.append_nil]
    rfl
  | @cons e f es read first _ ih =>
    have behind : Value.put f.1 f.2 acc = acc ++ [f] := by
      refine Value.put_of_notMem (fun mem => ?_) f.2
      rw [List.map_append, List.nodup_append] at distinct
      exact distinct.2.2 f.1 mem f.1 List.mem_cons_self rfl
    rw [List.foldlM_cons, bind_eq_ok_iff]
    refine ⟨acc ++ [f], (puts acc e f first).trans (congrArg Except.ok behind), ?_⟩
    rw [ih _ (by rwa [List.append_assoc, List.singleton_append]), List.append_assoc,
      List.singleton_append]

/-- Entries of different fields are read side by side. -/
theorem readEntries?_of_means (means : List.Forall₂ Means es read)
    (distinct : (read.map Prod.fst).Nodup) : readEntries? es = .ok read := by
  refine foldlM_put ?_ means [] distinct
  rintro acc ⟨key, v⟩ ⟨name, w⟩ ⟨names, value⟩
  dsimp only at names value
  simp only [names, value, bind_eq_ok_iff, pure_eq_ok_iff]
  exact ⟨_, rfl, rfl⟩

/-- Names that are paired with values are names of fields. -/
theorem any_name_of_mem_zip {s : Schema} {values : List Value} {e : String × Value}
    (mem : e ∈ (s.fields.map (·.name)).zip values) : s.fields.any (·.name == e.1) = true := by
  obtain ⟨f, inSchema, name⟩ := List.mem_map.mp (List.of_mem_zip mem).1
  exact List.any_eq_true.mpr ⟨f, inSchema, beq_iff_eq.mpr name⟩

/-- A record is built from one value for each field, whatever their order. -/
theorem build?_of_perm {s : Schema} (distinct : (s.fields.map (·.name)).Nodup)
    {values : List Value} (count : values.length = s.fields.length)
    (perm : read.Perm ((s.fields.map (·.name)).zip values)) : s.build? read = .ok ⟨s, values⟩ := by
  have length : (s.fields.map (·.name)).length = values.length := by
    rw [List.length_map, count]
  have keys : (((s.fields.map (·.name)).zip values).map Prod.fst).Nodup := by
    rwa [List.map_fst_zip length.le]
  rw [Schema.build?, List.any_eq_false.mpr ?known]
  case known =>
    intro e mem
    dsimp only
    rw [any_name_of_mem_zip (perm.mem_iff.mp mem)]
    decide
  simp only [Bool.false_eq_true, if_false, bind_eq_ok_iff, pure_eq_ok_iff]
  refine ⟨values, mapM_eq_ok_iff.mpr ?_, rfl⟩
  refine forall₂_of_getElem? count.symm fun i f v field value => ?_
  rw [Schema.valueOf?, Value.lookup_eq, ← lookup_of_perm perm.symm keys,
    lookup_zip distinct (by rw [List.getElem?_map, field]; rfl) value]

/-- An object with an entry for each field is read as the record of what the entries mean. -/
theorem ofJson?_of_means {s : Schema} (distinct : (s.fields.map (·.name)).Nodup)
    {values : List Value} (count : values.length = s.fields.length)
    (means : List.Forall₂ Means es read)
    (perm : read.Perm ((s.fields.map (·.name)).zip values)) :
    ofJson? s (.object es) = .ok ⟨s, values⟩ := by
  have length : (s.fields.map (·.name)).length = values.length := by
    rw [List.length_map, count]
  have keys : (read.map Prod.fst).Nodup := by
    rw [(perm.map Prod.fst).nodup_iff, List.map_fst_zip length.le]
    exact distinct
  simp only [ofJson?, entriesOf?, bind_eq_ok_iff]
  refine ⟨es, rfl, _, readEntries?_of_means means keys, ?_⟩
  rw [List.filter_eq_self.mpr ?known, build?_of_perm distinct count perm]
  exact fun e mem => any_name_of_mem_zip (perm.mem_iff.mp mem)

/-- What is read from JSON is a record of the schema, with values of any type. -/
theorem isA_of_ofJson? {s : Schema} {v : Value} {r : Record} (made : ofJson? s v = .ok r) :
    r.IsA s := by
  simp only [ofJson?, bind_eq_ok_iff] at made
  obtain ⟨_, -, _, -, made⟩ := made
  rw [Schema.build?] at made
  split at made
  · cases made
  · obtain ⟨values, each, made⟩ := bind_eq_ok_iff.mp made
    cases made
    exact ⟨rfl, (mapM_eq_ok_iff.mp each).length_eq.symm⟩

/-! ### Records as they are told -/

/-- A value as beacon nodes tell it. -/
def tell : Value → Value
  | .int n => .text (toString n)
  | .bytes b => .text (Hex.marked b)
  | v => v

/-- The entries of the object in which beacon nodes tell a record. -/
def told (r : Record) : List (String × Value) :=
  (r.schema.fields.map (·.name)).zip (r.values.map tell)

/-- A field whose told values are read in its own way: its name is a key that means it, and tells
whether its values are bytes. -/
def isTellable (f : Field) : Bool := fieldName f.name == f.name && match f.kind with
  | .uint64 | .flag => true
  | .bytes _ => byteFields.contains f.name
  | _ => false

theorem markedDigits?_toString (n : Nat) : Hex.markedDigits? (toString (n : Int)) = none := by
  have digits : ∀ c ∈ (toString (n : Int)).toList, c.isDigit = true := by
    rw [Decimal.toList_toString]
    exact fun c mem => Decimal.isDigit_of_mem mem
  rw [Hex.markedDigits?]
  split
  · rename_i shown
    have letter := digits 'x' (by rw [shown]; simp)
    contradiction
  · rfl

theorem lt_of_lt_twoTo {n : Nat} (lt : n < twoTo 64) : n < 10 ^ Decimal.maxDigits := by
  have short : twoTo 64 ≤ 10 ^ 20 := by decide +kernel
  have long : 10 ^ 20 ≤ 10 ^ Decimal.maxDigits := Nat.pow_le_pow_right (by decide) (by decide)
  omega

/-- What is told of a field's value means this value. -/
theorem means_tell {f : Field} (tellable : isTellable f = true) {v : Value}
    (holds : f.kind.Holds v) : Means (f.name, tell v) (f.name, v) := by
  obtain ⟨own, kind⟩ := Bool.and_eq_true_iff.mp tellable
  have own : fieldName f.name = f.name := beq_iff_eq.mp own
  cases k : f.kind with
  | uint64 =>
    rw [k] at holds
    obtain ⟨n, rfl, ge, lt⟩ := FieldKind.holds_uint64_iff.mp holds
    obtain ⟨n, rfl⟩ := Int.eq_ofNat_of_zero_le ge
    refine ⟨own, ?_⟩
    have number := Decimal.toInt?_toString (lt_of_lt_twoTo (n := n) (by omega))
    simp only [tell, readValue?, markedDigits?_toString, number]
  | flag =>
    rw [k] at holds
    obtain ⟨b, rfl⟩ := FieldKind.holds_flag_iff.mp holds
    exact ⟨own, rfl⟩
  | bytes n =>
    rw [k] at holds kind
    obtain ⟨b, rfl, -⟩ := FieldKind.holds_bytes_iff.mp holds
    exact means_marked own kind b
  | uint256 | chunk | extraData =>
    rw [k] at kind
    cases kind

/-- Values that are shown under the names of their fields mean themselves side by side. -/
theorem forall₂_means_map {shown : Value → Value} {fields : List Field} {values : List Value}
    (each : List.Forall₂ (fun f v => Means (f.name, shown v) (f.name, v)) fields values) :
    List.Forall₂ Means ((fields.map (·.name)).zip (values.map shown))
      ((fields.map (·.name)).zip values) := by
  induction each with
  | nil => exact .nil
  | cons first _ ih => exact .cons first ih

/-- Values that are shown under the names of their fields are those of a record. -/
theorem exists_of_mem_zip {shown : Value → Value} {r : Record} {s : Schema} (fits : r.Fits s)
    {e : String × Value} (mem : e ∈ (r.schema.fields.map (·.name)).zip (r.values.map shown)) :
    ∃ f ∈ s.fields, ∃ v, f.kind.Holds v ∧ e = (f.name, shown v) := by
  obtain ⟨rfl, holds⟩ := fits
  rw [List.zip_map] at mem
  obtain ⟨⟨f, v⟩, pair, rfl⟩ := List.mem_map.mp mem
  exact ⟨f, (List.of_mem_zip pair).1, v, (List.forall₂_iff_zip.mp holds).2 pair, rfl⟩

theorem forall₂_means_tell {fields : List Field} {values : List Value}
    (tellable : ∀ f ∈ fields, isTellable f = true)
    (holds : List.Forall₂ (fun f v => f.kind.Holds v) fields values) :
    List.Forall₂ Means ((fields.map (·.name)).zip (values.map tell))
      ((fields.map (·.name)).zip values) := by
  have both := (List.forall₂_and_left fields values).mpr ⟨tellable, holds⟩
  exact forall₂_means_map (both.imp fun f v ⟨tellable, holds⟩ => means_tell tellable holds)

/-- A record is read from what is told of it, in any order. -/
theorem ofJson?_told {r : Record} {s : Schema} (distinct : (s.fields.map (·.name)).Nodup)
    (tellable : ∀ f ∈ s.fields, isTellable f = true) (fits : r.Fits s)
    {es : List (String × Value)} (perm : es.Perm r.told) : ofJson? s (.object es) = .ok r := by
  obtain ⟨rfl, holds⟩ := fits
  obtain ⟨read, means, order⟩ := List.perm_comp_forall₂ perm (forall₂_means_tell tellable holds)
  exact ofJson?_of_means distinct holds.length_eq.symm means order

end Record

end BeaconBranch
