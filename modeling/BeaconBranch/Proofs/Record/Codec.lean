import BeaconBranch.Proofs.Chunk.Reading
import BeaconBranch.Record.Beacon

/-!
Records as bytes. The bytes of the fields stand side by side, and extra data stands behind all of
them, with a word in its place that tells where. Main statement: a byte string is read as a record
exactly if it is the bytes of this record, whose values fit their kinds; so no byte is lost and none
can be read in two ways.
-/

namespace BeaconBranch

open Outcome

/-! ### Fields -/

namespace FieldKind

/-- The values that a kind of field holds. -/
def Holds : FieldKind → Value → Prop
  | uint64, .int n => 0 ≤ n ∧ n < twoTo 64
  | uint256, .int n => 0 ≤ n ∧ n < twoTo 256
  | flag, .flag _ => True
  | bytes n, .bytes b => b.size = n
  | chunk, .bytes b => b.size = 32
  | extraData, .bytes b => b.size ≤ 32
  | _, _ => False

/-- Byte strings become one chunk if they are short, public keys or a logs bloom. -/
def Chunked : FieldKind → Prop
  | bytes n => n ≤ 32 ∨ n = 48 ∨ n = 256
  | _ => True

instance (k : FieldKind) : Decidable k.Chunked :=
  match k with
  | bytes n => inferInstanceAs (Decidable (n ≤ 32 ∨ n = 48 ∨ n = 256))
  | uint64 | uint256 | flag | chunk | extraData => inferInstanceAs (Decidable True)

theorem holds_uint64_iff {v : Value} :
    uint64.Holds v ↔ ∃ n : Int, v = .int n ∧ 0 ≤ n ∧ n < twoTo 64 := by
  cases v <;> simp [Holds]

theorem holds_uint256_iff {v : Value} :
    uint256.Holds v ↔ ∃ n : Int, v = .int n ∧ 0 ≤ n ∧ n < twoTo 256 := by
  cases v <;> simp [Holds]

theorem holds_flag_iff {v : Value} : flag.Holds v ↔ ∃ b, v = .flag b := by
  cases v <;> simp [Holds]

theorem holds_bytes_iff {n : Nat} {v : Value} :
    (bytes n).Holds v ↔ ∃ b, v = .bytes b ∧ b.size = n := by
  cases v <;> simp [Holds]

theorem holds_chunk_iff {v : Value} : chunk.Holds v ↔ ∃ b, v = .bytes b ∧ b.size = 32 := by
  cases v <;> simp [Holds]

theorem holds_extraData_iff {v : Value} :
    extraData.Holds v ↔ ∃ b, v = .bytes b ∧ b.size ≤ 32 := by
  cases v <;> simp [Holds]

/-- The bytes of a value in its place. Extra data leaves the word there that tells where it
starts. -/
def encode (start : Nat) : FieldKind → Value → ByteArray
  | uint64, .int n => Bytes.ofNatLE 8 n.toNat
  | uint256, .int n => Bytes.ofNatLE 32 n.toNat
  | flag, .flag b => Chunk.encodeFlag b
  | bytes _, .bytes b => b
  | chunk, .bytes b => b
  | extraData, _ => Bytes.ofNatLE 4 start
  | _, _ => ByteArray.empty

/-- The bytes of a value behind all places. -/
def trailing : FieldKind → Value → ByteArray
  | extraData, .bytes b => b
  | _, _ => ByteArray.empty

/-- A kind holds a value, and extra data is what stands behind all places. -/
def HoldsBefore (tail : ByteArray) : FieldKind → Value → Prop
  | extraData, v => v = .bytes tail
  | k, v => k.Holds v

/-- A number is read exactly from its own bytes. -/
theorem number_iff {data : ByteArray} {o bits width : Nat} (whole : bits = 8 * width) {v : Value} :
    (o + width ≤ data.size ∧ v = .int (Bytes.toNatLE (data.extract o (o + width)))) ↔
      ∃ n : Int, v = .int n ∧ (0 ≤ n ∧ n < twoTo bits) ∧ o + width ≤ data.size ∧
        data.extract o (o + width) = Bytes.ofNatLE width n.toNat := by
  have power : twoTo bits = 256 ^ width := by rw [whole, Bytes.twoTo_eight_mul]
  constructor
  · rintro ⟨le, rfl⟩
    have size : (data.extract o (o + width)).size = width := by rw [ByteArray.size_extract]; omega
    obtain ⟨lt, word⟩ := (Bytes.toNatLE_eq_iff size).mp rfl
    rw [← power] at lt
    exact ⟨_, rfl, ⟨by omega, by omega⟩, le, word⟩
  · rintro ⟨n, rfl, ⟨ge, lt⟩, le, same⟩
    have small : n.toNat < 256 ^ width := by rw [← power]; omega
    rw [same, Bytes.toNatLE_ofNatLE small, Int.toNat_of_nonneg ge]
    exact ⟨le, rfl⟩

/-- A value is read exactly if its bytes stand in its place. -/
theorem read?_iff {k : FieldKind} {data : ByteArray} {o start : Nat} {v : Value}
    (lt : start < twoTo 32) :
    (k.read? data o = .ok v ∧
        (k = .extraData → data.extract o (o + 4) = Bytes.ofNatLE 4 start)) ↔
      k.HoldsBefore (data.extract start data.size) v ∧ o + k.width ≤ data.size ∧
        data.extract o (o + k.width) = k.encode start v := by
  have vector : ∀ n x, Chunk.readBytes? data o (n : Nat) = .ok x ↔
      o + n ≤ data.size ∧ data.extract o (o + n) = x := fun n x => Chunk.readBytes?_eq_ok_iff
  cases k with
  | uint64 =>
    simp only [read?, bind_eq_ok_iff, pure_eq_ok_iff, Chunk.readUint64?_eq_ok_iff, reduceCtorEq,
      false_implies, and_true, HoldsBefore, holds_uint64_iff, width]
    constructor
    · rintro ⟨_, ⟨le, rfl⟩, rfl⟩
      obtain ⟨n, same, holds, rest⟩ := (number_iff (show 64 = 8 * 8 from rfl)).mp ⟨le, rfl⟩
      rw [same]
      exact ⟨⟨n, rfl, holds⟩, rest⟩
    · rintro ⟨⟨n, rfl, holds⟩, rest⟩
      obtain ⟨le, same⟩ := (number_iff (show 64 = 8 * 8 from rfl)).mpr ⟨n, rfl, holds, rest⟩
      exact ⟨_, ⟨le, rfl⟩, same.symm⟩
  | uint256 =>
    have read := vector 32
    rw [show ((32 : Nat) : Int) = 32 from rfl] at read
    simp only [read?, bind_eq_ok_iff, pure_eq_ok_iff, read, reduceCtorEq, false_implies, and_true,
      HoldsBefore, holds_uint256_iff, width]
    constructor
    · rintro ⟨_, ⟨le, rfl⟩, rfl⟩
      obtain ⟨n, same, holds, rest⟩ := (number_iff (show 256 = 8 * 32 from rfl)).mp ⟨le, rfl⟩
      rw [same]
      exact ⟨⟨n, rfl, holds⟩, rest⟩
    · rintro ⟨⟨n, rfl, holds⟩, rest⟩
      obtain ⟨le, same⟩ := (number_iff (show 256 = 8 * 32 from rfl)).mpr ⟨n, rfl, holds, rest⟩
      exact ⟨_, ⟨le, rfl⟩, same.symm⟩
  | flag =>
    simp only [read?, bind_eq_ok_iff, pure_eq_ok_iff, Chunk.readFlag?_eq_ok_iff, reduceCtorEq,
      false_implies, and_true, HoldsBefore, holds_flag_iff, width]
    constructor
    · rintro ⟨b, ⟨le, same⟩, rfl⟩
      exact ⟨⟨b, rfl⟩, le, same⟩
    · rintro ⟨⟨b, rfl⟩, le, same⟩
      exact ⟨b, ⟨le, same⟩, rfl⟩
  | bytes n =>
    simp only [read?, bind_eq_ok_iff, pure_eq_ok_iff, vector, reduceCtorEq, false_implies, and_true,
      HoldsBefore, holds_bytes_iff, width]
    constructor
    · rintro ⟨_, ⟨le, rfl⟩, rfl⟩
      exact ⟨⟨_, rfl, by rw [ByteArray.size_extract]; omega⟩, le, rfl⟩
    · rintro ⟨⟨b, rfl, -⟩, le, same⟩
      exact ⟨b, ⟨le, same⟩, rfl⟩
  | chunk =>
    have read := vector 32
    rw [show ((32 : Nat) : Int) = 32 from rfl] at read
    simp only [read?, bind_eq_ok_iff, pure_eq_ok_iff, read, reduceCtorEq, false_implies, and_true,
      HoldsBefore, holds_chunk_iff, width]
    constructor
    · rintro ⟨_, ⟨le, rfl⟩, rfl⟩
      exact ⟨⟨_, rfl, by rw [ByteArray.size_extract]; omega⟩, le, rfl⟩
    · rintro ⟨⟨b, rfl, -⟩, le, same⟩
      exact ⟨b, ⟨le, same⟩, rfl⟩
  | extraData =>
    have small : start < 256 ^ 4 := by rw [← Bytes.twoTo_eight_mul]; exact lt
    simp only [read?, bind_eq_ok_iff, pure_eq_ok_iff, Chunk.readUint32?_eq_ok_iff, true_implies,
      HoldsBefore, width, encode]
    constructor
    · rintro ⟨⟨_, ⟨le, rfl⟩, rfl⟩, word⟩
      rw [word, Bytes.toNatLE_ofNatLE small]
      exact ⟨rfl, le, rfl⟩
    · rintro ⟨rfl, le, word⟩
      refine ⟨⟨start, ⟨le, ?_⟩, rfl⟩, word⟩
      rw [word, Bytes.toNatLE_ofNatLE small]

theorem size_encode {tail : ByteArray} {k : FieldKind} {v : Value} (holds : k.HoldsBefore tail v)
    (start : Nat) : (k.encode start v).size = k.width := by
  cases k with
  | uint64 =>
    obtain ⟨n, rfl, -⟩ := holds_uint64_iff.mp holds
    exact Bytes.size_ofNatLE 8 n.toNat
  | uint256 =>
    obtain ⟨n, rfl, -⟩ := holds_uint256_iff.mp holds
    exact Bytes.size_ofNatLE 32 n.toNat
  | flag =>
    obtain ⟨b, rfl⟩ := holds_flag_iff.mp holds
    rfl
  | bytes n =>
    obtain ⟨b, rfl, size⟩ := holds_bytes_iff.mp holds
    exact size
  | chunk =>
    obtain ⟨b, rfl, size⟩ := holds_chunk_iff.mp holds
    exact size
  | extraData => exact Bytes.size_ofNatLE 4 start

theorem holds_of_holdsBefore {tail : ByteArray} (small : tail.size ≤ 32) {k : FieldKind} {v : Value}
    (holds : k.HoldsBefore tail v) : k.Holds v := by
  cases k with
  | extraData => exact holds_extraData_iff.mpr ⟨tail, holds, small⟩
  | _ => exact holds

theorem holdsBefore_iff_of_ne {tail : ByteArray} {k : FieldKind} {v : Value} (ne : k ≠ .extraData) :
    k.HoldsBefore tail v ↔ k.Holds v := by
  cases k with
  | extraData => exact absurd rfl ne
  | _ => exact Iff.rfl

theorem trailing_of_ne {k : FieldKind} (ne : k ≠ .extraData) (v : Value) :
    k.trailing v = ByteArray.empty := by
  cases k with
  | extraData => exact absurd rfl ne
  | _ => rfl

end FieldKind

/-! ### Fields side by side -/

/-- The bytes of fields in their places. -/
def encodePlaces (start : Nat) (fields : List Field) (values : List Value) : ByteArray :=
  Bytes.concatList (List.zipWith (fun f v => f.kind.encode start v) fields values)

/-- The bytes of fields behind all places. -/
def encodeTail (fields : List Field) (values : List Value) : ByteArray :=
  Bytes.concatList (List.zipWith (fun f v => f.kind.trailing v) fields values)

/-- Bytes that fields take in their places. -/
def widthOf (fields : List Field) : Nat := fields.foldr (fun f n => f.kind.width + n) 0

theorem widthOf_cons (f : Field) (rest : List Field) :
    widthOf (f :: rest) = f.kind.width + widthOf rest := rfl

section Places

variable {data : ByteArray} {start : Nat} {fields : List Field} {values : List Value}

theorem size_encodePlaces {tail : ByteArray}
    (holds : List.Forall₂ (fun f v => f.kind.HoldsBefore tail v) fields values) (start : Nat) :
    (encodePlaces start fields values).size = widthOf fields := by
  induction holds with
  | nil => rfl
  | cons first _ ih =>
    rw [encodePlaces, List.zipWith_cons_cons, Bytes.concatList, ByteArray.size_append,
      FieldKind.size_encode first, widthOf_cons]
    exact congrArg _ ih

/-- Fields are read from their places, with the right word for extra data, exactly if their bytes
stand there. -/
theorem read_places_iff (lt : start < twoTo 32) {o : Nat} (le : o ≤ data.size) :
    ((Schema.placesFrom o fields).mapM (fun (offset, f) => f.kind.read? data offset) = .ok values ∧
        ∀ p ∈ Schema.placesFrom o fields, p.2.kind = .extraData →
          data.extract p.1 (p.1 + 4) = Bytes.ofNatLE 4 start) ↔
      List.Forall₂ (fun f v => f.kind.HoldsBefore (data.extract start data.size) v) fields values ∧
        o + widthOf fields ≤ data.size ∧
        data.extract o (o + widthOf fields) = encodePlaces start fields values := by
  induction fields generalizing o values with
  | nil =>
    simp only [Schema.placesFrom, List.mapM_nil, pure_eq_ok_iff, List.forall₂_nil_left_iff, widthOf,
      List.foldr_nil, Nat.add_zero, ByteArray.extract_same, List.not_mem_nil, false_implies,
      implies_true, and_true]
    constructor
    · rintro rfl
      exact ⟨rfl, le, rfl⟩
    · rintro ⟨rfl, -⟩
      rfl
  | cons f rest ih =>
    have split : data.extract o (o + widthOf (f :: rest)) = data.extract o (o + f.kind.width) ++
        data.extract (o + f.kind.width) (o + f.kind.width + widthOf rest) := by
      rw [widthOf_cons, ← Nat.add_assoc]
      exact ByteArray.extract_eq_extract_append_extract _ (by omega) (by omega)
    rw [split, widthOf_cons, ← Nat.add_assoc]
    simp only [Schema.placesFrom, List.mapM_cons, bind_eq_ok_iff, pure_eq_ok_iff,
      List.forall_mem_cons]
    constructor
    · rintro ⟨⟨v, read, vs, readRest, rfl⟩, word, words⟩
      obtain ⟨holds, inside, bytes⟩ := (FieldKind.read?_iff lt).mp ⟨read, word⟩
      obtain ⟨holdsRest, insideRest, bytesRest⟩ := (ih inside).mp ⟨readRest, words⟩
      refine ⟨.cons holds holdsRest, insideRest, ?_⟩
      rw [bytes, bytesRest]
      rfl
    · rintro ⟨_ | ⟨holds, holdsRest⟩, inside, bytes⟩
      have size : (data.extract o (o + f.kind.width)).size = f.kind.width := by
        rw [ByteArray.size_extract]
        omega
      obtain ⟨first, others⟩ :=
        Bytes.append_injective (size.trans (FieldKind.size_encode holds start).symm) bytes
      obtain ⟨read, word⟩ := (FieldKind.read?_iff lt).mpr ⟨holds, by omega, first⟩
      obtain ⟨readRest, words⟩ := (ih (by omega)).mpr ⟨holdsRest, inside, others⟩
      exact ⟨⟨_, read, _, readRest, rfl⟩, word, words⟩

/-- Without extra data it does not matter what stands behind all places. -/
theorem holdsBefore_of_plain (plain : fields.countP (fun f => f.kind == .extraData) = 0)
    (holds : List.Forall₂ (fun f v => f.kind.Holds v) fields values) (tail : ByteArray) :
    List.Forall₂ (fun f v => f.kind.HoldsBefore tail v) fields values := by
  induction holds with
  | nil => exact .nil
  | @cons f v rest vs first others ih =>
    have none := List.countP_eq_zero.mp plain
    have ne : f.kind ≠ .extraData := by simpa using none f List.mem_cons_self
    refine .cons ((FieldKind.holdsBefore_iff_of_ne ne).mpr first) (ih ?_)
    exact List.countP_eq_zero.mpr fun g mem => none g (List.mem_cons_of_mem _ mem)

/-- Extra data is the only thing that stands behind all places. -/
theorem encodeTail_spec (holds : List.Forall₂ (fun f v => f.kind.Holds v) fields values)
    (single : fields.countP (fun f => f.kind == .extraData) ≤ 1) :
    List.Forall₂ (fun f v => f.kind.HoldsBefore (encodeTail fields values) v) fields values ∧
      (encodeTail fields values).size ≤ 32 ∧
      (fields.countP (fun f => f.kind == .extraData) = 0 →
        encodeTail fields values = ByteArray.empty) := by
  induction holds with
  | nil => exact ⟨.nil, by decide, fun _ => rfl⟩
  | @cons f v rest vs first others ih =>
    have step : encodeTail (f :: rest) (v :: vs) = f.kind.trailing v ++ encodeTail rest vs := rfl
    by_cases extra : f.kind = .extraData
    · have none : rest.countP (fun f => f.kind == .extraData) = 0 := by
        rw [List.countP_cons_of_pos (by simpa using extra)] at single
        omega
      obtain ⟨-, -, empty⟩ := ih (by omega)
      rw [extra] at first
      obtain ⟨b, rfl, small⟩ := FieldKind.holds_extraData_iff.mp first
      have tail : encodeTail (f :: rest) (.bytes b :: vs) = b := by
        rw [step, empty none, ByteArray.append_empty, extra, FieldKind.trailing]
      rw [tail]
      refine ⟨.cons (by rw [extra]; rfl) (holdsBefore_of_plain none others b), small, ?_⟩
      intro zero
      rw [List.countP_cons_of_pos (by simpa using extra)] at zero
      omega
    · rw [List.countP_cons_of_neg (by simpa using extra)] at single ⊢
      obtain ⟨before, small, empty⟩ := ih single
      rw [step, FieldKind.trailing_of_ne extra, ByteArray.empty_append]
      exact ⟨.cons ((FieldKind.holdsBefore_iff_of_ne extra).mpr first) before, small, empty⟩

/-- One thing only stands behind all places of fields with extra data. -/
theorem tail_unique {tail tail' : ByteArray}
    (holds : List.Forall₂ (fun f v => f.kind.HoldsBefore tail v) fields values)
    (holds' : List.Forall₂ (fun f v => f.kind.HoldsBefore tail' v) fields values)
    (some : 0 < fields.countP fun f => f.kind == .extraData) : tail = tail' := by
  induction holds with
  | nil => simp at some
  | @cons f v rest vs first _ ih =>
    obtain ⟨first', others'⟩ := List.forall₂_cons.mp holds'
    by_cases extra : f.kind = .extraData
    · rw [extra] at first first'
      exact Value.bytes.inj (first.symm.trans first')
    · rw [List.countP_cons_of_neg (by simpa using extra)] at some
      exact ih others' some

theorem inside_of_mem_placesFrom {o : Nat} {p : Nat × Field}
    (mem : p ∈ Schema.placesFrom o fields) : p.1 + p.2.kind.width ≤ o + widthOf fields := by
  induction fields generalizing o with
  | nil => cases mem
  | cons f rest ih =>
    rw [widthOf_cons]
    rcases List.mem_cons.mp mem with rfl | later
    · dsimp only
      omega
    · have inside := ih later
      omega

end Places

/-! ### Records -/

/-- A record fits a schema: each of its values is held by the kind of its field. -/
structure Record.Fits (r : Record) (s : Schema) : Prop where
  schema : r.schema = s
  values : List.Forall₂ (fun f v => f.kind.Holds v) s.fields r.values

/-- The bytes of a record. -/
def Record.encode (r : Record) : ByteArray :=
  encodePlaces r.schema.size r.schema.fields r.values ++ encodeTail r.schema.fields r.values

namespace Schema

/-- A schema with at most one field of extra data, whose start fits into its word, and with byte
strings of lengths that make a chunk. -/
structure Regular (s : Schema) : Prop where
  small : s.size < twoTo 32
  single : s.fields.countP (fun f => f.kind == .extraData) ≤ 1
  chunked : ∀ f ∈ s.fields, f.kind.Chunked

instance (s : Schema) : Decidable s.Regular :=
  decidable_of_iff (s.size < twoTo 32 ∧ (s.fields.countP fun f => f.kind == .extraData) ≤ 1 ∧
      ∀ f ∈ s.fields, f.kind.Chunked)
    ⟨fun ⟨small, single, chunked⟩ => ⟨small, single, chunked⟩,
      fun regular => ⟨regular.small, regular.single, regular.chunked⟩⟩

theorem size_eq (s : Schema) : s.size = widthOf s.fields := rfl

theorem map_snd_placesFrom (start : Nat) (fields : List Field) :
    (placesFrom start fields).map (·.2) = fields := by
  induction fields generalizing start with
  | nil => rfl
  | cons f rest ih => rw [placesFrom, List.map_cons, ih]

theorem countP_places (s : Schema) :
    s.places.countP (fun p => p.2.kind == .extraData) =
      s.fields.countP (fun f => f.kind == .extraData) := by
  have whole := map_snd_placesFrom 0 s.fields
  conv_rhs => rw [← whole, List.countP_map]
  rfl

/-- There is at most one place of extra data, and the size is checked with it. -/
theorem extraDataPlace?_spec {s : Schema} (regular : s.Regular) :
    (s.extraDataPlace? = none ∧ s.fields.countP (fun f => f.kind == .extraData) = 0) ∨
      (0 < s.fields.countP (fun f => f.kind == .extraData) ∧ ∃ x ∈ s.places,
        s.extraDataPlace? = some x.1 ∧ x.2.kind = .extraData ∧
          ∀ p ∈ s.places, p.2.kind = .extraData → p = x) := by
  have single := regular.single
  rw [← countP_places] at single ⊢
  rw [extraDataPlace?, ← List.head?_filter]
  rw [List.countP_eq_length_filter] at single ⊢
  have listed : ∀ p ∈ s.places, p.2.kind = .extraData →
      p ∈ s.places.filter fun p => p.2.kind == .extraData :=
    fun p mem extra => List.mem_filter.mpr ⟨mem, by simpa using extra⟩
  rcases found : s.places.filter fun p => p.2.kind == .extraData with _ | ⟨x, _ | ⟨y, rest⟩⟩
  · rw [found]
    exact .inl ⟨rfl, rfl⟩
  · have mem : x ∈ s.places.filter fun p => p.2.kind == .extraData := by simp [found]
    obtain ⟨inPlaces, extra⟩ := List.mem_filter.mp mem
    rw [found]
    refine .inr ⟨Nat.one_pos, x, inPlaces, rfl, by simpa using extra, fun p inP extraP => ?_⟩
    have same := listed p inP extraP
    rw [found] at same
    exact List.mem_singleton.mp same
  · rw [found, List.length_cons, List.length_cons] at single
    omega

/-- Without extra data, a record has the size of its schema. -/
theorem checkSize_of_none {s : Schema} (none : s.extraDataPlace? = none) {data : ByteArray} :
    s.checkSize data = .ok () ↔ data.size = s.size := by
  rw [checkSize, none]
  dsimp only
  by_cases size : data.size = s.size
  · simp [size]
  · rw [if_neg size]
    simp [size]

/-- With extra data, a record has up to 32 bytes more, and the word leads behind its fixed part. -/
theorem checkSize_of_some {s : Schema} {x : Nat} (place : s.extraDataPlace? = some x)
    (inside : x + 4 ≤ s.size) (small : s.size < twoTo 32) {data : ByteArray} :
    s.checkSize data = .ok () ↔ s.size ≤ data.size ∧ data.size ≤ s.size + 32 ∧
      data.extract x (x + 4) = Bytes.ofNatLE 4 s.size := by
  have power : twoTo 32 = 256 ^ 4 := Bytes.twoTo_eight_mul 4
  rw [checkSize, place]
  dsimp only
  by_cases short : data.size < s.size
  · rw [if_pos short]
    have none : ¬ s.size ≤ data.size := by omega
    simp [none]
  · rw [if_neg short]
    have width : (data.extract x (x + 4)).size = 4 := by rw [ByteArray.size_extract]; omega
    have word := @Bytes.toNatLE_eq_iff 4 s.size _ width
    rw [← power, and_iff_right small] at word
    simp only [bind_eq_ok_iff, Chunk.readUint32?_eq_ok_iff]
    have bound : Limits.extraData = 32 := rfl
    constructor
    · rintro ⟨start, ⟨-, told⟩, ok⟩
      split at ok
      · cases ok
      · split at ok
        · cases ok
        · exact ⟨by omega, by omega, word.mp (by omega)⟩
    · rintro ⟨le, most, right⟩
      refine ⟨s.size, ⟨by omega, word.mpr right⟩, ?_⟩
      rw [if_neg (by simp), if_neg (by omega)]

/-- The size of a record is right exactly if it has the size of its schema, or more by its extra
data, to which the word in its place leads. -/
theorem checkSize_eq_ok_iff {s : Schema} (regular : s.Regular) {data : ByteArray} :
    s.checkSize data = .ok () ↔
      (s.fields.countP (fun f => f.kind == .extraData) = 0 → data.size = s.size) ∧
        s.size ≤ data.size ∧ data.size ≤ s.size + 32 ∧
        ∀ p ∈ s.places, p.2.kind = .extraData →
          data.extract p.1 (p.1 + 4) = Bytes.ofNatLE 4 s.size := by
  rcases extraDataPlace?_spec regular with ⟨none, zero⟩ | ⟨pos, x, mem, place, extra, only⟩
  · have plain : ∀ p ∈ s.places, ¬p.2.kind = .extraData := by
      rw [← countP_places, List.countP_eq_zero] at zero
      exact fun p mem extra => zero p mem (by simpa using extra)
    rw [checkSize_of_none none]
    constructor
    · intro size
      exact ⟨fun _ => size, by omega, by omega, fun p mem extra => absurd extra (plain p mem)⟩
    · rintro ⟨size, -⟩
      exact size zero
  · have inside := inside_of_mem_placesFrom mem
    rw [extra, ← size_eq, FieldKind.width, Nat.zero_add] at inside
    rw [checkSize_of_some place inside regular.small]
    constructor
    · rintro ⟨least, most, right⟩
      exact ⟨fun zero => by omega, least, most, fun p inP extraP => only p inP extraP ▸ right⟩
    · rintro ⟨-, least, most, all⟩
      exact ⟨least, most, all x mem extra⟩

/-- A byte string is read as a record exactly if it is the bytes of this record, and the record fits
the schema. -/
theorem decode?_eq_ok_iff {s : Schema} (regular : s.Regular) {data : ByteArray} {r : Record} :
    s.decode? data = .ok r ↔ r.Fits s ∧ r.encode = data := by
  simp only [decode?, bind_eq_ok_iff, pure_eq_ok_iff, checkSize_eq_ok_iff regular]
  constructor
  · rintro ⟨_, ⟨plain, least, most, words⟩, values, read, rfl⟩
    obtain ⟨before, -, places⟩ :=
      (read_places_iff regular.small (Nat.zero_le data.size)).mp ⟨read, words⟩
    have tailSize : (data.extract s.size data.size).size ≤ 32 := by
      rw [ByteArray.size_extract]; omega
    have holds : List.Forall₂ (fun f v => f.kind.Holds v) s.fields values :=
      before.imp fun _ _ => FieldKind.holds_of_holdsBefore tailSize
    obtain ⟨beforeTail, -, empty⟩ := encodeTail_spec holds regular.single
    have tail : encodeTail s.fields values = data.extract s.size data.size := by
      rcases Nat.eq_zero_or_pos (s.fields.countP fun f => f.kind == .extraData) with zero | pos
      · rw [empty zero, plain zero, ByteArray.extract_same]
      · exact tail_unique beforeTail before pos
    refine ⟨⟨rfl, holds⟩, ?_⟩
    rw [Nat.zero_add, ← size_eq] at places
    rw [Record.encode, ← places, tail, ByteArray.extract_append_extract, Nat.min_eq_left (by omega),
      Nat.max_eq_right least, ByteArray.extract_zero_size]
  · rintro ⟨⟨rfl, holds⟩, rfl⟩
    obtain ⟨before, small, empty⟩ := encodeTail_spec holds regular.single
    have places := size_encodePlaces before r.schema.size
    rw [← size_eq] at places
    have size : r.encode.size = r.schema.size + (encodeTail r.schema.fields r.values).size := by
      rw [Record.encode, ByteArray.size_append, places]
    have tail : r.encode.extract r.schema.size r.encode.size =
        encodeTail r.schema.fields r.values := by
      rw [size, Record.encode]
      exact ByteArray.extract_append_eq_right places.symm (by rw [places])
    have front : r.encode.extract 0 r.schema.size =
        encodePlaces r.schema.size r.schema.fields r.values := by
      rw [Record.encode]
      exact ByteArray.extract_append_eq_left places.symm
    obtain ⟨read, words⟩ := (@read_places_iff _ _ _ r.values regular.small _
      (Nat.zero_le r.encode.size)).mpr ⟨tail.symm ▸ before, by rw [size, ← size_eq]; omega,
        by rw [Nat.zero_add, ← size_eq, front]⟩
    refine ⟨(), ⟨fun zero => ?_, by omega, by omega, words⟩, r.values, read, rfl⟩
    rw [size, empty zero]
    exact Nat.add_zero _

/-- A record takes at least the bytes of its fixed part. -/
theorem size_le_of_decode? {s : Schema} (regular : s.Regular) {data : ByteArray} {r : Record}
    (read : s.decode? data = .ok r) : s.size ≤ data.size := by
  simp only [decode?, bind_eq_ok_iff] at read
  obtain ⟨_, checked, -⟩ := read
  exact ((checkSize_eq_ok_iff regular).mp checked).2.1

/-- Records without extra data all have the bytes of their fixed part. -/
theorem size_encode_of_plain {s : Schema}
    (plain : s.fields.countP (fun f => f.kind == .extraData) = 0) {r : Record} (fits : r.Fits s) :
    r.encode.size = s.size := by
  obtain ⟨rfl, holds⟩ := fits
  obtain ⟨before, -, empty⟩ := encodeTail_spec holds (by omega)
  rw [Record.encode, empty plain, ByteArray.append_empty, size_encodePlaces before, size_eq]

/-- Two byte strings that are read as one record are equal. -/
theorem decode?_injective {s : Schema} (regular : s.Regular) {a b : ByteArray} {r : Record}
    (readA : s.decode? a = .ok r) (readB : s.decode? b = .ok r) : a = b := by
  rw [← ((decode?_eq_ok_iff regular).mp readA).2, ((decode?_eq_ok_iff regular).mp readB).2]

end Schema

end BeaconBranch
