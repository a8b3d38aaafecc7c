import BeaconBranch.Proofs.Chunk.Packing
import BeaconBranch.Proofs.Merkle.Derivation
import BeaconBranch.Proofs.Record.Codec
import BeaconBranch.Proofs.Record.Tree

/-!
Roots of records bind them. Each kind of field makes its chunk from a value in its own way, and each
of them can be undone: numbers and short byte strings by what stands in front of the zeros, public
keys and extra data by what was hashed. Main statements: a record whose values have the types of its
fields has a root if and only if it fits its schema, and two such records with one root are equal
unless two of the hashed messages collide.
-/

namespace BeaconBranch

open Outcome Merkle

/-! ### Flags -/

theorem Chunk.ofFlag_injective {a b : Bool} (same : ofFlag a = ofFlag b) : a = b := by
  have size : (encodeFlag a).size = (encodeFlag b).size := by
    rw [size_encodeFlag, size_encodeFlag]
  exact encodeFlag_injective (Bytes.padRight_injective size same)

/-! ### Public keys -/

/-- The chunk of a public key. -/
def Chunk.keyDerivation (key : ByteArray) : Derivation :=
  .both (.digest (key.extract 0 32)) (.digest (Bytes.padRight 32 (key.extract 32 48)))

theorem Chunk.ofPublicKey?_eq {key : ByteArray} (size : key.size = 48) :
    Chunk.ofPublicKey? key = .ok (keyDerivation key).value := by
  rw [ofPublicKey?, encodeBytes?, if_pos (by rw [size]; rfl)]
  rfl

theorem Chunk.size_keyDerivation (key : ByteArray) : (keyDerivation key).value.size = 32 :=
  size_join _ _

/-- The chunk of a public key binds the key. -/
theorem Chunk.binds_keyDerivation {a b : ByteArray} (sizeA : a.size = 48) (sizeB : b.size = 48) :
    Derivation.Binds (keyDerivation a) (keyDerivation b) (a = b) := by
  have sizes : (Derivation.digest (a.extract 0 32)).value.size =
      (Derivation.digest (b.extract 0 32)).value.size := by
    rw [Derivation.value, Derivation.value, Sha256.size_digest, Sha256.size_digest]
  refine (Derivation.Binds.both sizes (Derivation.binds_digest _ _) fun _ =>
    Derivation.binds_digest _ _).imp ?_
  rintro ⟨heads, tails⟩
  have tail := Bytes.padRight_injective
    (by rw [ByteArray.size_extract, ByteArray.size_extract, sizeA, sizeB]) tails
  have whole : ∀ {key : ByteArray}, key.size = 48 →
      key = key.extract 0 32 ++ key.extract 32 48 := by
    intro key size
    rw [ByteArray.extract_append_extract]
    exact (size ▸ ByteArray.extract_zero_size).symm
  rw [whole sizeA, whole sizeB, heads, tail]

/-! ### Fields -/

namespace FieldKind

/-- How the chunk of a byte string comes about: a public key, a logs bloom, or a short one. -/
def bytesDerivation (b : ByteArray) : Derivation :=
  if b.size = 48 then Chunk.keyDerivation b
  else if b.size = 256 then .ofChunks (Bytes.chunks 32 b) 3
  else .given (Bytes.padRight 32 b)

/-- How the chunk of a value comes about. -/
def derivation : FieldKind → Value → Derivation
  | uint64, .int n => .given (Bytes.padRight 32 (Bytes.ofNatLE 8 n.toNat))
  | uint256, .int n => .given (Bytes.ofNatLE 32 n.toNat)
  | flag, .flag b => .given (Chunk.ofFlag b)
  | chunk, .bytes b => .given b
  | extraData, .bytes b => .both (.given (Bytes.padRight 32 b)) (.given (lengthChunk b.size))
  | bytes _, .bytes b => bytesDerivation b
  | _, _ => .given ByteArray.empty

theorem toVector_bytes {n : Nat} {b : ByteArray} (size : b.size = n) :
    (Value.bytes b).toVector n = .ok (.bytes b) := by
  subst size
  simp [Value.toVector, Value.length, Value.length?, bind, Except.bind]

/-- The chunk of a logs bloom is the root over its pieces. -/
theorem leaf_bloom {b : ByteArray} (size : b.size = 256) :
    (bytes 256).leaf (.bytes b) =
      .ok (.bytes (Derivation.ofChunks (Bytes.chunks 32 b) 3).value) := by
  have sizes : ∀ x ∈ Bytes.chunks 32 b, x.size = 32 := fun x mem =>
    Bytes.size_of_mem_chunks (by rw [size]) mem
  have count : (Bytes.chunks 32 b).size = 8 := by rw [Bytes.size_chunks, size]
  have pieces : ((List.range 8).mapM fun i => do (← piece (.bytes b) i).toBytes) =
      .ok (Bytes.chunks 32 b).toList := by
    have each : (List.range 8).mapM (fun i => do (← piece (.bytes b) i).toBytes) =
        (List.range 8).mapM fun i => pure (b.extract (32 * i) (32 * i + 32)) := rfl
    rw [each, List.mapM_pure, Bytes.chunks_toList, size]
    simp only [Nat.mul_comm]
    rfl
  have root := rootOfChunks_eq sizes
  rw [count] at root
  simp only [leaf, toVector_bytes size, bind, Except.bind] at pieces ⊢
  rw [pieces]
  dsimp only
  rw [Array.toArray_toList, root, Derivation.value_ofChunks]
  rfl

/-- The chunk of a value that its kind holds. -/
theorem leaf_eq {k : FieldKind} {v : Value} (chunked : k.Chunked) (holds : k.Holds v) :
    k.leaf v = .ok (.bytes (k.derivation v).value) := by
  cases k with
  | uint64 =>
    obtain ⟨n, rfl, ge, lt⟩ := holds_uint64_iff.mp holds
    have encoded := Chunk.encodeUint?_eq_ok_iff.mpr ⟨ge, lt, rfl⟩
    simp only [leaf, wholeFor?, Value.number?, Chunk.ofUint64?, bind, Except.bind, encoded]
    rfl
  | uint256 =>
    obtain ⟨n, rfl, ge, lt⟩ := holds_uint256_iff.mp holds
    have encoded := Chunk.encodeUint?_eq_ok_iff.mpr ⟨ge, lt, rfl⟩
    simp only [leaf, wholeFor?, Value.number?, Chunk.ofUint256?, bind, Except.bind, encoded]
    rfl
  | flag =>
    obtain ⟨b, rfl⟩ := holds_flag_iff.mp holds
    rfl
  | chunk =>
    obtain ⟨b, rfl, -⟩ := holds_chunk_iff.mp holds
    rfl
  | extraData =>
    obtain ⟨b, rfl, small⟩ := holds_extraData_iff.mp holds
    have lt : b.size < twoTo 256 := Nat.lt_of_le_of_lt small (by decide +kernel)
    have mixed : mixInLength? (Bytes.padRight 32 b) b.size = .ok _ :=
      mixInLength?_eq_ok_iff.mpr ⟨lt, rfl⟩
    simp only [leaf, extraDataLeaf, Value.length, Value.length?, bind, Except.bind]
    rw [if_neg (by omega), Value.asBytes]
    dsimp only
    rw [mixed]
    rfl
  | bytes n =>
    obtain ⟨b, rfl, size⟩ := holds_bytes_iff.mp holds
    have vector := toVector_bytes size
    rw [derivation, bytesDerivation]
    split
    · rename_i key
      obtain rfl : n = 48 := size.symm.trans key
      have lengthEq : (Value.bytes b).length = .ok 48 := congrArg Except.ok key
      simp only [leaf, lengthEq, bind, Except.bind, if_true, Value.asBytes]
      rw [Chunk.ofPublicKey?_eq key]
      rfl
    · split
      · rename_i bloom
        obtain rfl : n = 256 := size.symm.trans bloom
        exact leaf_bloom bloom
      · have small : n ≤ 32 := by
          rcases chunked with small | rfl | rfl
          · exact small
          · contradiction
          · contradiction
        by_cases word : n = 32
        · subst word
          have whole : Bytes.padRight 32 b = b := by
            rw [Bytes.padRight, size, Nat.sub_self, Bytes.pushZeros]
          simp only [leaf, vector, Derivation.value, whole]
        · have notKey : n ≠ 48 := by omega
          have notBloom : n ≠ 256 := by omega
          simp only [leaf, vector, bind, Except.bind, Value.asBytes]
          rfl

/-- Values of the type of a kind: numbers, flags or byte strings. -/
def Takes : FieldKind → Value → Prop
  | uint64, .int _ | uint256, .int _ | flag, .flag _ => True
  | bytes _, .bytes _ | chunk, .bytes _ | extraData, .bytes _ => True
  | _, _ => False

theorem takes_of_holds {k : FieldKind} {v : Value} (holds : k.Holds v) : k.Takes v := by
  cases k <;> cases v <;> trivial

theorem size_of_toVector {n : Nat} {b : ByteArray} {v : Value}
    (made : (Value.bytes b).toVector n = .ok v) : b.size = n := by
  simp only [Value.toVector, Value.length, Value.length?, bind, Except.bind] at made
  split at made
  · assumption
  · cases made

/-- A value of the right type that has a chunk is one that its kind holds. -/
theorem holds_of_leaf {k : FieldKind} {v w : Value} {chunk : ByteArray} (takes : k.Takes v)
    (made : k.leaf v = .ok w) (read : w.toBytes = .ok chunk) (size : chunk.size = 32) :
    k.Holds v := by
  cases k <;> cases v <;> simp only [Takes] at takes
  case uint64.int n =>
    simp only [leaf, wholeFor?, Value.number?, Chunk.ofUint64?, bind_eq_ok_iff, map_eq_ok_iff,
      Except.ok.injEq, exists_eq_left'] at made
    obtain ⟨_, ⟨_, encoded, -⟩, -⟩ := made
    obtain ⟨ge, lt, -⟩ := Chunk.encodeUint?_eq_ok_iff.mp encoded
    exact ⟨ge, lt⟩
  case uint256.int n =>
    simp only [leaf, wholeFor?, Value.number?, Chunk.ofUint256?, bind_eq_ok_iff,
      Except.ok.injEq, exists_eq_left'] at made
    obtain ⟨_, encoded, -⟩ := made
    obtain ⟨ge, lt, -⟩ := Chunk.encodeUint?_eq_ok_iff.mp encoded
    exact ⟨ge, lt⟩
  case flag.flag b => trivial
  case chunk.bytes b =>
    obtain rfl : Value.bytes b = w := Except.ok.inj made
    obtain rfl : b = chunk := Except.ok.inj read
    exact size
  case extraData.bytes b =>
    simp only [leaf, extraDataLeaf, Value.length, Value.length?, bind_eq_ok_iff] at made
    obtain ⟨_, ⟨n, lengthEq, made⟩, -⟩ := made
    obtain rfl : b.size = n := Except.ok.inj lengthEq
    split at made
    · cases made
    · exact Nat.le_of_not_lt ‹_›
  case bytes.bytes n b =>
    show b.size = n
    by_cases word : n = 32
    · subst word
      exact size_of_toVector made
    by_cases key : n = 48
    · subst key
      simp only [leaf, Value.length, Value.length?, bind_eq_ok_iff, Except.ok.injEq,
        exists_eq_left'] at made
      split at made
      · assumption
      · cases made
    by_cases bloom : n = 256
    · subst bloom
      obtain ⟨_, vector, -⟩ := bind_eq_ok_iff.mp made
      exact size_of_toVector vector
    · simp only [leaf, bind_eq_ok_iff] at made
      obtain ⟨_, vector, -⟩ := made
      exact size_of_toVector vector

theorem size_bytesDerivation {b : ByteArray} (chunked : (bytes b.size).Chunked) :
    (bytesDerivation b).value.size = 32 := by
  rw [bytesDerivation]
  split
  · exact size_join _ _
  · split
    · rename_i bloom
      rw [Derivation.value_ofChunks]
      exact size_nodeOver (DenseTree.size_leafOf fun x mem =>
        Bytes.size_of_mem_chunks (by rw [bloom]) mem) 3 0
    · rw [Derivation.value, Bytes.size_padRight]
      rcases chunked with small | key | bloom
      · omega
      · contradiction
      · contradiction

/-- Every chunk has 32 bytes. -/
theorem size_derivation {k : FieldKind} {v : Value} (chunked : k.Chunked) (holds : k.Holds v) :
    (k.derivation v).value.size = 32 := by
  cases k with
  | uint64 =>
    obtain ⟨n, rfl, -⟩ := holds_uint64_iff.mp holds
    simp [derivation, Derivation.value]
  | uint256 =>
    obtain ⟨n, rfl, -⟩ := holds_uint256_iff.mp holds
    simp [derivation, Derivation.value]
  | flag =>
    obtain ⟨b, rfl⟩ := holds_flag_iff.mp holds
    rw [derivation, Derivation.value, Chunk.ofFlag, Bytes.size_padRight, Chunk.size_encodeFlag]
    rfl
  | chunk =>
    obtain ⟨b, rfl, size⟩ := holds_chunk_iff.mp holds
    exact size
  | extraData =>
    obtain ⟨b, rfl, -⟩ := holds_extraData_iff.mp holds
    exact size_join _ _
  | bytes n =>
    obtain ⟨b, rfl, rfl⟩ := holds_bytes_iff.mp holds
    exact size_bytesDerivation chunked

theorem binds_bytesDerivation {a b : ByteArray} (size : a.size = b.size) :
    Derivation.Binds (bytesDerivation a) (bytesDerivation b) (a = b) := by
  rw [bytesDerivation, bytesDerivation, ← size]
  split
  · rename_i key
    exact Chunk.binds_keyDerivation key (size ▸ key)
  · split
    · rename_i bloom
      have count : ∀ {x : ByteArray}, x.size = 256 → (Bytes.chunks 32 x).size = 8 := by
        intro x whole
        rw [Bytes.size_chunks, whole]
      have sizes : ∀ {x : ByteArray}, x.size = 256 → ∀ c ∈ Bytes.chunks 32 x, c.size = 32 :=
        fun whole c mem => Bytes.size_of_mem_chunks (by rw [whole]) mem
      exact (Derivation.binds_ofChunks (by rw [count bloom, count (size ▸ bloom)])
        (by rw [count bloom]; decide) (sizes bloom) (sizes (size ▸ bloom))).imp
          (Bytes.chunks_injective (by decide))
    · exact (Derivation.binds_given _ _).imp (Bytes.padRight_injective size)

/-- The chunk of a value binds the value. -/
theorem binds_derivation {k : FieldKind} {v w : Value} (holds : k.Holds v) (holds' : k.Holds w) :
    Derivation.Binds (k.derivation v) (k.derivation w) (v = w) := by
  cases k with
  | uint64 =>
    obtain ⟨n, rfl, ge, lt⟩ := holds_uint64_iff.mp holds
    obtain ⟨m, rfl, ge', lt'⟩ := holds_uint64_iff.mp holds'
    have power : twoTo 64 = 256 ^ 8 := Bytes.twoTo_eight_mul 8
    refine (Derivation.binds_given _ _).imp ?_
    intro same
    have bytes := Bytes.padRight_injective (by rw [Bytes.size_ofNatLE, Bytes.size_ofNatLE]) same
    have number := Bytes.ofNatLE_injective (by rw [← power]; omega) (by rw [← power]; omega) bytes
    exact congrArg Value.int (by omega)
  | uint256 =>
    obtain ⟨n, rfl, ge, lt⟩ := holds_uint256_iff.mp holds
    obtain ⟨m, rfl, ge', lt'⟩ := holds_uint256_iff.mp holds'
    have power : twoTo 256 = 256 ^ 32 := Bytes.twoTo_eight_mul 32
    refine (Derivation.binds_given _ _).imp ?_
    intro same
    have number := Bytes.ofNatLE_injective (by rw [← power]; omega) (by rw [← power]; omega) same
    exact congrArg Value.int (by omega)
  | flag =>
    obtain ⟨b, rfl⟩ := holds_flag_iff.mp holds
    obtain ⟨c, rfl⟩ := holds_flag_iff.mp holds'
    refine (Derivation.binds_given _ _).imp ?_
    intro same
    rw [Chunk.ofFlag_injective same]
  | chunk =>
    obtain ⟨b, rfl, -⟩ := holds_chunk_iff.mp holds
    obtain ⟨c, rfl, -⟩ := holds_chunk_iff.mp holds'
    exact (Derivation.binds_given b c).imp (congrArg Value.bytes)
  | extraData =>
    obtain ⟨b, rfl, small⟩ := holds_extraData_iff.mp holds
    obtain ⟨c, rfl, small'⟩ := holds_extraData_iff.mp holds'
    have power : twoTo 256 = 256 ^ 32 := Bytes.twoTo_eight_mul 32
    have sizes : (Derivation.given (Bytes.padRight 32 b)).value.size =
        (Derivation.given (Bytes.padRight 32 c)).value.size := by
      simp only [Derivation.value, Bytes.size_padRight]
      omega
    refine (Derivation.Binds.both sizes ((Derivation.binds_given _ _).imp fun same =>
      Bytes.ofNatLE_injective (by omega) (by omega) same) fun size =>
        (Derivation.binds_given _ _).imp (Bytes.padRight_injective size)).imp ?_
    intro holds
    exact congrArg Value.bytes holds.1
  | bytes n =>
    obtain ⟨b, rfl, rfl⟩ := holds_bytes_iff.mp holds
    obtain ⟨c, rfl, size⟩ := holds_bytes_iff.mp holds'
    exact (binds_bytesDerivation size.symm).imp (congrArg Value.bytes)

end FieldKind

/-! ### Records -/

namespace Record

/-- How the chunks of a record's fields come about. -/
def fieldDerivations (r : Record) : List Derivation :=
  List.zipWith (fun f v => f.kind.derivation v) r.schema.fields r.values

/-- How the root of a record comes about. -/
def derivation (r : Record) : Derivation :=
  .ofList r.fieldDerivations (depthFor r.schema.fields.length)

section Fields

variable {fields : List Field} {values values' : List Value}

theorem mapM_leaf_eq (chunked : ∀ f ∈ fields, f.kind.Chunked)
    (holds : List.Forall₂ (fun f v => f.kind.Holds v) fields values) :
    (fields.zip values).mapM (fun (f, v) => f.kind.leaf v) =
      .ok ((List.zipWith (fun f v => f.kind.derivation v) fields values).map fun t =>
        .bytes t.value) := by
  induction holds with
  | nil => rfl
  | @cons f v rest vs first _ ih =>
    rw [List.zip_cons_cons, List.mapM_cons, ih fun g mem => chunked g (List.mem_cons_of_mem _ mem)]
    dsimp only
    rw [FieldKind.leaf_eq (chunked f List.mem_cons_self) first]
    rfl

theorem size_of_mem_fieldDerivations (chunked : ∀ f ∈ fields, f.kind.Chunked)
    (holds : List.Forall₂ (fun f v => f.kind.Holds v) fields values) :
    ∀ t ∈ List.zipWith (fun f v => f.kind.derivation v) fields values, t.value.size = 32 := by
  induction holds with
  | nil => simp
  | @cons f v rest vs first _ ih =>
    rw [List.zipWith_cons_cons, List.forall_mem_cons]
    exact ⟨FieldKind.size_derivation (chunked f List.mem_cons_self) first,
      ih fun g mem => chunked g (List.mem_cons_of_mem _ mem)⟩

end Fields

variable {r r' : Record} {s : Schema}

theorem Fits.isA (fits : r.Fits s) : r.IsA s := ⟨fits.schema, fits.values.length_eq.symm⟩

/-- The value that is found under a field's name is of the field's kind. -/
theorem Fits.holds (fits : r.Fits s) (nodup : (s.fields.map (·.name)).Nodup) {k : Nat} {f : Field}
    (field : s.fields[k]? = some f) : f.kind.Holds (r.get f.name) :=
  forall₂_getElem? fits.values field (fits.isA.getElem?_values nodup field)

theorem length_fieldDerivations (fits : r.Fits s) :
    r.fieldDerivations.length = s.fields.length := by
  rw [fieldDerivations, List.length_zipWith, fits.schema, ← fits.values.length_eq, Nat.min_self]

theorem chunks?_eq (regular : s.Regular) (fits : r.Fits s) :
    r.chunks? = .ok (r.fieldDerivations.map Derivation.value) := by
  obtain ⟨rfl, holds⟩ := fits
  rw [chunks?, leaves?, mapM_leaf_eq regular.chunked holds]
  show List.mapM Value.toBytes _ = _
  rw [List.mapM_map]
  exact List.mapM_pure

theorem sizes_fieldDerivations (regular : s.Regular) (fits : r.Fits s) :
    ∀ t ∈ r.fieldDerivations, t.value.size = 32 := by
  obtain ⟨rfl, holds⟩ := fits
  exact size_of_mem_fieldDerivations regular.chunked holds

/-- A record that fits its schema has a root. -/
theorem root?_eq (regular : s.Regular) (fits : r.Fits s) : r.root? = .ok r.derivation.value := by
  have sizes : ∀ b ∈ (r.fieldDerivations.map Derivation.value).toArray, b.size = 32 := by
    intro b mem
    obtain ⟨t, inList, rfl⟩ := List.mem_map.mp (Array.mem_toList_iff.mpr mem)
    exact sizes_fieldDerivations regular fits t inList
  have asked : DenseTree.depthAsked (r.fieldDerivations.map Derivation.value).toArray 0 =
      depthFor r.schema.fields.length := by
    rw [DenseTree.depthAsked, if_pos rfl, List.size_toArray, List.length_map,
      length_fieldDerivations fits, fits.schema]
  have built := DenseTree.ofLeaves?_eq_ok_iff.mpr ⟨sizes, Int.le_refl 0,
    DenseTree.le_twoTo_depthFor _, rfl⟩
  refine root?_eq_ok_iff.mpr ⟨_, _, chunks?_eq regular fits, built, ?_⟩
  rw [DenseTree.root_of_ofLeaves? built, DenseTree.depth_of_ofLeaves? built, asked, derivation]
  exact (Derivation.value_ofList_of_chunks rfl _).symm

/-- A record of a schema whose values have the types of their fields. -/
structure Typed (r : Record) (s : Schema) : Prop where
  schema : r.schema = s
  values : List.Forall₂ (fun f v => f.kind.Takes v) s.fields r.values

/-- A typed record that has a root fits its schema. -/
theorem Typed.fits (typed : r.Typed s) (distinct : (s.fields.map (·.name)).Nodup) {b : ByteArray}
    (hashed : r.root? = .ok b) : r.Fits s := by
  obtain ⟨chunks, t, ok, built, -⟩ := root?_eq_ok_iff.mp hashed
  have sizes := (DenseTree.ofLeaves?_eq_ok_iff.mp built).1
  have isA : r.IsA s := ⟨typed.schema, typed.values.length_eq.symm⟩
  refine ⟨typed.schema, forall₂_of_getElem? isA.values.symm fun k f v field value => ?_⟩
  have takes := forall₂_getElem? typed.values field value
  obtain rfl : v = r.get f.name :=
    Option.some.inj (value.symm.trans (isA.getElem?_values distinct field))
  obtain ⟨leaf, chunk, found, made, read⟩ := leaf_of_chunks? isA distinct ok field
  exact FieldKind.holds_of_leaf takes made read
    (sizes chunk (List.mem_toArray.mpr (List.mem_of_getElem? found)))

theorem Fits.typed (fits : r.Fits s) : r.Typed s :=
  ⟨fits.schema, fits.values.imp fun _ _ => FieldKind.takes_of_holds⟩

theorem size_derivation (regular : s.Regular) (fits : r.Fits s) : r.derivation.value.size = 32 :=
  Derivation.size_ofList (sizes_fieldDerivations regular fits) _

/-- The root of a record binds the record. -/
theorem binds_derivation (regular : s.Regular) (fits : r.Fits s) (fits' : r'.Fits s) :
    Derivation.Binds r.derivation r'.derivation (r = r') := by
  have length := length_fieldDerivations fits
  have length' := length_fieldDerivations fits'
  have sizes := sizes_fieldDerivations regular fits
  have sizes' := sizes_fieldDerivations regular fits'
  obtain ⟨schema, values⟩ := r
  obtain ⟨schema', values'⟩ := r'
  obtain ⟨rfl, holds⟩ := fits
  obtain ⟨rfl, holds'⟩ := fits'
  refine (Derivation.binds_ofList (P := fun i => values[i]? = values'[i]?)
    (length.trans length'.symm) (length ▸ DenseTree.le_twoTo_depthFor _) sizes sizes'
    fun i x y found found' => ?_).imp fun same => ?_
  · obtain ⟨f, v, field, value, rfl⟩ := List.getElem?_zipWith_eq_some.mp found
    obtain ⟨f', w, field', value', rfl⟩ := List.getElem?_zipWith_eq_some.mp found'
    obtain rfl : f = f' := Option.some.inj (field.symm.trans field')
    refine (FieldKind.binds_derivation (forall₂_getElem? holds field value)
      (forall₂_getElem? holds' field value')).imp ?_
    intro same
    rw [value, value', same]
  · rw [length] at same
    have count : values.length = values'.length := holds.length_eq.symm.trans holds'.length_eq
    rw [Derivation.eq_of_getElem?_eq count fun i lt => same i (holds.length_eq ▸ lt)]

end Record

end BeaconBranch
