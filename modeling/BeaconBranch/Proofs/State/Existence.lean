import BeaconBranch.Proofs.State.Root

/-!
States exist. Every kind of field holds the value whose bytes are all zero, so every record and
every section of zeros can be read, lists may be empty, and the lists of validators and balances may
be any short ones. Main statement: there is a state with given validators and balances, in which
everything else is zero.
-/

namespace BeaconBranch

open Outcome Merkle

/-! ### Records of zeros -/

theorem FieldKind.holds_zero (k : FieldKind) : k.Holds k.zero := by
  cases k with
  | uint64 => exact ⟨Int.le_refl 0, by decide⟩
  | uint256 => exact ⟨Int.le_refl 0, by decide +kernel⟩
  | flag => exact trivial
  | bytes n => exact Bytes.size_zeros n
  | chunk => exact Bytes.size_zeros 32
  | extraData => exact Nat.zero_le 32

theorem FieldKind.holdsBefore_zero (k : FieldKind) : k.HoldsBefore ByteArray.empty k.zero := by
  by_cases extra : k = .extraData
  · rw [extra]
    rfl
  · exact (holdsBefore_iff_of_ne extra).mpr k.holds_zero

theorem FieldKind.trailing_zero (k : FieldKind) : k.trailing k.zero = ByteArray.empty := by
  cases k <;> rfl

namespace Record

/-- The record of zeros fits its schema. -/
theorem fits_zero (s : Schema) : (zero s).Fits s := by
  refine ⟨rfl, ?_⟩
  rw [zero, List.forall₂_map_right_iff, List.forall₂_same]
  exact fun f _ => f.kind.holds_zero

/-- Bytes that are all the same. -/
def filled (n : Nat) (x : UInt8) : ByteArray := ⟨Array.replicate n x⟩

@[simp] theorem size_filled (n : Nat) (x : UInt8) : (filled n x).size = n := Array.size_replicate

/-- A slashed validator that never exits. -/
def slashedValidator : Record := ⟨.validator,
  [.bytes (filled 48 0xab), .bytes (filled 32 1), .int 31000000000, .flag true, .int 3, .int 5,
    .int 8, .int 18446744073709551615]⟩

theorem fits_slashedValidator : slashedValidator.Fits .validator := by
  have room : twoTo 64 = 18446744073709551616 := by decide +kernel
  refine ⟨rfl, ?_⟩
  simp [Schema.validator, slashedValidator, FieldKind.Holds, room]

theorem encodeTail_zero (fields : List Field) :
    encodeTail fields (fields.map (·.kind.zero)) = ByteArray.empty := by
  induction fields with
  | nil => rfl
  | cons f rest ih =>
    have step : encodeTail (f :: rest) ((f :: rest).map (·.kind.zero)) =
      f.kind.trailing f.kind.zero ++ encodeTail rest (rest.map (·.kind.zero)) := rfl
    rw [step, ih, FieldKind.trailing_zero, ByteArray.append_empty]

/-- The record of zeros has the bytes of its fixed part. -/
theorem size_encode_zero (s : Schema) : (zero s).encode.size = s.size := by
  have before : List.Forall₂ (fun f v => f.kind.HoldsBefore ByteArray.empty v) s.fields
      (s.fields.map (·.kind.zero)) := by
    rw [List.forall₂_map_right_iff, List.forall₂_same]
    exact fun f _ => f.kind.holdsBefore_zero
  rw [encode, zero, encodeTail_zero, ByteArray.append_empty, size_encodePlaces before,
    Schema.size_eq]

theorem decode?_zero {s : Schema} (regular : s.Regular) :
    s.decode? (zero s).encode = .ok (zero s) :=
  (Schema.decode?_eq_ok_iff regular).mpr ⟨fits_zero s, rfl⟩

end Record

namespace State

/-! ### Sections of zeros -/

/-- The section of a kind whose values are all zero and whose lists are empty. -/
def SectionKind.blank : SectionKind → ByteArray
  | record s => (Record.zero s).encode
  | payloadHeader => (Record.zero .payloadHeader).encode
  | k => Bytes.zeros (k.size?.getD 0)

theorem packed_zeros (d : Nat) : Packed d 0 (Bytes.zeros 0) := by
  refine ⟨?_, twoTo_pos 256⟩
  rw [SectionKind.size_chunksOf, Bytes.size_zeros]
  exact Nat.zero_le _

theorem pieced_zeros {width : Nat} (pos : 0 < width) (d : Nat) :
    Pieced width d (Bytes.zeros 0) := by
  have none : (Bytes.chunks width (Bytes.zeros 0)).size = 0 := by
    rw [Bytes.size_chunks, Bytes.size_zeros, Nat.zero_add, Nat.div_eq_of_lt (by omega)]
  refine ⟨pos, by rw [Bytes.size_zeros, Nat.zero_mod], ?_⟩
  rw [none]
  exact ⟨Nat.zero_le _, twoTo_pos 256⟩

theorem not_mem_chunks_zeros {width : Nat} (pos : 0 < width) (x : ByteArray) :
    x ∉ Bytes.chunks width (Bytes.zeros 0) := by
  have none : (Bytes.chunks width (Bytes.zeros 0)).size = 0 := by
    rw [Bytes.size_chunks, Bytes.size_zeros, Nat.zero_add, Nat.div_eq_of_lt (by omega)]
  rw [Array.eq_empty_of_size_eq_zero none]
  exact Array.not_mem_empty x

/-- Every kind can have its section of zeros. -/
theorem SectionKind.holds_blank {k : SectionKind} (regular : k.Regular) : k.Holds k.blank := by
  cases k with
  | uint64 => exact Bytes.size_zeros 8
  | root => exact Bytes.size_zeros 32
  | bits => exact Bytes.size_zeros 1
  | chunkVector n => exact Bytes.size_zeros (n * 32)
  | uint64Vector n => exact Bytes.size_zeros (n * 8)
  | syncCommittee => exact Bytes.size_zeros _
  | record s => exact ⟨_, Record.decode?_zero regular⟩
  | payloadHeader => exact ⟨_, Record.decode?_zero (by decide)⟩
  | chunkList limit => exact pieced_zeros (by decide) _
  | digestList s limit => exact pieced_zeros regular _
  | recordList s limit =>
    exact ⟨pieced_zeros regular.2 _, fun x mem => absurd mem (not_mem_chunks_zeros regular.2 x)⟩
  | validators =>
    exact ⟨pieced_zeros (by decide) _, fun x mem => absurd mem (not_mem_chunks_zeros (by decide) x)⟩
  | balances => exact ⟨rfl, packed_zeros _⟩
  | uint64List limit =>
    refine ⟨rfl, ?_⟩
    show Packed _ ((Bytes.zeros 0).size / 8) (Bytes.zeros 0)
    rw [Bytes.size_zeros]
    exact packed_zeros _
  | byteList limit => exact packed_zeros (depthForLimit (((limit : Int) + 31) / 32))

/-- A section of zeros has the size that its kind always has, or else it is short. -/
theorem SectionKind.size_blank (k : SectionKind) :
    (∀ n, k.size? = some n → k.blank.size = n) ∧ (k.size? = none → k.blank.size ≤ 1000000) := by
  cases k with
  | record s => exact ⟨fun n size => Option.some.inj size ▸ Record.size_encode_zero s, nofun⟩
  | payloadHeader =>
    refine ⟨nofun, fun _ => ?_⟩
    rw [blank, Record.size_encode_zero]
    decide
  | uint64 | root | bits | chunkVector _ | uint64Vector _ | syncCommittee =>
    exact ⟨fun n size => Option.some.inj size ▸ Bytes.size_zeros _, nofun⟩
  | chunkList _ | recordList _ _ | validators | balances | byteList _ | uint64List _
  | digestList _ _ => exact ⟨nofun, fun _ => Nat.zero_le _⟩

/-! ### States of zeros -/

/-- The sections of a state whose validators and balances are given. -/
def partsWith (validators balances : ByteArray) : List ByteArray :=
  fields.map fun f =>
    match f.kind with
    | .validators => validators
    | .balances => balances
    | k => k.blank

/-- Short variable sections start where a word can tell. -/
theorem tiles_of_short {fs : List SectionField} {bs : List ByteArray} {heap bound : Nat}
    (sizes : List.Forall₂ (fun f b => (∀ n, f.size? = some n → b.size = n) ∧
      (f.size? = none → b.size ≤ bound)) fs bs)
    (short : heap + fs.length * bound < twoTo 32) : Tiles heap fs bs := by
  induction sizes generalizing heap with
  | nil => exact .nil
  | @cons f b fs bs first _ ih =>
    rw [List.length_cons, Nat.succ_mul] at short
    cases size : f.size? with
    | some n => exact .inPlace (by rw [first.1 n size, size]) (ih (by omega))
    | none =>
      have le := first.2 size
      exact .behind size (by omega) (ih (by omega))

section Given

variable {validators balances : ByteArray}

theorem partsWith_spec {p : SectionField → ByteArray → Prop}
    (first : ∀ f ∈ fields, f.kind = .validators → p f validators)
    (second : ∀ f ∈ fields, f.kind = .balances → p f balances)
    (others : ∀ f ∈ fields, p f f.kind.blank) :
    List.Forall₂ p fields (partsWith validators balances) := by
  rw [partsWith, List.forall₂_map_right_iff, List.forall₂_same]
  intro f mem
  split
  · rename_i kind
    exact first f mem kind
  · rename_i kind
    exact second f mem kind
  · exact others f mem

/-- There is a state with these two sections, and it has a root. -/
theorem exists_decode?_partsWith (holdsV : SectionKind.validators.Holds validators)
    (holdsB : SectionKind.balances.Holds balances) (shortV : validators.size ≤ 1000000)
    (shortB : balances.size ≤ 1000000) : ∃ s root,
      Snapshot.decode? (encode (partsWith validators balances)) = .ok s ∧ s.root? = .ok root ∧
      decodeValidators? validators = .ok s.validators ∧
      decodeBalances? balances = .ok s.balances := by
  have holds : AllHold (partsWith validators balances) :=
    partsWith_spec (fun f _ kind => kind ▸ holdsV) (fun f _ kind => kind ▸ holdsB)
      fun f mem => SectionKind.holds_blank (SectionKind.regular_of_mem_fields f mem)
  have tiles : Tiles fixedRegionSize fields (partsWith validators balances) := by
    have varies : ∀ {k : SectionKind} {f : SectionField}, k.size? = none → f.kind = k →
        ∀ n, f.size? = some n → False := by
      intro k f none kind n size
      rw [SectionField.size?, kind, none] at size
      cases size
    have room : fixedRegionSize + fields.length * 1000000 < twoTo 32 := by decide +kernel
    refine tiles_of_short (partsWith_spec (fun f _ kind => ?_)
      (fun f _ kind => ?_) fun f _ => f.kind.size_blank) room
    · exact ⟨fun n size => (varies rfl kind n size).elim, fun _ => shortV⟩
    · exact ⟨fun n size => (varies rfl kind n size).elim, fun _ => shortB⟩
  obtain ⟨s, read, readFrom, hashed⟩ := Snapshot.exists_decode? tiles holds
  have first := readFrom.validators
  have second := readFrom.balances
  have given {k : Nat} {f : SectionField} {b : ByteArray} :=
    @Snapshot.getD_section (partsWith validators balances) k f b
  rw [given (k := 11) rfl rfl] at first
  rw [given (k := 12) rfl rfl] at second
  exact ⟨s, _, read, hashed, first, second⟩

end Given

/-! ### Validators and balances -/

/-- The section of a list of validators. -/
def validatorsSection (vs : List Record) : ByteArray := Bytes.concatList (vs.map Record.encode)

section Lists

variable {vs : List Record} {ns : List Int}

theorem size_of_mem_encoded (fits : ∀ v ∈ vs, v.Fits .validator) :
    ∀ b ∈ vs.map Record.encode, b.size = Schema.validator.size := by
  intro b mem
  obtain ⟨v, inList, rfl⟩ := List.mem_map.mp mem
  exact Schema.size_encode_of_plain (by decide) (fits v inList)

theorem whole_validatorsSection (fits : ∀ v ∈ vs, v.Fits .validator) :
    (validatorsSection vs).size % Schema.validator.size = 0 := by
  rw [validatorsSection, Bytes.size_concatList (size_of_mem_encoded fits), Nat.mul_mod_left]

theorem toList_chunks_validatorsSection (fits : ∀ v ∈ vs, v.Fits .validator) :
    (Bytes.chunks Schema.validator.size (validatorsSection vs)).toList = vs.map Record.encode :=
  Bytes.chunks_concatList (by decide) (size_of_mem_encoded fits)

/-- The section of validators is read as it was written. -/
theorem decodeValidators?_validatorsSection (fits : ∀ v ∈ vs, v.Fits .validator) :
    decodeValidators? (validatorsSection vs) = .ok vs.toArray := by
  refine decodeValidators?_eq_ok_iff.mpr ⟨whole_validatorsSection fits, ?_⟩
  rw [mapM_toList_eq_ok_iff, mapM_eq_ok_iff, toList_chunks_validatorsSection fits,
    List.forall₂_map_left_iff, List.forall₂_same]
  exact fun v mem => (Schema.decode?_eq_ok_iff (by decide)).mpr ⟨fits v mem, rfl⟩

/-- The section of balances is read as it was written. -/
theorem decodeBalances?_packedBytes (fit : ∀ n ∈ ns, 0 ≤ n ∧ n < twoTo 64) :
    decodeBalances? (Chunk.packedBytes ns) = .ok ns := by
  have whole : (Chunk.packedBytes ns).size % 8 = 0 := by
    rw [Chunk.size_packedBytes, Nat.mul_mod_left]
  exact decodeBalances?_eq_ok_iff.mpr ⟨whole, (Chunk.wordsOf_packedBytes fit).symm⟩

theorem holds_validatorsSection (fits : ∀ v ∈ vs, v.Fits .validator)
    (short : (validatorsSection vs).size ≤ 1000000) :
    SectionKind.validators.Holds (validatorsSection vs) := by
  have whole := whole_validatorsSection fits
  have count := Bytes.size_chunks_of_whole (show 0 < Schema.validator.size by decide) whole
  have le := Nat.le_mul_of_pos_right
    (Bytes.chunks Schema.validator.size (validatorsSection vs)).size
    (show 0 < Schema.validator.size by decide)
  have room : 1000000 < twoTo 40 := by decide +kernel
  have length : twoTo 40 ≤ twoTo 256 := by decide +kernel
  refine ⟨⟨by decide, whole, ⟨?_, ?_⟩⟩, fun x mem => ?_⟩
  · rw [Limits.validatorTreeHeight]
    omega
  · omega
  · rw [← Array.mem_toList_iff, toList_chunks_validatorsSection fits] at mem
    obtain ⟨v, inList, rfl⟩ := List.mem_map.mp mem
    exact ⟨v, (Schema.decode?_eq_ok_iff (by decide)).mpr ⟨fits v inList, rfl⟩⟩

theorem holds_packedBytes (short : (Chunk.packedBytes ns).size ≤ 1000000) :
    SectionKind.balances.Holds (Chunk.packedBytes ns) := by
  have room : 1000000 < twoTo 38 := by decide +kernel
  have length : twoTo 38 ≤ twoTo 256 := by decide +kernel
  refine ⟨by rw [Chunk.size_packedBytes, Nat.mul_mod_left], ⟨?_, by omega⟩⟩
  rw [SectionKind.size_chunksOf, Limits.balanceTreeHeight]
  omega

/-- There is a state with given validators and balances, and it has a root. -/
theorem exists_state (fits : ∀ v ∈ vs, v.Fits .validator) (fit : ∀ n ∈ ns, 0 ≤ n ∧ n < twoTo 64)
    (shortV : (validatorsSection vs).size ≤ 1000000)
    (shortB : (Chunk.packedBytes ns).size ≤ 1000000) : ∃ s root,
      Snapshot.decode? (encode (partsWith (validatorsSection vs) (Chunk.packedBytes ns))) = .ok s ∧
      s.root? = .ok root ∧ s.validators = vs.toArray ∧ s.balances = ns := by
  obtain ⟨s, root, read, hashed, validators, balances⟩ := exists_decode?_partsWith
    (holds_validatorsSection fits shortV) (holds_packedBytes shortB) shortV shortB
  rw [decodeValidators?_validatorsSection fits] at validators
  rw [decodeBalances?_packedBytes fit] at balances
  exact ⟨s, root, read, hashed, (Except.ok.inj validators).symm, (Except.ok.inj balances).symm⟩

end Lists

/-- The buffer of a state with one validator of zeros and one balance. -/
def loneBuffer : ByteArray :=
  encode (partsWith (validatorsSection [Record.zero .validator]) (Chunk.packedBytes [32000000000]))

theorem exists_loneState : ∃ s root, Snapshot.decode? loneBuffer = .ok s ∧ s.root? = .ok root ∧
    s.validators = #[Record.zero .validator] ∧ s.balances = [32000000000] := by
  have fits : ∀ v ∈ [Record.zero .validator], v.Fits .validator :=
    List.forall_mem_singleton.mpr (Record.fits_zero .validator)
  have fit : ∀ n ∈ [(32000000000 : Int)], 0 ≤ n ∧ n < twoTo 64 := by decide +kernel
  refine exists_state fits fit ?_ ?_
  · rw [validatorsSection, Bytes.size_concatList (size_of_mem_encoded fits)]
    decide
  · rw [Chunk.size_packedBytes]
    decide

end State

end BeaconBranch
