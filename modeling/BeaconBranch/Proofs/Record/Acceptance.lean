import BeaconBranch.Proofs.State.SectionRoot

/-!
Which byte strings are read as records. Every field has its place in the fixed part, so once the
size of a string is right, only the flags can still be wrong; and everything that reading refuses is
refused for its bounds. Main statements: when a record is read, in general and for the records of
the state.
-/

namespace BeaconBranch

open Outcome

/-- A computation that fails only because bounds are broken. -/
abbrev BoundsOnly {α : Type} (x : Except Fault α) : Prop :=
  FailsOnly (fun f : Fault => f.kind = .recordBounds) x

/-! ### Faults of reading -/

namespace Chunk

variable {b : ByteArray} {o : Int}

theorem boundsOnly_readBytes? {n : Int} : BoundsOnly (readBytes? b o n) := by
  rw [readBytes?]
  split
  · exact .error rfl
  · exact .ok _

theorem boundsOnly_readFlag? : BoundsOnly (readFlag? b o) := by
  rw [readFlag?]
  refine boundsOnly_readBytes?.bind fun x _ => ?_
  dsimp only
  split
  · exact .error rfl
  · exact .ok _

end Chunk

theorem FieldKind.boundsOnly_read? (k : FieldKind) (data : ByteArray) (o : Nat) :
    BoundsOnly (k.read? data o) := by
  cases k with
  | uint64 => exact Chunk.boundsOnly_readBytes?.map.bind fun _ _ => .ok _
  | uint256 => exact Chunk.boundsOnly_readBytes?.bind fun _ _ => .ok _
  | flag => exact Chunk.boundsOnly_readFlag?.bind fun _ _ => .ok _
  | bytes n => exact Chunk.boundsOnly_readBytes?.bind fun _ _ => .ok _
  | chunk => exact Chunk.boundsOnly_readBytes?.bind fun _ _ => .ok _
  | extraData => exact Chunk.boundsOnly_readBytes?.map.bind fun _ _ => .ok _

namespace Schema

variable {s : Schema} {b : ByteArray}

theorem boundsOnly_checkSize : BoundsOnly (s.checkSize b) := by
  rw [checkSize]
  split
  · split
    · exact .ok ()
    · exact .error rfl
  · split
    · exact .error rfl
    · refine Chunk.boundsOnly_readBytes?.map.bind fun start _ => ?_
      split
      · exact .error rfl
      · split
        · exact .error rfl
        · exact .ok ()

/-- Everything that reading a record refuses is refused for its bounds. -/
theorem boundsOnly_decode? : BoundsOnly (s.decode? b) := by
  rw [decode?]
  refine boundsOnly_checkSize.bind fun _ _ => ?_
  exact (FailsOnly.mapM fun p _ => p.2.kind.boundsOnly_read? b p.1).bind fun _ _ => .ok _

theorem boundsOnly_cut? {width : Nat} (pos : 0 < width) (what : String) :
    BoundsOnly (cut? b width what) := by
  rw [cut?, if_neg (by omega)]
  split
  · exact .error rfl
  · exact .ok _

end Schema

theorem boundsOnly_decodeValidators? (b : ByteArray) : BoundsOnly (decodeValidators? b) := by
  refine (Schema.boundsOnly_cut? (by decide) _).bind fun pieces _ => ?_
  rw [Array.mapM_eq_mapM_toList]
  exact (FailsOnly.mapM fun _ _ => Schema.boundsOnly_decode?).map

theorem boundsOnly_decodeBalances? (b : ByteArray) : BoundsOnly (decodeBalances? b) :=
  (Schema.boundsOnly_cut? (show 0 < 8 by decide) _).bind fun _ _ => .ok _

/-! ### Flags -/

/-- The byte at a position is the one of a flag. -/
def IsFlagAt (b : ByteArray) (i : Nat) : Prop := b.data[i]? = some 0 ∨ b.data[i]? = some 1

theorem extract_one_iff {b : ByteArray} {i : Nat} {u : UInt8} :
    i + 1 ≤ b.size ∧ b.extract i (i + 1) = ByteArray.empty.push u ↔ b.data[i]? = some u := by
  have cut : (b.extract i (i + 1)).data.toList = (b.data.toList.drop i).take 1 := by
    rw [ByteArray.data_extract, Array.toList_extract, List.extract_eq_take_drop,
      Nat.add_sub_cancel_left]
  rw [← Array.getElem?_toList]
  constructor
  · rintro ⟨le, single⟩
    have item := congrArg (fun x : ByteArray => x.data.toList[0]?) single
    rw [cut, List.getElem?_take_of_lt Nat.one_pos, List.getElem?_drop, Nat.add_zero] at item
    exact item
  · intro found
    obtain ⟨lt, rfl⟩ := List.getElem?_eq_some_iff.mp found
    refine ⟨lt, Bytes.ext_toList ?_⟩
    rw [cut, List.drop_eq_getElem_cons lt]
    rfl

/-- A flag is read exactly if its byte is there. -/
theorem Chunk.exists_readFlag?_iff {b : ByteArray} {o : Nat} :
    (∃ flag, readFlag? b o = .ok flag) ↔ IsFlagAt b o := by
  simp only [readFlag?_eq_ok_iff, encodeFlag, Bool.exists_bool, IsFlagAt, ← extract_one_iff]
  rfl

/-- A field is read exactly if its place lies inside the string, and a flag if its byte is one. -/
theorem FieldKind.exists_read?_iff {k : FieldKind} {data : ByteArray} {o : Nat}
    (inside : o + k.width ≤ data.size) :
    (∃ v, k.read? data o = .ok v) ↔ (k = .flag → IsFlagAt data o) := by
  have vector (n : Nat) (le : o + n ≤ data.size) :
      Chunk.readBytes? data o n = .ok (data.extract o (o + n)) :=
    Chunk.readBytes?_eq_ok_iff.mpr ⟨le, rfl⟩
  cases k with
  | uint64 =>
    rw [read?, Chunk.readUint64?_eq_ok_iff.mpr ⟨inside, rfl⟩]
    exact iff_of_true ⟨_, rfl⟩ (by rintro ⟨⟩)
  | uint256 =>
    rw [read?, show (32 : Int) = (32 : Nat) from rfl, vector 32 inside]
    exact iff_of_true ⟨_, rfl⟩ (by rintro ⟨⟩)
  | flag =>
    simp only [read?, bind_eq_ok_iff, pure_eq_ok_iff, true_implies, ← Chunk.exists_readFlag?_iff]
    constructor
    · rintro ⟨_, flag, read, -⟩
      exact ⟨flag, read⟩
    · rintro ⟨flag, read⟩
      exact ⟨_, flag, read, rfl⟩
  | bytes n =>
    rw [read?, vector n inside]
    exact iff_of_true ⟨_, rfl⟩ (by rintro ⟨⟩)
  | chunk =>
    rw [read?, show (32 : Int) = (32 : Nat) from rfl, vector 32 inside]
    exact iff_of_true ⟨_, rfl⟩ (by rintro ⟨⟩)
  | extraData =>
    rw [read?, Chunk.readUint32?_eq_ok_iff.mpr ⟨inside, rfl⟩]
    exact iff_of_true ⟨_, rfl⟩ (by rintro ⟨⟩)

/-! ### Records -/

namespace Schema

variable {s : Schema} {b : ByteArray}

/-- Once its size is right, a record is read exactly if all of its flags are flags. -/
theorem exists_decode?_iff (regular : s.Regular) : (∃ r, s.decode? b = .ok r) ↔
    s.checkSize b = .ok () ∧ ∀ p ∈ s.places, p.2.kind = .flag → IsFlagAt b p.1 := by
  have fieldwise (checked : s.checkSize b = .ok ()) :
      (∃ values, s.places.mapM (fun p => p.2.kind.read? b p.1) = .ok values) ↔
        ∀ p ∈ s.places, p.2.kind = .flag → IsFlagAt b p.1 := by
    rw [exists_mapM_eq_ok_iff]
    refine forall₂_congr fun p mem => FieldKind.exists_read?_iff ?_
    have least := ((checkSize_eq_ok_iff regular).mp checked).2.1
    have inside := inside_of_mem_placesFrom mem
    rw [Nat.zero_add, ← size_eq] at inside
    omega
  simp only [decode?, bind_eq_ok_iff, pure_eq_ok_iff]
  constructor
  · rintro ⟨_, _, checked, values, read, -⟩
    exact ⟨checked, (fieldwise checked).mp ⟨values, read⟩⟩
  · rintro ⟨checked, flags⟩
    obtain ⟨values, read⟩ := (fieldwise checked).mpr flags
    exact ⟨_, (), checked, values, read, rfl⟩

/-- A record with neither flags nor extra data is read exactly if its size is right. -/
theorem exists_decode?_iff_size (regular : s.Regular) (plain : s.extraDataPlace? = none)
    (noFlags : ∀ p ∈ s.places, p.2.kind ≠ .flag) :
    (∃ r, s.decode? b = .ok r) ↔ b.size = s.size := by
  rw [exists_decode?_iff regular, checkSize_of_none plain]
  exact and_iff_left fun p mem flag => absurd flag (noFlags p mem)

theorem exists_decode?_validator_iff :
    (∃ r, validator.decode? b = .ok r) ↔ b.size = 121 ∧ IsFlagAt b 88 := by
  rw [exists_decode?_iff (by decide), checkSize_of_none (by decide)]
  refine and_congr Iff.rfl ?_
  constructor
  · intro flags
    have fourth : validator.places[3]? = some (88, ⟨"slashed", .flag, none⟩) := rfl
    exact flags _ (List.mem_of_getElem? fourth) rfl
  · intro flag p mem isFlag
    have only : ∀ p ∈ validator.places, p.2.kind = .flag → p.1 = 88 := by decide
    rw [only p mem isFlag]
    exact flag

theorem exists_decode?_payloadHeader_iff : (∃ r, payloadHeader.decode? b = .ok r) ↔
    584 ≤ b.size ∧ b.size ≤ 616 ∧ Bytes.toNatLE (b.extract 436 440) = 584 := by
  have noFlags : ∀ p ∈ payloadHeader.places, p.2.kind ≠ .flag := by decide
  rw [exists_decode?_iff (by decide),
    checkSize_of_some (x := 436) (by decide) (by decide) (by decide),
    and_iff_left fun p mem flag => absurd flag (noFlags p mem)]
  refine and_congr_right fun least => and_congr Iff.rfl ?_
  have size : (b.extract 436 440).size = 4 := by
    rw [ByteArray.size_extract]
    have here : payloadHeader.size = 584 := by decide
    omega
  exact ((Bytes.toNatLE_eq_iff size).trans (and_iff_right (by decide))).symm

end Schema

end BeaconBranch
