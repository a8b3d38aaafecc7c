import BeaconBranch.Chunk.Scalar
import BeaconBranch.Proofs.Bytes.Pieces
import BeaconBranch.Proofs.Outcome

/-!
Reading values out of a longer byte string. Main statements: what is read stands at the offset, and
it is read exactly if it lies inside the string.
-/

namespace BeaconBranch

open Outcome

namespace Chunk

theorem slice_natCast {b : ByteArray} {o n : Nat} (le : o + n ≤ b.size) :
    Bytes.slice b (o : Int) ((o : Int) + (n : Int)) = b.extract o (o + n) := by
  have start : Bytes.clampEnd b.size (o : Int) = o := by
    rw [Bytes.clampEnd, if_neg (by omega)]
    omega
  have stop : Bytes.clampEnd b.size ((o : Int) + n) = o + n := by
    rw [Bytes.clampEnd, if_neg (by omega)]
    omega
  rw [Bytes.slice, start, stop]

/-- Bytes are read exactly if they lie inside the string. -/
theorem readBytes?_eq_ok_iff {b x : ByteArray} {o n : Nat} :
    readBytes? b o n = .ok x ↔ o + n ≤ b.size ∧ b.extract o (o + n) = x := by
  rw [readBytes?]
  by_cases inside : o + n ≤ b.size
  · rw [if_neg (by omega), slice_natCast inside]
    simp [inside]
  · rw [if_pos (by omega)]
    simp [inside]

/-- A number is read from the bytes in its place. -/
theorem readNumber_eq_ok_iff {b : ByteArray} {o width n : Nat} :
    (readBytes? b o width).map Bytes.toNatLE = .ok n ↔
      o + width ≤ b.size ∧ Bytes.toNatLE (b.extract o (o + width)) = n := by
  simp only [map_eq_ok_iff, readBytes?_eq_ok_iff]
  constructor
  · rintro ⟨_, ⟨le, rfl⟩, rfl⟩
    exact ⟨le, rfl⟩
  · rintro ⟨le, rfl⟩
    exact ⟨_, ⟨le, rfl⟩, rfl⟩

theorem readUint64?_eq_ok_iff {b : ByteArray} {o n : Nat} :
    readUint64? b o = .ok n ↔ o + 8 ≤ b.size ∧ Bytes.toNatLE (b.extract o (o + 8)) = n :=
  readNumber_eq_ok_iff

theorem readUint32?_eq_ok_iff {b : ByteArray} {o n : Nat} :
    readUint32? b o = .ok n ↔ o + 4 ≤ b.size ∧ Bytes.toNatLE (b.extract o (o + 4)) = n :=
  readNumber_eq_ok_iff

theorem size_encodeFlag (flag : Bool) : (encodeFlag flag).size = 1 := rfl

theorem encodeFlag_injective {a b : Bool} (same : encodeFlag a = encodeFlag b) : a = b := by
  cases a <;> cases b
  · rfl
  · exact absurd same (by decide)
  · exact absurd same (by decide)
  · rfl

theorem exists_of_size_one {b : ByteArray} (size : b.size = 1) :
    ∃ u, b = ByteArray.empty.push u := by
  obtain ⟨u, single⟩ := List.length_eq_one_iff.mp ((Bytes.length_toList b).trans size)
  exact ⟨u, Bytes.ext_toList single⟩

/-- A flag is read exactly if its byte is the byte of a flag. -/
theorem readFlag?_eq_ok_iff {b : ByteArray} {o : Nat} {flag : Bool} :
    readFlag? b o = .ok flag ↔ o + 1 ≤ b.size ∧ b.extract o (o + 1) = encodeFlag flag := by
  have read : ∀ x, readBytes? b o 1 = .ok x ↔ o + 1 ≤ b.size ∧ b.extract o (o + 1) = x :=
    fun x => readBytes?_eq_ok_iff (n := 1)
  simp only [readFlag?, bind_eq_ok_iff, read]
  constructor
  · rintro ⟨_, ⟨le, rfl⟩, byte⟩
    refine ⟨le, ?_⟩
    have size : (b.extract o (o + 1)).size = 1 := by rw [ByteArray.size_extract]; omega
    obtain ⟨u, single⟩ := exists_of_size_one size
    rw [single] at byte ⊢
    have first : (ByteArray.empty.push u).data.getD 0 0 = u := rfl
    rw [first] at byte
    split at byte
    · cases byte
    · rename_i small
      obtain rfl : (u == 1) = flag := Except.ok.inj byte
      have bit : u = 0 ∨ u = 1 := by
        rw [← UInt8.toNat_inj, ← UInt8.toNat_inj]
        have le : u.toNat ≤ 1 := UInt8.le_iff_toNat_le.mp (UInt8.not_lt.mp small)
        simp only [UInt8.toNat_zero, UInt8.toNat_one]
        omega
      rcases bit with rfl | rfl <;> rfl
  · rintro ⟨le, byte⟩
    refine ⟨_, ⟨le, rfl⟩, ?_⟩
    rw [byte]
    cases flag <;> rfl

end Chunk

end BeaconBranch
