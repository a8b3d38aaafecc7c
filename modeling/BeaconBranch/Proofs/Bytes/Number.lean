import BeaconBranch.Binary64
import BeaconBranch.Bytes.Basic
import Mathlib.Algebra.Group.Nat.Defs

/-!
Numbers as bytes, lowest byte first. A byte string is looked at as the list of its bytes, in which
each byte counts 256 times as much as the one before it. Main statements: a number that fits into
its bytes is read back from them, and a byte string is written back from the number it stands for,
so that strings of one size that stand for one number are equal.
-/

namespace BeaconBranch.Bytes

/-- The number that a list of bytes stands for. -/
def valueOf : List UInt8 → Nat
  | [] => 0
  | x :: xs => x.toNat + 256 * valueOf xs

/-- The lowest bytes of a number. -/
def digitsOf : Nat → Nat → List UInt8
  | 0, _ => []
  | width + 1, n => n.toUInt8 :: digitsOf width (n / 256)

/-- The numbers that fit into so many bytes, counted in bits. -/
theorem twoTo_eight_mul (width : Nat) : twoTo (8 * width) = 256 ^ width := Nat.pow_mul 2 8 width

theorem ext_toList {a b : ByteArray} (same : a.data.toList = b.data.toList) : a = b := by
  cases a
  cases b
  exact congrArg ByteArray.mk (Array.toList_inj.mp same)

theorem length_toList (b : ByteArray) : b.data.toList.length = b.size := rfl

/-! ### Lists of bytes -/

theorem valueOf_append (xs ys : List UInt8) :
    valueOf (xs ++ ys) = valueOf xs + 256 ^ xs.length * valueOf ys := by
  induction xs with
  | nil => simp [valueOf]
  | cons x xs ih =>
    rw [List.cons_append, valueOf, valueOf, ih, List.length_cons, Nat.pow_succ', Nat.mul_add,
      Nat.mul_assoc, Nat.add_assoc]

theorem valueOf_lt (xs : List UInt8) : valueOf xs < 256 ^ xs.length := by
  induction xs with
  | nil => decide
  | cons x xs ih =>
    have byte : x.toNat < 256 := x.toNat_lt
    rw [valueOf, List.length_cons, Nat.pow_succ']
    omega

theorem valueOf_digitsOf {width n : Nat} (lt : n < 256 ^ width) :
    valueOf (digitsOf width n) = n := by
  induction width generalizing n with
  | zero =>
    rw [Nat.pow_zero] at lt
    rw [digitsOf, valueOf]
    omega
  | succ width ih =>
    rw [Nat.pow_succ'] at lt
    have byte : n.toUInt8.toNat = n % 256 := UInt8.toNat_ofNat'
    rw [digitsOf, valueOf, ih (by omega), byte]
    omega

theorem digitsOf_valueOf (xs : List UInt8) : digitsOf xs.length (valueOf xs) = xs := by
  induction xs with
  | nil => rfl
  | cons x xs ih =>
    have byte : x.toNat < 256 := x.toNat_lt
    have low : (x.toNat + 256 * valueOf xs).toUInt8 = x := by
      apply UInt8.toNat_inj.mp
      rw [show (x.toNat + 256 * valueOf xs).toUInt8.toNat = (x.toNat + 256 * valueOf xs) % 256 from
        UInt8.toNat_ofNat']
      omega
    have high : (x.toNat + 256 * valueOf xs) / 256 = valueOf xs := by omega
    rw [List.length_cons, valueOf, digitsOf, low, high, ih]

/-! ### Byte strings -/

theorem toList_pushNatLE (width n : Nat) (b : ByteArray) :
    (pushNatLE width n b).data.toList = b.data.toList ++ digitsOf width n := by
  induction width generalizing n b with
  | zero => rw [pushNatLE, digitsOf, List.append_nil]
  | succ width ih =>
    rw [pushNatLE, ih, digitsOf, ByteArray.data_push, Array.toList_push, List.append_assoc]
    rfl

@[simp] theorem toList_ofNatLE (width n : Nat) : (ofNatLE width n).data.toList = digitsOf width n :=
  toList_pushNatLE width n _

/-- Reading from the end adds the lower bytes below the number read so far. -/
theorem toNatBelow_eq (b : ByteArray) {i : Nat} (le : i ≤ b.size) (high : Nat) :
    toNatBelow b i high = valueOf (b.data.toList.take i) + 256 ^ i * high := by
  induction i generalizing high with
  | zero => simp [toNatBelow, valueOf]
  | succ i ih =>
    have inside : i < b.data.toList.length := le
    have byte : b.data.getD i 0 = b.data.toList[i] := by
      rw [Array.getD_eq_getD_getElem?, ← Array.getElem?_toList, List.getElem?_eq_getElem inside]
      rfl
    rw [toNatBelow, ih (by omega), byte, List.take_add_one, List.getElem?_eq_getElem inside,
      Option.toList_some, valueOf_append, List.length_take, Nat.min_eq_left (by omega), valueOf,
      valueOf, Nat.pow_succ, Nat.mul_add, Nat.mul_assoc, Nat.mul_zero, Nat.add_zero]
    omega

theorem toNatLE_eq (b : ByteArray) : toNatLE b = valueOf b.data.toList := by
  rw [toNatLE, toNatBelow_eq b (Nat.le_refl _), Nat.mul_zero, Nat.add_zero, ← length_toList,
    List.take_length]

theorem toNatLE_lt (b : ByteArray) : toNatLE b < 256 ^ b.size := by
  rw [toNatLE_eq, ← length_toList]
  exact valueOf_lt _

/-- A number that fits into its bytes is read back. -/
theorem toNatLE_ofNatLE {width n : Nat} (lt : n < 256 ^ width) : toNatLE (ofNatLE width n) = n := by
  rw [toNatLE_eq, toList_ofNatLE, valueOf_digitsOf lt]

/-- A byte string is written back. -/
theorem ofNatLE_toNatLE (b : ByteArray) : ofNatLE b.size (toNatLE b) = b := by
  apply ext_toList
  rw [toList_ofNatLE, toNatLE_eq, ← length_toList, digitsOf_valueOf]

/-- A byte string stands for a number exactly if it is how the number is written. -/
theorem toNatLE_eq_iff {width n : Nat} {b : ByteArray} (size : b.size = width) :
    toNatLE b = n ↔ n < 256 ^ width ∧ b = ofNatLE width n := by
  constructor
  · rintro rfl
    rw [← size]
    exact ⟨toNatLE_lt b, (ofNatLE_toNatLE b).symm⟩
  · rintro ⟨lt, rfl⟩
    exact toNatLE_ofNatLE lt

/-- The bytes of a number determine it. -/
theorem ofNatLE_injective {width m n : Nat} (ltM : m < 256 ^ width) (ltN : n < 256 ^ width)
    (same : ofNatLE width m = ofNatLE width n) : m = n := by
  rw [← toNatLE_ofNatLE ltM, same, toNatLE_ofNatLE ltN]

end BeaconBranch.Bytes
