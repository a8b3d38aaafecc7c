/-!
Byte strings: zero padding, little-endian numbers, fixed-width records and slices whose ends may
lie outside the string. Main statements: the size of what each function returns.
-/

namespace BeaconBranch.Bytes

/-- The comparison of byte strings decides their equality. -/
instance lawfulBEq : LawfulBEq ByteArray where
  rfl {a} := by
    show (a.data == a.data) = true
    exact beq_self_eq_true a.data
  eq_of_beq {a b} h := by
    have same : a.data = b.data := eq_of_beq (show (a.data == b.data) = true from h)
    cases a
    cases b
    exact congrArg ByteArray.mk same

/-- Appends `n` zero bytes. -/
def pushZeros : Nat → ByteArray → ByteArray
  | 0, b => b
  | n + 1, b => pushZeros n (b.push 0)

/-- The byte string of `n` zero bytes. -/
def zeros (n : Nat) : ByteArray := pushZeros n (ByteArray.emptyWithCapacity n)

/-- Zero bytes are added on the right up to `width`; a longer string stays as it is. -/
def padRight (width : Nat) (b : ByteArray) : ByteArray := pushZeros (width - b.size) b

/-- Zero bytes are added on the right up to the next multiple of `width`. -/
def padToMultiple (width : Nat) (b : ByteArray) : ByteArray :=
  pushZeros ((width - b.size % width) % width) b

/-- Appends the `width` low bytes of a number, lowest first. -/
def pushNatLE : Nat → Nat → ByteArray → ByteArray
  | 0, _, b => b
  | width + 1, n, b => pushNatLE width (n / 256) (b.push n.toUInt8)

/-- The `width` low bytes of a number, lowest first. -/
def ofNatLE (width n : Nat) : ByteArray := pushNatLE width n (ByteArray.emptyWithCapacity width)

/-- The `width` low bytes of a number, highest first. -/
def ofNatBE (width n : Nat) : ByteArray := ⟨(ofNatLE width n).data.reverse⟩

/-- Reads the first `i` bytes, lowest first, below the number `high`. -/
def toNatBelow (b : ByteArray) : Nat → Nat → Nat
  | 0, high => high
  | i + 1, high => toNatBelow b i (256 * high + (b.data.getD i 0).toNat)

/-- The number whose bytes, lowest first, are `b`. -/
def toNatLE (b : ByteArray) : Nat := toNatBelow b b.size 0

/-- Cuts a byte string every `width` bytes; the last piece may be shorter. -/
def chunks (width : Nat) (b : ByteArray) : Array ByteArray :=
  Array.ofFn fun i : Fin ((b.size + width - 1) / width) =>
    b.extract (i * width) (i * width + width)

/-- An end of a slice: a negative one counts from the right, and both sides stop at the ends. -/
def clampEnd (size : Nat) (i : Int) : Nat :=
  if i < 0 then (i + size).toNat else min i.toNat size

/-- The bytes from `start` up to `stop`, both clamped. -/
def slice (b : ByteArray) (start stop : Int) : ByteArray :=
  b.extract (clampEnd b.size start) (clampEnd b.size stop)

/-- The bytes of all pieces, one after another. -/
def concat (pieces : Array ByteArray) : ByteArray :=
  pieces.foldl (· ++ ·) ByteArray.empty

@[simp] theorem size_pushZeros (n : Nat) (b : ByteArray) : (pushZeros n b).size = b.size + n := by
  induction n generalizing b with
  | zero => rfl
  | succ n ih => simp only [pushZeros, ih, ByteArray.size_push]; omega

@[simp] theorem size_zeros (n : Nat) : (zeros n).size = n := by
  simp only [zeros, size_pushZeros]
  exact Nat.zero_add n

@[simp] theorem size_padRight (width : Nat) (b : ByteArray) :
    (padRight width b).size = max width b.size := by
  simp only [padRight, size_pushZeros]; omega

@[simp] theorem size_pushNatLE (width n : Nat) (b : ByteArray) :
    (pushNatLE width n b).size = b.size + width := by
  induction width generalizing n b with
  | zero => rfl
  | succ width ih => simp only [pushNatLE, ih, ByteArray.size_push]; omega

@[simp] theorem size_ofNatLE (width n : Nat) : (ofNatLE width n).size = width := by
  simp only [ofNatLE, size_pushNatLE]
  exact Nat.zero_add width

@[simp] theorem size_chunks (width : Nat) (b : ByteArray) :
    (chunks width b).size = (b.size + width - 1) / width := by
  simp [chunks]

end BeaconBranch.Bytes
