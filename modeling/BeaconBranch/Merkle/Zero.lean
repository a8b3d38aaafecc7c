import BeaconBranch.Hash.Sha256

/-!
Empty subtrees. The zero hash of height `h` is the root of a complete tree of `2 ^ h` zero chunks,
so an empty subtree is never walked. Main statements: the zero hash of height zero is the zero
chunk, and each further one joins the one below it with itself; and a chain of them is the same row
whether it is cut from the lowest ones or continues them.
-/

namespace BeaconBranch.Merkle

/-- The parent of two nodes: the digest of their bytes side by side. -/
def join (left right : ByteArray) : ByteArray := Sha256.digest (left ++ right)

@[simp] theorem size_join (l r : ByteArray) : (join l r).size = 32 := Sha256.size_digest _

/-- The chunk of 32 zero bytes, which every leaf that is not set counts as. -/
def zeroChunk : ByteArray := Bytes.zeros 32

@[simp] theorem size_zeroChunk : zeroChunk.size = 32 := Bytes.size_zeros 32

/-- The zero hashes of the heights up to `h`. -/
def zeroHashes : Nat → Array ByteArray
  | 0 => #[zeroChunk]
  | h + 1 =>
    let below := zeroHashes h
    let top := below.getD h zeroChunk
    below.push (join top top)

/-- The zero hashes that are computed once. -/
def zeroTable : Array ByteArray := zeroHashes 256

/-- The root of a complete tree of height `h` whose leaves are zero chunks. -/
def zeroHash (h : Nat) : ByteArray :=
  if h ≤ 256 then zeroTable.getD h zeroChunk else (zeroHashes h).getD h zeroChunk

/-- The zero hashes that every chain starts with. -/
def lowestZeros : Array ByteArray := zeroHashes 64

/-- A row with `n` more nodes behind it, each the join of the last one with itself. -/
def continueZeros : Nat → Array ByteArray → Array ByteArray
  | 0, row => row
  | n + 1, row =>
    let top := row.back?.getD zeroChunk
    continueZeros n (row.push (join top top))

/-- The zero hashes up to a depth: as many of the lowest ones, or these continued. Below depth zero
they are counted back from the end of the lowest ones. -/
def zeroChain (depth : Int) : Array ByteArray :=
  if depth < lowestZeros.size then
    lowestZeros.extract 0 (Bytes.clampEnd lowestZeros.size (depth + 1))
  else continueZeros (depth.toNat + 1 - lowestZeros.size) lowestZeros

@[simp] theorem size_zeroHashes (d : Nat) : (zeroHashes d).size = d + 1 := by
  induction d with
  | zero => rfl
  | succ d ih => simp [zeroHashes, ih]

/-- A longer row of zero hashes starts with the shorter ones. -/
theorem getD_zeroHashes {h d : Nat} (le : h ≤ d) :
    (zeroHashes d).getD h zeroChunk = (zeroHashes h).getD h zeroChunk := by
  induction d with
  | zero => obtain rfl : h = 0 := by omega
            rfl
  | succ d ih =>
    rcases Nat.lt_or_eq_of_le le with lt | rfl
    · rw [← ih (by omega)]
      simp only [zeroHashes, Array.getD_eq_getD_getElem?]
      rw [Array.getElem?_push_lt (by simp; omega)]
      simp [show h < d + 1 by omega]
    · rfl

theorem zeroHash_eq (h : Nat) : zeroHash h = (zeroHashes h).getD h zeroChunk := by
  unfold zeroHash
  split
  · rename_i le; exact getD_zeroHashes le
  · rfl

@[simp] theorem zeroHash_zero : zeroHash 0 = zeroChunk := by rw [zeroHash_eq]; rfl

/-- An empty tree has two empty halves. -/
theorem zeroHash_succ (h : Nat) : zeroHash (h + 1) = join (zeroHash h) (zeroHash h) := by
  rw [zeroHash_eq, zeroHash_eq, zeroHashes, Array.getD_eq_getD_getElem?]
  have size : h + 1 = (zeroHashes h).size := (size_zeroHashes h).symm
  simp only [size, Array.getElem?_push_size, Option.getD_some]

@[simp] theorem size_zeroHash (h : Nat) : (zeroHash h).size = 32 := by
  cases h with
  | zero => simp
  | succ h => simp [zeroHash_succ]

/-! ### Chains -/

theorem toList_zeroHashes (d : Nat) : (zeroHashes d).toList = (List.range (d + 1)).map zeroHash := by
  induction d with
  | zero => simp [zeroHashes]
  | succ d ih =>
    rw [List.range_succ, List.map_append, ← ih, zeroHashes, Array.toList_push, ← zeroHash_eq,
      ← zeroHash_succ, List.map_singleton]

theorem getElem?_zeroHashes {h d : Nat} (le : h ≤ d) : (zeroHashes d)[h]? = some (zeroHash h) := by
  rw [← Array.getElem?_toList, toList_zeroHashes, List.getElem?_map,
    List.getElem?_range (by omega), Option.map_some]

/-- The front of a row of zero hashes. -/
theorem extract_zeroHashes {h d : Nat} (le : h ≤ d) :
    (zeroHashes d).extract 0 (h + 1) = zeroHashes h := by
  rw [← Array.toList_inj, Array.toList_extract, toList_zeroHashes, toList_zeroHashes,
    List.extract_eq_take_drop, List.drop_zero, ← List.map_take, List.take_range]
  congr 2
  omega

/-- A row of zero hashes is continued with the next ones. -/
theorem continueZeros_zeroHashes (n d : Nat) :
    continueZeros n (zeroHashes d) = zeroHashes (d + n) := by
  induction n generalizing d with
  | zero => rfl
  | succ n ih =>
    have last : (zeroHashes d).back?.getD zeroChunk = (zeroHashes d).getD d zeroChunk := by
      rw [Array.back?_eq_getElem?, size_zeroHashes, Array.getD_eq_getD_getElem?]
      rfl
    rw [continueZeros, last, Nat.add_comm n 1, ← Nat.add_assoc, ← ih (d + 1)]
    rfl

/-- A chain is the row of zero hashes up to its depth, on both sides of the lowest ones. -/
theorem zeroChain_natCast (d : Nat) : zeroChain d = zeroHashes d := by
  have size : lowestZeros.size = 65 := size_zeroHashes 64
  rw [zeroChain, size]
  split
  · rename_i low
    have stop : Bytes.clampEnd 65 (d + 1) = d + 1 := by
      rw [Bytes.clampEnd, if_neg (by omega)]
      omega
    rw [stop, lowestZeros, extract_zeroHashes (by omega)]
  · rename_i high
    rw [Int.toNat_natCast, lowestZeros, continueZeros_zeroHashes]
    congr 1
    omega

end BeaconBranch.Merkle
