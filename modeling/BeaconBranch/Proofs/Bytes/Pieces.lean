import BeaconBranch.Bytes.Basic
import BeaconBranch.Proofs.Bytes.Number

/-!
Byte strings made of pieces. Zeros are put behind a string, pieces of one width are put one after
another and cut out again. Main statements: the pieces of a string put together are the string, the
pieces of one width in a string made of them are found where they were put, and a string is told by
its size and its chunks.
-/

namespace BeaconBranch.Bytes

/-! ### Zeros behind a string -/

theorem pushZeros_eq (n : Nat) (b : ByteArray) : pushZeros n b = b ++ pushZeros n .empty := by
  induction n generalizing b with
  | zero => exact ByteArray.append_empty.symm
  | succ n ih =>
    have one : b.push 0 = b ++ ByteArray.empty.push 0 :=
      ext_toList (by rw [ByteArray.toList_data_append, ByteArray.data_push, Array.toList_push]; rfl)
    rw [pushZeros, ih, pushZeros, ih (ByteArray.empty.push 0), ← ByteArray.append_assoc, one]

theorem pushZeros_eq_append_zeros (n : Nat) (b : ByteArray) : pushZeros n b = b ++ zeros n :=
  pushZeros_eq n b

theorem pushZeros_add (m n : Nat) (b : ByteArray) :
    pushZeros (m + n) b = pushZeros n (pushZeros m b) := by
  induction m generalizing b with
  | zero => rw [Nat.zero_add, pushZeros]
  | succ m ih => rw [Nat.succ_add, pushZeros, pushZeros, ih]

theorem zeros_add (m n : Nat) : zeros (m + n) = zeros m ++ zeros n := by
  rw [zeros, pushZeros_add, pushZeros_eq_append_zeros]
  rfl

theorem padRight_eq (width : Nat) (b : ByteArray) :
    padRight width b = b ++ zeros (width - b.size) :=
  pushZeros_eq_append_zeros _ b

theorem padToMultiple_eq (width : Nat) (b : ByteArray) :
    padToMultiple width b = b ++ zeros ((width - b.size % width) % width) :=
  pushZeros_eq_append_zeros _ b

theorem padToMultiple_of_dvd {width : Nat} {b : ByteArray} (whole : b.size % width = 0) :
    padToMultiple width b = b := by
  rw [padToMultiple, whole, Nat.sub_zero, Nat.mod_self, pushZeros]

theorem size_padToMultiple (width : Nat) (b : ByteArray) :
    (padToMultiple width b).size = b.size + (width - b.size % width) % width := by
  rw [padToMultiple, size_pushZeros]

/-- A filled-up string has whole pieces only. -/
theorem size_padToMultiple_mod {width : Nat} (pos : 0 < width) (b : ByteArray) :
    (padToMultiple width b).size % width = 0 := by
  have rest : b.size % width < width := Nat.mod_lt _ pos
  rw [size_padToMultiple, Nat.add_mod, Nat.mod_mod]
  rcases Nat.eq_zero_or_pos (b.size % width) with zero | more
  · rw [zero, Nat.sub_zero, Nat.mod_self, Nat.zero_add, Nat.zero_mod]
  · rw [Nat.mod_eq_of_lt (show width - b.size % width < width by omega),
      Nat.add_sub_cancel' (Nat.le_of_lt rest), Nat.mod_self]

/-- Behind whole pieces a string is filled up as it is by itself. -/
theorem padToMultiple_append {width : Nat} {a : ByteArray} (whole : a.size % width = 0)
    (b : ByteArray) : padToMultiple width (a ++ b) = a ++ padToMultiple width b := by
  rw [padToMultiple_eq, padToMultiple_eq, ByteArray.size_append, Nat.add_mod, whole, Nat.zero_add,
    Nat.mod_mod, ByteArray.append_assoc]

/-- The zeros behind a string of a known size tell nothing more. -/
theorem padRight_injective {width : Nat} {a b : ByteArray} (size : a.size = b.size)
    (same : padRight width a = padRight width b) : a = b := by
  rw [padRight_eq, padRight_eq, ByteArray.append_eq_append_iff_of_size_eq_left size] at same
  exact same.1

theorem padToMultiple_injective {width : Nat} {a b : ByteArray} (size : a.size = b.size)
    (same : padToMultiple width a = padToMultiple width b) : a = b := by
  rw [padToMultiple_eq, padToMultiple_eq,
    ByteArray.append_eq_append_iff_of_size_eq_left size] at same
  exact same.1

theorem append_injective {a b c d : ByteArray} (size : a.size = c.size) (same : a ++ b = c ++ d) :
    a = c ∧ b = d :=
  (ByteArray.append_eq_append_iff_of_size_eq_left size).mp same

/-- What lies inside the first part of a string. -/
theorem extract_append_of_le {a b : ByteArray} {i j : Nat} (le : j ≤ a.size) :
    (a ++ b).extract i j = a.extract i j := by
  have none : b.extract (i - a.size) (j - a.size) = ByteArray.empty := by
    rw [ByteArray.extract_eq_empty_iff]
    omega
  rw [ByteArray.extract_append, none, ByteArray.append_empty]

/-! ### Pieces put together -/

/-- The bytes of the pieces of a list, one after another. -/
def concatList : List ByteArray → ByteArray
  | [] => ByteArray.empty
  | b :: rest => b ++ concatList rest

theorem foldl_append (b : ByteArray) (pieces : List ByteArray) :
    pieces.foldl (· ++ ·) b = b ++ concatList pieces := by
  induction pieces generalizing b with
  | nil => exact ByteArray.append_empty.symm
  | cons x rest ih => rw [List.foldl_cons, ih, concatList, ByteArray.append_assoc]

theorem concat_eq (pieces : Array ByteArray) : concat pieces = concatList pieces.toList := by
  rw [concat, ← Array.foldl_toList, foldl_append, ByteArray.empty_append]

theorem concatList_append (xs ys : List ByteArray) :
    concatList (xs ++ ys) = concatList xs ++ concatList ys := by
  induction xs with
  | nil => exact ByteArray.empty_append.symm
  | cons x xs ih => rw [List.cons_append, concatList, concatList, ih, ByteArray.append_assoc]

section Width

variable {width : Nat} {pieces : List ByteArray}

theorem size_concatList (sizes : ∀ b ∈ pieces, b.size = width) :
    (concatList pieces).size = pieces.length * width := by
  induction pieces with
  | nil => simp [concatList]
  | cons b rest ih =>
    have first := sizes b List.mem_cons_self
    have others := ih fun x mem => sizes x (List.mem_cons_of_mem _ mem)
    rw [concatList, ByteArray.size_append, first, others, List.length_cons, Nat.succ_mul,
      Nat.add_comm]

/-- A piece is found where it was put. -/
theorem extract_concatList (sizes : ∀ b ∈ pieces, b.size = width) {i : Nat} {b : ByteArray}
    (found : pieces[i]? = some b) :
    (concatList pieces).extract (i * width) (i * width + width) = b := by
  induction pieces generalizing i with
  | nil => simp at found
  | cons x rest ih =>
    have first : x.size = width := sizes x List.mem_cons_self
    rw [concatList]
    cases i with
    | zero =>
      obtain rfl : x = b := Option.some.inj found
      rw [Nat.zero_mul, Nat.zero_add]
      exact ByteArray.extract_append_eq_left first.symm
    | succ i =>
      have next : (i + 1) * width = width + i * width := by rw [Nat.succ_mul, Nat.add_comm]
      rw [next, Nat.add_assoc, ByteArray.extract_append_size_add' first.symm]
      exact ih (fun y mem => sizes y (List.mem_cons_of_mem _ mem)) found

/-- Pieces of one width are told by the string they make. -/
theorem concatList_injective {others : List ByteArray} (length : pieces.length = others.length)
    (sizes : ∀ b ∈ pieces, b.size = width) (sizesOthers : ∀ b ∈ others, b.size = width)
    (same : concatList pieces = concatList others) : pieces = others := by
  refine List.ext_getElem length ?_
  intro i lt ltOthers
  have left := extract_concatList sizes (List.getElem?_eq_getElem lt)
  have right := extract_concatList sizesOthers (List.getElem?_eq_getElem ltOthers)
  rw [← left, same, right]

end Width

/-! ### Pieces cut out -/

theorem getElem?_chunks (width : Nat) (b : ByteArray) {i : Nat}
    (lt : i < (b.size + width - 1) / width) :
    (chunks width b)[i]? = some (b.extract (i * width) (i * width + width)) := by
  rw [chunks, Array.getElem?_ofFn]
  simp only [lt, dite_true]

theorem chunks_toList (width : Nat) (b : ByteArray) :
    (chunks width b).toList = (List.range ((b.size + width - 1) / width)).map fun i =>
      b.extract (i * width) (i * width + width) := by
  refine List.ext_getElem (by simp) fun i lt _ => ?_
  rw [List.getElem_map, List.getElem_range]
  exact Option.some.inj ((List.getElem?_eq_getElem lt).symm.trans
    ((Array.getElem?_toList).trans (getElem?_chunks width b (by simpa using lt))))

/-- The first pieces make the beginning of the string. -/
theorem concatList_pieces (width k : Nat) (b : ByteArray) :
    concatList ((List.range k).map fun i => b.extract (i * width) (i * width + width)) =
      b.extract 0 (k * width) := by
  induction k with
  | zero => rw [Nat.zero_mul, ByteArray.extract_same]; rfl
  | succ k ih =>
    rw [List.range_succ, List.map_append, concatList_append, ih, List.map_singleton, concatList,
      concatList, ByteArray.append_empty, ByteArray.extract_append_extract, Nat.zero_min,
      Nat.succ_mul, Nat.max_eq_right (by omega)]

/-- The pieces of a string make it again. -/
theorem concatList_chunks {width : Nat} (pos : 0 < width) (b : ByteArray) :
    concatList (chunks width b).toList = b := by
  have covers : b.size ≤ (b.size + width - 1) / width * width := by
    have rest := Nat.mod_add_div (b.size + width - 1) width
    have small : (b.size + width - 1) % width < width := Nat.mod_lt _ pos
    rw [Nat.mul_comm]
    omega
  rw [chunks_toList, concatList_pieces, ← Nat.max_eq_left covers]
  exact ByteArray.extract_zero_max_size

/-- A string of whole pieces has pieces of the full width. -/
theorem size_of_mem_chunks {width : Nat} {b x : ByteArray} (whole : b.size % width = 0)
    (mem : x ∈ chunks width b) : x.size = width := by
  obtain ⟨i, rfl⟩ := Array.mem_ofFn.mp mem
  have lt : i.val < (b.size + width - 1) / width := i.isLt
  have pos : 0 < width := by
    rcases Nat.eq_zero_or_pos width with rfl | pos
    · simp at lt
    · exact pos
  obtain ⟨k, size⟩ := Nat.dvd_of_mod_eq_zero whole
  have bound : (b.size + width - 1) / width = k := by
    rw [size, Nat.add_sub_assoc pos, Nat.mul_add_div pos, Nat.div_eq_of_lt (by omega), Nat.add_zero]
  have inside : (i.val + 1) * width ≤ b.size :=
    calc (i.val + 1) * width
      _ ≤ k * width := Nat.mul_le_mul_right _ (by omega)
      _ = b.size := by rw [size, Nat.mul_comm]
  rw [ByteArray.size_extract]
  rw [Nat.succ_mul] at inside
  omega

/-- A string of whole pieces has as many pieces as fit into it. -/
theorem size_chunks_of_whole {width : Nat} (pos : 0 < width) {b : ByteArray}
    (whole : b.size % width = 0) : (chunks width b).size * width = b.size := by
  obtain ⟨k, size⟩ := Nat.dvd_of_mod_eq_zero whole
  rw [size_chunks, size, Nat.add_sub_assoc pos, Nat.mul_add_div pos, Nat.div_eq_of_lt (by omega),
    Nat.add_zero, Nat.mul_comm]

/-- Strings are told by their pieces. -/
theorem chunks_injective {width : Nat} (pos : 0 < width) {a b : ByteArray}
    (same : chunks width a = chunks width b) : a = b := by
  rw [← concatList_chunks pos a, same, concatList_chunks pos b]

/-- Pieces of one width put together are cut out as they were. -/
theorem chunks_concatList {width : Nat} (pos : 0 < width) {pieces : List ByteArray}
    (sizes : ∀ b ∈ pieces, b.size = width) :
    (chunks width (concatList pieces)).toList = pieces := by
  have size := size_concatList sizes
  have whole : (concatList pieces).size % width = 0 := by rw [size, Nat.mul_mod_left]
  refine @concatList_injective width _ _ ?_ (fun b mem => ?_) sizes
    (concatList_chunks pos _)
  · have count := size_chunks_of_whole pos whole
    rw [size] at count
    rw [Array.length_toList]
    exact Nat.eq_of_mul_eq_mul_right pos count
  · exact size_of_mem_chunks whole (Array.mem_toList_iff.mp mem)

/-- A string of whole pieces keeps its pieces when another one is put behind it. -/
theorem chunks_append {width : Nat} (pos : 0 < width) {a b : ByteArray}
    (wholeA : a.size % width = 0) (wholeB : b.size % width = 0) :
    (chunks width (a ++ b)).toList = (chunks width a).toList ++ (chunks width b).toList := by
  have sizes : ∀ x ∈ (chunks width a).toList ++ (chunks width b).toList, x.size = width := by
    intro x mem
    rcases List.mem_append.mp mem with left | right
    · exact size_of_mem_chunks wholeA (Array.mem_toList_iff.mp left)
    · exact size_of_mem_chunks wholeB (Array.mem_toList_iff.mp right)
  have made := chunks_concatList pos sizes
  rwa [concatList_append, concatList_chunks pos, concatList_chunks pos] at made

end BeaconBranch.Bytes
