/-!
Texts as rows of code points. A text from outside may hold a code point that is no character: half
of a pair of code units whose other half is missing. A string holds such a half as two characters, a
mark and a private character, and holds the mark itself twice, so that different rows have
different strings. What counts or cuts the characters of a text works on its row. Main statement: a
row comes back from its string.
-/

namespace BeaconBranch.CodePoints

/-- Whether a code point is half of a pair of code units. -/
def isHalf (p : Nat) : Bool := 0xd800 ≤ p && p ≤ 0xdfff

/-- The character in front of a half. -/
def mark : Char := Char.ofNat 0x10ffff

/-- The characters that hold a code point. -/
def write (p : Nat) : List Char :=
  if isHalf p then [mark, Char.ofNat (0x100000 + p)]
  else if Char.ofNat p = mark then [mark, mark]
  else [Char.ofNat p]

/-- The string of a row. -/
def text (ps : List Nat) : String := String.ofList (ps.flatMap write)

/-- Takes in one character. The code points so far come last first, and the flag tells that a mark
has been read whose meaning is still open. A mark before anything else stands for itself. -/
def step : List Nat × Bool → Char → List Nat × Bool
  | (before, false), c => if c = mark then (before, true) else (c.toNat :: before, false)
  | (before, true), c =>
    if c = mark then (mark.toNat :: before, false)
    else if isHalf (c.toNat - 0x100000) then ((c.toNat - 0x100000) :: before, false)
    else (c.toNat :: mark.toNat :: before, false)

/-- The row after the last character. -/
def finish : List Nat × Bool → List Nat
  | (before, marked) => (if marked then mark.toNat :: before else before).reverse

/-- The row of a string. -/
def ofText (s : String) : List Nat := finish (s.toList.foldl step ([], false))

/-- The number of code points of a text. -/
def length (s : String) : Nat := (ofText s).length

/-- The text that consists of the characters of a string, none of which stands for anything else. -/
def ofPlain (s : String) : String := text (s.toList.map Char.toNat)

/-- The characters of a text as a plain string, with U+FFFD for each half. -/
def toPlain (s : String) : String :=
  String.ofList ((ofText s).map fun p => if isHalf p then Char.ofNat 0xfffd else Char.ofNat p)

theorem toNat_ofNat {n : Nat} (h : n.isValidChar) : (Char.ofNat n).toNat = n := by
  rw [Char.ofNat, dif_pos h]
  rfl

theorem toNat_mark : mark.toNat = 0x10ffff := toNat_ofNat (Or.inr ⟨by decide, by decide⟩)

/-- Reading what holds one code point gives this code point, and leaves no mark open. -/
theorem foldl_step_write (before : List Nat) (p : Nat) (h : p < 0x110000) :
    (write p).foldl step (before, false) = (p :: before, false) := by
  unfold write
  split
  · next half =>
    simp only [isHalf, Bool.and_eq_true, decide_eq_true_eq] at half
    have n : (Char.ofNat (0x100000 + p)).toNat = 0x100000 + p :=
      toNat_ofNat (Or.inr ⟨by omega, by omega⟩)
    have ne : Char.ofNat (0x100000 + p) ≠ mark := fun e => by
      have := congrArg Char.toNat e
      rw [n, toNat_mark] at this
      omega
    have sub : 0x100000 + p - 0x100000 = p := by omega
    have isH : isHalf p = true := by simp [isHalf, half]
    simp only [List.foldl_cons, List.foldl_nil, step, if_true, if_neg ne, n, sub, isH]
  · next whole =>
    have n : (Char.ofNat p).toNat = p := toNat_ofNat (by
      simp only [isHalf, Bool.and_eq_true, decide_eq_true_eq] at whole
      unfold Nat.isValidChar
      omega)
    split
    · next e =>
      have : mark.toNat = p := by rw [← e, n]
      simp only [List.foldl_cons, List.foldl_nil, step, if_true, this]
    · next ne => simp only [List.foldl_cons, List.foldl_nil, step, if_neg ne, n]

theorem foldl_step_flatMap (before ps : List Nat) (h : ∀ p ∈ ps, p < 0x110000) :
    (ps.flatMap write).foldl step (before, false) = (ps.reverse ++ before, false) := by
  induction ps generalizing before with
  | nil => rfl
  | cons p ps ih =>
    rw [List.flatMap_cons, List.foldl_append, foldl_step_write before p (h p List.mem_cons_self),
      ih (p :: before) fun q m => h q (List.mem_cons_of_mem p m)]
    simp

theorem ofText_text (ps : List Nat) (h : ∀ p ∈ ps, p < 0x110000) : ofText (text ps) = ps := by
  rw [ofText, text, String.toList_ofList, foldl_step_flatMap [] ps h]
  simp [finish]

theorem foldl_step_of_ne_mark {cs : List Char} (unmarked : ∀ c ∈ cs, c ≠ mark)
    (before : List Nat) :
    cs.foldl step (before, false) = ((cs.map Char.toNat).reverse ++ before, false) := by
  induction cs generalizing before with
  | nil => rfl
  | cons c cs ih =>
    obtain ⟨first, rest⟩ := List.forall_mem_cons.mp unmarked
    rw [List.foldl_cons, step, if_neg first, ih rest]
    simp

/-- A string without marks is the row of its characters. -/
theorem ofText_of_ne_mark {s : String} (unmarked : ∀ c ∈ s.toList, c ≠ mark) :
    ofText s = s.toList.map Char.toNat := by
  rw [ofText, foldl_step_of_ne_mark unmarked]
  simp [finish]

/-- A character is no half of a pair. -/
theorem isHalf_toNat (c : Char) : isHalf c.toNat = false := by
  have valid : c.toNat < 0xd800 ∨ 0xdfff < c.toNat ∧ c.toNat < 0x110000 := c.valid
  simp only [isHalf, Bool.and_eq_false_iff, decide_eq_false_iff_not]
  omega

end BeaconBranch.CodePoints
