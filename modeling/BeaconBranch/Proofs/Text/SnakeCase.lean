import BeaconBranch.Text.SnakeCase
import Mathlib.Data.List.Basic

/-!
Names in two spellings. A name in snake case is made of words of two small letters or more, with an
underscore between one word and the next; in camel case the underscores are left out, and each word
but the first starts with a capital. Main statements: a name in snake case is its own snake-case
form, and it is that of its camel-case spelling.
-/

namespace BeaconBranch.SnakeCase

/-- What may follow a small letter in snake case: small letters, and underscores with two small
letters behind them. -/
def goesOn : List Char → Bool
  | [] => true
  | '_' :: c :: d :: rest => isSmall c && isSmall d && goesOn rest
  | c :: rest => isSmall c && goesOn rest

/-- A name in snake case. -/
def isSnake (name : String) : Bool :=
  match name.toList with
  | [] => false
  | c :: rest => isSmall c && goesOn rest

/-- Characters in camel case: an underscore is left out, and a capital stands for the letter behind
it. -/
def camelChars : List Char → List Char
  | [] => []
  | '_' :: c :: rest => c.toUpper :: camelChars rest
  | c :: rest => c :: camelChars rest

/-- The camel-case spelling of a name in snake case. -/
def toCamel (name : String) : String := String.ofList (camelChars name.toList)

/-- Characters with a capital behind each underscore. -/
def wordChars : List Char → List Char
  | [] => []
  | '_' :: c :: rest => '_' :: c.toUpper :: wordChars rest
  | c :: rest => c :: wordChars rest

/-! ### Letters -/

variable {c d : Char} {cs : List Char}

theorem toNat_of_isSmall (small : isSmall c = true) : 97 ≤ c.toNat ∧ c.toNat ≤ 122 := by
  simpa [isSmall, Char.le_def, UInt32.le_iff_toNat_le] using small

/-- What holds of the letters from a to z holds of each small letter. -/
theorem of_isSmall (p : Char → Prop) (letters : ∀ n < 26, p (Char.ofNat (97 + n)))
    (small : isSmall c = true) : p c := by
  obtain ⟨ge, le⟩ := toNat_of_isSmall small
  have letter := letters (c.toNat - 97) (by omega)
  rwa [show 97 + (c.toNat - 97) = c.toNat by omega, Char.ofNat_toNat] at letter

theorem isCapital_of_isSmall (small : isSmall c = true) : isCapital c = false :=
  of_isSmall (isCapital · = false) (by decide) small

theorem ne_of_isSmall (small : isSmall c = true) : c ≠ '_' ∧ c ≠ '\n' :=
  of_isSmall (fun c => c ≠ '_' ∧ c ≠ '\n') (by decide) small

theorem isCapital_toUpper (small : isSmall c = true) : isCapital c.toUpper = true :=
  of_isSmall (isCapital ·.toUpper = true) (by decide) small

theorem not_small_or_digit_toUpper (small : isSmall c = true) :
    ¬(isSmall c.toUpper = true ∨ '0' ≤ c.toUpper ∧ c.toUpper ≤ '9') :=
  of_isSmall (fun c => ¬(isSmall c.toUpper = true ∨ '0' ≤ c.toUpper ∧ c.toUpper ≤ '9'))
    (by decide) small

/-- A small letter is its own lower-case partner and that of its capital. -/
theorem partner_of_isSmall (small : isSmall c = true) :
    LowerCase.partner c = c ∧ LowerCase.partner c.toUpper = c ∧ c.toUpper.toNat < 128 :=
  of_isSmall (fun c => LowerCase.partner c = c ∧ LowerCase.partner c.toUpper = c ∧
    c.toUpper.toNat < 128) (by decide) small

/-- Among ASCII characters no letter depends on its neighbours. -/
theorem lowerAfter_of_ascii {before : List Char} (ascii : ∀ c ∈ cs, c.toNat < 128) :
    LowerCase.lowerAfter before cs = cs.map LowerCase.partner := by
  induction cs generalizing before with
  | nil => rfl
  | cons c cs ih =>
    obtain ⟨first, others⟩ := List.forall_mem_cons.mp ascii
    have plain : c ≠ '\u0130' ∧ c ≠ '\u03a3' := by
      constructor <;> (rintro rfl; revert first; decide)
    rw [LowerCase.lowerAfter, if_neg plain.1, if_neg (fun sigma => plain.2 sigma.1), ih others]
    rfl

theorem lower_ofList (ascii : ∀ c ∈ cs, c.toNat < 128) :
    LowerCase.lower (String.ofList cs) = String.ofList (cs.map LowerCase.partner) := by
  rw [LowerCase.lower, String.toList_ofList, lowerAfter_of_ascii ascii]

/-! ### Words -/

/-- The first pass leaves the first character where it is. -/
theorem exists_splitWords (skip : Nat) (c : Char) (cs : List Char) :
    ∃ rest, splitWords skip (c :: cs) = c :: rest := by
  match skip, cs with
  | skip + 1, cs => exact ⟨_, rfl⟩
  | 0, [] => exact ⟨_, rfl⟩
  | 0, [d] => exact ⟨_, rfl⟩
  | 0, d :: e :: cs =>
    rw [splitWords]
    split
    · exact ⟨_, rfl⟩
    · exact ⟨_, rfl⟩

/-- The first pass splits nothing off before a character that is no capital. -/
theorem exists_splitWords_of_not_capital (skip : Nat) (c : Char)
    (notCapital : isCapital d = false) (cs : List Char) :
    ∃ skip', splitWords skip (c :: d :: cs) = c :: splitWords skip' (d :: cs) := by
  match skip, cs with
  | skip + 1, cs => exact ⟨skip, rfl⟩
  | 0, [] => exact ⟨0, rfl⟩
  | 0, e :: cs =>
    rw [splitWords, if_neg (by simp [notCapital])]
    exact ⟨0, rfl⟩

/-- The second pass goes on behind a character that is not followed by a capital. -/
theorem splitCapitals_of_not_capital (c : Char) (notCapital : isCapital d = false)
    (cs : List Char) : splitCapitals (c :: d :: cs) = c :: splitCapitals (d :: cs) := by
  rw [splitCapitals, if_neg (by simp [notCapital])]

/-- Both passes together put an underscore before the capital of a word, wherever the first pass
stands: if it does not split the word off, the second pass does. -/
theorem splitCapitals_splitWords_word (small : isSmall c = true) (first : isSmall d = true)
    {e : Char} (second : isSmall e = true) (skip : Nat) (cs : List Char) :
    ∃ skip', splitCapitals (splitWords skip (c :: d.toUpper :: e :: cs)) =
      c :: '_' :: d.toUpper :: splitCapitals (splitWords skip' (e :: cs)) := by
  have capital := isCapital_toUpper first
  have behind : ∀ skip' : Nat, splitCapitals (d.toUpper :: splitWords skip' (e :: cs)) =
      d.toUpper :: splitCapitals (splitWords skip' (e :: cs)) := by
    intro skip'
    obtain ⟨rest, starts⟩ := exists_splitWords skip' e cs
    rw [starts, splitCapitals, if_neg fun both => not_small_or_digit_toUpper first both.1]
  match skip with
  | 0 =>
    refine ⟨1 + (cs.takeWhile isSmall).length, ?_⟩
    have split : splitWords 0 (c :: d.toUpper :: e :: cs) = c :: '_' :: d.toUpper ::
        splitWords (1 + (cs.takeWhile isSmall).length) (e :: cs) := by
      rw [splitWords, if_pos ⟨(ne_of_isSmall small).2, capital, second⟩,
        show 2 + (cs.takeWhile isSmall).length = 1 + (cs.takeWhile isSmall).length + 1 by omega,
        splitWords]
    rw [split, splitCapitals_of_not_capital c (by decide), splitCapitals,
      if_neg fun both => absurd both.1 (by decide), behind]
  | skip + 1 =>
    obtain ⟨skip', later⟩ := exists_splitWords_of_not_capital skip d.toUpper
      (isCapital_of_isSmall second) cs
    refine ⟨skip', ?_⟩
    rw [splitWords, later, splitCapitals, if_pos ⟨.inl small, capital⟩]

theorem camelChars_cons (small : isSmall c = true) (cs : List Char) :
    camelChars (c :: cs) = c :: camelChars cs := by
  rw [camelChars.eq_def]
  simp [(ne_of_isSmall small).1]

theorem wordChars_cons (small : isSmall c = true) (cs : List Char) :
    wordChars (c :: cs) = c :: wordChars cs := by
  rw [wordChars.eq_def]
  simp [(ne_of_isSmall small).1]

/-- Both passes together put an underscore before each capital of a camel-case spelling. -/
theorem splitCapitals_splitWords_camelChars (small : isSmall c = true) (follows : goesOn cs = true)
    (skip : Nat) : splitCapitals (splitWords skip (c :: camelChars cs)) = c :: wordChars cs := by
  induction cs using goesOn.induct generalizing c skip with
  | case1 =>
    match skip with
    | 0 => rfl
    | skip + 1 => rfl
  | case2 d e rest ih =>
    simp only [goesOn, Bool.and_eq_true] at follows
    obtain ⟨⟨first, second⟩, others⟩ := follows
    rw [camelChars, camelChars_cons second, wordChars, wordChars_cons second]
    obtain ⟨skip', split⟩ :=
      splitCapitals_splitWords_word small first second skip (camelChars rest)
    rw [split, ih second others]
  | case3 d rest notWord ih =>
    rw [goesOn, Bool.and_eq_true] at follows
    · obtain ⟨letter, others⟩ := follows
      have notCapital := isCapital_of_isSmall letter
      rw [camelChars_cons letter, wordChars_cons letter]
      obtain ⟨skip', later⟩ :=
        exists_splitWords_of_not_capital skip c notCapital (camelChars rest)
      obtain ⟨tail, starts⟩ := exists_splitWords skip' d (camelChars rest)
      rw [later, starts, splitCapitals_of_not_capital c notCapital, ← starts, ih letter others]
    · exact notWord

/-- In lower case the capitals of words are the letters of the name again. -/
theorem map_partner_wordChars (follows : goesOn cs = true) :
    (wordChars cs).map LowerCase.partner = cs ∧ ∀ c ∈ wordChars cs, c.toNat < 128 := by
  induction cs using goesOn.induct with
  | case1 => exact ⟨rfl, List.forall_mem_nil _⟩
  | case2 d e rest ih =>
    simp only [goesOn, Bool.and_eq_true] at follows
    obtain ⟨⟨first, second⟩, others⟩ := follows
    obtain ⟨letters, ascii⟩ := ih others
    obtain ⟨-, ownCapital, capital⟩ := partner_of_isSmall first
    obtain ⟨own, -, -⟩ := partner_of_isSmall second
    have small := toNat_of_isSmall second
    rw [wordChars, wordChars_cons second]
    refine ⟨?_, List.forall_mem_cons.mpr ⟨by decide, List.forall_mem_cons.mpr ⟨capital,
      List.forall_mem_cons.mpr ⟨by omega, ascii⟩⟩⟩⟩
    rw [List.map_cons, List.map_cons, List.map_cons, letters, ownCapital, own]
    rfl
  | case3 d rest notWord ih =>
    rw [goesOn, Bool.and_eq_true] at follows
    · obtain ⟨letter, others⟩ := follows
      obtain ⟨letters, ascii⟩ := ih others
      have small := toNat_of_isSmall letter
      rw [wordChars_cons letter]
      refine ⟨?_, List.forall_mem_cons.mpr ⟨by omega, ascii⟩⟩
      rw [List.map_cons, letters, (partner_of_isSmall letter).1]
    · exact notWord

/-! ### Names -/

theorem mem_goesOn (follows : goesOn cs = true) {c : Char} (mem : c ∈ cs) :
    isSmall c = true ∨ c = '_' := by
  induction cs using goesOn.induct with
  | case1 => cases mem
  | case2 d e rest ih =>
    simp only [goesOn, Bool.and_eq_true] at follows
    obtain ⟨⟨first, second⟩, others⟩ := follows
    simp only [List.mem_cons] at mem
    rcases mem with rfl | rfl | rfl | later
    · exact .inr rfl
    · exact .inl first
    · exact .inl second
    · exact ih others later
  | case3 d rest notWord ih =>
    rw [goesOn, Bool.and_eq_true] at follows
    · rcases List.mem_cons.mp mem with rfl | later
      · exact .inl follows.1
      · exact ih follows.2 later
    · exact notWord

theorem exists_of_isSnake {name : String} (snake : isSnake name = true) :
    ∃ c cs, name.toList = c :: cs ∧ isSmall c = true ∧ goesOn cs = true := by
  rw [isSnake] at snake
  split at snake
  · cases snake
  · rename_i c cs chars
    exact ⟨c, cs, chars, Bool.and_eq_true_iff.mp snake⟩

/-- Without capitals there is nothing to split. -/
theorem split_of_no_capitals (noCapitals : ∀ c ∈ cs, isCapital c = false) (skip : Nat) :
    splitWords skip cs = cs ∧ splitCapitals cs = cs := by
  induction cs generalizing skip with
  | nil => exact ⟨by cases skip <;> rfl, rfl⟩
  | cons c cs ih =>
    obtain ⟨-, others⟩ := List.forall_mem_cons.mp noCapitals
    cases cs with
    | nil => exact ⟨by cases skip <;> rfl, rfl⟩
    | cons d cs =>
      have notCapital := others d List.mem_cons_self
      obtain ⟨skip', later⟩ := exists_splitWords_of_not_capital skip c notCapital cs
      rw [later, splitCapitals_of_not_capital c notCapital, (ih others skip').1,
        (ih others skip').2]
      exact ⟨rfl, rfl⟩

/-- A name in snake case is its own snake-case form. -/
theorem ofCamel_of_isSnake {name : String} (snake : isSnake name = true) : ofCamel name = name := by
  obtain ⟨c, cs, chars, small, follows⟩ := exists_of_isSnake snake
  have kept : ∀ d ∈ c :: cs, isCapital d = false ∧ d.toNat < 128 ∧ LowerCase.partner d = d := by
    intro d mem
    have letter : isSmall d = true ∨ d = '_' :=
      (List.mem_cons.mp mem).elim (fun same => .inl (same ▸ small)) (mem_goesOn follows)
    rcases letter with letter | rfl
    · obtain ⟨ge, le⟩ := toNat_of_isSmall letter
      exact ⟨isCapital_of_isSmall letter, by omega, (partner_of_isSmall letter).1⟩
    · decide
  obtain ⟨words, capitals⟩ := split_of_no_capitals (fun d mem => (kept d mem).1) 0
  rw [ofCamel, chars, words, capitals, lower_ofList fun d mem => (kept d mem).2.1,
    List.map_congr_left fun d mem => (kept d mem).2.2, List.map_id', ← chars, String.ofList_toList]

/-- A name in snake case is the snake-case form of its camel-case spelling. -/
theorem ofCamel_toCamel {name : String} (snake : isSnake name = true) :
    ofCamel (toCamel name) = name := by
  obtain ⟨c, cs, chars, small, follows⟩ := exists_of_isSnake snake
  obtain ⟨letters, ascii⟩ := map_partner_wordChars follows
  have smallAscii := toNat_of_isSmall small
  rw [ofCamel, toCamel, String.toList_ofList, chars, camelChars_cons small,
    splitCapitals_splitWords_camelChars small follows,
    lower_ofList (List.forall_mem_cons.mpr ⟨by omega, ascii⟩), List.map_cons, letters,
    (partner_of_isSmall small).1, ← chars, String.ofList_toList]

example : toCamel "parent_block_root" = "parentBlockRoot" := by decide

end BeaconBranch.SnakeCase
