import BeaconBranch.Command.Line
import BeaconBranch.Proofs.Service.Honest

/-!
Words of a command line. An option may be said in several ways, and is read as it is said. A task is
only made of indices that the service takes. Main statements: words that say options are read as
these; and every task of a command line is valid before anything is asked.
-/

namespace BeaconBranch.Command

/-! ### Options -/

/-- Names and letters of options can be told from the signs around them. -/
def Plain (specs : List OptionSpec) : Prop :=
  ∀ spec ∈ specs, spec.name ≠ "" ∧ '=' ∉ spec.name.toList ∧ spec.letter? ≠ some '-'

instance (specs : List OptionSpec) : Decidable (Plain specs) :=
  inferInstanceAs (Decidable (∀ spec ∈ specs, _))

theorem plain_commonSpecs : Plain commonSpecs := by decide

theorem plain_specsOf : ∀ verb, Plain (specsOf verb)
  | .credentials | .checkpoint | .staleBalance | .status | .inspect | .serve => by decide

variable {specs : List OptionSpec} {spec : OptionSpec} {stopAtOther : Bool}
  {words rest : List String} {w : Words} {word value : String} {option : String × String}

/-- An option of this name is this one. -/
def Named (specs : List OptionSpec) (spec : OptionSpec) : Prop :=
  specs.find? (·.name == spec.name) = some spec

/-- An option of this letter is this one. -/
def Lettered (specs : List OptionSpec) (c : Char) (spec : OptionSpec) : Prop :=
  specs.find? (·.letter? == some c) = some spec

/-- Words that say an option: by its name or by its letter; its value stands behind an equals sign,
behind the letter, or in the next word. -/
inductive SpellsOption (specs : List OptionSpec) : List String → String × String → Prop
  | flag {spec : OptionSpec} (named : Named specs spec) (isFlag : spec.takesValue = false) :
      SpellsOption specs ["--" ++ spec.name] (spec.name, "")
  | joined {spec : OptionSpec} (named : Named specs spec) (takes : spec.takesValue = true)
      (value : String) : SpellsOption specs ["--" ++ spec.name ++ "=" ++ value] (spec.name, value)
  | separate {spec : OptionSpec} (named : Named specs spec) (takes : spec.takesValue = true)
      (value : String) : SpellsOption specs ["--" ++ spec.name, value] (spec.name, value)
  | letterFlag {spec : OptionSpec} {c : Char} (lettered : Lettered specs c spec)
      (isFlag : spec.takesValue = false) :
      SpellsOption specs ["-" ++ String.singleton c] (spec.name, "")
  | letterJoined {spec : OptionSpec} {c : Char} (lettered : Lettered specs c spec)
      (takes : spec.takesValue = true) {value : String} (some : value ≠ "") :
      SpellsOption specs ["-" ++ String.singleton c ++ value] (spec.name, value)
  | letterSeparate {spec : OptionSpec} {c : Char} (lettered : Lettered specs c spec)
      (takes : spec.takesValue = true) (value : String) :
      SpellsOption specs ["-" ++ String.singleton c, value] (spec.name, value)

/-- Words that say options, and others: two hyphens end the options, and so does the first word that
is none where it has to. -/
inductive Spells (specs : List OptionSpec) (stopAtOther : Bool) : List String → Words → Prop
  | nothing : Spells specs stopAtOther [] ⟨[], []⟩
  | hyphens (words : List String) : Spells specs stopAtOther ("--" :: words) ⟨[], words⟩
  | stop {word : String} (words : List String) (other : readWord specs word = none)
      (stops : stopAtOther = true) : Spells specs stopAtOther (word :: words) ⟨[], word :: words⟩
  | other {word : String} {words : List String} {w : Words} (other : readWord specs word = none)
      (goesOn : stopAtOther = false) (rest : Spells specs stopAtOther words w) :
      Spells specs stopAtOther (word :: words) (w.addOther word)
  | option {said words : List String} {o : String × String} {w : Words}
      (spelled : SpellsOption specs said o) (rest : Spells specs stopAtOther words w) :
      Spells specs stopAtOther (said ++ words) (w.addOptions [o])

/-- No character of a name ends it. -/
theorem ne_sign_of_mem (plain : Plain specs) (named : Named specs spec) :
    ∀ c ∈ spec.name.toList, (c != '=') = true := by
  obtain ⟨-, noSign, -⟩ := plain spec (List.mem_of_find?_eq_some named)
  intro c mem
  simpa using fun same : c = '=' => noSign (same ▸ mem)

theorem readName_plain (plain : Plain specs) (named : Named specs spec) :
    readName specs spec.name.toList =
      if spec.takesValue then .awaiting [] spec.name else .complete [(spec.name, "")] := by
  have whole : (spec.name.toList ++ []).takeWhile (· != '=') = spec.name.toList ++ [] :=
    List.takeWhile_append_of_pos (ne_sign_of_mem plain named)
  have unsigned : spec.name.toList.contains '=' = false := by
    simpa using (plain spec (List.mem_of_find?_eq_some named)).2.1
  rw [Named] at named
  rw [List.append_nil] at whole
  simp only [readName, whole, unsigned, String.ofList_toList, named]
  simp

theorem readName_joined (plain : Plain specs) (named : Named specs spec)
    (takes : spec.takesValue = true) (value : String) :
    readName specs (spec.name.toList ++ '=' :: value.toList) = .complete [(spec.name, value)] := by
  have before := ne_sign_of_mem plain named
  have name : (spec.name.toList ++ '=' :: value.toList).takeWhile (· != '=') =
      spec.name.toList := by
    rw [List.takeWhile_append_of_pos before, List.takeWhile_cons_of_neg (by simp), List.append_nil]
  have behind : (spec.name.toList ++ '=' :: value.toList).dropWhile (· != '=') =
      '=' :: value.toList := by
    rw [List.dropWhile_append_of_pos before, List.dropWhile_cons_of_neg (by simp)]
  rw [Named] at named
  simp only [readName, name, behind, String.ofList_toList, named]
  simp [takes]

/-- A word that is no end of the options and is read as options goes on with them. -/
theorem readWords?_of_complete {options : List (String × String)} (notEnd : word ≠ "--")
    (read : readWord specs word = some (.complete options)) :
    readWords? specs stopAtOther (word :: words) =
      (readWords? specs stopAtOther words).map (.addOptions options) := by
  rw [readWords?, read]
  exact notEnd

theorem readWords?_of_awaiting {name : String} (notEnd : word ≠ "--")
    (read : readWord specs word = some (.awaiting [] name)) :
    readWords? specs stopAtOther (word :: value :: words) =
      (readWords? specs stopAtOther words).map (.addOptions [(name, value)]) := by
  rw [readWords?, read]
  · rfl
  · exact notEnd

theorem readWord_name (name : String) :
    readWord specs ("--" ++ name) = some (readName specs name.toList) := by
  rw [readWord, String.toList_append]
  rfl

theorem readWord_letter {c : Char} (noHyphen : c ≠ '-') (value : String) :
    readWord specs ("-" ++ String.singleton c ++ value) =
      some (readLetters specs (c :: value.toList)) := by
  have chars : ("-" ++ String.singleton c ++ value).toList = '-' :: c :: value.toList := by simp
  rw [readWord, chars]
  split
  · rename_i same
    cases same
    exact absurd rfl noHyphen
  · rename_i same
    cases same
    rfl
  · rename_i other
    exact absurd rfl (other _ _)

theorem name_ne_end {name : String} (some : name ≠ "") : "--" ++ name ≠ "--" := by
  intro same
  have chars := congrArg String.toList same
  simp only [String.toList_append] at chars
  exact some (String.toList_inj.mp (List.append_right_eq_self.mp chars))

theorem letter_ne_end {c : Char} (noHyphen : c ≠ '-') (value : String) :
    "-" ++ String.singleton c ++ value ≠ "--" := by
  intro same
  have chars := congrArg String.toList same
  simp [noHyphen] at chars

/-- An option is read as it is spelled, and the rest behind it. -/
theorem readWords?_append (plain : Plain specs) {said : List String}
    (spelled : SpellsOption specs said option) : readWords? specs stopAtOther (said ++ words) =
      (readWords? specs stopAtOther words).map (.addOptions [option]) := by
  have known {spec : OptionSpec} (named : Named specs spec) :=
    (plain spec (List.mem_of_find?_eq_some named)).1
  have noHyphen {c : Char} {spec : OptionSpec} (lettered : Lettered specs c spec) : c ≠ '-' := by
    rintro rfl
    refine (plain spec (List.mem_of_find?_eq_some lettered)).2.2 ?_
    simpa using List.find?_some lettered
  cases spelled with
  | flag named isFlag =>
    refine readWords?_of_complete (name_ne_end (known named)) ?_
    rw [readWord_name, readName_plain plain named, isFlag]
    rfl
  | joined named takes value =>
    rw [String.append_assoc, String.append_assoc]
    refine readWords?_of_complete (name_ne_end fun none => ?_) ?_
    · have chars := congrArg String.toList none
      simp at chars
    · rw [readWord_name, String.toList_append, String.toList_append]
      exact congrArg some (readName_joined plain named takes value)
  | separate named takes value =>
    refine readWords?_of_awaiting (name_ne_end (known named)) ?_
    rw [readWord_name, readName_plain plain named, takes]
    rfl
  | letterFlag lettered isFlag =>
    have read := @readWord_letter specs _ (noHyphen lettered) ""
    have notEnd := letter_ne_end (noHyphen lettered) ""
    rw [String.append_empty] at read notEnd
    refine readWords?_of_complete notEnd (read.trans ?_)
    rw [Lettered] at lettered
    simp [readLetters, lettered, isFlag]
  | letterJoined lettered takes some =>
    refine readWords?_of_complete (letter_ne_end (noHyphen lettered) _)
      ((readWord_letter (noHyphen lettered) _).trans ?_)
    rw [Lettered] at lettered
    simp [readLetters, lettered, takes, some]
  | letterSeparate lettered takes value =>
    have read := @readWord_letter specs _ (noHyphen lettered) ""
    have notEnd := letter_ne_end (noHyphen lettered) ""
    rw [String.append_empty] at read notEnd
    refine readWords?_of_awaiting notEnd (read.trans ?_)
    rw [Lettered] at lettered
    simp [readLetters, lettered, takes]

/-- A word that is no option is not the end of the options. -/
theorem ne_end_of_readWord (other : readWord specs word = none) : word ≠ "--" := by
  rintro rfl
  cases other

/-- Words are read as what they spell. -/
theorem readWords?_of_spells (plain : Plain specs) (spelled : Spells specs stopAtOther words w) :
    readWords? specs stopAtOther words = some w := by
  induction spelled with
  | nothing | hyphens => rfl
  | stop words other stops =>
    rw [readWords?, other]
    · exact if_pos stops
    · exact ne_end_of_readWord other
  | other other goesOn _ ih =>
    rw [readWords?, other]
    · dsimp only
      rw [ih, if_neg (by simp [goesOn])]
      rfl
    · exact ne_end_of_readWord other
  | option option _ ih =>
    rw [readWords?_append plain option, ih]
    rfl

/-- The options in front of a command, and those of the command, are read as they are spelled. -/
theorem options_read (verb : Verb) :
    (Spells commonSpecs true words w → readWords? commonSpecs true words = some w) ∧
      (Spells (specsOf verb) false words w → readWords? (specsOf verb) false words = some w) :=
  ⟨readWords?_of_spells plain_commonSpecs, readWords?_of_spells (plain_specsOf verb)⟩

/-! ### Tasks -/

/-- The indices of a list are taken by the service. -/
theorem taken_of_indices? {s : String} {indices : List Int} (read : indices? s = .ok indices) :
    Service.checkIndices indices = .ok () := by
  rw [indices?] at read
  split at read
  · cases read
  · dsimp only at read
    split at read
    · cases read
    · split at read
      · cases read
      · rename_i valid
        obtain rfl := Except.ok.inj read
        simp only [Bool.or_eq_true, List.isEmpty_iff, List.any_eq_true, decide_eq_true_eq,
          not_or, not_exists, not_and, Int.not_lt] at valid
        exact Service.checkIndices_eq_ok_iff.mpr valid

theorem taken_of_indexList? {s : String} {indices : List Int}
    (read : indexList? s = some indices) : Service.checkIndices indices = .ok () := by
  rw [indexList?] at read
  cases listed : indices? s with
  | error f => rw [listed] at read; cases read
  | ok is =>
    rw [listed] at read
    obtain rfl := Option.some.inj read
    exact taken_of_indices? listed

theorem nonneg_of_index? {s : String} {index : Int} (read : index? s = some index) :
    0 ≤ index := by
  simpa using (Option.filter_eq_some_iff.mp read).2

/-- A task holds nothing but indices that the service takes; of the validators of a pod there may be
none. -/
def Task.Valid : Task → Prop
  | .credentials indices | .checkpoint indices => Service.checkIndices indices = .ok ()
  | .staleBalance index => Service.checkIndices [index] = .ok ()
  | .status _ indices => indices = [] ∨ Service.checkIndices indices = .ok ()
  | .inspect _ index? => ∀ index ∈ index?, 0 ≤ index
  | .serve .. => True

/-- A task that is made of one value holds what this value is read as. -/
theorem exists_of_read {α : Type} {value? : Option String} {read? : String → Option α}
    {make : α → Task} {task : Task} (made : (do return make (← read? (← value?))) = some task) :
    ∃ s v, read? s = some v ∧ task = make v := by
  simp only [Option.bind_eq_bind, Option.bind_eq_some_iff, Option.pure_def,
    Option.some.injEq] at made
  obtain ⟨s, -, v, read, rfl⟩ := made
  exact ⟨s, v, read, rfl⟩

/-- Every task of a command line is valid, and a state to be inspected is there. -/
theorem valid_of_task? {isFile : String → Bool} {verb : Verb} {task : Task}
    (made : task? isFile verb w = some task) :
    task.Valid ∧ ∀ file index?, task = .inspect file index? → isFile file = true := by
  unfold task? at made
  split at made
  · obtain ⟨s, indices, read, rfl⟩ := exists_of_read made
    exact ⟨taken_of_indexList? read, by simp⟩
  · obtain ⟨s, indices, read, rfl⟩ := exists_of_read made
    exact ⟨taken_of_indexList? read, by simp⟩
  · obtain ⟨s, index, read, rfl⟩ := exists_of_read made
    have nonneg := nonneg_of_index? read
    exact ⟨Service.checkIndices_eq_ok_iff.mpr (by simpa using nonneg), by simp⟩
  · simp only [Option.bind_eq_bind, Option.bind_eq_some_iff] at made
    obtain ⟨address, -, made⟩ := made
    split at made
    · obtain rfl := Option.some.inj made
      exact ⟨.inl rfl, by simp⟩
    · simp only [Option.bind_eq_some_iff, Option.pure_def, Option.some.injEq] at made
      obtain ⟨indices, read, rfl⟩ := made
      exact ⟨.inr (taken_of_indexList? read), by simp⟩
  · split at made
    · cases made
    · rename_i file _ there
      have isThere : isFile file = true := by simpa using there
      split at made
      · obtain rfl := Option.some.inj made
        refine ⟨by simp [Task.Valid], ?_⟩
        rintro _ _ ⟨⟩
        exact isThere
      · obtain ⟨index, read, rfl⟩ := Option.map_eq_some_iff.mp made
        refine ⟨by simpa [Task.Valid] using nonneg_of_index? read, ?_⟩
        rintro _ _ ⟨⟩
        exact isThere
  · simp only [Option.bind_eq_bind, Option.bind_eq_some_iff, Option.pure_def,
      Option.some.injEq] at made
    obtain ⟨port, -, rfl⟩ := made
    exact ⟨trivial, by simp⟩
  · cases made

end BeaconBranch.Command
