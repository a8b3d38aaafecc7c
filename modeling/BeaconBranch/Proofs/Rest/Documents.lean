import BeaconBranch.Rest.Model

/-!
Texts that documents accept. The checks of hexadecimal texts ask for the marker and a number of
digits, and let a line feed pass behind them. Main statements: which texts such a check lets pass;
and what each of the four documents with hexadecimal texts accepts in its entries.
-/

namespace BeaconBranch.Rest

/-! ### Hexadecimal texts -/

/-- An ASCII digit of hexadecimal numbers. -/
def IsHexDigit (c : Char) : Prop :=
  '0' ≤ c ∧ c ≤ '9' ∨ 'a' ≤ c ∧ c ≤ 'f' ∨ 'A' ≤ c ∧ c ≤ 'F'

instance : DecidablePred IsHexDigit := fun _ => inferInstanceAs (Decidable (_ ∨ _))

/-- The marker `0x` with so many digits behind it, and nothing else. -/
def Spelled (digits : Nat) (s : String) : Prop :=
  ∃ ds : List Char, s = String.ofList ('0' :: 'x' :: ds) ∧ ds.length = digits ∧
    ∀ d ∈ ds, IsHexDigit d

/-- A text that passes for a hexadecimal one: a line feed may stand behind it. -/
inductive Passes (digits : Nat) : String → Prop
  | exact {s : String} (spelled : Spelled digits s) : Passes digits s
  | lineFeed {s : String} (spelled : Spelled digits s) : Passes digits (s ++ "\n")

variable {n : Nat} {s : String} {ts : List String} {c : Char}

theorem isSome_digitValue?_iff : (Hex.digitValue? c).isSome = true ↔ IsHexDigit c := by
  rw [Hex.digitValue?, IsHexDigit]
  split
  · simp_all
  split
  · simp_all
  split
  · simp_all
  · simp_all

/-- The characters of a text that passes. -/
theorem passes_iff : Passes n s ↔ ∃ ds rest : List Char, s.toList = '0' :: 'x' :: (ds ++ rest) ∧
    ds.length = n ∧ (∀ d ∈ ds, IsHexDigit d) ∧ (rest = [] ∨ rest = ['\n']) := by
  constructor
  · rintro (⟨ds, rfl, length, digits⟩ | ⟨ds, rfl, length, digits⟩)
    · exact ⟨ds, [], by simp, length, digits, .inl rfl⟩
    · exact ⟨ds, ['\n'], by simp, length, digits, .inr rfl⟩
  · rintro ⟨ds, rest, chars, length, digits, rfl | rfl⟩
    · rw [List.append_nil] at chars
      exact .exact ⟨ds, by rw [← chars, String.ofList_toList], length, digits⟩
    · have whole : s = String.ofList ('0' :: 'x' :: ds) ++ "\n" := by
        rw [← String.toList_inj, chars]
        simp
      rw [whole]
      exact .lineFeed ⟨ds, rfl, length, digits⟩

theorem isMarkedHex_iff : isMarkedHex n s = true ↔ Passes n s := by
  rw [passes_iff, isMarkedHex]
  split
  · rename_i cs chars
    simp only [Bool.and_eq_true, Bool.or_eq_true, beq_iff_eq, List.isEmpty_iff, List.all_eq_true,
      isSome_digitValue?_iff, and_assoc, chars, List.cons_eq_cons, true_and]
    constructor
    · rintro ⟨length, digits, rest⟩
      exact ⟨_, _, (List.take_append_drop n cs).symm, length, digits, rest⟩
    · rintro ⟨ds, rest, rfl, rfl, digits, last⟩
      rw [List.take_left, List.drop_left]
      exact ⟨rfl, digits, last⟩
  · rename_i other
    constructor
    · intro never
      cases never
    · rintro ⟨ds, rest, chars, -⟩
      exact absurd chars (other _)

/-! ### Checks -/

theorem checkHex32_eq_none_iff : checkHex32 ts = none ↔ ∀ t ∈ ts, Passes 64 t := by
  simp only [checkHex32, Option.map_eq_none_iff, List.find?_eq_none, Bool.not_eq_true',
    Bool.not_eq_false, isHex32, isMarkedHex_iff]

/-- What is wrong is told with the first text that does not pass. -/
theorem checkHex32_eq_some_iff {problem : String} : checkHex32 ts = some problem ↔
    ∃ before t after, ts = before ++ t :: after ∧ (∀ b ∈ before, Passes 64 b) ∧ ¬Passes 64 t ∧
      problem = s!"Expected a 32-byte hex string starting with '0x', got {t}" := by
  simp only [checkHex32, Option.map_eq_some_iff, List.find?_eq_some_iff_append, Bool.not_eq_true',
    Bool.not_eq_false', isHex32, ← isMarkedHex_iff, Bool.not_eq_true]
  constructor
  · rintro ⟨t, ⟨bad, before, after, rfl, good⟩, rfl⟩
    exact ⟨before, t, after, rfl, good, bad, rfl⟩
  · rintro ⟨before, t, after, rfl, good, bad, rfl⟩
    exact ⟨t, ⟨bad, before, after, rfl, good⟩, rfl⟩

theorem checkCount_eq_none_iff {rule : String} {count : Nat} :
    checkCount rule count ts = none ↔ ts.length = count ∧ ∀ t ∈ ts, Passes 64 t := by
  rw [checkCount]
  by_cases length : ts.length = count
  · simp [length, checkHex32_eq_none_iff]
  · simp [length]

theorem checkAddress_eq_none_iff : checkAddress s = none ↔ Passes 40 s := by
  rw [checkAddress, isAddress, ← isMarkedHex_iff]
  simp

/-- A list keeps its length without repeated items exactly if it has none. -/
theorem length_eraseDups (ns : List Int) : ns.eraseDups.length ≤ ns.length ∧
    (ns.eraseDups.length = ns.length ↔ ns.Nodup) := by
  generalize count : ns.length = k
  induction k using Nat.strongRecOn generalizing ns with
  | _ k ih =>
    subst count
    cases ns with
    | nil => simp
    | cons n ns =>
      have fewer := List.length_filter_le (fun m => !m == n) ns
      obtain ⟨le, same⟩ := ih _ (by rw [List.length_cons]; omega) (ns.filter fun m => !m == n) rfl
      rw [List.eraseDups_cons, List.length_cons, List.length_cons, List.nodup_cons]
      refine ⟨by omega, fun length => ?_, fun ⟨other, distinct⟩ => ?_⟩
      · have whole : ns.filter (fun m => !m == n) = ns :=
          List.filter_sublist.eq_of_length (by omega)
        rw [whole] at length same
        refine ⟨fun mem => ?_, same.mp (by omega)⟩
        have apart := List.filter_eq_self.mp whole n mem
        simp at apart
      · have whole : ns.filter (fun m => !m == n) = ns := by
          refine List.filter_eq_self.mpr fun m mem => ?_
          simpa using fun same : m = n => other (same ▸ mem)
        rw [whole] at same ⊢
        rw [same.mpr distinct]

/-- Indices pass if there are some, none of them is negative and all are distinct. -/
theorem checkIndices_eq_none_iff {ns : List Int} :
    checkIndices ns = none ↔ ns ≠ [] ∧ (∀ n ∈ ns, 0 ≤ n) ∧ ns.Nodup := by
  rw [checkIndices, ← (length_eraseDups ns).2]
  by_cases empty : ns = []
  · simp [empty]
  · by_cases nonneg : ∀ n ∈ ns, 0 ≤ n
    · have valid : ns.any (· < 0) = false := by simpa using nonneg
      simp only [List.isEmpty_eq_false_iff.mpr empty, valid, Bool.false_eq_true, if_false, ne_eq,
        ite_not, ite_eq_left_iff, reduceCtorEq, imp_false, Decidable.not_not]
      exact ⟨fun distinct => ⟨empty, nonneg, distinct⟩, fun passes => passes.2.2⟩
    · have invalid : ns.any (· < 0) = true := by simpa using nonneg
      simp [empty, invalid, nonneg]

/-! ### Documents with hexadecimal texts -/

/-- A document accepts these texts in an entry: the entry is a list of texts, and its check finds
nothing wrong with them. -/
def AcceptsTexts (document : Shape) (name : String) (ts : List String) : Prop :=
  ∃ check, document.entry? name = some (.texts check) ∧ check ts = none

/-- A document accepts this text in an entry. -/
def AcceptsText (document : Shape) (name : String) (s : String) : Prop :=
  ∃ check, document.entry? name = some (.text check) ∧ check s = none

theorem acceptsTexts_iff {document : Shape} {name : String} {check : Check (List String)}
    (declared : document.entry? name = some (.texts check)) :
    AcceptsTexts document name ts ↔ check ts = none := by
  constructor
  · rintro ⟨other, declared', passes⟩
    cases declared'.symm.trans declared
    exact passes
  · exact fun passes => ⟨check, declared, passes⟩

theorem acceptsText_iff {document : Shape} {name : String} {check : Check String}
    (declared : document.entry? name = some (.text check)) :
    AcceptsText document name s ↔ check s = none := by
  constructor
  · rintro ⟨other, declared', passes⟩
    cases declared'.symm.trans declared
    exact passes
  · exact fun passes => ⟨check, declared, passes⟩

/-- Every text of a list passes for a 32-byte one. -/
def AllPass (ts : List String) : Prop := ∀ t ∈ ts, Passes 64 t

/-- What the documents accept in their entries with hexadecimal texts: three nodes in the branch of
a state root, eight leaves of a validator, branches of any length, and an address. -/
structure HexAccepted (ts : List String) (s : String) : Prop where
  stateRootBranch : AcceptsTexts stateRootProof "proof" ts ↔ ts.length = 3 ∧ AllPass ts
  leaves : AcceptsTexts validatorProof "validator_fields" ts ↔ ts.length = 8 ∧ AllPass ts
  validatorBranch : AcceptsTexts validatorProof "proof" ts ↔ AllPass ts
  balanceBranch : AcceptsTexts balanceProof "proof" ts ↔ AllPass ts
  address : AcceptsText podStatusResponse "pod_address" s ↔ Passes 40 s

/-- A hexadecimal text is accepted exactly if it is the marker with the right number of digits, or
this with a line feed behind it. -/
theorem hexTexts_accepted (ts : List String) (s : String) : HexAccepted ts s where
  stateRootBranch := (acceptsTexts_iff rfl).trans checkCount_eq_none_iff
  leaves := (acceptsTexts_iff rfl).trans checkCount_eq_none_iff
  validatorBranch := (acceptsTexts_iff rfl).trans checkHex32_eq_none_iff
  balanceBranch := (acceptsTexts_iff rfl).trans checkHex32_eq_none_iff
  address := (acceptsText_iff rfl).trans checkAddress_eq_none_iff

theorem Spelled.length (spelled : Spelled n s) : s.toList.length = n + 2 := by
  obtain ⟨ds, rfl, rfl, -⟩ := spelled
  simp

/-- A line feed behind a text is more than its digits. -/
theorem not_spelled_lineFeed (spelled : Spelled n s) : ¬Spelled n (s ++ "\n") := by
  intro again
  have longer := again.length
  rw [String.toList_append, List.length_append, spelled.length] at longer
  simp at longer

/-- The marker and zeros. -/
def zeroText (digits : Nat) : String := String.ofList ('0' :: 'x' :: List.replicate digits '0')

theorem spelled_zeroText (digits : Nat) : Spelled digits (zeroText digits) := by
  have zero : IsHexDigit '0' := by decide
  refine ⟨_, rfl, List.length_replicate, fun d mem => ?_⟩
  rw [List.eq_of_mem_replicate mem]
  exact zero

/-- A branch with a line feed in it is accepted as that of a state root, and an address with a line
feed behind it is accepted, although neither text is spelled as it has to be. -/
theorem line_feeds_accepted :
    AcceptsTexts stateRootProof "proof" [zeroText 64 ++ "\n", zeroText 64, zeroText 64] ∧
      ¬Spelled 64 (zeroText 64 ++ "\n") ∧
      AcceptsText podStatusResponse "pod_address" (zeroText 40 ++ "\n") ∧
      ¬Spelled 40 (zeroText 40 ++ "\n") := by
  have spelled := spelled_zeroText 64
  have address := spelled_zeroText 40
  have passes : ∀ t ∈ [zeroText 64 ++ "\n", zeroText 64, zeroText 64], Passes 64 t := by
    simp only [List.forall_mem_cons, List.not_mem_nil, false_implies, implies_true, and_true]
    exact ⟨.lineFeed spelled, .exact spelled, .exact spelled⟩
  exact ⟨⟨_, rfl, checkCount_eq_none_iff.mpr ⟨rfl, passes⟩⟩, not_spelled_lineFeed spelled,
    ⟨_, rfl, checkAddress_eq_none_iff.mpr (.lineFeed address)⟩, not_spelled_lineFeed address⟩

end BeaconBranch.Rest
