import BeaconBranch.Proofs.Composer.Trees
import BeaconBranch.Proofs.Merkle.Opening

/-!
Openings of a state. The trees of a composer hold what the derivation of the state root was made of,
so each of their branches opens this derivation, and everything that is hashed along it was hashed
when the trees were built. Main statements: the branches that open the fields of a state, its
validators and its balances.
-/

namespace BeaconBranch

open Outcome Merkle State

/-- The messages that are hashed when the trees of the state in a buffer are built. -/
def State.TreeHashed (data : ByteArray) (m : ByteArray) : Prop :=
  (State.derivation data).Hashed m ∨ ZeroHashed 40 m

/-! ### The two lists -/

/-- How the root of validators comes about that were read from a section. -/
theorem State.derivation_validators {b : ByteArray} {vs : Array Record}
    (read : decodeValidators? b = .ok vs) : (∀ v ∈ vs, v.Fits .validator) ∧
      SectionKind.validators.derivation b =
        .ofItems (vs.toList.map Record.derivation) 40 vs.size := by
  obtain ⟨-, each⟩ := decodeValidators?_eq_ok_iff.mp read
  rw [mapM_toList_eq_ok_iff, mapM_eq_ok_iff] at each
  have count : (Bytes.chunks Schema.validator.size b).size = vs.size := each.length_eq
  have same : (Bytes.chunks Schema.validator.size b).toList.map Schema.validator.derivation =
      vs.toList.map Record.derivation := by
    rw [← List.forall₂_eq_eq_eq, List.forall₂_map_left_iff, List.forall₂_map_right_iff]
    exact each.imp fun _ _ => Schema.derivation_of_decode?
  refine ⟨fun v mem => ?_, ?_⟩
  · obtain ⟨i, found⟩ := List.getElem?_of_mem (Array.mem_toList_iff.mpr mem)
    have lt : i < (Bytes.chunks Schema.validator.size b).toList.length :=
      each.length_eq ▸ (List.getElem?_eq_some_iff.mp found).1
    have read := forall₂_getElem? each (List.getElem?_eq_getElem lt) found
    exact ((Schema.decode?_eq_ok_iff (by decide)).mp read).1
  · rw [SectionKind.derivation, Derivation.ofPieces, same, count, Limits.validatorTreeHeight]

/-- The validators of a state that was read have all their fields. -/
theorem Snapshot.fits_of_decode? {data : ByteArray} {s : Snapshot}
    (read : Snapshot.decode? data = .ok s) : ∀ v ∈ s.validators, v.Fits .validator := by
  obtain ⟨all, -, sections⟩ := Snapshot.decode?_eq_ok_iff.mp read
  exact (State.derivation_validators sections.validators).1

/-- How the root of balances comes about that were read from a section. -/
theorem State.derivation_balances {b : ByteArray} {ns : List Int}
    (read : decodeBalances? b = .ok ns) : ∃ chunks, Chunk.packUint64s? ns = .ok chunks ∧
      SectionKind.balances.derivation b =
        .ofItems (chunks.toList.map .given) 38 ns.length := by
  obtain ⟨whole, rfl⟩ := decodeBalances?_eq_ok_iff.mp read
  refine ⟨chunksOf b, Chunk.packUint64s?_words whole, ?_⟩
  rw [List.length_map, Array.length_toList, SectionKind.size_words whole]
  rfl

namespace Composer

/-- The branch of a leaf of the validators' tree up to the state root. -/
def validatorBranch? (c : Composer) (index : Int) : Except Fault (List ByteArray) := do
  return composeBranches [← c.validatorsTree.branch? index,
    [← lengthChunk? c.snapshot.validators.size], ← c.stateTree.branch? Limits.validatorsField]

/-- The proof of a validator is made of its record and the branch of its leaf. -/
theorem validatorProof?_eq (c : Composer) (index : Int) (shown : Option Record) :
    c.validatorProof? index shown = do
      let own ← c.snapshot.validator? index
      let branch ← c.validatorBranch? index
      return ⟨index, ← (shown.getD own).shownLeaves?, branch⟩ := by
  simp only [validatorProof?, validatorBranch?, bind_assoc, pure_bind]

/-- What was hashed for a composer of a state that was read from a buffer. -/
structure Traced (c : Composer) (s : Snapshot) (data : ByteArray) (fields : List Derivation)
    (chunks : Array ByteArray) : Prop where
  whole : State.derivation data = .ofList fields 5
  sizes : ∀ t ∈ fields, t.value.size = 32
  length : fields.length = 28
  state : DenseTree.ofLeaves? (fields.map Derivation.value).toArray 5 = .ok c.stateTree
  fits : ∀ v ∈ s.validators, v.Fits .validator
  validators : fields[11]? = some (.ofItems (s.validators.toList.map Record.derivation) 40
    s.validators.size)
  validatorsTree : ListTree c.validatorsTree 40
    ((s.validators.toList.map Record.derivation).map Derivation.value) s.validators.size
    c.validatorsRoot
  packed : Chunk.packUint64s? s.balances = .ok chunks
  balances : fields[12]? = some (.ofItems (chunks.toList.map .given) 38 s.balances.length)
  balancesTree : ListTree c.balancesTree 38 chunks.toList s.balances.length c.balancesRoot

theorem getElem?_fieldDerivations {parts : List ByteArray} {k : Nat} {f : SectionField}
    {b : ByteArray} (field : fields[k]? = some f) (part : parts[k]? = some b) :
    (fieldDerivations parts)[k]? = some (f.kind.derivation b) :=
  List.getElem?_zipWith_eq_some.mpr ⟨f, b, field, part, rfl⟩

theorem validatorRoots_eq {s : Snapshot} (fits : ∀ v ∈ s.validators, v.Fits .validator)
    {roots : List ByteArray} (hashed : s.validatorRoots? = .ok roots) :
    roots = (s.validators.toList.map Record.derivation).map Derivation.value := by
  have each : ∀ v ∈ s.validators.toList, ∀ root, v.root? = .ok root ↔
      True ∧ root = v.derivation.value := by
    intro v mem root
    rw [Record.root?_eq (by decide) (fits v (Array.mem_toList_iff.mp mem))]
    simp [eq_comm]
  rw [List.map_map]
  exact ((mapM_eq_ok_iff_map each).mp hashed).2

/-- The trees of a composer were made of what the root of the buffer was made of. -/
theorem traced_of_decode? {c : Composer} {s : Snapshot} {data : ByteArray}
    (read : Snapshot.decode? data = .ok s) (built : ofSnapshot? s = .ok c) :
    c.snapshot = s ∧ ∃ fields chunks, c.Traced s data fields chunks := by
  obtain ⟨roots, chunks, fieldRoots, trees⟩ := ofSnapshot?_spec built
  obtain ⟨parts, tiles, holds, rfl, readFrom, -⟩ := Snapshot.of_decode?_of_root? read trees.root?
  obtain ⟨-, rfl⟩ := (readFrom.fieldRoots?_eq_ok_iff tiles).mp trees.fields
  obtain ⟨_, partV, rfl, -⟩ := Snapshot.exists_part holds (k := 11) rfl
  obtain ⟨_, partB, rfl, -⟩ := Snapshot.exists_part holds (k := 12) rfl
  obtain ⟨fits, validators⟩ := State.derivation_validators readFrom.validators
  obtain ⟨packed, packedOk, balances⟩ := State.derivation_balances readFrom.balances
  obtain rfl : packed = chunks := Except.ok.inj (packedOk.symm.trans trees.packed)
  obtain rfl := validatorRoots_eq fits trees.hashed
  refine ⟨trees.snapshot, fieldDerivations parts, packed, ?_, size_of_mem_fieldDerivations holds,
    length_fieldDerivations holds, trees.state, fits, ?_, trees.validators, packedOk, ?_,
    trees.balances⟩
  · rw [State.derivation, partsOf_encode tiles]
    rfl
  · rw [getElem?_fieldDerivations rfl partV, ← validators]
  · rw [getElem?_fieldDerivations rfl partB, ← balances]

namespace Traced

variable {c : Composer} {s : Snapshot} {data : ByteArray} {fields : List Derivation}
  {chunks : Array ByteArray}

/-- The branch of a field opens the root of the state. -/
theorem opens_field (traced : c.Traced s data fields chunks) {k : Nat} {t : Derivation}
    (found : fields[k]? = some t) : ∃ branch, c.stateTree.branch? k = .ok branch ∧
      branch.length = 5 ∧ (State.derivation data).Opens 40 t.value k branch := by
  have room : 28 ≤ twoTo 5 := by decide
  have lt : k < twoTo 5 := by
    have inside := (List.getElem?_eq_some_iff.mp found).1
    rw [traced.length] at inside
    omega
  have depth : c.stateTree.depth = 5 := DenseTree.depth_of_ofLeaves? traced.state
  have branch := DenseTree.branch?_of_ofLeaves? traced.state (depth.symm ▸ lt)
  have leaf : Derivation.leafOf fields k = t.value := by
    rw [Derivation.leafOf, List.getD_eq_getElem?_getD, List.getElem?_map, found]
    rfl
  have opens := (Derivation.Opens.ofList traced.sizes lt).mono (show 5 ≤ 40 by decide)
  rw [leaf, ← traced.whole, Derivation.leafOf_of_chunks rfl] at opens
  rw [depth] at branch
  exact ⟨_, branch, length_branchOver _ _ _ _, opens⟩

/-- What was hashed for a field was hashed for the state. -/
theorem hashed_of_field (traced : c.Traced s data fields chunks) {k : Nat} {t : Derivation}
    (found : fields[k]? = some t) {m : ByteArray} (hashed : t.Hashed m) :
    (State.derivation data).Hashed m := by
  have room : 28 ≤ twoTo 5 := by decide
  have inside := (List.getElem?_eq_some_iff.mp found).1
  rw [traced.length] at inside
  rw [traced.whole]
  exact Derivation.hashed_ofList_of_getElem? found (by omega) hashed

/-- What was hashed for a validator was hashed for the state. -/
theorem hashed_of_validator (traced : c.Traced s data fields chunks) {i : Nat} {v : Record}
    (found : s.validators[i]? = some v) (lt : i < twoTo 40) {m : ByteArray}
    (hashed : v.derivation.Hashed m) : (State.derivation data).Hashed m := by
  have listed : (s.validators.toList.map Record.derivation)[i]? = some v.derivation := by
    rw [List.getElem?_map, Array.getElem?_toList, found]
    rfl
  exact traced.hashed_of_field traced.validators
    (Derivation.hashed_ofItems_of_getElem? listed lt hashed)

theorem value_stateRoot (traced : c.Traced s data fields chunks) :
    (State.derivation data).value = c.stateRoot := by
  rw [traced.whole]
  exact (Snapshot.stateRoot_eq traced.state).symm

/-- The chunks of the validators' tree at all positions. -/
def validatorLeaf (s : Snapshot) : Nat → ByteArray :=
  Derivation.leafOf (s.validators.toList.map Record.derivation)

/-- The branch of a leaf of the validators' tree opens the root of the state. -/
theorem opens_validator (traced : c.Traced s data fields chunks) (same : c.snapshot = s) {i : Nat}
    (lt : i < twoTo 40) : ∃ branch, c.validatorBranch? i = .ok branch ∧ branch.length = 46 ∧
      (State.derivation data).Opens 40 (validatorLeaf s i) (i + 11 * twoTo 41) branch := by
  obtain ⟨upper, upperOk, upperLength, high⟩ := traced.opens_field traced.validators
  have sizes : ∀ t ∈ s.validators.toList.map Record.derivation, t.value.size = 32 :=
    Derivation.size_of_mem_map fun v mem => Record.size_derivation (by decide)
      (traced.fits v (Array.mem_toList_iff.mp mem))
  have low := Derivation.Opens.ofItems sizes s.validators.size lt
  have whole := low.append high fun m => traced.hashed_of_field traced.validators
  have count : (branchOver (validatorLeaf s) 0 40 i ++ [lengthChunk s.validators.size]).length =
      41 := by
    rw [List.length_append, length_branchOver, List.length_singleton]
  have leafAt : c.validatorsTree.leafAt = validatorLeaf s := traced.validatorsTree.leafAt
  have lower := traced.validatorsTree.branch?_eq lt
  rw [leafAt] at lower
  refine ⟨branchOver (validatorLeaf s) 0 40 i ++ [lengthChunk s.validators.size] ++ upper, ?_, ?_,
    ?_⟩
  · simp only [validatorBranch?, bind_eq_ok_iff, pure_eq_ok_iff, same]
    exact ⟨_, lower, _, lengthChunk?_eq_ok_iff.mpr ⟨traced.validatorsTree.length, rfl⟩, upper,
      upperOk, by simp [composeBranches]⟩
  · rw [List.length_append, count, upperLength]
  · rw [← count]
    exact whole

/-- The branch of a chunk of balances opens the root of the balances. -/
theorem opens_balance (traced : c.Traced s data fields chunks) {i : Nat} (lt : i < twoTo 38) :
    (Derivation.ofItems (chunks.toList.map .given) 38 s.balances.length).Opens 38
      (Derivation.leafOf (chunks.toList.map .given) i) i
      (branchOver (Derivation.leafOf (chunks.toList.map .given)) 0 38 i ++
        [lengthChunk s.balances.length]) :=
  Derivation.Opens.ofItems (Derivation.size_of_mem_map (g := .given) traced.balancesTree.sizes) _ lt

theorem value_balancesRoot (traced : c.Traced s data fields chunks) :
    (Derivation.ofItems (chunks.toList.map .given) 38 s.balances.length).value =
      c.balancesRoot := by
  have leaf : Derivation.leafOf (chunks.toList.map .given) =
      fun p => chunks.toList.getD p zeroChunk := by
    funext p
    rw [Derivation.leafOf, Derivation.map_value_given]
  rw [traced.balancesTree.root, traced.balancesTree.leafAt, ← leaf, Derivation.ofItems,
    Derivation.value, Derivation.value_ofList, Derivation.value]

end Traced

end Composer

end BeaconBranch
