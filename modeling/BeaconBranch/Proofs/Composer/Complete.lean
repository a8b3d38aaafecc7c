import BeaconBranch.Proofs.Composer.Trees
import BeaconBranch.Proofs.State.Existence

/-!
Composed proofs are complete. Four kinds of trees are nested in a block: the tree of a list, the
node that joins the list with its length, the tree of the state and the tree of the block header. A
branch through all of them is put together from the branches in each, so it is enough that each
proves its own node. Main statement: every proof of a composer holds under the state root, and with
the proof of the state root behind it under the block root.
-/

namespace BeaconBranch

open Outcome Merkle

/-- A branch leads from a node to a state root, and with the hashes of the state root's own proof
behind it to the block root. -/
structure LeadsUp (node : ByteArray) (branch : List ByteArray) (position : Int)
    (stateRoot : ByteArray) (top : StateRootProof) (blockRoot : ByteArray) : Prop where
  state : proves node branch position stateRoot = true
  block : proves node (composeBranches [branch, top.branch])
    (orBits ((Limits.headerStateRootField : Int) * (twoTo branch.length : Int)) position)
    blockRoot = true

/-! ### Entries of the lists -/

theorem Snapshot.validator?_of_getElem? {s : Snapshot} {i : Nat} {v : Record}
    (found : s.validators[i]? = some v) : s.validator? i = .ok v := by
  rw [validator?, if_neg (by omega), Int.toNat_natCast, found]

theorem Snapshot.balance?_of_getElem? {s : Snapshot} {i : Nat} {b : Int}
    (found : s.balances[i]? = some b) : s.balance? i = .ok b := by
  rw [balance?, if_neg (by omega), Int.toNat_natCast, found]

/-! ### The block header -/

/-- The five fields of a header make a tree of three levels. -/
theorem Record.depth_headerTree {header : Record} (isA : header.IsA .blockHeader)
    {chunks : List ByteArray} (ok : header.chunks? = .ok chunks) {t : DenseTree}
    (built : DenseTree.ofLeaves? chunks.toArray 0 = .ok t) : t.depth = 3 := by
  rw [DenseTree.depth_of_ofLeaves? built, DenseTree.depthAsked, if_pos rfl, List.size_toArray,
    Record.length_chunks? isA ok]
  decide

/-- The tree of a header that has a root holds the state root that the header names. -/
theorem Record.headerTree {header : Record} (isA : header.IsA .blockHeader)
    {blockRoot stateRoot : ByteArray} (hashed : header.root? = .ok blockRoot)
    (names : header.get "state_root" = .bytes stateRoot) :
    ∃ chunks t, header.chunks? = .ok chunks ∧ chunks.length = 5 ∧ chunks[3]? = some stateRoot ∧
      DenseTree.ofLeaves? chunks.toArray 0 = .ok t ∧ t.depth = 3 ∧ t.root = blockRoot := by
  obtain ⟨chunks, t, ok, built, root⟩ := Record.root?_eq_ok_iff.mp hashed
  have count := Record.length_chunks? isA ok
  have depth := Record.depth_headerTree isA ok built
  obtain ⟨leaf, chunk, found, made, read⟩ :=
    Record.leaf_of_chunks? isA (by decide) ok (k := 3) rfl
  have same : chunk = stateRoot := by
    simp only [names, FieldKind.leaf, Value.toVector, bind_eq_ok_iff] at made
    obtain ⟨_, ⟨⟩, n, -, made⟩ := made
    split at made
    · cases made
      exact (Except.ok.inj read).symm
    · cases made
  exact ⟨chunks, t, ok, count, same ▸ found, built, depth, root⟩

/-- The proof of the state root in a header that has a root. -/
theorem StateRootProof.ofHeader?_complete {header : Record} (isA : header.IsA .blockHeader)
    {blockRoot stateRoot : ByteArray} (hashed : header.root? = .ok blockRoot)
    (names : header.get "state_root" = .bytes stateRoot) :
    ∃ top, StateRootProof.ofHeader? header = .ok top ∧ top.stateRoot = stateRoot ∧
      top.branch.length = 3 ∧ top.holds blockRoot = true := by
  obtain ⟨chunks, t, ok, -, found, built, depth, rfl⟩ := Record.headerTree isA hashed names
  have inside : 3 < twoTo t.depth := by rw [depth]; decide
  have sizes := (DenseTree.ofLeaves?_eq_ok_iff.mp built).1
  have leafAt : DenseTree.leafOf chunks.toArray 3 = stateRoot := by
    simp [DenseTree.leafOf, found]
  have branch := DenseTree.branch?_of_ofLeaves? built inside
  have holds := proves_branchOver (DenseTree.size_leafOf sizes) inside
  rw [leafAt, ← DenseTree.root_of_ofLeaves? built] at holds
  refine ⟨⟨stateRoot, _⟩, ?_, rfl, (length_branchOver _ _ _ _).trans depth, holds⟩
  simp only [ofHeader?, Record.stateRootBranch?, Record.branch?, Record.tree?_eq, bind_eq_ok_iff,
    names, pure_eq_ok_iff]
  exact ⟨_, ⟨t, ⟨chunks, ok, built⟩, branch⟩, rfl⟩

/-- What is proven under the state root is proven under the block root. -/
theorem LeadsUp.of_state {node : ByteArray} {branch : List ByteArray} {position : Nat}
    {top : StateRootProof} {blockRoot : ByteArray}
    (low : proves node branch (position : Int) top.stateRoot = true)
    (high : top.holds blockRoot = true) :
    LeadsUp node branch (position : Int) top.stateRoot top blockRoot := by
  refine ⟨low, ?_⟩
  have whole := proves_append low high
  rw [orBits_comm, orBits_shifted (proves_iff.mp low).1]
  simpa [composeBranches] using whole

namespace Composer

variable {c : Composer} {s : Snapshot} {roots fieldRoots : List ByteArray}
  {chunks : Array ByteArray}

/-! ### The state tree -/

/-- The root of a field is proven under the state root. -/
theorem Over.proves_field (trees : c.Over s roots chunks fieldRoots) {k : Nat} {root : ByteArray}
    (found : fieldRoots[k]? = some root) : ∃ branch, c.stateTree.branch? k = .ok branch ∧
      branch.length = 5 ∧ proves root branch (k : Int) c.stateRoot = true := by
  have built := trees.state
  have room := (DenseTree.ofLeaves?_eq_ok_iff.mp built).2.2.1
  have depth : c.stateTree.depth = 5 := DenseTree.depth_of_ofLeaves? built
  have lt : k < twoTo c.stateTree.depth := by
    have inside : k < fieldRoots.length := (List.getElem?_eq_some_iff.mp found).1
    rw [← DenseTree.depth_of_ofLeaves? built, List.size_toArray] at room
    omega
  have leafAt : DenseTree.leafOf fieldRoots.toArray k = root := by
    simp [DenseTree.leafOf, found]
  have holds := proves_branchOver
    (DenseTree.size_leafOf (DenseTree.ofLeaves?_eq_ok_iff.mp built).1) lt
  rw [leafAt, ← DenseTree.root_of_ofLeaves? built] at holds
  exact ⟨_, DenseTree.branch?_of_ofLeaves? built lt, (length_branchOver _ _ _ _).trans depth, holds⟩

/-- Each field has its root among the leaves of the state tree. -/
theorem Over.getElem?_fieldRoots (trees : c.Over s roots chunks fieldRoots) {k : Nat}
    {f : State.SectionField} (field : State.fields[k]? = some f) :
    ∃ root, fieldRoots[k]? = some root ∧ s.fieldRoot? f = .ok root := by
  have all := trees.fields
  rw [Snapshot.fieldRoots?_nil] at all
  exact getElem?_of_mapM all field

theorem Over.getElem?_validators (trees : c.Over s roots chunks fieldRoots) :
    fieldRoots[11]? = some c.validatorsRoot := by
  obtain ⟨root, found, hashed⟩ := trees.getElem?_fieldRoots (k := 11) rfl
  exact found.trans (congrArg some (Except.ok.inj (hashed.symm.trans trees.validatorsRoot)))

theorem Over.getElem?_balances (trees : c.Over s roots chunks fieldRoots) :
    fieldRoots[12]? = some c.balancesRoot := by
  obtain ⟨root, found, hashed⟩ := trees.getElem?_fieldRoots (k := 12) rfl
  exact found.trans (congrArg some (Except.ok.inj (hashed.symm.trans trees.balancesRoot)))

theorem Over.size_stateRoot (trees : c.Over s roots chunks fieldRoots) : c.stateRoot.size = 32 := by
  obtain ⟨_, -, -, holds⟩ := trees.proves_field trees.getElem?_validators
  exact (proves_iff.mp holds).2.2.1

/-! ### Proofs of validators -/

theorem Over.getElem?_roots (trees : c.Over s roots chunks fieldRoots) {i : Nat} {v : Record}
    (found : s.validators[i]? = some v) : ∃ root, roots[i]? = some root ∧ v.root? = .ok root :=
  getElem?_of_mapM trees.hashed (by rwa [Array.getElem?_toList])

/-- Only validators that have a place in their tree are in a state with a composer. -/
theorem Over.lt_of_validator (trees : c.Over s roots chunks fieldRoots) {i : Nat} {v : Record}
    (found : s.validators[i]? = some v) : i < twoTo 40 := by
  obtain ⟨root, foundRoot, -⟩ := trees.getElem?_roots found
  exact trees.validators.lt_of_getElem? foundRoot

/-- The branch of a validator goes through its list, past the length, and through the state. -/
theorem Over.validatorProof (trees : c.Over s roots chunks fieldRoots) {i : Nat} {v : Record}
    (isA : v.IsA .validator) (found : s.validators[i]? = some v) :
    ∃ p root position, c.validatorProof? i none = .ok p ∧ p.branch.length = 46 ∧ p.index = i ∧
      v.root? = .ok root ∧ Registry.validatorPosition? i = .ok ((position : Nat) : Int) ∧
      proves root p.branch (position : Int) c.stateRoot = true := by
  obtain ⟨root, foundRoot, hashed⟩ := trees.getElem?_roots found
  obtain ⟨shown, shownOk⟩ := Record.shownLeaves?_of_root? isA hashed
  obtain ⟨upper, upperOk, upperLength, upperHolds⟩ := trees.proves_field trees.getElem?_validators
  have lt : i < twoTo 40 := trees.validators.lt_of_getElem? foundRoot
  have lower := trees.validators.proves_leaf lt
  rw [trees.validators.leafAt_of_getElem? foundRoot] at lower
  have whole := proves_append lower upperHolds
  have length : (branchOver c.validatorsTree.leafAt 0 40 i ++
      [lengthChunk s.validators.size]).length = 41 := by
    rw [List.length_append, length_branchOver, List.length_singleton]
  rw [length] at whole
  refine ⟨⟨i, shown, branchOver c.validatorsTree.leafAt 0 40 i ++
      [lengthChunk s.validators.size] ++ upper⟩, root, i + 11 * twoTo 41, ?_, ?_, rfl, hashed,
    composePositions?_nested lt 11 5, whole⟩
  · simp only [validatorProof?, bind_eq_ok_iff, pure_eq_ok_iff]
    refine ⟨v, trees.snapshot ▸ Snapshot.validator?_of_getElem? found, _,
      trees.validators.branch?_eq lt, _, lengthChunk?_eq_ok_iff.mpr ⟨?_, rfl⟩, upper, upperOk,
      shown, shownOk, ?_⟩
    · rw [trees.snapshot]
      exact trees.validators.length
    · rw [trees.snapshot]
      simp [composeBranches]
  · rw [List.length_append, length, upperLength]

/-! ### Proofs of balances -/

/-- The branch of a balance's chunk goes through its list and past the length. -/
theorem Over.balanceProof (trees : c.Over s roots chunks fieldRoots) {i : Nat} {v : Record}
    {b : Int} (isA : v.IsA .validator) (foundValidator : s.validators[i]? = some v)
    (found : s.balances[i]? = some b) :
    ∃ p, c.balanceProof? i = .ok p ∧ p.branch.length = 39 ∧ p.holds i c.balancesRoot = true ∧
      (Chunk.balanceIn? p.chunk i).map Int.ofNat = .ok b ∧ i / 4 < twoTo 38 := by
  obtain ⟨_, -, hashed⟩ := trees.getElem?_roots foundValidator
  obtain ⟨digest, digestOk⟩ := Record.publicKeyDigest?_of_root? isA hashed
  obtain ⟨chunk, foundChunk, read, ge⟩ := Chunk.balanceIn?_packed trees.packed found
  rw [← Array.getElem?_toList] at foundChunk
  have lt : i / 4 < twoTo 38 := trees.balances.lt_of_getElem? foundChunk
  have leafAt := trees.balances.leafAt_of_getElem? foundChunk
  have place : (i : Int) / (Limits.balancesPerChunk : Int) = ((i / 4 : Nat) : Int) := rfl
  have holds := trees.balances.proves_leaf lt
  refine ⟨⟨digest, c.balancesTree.leafAt (i / 4), branchOver c.balancesTree.leafAt 0 38 (i / 4) ++
    [lengthChunk s.balances.length]⟩, ?_, ?_, holds, ?_, lt⟩
  · simp only [balanceProof?, bind_eq_ok_iff, pure_eq_ok_iff, place]
    refine ⟨b, trees.snapshot ▸ Snapshot.balance?_of_getElem? found, v,
      trees.snapshot ▸ Snapshot.validator?_of_getElem? foundValidator, _,
      trees.balances.branch?_eq lt, _, lengthChunk?_eq_ok_iff.mpr ⟨?_, rfl⟩, digest, digestOk, ?_⟩
    · rw [trees.snapshot]
      exact trees.balances.length
    · rw [trees.snapshot, ← SparseTree.get_natCast]
      simp [composeBranches]
  · rw [List.length_append, length_branchOver, List.length_singleton]
  · rw [leafAt, read]
    exact congrArg Except.ok (Int.toNat_of_nonneg ge)

/-- The branch of a balance's chunk goes on through the state. -/
theorem Over.fullBalanceBranch (trees : c.Over s roots chunks fieldRoots) {i : Nat}
    {p : BalanceProof} (made : c.balanceProof? i = .ok p) (length : p.branch.length = 39)
    (holds : p.holds i c.balancesRoot = true) (lt : i / 4 < twoTo 38) :
    ∃ branch position, c.fullBalanceBranch? i = .ok branch ∧ branch.length = 44 ∧
      Registry.balancePosition? i = .ok ((position : Nat) : Int) ∧
      proves p.chunk branch (position : Int) c.stateRoot = true := by
  obtain ⟨upper, upperOk, upperLength, upperHolds⟩ := trees.proves_field trees.getElem?_balances
  have lower : proves p.chunk p.branch ((i / 4 : Nat) : Int) c.balancesRoot = true := holds
  have whole := proves_append lower upperHolds
  rw [length] at whole
  refine ⟨p.branch ++ upper, i / 4 + 12 * twoTo 39, ?_, ?_, composePositions?_nested lt 12 5, whole⟩
  · simp only [fullBalanceBranch?, balanceContainerProof?, bind_eq_ok_iff, pure_eq_ok_iff]
    exact ⟨p, made, _, ⟨upper, upperOk, rfl⟩, by simp [composeBranches]⟩
  · rw [List.length_append, length, upperLength]

/-! ### All proofs -/

/-- Every proof of a composer exists and leads up to the block root: those of all validators, of all
balances of validators, and of all fields. -/
structure Complete (c : Composer) (s : Snapshot) (top : StateRootProof) (blockRoot : ByteArray) :
    Prop where
  validator : ∀ (i : Nat) (v : Record), s.validators[i]? = some v →
    ∃ p root position, c.validatorProof? i none = .ok p ∧ p.branch.length = 46 ∧
      p.holds? v c.stateRoot = .ok true ∧ v.root? = .ok root ∧
      Registry.validatorPosition? i = .ok position ∧
      LeadsUp root p.branch position c.stateRoot top blockRoot
  balance : ∀ (i : Nat) (b : Int), i < s.validators.size → s.balances[i]? = some b →
    ∃ p branch position, c.balanceProof? i = .ok p ∧ p.branch.length = 39 ∧
      p.holds i c.balancesRoot = true ∧ (Chunk.balanceIn? p.chunk i).map Int.ofNat = .ok b ∧
      c.fullBalanceBranch? i = .ok branch ∧ branch.length = 44 ∧
      Registry.balancePosition? i = .ok position ∧
      LeadsUp p.chunk branch position c.stateRoot top blockRoot
  field : ∀ (k : Nat) (f : State.SectionField), State.fields[k]? = some f →
    ∃ root branch, s.fieldRoot? f = .ok root ∧ c.fieldBranch? k = .ok branch ∧
      branch.length = 5 ∧ LeadsUp root branch k c.stateRoot top blockRoot

theorem checkField_of_getElem? {k : Nat} {f : State.SectionField}
    (field : State.fields[k]? = some f) : Snapshot.checkField k = .ok () := by
  have lt : k < 28 := (List.getElem?_eq_some_iff.mp field).1
  have inside : ¬((k : Int) < 0 ∨ (Limits.stateFieldCount : Int) ≤ k) := by
    rw [Limits.stateFieldCount]
    omega
  rw [Snapshot.checkField, if_neg inside]

/-- The proofs of a composer are complete up to the block root of every header that names its state
root. -/
theorem proofs_complete {s : Snapshot} {c : Composer} (built : ofSnapshot? s = .ok c)
    (records : ∀ v ∈ s.validators, v.IsA .validator) {header : Record}
    (isHeader : header.IsA .blockHeader) {blockRoot : ByteArray}
    (hashed : header.root? = .ok blockRoot) (names : header.get "state_root" = .bytes c.stateRoot) :
    ∃ top, StateRootProof.ofHeader? header = .ok top ∧ top.branch.length = 3 ∧
      Complete c s top blockRoot := by
  obtain ⟨roots, chunks, fieldRoots, trees⟩ := ofSnapshot?_spec built
  obtain ⟨top, made, same, length, holds⟩ :=
    StateRootProof.ofHeader?_complete isHeader hashed names
  have up : ∀ {node : ByteArray} {branch : List ByteArray} {position : Nat},
      proves node branch (position : Int) c.stateRoot = true →
      LeadsUp node branch (position : Int) c.stateRoot top blockRoot := by
    intro node branch position low
    rw [← same] at low ⊢
    exact .of_state low holds
  refine ⟨top, made, length, ⟨fun i v found => ?_, fun i b lt found => ?_, fun k f field => ?_⟩⟩
  · obtain ⟨p, root, position, ok, count, index, rootOk, place, low⟩ :=
      trees.validatorProof (records v (Array.mem_of_getElem? found)) found
    refine ⟨p, root, position, ok, count, ?_, rootOk, place, up low⟩
    simp only [ValidatorProof.holds?, bind_eq_ok_iff, pure_eq_ok_iff, index]
    exact ⟨root, rootOk, position, place, low⟩
  · have foundValidator := Array.getElem?_eq_getElem lt
    obtain ⟨p, ok, count, low, read, inside⟩ :=
      trees.balanceProof (records _ (Array.getElem_mem lt)) foundValidator found
    obtain ⟨branch, position, full, countFull, place, whole⟩ :=
      trees.fullBalanceBranch ok count low inside
    exact ⟨p, branch, position, ok, count, low, read, full, countFull, place, up whole⟩
  · obtain ⟨root, found, rootOk⟩ := trees.getElem?_fieldRoots field
    obtain ⟨branch, ok, count, low⟩ := trees.proves_field found
    refine ⟨root, branch, rootOk, ?_, count, up low⟩
    simp only [fieldBranch?, bind_eq_ok_iff]
    exact ⟨(), checkField_of_getElem? field, ok⟩

theorem proofs_complete_lone : ∃ s c header blockRoot top,
    Snapshot.decode? State.loneBuffer = .ok s ∧ ofSnapshot? s = .ok c ∧
    s.validators = #[Record.zero .validator] ∧ s.balances = [32000000000] ∧
    header.root? = .ok blockRoot ∧ header.get "state_root" = .bytes c.stateRoot ∧
    StateRootProof.ofHeader? header = .ok top ∧ Complete c s top blockRoot := by
  obtain ⟨s, root, read, hashed, validators, balances⟩ := State.exists_loneState
  obtain ⟨c, built⟩ := exists_ofSnapshot? hashed
  obtain ⟨roots, chunks, fieldRoots, trees⟩ := ofSnapshot?_spec built
  let header : Record := ⟨.blockHeader,
    [.int 0, .int 0, .bytes zeroChunk, .bytes c.stateRoot, .bytes zeroChunk]⟩
  have number : FieldKind.uint64.Holds (.int 0) := FieldKind.holds_zero .uint64
  have node : FieldKind.Holds (.bytes 32) (.bytes zeroChunk) := size_zeroChunk
  have own : FieldKind.Holds (.bytes 32) (.bytes c.stateRoot) := trees.size_stateRoot
  have fits : header.Fits .blockHeader :=
    ⟨rfl, .cons number (.cons number (.cons node (.cons own (.cons node .nil))))⟩
  have headerRoot := Record.root?_eq (by decide) fits
  have records : ∀ v ∈ s.validators, v.IsA .validator := by
    rw [validators]
    intro v mem
    obtain rfl := Array.mem_singleton.mp mem
    exact (Record.fits_zero .validator).isA
  obtain ⟨top, made, -, complete⟩ := proofs_complete built records fits.isA headerRoot rfl
  exact ⟨s, c, header, _, top, read, built, validators, balances, headerRoot, rfl, made, complete⟩

end Composer

end BeaconBranch
