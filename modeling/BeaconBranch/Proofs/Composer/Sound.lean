import BeaconBranch.Proofs.Composer.Complete
import BeaconBranch.Proofs.Composer.Openings

/-!
Composed proofs are sound. A forged branch that is accepted leads to the same root as the genuine
one, so it is the genuine one, and it starts at the genuine leaf, unless two of the messages collide
that were hashed for the trees or are hashed by the check. What remains is what the leaf tells: a
validator's root tells the whole record, and a chunk of balances tells each of them. Main statement:
every accepted proof of the documented length, whoever made it, shows what the state holds.
-/

namespace BeaconBranch

open Outcome Merkle

/-- The messages that are hashed in the tree over the chunks of a record. -/
def Record.TreeHashed (r : Record) (m : ByteArray) : Prop := ∃ chunks, r.chunks? = .ok chunks ∧
  ((Derivation.ofList (chunks.map .given) (depthFor chunks.length)).Hashed m ∨
    ZeroHashed (depthFor chunks.length) m)

theorem Registry.nonneg_of_validatorPosition? {i position : Int}
    (place : Registry.validatorPosition? i = .ok position) (ge : 0 ≤ position) : 0 ≤ i :=
  nonneg_of_composePositions? (n := 40) 11 5 place ge

namespace Composer

/-- What an accepted proof shows, unless two of the hashed messages collide: those that were hashed
for the trees of the state in a buffer, and those that are hashed by the check itself. -/
structure Sound (c : Composer) (s : Snapshot) (data : ByteArray) : Prop where
  validator : ∀ (p : ValidatorProof) (v : Record), p.index < twoTo 40 → p.branch.length = 46 →
    v.Fits .validator → p.holds? v c.stateRoot = .ok true →
    ∃ root position, v.root? = .ok root ∧ Registry.validatorPosition? p.index = .ok position ∧
      ((c.validatorBranch? p.index = .ok p.branch ∧
          (s.validator? p.index = .ok v ∨ s.validators.size ≤ p.index ∧ root = zeroChunk)) ∨
        Collision fun m => State.TreeHashed data m ∨ v.derivation.Hashed m ∨
          Replayed root position p.branch m)
  balance : ∀ (i : Int) (p : BalanceProof), i < s.balances.length → p.branch.length = 39 →
    p.holds i c.balancesRoot = true →
    ∃ b, s.balance? i = .ok b ∧ ((Chunk.balanceIn? p.chunk i).map Int.ofNat = .ok b ∨
      Collision fun m => State.TreeHashed data m ∨ Replayed p.chunk (i / 4) p.branch m)
  container : ∀ p : BalanceContainerProof, p.branch.length = 5 → p.holds c.stateRoot = true →
    p.balancesRoot = c.balancesRoot ∨
      Collision fun m => State.TreeHashed data m ∨ Replayed p.balancesRoot 12 p.branch m
  stateRoot : ∀ (header : Record) (blockRoot named : ByteArray) (p : StateRootProof),
    header.IsA .blockHeader → header.root? = .ok blockRoot →
    header.get "state_root" = .bytes named → p.branch.length = 3 → p.holds blockRoot = true →
    p.stateRoot = named ∨
      Collision fun m => header.TreeHashed m ∨ Replayed p.stateRoot 3 p.branch m

/-- A proof of the state root shows the one that the header names. -/
theorem stateRoot_sound {header : Record} {blockRoot named : ByteArray} {p : StateRootProof}
    (isA : header.IsA .blockHeader) (hashed : header.root? = .ok blockRoot)
    (names : header.get "state_root" = .bytes named) (length : p.branch.length = 3)
    (holds : p.holds blockRoot = true) : p.stateRoot = named ∨
      Collision fun m => header.TreeHashed m ∨ Replayed p.stateRoot 3 p.branch m := by
  obtain ⟨chunks, t, ok, count, found, built, depth, rfl⟩ := Record.headerTree isA hashed names
  have sizes := (DenseTree.ofLeaves?_eq_ok_iff.mp built).1
  have nodes : ∀ t ∈ chunks.map Derivation.given, t.value.size = 32 :=
    Derivation.size_of_mem_map fun b mem => sizes b (List.mem_toArray.mpr mem)
  have opens := Derivation.Opens.ofList nodes (show 3 < twoTo 3 by decide)
  have root : (Derivation.ofList (chunks.map .given) 3).value = t.root := by
    rw [DenseTree.root_of_ofLeaves? built, depth]
    exact Derivation.value_ofChunks chunks.toArray 3
  have leaf : Derivation.leafOf (chunks.map .given) 3 = named := by
    rw [Derivation.leafOf, Derivation.map_value_given, List.getD_eq_getElem?_getD, found]
    rfl
  have proven : proves p.stateRoot p.branch ((3 : Nat) : Int)
      (Derivation.ofList (chunks.map .given) 3).value = true := by
    rw [root]
    exact holds
  refine (opens.unique (length.trans (length_branchOver _ _ _ _).symm) proven).imp
    (fun same => same.1.trans leaf) (Collision.mono fun m => Or.imp_left fun hashed => ?_)
  exact ⟨chunks, ok, by rw [count]; exact hashed⟩

variable {c : Composer} {s : Snapshot} {data : ByteArray} {fields : List Derivation}
  {chunks : Array ByteArray}

/-- A proof of the balances root shows the root of the balances. -/
theorem Traced.container_sound (traced : c.Traced s data fields chunks) {p : BalanceContainerProof}
    (length : p.branch.length = 5) (holds : p.holds c.stateRoot = true) :
    p.balancesRoot = c.balancesRoot ∨
      Collision fun m => State.TreeHashed data m ∨ Replayed p.balancesRoot 12 p.branch m := by
  obtain ⟨branch, -, count, opens⟩ := traced.opens_field traced.balances
  rw [traced.value_balancesRoot] at opens
  have proven : proves p.balancesRoot p.branch ((12 : Nat) : Int) (State.derivation data).value =
      true := by
    rw [traced.value_stateRoot]
    exact holds
  exact (opens.unique (length.trans count.symm) proven).imp_left And.left

/-- A proof of a chunk of balances shows each balance in it. -/
theorem Traced.balance_sound (traced : c.Traced s data fields chunks) {i : Int} {p : BalanceProof}
    (lt : i < s.balances.length) (length : p.branch.length = 39)
    (holds : p.holds i c.balancesRoot = true) :
    ∃ b, s.balance? i = .ok b ∧ ((Chunk.balanceIn? p.chunk i).map Int.ofNat = .ok b ∨
      Collision fun m => State.TreeHashed data m ∨ Replayed p.chunk (i / 4) p.branch m) := by
  have ge := nonneg_of_proves holds
  rw [Limits.balancesPerChunk] at ge
  obtain ⟨n, rfl⟩ := Int.eq_ofNat_of_zero_le (show 0 ≤ i by omega)
  have found := List.getElem?_eq_getElem (show n < s.balances.length by omega)
  refine ⟨_, Snapshot.balance?_of_getElem? found, ?_⟩
  obtain ⟨chunk, foundChunk, read, positive⟩ := Chunk.balanceIn?_packed traced.packed found
  rw [← Array.getElem?_toList] at foundChunk
  have inside : n / 4 < twoTo 38 := traced.balancesTree.lt_of_getElem? foundChunk
  have leaf : Derivation.leafOf (chunks.toList.map .given) (n / 4) = chunk := by
    rw [Derivation.leafOf, Derivation.map_value_given, List.getD_eq_getElem?_getD, foundChunk]
    rfl
  have proven : proves p.chunk p.branch ((n / 4 : Nat) : Int)
      (Derivation.ofItems (chunks.toList.map .given) 38 s.balances.length).value = true := by
    rw [traced.value_balancesRoot]
    exact holds
  have count : p.branch.length = (branchOver (Derivation.leafOf (chunks.toList.map .given)) 0 38
      (n / 4) ++ [lengthChunk s.balances.length]).length := by
    rw [length, List.length_append, length_branchOver, List.length_singleton]
  refine ((traced.opens_balance inside).unique count proven).imp (fun same => ?_)
    (Collision.mono fun m => Or.imp_left fun hashed => ?_)
  · rw [same.1, leaf, read]
    exact congrArg Except.ok (Int.toNat_of_nonneg positive)
  · exact hashed.imp (traced.hashed_of_field traced.balances) (.mono (by decide))

theorem validatorLeaf_of_getElem? {i : Nat} {v : Record} (found : s.validators[i]? = some v) :
    Traced.validatorLeaf s i = v.derivation.value := by
  rw [Traced.validatorLeaf, Derivation.leafOf, List.getD_eq_getElem?_getD, List.getElem?_map,
    List.getElem?_map, Array.getElem?_toList, found]
  rfl

theorem validatorLeaf_of_le {i : Nat} (le : s.validators.size ≤ i) :
    Traced.validatorLeaf s i = zeroChunk := by
  rw [Traced.validatorLeaf, Derivation.leafOf, List.getD_eq_getElem?_getD, List.getElem?_map,
    List.getElem?_map, Array.getElem?_toList, Array.getElem?_eq_none le]
  rfl

/-- A proof of a validator is the genuine branch, and shows the validator of the state; behind the
last one it shows nothing but a record whose root is the zero chunk. -/
theorem Traced.validator_sound (traced : c.Traced s data fields chunks) (same : c.snapshot = s)
    {p : ValidatorProof} {v : Record} (lt : p.index < twoTo 40) (length : p.branch.length = 46)
    (fits : v.Fits .validator) (holds : p.holds? v c.stateRoot = .ok true) :
    ∃ root position, v.root? = .ok root ∧ Registry.validatorPosition? p.index = .ok position ∧
      ((c.validatorBranch? p.index = .ok p.branch ∧
          (s.validator? p.index = .ok v ∨ s.validators.size ≤ p.index ∧ root = zeroChunk)) ∨
        Collision fun m => State.TreeHashed data m ∨ v.derivation.Hashed m ∨
          Replayed root position p.branch m) := by
  simp only [ValidatorProof.holds?, bind_eq_ok_iff, pure_eq_ok_iff] at holds
  obtain ⟨root, hashed, position, place, proven⟩ := holds
  refine ⟨root, position, hashed, place, ?_⟩
  obtain ⟨i, index⟩ := Int.eq_ofNat_of_zero_le
    (Registry.nonneg_of_validatorPosition? place (nonneg_of_proves proven))
  rw [index] at lt place ⊢
  have inTree : i < twoTo 40 := by omega
  obtain rfl : v.derivation.value = root :=
    Except.ok.inj ((Record.root?_eq (by decide) fits).symm.trans hashed)
  obtain rfl : ((i + 11 * twoTo 41 : Nat) : Int) = position :=
    Except.ok.inj ((composePositions?_nested inTree 11 5).symm.trans place)
  obtain ⟨branch, genuine, count, opens⟩ := traced.opens_validator same inTree
  rw [← traced.value_stateRoot] at proven
  rcases opens.unique (length.trans count.symm) proven with ⟨leaf, rfl⟩ | collision
  · rcases Nat.lt_or_ge i s.validators.size with inside | behind
    · have found := Array.getElem?_eq_getElem inside
      rw [validatorLeaf_of_getElem? found] at leaf
      have own := traced.fits _ (Array.getElem_mem inside)
      rcases Record.binds_derivation (by decide) fits own leaf with equal | collision
      · exact .inl ⟨genuine, .inl (Snapshot.validator?_of_getElem? (equal ▸ found))⟩
      · refine .inr (collision.mono fun m hashed => ?_)
        rcases hashed with ours | theirs
        · exact .inr (.inl ours)
        · exact .inl (.inl (traced.hashed_of_validator found inTree theirs))
    · -- The leaves behind the last validator are zero chunks.
      rw [validatorLeaf_of_le behind] at leaf
      exact .inl ⟨genuine, .inr ⟨by omega, leaf⟩⟩
  · exact .inr (collision.mono fun m => Or.imp_right .inr)

/-- Every accepted proof of the documented length shows what the state holds, or two different
messages have the same digest that were hashed for the trees or by the check. -/
theorem proofs_sound (read : Snapshot.decode? data = .ok s) (built : ofSnapshot? s = .ok c) :
    Sound c s data := by
  obtain ⟨same, fields, chunks, traced⟩ := traced_of_decode? read built
  exact ⟨fun p v lt length fits => traced.validator_sound same lt length fits,
    fun i p lt length => traced.balance_sound lt length,
    fun p length => traced.container_sound length,
    fun header blockRoot named p isA hashed names length => stateRoot_sound isA hashed names length⟩

theorem proofs_sound_lone : ∃ s c p root position, Snapshot.decode? State.loneBuffer = .ok s ∧
    ofSnapshot? s = .ok c ∧ c.validatorProof? 0 none = .ok p ∧ p.branch.length = 46 ∧
    (Record.zero .validator).root? = .ok root ∧
    Registry.validatorPosition? p.index = .ok position ∧
    ((c.validatorBranch? p.index = .ok p.branch ∧
        (s.validator? p.index = .ok (Record.zero .validator) ∨
          s.validators.size ≤ p.index ∧ root = zeroChunk)) ∨
      Collision fun m => State.TreeHashed State.loneBuffer m ∨
        (Record.zero .validator).derivation.Hashed m ∨ Replayed root position p.branch m) := by
  obtain ⟨s, _, read, hashed, validators, -⟩ := State.exists_loneState
  obtain ⟨c, built⟩ := exists_ofSnapshot? hashed
  obtain ⟨_, _, _, trees⟩ := ofSnapshot?_spec built
  have fits := Record.fits_zero .validator
  have found : s.validators[0]? = some (Record.zero .validator) := by rw [validators]; rfl
  obtain ⟨p, root, position, made, length, index, rootOk, place, proven⟩ :=
    trees.validatorProof fits.isA found
  have accepted : p.holds? (Record.zero .validator) c.stateRoot = .ok true := by
    simp only [ValidatorProof.holds?, bind_eq_ok_iff, pure_eq_ok_iff, index]
    exact ⟨root, rootOk, position, place, proven⟩
  have lt : p.index < twoTo 40 := by
    rw [index]
    exact_mod_cast twoTo_pos 40
  obtain ⟨root', position', shown⟩ :=
    (proofs_sound read built).validator p _ lt length fits accepted
  exact ⟨s, c, p, root', position', read, built, made, length, shown⟩

end Composer

end BeaconBranch
