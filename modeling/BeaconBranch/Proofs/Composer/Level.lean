import BeaconBranch.Proofs.Composer.Complete

/-!
The level of a proven node. A check looks at a position and a branch and asks that the position fits
the branch; that the branch has the length of a genuine one it does not ask. So a node above the
leaves is proven at the position that it has on its own level, by the upper part of a genuine
branch, as long as this position still fits. Main statements: the lengths that each check accepts,
and the inner nodes of a header, of a state and of a list of balances that pass for a leaf.
-/

namespace BeaconBranch

open Outcome Merkle

/-! ### The lengths that checks accept -/

/-- A number fits as many binary digits as it has, and no fewer. -/
theorem lt_twoTo_iff {x k n : Nat} (ge : twoTo k ≤ x) (lt : x < twoTo (k + 1)) :
    x < twoTo n ↔ k + 1 ≤ n := by
  constructor
  · intro fits
    exact (Nat.pow_lt_pow_iff_right (by decide)).mp (Nat.lt_of_le_of_lt ge fits)
  · intro le
    exact Nat.lt_of_lt_of_le lt (twoTo_le le)

/-- The lengths of the branches that each check accepts for some root. The genuine lengths are three
for a state root, five for a balances root, 39 for a balance and 46 for a validator. -/
structure AcceptedLengths : Prop where
  stateRoot : ∀ n, (∃ (p : StateRootProof) (root : ByteArray), p.branch.length = n ∧
    p.holds root = true) ↔ 2 ≤ n
  container : ∀ n, (∃ (p : BalanceContainerProof) (root : ByteArray), p.branch.length = n ∧
    p.holds root = true) ↔ 4 ≤ n
  balance : ∀ n (i : Nat), (∃ (p : BalanceProof) (root : ByteArray), p.branch.length = n ∧
    p.holds i root = true) ↔ i / 4 < twoTo n
  validator : ∀ n (i : Nat), i < twoTo 40 → ((∃ (p : ValidatorProof) (v : Record)
    (root : ByteArray), p.index = i ∧ p.branch.length = n ∧ p.holds? v root = .ok true) ↔ 45 ≤ n)

theorem acceptedLengths : AcceptedLengths := by
  refine ⟨fun n => ?_, fun n => ?_, fun n i => ?_, fun n i inside => ?_⟩
  · rw [← lt_twoTo_iff (x := 3) (k := 1) (by decide) (by decide)]
    refine ⟨fun ⟨p, root, length, holds⟩ => length ▸ (proves_iff.mp holds).1, fun lt => ?_⟩
    obtain ⟨branch, root, length, holds⟩ := exists_proves size_zeroChunk lt
    exact ⟨⟨zeroChunk, branch⟩, root, length, holds⟩
  · rw [← lt_twoTo_iff (x := 12) (k := 3) (by decide) (by decide)]
    refine ⟨fun ⟨p, root, length, holds⟩ => length ▸ (proves_iff.mp holds).1, fun lt => ?_⟩
    obtain ⟨branch, root, length, holds⟩ := exists_proves size_zeroChunk lt
    exact ⟨⟨zeroChunk, branch⟩, root, length, holds⟩
  · refine ⟨fun ⟨p, root, length, holds⟩ => length ▸ ((proves_iff (i := i / 4)).mp holds).1,
      fun lt => ?_⟩
    obtain ⟨branch, root, length, holds⟩ := exists_proves size_zeroChunk lt
    exact ⟨⟨zeroChunk, zeroChunk, branch⟩, root, length, holds⟩
  · have place : Registry.validatorPosition? i = .ok ((i + 11 * twoTo 41 : Nat) : Int) :=
      composePositions?_nested inside 11 5
    have low : twoTo 44 ≤ i + 11 * twoTo 41 :=
      Nat.le_trans (by decide) (Nat.le_add_left _ _)
    have high : i + 11 * twoTo 41 < twoTo 45 :=
      Nat.lt_trans (Nat.add_lt_add_right inside _) (by decide)
    rw [← lt_twoTo_iff low high]
    constructor
    · rintro ⟨p, v, root, index, length, holds⟩
      simp only [ValidatorProof.holds?, index, place, bind_eq_ok_iff, pure_eq_ok_iff] at holds
      obtain ⟨leaf, -, _, ⟨⟩, holds⟩ := holds
      exact length ▸ (proves_iff.mp holds).1
    · intro lt
      have fits := Record.fits_zero .validator
      have regular : Schema.Regular .validator := by decide
      obtain ⟨branch, root, length, holds⟩ :=
        exists_proves (Record.size_derivation regular fits) lt
      refine ⟨⟨i, [], branch⟩, .zero .validator, root, rfl, length, ?_⟩
      simp only [ValidatorProof.holds?, place, bind_eq_ok_iff, pure_eq_ok_iff]
      exact ⟨_, Record.root?_eq regular fits, _, rfl, holds⟩

/-! ### Inner nodes that pass for leaves -/

/-- Inner nodes that are proven as a state root, as a balances root and as the chunk of a balance,
each by a branch that is too short. -/
structure InnerNodes (c : Composer) (s : Snapshot) (blockRoot : ByteArray) : Prop where
  stateRoot : ∃ p : StateRootProof, p.stateRoot = zeroHash 1 ∧ p.branch.length = 2 ∧
    p.holds blockRoot = true
  container : ∃ (p : BalanceContainerProof) (f g : State.SectionField) (left right : ByteArray),
    State.fields[24]? = some f ∧ State.fields[25]? = some g ∧ s.fieldRoot? f = .ok left ∧
      s.fieldRoot? g = .ok right ∧ p.balancesRoot = join left right ∧ p.branch.length = 4 ∧
      p.holds c.stateRoot = true
  balance : ∀ h i : Nat, h ≤ 38 → i / 4 < twoTo (38 - h) →
    ∃ p : BalanceProof, p.chunk = nodeOver c.balancesTree.leafAt h (i / 4) ∧
      p.branch.length = 39 - h ∧ p.holds i c.balancesRoot = true

/-- A header has five leaves, so the node above its leaves six and seven is empty. -/
theorem exists_inner_stateRoot {header : Record} (isA : header.IsA .blockHeader)
    {blockRoot : ByteArray} (hashed : header.root? = .ok blockRoot) :
    ∃ p : StateRootProof, p.stateRoot = zeroHash 1 ∧ p.branch.length = 2 ∧
      p.holds blockRoot = true := by
  obtain ⟨chunks, t, ok, built, rfl⟩ := Record.root?_eq_ok_iff.mp hashed
  have sizes := DenseTree.size_leafOf (DenseTree.ofLeaves?_eq_ok_iff.mp built).1
  have holds := proves_branchOver_node sizes (h := 1) (n := 2) (p := 3) (by decide)
  have empty : nodeOver (DenseTree.leafOf chunks.toArray) 1 3 = zeroHash 1 := by
    refine nodeOver_eq_zeroHash fun i ge _ => DenseTree.leafOf_of_le ?_
    have six : 3 * twoTo 1 = 6 := rfl
    have five : chunks.toArray.size = 5 := Record.length_chunks? isA ok
    omega
  have root : t.root = nodeOver (DenseTree.leafOf chunks.toArray) (1 + 2) 0 := by
    rw [DenseTree.root_of_ofLeaves? built, Record.depth_headerTree isA ok built]
  rw [← root] at holds
  exact ⟨⟨_, _⟩, empty, length_branchOver _ _ _ _, holds⟩

namespace Composer

variable {c : Composer} {s : Snapshot} {roots fieldRoots : List ByteArray}
  {chunks : Array ByteArray}

theorem Over.leafOf_fieldRoots (trees : c.Over s roots chunks fieldRoots) {k : Nat}
    {f : State.SectionField} (field : State.fields[k]? = some f) :
    s.fieldRoot? f = .ok (DenseTree.leafOf fieldRoots.toArray k) := by
  obtain ⟨root, found, rootOk⟩ := trees.getElem?_fieldRoots field
  simpa [DenseTree.leafOf, found] using rootOk

/-- Position twelve exists on the level above the fields, over the fields 24 and 25. -/
theorem Over.exists_inner_container (trees : c.Over s roots chunks fieldRoots) :
    ∃ (p : BalanceContainerProof) (f g : State.SectionField) (left right : ByteArray),
      State.fields[24]? = some f ∧ State.fields[25]? = some g ∧ s.fieldRoot? f = .ok left ∧
        s.fieldRoot? g = .ok right ∧ p.balancesRoot = join left right ∧ p.branch.length = 4 ∧
        p.holds c.stateRoot = true := by
  have built := trees.state
  have root : c.stateRoot = nodeOver (DenseTree.leafOf fieldRoots.toArray) (1 + 4) 0 := by
    rw [stateRoot, DenseTree.root_of_ofLeaves? built, DenseTree.depth_of_ofLeaves? built]
    rfl
  have sizes := DenseTree.size_leafOf (DenseTree.ofLeaves?_eq_ok_iff.mp built).1
  have holds := proves_branchOver_node sizes (h := 1) (n := 4) (p := 12) (by decide)
  rw [← root] at holds
  exact ⟨⟨_, _⟩, _, _, _, _, rfl, rfl, trees.leafOf_fieldRoots rfl, trees.leafOf_fieldRoots rfl,
    rfl, length_branchOver _ _ _ _, holds⟩

/-- The upper part of a branch from the chunks of the balances, and the length behind it. -/
theorem Over.exists_inner_balance (trees : c.Over s roots chunks fieldRoots) {h i : Nat}
    (le : h ≤ 38) (lt : i / 4 < twoTo (38 - h)) :
    ∃ p : BalanceProof, p.chunk = nodeOver c.balancesTree.leafAt h (i / 4) ∧
      p.branch.length = 39 - h ∧ p.holds i c.balancesRoot = true := by
  have sizes := SparseTree.size_leafAt trees.balances.sound
  have lower := proves_branchOver_node sizes (h := h) lt
  rw [Nat.add_sub_cancel' le] at lower
  have upper := proves_join (size_nodeOver sizes 38 0) (size_lengthChunk s.balances.length)
  rw [← trees.balances.root] at upper
  have whole := proves_append lower upper
  rw [Nat.zero_mul, Nat.add_zero] at whole
  refine ⟨⟨zeroChunk, _, _⟩, rfl, ?_, whole⟩
  rw [List.length_append, length_branchOver, List.length_singleton]
  omega

/-- No check pins the level of the node that it proves: which lengths each of them accepts, and
inner nodes that every header with a root and every state with a composer let pass for leaves. -/
theorem levels_not_pinned (built : ofSnapshot? s = .ok c) {header : Record}
    (isHeader : header.IsA .blockHeader) {blockRoot : ByteArray}
    (hashed : header.root? = .ok blockRoot) : AcceptedLengths ∧ InnerNodes c s blockRoot := by
  obtain ⟨roots, chunks, fieldRoots, trees⟩ := ofSnapshot?_spec built
  exact ⟨acceptedLengths, exists_inner_stateRoot isHeader hashed, trees.exists_inner_container,
    fun _ _ le lt => trees.exists_inner_balance le lt⟩

theorem levels_not_pinned_lone : ∃ s c blockRoot, Snapshot.decode? State.loneBuffer = .ok s ∧
    ofSnapshot? s = .ok c ∧ (Record.zero .blockHeader).IsA .blockHeader ∧
    (Record.zero .blockHeader).root? = .ok blockRoot ∧ AcceptedLengths ∧
    InnerNodes c s blockRoot := by
  obtain ⟨s, root, read, hashed, -⟩ := State.exists_loneState
  obtain ⟨c, built⟩ := exists_ofSnapshot? hashed
  have fits := Record.fits_zero .blockHeader
  have headerRoot := Record.root?_eq (by decide) fits
  obtain ⟨lengths, inner⟩ := levels_not_pinned built fits.isA headerRoot
  exact ⟨s, c, _, read, built, fits.isA, headerRoot, lengths, inner⟩

end Composer

/-- The root of a header lies three levels above its leaves. -/
theorem Record.root?_blockHeader {header : Record} {chunks : List ByteArray}
    (fits : header.Fits .blockHeader) (ok : header.chunks? = .ok chunks) :
    header.root? = .ok (nodeOver (DenseTree.leafOf chunks.toArray) 3 0) := by
  have hashed := root?_eq (by decide) fits
  obtain ⟨_, t, ok', built, root⟩ := root?_eq_ok_iff.mp hashed
  obtain rfl := Except.ok.inj (ok'.symm.trans ok)
  rw [hashed, ← root, DenseTree.root_of_ofLeaves? built, depth_headerTree fits.isA ok built]

/-- The five leaves of a header of zeros are zero chunks, so its tree is empty. -/
theorem Record.root?_zero_blockHeader : (zero .blockHeader).root? = .ok (zeroHash 3) := by
  have fits := Record.fits_zero .blockHeader
  have chunks : (zero .blockHeader).chunks? = .ok (List.replicate 5 zeroChunk) := by
    rw [chunks?_eq (by decide) fits]
    rfl
  rw [root?_blockHeader fits chunks]
  refine congrArg Except.ok (nodeOver_eq_zeroHash fun i _ _ => ?_)
  rw [DenseTree.leafOf, Array.getD_eq_getD_getElem?, List.getElem?_toArray,
    List.getElem?_replicate]
  split <;> rfl

/-- A node that stands beside itself, with another one to the left of both. -/
theorem proves_two_hashes {a b : ByteArray} (sizeA : a.size = 32) (sizeB : b.size = 32) :
    (StateRootProof.mk a [a, b]).holds (join b (join a a)) = true :=
  (proves_iff (i := 3)).mpr
    ⟨show 3 < twoTo 2 by decide, sizeA, size_join _ _, by simp [sizeA, sizeB], rfl⟩

/-- Two hashes are enough for the header of zeros. -/
theorem stateRootProof_two_hashes :
    (Record.zero .blockHeader).root? = .ok (zeroHash 3) ∧
      (StateRootProof.mk (zeroHash 1) [zeroHash 1, zeroHash 2]).holds (zeroHash 3) = true ∧
      [zeroHash 1, zeroHash 2].length ≠ 3 := by
  have holds := proves_two_hashes (size_zeroHash 1) (size_zeroHash 2)
  rw [← zeroHash_succ, ← zeroHash_succ] at holds
  exact ⟨Record.root?_zero_blockHeader, holds, by simp⟩

end BeaconBranch
