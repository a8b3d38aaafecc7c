import BeaconBranch.Proof.Composer
import BeaconBranch.Proofs.Merkle.Branch
import BeaconBranch.Proofs.State.Root

/-!
The trees of a composer. Its two list trees hold the roots of the validators and the packed
balances, and its state tree holds the roots of all fields, which it computes for the two lists on
its own. Main statement: what holds of every composer that was built.
-/

namespace BeaconBranch

open Outcome

namespace Merkle

/-- A sparse tree holds the chunks of a list, and a root commits to them and to a length. -/
structure ListTree (t : SparseTree) (d : Nat) (chunks : List ByteArray) (n : Nat)
    (root : ByteArray) : Prop where
  sizes : ∀ b ∈ chunks, b.size = 32
  room : chunks.length ≤ twoTo d
  sound : t.Sound
  depth : t.depth = d
  leafAt : t.leafAt = fun p => chunks.getD p zeroChunk
  length : n < twoTo 256
  root : root = join (nodeOver t.leafAt d 0) (lengthChunk n)

namespace ListTree

variable {t : SparseTree} {d n : Nat} {chunks : List ByteArray} {root : ByteArray}

/-- The tree over a list of chunks, with the nodes that its root took. -/
theorem of_ofLeaves? (built : SparseTree.ofLeaves? d chunks = .ok t)
    (mixed : mixInLength? t.computeRoot.1 n = .ok root) :
    ListTree t.computeRoot.2 d chunks n root := by
  obtain ⟨sizes, room, sound, depth, leafAt, -⟩ := SparseTree.ofLeaves?_spec built
  obtain ⟨length, rootEq⟩ := mixInLength?_eq_ok_iff.mp mixed
  rw [SparseTree.computeRoot_fst sound, depth] at rootEq
  exact ⟨sizes, room, SparseTree.sound_computeRoot sound, depth, leafAt, length, rootEq⟩

/-- A chunk stands where the list has it. -/
theorem leafAt_of_getElem? (tree : ListTree t d chunks n root) {i : Nat} {b : ByteArray}
    (found : chunks[i]? = some b) : t.leafAt i = b := by
  rw [tree.leafAt]
  dsimp only
  rw [List.getD_eq_getElem?_getD, found]
  rfl

theorem lt_of_getElem? (tree : ListTree t d chunks n root) {i : Nat} {b : ByteArray}
    (found : chunks[i]? = some b) : i < twoTo d :=
  Nat.lt_of_lt_of_le (List.getElem?_eq_some_iff.mp found).1 tree.room

/-- The branch of a leaf is the row of siblings on its way up. -/
theorem branch?_eq (tree : ListTree t d chunks n root) {i : Nat} (lt : i < twoTo d) :
    t.branch? i = .ok (branchOver t.leafAt 0 d i) := by
  have inside : i < t.capacity := by rwa [SparseTree.capacity, tree.depth]
  rw [SparseTree.branch?, SparseTree.computeBranch?_fst tree.sound inside, tree.depth]

/-- The branch of a leaf and the length behind it prove the leaf under the root. -/
theorem proves_leaf (tree : ListTree t d chunks n root) {i : Nat} (lt : i < twoTo d) :
    proves (t.leafAt i) (branchOver t.leafAt 0 d i ++ [lengthChunk n]) (i : Int) root = true := by
  have inner := proves_branchOver (SparseTree.size_leafAt tree.sound) lt
  have size := size_nodeOver (SparseTree.size_leafAt tree.sound) d 0
  have whole := proves_append inner (proves_join size (size_lengthChunk n))
  rwa [Nat.zero_mul, Nat.add_zero, ← tree.root] at whole

end ListTree

end Merkle

namespace Composer

/-- What holds of a composer that was built from a state: its list trees hold the roots of the
validators and the chunks of the balances, its state tree the roots of the fields. -/
structure Over (c : Composer) (s : Snapshot) (roots : List ByteArray) (chunks : Array ByteArray)
    (fieldRoots : List ByteArray) : Prop where
  snapshot : c.snapshot = s
  hashed : s.validatorRoots? = .ok roots
  validators : Merkle.ListTree c.validatorsTree 40 roots s.validators.size c.validatorsRoot
  validatorsRoot : s.validatorsRoot? = .ok c.validatorsRoot
  packed : Chunk.packUint64s? s.balances = .ok chunks
  balances : Merkle.ListTree c.balancesTree 38 chunks.toList s.balances.length c.balancesRoot
  balancesRoot : s.balancesRoot? = .ok c.balancesRoot
  fields : s.fieldRoots? [] = .ok fieldRoots
  state : Merkle.DenseTree.ofLeaves? fieldRoots.toArray 5 = .ok c.stateTree

/-- The roots of the two lists, which a composer computes on its own, are the roots of their
fields. -/
theorem fieldRoots?_of_lists {s : Snapshot} {vRoot bRoot : ByteArray}
    (validators : s.validatorsRoot? = .ok vRoot) (balances : s.balancesRoot? = .ok bRoot) :
    s.fieldRoots? [((11 : Nat), vRoot), ((12 : Nat), bRoot)] = s.fieldRoots? [] := by
  refine Snapshot.fieldRoots?_known fun i f root found looked => ?_
  rw [List.lookup_cons] at looked
  split at looked
  · rename_i eleven
    obtain rfl : i = 11 := Int.ofNat_inj.mp (eq_of_beq eleven)
    obtain rfl : _ = f := Option.some.inj found
    exact Option.some.inj looked ▸ validators
  · rw [List.lookup_cons] at looked
    split at looked
    · rename_i twelve
      obtain rfl : i = 12 := Int.ofNat_inj.mp (eq_of_beq twelve)
      obtain rfl : _ = f := Option.some.inj found
      exact Option.some.inj looked ▸ balances
    · cases looked

theorem ofSnapshot?_spec {s : Snapshot} {c : Composer} (built : ofSnapshot? s = .ok c) :
    ∃ roots chunks fieldRoots, c.Over s roots chunks fieldRoots := by
  simp only [ofSnapshot?, Chunk.validatorsTree?_eq_ok_iff, Chunk.balancesTree?_eq_ok_iff,
    Snapshot.tree?, bind_eq_ok_iff, pure_eq_ok_iff] at built
  obtain ⟨roots, hashed, vTree, vBuilt, bTree, ⟨chunks, packed, bBuilt⟩, vRoot, vMixed, bRoot,
    bMixed, state, ⟨fieldRoots, known, stateBuilt⟩, rfl⟩ := built
  have count : roots.length = s.validators.size := (mapM_eq_ok_iff.mp hashed).length_eq.symm
  have vOk : s.validatorsRoot? = .ok vRoot := by
    simp only [Snapshot.validatorsRoot?, Chunk.validatorsRoot?, Chunk.validatorsTree?_eq_ok_iff,
      bind_eq_ok_iff]
    exact ⟨roots, hashed, vTree, vBuilt, count ▸ vMixed⟩
  have bOk : s.balancesRoot? = .ok bRoot := by
    simp only [Snapshot.balancesRoot?, Chunk.balancesRoot?, Chunk.balancesTree?_eq_ok_iff,
      bind_eq_ok_iff]
    exact ⟨bTree, ⟨chunks, packed, bBuilt⟩, bMixed⟩
  have same := fieldRoots?_of_lists vOk bOk
  exact ⟨roots, chunks, fieldRoots, ⟨rfl, hashed, .of_ofLeaves? vBuilt vMixed, vOk, packed,
    .of_ofLeaves? bBuilt bMixed, bOk, same ▸ known, stateBuilt⟩⟩

/-- The root of a composer's state tree is the root of the state. -/
theorem Over.root? {c : Composer} {s : Snapshot} {roots fieldRoots : List ByteArray}
    {chunks : Array ByteArray} (trees : c.Over s roots chunks fieldRoots) :
    s.root? = .ok c.stateRoot :=
  Snapshot.root?_eq_ok_iff.mpr ⟨fieldRoots, c.stateTree, trees.fields, trees.state, rfl⟩

/-- A composer whose lists have roots is made of the tree of the state, and fails as it does. -/
theorem exists_ofSnapshot?_eq {s : Snapshot} {vRoot bRoot : ByteArray}
    (validators : s.validatorsRoot? = .ok vRoot) (balances : s.balancesRoot? = .ok bRoot) :
    ∃ make : Merkle.DenseTree → Composer, ofSnapshot? s = (s.tree? []).map make := by
  have same : s.fieldRoots? [((Limits.validatorsField : Nat), vRoot),
      ((Limits.balancesField : Nat), bRoot)] = s.fieldRoots? [] :=
    fieldRoots?_of_lists validators balances
  have known : s.tree? [((Limits.validatorsField : Nat), vRoot),
      ((Limits.balancesField : Nat), bRoot)] = s.tree? [] := by
    rw [Snapshot.tree?, same, Snapshot.tree?]
  simp only [Snapshot.validatorsRoot?, Chunk.validatorsRoot?, bind_eq_ok_iff] at validators
  simp only [Snapshot.balancesRoot?, Chunk.balancesRoot?, bind_eq_ok_iff] at balances
  obtain ⟨roots, rootsOk, vTree, vBuilt, vMixed⟩ := validators
  obtain ⟨bTree, bBuilt, bMixed⟩ := balances
  have count : roots.length = s.validators.size := (mapM_eq_ok_iff.mp rootsOk).length_eq.symm
  rw [count] at vMixed
  refine ⟨fun t => ⟨s, vTree.computeRoot.2, bTree.computeRoot.2, vRoot, bRoot, t⟩, ?_⟩
  simp only [ofSnapshot?, rootsOk, vBuilt, bBuilt, ok_bind]
  rw [show Merkle.mixInLength? vTree.computeRoot.1 s.validators.size = .ok vRoot from vMixed,
    show Merkle.mixInLength? bTree.computeRoot.1 s.balances.length = .ok bRoot from bMixed]
  simp only [ok_bind, known]
  rfl

/-- A state with a root has a composer. -/
theorem exists_ofSnapshot? {s : Snapshot} {root : ByteArray} (hashed : s.root? = .ok root) :
    ∃ c, ofSnapshot? s = .ok c := by
  obtain ⟨fieldRoots, state, all, built, -⟩ := Snapshot.root?_eq_ok_iff.mp hashed
  have tree : s.tree? [] = .ok state := bind_eq_ok_iff.mpr ⟨fieldRoots, all, built⟩
  rw [Snapshot.fieldRoots?_nil] at all
  obtain ⟨vRoot, -, validators⟩ := getElem?_of_mapM (i := 11) all rfl
  obtain ⟨bRoot, -, balances⟩ := getElem?_of_mapM (i := 12) all rfl
  obtain ⟨make, made⟩ := exists_ofSnapshot?_eq validators balances
  exact ⟨make state, made.trans (by rw [tree]; rfl)⟩

end Composer

end BeaconBranch
