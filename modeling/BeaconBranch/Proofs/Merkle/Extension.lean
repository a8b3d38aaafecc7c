import BeaconBranch.Proofs.Merkle.SparseRun

/-!
Deep trees over few leaves. Leaves that fit into a shallow tree lie below the leftmost node of its
height in every deeper one, and whatever stands beside the way up from that node is empty. So the
deeper tree is the shallow one with zero hashes on top: its root joins them on the right one after
another, and all its branches go on with them. Main statement: a sparse tree answers like this over
every dense tree that has room for its leaves, whatever it was asked before.
-/

namespace BeaconBranch.Merkle

/-! ### Chains of zero hashes -/

/-- A row has one node for each height up to a depth: first the zero chunk, and then the join of the
node before with itself. -/
structure HoldsZeros (deep : Nat) (row : Array ByteArray) : Prop where
  size : row.size = deep + 1
  first : row[0]? = some (Bytes.zeros 32)
  next : ∀ h < deep, ∃ below, row[h]? = some below ∧ row[h + 1]? = some (join below below)

theorem holdsZeros_zeroChain (deep : Nat) : HoldsZeros deep (zeroChain deep) := by
  rw [zeroChain_natCast]
  refine ⟨size_zeroHashes deep, ?_, fun h lt => ⟨zeroHash h, getElem?_zeroHashes (by omega), ?_⟩⟩
  · rw [getElem?_zeroHashes (Nat.zero_le deep), zeroHash_zero, zeroChunk]
  · rw [getElem?_zeroHashes lt, zeroHash_succ]

/-- The zero hashes from height `d` up to below height `deep`, cut from the chain of all of them. -/
def zerosAbove (d deep : Nat) : List ByteArray := ((zeroChain deep).extract d deep).toList

theorem zerosAbove_add (d n : Nat) : zerosAbove d (d + n) = (List.range' d n).map zeroHash := by
  have heights : ((List.range (d + n + 1)).drop d).take (d + n - d) = List.range' d n := by
    rw [← List.drop_take, List.take_range, Nat.min_eq_left (Nat.le_succ _), List.range_eq_range',
      List.drop_range', Nat.add_sub_cancel_left, Nat.zero_add, Nat.mul_one]
  rw [zerosAbove, zeroChain_natCast, Array.toList_extract, toList_zeroHashes,
    List.extract_eq_take_drop, ← List.map_drop, ← List.map_take, heights]

/-! ### The leftmost way up -/

/-- A way up from the leftmost node joins every sibling on the right. -/
theorem climb_zero (b : ByteArray) (xs : List ByteArray) : climb b 0 xs = xs.foldl join b := by
  induction xs generalizing b with
  | nil => rfl
  | cons x xs ih =>
    rw [← Int.natCast_zero, climb_cons, if_pos (Nat.zero_mod 2), Nat.zero_div, Int.natCast_zero, ih,
      List.foldl_cons]

/-- No leaf is set from a position on. -/
def EmptyFrom (leaf : Nat → ByteArray) (n : Nat) : Prop := ∀ i, n ≤ i → leaf i = zeroChunk

section Leftmost

variable {leaf : Nat → ByteArray} {d : Nat}

/-- Beside the leftmost way up there are empty trees only, once it is above all leaves. -/
theorem branchOver_leftmost (empty : EmptyFrom leaf (twoTo d)) {h : Nat} (le : d ≤ h) (n : Nat) :
    branchOver leaf h n 0 = (List.range' h n).map zeroHash := by
  induction n generalizing h with
  | zero => rfl
  | succ n ih =>
    have wide : twoTo d ≤ 1 * twoTo h := by
      rw [Nat.one_mul]
      exact twoTo_le le
    -- The sibling stands over the leaves from `2 ^ h` on, which are behind all that are set.
    have beside : nodeOver leaf h (0 ^^^ 1) = zeroHash h :=
      nodeOver_eq_zeroHash fun i ge _ => empty i (Nat.le_trans wide ge)
    rw [branchOver, beside, Nat.zero_div, ih (by omega), List.range'_succ, List.map_cons]

/-- The root of a deeper tree is where the way up from the shallow one ends. -/
theorem nodeOver_deeper (empty : EmptyFrom leaf (twoTo d)) (n : Nat) :
    nodeOver leaf (d + n) 0 = (zerosAbove d (d + n)).foldl join (nodeOver leaf d 0) := by
  have top := climb_branchOver leaf d n 0
  rw [Nat.zero_div, Int.natCast_zero, climb_zero, branchOver_leftmost empty (Nat.le_refl d),
    ← zerosAbove_add] at top
  exact top.symm

/-- The branch of a leaf in a deeper tree goes on with the way up from the shallow root. -/
theorem branchOver_deeper (empty : EmptyFrom leaf (twoTo d)) (n : Nat) {i : Nat}
    (lt : i < twoTo d) :
    branchOver leaf 0 (d + n) i = branchOver leaf 0 d i ++ zerosAbove d (d + n) := by
  rw [branchOver_add, Nat.div_eq_of_lt lt, Nat.zero_add,
    branchOver_leftmost empty (Nat.le_refl d), zerosAbove_add]

end Leftmost

/-! ### Trees that are only asked -/

/-- A call that sets no leaf. -/
def SparseCall.Asks : SparseCall → Prop
  | .set _ _ => False
  | .get _ | .root | .branch _ => True

namespace SparseTree

/-- A tree answers as a shallower one with nodes on top of it: they are joined to its root, one
after another on the right, and each of its branches goes on with them. -/
structure Extends (t : SparseTree) (shallow : DenseTree) (above : List ByteArray) : Prop where
  root : (t.call .root).1 = .chunk (above.foldl join shallow.root)
  branch : ∀ i : Nat, i < twoTo shallow.depth → ∃ siblings, shallow.branch? i = .ok siblings ∧
    (t.call (.branch i)).1 = .branch (.ok (siblings ++ above))

variable {t : SparseTree}

theorem leafAt_call_of_asks {c : SparseCall} (asks : c.Asks) : (t.call c).2.leafAt = t.leafAt := by
  cases c with
  | set index v => exact asks.elim
  | get index | root => rfl
  | branch index => exact funext (leafAt_computeBranch? index)

/-- A tree that is only asked keeps its leaves. -/
theorem leafAt_run_of_asks {calls : List SparseCall} (asks : ∀ c ∈ calls, c.Asks) :
    (t.run calls).2.leafAt = t.leafAt := by
  induction calls generalizing t with
  | nil => rfl
  | cons c rest ih =>
    calc (t.run (c :: rest)).2.leafAt
      _ = (t.call c).2.leafAt := ih fun x mem => asks x (List.mem_cons_of_mem _ mem)
      _ = t.leafAt := leafAt_call_of_asks (asks c List.mem_cons_self)

/-- A sound tree extends a dense tree over its leaves that is not deeper. -/
theorem Sound.extends (sound : t.Sound) {leaves : List ByteArray}
    (leafAt : t.leafAt = fun p => leaves.getD p zeroChunk) {d n : Nat} (deep : t.depth = d + n)
    (room : leaves.length ≤ twoTo d) {shallow : DenseTree}
    (built : DenseTree.ofLeaves? leaves.toArray d = .ok shallow) (depth : shallow.depth = d) :
    t.Extends shallow (zerosAbove d (d + n)) := by
  have same : DenseTree.leafOf leaves.toArray = t.leafAt := by
    rw [leafAt, ← DenseTree.getD_toList_eq_leafOf]
  have empty : EmptyFrom t.leafAt (twoTo d) := fun i ge => by
    rw [← same]
    exact DenseTree.leafOf_of_le (Nat.le_trans room ge)
  have rootShallow := DenseTree.root_of_ofLeaves? built
  rw [same, depth] at rootShallow
  refine ⟨?_, fun i lt => ⟨_, DenseTree.branch?_of_ofLeaves? built lt, ?_⟩⟩
  · rw [call, computeRoot_fst sound, deep, nodeOver_deeper empty, rootShallow]
  · rw [depth] at lt
    have inside : i < t.capacity := by
      rw [capacity, deep]
      exact Nat.lt_of_lt_of_le lt (twoTo_le (Nat.le_add_right d n))
    rw [call, computeBranch?_fst sound inside, same, depth, deep, branchOver_deeper empty n lt]

/-- Deep trees extend shallow ones by the chain of zero hashes. Whatever a sparse tree over a list
of leaves was asked before, its root is the root of a dense tree with room for them, joined with the
zero hashes between their depths, and these stand behind each branch of the dense tree. -/
theorem deep_extends_shallow {d deep : Nat} (le : d ≤ deep) {leaves : List ByteArray}
    (sizes : ∀ b ∈ leaves, b.size = 32) (room : leaves.length ≤ twoTo d) :
    HoldsZeros deep (zeroChain deep) ∧
      ∃ t shallow, ofLeaves? deep leaves = .ok t ∧
        DenseTree.ofLeaves? leaves.toArray d = .ok shallow ∧ shallow.depth = d ∧
        ∀ calls : List SparseCall, (∀ c ∈ calls, c.Asks) →
          (t.run calls).2.Extends shallow (zerosAbove d deep) := by
  obtain ⟨n, rfl⟩ := Nat.exists_eq_add_of_le le
  have roomDeep : leaves.length ≤ twoTo (d + n) := Nat.le_trans room (twoTo_le le)
  obtain ⟨t, built, sound, depth, leafAt⟩ := exists_ofLeaves? sizes roomDeep
  have sizesArray : ∀ b ∈ leaves.toArray, b.size = 32 := by simpa using sizes
  obtain ⟨shallow, builtShallow, depthShallow⟩ := DenseTree.exists_ofLeaves? sizesArray room
  refine ⟨holdsZeros_zeroChain _, t, shallow, built, builtShallow, depthShallow,
    fun calls asks => ?_⟩
  obtain ⟨soundEnd, depthEnd, -⟩ := run_spec sound calls
  exact soundEnd.extends ((leafAt_run_of_asks asks).trans leafAt) (depthEnd.trans depth) room
    builtShallow depthShallow

/-- Two leaves in a tree of seventy levels, deeper than the lowest zero hashes reach. -/
theorem deep_extends_shallow_seventy :
    let leaves := [Bytes.ofNatLE 32 7, Bytes.ofNatLE 32 8]
    let calls : List SparseCall := [.branch 1, .root, .get 5, .branch 70]
    1 ≤ 70 ∧ (∀ b ∈ leaves, b.size = 32) ∧ leaves.length ≤ twoTo 1 ∧ (∀ c ∈ calls, c.Asks) ∧
      HoldsZeros 70 (zeroChain (70 : Nat)) ∧
      ∃ t shallow, ofLeaves? (70 : Nat) leaves = .ok t ∧
        DenseTree.ofLeaves? leaves.toArray (1 : Nat) = .ok shallow ∧ shallow.depth = 1 ∧
        (t.run calls).2.Extends shallow (zerosAbove 1 70) := by
  intro leaves calls
  have le : 1 ≤ 70 := by decide
  have sizes : ∀ b ∈ leaves, b.size = 32 := by simp [leaves]
  have room : leaves.length ≤ twoTo 1 := by decide
  have asks : ∀ c ∈ calls, c.Asks := by simp [calls, SparseCall.Asks]
  obtain ⟨chain, t, shallow, built, builtShallow, depth, answers⟩ :=
    deep_extends_shallow le sizes room
  exact ⟨le, sizes, room, asks, chain, t, shallow, built, builtShallow, depth, answers calls asks⟩

end SparseTree

end BeaconBranch.Merkle
