import BeaconBranch.Proofs.Merkle.Dense
import BeaconBranch.Proofs.Merkle.Sparse

/-!
Sparse trees over whole runs. Calls are made one after another on one tree, in any order and with
any arguments, and each is answered; what the tree knows of its inner nodes, and positions that
stay listed after a refused write, go from call to call. The leaves of a run are told by its
answers alone: a position holds what was last stored there successfully. Main statement: after
every run a sparse tree answers as the dense tree over these leaves.
-/

namespace BeaconBranch.Merkle

/-- A call on a sparse tree. -/
inductive SparseCall
  | set (index : Int) (leaf : ByteArray)
  | get (index : Int)
  | root
  | branch (index : Int)

/-- The answer to a call. -/
inductive SparseAnswer
  | written (outcome : Except Fault Unit)
  | chunk (b : ByteArray)
  | branch (outcome : Except Fault (List ByteArray))

namespace SparseTree

/-- Answers a call, and gives the tree that the next call is made on. -/
def call (t : SparseTree) : SparseCall → SparseAnswer × SparseTree
  | .set index v => (.written (t.set index v).1, (t.set index v).2)
  | .get index => (.chunk (t.get index), t)
  | .root => (.chunk t.computeRoot.1, t.computeRoot.2)
  | .branch index => (.branch (t.computeBranch? index).1, (t.computeBranch? index).2)

/-- The calls of a run with their answers, and the tree at its end. -/
def run (t : SparseTree) : List SparseCall → List (SparseCall × SparseAnswer) × SparseTree
  | [] => ([], t)
  | c :: rest =>
    let (answer, t) := t.call c
    let (answers, t) := run t rest
    ((c, answer) :: answers, t)

/-- The leaves after an answered call: only a write that was not refused stores something. -/
def storeAnswered (leaf : Nat → ByteArray) : SparseCall × SparseAnswer → Nat → ByteArray
  | (.set index v, .written (.ok ())) => storeLeaf leaf index v
  | _ => leaf

/-- The leaves after a run that started with a mapping: at each position the value that was last
stored successfully, and the zero chunk where there is none. -/
def lastStored (entries : List (Int × ByteArray)) (answered : List (SparseCall × SparseAnswer)) :
    Nat → ByteArray :=
  answered.foldl storeAnswered (leavesOf entries)

/-- A sparse tree answers as a dense one over the given leaves, and has no branch outside of it. -/
structure AnswersAs (t : SparseTree) (dense : DenseTree) (leaf : Nat → ByteArray) : Prop where
  root : (t.call .root).1 = .chunk dense.root
  branch : ∀ i : Int, 0 ≤ i → i < twoTo dense.depth →
    ∃ siblings, dense.branch? i = .ok siblings ∧ (t.call (.branch i)).1 = .branch (.ok siblings)
  outside : ∀ i : Int, ¬(0 ≤ i ∧ i < twoTo dense.depth) →
    ∃ f, f.kind = .indexOutOfRange ∧ (t.call (.branch i)).1 = .branch (.error f)
  get : ∀ j : Nat, j < twoTo dense.depth → (t.call (.get j)).1 = .chunk (leaf j)

variable {t : SparseTree}

/-- A call leaves the tree sound and as deep as it was, and its leaves are those that the answer
tells. -/
theorem call_spec (sound : t.Sound) (c : SparseCall) :
    (t.call c).2.Sound ∧ (t.call c).2.depth = t.depth ∧
      (t.call c).2.leafAt = storeAnswered t.leafAt (c, (t.call c).1) := by
  cases c with
  | set index v =>
    refine ⟨sound_set sound index v, depth_set index v, funext fun p => ?_⟩
    simp only [call]
    by_cases ok : Accepts t.depth index v
    · obtain ⟨done, leaves⟩ := set_of_accepts ok
      rw [done, leaves]
      rfl
    · obtain ⟨⟨f, refused⟩, leaves⟩ := set_of_not_accepts ok
      rw [refused, leaves]
      rfl
  | get index => exact ⟨sound, rfl, rfl⟩
  | root => exact ⟨sound_computeRoot sound, rfl, rfl⟩
  | branch index =>
    exact ⟨sound_computeBranch? sound index, depth_computeBranch? index,
      funext (leafAt_computeBranch? index)⟩

/-- What a call keeps, a run keeps. -/
theorem run_spec (sound : t.Sound) (calls : List SparseCall) :
    (t.run calls).2.Sound ∧ (t.run calls).2.depth = t.depth ∧
      (t.run calls).2.leafAt = (t.run calls).1.foldl storeAnswered t.leafAt := by
  induction calls generalizing t with
  | nil => exact ⟨sound, rfl, rfl⟩
  | cons c rest ih =>
    obtain ⟨soundNext, depthNext, leavesNext⟩ := call_spec sound c
    obtain ⟨soundEnd, depthEnd, leavesEnd⟩ := ih soundNext
    refine ⟨soundEnd, depthEnd.trans depthNext, ?_⟩
    rw [leavesNext] at leavesEnd
    exact leavesEnd

/-- The dense tree over the leaves of a sound tree can be built. -/
theorem exists_dense (sound : t.Sound) :
    ∃ dense, DenseTree.ofLeaves? (Array.ofFn fun j : Fin (twoTo t.depth) => t.leafAt j) t.depth =
        .ok dense ∧ dense.depth = t.depth ∧ dense.root = nodeOver t.leafAt t.depth 0 ∧
      ∀ i : Nat, i < twoTo t.depth → dense.branch? i = .ok (branchOver t.leafAt 0 t.depth i) := by
  have sizes : ∀ b ∈ Array.ofFn fun j : Fin (twoTo t.depth) => t.leafAt j, b.size = 32 := by
    intro b mem
    obtain ⟨j, rfl⟩ := Array.mem_ofFn.mp mem
    exact size_leafAt sound j
  obtain ⟨dense, built, depth⟩ := DenseTree.exists_ofLeaves? sizes (d := t.depth) (by simp)
  have same : ∀ i, i < twoTo t.depth →
      DenseTree.leafOf (Array.ofFn fun j : Fin (twoTo t.depth) => t.leafAt j) i = t.leafAt i := by
    intro i lt
    simp [DenseTree.leafOf, lt]
  refine ⟨dense, built, depth, ?_, fun i lt => ?_⟩
  · rw [DenseTree.root_of_ofLeaves? built, depth]
    exact rootOver_congr same
  · rw [DenseTree.branch?_of_ofLeaves? built (depth.symm ▸ lt), depth]
    exact congrArg Except.ok (branchOver_congr same (Nat.zero_add _) lt)

/-- A sparse tree refines the dense tree over whole runs: whatever calls were made before, and
whichever of them were refused, it answers as the dense tree over the leaves last stored. -/
theorem run_refines_dense (d : Nat) (entries : List (Int × ByteArray))
    (fit : ∀ e ∈ entries, Accepts d e.1 e.2) (calls : List SparseCall) :
    ∃ t dense, ofMapping? d entries = .ok t ∧
      DenseTree.ofLeaves?
        (Array.ofFn fun j : Fin (twoTo d) => lastStored entries (t.run calls).1 j) d = .ok dense ∧
      dense.depth = d ∧ AnswersAs (t.run calls).2 dense (lastStored entries (t.run calls).1) := by
  obtain ⟨t, built, sound, depth, leaves, -⟩ := ofMapping?_spec fit
  obtain ⟨soundEnd, depthEnd, leavesEnd⟩ := run_spec sound calls
  have stored : (t.run calls).2.leafAt = lastStored entries (t.run calls).1 := by
    rw [leavesEnd, leaves, lastStored]
  have deep : (t.run calls).2.depth = d := depthEnd.trans depth
  obtain ⟨dense, builtDense, depthDense, rootDense, branchDense⟩ := exists_dense soundEnd
  rw [deep] at depthDense
  rw [deep, stored] at builtDense rootDense branchDense
  have size : (t.run calls).2.capacity = twoTo dense.depth := by rw [capacity, deep, depthDense]
  refine ⟨t, dense, built, builtDense, depthDense, ?_, fun i ge lt => ?_, fun i outside => ?_,
    fun j lt => ?_⟩
  · rw [call, computeRoot_fst soundEnd, deep, stored, rootDense]
  · obtain ⟨i, rfl⟩ := Int.eq_ofNat_of_zero_le ge
    have lt' : i < twoTo dense.depth := by omega
    have branch := computeBranch?_fst soundEnd (size ▸ lt')
    rw [deep, stored] at branch
    exact ⟨_, branchDense i (depthDense ▸ lt'), congrArg SparseAnswer.branch branch⟩
  · have refused := computeBranch?_outside (t := (t.run calls).2) (i := i) (by rwa [size])
    exact ⟨_, rfl, congrArg SparseAnswer.branch (congrArg Prod.fst refused)⟩
  · have leaf : (t.run calls).2.leafAt j = lastStored entries (t.run calls).1 j := by rw [stored]
    rw [← leaf, call, get_natCast]

/-- A run on eight leaves in which a root is asked for before a write that is refused, and again
after it. -/
theorem run_refines_dense_refused_write :
    let entries := [((5 : Int), Bytes.ofNatLE 32 7), (2, Bytes.ofNatLE 32 8)]
    let calls :=
      [.root, .set 6 (Bytes.ofNatLE 31 9), .branch 6, .branch 8, .set 1 (Bytes.ofNatLE 32 9)]
    (∀ e ∈ entries, Accepts 3 e.1 e.2) ∧ ∃ t dense, ofMapping? (3 : Nat) entries = .ok t ∧
      DenseTree.ofLeaves?
        (Array.ofFn fun j : Fin (twoTo 3) => lastStored entries (t.run calls).1 j) (3 : Nat) =
          .ok dense ∧
      dense.depth = 3 ∧ AnswersAs (t.run calls).2 dense (lastStored entries (t.run calls).1) := by
  intro entries calls
  have fit : ∀ e ∈ entries, Accepts 3 e.1 e.2 := by
    simp only [entries, List.forall_mem_cons, Accepts, Bytes.size_ofNatLE]
    decide
  exact ⟨fit, run_refines_dense 3 entries fit calls⟩

end SparseTree

end BeaconBranch.Merkle
