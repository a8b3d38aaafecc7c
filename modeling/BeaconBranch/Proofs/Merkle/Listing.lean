import BeaconBranch.Proofs.Merkle.SparseRun

/-!
Which positions a sparse tree lists. A write lists its position before it looks at the leaf, so a
leaf of a wrong size at a position that holds nothing leaves the position listed, and every later
write there lists it once more. Nothing else strays from the stored leaves, and no root, branch or
leaf is read from such a position. Main statement: the row after a run consists of the stored
positions and of the strays of the run, and a refused write changes a tree by its stray only.
-/

namespace BeaconBranch.Merkle.SparseTree

/-- The position that a call leaves listed without a leaf: one inside the tree where nothing is
stored, at which a leaf of a wrong size was to be set. -/
def stray? (t : SparseTree) : SparseCall → Option Nat
  | .set index v =>
    if 0 ≤ index ∧ index < t.capacity ∧ v.size ≠ 32 ∧ index.toNat ∉ t.leaves then
      some index.toNat
    else none
  | _ => none

/-- The strays of a run, in the order of its calls. -/
def strays (t : SparseTree) : List SparseCall → List Nat
  | [] => []
  | c :: rest => (t.stray? c).toList ++ strays (t.call c).2 rest

/-- The row is sorted and lists each stored position once, and the given ones besides. -/
structure Listing (t : SparseTree) (besides : List Nat) : Prop where
  sorted : t.indices.Pairwise (· ≤ ·)
  listed : t.indices.Perm (t.leaves.keys ++ besides)

/-- The row is strictly increasing and lists the stored positions and no other. -/
structure ListsExactly (t : SparseTree) : Prop where
  increasing : t.indices.Pairwise (· < ·)
  stored : ∀ p, p ∈ t.indices ↔ p ∈ t.leaves

/-- Two trees answer every question alike. -/
structure AnswersAlike (t u : SparseTree) : Prop where
  get : ∀ index, u.get index = t.get index
  root : u.computeRoot.1 = t.computeRoot.1
  branch : ∀ index, (u.computeBranch? index).1 = (t.computeBranch? index).1

variable {t : SparseTree} {besides : List Nat}

/-! ### Stored positions -/

/-- A leaf that replaces one stores nothing at a new position. -/
theorem keys_insert_of_mem {m : Std.HashMap Nat ByteArray} {i : Nat} (mem : i ∈ m)
    (v : ByteArray) : (m.insert i v).keys.Perm m.keys := by
  refine (List.perm_ext_iff_of_nodup Std.HashMap.nodup_keys Std.HashMap.nodup_keys).mpr fun j => ?_
  rw [Std.HashMap.mem_keys, Std.HashMap.mem_keys, Std.HashMap.mem_insert, beq_iff_eq]
  exact or_iff_right_of_imp fun same => same ▸ mem

theorem keys_insert_of_not_mem {m : Std.HashMap Nat ByteArray} {i : Nat} (absent : i ∉ m)
    (v : ByteArray) : (m.insert i v).keys.Perm (i :: m.keys) := by
  have fresh : (i :: m.keys).Nodup :=
    List.nodup_cons.mpr ⟨fun mem => absent (Std.HashMap.mem_keys.mp mem), Std.HashMap.nodup_keys⟩
  refine (List.perm_ext_iff_of_nodup Std.HashMap.nodup_keys fresh).mpr fun j => ?_
  rw [Std.HashMap.mem_keys, List.mem_cons, Std.HashMap.mem_keys, Std.HashMap.mem_insert,
    beq_iff_eq, eq_comm]

theorem perm_insertIndex {row : Array Nat} (sorted : row.toList.Pairwise (· ≤ ·)) (i : Nat) :
    (insertIndex i row).toList.Perm (i :: row.toList) := by
  obtain ⟨front, back, split, -, -, whole⟩ := toList_insertIndex sorted i
  rw [whole, split]
  exact List.perm_middle

/-! ### What a listing determines -/

/-- Sorted lists of the same positions are equal. -/
theorem Listing.indices_eq (listing : t.Listing besides) :
    t.indices = (t.leaves.keys ++ besides).mergeSort := by
  have sorted : ((t.leaves.keys ++ besides).mergeSort).Pairwise (· ≤ ·) :=
    List.pairwise_mergeSort' (· ≤ ·) _
  exact List.Perm.eq_of_pairwise (fun _ _ _ _ => Nat.le_antisymm) listing.sorted sorted
    (listing.listed.trans (List.mergeSort_perm _ _).symm)

theorem Listing.size_eq (listing : t.Listing besides) :
    t.row.size = t.leaves.size + besides.length := by
  have length := listing.listed.length_eq
  rwa [List.length_append, Std.HashMap.length_keys] at length

/-- A row is exact as long as nothing strayed into it. -/
theorem Listing.listsExactly_iff (listing : t.Listing besides) :
    t.ListsExactly ↔ besides = [] := by
  constructor
  · rintro ⟨increasing, stored⟩
    have nodup : (t.leaves.keys ++ besides).Nodup :=
      listing.listed.nodup_iff.mp (increasing.imp Nat.ne_of_lt)
    refine List.eq_nil_iff_forall_not_mem.mpr fun p mem => ?_
    have there : p ∈ t.indices := listing.listed.mem_iff.mpr (List.mem_append_right _ mem)
    have key : p ∈ t.leaves.keys := Std.HashMap.mem_keys.mpr ((stored p).mp there)
    exact (List.nodup_append.mp nodup).2.2 p key p mem rfl
  · rintro rfl
    have listed := listing.listed
    rw [List.append_nil] at listed
    have nodup : t.indices.Nodup := listed.nodup_iff.mpr Std.HashMap.nodup_keys
    refine ⟨List.Pairwise.imp₂ (fun _ _ => Nat.lt_of_le_of_ne) listing.sorted nodup, fun p => ?_⟩
    rw [listed.mem_iff, Std.HashMap.mem_keys]

/-! ### One call -/

/-- What a write can do: the position is outside the tree; or it holds a leaf, which is replaced by
a chunk and kept otherwise; or it holds none, and is listed before the new leaf is looked at. -/
inductive Writing (t : SparseTree) (index : Int) (v : ByteArray) : Prop
  | outside (range : index < 0 ∨ t.capacity ≤ index) (stray : t.stray? (.set index v) = none)
    (eq : t.set index v = (.error (.indexOutOfRange "leaf" index t.capacity), t))
  | kept (p : Nat) (position : index = p) (mem : p ∈ t.leaves) (size : v.size ≠ 32)
    (stray : t.stray? (.set index v) = none)
    (eq : t.set index v = (.error (.wrongLeafSize v.size), t))
  | strayed (p : Nat) (position : index = p) (absent : p ∉ t.leaves) (size : v.size ≠ 32)
    (stray : t.stray? (.set index v) = some p)
    (eq : t.set index v = (.error (.wrongLeafSize v.size),
      ⟨t.depth, t.leaves, insertIndex p t.row, t.nodes⟩))
  | replaced (p : Nat) (position : index = p) (mem : p ∈ t.leaves) (size : v.size = 32)
    (stray : t.stray? (.set index v) = none)
    (eq : t.set index v = (.ok (), ⟨t.depth, t.leaves.insert p v, t.row, ∅⟩))
  | stored (p : Nat) (position : index = p) (absent : p ∉ t.leaves) (size : v.size = 32)
    (stray : t.stray? (.set index v) = none)
    (eq : t.set index v = (.ok (), ⟨t.depth, t.leaves.insert p v, insertIndex p t.row, ∅⟩))

/-- A write inside the tree. -/
theorem set_inside {p : Nat} (lt : p < t.capacity) (v : ByteArray) :
    t.set p v =
      let listed := if p ∈ t.leaves then t.row else insertIndex p t.row
      if v.size ≠ 32 then (.error (.wrongLeafSize v.size), ⟨t.depth, t.leaves, listed, t.nodes⟩)
      else (.ok (), ⟨t.depth, t.leaves.insert p v, listed, ∅⟩) := by
  rw [set, if_neg (by omega)]
  rfl

theorem writing (t : SparseTree) (index : Int) (v : ByteArray) : t.Writing index v := by
  by_cases outside : index < 0 ∨ t.capacity ≤ index
  · exact .outside outside (if_neg (by omega)) (by rw [set, if_pos outside])
  · obtain ⟨p, rfl⟩ := Int.eq_ofNat_of_zero_le (a := index) (by omega)
    have set_eq := set_inside (t := t) (p := p) (by omega) v
    dsimp only at set_eq
    by_cases mem : p ∈ t.leaves
    · rw [if_pos mem] at set_eq
      have stray : t.stray? (.set p v) = none := if_neg fun h => h.2.2.2 mem
      by_cases size : v.size = 32
      · exact .replaced p rfl mem size stray (set_eq.trans (if_neg (not_not_intro size)))
      · exact .kept p rfl mem size stray (set_eq.trans (if_pos size))
    · rw [if_neg mem] at set_eq
      by_cases size : v.size = 32
      · exact .stored p rfl mem size (if_neg fun h => absurd size h.2.2.1)
          (set_eq.trans (if_neg (not_not_intro size)))
      · exact .strayed p rfl mem size (if_pos ⟨by omega, by omega, size, mem⟩)
          (set_eq.trans (if_pos size))

/-- A write lists its position unless a leaf is stored there, whether the leaf is taken or not. -/
theorem Listing.set (listing : t.Listing besides) (index : Int) (v : ByteArray) :
    (t.set index v).2.Listing (besides ++ (t.stray? (.set index v)).toList) := by
  have sortedMore := sorted_insertIndex listing.sorted
  have listedMore : ∀ p, (insertIndex p t.row).toList.Perm (p :: (t.leaves.keys ++ besides)) :=
    fun p => (perm_insertIndex listing.sorted p).trans (listing.listed.cons p)
  cases t.writing index v with
  | outside _ stray eq | kept _ _ _ _ stray eq =>
    rw [stray, eq, Option.toList_none, List.append_nil]
    exact listing
  | strayed p _ _ _ stray eq =>
    rw [stray, eq, Option.toList_some]
    refine ⟨sortedMore p, (listedMore p).trans ?_⟩
    rw [← List.append_assoc]
    exact (List.perm_append_singleton _ _).symm
  | replaced p _ mem _ stray eq =>
    rw [stray, eq, Option.toList_none, List.append_nil]
    exact ⟨listing.sorted,
      listing.listed.trans ((keys_insert_of_mem mem v).symm.append_right besides)⟩
  | stored p _ absent _ stray eq =>
    rw [stray, eq, Option.toList_none, List.append_nil]
    exact ⟨sortedMore p,
      (listedMore p).trans ((keys_insert_of_not_mem absent v).symm.append_right besides)⟩

/-- A call adds its stray to a listing; only a write has one. -/
theorem Listing.call (listing : t.Listing besides) (c : SparseCall) :
    (t.call c).2.Listing (besides ++ (t.stray? c).toList) := by
  have same : t.Listing (besides ++ []) := by rwa [List.append_nil]
  cases c with
  | set index v => exact listing.set index v
  | get index => exact same
  | root => exact ⟨same.sorted, same.listed⟩
  | branch index =>
    simp only [SparseTree.call, computeBranch?]
    split
    · exact same
    · exact ⟨same.sorted, same.listed⟩

/-- What is answered depends on the depth and the leaves of a tree only. -/
theorem answersAlike_of_leaves {u : SparseTree} (sound : t.Sound) (soundOther : u.Sound)
    (depth : u.depth = t.depth) (leaves : u.leaves = t.leaves) : AnswersAlike t u := by
  have leafAt : u.leafAt = t.leafAt := by
    funext p
    rw [SparseTree.leafAt, leaves, ← SparseTree.leafAt]
  have capacity : u.capacity = t.capacity := by
    rw [SparseTree.capacity, depth, ← SparseTree.capacity]
  refine ⟨fun index => ?_, ?_, fun index => ?_⟩
  · rw [SparseTree.get, leaves, ← SparseTree.get]
  · rw [computeRoot_fst sound, computeRoot_fst soundOther, depth, leafAt]
  · by_cases inside : 0 ≤ index ∧ index < t.capacity
    · obtain ⟨i, rfl⟩ := Int.eq_ofNat_of_zero_le inside.1
      have lt : i < t.capacity := by omega
      rw [computeBranch?_fst sound lt, computeBranch?_fst soundOther (capacity ▸ lt), depth, leafAt]
    · rw [computeBranch?_outside inside, computeBranch?_outside (capacity ▸ inside), capacity]

/-- A refused write changes at most the row, and no answer. -/
theorem answersAlike_of_refused (sound : t.Sound) {index : Int} {v : ByteArray} {f : Fault}
    (refused : (t.set index v).1 = .error f) : AnswersAlike t (t.set index v).2 := by
  refine answersAlike_of_leaves sound (sound_set sound index v) (depth_set index v) ?_
  cases t.writing index v with
  | outside _ _ eq | kept _ _ _ _ _ eq | strayed _ _ _ _ _ eq => rw [eq]
  | replaced _ _ _ _ _ eq | stored _ _ _ _ _ eq => rw [eq] at refused; cases refused

/-! ### Runs -/

/-- A tree that was just built lists its leaves. -/
theorem listing_ofMapping? {depth : Int} {entries : List (Int × ByteArray)}
    (built : ofMapping? depth entries = .ok t) : t.Listing [] := by
  rw [ofMapping?] at built
  split at built
  · cases built
  · obtain ⟨checked, -, ok⟩ := Outcome.bind_eq_ok_iff.mp built
    cases ok
    refine ⟨List.pairwise_mergeSort' (· ≤ ·) _, ?_⟩
    rw [List.append_nil]
    exact List.mergeSort_perm _ _

/-- What one call adds to a listing, a run adds for each of its calls. -/
theorem Listing.run (listing : t.Listing besides) (calls : List SparseCall) :
    (t.run calls).2.Listing (besides ++ t.strays calls) := by
  induction calls generalizing t besides with
  | nil => rwa [strays, List.append_nil]
  | cons c rest ih =>
    have next := ih (listing.call c)
    rwa [List.append_assoc] at next

/-- What a refused write does: nothing that an answer shows, and to the row nothing but its
stray. -/
structure Refusal (t : SparseTree) (index : Int) (v : ByteArray) : Prop where
  answers : AnswersAlike t (t.set index v).2
  unchanged : t.stray? (.set index v) = none → (t.set index v).2 = t
  listed : ∀ p, t.stray? (.set index v) = some p →
    index = p ∧ p ∉ t.leaves ∧ v.size ≠ 32 ∧ (t.set index v).2.indices.Perm (p :: t.indices)

theorem refusal_of_refused (sound : t.Sound) {index : Int} {v : ByteArray} {f : Fault}
    (refused : (t.set index v).1 = .error f) : t.Refusal index v := by
  refine ⟨answersAlike_of_refused sound refused, fun none => ?_, fun p some => ?_⟩
  · cases t.writing index v with
    | outside _ _ eq | kept _ _ _ _ _ eq => rw [eq]
    | strayed _ _ _ _ stray _ => rw [stray] at none; cases none
    | replaced _ _ _ _ _ eq | stored _ _ _ _ _ eq => rw [eq] at refused; cases refused
  · cases t.writing index v with
    | outside _ stray _ | kept _ _ _ _ stray _ | replaced _ _ _ _ stray _
    | stored _ _ _ _ stray _ => rw [stray] at some; cases some
    | strayed q position absent size stray eq =>
      obtain rfl : q = p := Option.some.inj (stray.symm.trans some)
      rw [eq]
      exact ⟨position, absent, size, perm_insertIndex sound.sorted q⟩

/-- After every run from a mapping the row of a sparse tree is the sorted row of its stored
positions and of the run's strays, so that it is exact if and only if nothing strayed; and a write
that is refused then changes no answer, and the row by its own stray only. -/
theorem index_row_after_run {depth : Int} {entries : List (Int × ByteArray)}
    (built : ofMapping? depth entries = .ok t) (calls : List SparseCall) :
    let u := (t.run calls).2
    u.indices = (u.leaves.keys ++ t.strays calls).mergeSort ∧
      u.row.size = u.leaves.size + (t.strays calls).length ∧
      (u.ListsExactly ↔ t.strays calls = []) ∧
      ∀ index v f, (u.set index v).1 = .error f → u.Refusal index v := by
  intro u
  have listing : u.Listing (t.strays calls) := (listing_ofMapping? built).run calls
  have sound : u.Sound := by
    obtain ⟨ge, fit⟩ := accepts_of_ofMapping? built
    obtain ⟨t', built', sound, -⟩ := ofMapping?_spec fit
    rw [Int.toNat_of_nonneg ge] at built'
    obtain rfl : t = t' := Except.ok.inj (built.symm.trans built')
    exact (run_spec sound calls).1
  exact ⟨listing.indices_eq, listing.size_eq, listing.listsExactly_iff,
    fun _ _ _ refused => refusal_of_refused sound refused⟩

/-- The empty tree with eight leaves. -/
def emptyEight : SparseTree := ⟨3, ∅, #[], ∅⟩

theorem ofMapping?_emptyEight : ofMapping? 3 [] = .ok emptyEight := by
  simp [ofMapping?, emptyEight, leafMap]

/-- A leaf of one byte is refused, and its position stays listed. -/
theorem set_emptyEight :
    emptyEight.set 2 (Bytes.zeros 1) = (.error (.wrongLeafSize 1), ⟨3, ∅, #[2], ∅⟩) := by
  have set_eq := set_inside (t := emptyEight) (p := 2) (by decide) (Bytes.zeros 1)
  rw [if_neg (show 2 ∉ emptyEight.leaves from Std.HashMap.not_mem_empty),
    show insertIndex 2 emptyEight.row = #[2] by simp [insertIndex, emptyEight, bisect]] at set_eq
  rw [Bytes.size_zeros, if_pos (by decide)] at set_eq
  exact set_eq

/-- A run in which the refused leaf is followed by a good one at its position, and by another
refused one elsewhere. -/
theorem index_row_after_run_short_leaf :
    let calls := [.set 2 (Bytes.zeros 1), .set 2 zeroChunk]
    let u := (emptyEight.run calls).2
    ofMapping? 3 [] = .ok emptyEight ∧ emptyEight.strays calls = [2] ∧ ¬u.ListsExactly ∧
      u.indices = (u.leaves.keys ++ [2]).mergeSort ∧
      ∃ f, (u.set 5 (Bytes.zeros 1)).1 = .error f ∧ u.Refusal 5 (Bytes.zeros 1) := by
  intro calls u
  have strays : emptyEight.strays calls = [2] := by
    simp [calls, SparseTree.strays, stray?, call, Bytes.size_zeros, emptyEight,
      capacity, twoTo]
  obtain ⟨row, -, exact_iff, refusals⟩ := index_row_after_run ofMapping?_emptyEight calls
  rw [strays] at row exact_iff
  have bad : ¬Accepts u.depth 5 (Bytes.zeros 1) := fun ok =>
    absurd ok.2.2 (by rw [Bytes.size_zeros]; decide)
  obtain ⟨f, refused⟩ := (set_of_not_accepts bad).1
  exact ⟨ofMapping?_emptyEight, strays, fun lists => List.cons_ne_nil _ _ (exact_iff.mp lists),
    row, f, refused, refusals 5 _ f refused⟩

/-- One refused write is enough for a row that lists a position without a leaf. -/
theorem refused_write_stays_listed :
    ofMapping? 3 [] = .ok emptyEight ∧
      (emptyEight.set 2 (Bytes.zeros 1)).1 = .error (.wrongLeafSize 1) ∧
      emptyEight.indices = [] ∧ (emptyEight.set 2 (Bytes.zeros 1)).2.indices = [2] ∧
      ¬(emptyEight.set 2 (Bytes.zeros 1)).2.ListsExactly := by
  rw [set_emptyEight]
  refine ⟨ofMapping?_emptyEight, rfl, rfl, rfl, fun lists => ?_⟩
  exact Std.HashMap.not_mem_empty ((lists.stored 2).mp List.mem_cons_self)

end BeaconBranch.Merkle.SparseTree
