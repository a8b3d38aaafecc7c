import BeaconBranch.Proofs.Merkle.Node
import BeaconBranch.Proofs.Merkle.SortedRow
import BeaconBranch.Proofs.Outcome
import Mathlib.Data.List.Sort

/-!
Sparse trees compute the nodes of the complete tree over their leaves. The invariant has three
parts: the row is sorted and lists every populated position (it may list more), the populated leaves
are chunks inside the tree, and every known node is the right one. Main statements: every call keeps
the invariant, a root and a branch are those of the complete tree, and a branch that follows a root
computes nothing new.
-/

namespace BeaconBranch.Merkle

namespace SparseTree

/-- The leaf at a position, zero chunks filled in. -/
def leafAt (t : SparseTree) (p : Nat) : ByteArray := t.leaves.getD p zeroChunk

/-- Every known node is the node over the leaves. -/
def KnownRight (t : SparseTree) (known : NodeMemo) : Prop :=
  ∀ (h p : Nat) (x : ByteArray), known[(h, p)]? = some x → x = nodeOver t.leafAt h p

/-- What holds of every sparse tree that calls lead to. -/
structure Sound (t : SparseTree) : Prop where
  sorted : t.row.toList.Pairwise (· ≤ ·)
  listed : ∀ i ∈ t.leaves, i ∈ t.row.toList
  inside : ∀ i ∈ t.leaves, i < t.capacity
  chunks : ∀ (i : Nat) (v : ByteArray), t.leaves[i]? = some v → v.size = 32
  known : t.KnownRight t.nodes

variable {t : SparseTree}

theorem size_leafAt (sound : t.Sound) (p : Nat) : (t.leafAt p).size = 32 := by
  rw [leafAt, Std.HashMap.getD_eq_getD_getElem?]
  cases found : t.leaves[p]? with
  | none => exact size_zeroChunk
  | some v => exact sound.chunks p v found

/-- A position that is not listed holds no leaf. -/
theorem leafAt_of_not_listed (sound : t.Sound) {p : Nat} (absent : p ∉ t.row.toList) :
    t.leafAt p = zeroChunk :=
  Std.HashMap.getD_eq_fallback fun mem => absent (sound.listed p mem)

/-- A stored leaf is asked for by its position. -/
theorem get_natCast (t : SparseTree) (i : Nat) : t.get i = t.leafAt i := by
  rw [get, if_neg (by omega), Int.toNat_natCast, leafAt]

/-! ### Nodes -/

/-- Asking for a node gives the node over the leaves, and all known nodes stay right. -/
theorem node_spec (sound : t.Sound) (h p : Nat) {known : NodeMemo} (right : t.KnownRight known) :
    (t.node h p known).1 = nodeOver t.leafAt h p ∧ t.KnownRight (t.node h p known).2 := by
  induction h generalizing p known with
  | zero => exact ⟨rfl, right⟩
  | succ h ih =>
    rw [node]
    split
    · rename_i x found
      exact ⟨right _ _ x found, right⟩
    · split
      · -- Both halves are asked for in turn, the second one with what the first one added.
        obtain ⟨left, rightLeft⟩ := ih (2 * p) right
        obtain ⟨other, rightBoth⟩ := ih (2 * p + 1) rightLeft
        refine ⟨congrArg₂ join left other, fun h' p' x found => ?_⟩
        rw [Std.HashMap.getElem?_insert] at found
        split at found
        · rename_i same
          obtain ⟨rfl, rfl⟩ := Prod.mk.inj (eq_of_beq same)
          rw [← Option.some.inj found, left, other, nodeOver]
        · exact rightBoth h' p' x found
      · rename_i none
        refine ⟨(nodeOver_eq_zeroHash fun i ge lt => leafAt_of_not_listed sound fun mem => ?_).symm,
          right⟩
        exact none ((hasLeaves_iff sound.sorted).mpr ⟨i, mem, ge, lt⟩)

theorem siblings_spec (sound : t.Sound) (i h n : Nat) {known : NodeMemo}
    (right : t.KnownRight known) :
    (t.siblings i (List.range' h n) known).1 = branchOver t.leafAt h n (i / twoTo h) ∧
      t.KnownRight (t.siblings i (List.range' h n) known).2 := by
  induction n generalizing h known with
  | zero => exact ⟨rfl, right⟩
  | succ n ih =>
    obtain ⟨first, rightFirst⟩ := node_spec sound h ((i / twoTo h) ^^^ 1) right
    obtain ⟨rest, rightRest⟩ := ih (h + 1) rightFirst
    rw [List.range'_succ, siblings, branchOver, div_twoTo_succ]
    exact ⟨congrArg₂ List.cons first rest, rightRest⟩

/-! ### What calls give and keep -/

/-- More known nodes leave a tree sound. -/
theorem Sound.withNodes (sound : t.Sound) {known : NodeMemo} (right : t.KnownRight known) :
    Sound ⟨t.depth, t.leaves, t.row, known⟩ :=
  ⟨sound.sorted, sound.listed, sound.inside, sound.chunks, right⟩

theorem computeRoot_fst (sound : t.Sound) : t.computeRoot.1 = nodeOver t.leafAt t.depth 0 :=
  (node_spec sound t.depth 0 sound.known).1

theorem sound_computeRoot (sound : t.Sound) : t.computeRoot.2.Sound :=
  sound.withNodes (node_spec sound t.depth 0 sound.known).2

theorem computeBranch?_fst (sound : t.Sound) {i : Nat} (lt : i < t.capacity) :
    (t.computeBranch? i).1 = .ok (branchOver t.leafAt 0 t.depth i) := by
  have inside : ¬((i : Int) < 0 ∨ (t.capacity : Int) ≤ i) := by omega
  have spec := (siblings_spec sound i 0 t.depth sound.known).1
  rw [twoTo_zero, Nat.div_one] at spec
  rw [computeBranch?, if_neg inside, ← spec, List.range_eq_range']
  rfl

/-- No branch is given outside the tree. -/
theorem computeBranch?_outside {i : Int} (outside : ¬(0 ≤ i ∧ i < t.capacity)) :
    t.computeBranch? i = (.error (.indexOutOfRange "leaf" i t.capacity), t) := by
  rw [computeBranch?, if_pos (by omega)]

theorem sound_computeBranch? (sound : t.Sound) (i : Int) : (t.computeBranch? i).2.Sound := by
  rw [computeBranch?]
  split
  · exact sound
  · have right := (siblings_spec sound i.toNat 0 t.depth sound.known).2
    rw [← List.range_eq_range'] at right
    exact sound.withNodes right

/-- A listed position more leaves a tree sound, whether a leaf follows or not. -/
theorem Sound.listing (sound : t.Sound) (i : Nat) :
    Sound ⟨t.depth, t.leaves, if t.leaves.contains i then t.row else insertIndex i t.row,
      t.nodes⟩ := by
  refine ⟨?_, fun j mem => ?_, sound.inside, sound.chunks, sound.known⟩
  · dsimp only
    split
    · exact sound.sorted
    · exact sorted_insertIndex sound.sorted i
  · dsimp only
    split
    · exact sound.listed j mem
    · exact (mem_insertIndex sound.sorted).mpr (.inr (sound.listed j mem))

/-- A leaf that is set at a listed position leaves a tree sound, as no node stays known. -/
theorem Sound.storing (sound : t.Sound) {i : Nat} (listed : i ∈ t.row.toList)
    (inside : i < t.capacity) {v : ByteArray} (size : v.size = 32) :
    Sound ⟨t.depth, t.leaves.insert i v, t.row, ∅⟩ := by
  refine ⟨sound.sorted, fun j mem => ?_, fun j mem => ?_, fun j w found => ?_,
    fun _ _ _ found => ?_⟩
  · rcases Std.HashMap.mem_insert.mp mem with same | old
    · exact eq_of_beq same ▸ listed
    · exact sound.listed j old
  · rcases Std.HashMap.mem_insert.mp mem with same | old
    · exact eq_of_beq same ▸ inside
    · exact sound.inside j old
  · rw [Std.HashMap.getElem?_insert] at found
    split at found
    · exact Option.some.inj found ▸ size
    · exact sound.chunks j w found
  · rw [Std.HashMap.getElem?_empty] at found
    cases found

theorem mem_listing (sound : t.Sound) (i : Nat) :
    i ∈ (if t.leaves.contains i then t.row else insertIndex i t.row).toList := by
  split
  · rename_i there
    exact sound.listed i (Std.HashMap.mem_iff_contains.mpr there)
  · exact (mem_insertIndex sound.sorted).mpr (.inl rfl)

/-- When a leaf can be set. -/
def Accepts (d : Nat) (index : Int) (v : ByteArray) : Prop :=
  0 ≤ index ∧ index < twoTo d ∧ v.size = 32

instance (d : Nat) (index : Int) (v : ByteArray) : Decidable (Accepts d index v) :=
  inferInstanceAs (Decidable (_ ∧ _ ∧ _))

/-- A leaf that can be set is set, and no other leaf changes. -/
theorem set_of_accepts {index : Int} {v : ByteArray} (ok : Accepts t.depth index v) :
    (t.set index v).1 = .ok () ∧
      ∀ p, (t.set index v).2.leafAt p = if (p : Int) = index then v else t.leafAt p := by
  obtain ⟨ge, lt, size⟩ := ok
  have inside : ¬(index < 0 ∨ (t.capacity : Int) ≤ index) := by rw [capacity]; omega
  rw [set, if_neg inside, if_neg (by simpa using size)]
  refine ⟨rfl, fun p => ?_⟩
  simp only [leafAt, Std.HashMap.getD_insert, beq_iff_eq]
  exact if_congr (by omega) rfl rfl

/-- A leaf that cannot be set is refused, and no leaf changes. -/
theorem set_of_not_accepts {index : Int} {v : ByteArray} (bad : ¬Accepts t.depth index v) :
    (∃ f, (t.set index v).1 = .error f) ∧ ∀ p, (t.set index v).2.leafAt p = t.leafAt p := by
  rw [set]
  split
  · exact ⟨⟨_, rfl⟩, fun _ => rfl⟩
  · rename_i inside
    have size : v.size ≠ 32 := fun size => bad ⟨by omega, by rw [capacity] at inside; omega, size⟩
    rw [if_pos size]
    exact ⟨⟨_, rfl⟩, fun _ => rfl⟩

theorem sound_set (sound : t.Sound) (index : Int) (v : ByteArray) : (t.set index v).2.Sound := by
  rw [set]
  split
  · exact sound
  · rename_i inside
    dsimp only
    split
    · exact sound.listing index.toNat
    · rename_i size
      refine (sound.listing index.toNat).storing (mem_listing sound _) ?_ (by simpa using size)
      show index.toNat < t.capacity
      omega

/-! ### Trees from a mapping -/

/-- The leaves that hold a value at one position more. -/
def storeLeaf (leaf : Nat → ByteArray) (index : Int) (v : ByteArray) : Nat → ByteArray :=
  fun p => if (p : Int) = index then v else leaf p

/-- The leaves of a mapping; of two entries for one position the later one counts. -/
def leavesOf (entries : List (Int × ByteArray)) : Nat → ByteArray :=
  entries.foldl (fun leaf e => storeLeaf leaf e.1 e.2) fun _ => zeroChunk

theorem checkEntry_of_accepts {d : Nat} {index : Int} {v : ByteArray} (ok : Accepts d index v) :
    checkEntry d index v = .ok (index.toNat, v) := by
  obtain ⟨ge, lt, size⟩ := ok
  rw [checkEntry, if_neg (by omega), if_neg (by simpa using size)]

theorem mapM_checkEntry {d : Nat} {entries : List (Int × ByteArray)}
    (fit : ∀ e ∈ entries, Accepts d e.1 e.2) :
    entries.mapM (fun e => checkEntry d e.1 e.2) = .ok (entries.map fun e => (e.1.toNat, e.2)) := by
  induction entries with
  | nil => rfl
  | cons e rest ih =>
    rw [List.mapM_cons, checkEntry_of_accepts (fit e List.mem_cons_self),
      ih fun x mem => fit x (List.mem_cons_of_mem _ mem)]
    rfl

/-- Putting entries into a map one after the other gives their leaves. -/
theorem foldl_insert_spec {d : Nat} {entries : List (Int × ByteArray)}
    (fit : ∀ e ∈ entries, Accepts d e.1 e.2) (m : Std.HashMap Nat ByteArray)
    (inside : ∀ i ∈ m, i < twoTo d)
    (chunks : ∀ (i : Nat) (v : ByteArray), m[i]? = some v → v.size = 32) :
    let whole := (entries.map fun e => (e.1.toNat, e.2)).foldl (fun m e => m.insert e.1 e.2) m
    (∀ i ∈ whole, i < twoTo d) ∧ (∀ (i : Nat) (v : ByteArray), whole[i]? = some v → v.size = 32) ∧
      ∀ p, whole.getD p zeroChunk =
        entries.foldl (fun leaf e => storeLeaf leaf e.1 e.2) (fun p => m.getD p zeroChunk) p := by
  induction entries generalizing m with
  | nil => exact ⟨inside, chunks, fun _ => rfl⟩
  | cons e rest ih =>
    obtain ⟨ge, lt, size⟩ := fit e List.mem_cons_self
    have stored : (fun p => (m.insert e.1.toNat e.2).getD p zeroChunk) =
        storeLeaf (fun p => m.getD p zeroChunk) e.1 e.2 := by
      funext p
      rw [Std.HashMap.getD_insert, storeLeaf]
      exact if_congr (by rw [beq_iff_eq]; omega) rfl rfl
    have next := ih (fun x mem => fit x (List.mem_cons_of_mem _ mem)) (m.insert e.1.toNat e.2)
      (fun i mem => ?_) fun i v found => ?_
    · rwa [stored] at next
    · rcases Std.HashMap.mem_insert.mp mem with same | old
      · have eq : e.1.toNat = i := eq_of_beq same
        omega
      · exact inside i old
    · rw [Std.HashMap.getElem?_insert] at found
      split at found
      · exact Option.some.inj found ▸ size
      · exact chunks i v found

/-- A mapping of chunks to positions inside the tree always gives a sound tree with its leaves. -/
theorem ofMapping?_spec {d : Nat} {entries : List (Int × ByteArray)}
    (fit : ∀ e ∈ entries, Accepts d e.1 e.2) :
    ∃ t, ofMapping? d entries = .ok t ∧ t.Sound ∧ t.depth = d ∧ t.leafAt = leavesOf entries ∧
      t.nodes = ∅ := by
  have spec := foldl_insert_spec fit ∅
    (fun i mem => absurd mem Std.HashMap.not_mem_empty) fun i v found => by simp at found
  have built : ofMapping? d entries = .ok ⟨d, leafMap (entries.map fun e => (e.1.toNat, e.2)),
      (leafMap (entries.map fun e => (e.1.toNat, e.2))).keys.mergeSort.toArray, ∅⟩ := by
    rw [ofMapping?, if_neg (by omega), Int.toNat_natCast]
    dsimp only
    rw [mapM_checkEntry fit]
    rfl
  obtain ⟨inside, chunks, leaves⟩ := spec
  refine ⟨_, built, ⟨?_, fun i mem => ?_, inside, chunks, fun _ _ _ found => ?_⟩, rfl, ?_, rfl⟩
  · exact List.pairwise_mergeSort' (· ≤ ·) _
  · exact List.mem_mergeSort.mpr (Std.HashMap.mem_keys.mpr mem)
  · simp at found
  · funext p
    exact (leaves p).trans (by simp [leavesOf])

/-! ### Trees from a list of leaves -/

theorem checkEntry_eq_ok {d : Nat} {index : Int} {v : ByteArray} {e : Nat × ByteArray}
    (ok : checkEntry d index v = .ok e) : Accepts d index v := by
  rw [checkEntry] at ok
  split at ok
  · cases ok
  · split at ok
    · cases ok
    · rename_i inside size
      exact ⟨by omega, by omega, by simpa using size⟩

/-- A tree is built from fitting entries only. -/
theorem accepts_of_ofMapping? {depth : Int} {entries : List (Int × ByteArray)} {t : SparseTree}
    (built : ofMapping? depth entries = .ok t) :
    0 ≤ depth ∧ ∀ e ∈ entries, Accepts depth.toNat e.1 e.2 := by
  rw [ofMapping?] at built
  split at built
  · cases built
  · rename_i ge
    obtain ⟨checked, each, -⟩ := Outcome.bind_eq_ok_iff.mp built
    refine ⟨by omega, fun e mem => ?_⟩
    obtain ⟨_, ok⟩ := Outcome.exists_of_mapM each mem
    exact checkEntry_eq_ok ok

/-- Leaves stored in order, from a position on. -/
theorem foldl_storeLeaf_zipIdx (leaves : List ByteArray) (k : Nat) (leaf : Nat → ByteArray)
    (p : Nat) :
    ((leaves.zipIdx k).map fun (v, i) => ((i : Int), v)).foldl
        (fun leaf e => storeLeaf leaf e.1 e.2) leaf p =
      if k ≤ p then leaves.getD (p - k) (leaf p) else leaf p := by
  induction leaves generalizing k leaf with
  | nil => simp
  | cons b rest ih =>
    rw [List.zipIdx_cons, List.map_cons, List.foldl_cons, ih]
    dsimp only
    rcases Nat.lt_trichotomy p k with lt | rfl | gt
    · rw [if_neg (by omega), if_neg (by omega), storeLeaf, if_neg (by omega)]
    · rw [if_neg (by omega), if_pos (Nat.le_refl p), storeLeaf, if_pos rfl, Nat.sub_self]
      rfl
    · rw [if_pos (by omega), if_pos (by omega), storeLeaf, if_neg (by omega),
        show p - k = p - (k + 1) + 1 by omega, List.getD_cons_succ]

theorem leavesOf_zipIdx (leaves : List ByteArray) :
    leavesOf (leaves.zipIdx.map fun (v, i) => ((i : Int), v)) =
      fun p => leaves.getD p zeroChunk := by
  funext p
  rw [leavesOf, foldl_storeLeaf_zipIdx, if_pos (Nat.zero_le p), Nat.sub_zero]

/-- The leaves fit exactly if they are chunks and the tree has room for them. -/
theorem accepts_zipIdx_iff {d : Nat} {leaves : List ByteArray} :
    (∀ e ∈ leaves.zipIdx.map (fun (v, i) => ((i : Int), v)), Accepts d e.1 e.2) ↔
      (∀ b ∈ leaves, b.size = 32) ∧ leaves.length ≤ twoTo d := by
  constructor
  · intro fit
    have each : ∀ (i : Nat) (b : ByteArray), leaves[i]? = some b → i < twoTo d ∧ b.size = 32 := by
      intro i b found
      have mem : ((i : Int), b) ∈ leaves.zipIdx.map (fun (v, i) => ((i : Int), v)) :=
        List.mem_map.mpr ⟨(b, i), List.mem_zipIdx_iff_getElem?.mpr found, rfl⟩
      obtain ⟨-, lt, size⟩ := fit _ mem
      exact ⟨by omega, size⟩
    refine ⟨fun b mem => ?_, ?_⟩
    · obtain ⟨i, found⟩ := List.getElem?_of_mem mem
      exact (each i b found).2
    · rcases Nat.eq_zero_or_pos leaves.length with none | pos
      · omega
      · have last := (each (leaves.length - 1) _ (List.getElem?_eq_getElem (by omega))).1
        omega
  · rintro ⟨sizes, room⟩ e mem
    obtain ⟨⟨b, i⟩, listed, rfl⟩ := List.mem_map.mp mem
    have found := List.mem_zipIdx_iff_getElem?.mp listed
    have lt := (List.getElem?_eq_some_iff.mp found).1
    have inside : (i : Int) < twoTo d := by omega
    exact ⟨Int.natCast_nonneg i, inside, sizes b (List.mem_of_getElem? found)⟩

/-- Chunks that a depth leaves room for always make a sound tree that holds them. -/
theorem exists_ofLeaves? {d : Nat} {leaves : List ByteArray} (sizes : ∀ b ∈ leaves, b.size = 32)
    (room : leaves.length ≤ twoTo d) : ∃ t, ofLeaves? d leaves = .ok t ∧ t.Sound ∧ t.depth = d ∧
      t.leafAt = fun p => leaves.getD p zeroChunk := by
  obtain ⟨t, built, sound, depth, leavesAt, -⟩ :=
    ofMapping?_spec (accepts_zipIdx_iff.mpr ⟨sizes, room⟩)
  rw [leavesOf_zipIdx] at leavesAt
  exact ⟨t, built, sound, depth, leavesAt⟩

/-- A tree over a list of leaves is built exactly if these are chunks and it has room for them. -/
theorem ofLeaves?_spec {d : Nat} {leaves : List ByteArray} {t : SparseTree}
    (built : ofLeaves? d leaves = .ok t) : (∀ b ∈ leaves, b.size = 32) ∧ leaves.length ≤ twoTo d ∧
      t.Sound ∧ t.depth = d ∧ t.leafAt = (fun p => leaves.getD p zeroChunk) ∧ t.nodes = ∅ := by
  have fit := (accepts_of_ofMapping? built).2
  obtain ⟨t', built', sound, depth, leavesAt, fresh⟩ := ofMapping?_spec fit
  obtain rfl : t = t' := Except.ok.inj (built.symm.trans built')
  rw [leavesOf_zipIdx] at leavesAt
  obtain ⟨sizes, room⟩ := accepts_zipIdx_iff.mp fit
  exact ⟨sizes, room, sound, depth, leavesAt, fresh⟩

/-! ### What calls leave alone -/

@[simp] theorem depth_set (index : Int) (v : ByteArray) : (t.set index v).2.depth = t.depth := by
  rw [set]; split
  · rfl
  · dsimp only; split <;> rfl

@[simp] theorem depth_computeBranch? (i : Int) : (t.computeBranch? i).2.depth = t.depth := by
  rw [computeBranch?]; split <;> rfl

@[simp] theorem leafAt_computeBranch? (i : Int) (p : Nat) :
    (t.computeBranch? i).2.leafAt p = t.leafAt p := by
  rw [computeBranch?]; split <;> rfl

/-! ### Known nodes -/

/-- Asking for a node has nothing to compute: it is a leaf, or known, or above no listed
position. -/
def Settled (t : SparseTree) (known : NodeMemo) (h p : Nat) : Prop :=
  h = 0 ∨ (h, p) ∈ known ∨ t.hasLeaves (p * twoTo h) (p * twoTo h + twoTo h) = false

/-- The two nodes below a known one are settled. -/
def SettledBelow (t : SparseTree) (known : NodeMemo) : Prop :=
  ∀ h p, (h + 1, p) ∈ known → t.Settled known h (2 * p) ∧ t.Settled known h (2 * p + 1)

theorem node_of_settled {known : NodeMemo} {h p : Nat} (settled : t.Settled known h p) :
    (t.node h p known).2 = known := by
  cases h with
  | zero => rfl
  | succ h =>
    rw [node]
    rcases settled with zero | mem | none
    · omega
    · rw [Std.HashMap.getElem?_eq_some_getElem mem]
    · split
      · rfl
      · rw [none]; rfl

theorem Settled.mono {known more : NodeMemo} (sub : ∀ k ∈ known, k ∈ more) {h p : Nat}
    (settled : t.Settled known h p) : t.Settled more h p :=
  settled.imp_right (Or.imp_left (sub (h, p)))

/-- Asking for a node forgets nothing and settles the node and everything below it. -/
theorem settled_node (h p : Nat) {known : NodeMemo} (below : t.SettledBelow known) :
    (∀ k ∈ known, k ∈ (t.node h p known).2) ∧ t.SettledBelow (t.node h p known).2 ∧
      t.Settled (t.node h p known).2 h p := by
  induction h generalizing p known with
  | zero => exact ⟨fun _ mem => mem, below, .inl rfl⟩
  | succ h ih =>
    rw [node]
    split
    · rename_i x found
      have mem : (h + 1, p) ∈ known := Std.HashMap.mem_iff_isSome_getElem?.mpr (by rw [found]; rfl)
      exact ⟨fun _ mem => mem, below, .inr (.inl mem)⟩
    · split
      · obtain ⟨keepsLeft, belowLeft, left⟩ := ih (2 * p) below
        obtain ⟨keepsBoth, belowBoth, right⟩ := ih (2 * p + 1) belowLeft
        have adds : ∀ (m : NodeMemo) (x : ByteArray), ∀ k ∈ m, k ∈ m.insert (h + 1, p) x :=
          fun m x k mem => Std.HashMap.mem_insert.mpr (.inr mem)
        refine ⟨fun k mem => adds _ _ k (keepsBoth k (keepsLeft k mem)), fun h' p' mem => ?_,
          .inr (.inl Std.HashMap.mem_insert_self)⟩
        rcases Std.HashMap.mem_insert.mp mem with same | old
        · obtain ⟨high, rfl⟩ := Prod.mk.inj (eq_of_beq same)
          obtain rfl : h = h' := by omega
          exact ⟨(left.mono keepsBoth).mono (adds _ _), right.mono (adds _ _)⟩
        · exact (belowBoth h' p' old).imp (Settled.mono (adds _ _)) (Settled.mono (adds _ _))
      · rename_i none
        exact ⟨fun _ mem => mem, below, .inr (.inr (by simpa using none))⟩

/-- What is below a settled node is settled. -/
theorem Settled.down (sorted : t.row.toList.Pairwise (· ≤ ·)) {known : NodeMemo}
    (below : t.SettledBelow known) {h n p : Nat} (top : t.Settled known (h + n) (p / twoTo n)) :
    t.Settled known h p := by
  induction n generalizing h p with
  | zero => simpa using top
  | succ n ih =>
    have parent : t.Settled known (h + 1) (p / 2) := by
      refine ih ?_
      rwa [Nat.div_div_eq_div_mul, Nat.two_mul, ← twoTo_succ, Nat.add_assoc, Nat.add_comm 1 n]
    have halves : p = 2 * (p / 2) ∨ p = 2 * (p / 2) + 1 := by omega
    rcases parent with zero | mem | none
    · omega
    · rcases halves with even | odd
      · exact even ▸ (below h (p / 2) mem).1
      · exact odd ▸ (below h (p / 2) mem).2
    · refine .inr (.inr ?_)
      rw [← Bool.not_eq_true, hasLeaves_iff sorted, mul_twoTo_succ, twoTo_succ] at none
      rw [← Bool.not_eq_true, hasLeaves_iff sorted]
      rintro ⟨j, mem, ge, lt⟩
      have next : (2 * (p / 2) + 1) * twoTo h = 2 * (p / 2) * twoTo h + twoTo h := Nat.succ_mul _ _
      rcases halves with even | odd
      · rw [even] at ge lt
        exact none ⟨j, mem, by omega, by omega⟩
      · rw [odd] at ge lt
        exact none ⟨j, mem, by omega, by omega⟩

theorem siblings_of_settled {known : NodeMemo} {i : Nat} {heights : List Nat}
    (settled : ∀ h ∈ heights, t.Settled known h ((i / twoTo h) ^^^ 1)) :
    (t.siblings i heights known).2 = known := by
  induction heights with
  | nil => rfl
  | cons h rest ih =>
    have first := node_of_settled (settled h List.mem_cons_self)
    have others := ih fun k mem => settled k (List.mem_cons_of_mem _ mem)
    rw [siblings]
    dsimp only
    rw [first, others]

/-- Once the root of a new tree was asked for, there is nothing left to compute in it. -/
theorem settled_computeRoot (sound : t.Sound) (fresh : t.nodes = ∅) {h n p : Nat}
    (deep : t.depth = h + n) (lt : p < twoTo n) : t.Settled t.computeRoot.2.nodes h p := by
  have below : t.SettledBelow t.nodes := fun h p mem => by
    rw [fresh] at mem
    exact absurd mem Std.HashMap.not_mem_empty
  obtain ⟨-, below, top⟩ := settled_node t.depth 0 below
  refine Settled.down (n := n) sound.sorted below ?_
  rw [Nat.div_eq_of_lt lt, ← deep]
  exact top

/-- A branch that follows a root computes nothing new, so that branches can be asked for in any
order, and by several callers at once. -/
theorem computeBranch?_computeRoot (sound : t.Sound) (fresh : t.nodes = ∅) (i : Int) :
    (t.computeRoot.2.computeBranch? i).2 = t.computeRoot.2 := by
  rw [computeBranch?]
  split
  · rfl
  · rename_i inside
    have settled : ∀ h ∈ List.range t.depth,
        t.Settled (t.node t.depth 0 t.nodes).2 h ((i.toNat / twoTo h) ^^^ 1) := by
      intro h mem
      obtain ⟨n, split⟩ : ∃ n, t.depth = h + (n + 1) :=
        ⟨t.depth - h - 1, by have := List.mem_range.mp mem; omega⟩
      have level : i.toNat / twoTo h < twoTo (n + 1) :=
        div_twoTo_lt (split ▸ show i.toNat < t.capacity by
          have : t.computeRoot.2.capacity = t.capacity := rfl
          omega)
      have beside : (i.toNat / twoTo h) ^^^ 1 < 2 * twoTo n := by
        rw [twoTo_succ] at level
        exact xor_one_lt (by omega)
      exact settled_computeRoot sound fresh split (by rw [twoTo_succ]; omega)
    have same : (t.computeRoot.2.siblings i.toNat (List.range t.depth) t.computeRoot.2.nodes).2 =
        t.computeRoot.2.nodes := siblings_of_settled (t := t.computeRoot.2) settled
    exact congrArg (SparseTree.mk t.depth t.leaves t.row) same

end SparseTree

end BeaconBranch.Merkle
