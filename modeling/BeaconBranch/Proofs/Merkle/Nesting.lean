import BeaconBranch.Proofs.Merkle.Untyped
import BeaconBranch.Proofs.Outcome

/-!
Nested trees. The way up from a leaf at the bottom of nested trees goes through one tree after the
other, and all of it is again one way up, with one position, one branch and one generalized index.
The position puts the parts over each other from the leaf on, the generalized index puts them behind
each other from the root on. Main statement: both tell the same place, and the whole branch walked
from there ends where the single branches end when they are walked one after another.
-/

namespace BeaconBranch

namespace Merkle

/-- The way up through one tree: a position and the hashes beside the way from there to the root. -/
structure Stage where
  position : Nat
  siblings : List ByteArray
  fits : position < twoTo siblings.length

namespace Stage

/-- The depth of the tree. -/
def depth (s : Stage) : Nat := s.siblings.length

theorem position_lt (s : Stage) : s.position < twoTo s.depth := s.fits

/-- The position and the depth of the tree it lies in. -/
def part (s : Stage) : Int × Int := (s.position, s.depth)

/-- The generalized index of the position. -/
def gindex? (s : Stage) : Except Fault Int := Gindex.ofLeaf? s.position s.depth

/-- Walks the way up from a node. -/
def climb (node : ByteArray) (s : Stage) : ByteArray := Merkle.climb node s.position s.siblings

/-- The way up through a tree whose root is a leaf of another tree. -/
def inside (inner outer : Stage) : Stage where
  position := inner.position + outer.position * twoTo inner.depth
  siblings := inner.siblings ++ outer.siblings
  fits := by
    rw [List.length_append]
    exact nested_lt inner.fits outer.fits

/-- The way up through nested trees, innermost first. -/
def nested : List Stage → Stage
  | [] => ⟨0, [], twoTo_pos 0⟩
  | s :: rest => s.inside (nested rest)

/-- The number of levels of nested trees. -/
def depthOf : List Stage → Nat
  | [] => 0
  | s :: rest => s.depth + depthOf rest

variable (stages : List Stage)

theorem depth_nested : (nested stages).depth = depthOf stages := by
  induction stages with
  | nil => rfl
  | cons s rest ih =>
    rw [depthOf, ← ih]
    exact List.length_append

theorem siblings_nested : (nested stages).siblings = composeBranches (stages.map siblings) := by
  induction stages with
  | nil => rfl
  | cons s rest ih =>
    rw [List.map_cons, composeBranches, List.flatten_cons, ← composeBranches, ← ih]
    rfl

/-- Walking the whole way is walking its parts one after another. -/
theorem climb_nested (leaf : ByteArray) : climb leaf (nested stages) = stages.foldl climb leaf := by
  induction stages generalizing leaf with
  | nil => rfl
  | cons s rest ih =>
    rw [List.foldl_cons, ← ih]
    exact Merkle.climb_nested leaf _ _ s.fits

/-- Parts that are put, one after another, over a position that fits the levels below them. -/
theorem foldlM_parts {put : Int × Int → Int × Int → Except Fault (Int × Int)}
    (step : ∀ (whole : Int) (n : Nat) (p : Int × Int),
      put (whole, n) p = .ok (orBits whole (p.1 * twoTo n), n + p.2))
    {i n : Nat} (lt : i < twoTo n) :
    (stages.map part).foldlM put ((i : Int), (n : Int)) =
      .ok (((i + (nested stages).position * twoTo n : Nat) : Int),
        ((n + depthOf stages : Nat) : Int)) := by
  induction stages generalizing i n with
  | nil => simp [nested, depthOf, pure, Except.pure]
  | cons s rest ih =>
    have shift : twoTo (n + s.depth) = twoTo s.depth * twoTo n := by
      rw [Nat.add_comm, twoTo_add]
    have position : i + s.position * twoTo n + (nested rest).position * twoTo (n + s.depth) =
        i + (nested (s :: rest)).position * twoTo n := by
      rw [nested, inside, shift, Nat.add_mul, Nat.mul_assoc, Nat.add_assoc]
    have levels : n + s.depth + depthOf rest = n + depthOf (s :: rest) := Nat.add_assoc _ _ _
    have next := ih (nested_lt lt s.position_lt)
    rw [position, levels] at next
    rw [List.map_cons, List.foldlM_cons, step, part, orBits_shifted lt]
    exact next

/-- The position that is put together from the parts. -/
theorem composePositions?_parts :
    composePositions? (stages.map part) = .ok ((nested stages).position : Int) := by
  rw [composePositions?, ← Int.natCast_zero,
    foldlM_parts stages (fun _ n _ => if_neg (Int.not_lt.mpr (Int.natCast_nonneg n))) (twoTo_pos 0),
    twoTo_zero, Nat.mul_one, Nat.zero_add]
  rfl

/-- A digit row behind a one, put together from the root on. -/
theorem foldl_gindices : (stages.reverse.map fun s => (s.depth, s.position)).foldl
      (fun (whole : Int) (e : Nat × Nat) => whole * twoTo e.1 + e.2) 1 =
    ((twoTo (depthOf stages) + (nested stages).position : Nat) : Int) := by
  induction stages with
  | nil => rfl
  | cons s rest ih =>
    have levels : twoTo (depthOf (s :: rest)) = twoTo (depthOf rest) * twoTo s.depth := by
      rw [depthOf, Nat.add_comm, twoTo_add]
    rw [List.reverse_cons, List.map_append, List.foldl_append, ih, List.map_singleton,
      List.foldl_cons, List.foldl_nil, levels, nested, inside, ← Int.natCast_mul, ← Int.natCast_add,
      Nat.add_mul, Nat.add_assoc, Nat.add_comm (_ * _) s.position]

theorem mapM_gindex? (stages : List Stage) : stages.mapM gindex? =
    .ok ((stages.map fun s => (s.depth, s.position)).map
      fun e => ((twoTo e.1 + e.2 : Nat) : Int)) := by
  rw [List.map_map]
  refine (Outcome.mapM_eq_ok_iff_map (p := fun _ => True) fun s _ g => ?_).mpr ⟨by simp, rfl⟩
  rw [gindex?, Gindex.ofLeaf?_eq s.position_lt]
  simp [eq_comm]

/-- The generalized indices of the parts, put behind each other from the root on. -/
theorem concat?_gindices : (stages.reverse.mapM gindex? >>= Gindex.concat?) =
    .ok ((twoTo (depthOf stages) + (nested stages).position : Nat) : Int) := by
  have fit : ∀ e ∈ stages.reverse.map fun s => (s.depth, s.position), e.2 < twoTo e.1 := by
    intro e mem
    obtain ⟨s, -, rfl⟩ := List.mem_map.mp mem
    exact s.position_lt
  rw [mapM_gindex?, Outcome.ok_bind, Gindex.concat?]
  exact (Gindex.concat?_leaves 1 _ fit).trans (congrArg Except.ok (foldl_gindices stages))

/-- Composing is nesting. Whatever trees a leaf lies in, innermost first, the composed position and
branch lead to the node that walking the trees one after another leads to; the composed position has
the generalized index that the generalized indices of the trees make, outermost first; and a branch
of this many items is right at the one exactly if it is right at the other. -/
theorem composed_is_nested (leaf : ByteArray) :
    ∃ position gindex : Nat, composePositions? (stages.map part) = .ok (position : Int) ∧
      Merkle.climb leaf position (composeBranches (stages.map siblings)) =
        stages.foldl climb leaf ∧
      (stages.reverse.mapM gindex? >>= Gindex.concat?) = .ok (gindex : Int) ∧
      Gindex.ofLeaf? position (depthOf stages) = .ok (gindex : Int) ∧
      ∀ node branch root : Value, branch.length? = some (depthOf stages) →
        provesGindexValues node branch (.int gindex) root =
          provesValues node branch (.int position) root := by
  have lt : (nested stages).position < twoTo (depthOf stages) := by
    rw [← depth_nested]
    exact (nested stages).position_lt
  refine ⟨(nested stages).position, twoTo (depthOf stages) + (nested stages).position,
    composePositions?_parts stages, ?_, concat?_gindices stages, Gindex.ofLeaf?_eq lt,
    fun node branch root length => provesGindexValues_eq lt length rfl node root⟩
  rw [← siblings_nested]
  exact climb_nested stages leaf

/-- Position two of four, in a tree of no levels, in the right one of two trees. -/
theorem composed_is_nested_three :
    let stages : List Stage := [⟨2, [zeroChunk, zeroChunk], by decide⟩, ⟨0, [], by decide⟩,
      ⟨1, [zeroChunk], by decide⟩]
    let branch := Value.list [.bytes zeroChunk, .null, .bytes zeroChunk]
    branch.length? = some (depthOf stages) ∧ composePositions? (stages.map part) = .ok 6 ∧
      (stages.reverse.mapM gindex? >>= Gindex.concat?) = .ok 14 ∧
      ∀ node root : Value,
        provesGindexValues node branch (.int 14) root = provesValues node branch (.int 6) root := by
  intro stages branch
  obtain ⟨position, gindex, composed, -, concatenated, -, alike⟩ :=
    composed_is_nested stages zeroChunk
  have six : composePositions? (stages.map part) = .ok 6 := rfl
  have fourteen : (stages.reverse.mapM gindex? >>= Gindex.concat?) = .ok 14 := rfl
  rw [Except.ok.inj (six.symm.trans composed), Except.ok.inj (fourteen.symm.trans concatenated)]
  exact ⟨rfl, composed, concatenated, fun node root => alike node branch root rfl⟩

end Stage

end Merkle

end BeaconBranch
