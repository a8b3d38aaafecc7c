import BeaconBranch.Proofs.Merkle.Branch
import BeaconBranch.Registry.Address

/-!
Generalized indices of nested trees. The index of a leaf is a one in front of the digits of its
position, so its depth is the number of these digits, and the index inside a nested tree appends
its digits to those of the tree. Main statements: the depth of the index of a leaf, and the index
of a validator under the state root with its depth.
-/

namespace BeaconBranch

namespace Gindex

/-- The one in front of a position tells how many digits the position has. -/
theorem log2_leaf {i n : Nat} (lt : i < twoTo n) : (twoTo n + i).log2 = n := by
  have pos := twoTo_pos n
  refine (Nat.log2_eq_iff (by omega)).mpr ⟨Nat.le_add_right (twoTo n) i, ?_⟩
  show twoTo n + i < twoTo (n + 1)
  rw [twoTo_succ]
  omega

/-- Every index is a one in front of a position of its depth. -/
theorem exists_leaf {g : Nat} (pos : 1 ≤ g) : ∃ i < twoTo g.log2, g = twoTo g.log2 + i := by
  have bounds : twoTo g.log2 ≤ g ∧ g < twoTo (g.log2 + 1) :=
    (Nat.log2_eq_iff (by omega)).mp rfl
  obtain ⟨ge, lt⟩ := bounds
  rw [twoTo_succ] at lt
  exact ⟨g - twoTo g.log2, by omega, by omega⟩

theorem depth?_natCast {g : Nat} (pos : 1 ≤ g) : depth? (g : Int) = .ok g.log2 := by
  rw [depth?, if_neg (by omega), Int.toNat_natCast]

/-- The index of a leaf is as deep as its tree. -/
theorem depth?_leaf {i n : Nat} (lt : i < twoTo n) :
    depth? ((twoTo n + i : Nat) : Int) = .ok n := by
  have pos := twoTo_pos n
  rw [depth?_natCast (by omega), log2_leaf lt]

/-- A position that fits the depth keeps the one in front. -/
theorem ofLeaf?_eq {i n : Nat} (lt : i < twoTo n) :
    ofLeaf? i n = .ok ((twoTo n + i : Nat) : Int) := by
  have digits := orBits_shifted lt 1
  rw [orBits_comm, Int.natCast_one, Int.one_mul, Nat.one_mul, Nat.add_comm] at digits
  rw [ofLeaf?, if_neg (by omega), Int.toNat_natCast, digits]

/-- The indices of leaves in trees that are nested, outermost first. -/
theorem concat?_leaves (whole : Int) (nested : List (Nat × Nat))
    (fit : ∀ e ∈ nested, e.2 < twoTo e.1) :
    (nested.map fun e => ((twoTo e.1 + e.2 : Nat) : Int)).foldlM (fun whole g => do
      let depth ← depth? g
      .ok (whole * twoTo depth + (g - twoTo depth))) whole =
        .ok (nested.foldl (fun whole e => whole * twoTo e.1 + e.2) whole) := by
  induction nested generalizing whole with
  | nil => rfl
  | cons e rest ih =>
    obtain ⟨lt, others⟩ := List.forall_mem_cons.mp fit
    have inner : ((twoTo e.1 + e.2 : Nat) : Int) - (twoTo e.1 : Int) = e.2 := by omega
    rw [List.map_cons, List.foldlM_cons, depth?_leaf lt]
    simp only [bind, Except.bind, inner]
    exact ih _ others

end Gindex

namespace Registry

variable {i : Nat}

/-- The index of a validator: field eleven of thirty-two, the left side of its list, and the
position in the list. -/
theorem validatorGindex?_eq (lt : i < twoTo 40) :
    validatorGindex? i = .ok ((86 * twoTo 40 + i : Nat) : Int) := by
  have fit : ∀ e ∈ [(5, 11), (1, 0), (40, i)], e.2 < twoTo e.1 := by
    simp only [List.forall_mem_cons]
    exact ⟨by decide, by decide, lt, by simp⟩
  have whole := Gindex.concat?_leaves 1 _ fit
  rw [validatorGindex?, Limits.validatorTreeHeight, Gindex.ofLeaf?_eq lt]
  refine whole.trans (congrArg Except.ok ?_)
  rfl

/-- A validator stands 46 levels below the state root. -/
theorem depth?_validatorGindex (lt : i < twoTo 40) :
    Gindex.depth? ((86 * twoTo 40 + i : Nat) : Int) = .ok 46 := by
  have size : twoTo 46 = 64 * twoTo 40 := rfl
  have split : 86 * twoTo 40 + i = twoTo 46 + (22 * twoTo 40 + i) := by omega
  rw [split]
  exact Gindex.depth?_leaf (by omega)

end Registry

end BeaconBranch
