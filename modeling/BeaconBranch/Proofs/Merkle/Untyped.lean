import BeaconBranch.Proofs.Merkle.Gindex

/-!
Checks of parts of unknown shape. A proof that comes from outside may have anything for its leaf,
its branch, its position and its root, and a check answers whether these make a proof. It looks at
the position first and measures the branch against it before it looks at anything else. Main
statement: for all parts, a check fails exactly if it has to measure a branch that has no length;
otherwise it answers, and it answers yes exactly if the parts are a proof.
-/

namespace BeaconBranch.Merkle

variable {leaf branch index root v : Value} {nodes : List ByteArray} {i : Int} {n : Nat}

/-! ### Branches -/

/-- The hashes that a value lists: those of a list of byte strings. What has no items lists none. -/
inductive Lists : Value → List ByteArray → Prop
  | items (nodes : List ByteArray) : Lists (.list (nodes.map .bytes)) nodes
  | empty {v : Value} (length : v.length? = some 0) : Lists v []

theorem Lists.length? (lists : Lists v nodes) : v.length? = some nodes.length := by
  cases lists with
  | items => rw [Value.length?, List.length_map]
  | empty length => exact length

/-- The node that a value is. -/
def nodeOf? : Value → Option ByteArray
  | .bytes b => if isNode b then some b else none
  | _ => none

theorem nodeOf?_eq_some_iff {b : ByteArray} :
    nodeOf? v = some b ↔ v = .bytes b ∧ b.size = 32 := by
  cases v with
  | bytes c =>
    simp only [nodeOf?, isNode, beq_iff_eq, Option.ite_none_right_eq_some, Option.some.injEq,
      Value.bytes.injEq]
    constructor
    · rintro ⟨size, rfl⟩
      exact ⟨rfl, size⟩
    · rintro ⟨rfl, size⟩
      exact ⟨size, rfl⟩
  | _ => simp [nodeOf?]

theorem nodesOf?_list (items : List Value) : nodesOf? (.list items) = items.mapM nodeOf? := rfl

theorem nodesOf?_list_iff {items : List Value} : nodesOf? (.list items) = some nodes ↔
    items = nodes.map .bytes ∧ ∀ b ∈ nodes, b.size = 32 := by
  rw [nodesOf?_list]
  induction items generalizing nodes with
  | nil => cases nodes <;> simp
  | cons item rest ih =>
    simp only [List.mapM_cons, Option.bind_eq_bind, Option.bind_eq_some_iff, nodeOf?_eq_some_iff,
      ih, Option.pure_def, Option.some.injEq]
    constructor
    · rintro ⟨b, ⟨rfl, size⟩, others, ⟨rfl, sizes⟩, rfl⟩
      exact ⟨rfl, List.forall_mem_cons.mpr ⟨size, sizes⟩⟩
    · rintro ⟨same, sizes⟩
      cases nodes with
      | nil => cases same
      | cons b others =>
        obtain ⟨first, further⟩ := List.cons_eq_cons.mp same
        obtain ⟨size, sizes⟩ := List.forall_mem_cons.mp sizes
        exact ⟨b, ⟨first, size⟩, others, ⟨further, sizes⟩, rfl⟩

theorem lists_list_iff {items : List Value} :
    Lists (.list items) nodes ↔ items = nodes.map .bytes := by
  constructor
  · intro lists
    cases lists with
    | items => rfl
    | empty length => exact List.length_eq_zero_iff.mp (Option.some.inj length)
  · rintro rfl
    exact .items nodes

/-- What is no list can only list nothing. -/
theorem lists_iff_of_ne_list (other : ∀ items, v ≠ .list items) :
    Lists v nodes ↔ v.length? = some 0 ∧ nodes = [] := by
  constructor
  · intro lists
    cases lists with
    | items => exact absurd rfl (other _)
    | empty length => exact ⟨length, rfl⟩
  · rintro ⟨length, rfl⟩
    exact .empty length

theorem nodesOf?_of_ne_list (other : ∀ items, v ≠ .list items) :
    nodesOf? v = if v.length? = some 0 then some [] else none := by
  rw [nodesOf?]
  exact other

theorem nodesOf?_eq_some_iff :
    nodesOf? v = some nodes ↔ Lists v nodes ∧ ∀ b ∈ nodes, b.size = 32 := by
  by_cases isList : ∃ items, v = .list items
  · obtain ⟨items, rfl⟩ := isList
    rw [nodesOf?_list_iff, lists_list_iff]
  · have other : ∀ items, v ≠ .list items := not_exists.mp isList
    rw [nodesOf?_of_ne_list other, lists_iff_of_ne_list other]
    constructor
    · intro found
      obtain ⟨length, none⟩ := Option.ite_none_right_eq_some.mp found
      cases none
      exact ⟨⟨length, rfl⟩, List.forall_mem_nil _⟩
    · rintro ⟨⟨length, rfl⟩, -⟩
      exact if_pos length

/-! ### Checks -/

/-- A value counts as a whole number from another one on. -/
def AtLeast (least : Int) (v : Value) : Prop := ∃ n, v.integer? = some n ∧ least ≤ n

/-- Parts that make a proof: a leaf and a root of 32 bytes, a branch of such hashes, a position that
fits its length, and the leaf leads along the branch to the root. -/
def IsProof (leaf branch index root : Value) : Prop :=
  ∃ (l r : ByteArray) (nodes : List ByteArray) (i : Nat), leaf = .bytes l ∧ root = .bytes r ∧
    Lists branch nodes ∧ index.integer? = some (i : Int) ∧ l.size = 32 ∧ r.size = 32 ∧
    (∀ b ∈ nodes, b.size = 32) ∧ i < twoTo nodes.length ∧ climb l i nodes = r

/-- Parts that make a proof with a generalized index. -/
def IsGindexProof (leaf branch gindex root : Value) : Prop :=
  ∃ n i : Nat, branch.length? = some n ∧ i < twoTo n ∧
    gindex.integer? = some ((twoTo n + i : Nat) : Int) ∧ IsProof leaf branch (.int i) root

/-- How a check ends: it fails for want of a length, or it answers whether the parts are right. -/
structure Ends (r : Except Fault Bool) (unmeasured right : Prop) : Prop where
  fails : ∀ f, r = .error f ↔ f = .wrongType ∧ unmeasured
  accepts : r = .ok true ↔ right
  rejects : r = .ok false ↔ ¬unmeasured ∧ ¬right

theorem ends_of_answers {r : Except Fault Bool} {unmeasured right : Prop}
    (fails : unmeasured → r = .error .wrongType) (answers : ¬unmeasured → ∃ b, r = .ok b)
    (accepts : r = .ok true ↔ right) : Ends r unmeasured right := by
  rcases r with g | b
  · have stuck : unmeasured := by
      by_contra measured
      obtain ⟨b, ⟨⟩⟩ := answers measured
    have wrong : g = .wrongType := Except.error.inj (fails stuck)
    refine ⟨fun f => ?_, accepts, by simp [stuck]⟩
    rw [Except.error.injEq, wrong]
    simp [stuck, eq_comm]
  · have measured : ¬unmeasured := fun stuck => by cases fails stuck
    refine ⟨by simp [measured], accepts, ?_⟩
    rw [← accepts]
    cases b
    · simp [measured]
    · simp

theorem provesValues_of_unmeasured (position : AtLeast 0 index) (none : branch.length? = none) :
    provesValues leaf branch index root = .error .wrongType := by
  obtain ⟨i, isInt, ge⟩ := position
  simp only [provesValues, isInt, none, if_neg (Int.not_lt.mpr ge)]

/-- A check that does not have to measure a branch without a length answers. -/
theorem exists_provesValues_eq (measured : ¬(AtLeast 0 index ∧ branch.length? = none)) :
    ∃ b, provesValues leaf branch index root = .ok b := by
  rw [provesValues]
  split
  · exact ⟨false, rfl⟩
  rename_i i isInt
  split
  · exact ⟨false, rfl⟩
  rename_i ge
  split
  · rename_i none
    exact absurd ⟨⟨i, isInt, Int.not_lt.mp ge⟩, none⟩ measured
  split
  · exact ⟨false, rfl⟩
  split
  · exact ⟨_, rfl⟩
  · exact ⟨false, rfl⟩

theorem isProof_of_provesValues (accepted : provesValues leaf branch index root = .ok true) :
    IsProof leaf branch index root := by
  rw [provesValues] at accepted
  split at accepted
  · cases accepted
  rename_i i isInt
  split at accepted
  · cases accepted
  rename_i ge
  split at accepted
  · cases accepted
  split at accepted
  · cases accepted
  split at accepted
  · rename_i l r nodes found
    obtain ⟨i, rfl⟩ := Int.eq_ofNat_of_zero_le (Int.not_lt.mp ge)
    obtain ⟨lists, -⟩ := nodesOf?_eq_some_iff.mp found
    obtain ⟨lt, sizeL, sizeR, sizes, leads⟩ := proves_iff.mp (Except.ok.inj accepted)
    exact ⟨l, r, nodes, i, rfl, rfl, lists, isInt, sizeL, sizeR, sizes, lt, leads⟩
  · cases accepted

theorem provesValues_of_isProof (proof : IsProof leaf branch index root) :
    provesValues leaf branch index root = .ok true := by
  obtain ⟨l, r, nodes, i, rfl, rfl, lists, isInt, sizeL, sizeR, sizes, lt, leads⟩ := proof
  have notNegative : ¬(i : Int) < 0 := by omega
  have fits : ¬(twoTo nodes.length : Int) ≤ i := by omega
  have holds := proves_iff.mpr ⟨lt, sizeL, sizeR, sizes, leads⟩
  simp only [provesValues, isInt, if_neg notNegative, lists.length?, if_neg fits,
    nodesOf?_eq_some_iff.mpr ⟨lists, sizes⟩, holds]

theorem ends_provesValues (leaf branch index root : Value) :
    Ends (provesValues leaf branch index root) (AtLeast 0 index ∧ branch.length? = none)
      (IsProof leaf branch index root) :=
  ends_of_answers (fun stuck => provesValues_of_unmeasured stuck.1 stuck.2) exists_provesValues_eq
    ⟨isProof_of_provesValues, provesValues_of_isProof⟩

/-! ### Generalized indices -/

variable {gindex : Value}

/-- The generalized index of a position and the position itself are checked alike, whatever stands
for the leaf, the root and the hashes. -/
theorem provesGindexValues_eq {i n : Nat} (lt : i < twoTo n) (length : branch.length? = some n)
    (isInt : gindex.integer? = some ((twoTo n + i : Nat) : Int)) (leaf root : Value) :
    provesGindexValues leaf branch gindex root = provesValues leaf branch (.int i) root := by
  have pos := twoTo_pos n
  have inner : ((twoTo n + i : Nat) : Int) - (twoTo n : Int) = i := by omega
  rw [provesGindexValues, isInt, length]
  dsimp only
  rw [if_neg (by omega), Int.toNat_natCast, Gindex.log2_leaf lt, if_neg (by simp), inner]

theorem provesGindexValues_of_unmeasured (positive : AtLeast 1 gindex)
    (none : branch.length? = none) :
    provesGindexValues leaf branch gindex root = .error .wrongType := by
  obtain ⟨g, isInt, ge⟩ := positive
  simp only [provesGindexValues, isInt, none, if_neg (Int.not_lt.mpr ge)]

/-- A generalized index that is checked further has the depth of the branch, and is the one of the
position that is checked. -/
theorem provesGindexValues_cases (measured : ¬(AtLeast 1 gindex ∧ branch.length? = none))
    (leaf root : Value) : provesGindexValues leaf branch gindex root = .ok false ∨
      ∃ n i : Nat, branch.length? = some n ∧ i < twoTo n ∧
        gindex.integer? = some ((twoTo n + i : Nat) : Int) := by
  rw [provesGindexValues]
  split
  · exact .inl rfl
  rename_i g isInt
  split
  · exact .inl rfl
  rename_i positive
  split
  · rename_i none
    exact absurd ⟨⟨g, isInt, Int.not_lt.mp positive⟩, none⟩ measured
  rename_i n length
  split
  · exact .inl rfl
  rename_i deep
  obtain ⟨g, rfl⟩ := Int.eq_ofNat_of_zero_le (show 0 ≤ g by omega)
  rw [Int.toNat_natCast, not_not] at deep
  obtain ⟨i, lt, split⟩ := Gindex.exists_leaf (show 1 ≤ g by omega)
  rw [deep] at lt split
  exact .inr ⟨n, i, length, lt, split ▸ isInt⟩

theorem provesGindexValues_eq_true_iff :
    provesGindexValues leaf branch gindex root = .ok true ↔
      IsGindexProof leaf branch gindex root := by
  constructor
  · intro accepted
    have measured : ¬(AtLeast 1 gindex ∧ branch.length? = none) := by
      rintro ⟨positive, none⟩
      rw [provesGindexValues_of_unmeasured positive none] at accepted
      cases accepted
    rcases provesGindexValues_cases measured leaf root with refused | ⟨n, i, length, lt, isInt⟩
    · cases refused.symm.trans accepted
    · rw [provesGindexValues_eq lt length isInt] at accepted
      exact ⟨n, i, length, lt, isInt, isProof_of_provesValues accepted⟩
  · rintro ⟨n, i, length, lt, isInt, proof⟩
    rw [provesGindexValues_eq lt length isInt, provesValues_of_isProof proof]

theorem ends_provesGindexValues (leaf branch gindex root : Value) :
    Ends (provesGindexValues leaf branch gindex root) (AtLeast 1 gindex ∧ branch.length? = none)
      (IsGindexProof leaf branch gindex root) := by
  refine ends_of_answers (fun stuck => provesGindexValues_of_unmeasured stuck.1 stuck.2)
    (fun measured => ?_) provesGindexValues_eq_true_iff
  rcases provesGindexValues_cases measured leaf root with refused | ⟨n, i, length, lt, isInt⟩
  · exact ⟨false, refused⟩
  · rw [provesGindexValues_eq lt length isInt]
    exact exists_provesValues_eq fun stuck => by cases length.symm.trans stuck.2

/-- Checks of anything. For all parts, of whatever shape, a check with a position and one with a
generalized index fail exactly if they get a number to measure a branch against that has no length;
they answer yes to exactly the parts that make a proof, and no to all others. -/
theorem checks_end (leaf branch index root : Value) :
    Ends (provesValues leaf branch index root) (AtLeast 0 index ∧ branch.length? = none)
        (IsProof leaf branch index root) ∧
      Ends (provesGindexValues leaf branch index root)
        (AtLeast 1 index ∧ branch.length? = none) (IsGindexProof leaf branch index root) :=
  ⟨ends_provesValues leaf branch index root, ends_provesGindexValues leaf branch index root⟩

/-- A missing branch makes both checks fail, although every other part is as it has to be. -/
theorem missing_branch_fails :
    provesValues (.bytes zeroChunk) .null (.int 0) (.bytes zeroChunk) = .error .wrongType ∧
      provesGindexValues (.bytes zeroChunk) .null (.int 1) (.bytes zeroChunk) =
        .error .wrongType :=
  ⟨rfl, rfl⟩

end BeaconBranch.Merkle
