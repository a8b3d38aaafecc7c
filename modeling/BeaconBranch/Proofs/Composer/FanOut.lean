import BeaconBranch.Proofs.Composer.Complete
import BeaconBranch.Proofs.Composer.Openings

/-!
Proofs for many indices. The calls share the two list trees of a composer, and each call hands the
trees on as it leaves them; but all their nodes were computed when the composer was built, so no
call leaves anything behind, and it does not matter which calls were made before and in which order
the workers make theirs. Main statement: whatever was asked before and in whatever order the calls
are made, the outcome is that of a composer that was never asked, index by index, up to the first
index that is out of range.
-/

namespace BeaconBranch

open Outcome Merkle

/-- Several workers give what a single one gives, with the same first failure. -/
theorem gather_map {α : Type} (prove : Int → Except Fault α) (indices : List Int) :
    gather (indices.map prove) = indices.mapM prove := by
  induction indices with
  | nil => rfl
  | cons i rest ih =>
    rw [List.map_cons, List.mapM_cons]
    cases prove i with
    | error f => rfl
    | ok a =>
      rw [gather, ih]
      cases rest.mapM prove <;> rfl

theorem proveMany?_eq {α : Type} (prove : Int → Except Fault α) (indices : List Int)
    (workers : Int) : proveMany? prove indices workers = indices.mapM prove := by
  rw [proveMany?]
  split
  · rfl
  · exact gather_map prove indices

theorem Snapshot.validator?_of_outside {s : Snapshot} {i : Int}
    (outside : ¬(0 ≤ i ∧ i < s.validators.size)) :
    s.validator? i = .error (.indexOutOfRange "validator" i s.validators.size) := by
  rw [validator?]
  split
  · rfl
  · have none : s.validators[i.toNat]? = none := Array.getElem?_eq_none (by omega)
    rw [none]

theorem Snapshot.balance?_of_outside {s : Snapshot} {i : Int}
    (outside : ¬(0 ≤ i ∧ i < s.balances.length)) :
    s.balance? i = .error (.indexOutOfRange "balance" i s.balances.length) := by
  rw [balance?]
  split
  · rfl
  · have none : s.balances[i.toNat]? = none := List.getElem?_eq_none (by omega)
    rw [none]

/-! ### Calls -/

namespace Composer

/-- A call of one of the proof functions. -/
inductive Call
  | validator (index : Int) (shown : Option Record)
  | balance (index : Int)
  | fullBalance (index : Int)
  | container
  | field (index : Int)

/-- The composer that a call leaves behind: a branch of one of the list trees may add nodes to the
tree. A call that is refused for its index does not get to the tree. -/
def after (c : Composer) : Call → Composer
  | .validator i _ =>
    if (c.snapshot.validator? i).isOk then
      { c with validatorsTree := (c.validatorsTree.computeBranch? i).2 }
    else c
  | .balance i | .fullBalance i =>
    if (c.snapshot.balance? i).isOk ∧ (c.snapshot.validator? i).isOk then
      { c with
        balancesTree := (c.balancesTree.computeBranch? (i / (Limits.balancesPerChunk : Int))).2 }
    else c
  | .container | .field _ => c

/-- The composer after a row of calls. -/
def afterAll (c : Composer) (calls : List Call) : Composer := calls.foldl after c

variable {s : Snapshot} {c : Composer}

/-- The branches of a composer's list trees add nothing to the trees. -/
theorem computeBranch?_snd (built : ofSnapshot? s = .ok c) (i : Int) :
    (c.validatorsTree.computeBranch? i).2 = c.validatorsTree ∧
      (c.balancesTree.computeBranch? i).2 = c.balancesTree := by
  simp only [ofSnapshot?, Chunk.validatorsTree?_eq_ok_iff, Chunk.balancesTree?_eq_ok_iff,
    bind_eq_ok_iff, pure_eq_ok_iff] at built
  obtain ⟨_, -, vTree, vBuilt, bTree, ⟨_, -, bBuilt⟩, _, -, _, -, _, -, rfl⟩ := built
  obtain ⟨-, -, vSound, -, -, vFresh⟩ := SparseTree.ofLeaves?_spec vBuilt
  obtain ⟨-, -, bSound, -, -, bFresh⟩ := SparseTree.ofLeaves?_spec bBuilt
  exact ⟨SparseTree.computeBranch?_computeRoot vSound vFresh i,
    SparseTree.computeBranch?_computeRoot bSound bFresh i⟩

/-- A call leaves a composer as it was. -/
theorem after_eq (built : ofSnapshot? s = .ok c) (call : Call) : c.after call = c := by
  have same := computeBranch?_snd built
  cases call with
  | validator i _ =>
    rw [after, (same i).1]
    exact ite_self c
  | balance i | fullBalance i =>
    rw [after, (same _).2]
    exact ite_self c
  | container | field _ => rfl

/-- So does a row of calls, whichever of them are refused. -/
theorem afterAll_eq (built : ofSnapshot? s = .ok c) (calls : List Call) : c.afterAll calls = c := by
  induction calls with
  | nil => rfl
  | cons call rest ih => rw [afterAll, List.foldl_cons, after_eq built, ← afterAll, ih]

/-! ### Proof functions -/

/-- The proof functions that are run over many indices. -/
inductive Subject
  | validator
  | balance
  | fullBalance

namespace Subject

/-- What is proven for each index. -/
def Proof : Subject → Type
  | validator => ValidatorProof
  | balance => BalanceProof
  | fullBalance => List ByteArray

/-- The proof for an index, from a composer with the trees as they are at the time of the call. -/
def prove? : (q : Subject) → Composer → Int → Except Fault q.Proof
  | validator, c, i => c.validatorProof? i none
  | balance, c, i => c.balanceProof? i
  | fullBalance, c, i => c.fullBalanceBranch? i

def call : Subject → Int → Call
  | validator, i => .validator i none
  | balance, i => .balance i
  | fullBalance, i => .fullBalance i

/-- The indices that something can be proven for. -/
def InRange (s : Snapshot) (i : Int) : Subject → Prop
  | validator => 0 ≤ i ∧ i < s.validators.size
  | balance | fullBalance => 0 ≤ i ∧ i < s.validators.size ∧ i < s.balances.length

/-! ### Runs -/

/-- The calls of a single worker, each on the composer that the one before left behind, up to the
first failure. -/
def inTurn (q : Subject) (c : Composer) : List Int → Except Fault (List q.Proof)
  | [] => .ok []
  | i :: rest => do
    let proof ← q.prove? c i
    return proof :: (← q.inTurn (c.after (q.call i)) rest)

/-- The calls of several workers in the order in which they are made, each on the composer that the
one before left behind, with the places of their indices. -/
def shared (q : Subject) (c : Composer) : List (Int × Nat) → List (Nat × Except Fault q.Proof)
  | [] => []
  | e :: rest => (e.2, q.prove? c e.1) :: q.shared (c.after (q.call e.1)) rest

end Subject

/-- Hands over what was shared out, place by place: the first failure ends it, and nothing is handed
over at a place whose call was not made. -/
def handOver {α : Type} (results : List (Nat × Except Fault α)) :
    List Nat → Option (Except Fault (List α))
  | [] => some (.ok [])
  | k :: rest =>
    match results.lookup k with
    | none => none
    | some (.error f) => some (.error f)
    | some (.ok a) => (handOver results rest).map fun others => others.map (a :: ·)

/-- The outcome for many indices, where several workers make their calls in the given order. -/
def Subject.fanOut (q : Subject) (c : Composer) (indices : List Int) (workers : Int)
    (order : List (Int × Nat)) : Option (Except Fault (List q.Proof)) :=
  if workers ≤ 1 ∨ indices.length ≤ 1 then some (q.inTurn c indices)
  else handOver (q.shared c order) (indices.zipIdx.map Prod.snd)

/-! ### No call leaves a trace -/

namespace Subject

theorem inTurn_eq (built : ofSnapshot? s = .ok c) (q : Subject) (indices : List Int) :
    q.inTurn c indices = indices.mapM fun i => q.prove? c i := by
  induction indices with
  | nil => rfl
  | cons i rest ih => rw [inTurn, after_eq built, ih, List.mapM_cons]

theorem shared_eq (built : ofSnapshot? s = .ok c) (q : Subject) (order : List (Int × Nat)) :
    q.shared c order = order.map fun e => (e.2, q.prove? c e.1) := by
  induction order with
  | nil => rfl
  | cons e rest ih => rw [shared, after_eq built, ih, List.map_cons]

end Subject

/-! ### Results in place -/

section HandOver

variable {α : Type} {results : List (Nat × Except Fault α)} {prove : Int → Except Fault α}
  {entries : List (Int × Nat)}

/-- Something is handed over if the calls of all places were made. -/
theorem exists_handOver {places : List Nat}
    (made : ∀ k ∈ places, ∃ x, results.lookup k = some x) :
    ∃ outcome, handOver results places = some outcome := by
  induction places with
  | nil => exact ⟨_, rfl⟩
  | cons k rest ih =>
    obtain ⟨⟨x, first⟩, others⟩ := List.forall_mem_cons.mp made
    obtain ⟨outcome, later⟩ := ih others
    rw [handOver, first]
    cases x with
    | error f => exact ⟨_, rfl⟩
    | ok a => exact ⟨_, congrArg (Option.map _) later⟩

/-- What is handed over is what a single worker gives, also if some calls were not made. -/
theorem eq_mapM_of_handOver (each : ∀ e ∈ entries, ∀ x, results.lookup e.2 = some x → x = prove e.1)
    {outcome : Except Fault (List α)}
    (handed : handOver results (entries.map Prod.snd) = some outcome) :
    outcome = (entries.map Prod.fst).mapM prove := by
  induction entries generalizing outcome with
  | nil => exact (Option.some.inj handed).symm
  | cons e rest ih =>
    obtain ⟨first, others⟩ := List.forall_mem_cons.mp each
    rw [List.map_cons, handOver] at handed
    rw [List.map_cons, List.mapM_cons]
    cases found : results.lookup e.2 with
    | none => rw [found] at handed; cases handed
    | some x =>
      rw [found] at handed
      rw [← first x found]
      cases x with
      | error f => exact (Option.some.inj handed).symm
      | ok a =>
        obtain ⟨rest', later, rfl⟩ := Option.map_eq_some_iff.mp handed
        rw [ih others later]
        cases (rest.map Prod.fst).mapM prove <;> rfl

/-- A call that was made has a result. -/
theorem exists_lookup_results {order : List (Int × Nat)} {e : Int × Nat} (mem : e ∈ order) :
    ∃ x, (order.map fun e => (e.2, prove e.1)).lookup e.2 = some x := by
  cases found : (order.map fun e => (e.2, prove e.1)).lookup e.2 with
  | none =>
    have absent := List.lookup_eq_none_iff.mp found _ (List.mem_map_of_mem mem)
    exact absurd rfl (bne_iff_ne.mp absent)
  | some x => exact ⟨x, rfl⟩

/-- A result that was shared out is that of a call that was made. -/
theorem exists_of_lookup_results {order : List (Int × Nat)} {k : Nat} {x : Except Fault α}
    (found : (order.map fun e => (e.2, prove e.1)).lookup k = some x) :
    ∃ e ∈ order, e.2 = k ∧ prove e.1 = x := by
  obtain ⟨before, after, split, -⟩ := List.lookup_eq_some_iff.mp found
  have mem : (k, x) ∈ order.map fun e => (e.2, prove e.1) := by
    rw [split]
    exact List.mem_append_right _ List.mem_cons_self
  obtain ⟨e, inOrder, same⟩ := List.mem_map.mp mem
  obtain ⟨place, result⟩ := Prod.mk.inj same
  exact ⟨e, inOrder, place, result⟩

/-- The calls of a run belong to the indices at their places. -/
theorem lookup_results {indices : List Int} {order : List (Int × Nat)}
    (within : order ⊆ indices.zipIdx) {e : Int × Nat} (mem : e ∈ indices.zipIdx)
    {x : Except Fault α} (found : (order.map fun e => (e.2, prove e.1)).lookup e.2 = some x) :
    x = prove e.1 := by
  obtain ⟨e', inOrder, place, rfl⟩ := exists_of_lookup_results found
  have own := List.mem_zipIdx_iff_getElem?.mp mem
  have other := List.mem_zipIdx_iff_getElem?.mp (within inOrder)
  rw [place] at other
  rw [Option.some.inj (own.symm.trans other)]

/-- Workers that make calls for the indices, if not all of them, hand over nothing but what a single
worker gives. -/
theorem eq_mapM_of_handOver_results {indices : List Int} {order : List (Int × Nat)}
    (within : order ⊆ indices.zipIdx) {outcome : Except Fault (List α)}
    (handed : handOver (order.map fun e => (e.2, prove e.1)) (indices.zipIdx.map Prod.snd) =
      some outcome) : outcome = indices.mapM prove := by
  have same := eq_mapM_of_handOver (fun e mem x => lookup_results within mem) handed
  rwa [List.zipIdx_map_fst] at same

/-- Workers that make all calls hand over what a single worker gives, in whatever order they make
them. -/
theorem handOver_results {indices : List Int} {order : List (Int × Nat)}
    (perm : order.Perm indices.zipIdx) :
    handOver (order.map fun e => (e.2, prove e.1)) (indices.zipIdx.map Prod.snd) =
      some (indices.mapM prove) := by
  have made : ∀ k ∈ indices.zipIdx.map Prod.snd,
      ∃ x, (order.map fun e => (e.2, prove e.1)).lookup k = some x := by
    intro k mem
    obtain ⟨e, listed, rfl⟩ := List.mem_map.mp mem
    exact exists_lookup_results (perm.mem_iff.mpr listed)
  obtain ⟨outcome, handed⟩ := exists_handOver made
  rw [handed, eq_mapM_of_handOver_results perm.subset handed]

end HandOver

/-! ### Indices in range -/

namespace Subject

/-- An index in range has a proof. -/
theorem exists_prove? (built : ofSnapshot? s = .ok c)
    (records : ∀ v ∈ s.validators, v.IsA .validator) {q : Subject} {i : Int}
    (inside : q.InRange s i) : ∃ p, q.prove? c i = .ok p := by
  obtain ⟨roots, chunks, fieldRoots, trees⟩ := ofSnapshot?_spec built
  have balance : ∀ {n : Nat}, n < s.validators.size → n < s.balances.length →
      ∃ p, c.balanceProof? n = .ok p ∧ p.branch.length = 39 ∧ p.holds n c.balancesRoot = true ∧
        n / 4 < twoTo 38 := by
    intro n lt ltBalances
    obtain ⟨p, ok, length, holds, -, place⟩ := trees.balanceProof
      (records _ (Array.getElem_mem lt)) (Array.getElem?_eq_getElem lt)
      (List.getElem?_eq_getElem ltBalances)
    exact ⟨p, ok, length, holds, place⟩
  cases q with
  | validator =>
    obtain ⟨ge, lt⟩ := inside
    obtain ⟨n, rfl⟩ := Int.eq_ofNat_of_zero_le ge
    have lt : n < s.validators.size := by omega
    obtain ⟨p, _, _, ok, -⟩ := trees.validatorProof (records _ (Array.getElem_mem lt))
      (Array.getElem?_eq_getElem lt)
    exact ⟨p, ok⟩
  | balance =>
    obtain ⟨ge, lt, ltBalances⟩ := inside
    obtain ⟨n, rfl⟩ := Int.eq_ofNat_of_zero_le ge
    obtain ⟨p, ok, -⟩ := balance (n := n) (by omega) (by omega)
    exact ⟨p, ok⟩
  | fullBalance =>
    obtain ⟨ge, lt, ltBalances⟩ := inside
    obtain ⟨n, rfl⟩ := Int.eq_ofNat_of_zero_le ge
    obtain ⟨p, ok, length, holds, place⟩ := balance (n := n) (by omega) (by omega)
    obtain ⟨branch, _, whole, -⟩ := trees.fullBalanceBranch ok length holds place
    exact ⟨branch, whole⟩

/-- An index out of range is refused for what it is. -/
theorem exists_refusal (built : ofSnapshot? s = .ok c) {q : Subject} {i : Int}
    (outside : ¬q.InRange s i) : ∃ f, f.kind = .indexOutOfRange ∧ q.prove? c i = .error f := by
  obtain ⟨_, _, _, trees⟩ := ofSnapshot?_spec built
  have balance : ¬(0 ≤ i ∧ i < s.validators.size ∧ i < s.balances.length) →
      ∃ f, f.kind = .indexOutOfRange ∧ c.balanceProof? i = .error f := by
    intro outside
    rw [balanceProof?, trees.snapshot]
    by_cases held : 0 ≤ i ∧ i < s.balances.length
    · have unknown := s.validator?_of_outside (i := i) (by omega)
      obtain ⟨n, rfl⟩ := Int.eq_ofNat_of_zero_le held.1
      have lt : n < s.balances.length := by omega
      rw [Snapshot.balance?_of_getElem? (List.getElem?_eq_getElem lt), unknown]
      exact ⟨_, rfl, rfl⟩
    · rw [s.balance?_of_outside held]
      exact ⟨_, rfl, rfl⟩
  cases q with
  | validator =>
    have unknown := s.validator?_of_outside outside
    refine ⟨.indexOutOfRange "validator" i s.validators.size, rfl, ?_⟩
    rw [prove?, validatorProof?, trees.snapshot, unknown]
    rfl
  | balance => exact balance outside
  | fullBalance =>
    obtain ⟨f, kind, refused⟩ := balance outside
    refine ⟨f, kind, ?_⟩
    rw [prove?, fullBalanceBranch?, refused]
    rfl

end Subject

/-! ### Outcomes -/

/-- The outcome of a proof function for many indices, on a composer in use: it does not depend on
the order of the calls, and index by index it is that of the composer as it was built. -/
structure Reproducible (q : Subject) (s : Snapshot) (c used : Composer) (indices : List Int)
    (workers : Int) : Prop where
  /-- Workers may make the calls in any order. -/
  anyOrder : ∀ order : List (Int × Nat), order.Perm indices.zipIdx →
    q.fanOut used indices workers order = some (proveMany? (q.prove? c) indices workers)
  /-- Calls that are not made any more after a failure are not missed. -/
  anyCalls : ∀ (order : List (Int × Nat)) (outcome : Except Fault (List q.Proof)),
    order ⊆ indices.zipIdx → q.fanOut used indices workers order = some outcome →
      outcome = proveMany? (q.prove? c) indices workers
  proofs : (∀ i ∈ indices, q.InRange s i) → ∃ proofs,
    proveMany? (q.prove? c) indices workers = .ok proofs ∧
      List.Forall₂ (fun i p => q.prove? c i = .ok p) indices proofs
  failure : ∀ (before : List Int) (i : Int) (behind : List Int), indices = before ++ i :: behind →
    (∀ j ∈ before, q.InRange s j) → ¬q.InRange s i →
      ∃ f, f.kind = .indexOutOfRange ∧ q.prove? c i = .error f ∧
        proveMany? (q.prove? c) indices workers = .error f

/-- Proofs for many indices depend neither on the calls made before, refused ones among them, nor on
the number of workers and the order of their calls: they are the proofs that a new composer of the
state gives for each index, or its refusal of the first index out of range. -/
theorem fan_out_reproducible (built : ofSnapshot? s = .ok c)
    (records : ∀ v ∈ s.validators, v.IsA .validator) (earlier : List Call) (q : Subject)
    (indices : List Int) (workers : Int) :
    Reproducible q s c (c.afterAll earlier) indices workers := by
  have many := proveMany?_eq (q.prove? c) indices workers
  rw [afterAll_eq built]
  refine ⟨fun order perm => ?_, fun order outcome within handed => ?_, fun inside => ?_,
    fun before i behind split inside outside => ?_⟩
  · rw [many, Subject.fanOut, q.inTurn_eq built, q.shared_eq built, handOver_results perm]
    exact ite_self _
  · rw [Subject.fanOut, q.inTurn_eq built, q.shared_eq built] at handed
    rw [many]
    split at handed
    · exact (Option.some.inj handed).symm
    · exact eq_mapM_of_handOver_results within handed
  · obtain ⟨proofs, ok⟩ := exists_mapM_eq_ok_iff.mpr fun i mem =>
      Subject.exists_prove? built records (inside i mem)
    exact ⟨proofs, many.trans ok, mapM_eq_ok_iff.mp ok⟩
  · obtain ⟨f, kind, refused⟩ := Subject.exists_refusal built outside
    refine ⟨f, kind, refused, many.trans (mapM_eq_error_iff.mpr ?_)⟩
    exact ⟨before, i, behind, split,
      fun j mem => Subject.exists_prove? built records (inside j mem), refused⟩

/-- A state with a single validator: of three indices the one in the middle is refused, whichever
call comes first, and whatever was asked before. -/
theorem fan_out_reproducible_lone : ∃ s c f, Snapshot.decode? State.loneBuffer = .ok s ∧
    ofSnapshot? s = .ok c ∧ (∀ v ∈ s.validators, v.IsA .validator) ∧
    Reproducible .balance s c (c.afterAll [.validator 5 none, .container, .balance 0]) [0, 7, 0] 3 ∧
    f.kind = .indexOutOfRange ∧ c.balanceProof? 7 = .error f ∧
    Subject.balance.fanOut (c.afterAll [.validator 5 none, .container, .balance 0]) [0, 7, 0] 3
      [(0, 2), (7, 1), (0, 0)] = some (.error f) := by
  obtain ⟨s, root, read, hashed, validators, balances⟩ := State.exists_loneState
  obtain ⟨c, built⟩ := exists_ofSnapshot? hashed
  have records : ∀ v ∈ s.validators, v.IsA .validator := fun v mem =>
    (Snapshot.fits_of_decode? read v mem).isA
  have free := fan_out_reproducible built records [.validator 5 none, .container, .balance 0]
    .balance [0, 7, 0] 3
  have range : ∀ i : Int, Subject.balance.InRange s i ↔ i = 0 := by
    intro i
    simp only [Subject.InRange, validators, balances, List.size_toArray, List.length_singleton]
    omega
  have first : ∀ j ∈ [(0 : Int)], Subject.balance.InRange s j := fun j mem =>
    (range j).mpr (List.mem_singleton.mp mem)
  have last : ¬Subject.balance.InRange s 7 := fun inside => by
    have zero := (range 7).mp inside
    omega
  obtain ⟨f, kind, refused, outcome⟩ := free.failure [0] 7 [0] rfl first last
  exact ⟨s, c, f, read, built, records, free, kind, refused,
    (free.anyOrder _ (by decide)).trans (congrArg some outcome)⟩

end Composer

end BeaconBranch
