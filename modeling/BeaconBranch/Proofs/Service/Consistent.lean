import BeaconBranch.Proofs.Service.Run
import BeaconBranch.Proofs.Service.Telling

/-!
Documents are consistent. A request ends with a document only if everything in it hangs together:
the block root is the root of one header, the state root of this header is proven under it, and all
other proofs lead to this state root. No reply is trusted for it, whatever the nodes say. Main
statement: the documents of all three requests are consistent, in every session of a service.
-/

namespace BeaconBranch.Service

open Exchange Merkle

/-- The withdrawal credentials of validators are consistent: for each index in turn, a record from
one reply of the beacon node is proven under the anchor's state root. -/
structure CredentialConsistent (s : Settings) (nodes : Nodes) (first last : Session)
    (indices : List Int) (r : CredentialProof) : Prop where
  anchored : ∃ header, Anchored s nodes first last header r.anchor
  requested : r.indices = indices
  validators : ∃ reply items,
    Told s nodes first last ("/eth/v1/beacon/states/" ++ finalized ++ "/validators") reply ∧
    reply.items? = .ok items ∧
    List.Forall₂ (fun index p => ∃ e ∈ items, (e.atKey? "index" >>= Value.whole?) = .ok index ∧
      ∃ v, BeaconNode.validatorIn? e = .ok v ∧
        Proven r.anchor.stateRootProof.stateRoot index v p) indices r.validators

/-- The balances of validators are consistent: the state that the beacon node gave has the anchor's
state root, its balances root is proven under it, and for each index in turn the balance is proven
under the balances root. -/
structure CheckpointConsistent (s : Settings) (nodes : Nodes) (first last : Session)
    (indices : List Int) (r : CheckpointProof) : Prop where
  anchored : ∃ header, Anchored s nodes first last header r.anchor
  container : Merkle.proves r.container.balancesRoot r.container.branch 12
    r.anchor.stateRootProof.stateRoot = true
  balances : ∃ answer state,
    Served s nodes first last ("/eth/v2/debug/beacon/states/" ++ finalized) answer ∧
    Snapshot.decode? answer.body = .ok state ∧ state.root? = .ok r.anchor.stateRootProof.stateRoot ∧
    state.balancesRoot? = .ok r.container.balancesRoot ∧
    List.Forall₂ (BalanceProven state r.container.balancesRoot) indices r.balances

/-- A stale balance is consistent: the record in the beacon node's description of the validator is
proven under the anchor's state root, and the rest is told by the same description. -/
structure StaleBalanceConsistent (s : Settings) (nodes : Nodes) (first last : Session)
    (index : Int) (r : StaleBalanceProof) : Prop where
  anchored : ∃ header, Anchored s nodes first last header r.anchor
  validator : ∃ description v, Told s nodes first last
      ("/eth/v1/beacon/states/" ++ finalized ++ "/validators/" ++ toString index) description ∧
    BeaconNode.validatorIn? description = .ok v ∧
    Proven r.anchor.stateRootProof.stateRoot index v r.validator ∧ r.slashed = v.get "slashed" ∧
    (description.atKey? "balance" >>= Value.whole?) = .ok r.balance

variable {s : Settings} {nodes : Nodes} {a b : Session}

theorem credentialProof_consistent (settled : Settled s nodes a) {indices : List Int}
    {r : CredentialProof} (ran : credentialProof s indices nodes a = (.ok r, b)) :
    CredentialConsistent s nodes a b indices r := by
  obtain ⟨d, u, v, w, found, validators, run⟩ := credentialProof_run ran
  obtain ⟨header, anchored⟩ := run.begun.anchored settled
  have middle : Advance s nodes u v := (walks_descriptions indices d).advances _ _ _ run.described
  have last : Advance s nodes v b :=
    run.reading.trans ((walks_validatorProofs _ d _).advances _ _ _ run.proved)
  obtain ⟨reply, items, told, whole, each⟩ := told_of_descriptions run.described
  have made := madeFor_of_validatorProofs ?single run.proved
  -- An index may be asked for twice, but both times the same description is looked up for it.
  case single =>
    rintro ⟨i, v⟩ memV ⟨j, w⟩ memW same
    obtain rfl : i = j := same
    exact Except.ok.inj ((List.forall₂_zip run.records memV).symm.trans
      (List.forall₂_zip run.records memW))
  refine ⟨⟨header, anchored.mono (.refl a) (middle.trans last)⟩, run.requested, reply, items,
    told.mono run.begun.advance last, whole, ?_⟩
  have count : indices.length = r.validators.length := by
    rw [← made.length_eq, List.length_zip, ← run.records.length_eq, Nat.min_self]
  refine Outcome.forall₂_of_getElem? count fun k index p foundIndex foundP => ?_
  obtain ⟨e, inItems, looked, names⟩ := each index (List.mem_of_getElem? foundIndex)
  have lt : k < validators.length :=
    run.records.length_eq ▸ (List.getElem?_eq_some_iff.mp foundIndex).1
  have foundV := List.getElem?_eq_getElem lt
  have record := Outcome.forall₂_getElem? run.records foundIndex foundV
  rw [looked] at record
  exact ⟨e, inItems, names, validators[k], record,
    proven_of_checkValidators made run.checked foundIndex foundV foundP⟩

theorem checkpointProof_consistent (settled : Settled s nodes a) {indices : List Int}
    {r : CheckpointProof} (ran : checkpointProof s indices nodes a = (.ok r, b)) :
    CheckpointConsistent s nodes a b indices r := by
  obtain ⟨d, u, c, run⟩ := checkpointProof_run ran
  obtain ⟨header, anchored⟩ := run.begun.anchored settled
  have last : Advance s nodes u b := (walks_composer _ d).advances _ _ _ run.composed
  obtain ⟨answer, state, served, read, built, same⟩ := served_of_composer run.composed
  obtain ⟨roots, chunks, fieldRoots, trees⟩ := Composer.ofSnapshot?_spec built
  have container : r.container.balancesRoot = c.balancesRoot := by
    have contained := run.contained
    simp only [Composer.balanceContainerProof?, Outcome.bind_eq_ok_iff,
      Outcome.pure_eq_ok_iff] at contained
    obtain ⟨branch, -, made⟩ := contained
    rw [← made]
  refine ⟨⟨header, anchored.mono (.refl a) last⟩, same ▸ run.holds, answer, state,
    served.mono run.begun.advance (.refl _), read, same ▸ trees.root?,
    container ▸ trees.balancesRoot, ?_⟩
  refine Outcome.forall₂_of_getElem? run.proved.length_eq fun k index p foundIndex foundP => ?_
  have mem : (index, p) ∈ indices.zip r.balances :=
    List.mem_of_getElem? (List.getElem?_zip_eq_some.mpr ⟨foundIndex, foundP⟩)
  rw [container]
  exact balanceProven_of_holds built (Outcome.forall₂_getElem? run.proved foundIndex foundP)
    (holds_of_checkBalances run.checked mem)

theorem staleBalanceProof_consistent (settled : Settled s nodes a) {index : Int}
    {r : StaleBalanceProof} (ran : staleBalanceProof s index nodes a = (.ok r, b)) :
    StaleBalanceConsistent s nodes a b index r := by
  obtain ⟨d, u, v, description, validator, run⟩ := staleBalanceProof_run ran
  obtain ⟨header, anchored⟩ := run.begun.anchored settled
  have last : Advance s nodes v b := (walks_validatorProofs _ d _).advances _ _ _ run.proved
  have made : List.Forall₂ (fun v p => MadeFor v.1 v.2 p) ([index].zip [validator])
      [r.validator] := madeFor_of_validatorProofs (single_of_singleton (index, validator)) run.proved
  have proven : Proven r.anchor.stateRootProof.stateRoot index validator r.validator :=
    proven_of_checkValidators made run.checked (k := 0) rfl rfl rfl
  exact ⟨⟨header, anchored.mono (.refl a) (run.asking.trans last)⟩, description, validator,
    run.told.mono run.begun.advance last, run.record, proven, run.slashed, run.balance⟩

/-- Every document of a service is consistent, whatever was asked before and whatever the nodes
reply. -/
theorem proofs_consistent (reached : Reached s nodes a) :
    (∀ indices r b, credentialProof s indices nodes a = (.ok r, b) →
      CredentialConsistent s nodes a b indices r) ∧
    (∀ indices r b, checkpointProof s indices nodes a = (.ok r, b) →
      CheckpointConsistent s nodes a b indices r) ∧
    ∀ index r b, staleBalanceProof s index nodes a = (.ok r, b) →
      StaleBalanceConsistent s nodes a b index r :=
  ⟨fun _ _ _ => credentialProof_consistent reached.settled,
    fun _ _ _ => checkpointProof_consistent reached.settled,
    fun _ _ _ => staleBalanceProof_consistent reached.settled⟩

theorem proofs_consistent_lone : ∃ s nodes, Reached s nodes .start ∧
    (∃ r b, credentialProof s [0] nodes .start = (.ok r, b) ∧
      CredentialConsistent s nodes .start b [0] r) ∧
    (∃ r b, checkpointProof s [0] nodes .start = (.ok r, b) ∧
      CheckpointConsistent s nodes .start b [0] r) ∧
    ∃ r b, staleBalanceProof s 0 nodes .start = (.ok r, b) ∧
      StaleBalanceConsistent s nodes .start b 0 r := by
  obtain ⟨nodes, header, state, patient, honest, belongs⟩ := exists_honest_lone
  have alone : Alone loneSettings := alone_of_unnamed rfl rfl
  have belong : ∀ index ∈ [(0 : Int)], Belongs state index := List.forall_mem_singleton.mpr belongs
  have fresh : Reached loneSettings nodes .start := .start
  have consistent := proofs_consistent fresh
  obtain ⟨credentials, b₁, ran₁, -⟩ := gives_credentialProof (patient _ (by decide)) alone rfl
    honest (List.cons_ne_nil _ _) belong .start
  obtain ⟨checkpoint, b₂, ran₂, -⟩ := gives_checkpointProof (patient _ (by decide)) alone honest
    (List.cons_ne_nil _ _) belong .start
  obtain ⟨stale, b₃, ran₃, -⟩ := gives_staleBalanceProof (patient _ (by decide)) alone rfl honest
    belongs .start
  exact ⟨loneSettings, nodes, fresh, ⟨credentials, b₁, ran₁, consistent.1 _ _ _ ran₁⟩,
    ⟨checkpoint, b₂, ran₂, consistent.2.1 _ _ _ ran₂⟩, stale, b₃, ran₃, consistent.2.2 _ _ _ ran₃⟩

end BeaconBranch.Service
