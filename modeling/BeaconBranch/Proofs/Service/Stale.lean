import BeaconBranch.Proofs.Composer.Shown
import BeaconBranch.Proofs.Service.Consistent

/-!
Stale balances. The balance in a document is the one in the beacon node's description of the
validator, which is asked for on its own and may speak of another state than the one that was
proven. The flag in the document comes from the same description, but the record around it is
proven. Main statements: with proofs from the whole state, the flag counts as the one in the state
of the anchor, unless two of the hashed messages collide, and the balance is the one that was told;
and a document whose balance is not that of the state, from a node that tells everything else right.
-/

namespace BeaconBranch.Service

open Exchange Merkle

variable {s : Settings} {nodes : Nodes} {a b : Session}

theorem isA_of_validatorIn? {description : Value} {v : Record}
    (read : BeaconNode.validatorIn? description = .ok v) : v.IsA .validator := by
  obtain ⟨inner, -, read⟩ := Outcome.bind_eq_ok_iff.mp read
  dsimp only at read
  split at read
  · rename_i made
    cases read
    exact Record.isA_of_ofJson? made
  · cases read

/-- What a stale balance with a proof from the whole state goes back to: a state that the beacon
node gave, with the root in the anchor, and a description that it told of the validator. The proof
was made from this state for the record in the description, and was accepted for it. -/
structure StaleBalanceFrom (s : Settings) (nodes : Nodes) (a b : Session) (index : Int)
    (r : StaleBalanceProof) (answer : Answer) (state : Snapshot) (c : Composer)
    (description : Value) (v : Record) : Prop where
  served : Served s nodes a b ("/eth/v2/debug/beacon/states/" ++ finalized) answer
  read : Snapshot.decode? answer.body = .ok state
  built : Composer.ofSnapshot? state = .ok c
  stateRoot : c.stateRoot = r.anchor.stateRootProof.stateRoot
  told : Told s nodes a b ("/eth/v1/beacon/states/" ++ finalized ++ "/validators/" ++
    toString index) description
  record : BeaconNode.validatorIn? description = .ok v
  made : c.validatorProof? index (some v) = .ok r.validator
  accepted : r.validator.holds? v c.stateRoot = .ok true
  slashed : r.slashed = v.get "slashed"
  balance : (description.atKey? "balance" >>= Value.whole?) = .ok r.balance

theorem staleBalanceProof_spec (whole : s.useProver = false) {index : Int} {r : StaleBalanceProof}
    (ran : staleBalanceProof s index nodes a = (.ok r, b)) :
    ∃ answer state c description v,
      StaleBalanceFrom s nodes a b index r answer state c description v := by
  obtain ⟨d, u, w, description, v, run⟩ := staleBalanceProof_run ran
  have last : Advance s nodes w b := (walks_validatorProofs _ d _).advances _ _ _ run.proved
  obtain ⟨answer, state, c, served, decoded, built, same, each⟩ :=
    served_of_validatorProofs whole (single_of_singleton (index, v)) run.proved
  have accepted := holds_of_checkValidators run.checked (p := r.validator) (v := v) (by simp)
  exact ⟨answer, state, c, description, v, served.mono (run.begun.advance.trans run.asking)
    (.refl _), decoded, built, same, run.told.mono run.begun.advance last, run.record,
    (List.forall₂_cons.mp each).1, same ▸ accepted, run.slashed, run.balance⟩

/-- The flag of a record that was accepted counts as the one in the state. -/
theorem StaleBalanceFrom.slashed_eq {index : Int} {r : StaleBalanceProof} {answer : Answer}
    {state : Snapshot} {c : Composer} {description : Value} {v : Record}
    (run : StaleBalanceFrom s nodes a b index r answer state c description v) :
    ∃ own root position, state.validator? index = .ok own ∧ v.root? = .ok root ∧
      Registry.validatorPosition? index = .ok position ∧
      (own.get "slashed" = .flag r.slashed.isTruthy ∨ Collision fun m =>
        State.TreeHashed answer.body m ∨ v.TreeHashed m ∨
          Replayed root position r.validator.branch m) := by
  obtain ⟨same, fields, chunks, traced⟩ := Composer.traced_of_decode? run.read run.built
  have made := run.made
  simp only [Composer.validatorProof?_eq, Outcome.bind_eq_ok_iff, Outcome.pure_eq_ok_iff,
    same] at made
  obtain ⟨own, inState, branch, genuine, leaves, -, proof⟩ := made
  have accepted := run.accepted
  rw [← proof] at accepted ⊢
  simp only [ValidatorProof.holds?, Outcome.bind_eq_ok_iff, Outcome.pure_eq_ok_iff] at accepted
  obtain ⟨root, hashed, position, place, proven⟩ := accepted
  refine ⟨own, root, position, inState, hashed, place, ?_⟩
  obtain ⟨i, rfl, found⟩ := Snapshot.getElem?_of_validator? inState
  obtain ⟨_, _, _, trees⟩ := Composer.ofSnapshot?_spec run.built
  have inTree : i < twoTo 40 := trees.lt_of_validator found
  obtain rfl : ((i + 11 * twoTo 41 : Nat) : Int) = position :=
    Except.ok.inj ((composePositions?_nested inTree 11 5).symm.trans place)
  obtain ⟨_, genuine', length, -⟩ := traced.opens_validator same inTree
  obtain rfl := Except.ok.inj (genuine.symm.trans genuine')
  have isA := isA_of_validatorIn? run.record
  rw [run.slashed]
  exact (traced.chunks_of_proves same found inTree isA hashed length proven).imp_left
    (Record.slashed_of_chunks? (traced.fits own (Array.mem_of_getElem? found)) isA)

/-- A stale balance with a proof from the whole state: the flag counts as that of the validator in
the state of the anchor, unless two of the hashed messages collide, and the balance is the one that
the beacon node told. -/
theorem stale_balance_as_told (whole : s.useProver = false) {index : Int} {r : StaleBalanceProof}
    (ran : staleBalanceProof s index nodes a = (.ok r, b)) :
    ∃ answer state own description v root position,
      Served s nodes a b ("/eth/v2/debug/beacon/states/" ++ finalized) answer ∧
      Snapshot.decode? answer.body = .ok state ∧
      state.root? = .ok r.anchor.stateRootProof.stateRoot ∧ state.validator? index = .ok own ∧
      Told s nodes a b ("/eth/v1/beacon/states/" ++ finalized ++ "/validators/" ++ toString index)
        description ∧
      (description.atKey? "balance" >>= Value.whole?) = .ok r.balance ∧
      BeaconNode.validatorIn? description = .ok v ∧ r.slashed = v.get "slashed" ∧
      v.root? = .ok root ∧ Registry.validatorPosition? index = .ok position ∧
      (own.get "slashed" = .flag r.slashed.isTruthy ∨ Collision fun m =>
        State.TreeHashed answer.body m ∨ v.TreeHashed m ∨
          Replayed root position r.validator.branch m) := by
  obtain ⟨answer, state, c, description, v, run⟩ := staleBalanceProof_spec whole ran
  obtain ⟨own, root, position, inState, hashed, place, flag⟩ := run.slashed_eq
  obtain ⟨_, _, _, trees⟩ := Composer.ofSnapshot?_spec run.built
  exact ⟨answer, state, own, description, v, root, position, run.served, run.read,
    run.stateRoot ▸ trees.root?, inState, run.told, run.balance, run.record, run.slashed, hashed,
    place, flag⟩

theorem stale_balance_as_told_lone : ∃ nodes r b answer state own description v root position,
    loneSettings.useProver = false ∧
    staleBalanceProof loneSettings 0 nodes .start = (.ok r, b) ∧
    Served loneSettings nodes .start b ("/eth/v2/debug/beacon/states/" ++ finalized) answer ∧
    Snapshot.decode? answer.body = .ok state ∧
    state.root? = .ok r.anchor.stateRootProof.stateRoot ∧ state.validator? 0 = .ok own ∧
    Told loneSettings nodes .start b
      ("/eth/v1/beacon/states/" ++ finalized ++ "/validators/" ++ toString (0 : Int)) description ∧
    (description.atKey? "balance" >>= Value.whole?) = .ok r.balance ∧
    BeaconNode.validatorIn? description = .ok v ∧ r.slashed = v.get "slashed" ∧
    v.root? = .ok root ∧ Registry.validatorPosition? 0 = .ok position ∧
    (own.get "slashed" = .flag r.slashed.isTruthy ∨ Collision fun m =>
      State.TreeHashed answer.body m ∨ v.TreeHashed m ∨ Replayed root position r.validator.branch m) := by
  obtain ⟨nodes, header, state, patient, honest, belongs⟩ := exists_honest_lone
  obtain ⟨r, b, ran, -⟩ := gives_staleBalanceProof (patient _ (by decide))
    (alone_of_unnamed rfl rfl) rfl honest belongs .start
  obtain ⟨answer, state, own, description, v, root, position, bound⟩ :=
    stale_balance_as_told rfl ran
  exact ⟨nodes, r, b, answer, state, own, description, v, root, position, rfl, ran, bound⟩

/-! ### Balances that nothing binds -/

section Telling

variable {base : String} {header : Record} {state : Snapshot} {body : ByteArray} {c : Composer}
  {i : Nat} {v : Record}

/-- Nodes that reply to questions about the block and the state as an honest one are at the
block. -/
theorem atBlock_telling (given : Settings.nonEmpty? s.beaconUrl? = some base) (alone : Alone s)
    (fits : header.Fits .blockHeader) (read : Snapshot.decode? body = .ok state)
    (built : Composer.ofSnapshot? state = .ok c)
    (names : header.get "state_root" = .bytes c.stateRoot) (reply : String → Answer)
    (honest : ∀ path : String, path.toList.take singlePath.toList.length ≠ singlePath.toList →
      reply path = honestReply header header.derivation.value state body path) :
    AtBlock s (telling base reply) header header.derivation.value body state c := by
  have tellsHeader := honest ("/eth/v1/beacon/headers/" ++ finalized) (by decide)
  have tellsRoot := honest ("/eth/v1/beacon/blocks/" ++ finalized ++ "/root") (by decide)
  have block := tellsBlock_telling given fits names tellsHeader tellsRoot
  have givesState : Answers s (telling base reply)
      ("/eth/v2/debug/beacon/states/" ++ finalized) (·.body = body) := by
    have replied := honest ("/eth/v2/debug/beacon/states/" ++ finalized) (by decide)
    exact answers_telling given (by rw [replied]; rfl) (by rw [replied]; rfl)
  exact ⟨alone, block, givesState.to _ _, read, built⟩

/-- The reply of a node that tells everything right about a state, but another balance of one
validator. -/
def misreply (header : Record) (state : Snapshot) (body : ByteArray) (i : Nat) (v : Record)
    (balance : Nat) (path : String) : Answer :=
  if path = singlePath ++ toString (i : Int) then dataReply (description i balance v)
  else honestReply header header.derivation.value state body path

/-- Whatever balance a node tells of a validator stands in the document, although everything else
that it tells is right and is proven. -/
theorem exists_misreported (given : Settings.nonEmpty? s.beaconUrl? = some base) (alone : Alone s)
    (whole : s.useProver = false) (time : s.staleBalanceTimeout.exceeds 0 = true)
    (fits : header.Fits .blockHeader) (read : Snapshot.decode? body = .ok state)
    (built : Composer.ofSnapshot? state = .ok c)
    (names : header.get "state_root" = .bytes c.stateRoot)
    (inState : state.validators[i]? = some v) {balance : Nat} (lt : balance < twoTo 64) :
    ∃ nodes, AtBlock s nodes header header.derivation.value body state c ∧
      Gives nodes (staleBalanceProof s i)
        (StaleBalanceOf c header header.derivation.value i v balance) := by
  have fitsV := Snapshot.fits_of_decode? read v (Array.mem_of_getElem? inState)
  have env := atBlock_telling given alone fits read built names
    (misreply header state body i v balance) fun path other =>
      if_neg (singlePath_append_ne other _).symm
  have tells : Tells s (telling base (misreply header state body i v balance))
      (singlePath ++ toString (i : Int)) (description i balance v) :=
    tells_telling given (plain_description fitsV i balance) (if_pos rfl)
  have patient : Patient (telling base (misreply header state body i v balance))
      s.staleBalanceTimeout := patient_of_still (fun _ => rfl) time
  exact ⟨_, env, env.gives_staleBalanceProof patient whole inState (tells.to none)
    (validatorIn?_description fitsV i balance) (balance_description lt i v)⟩

end Telling

/-- A document with another balance than the one of the state that it proves. -/
theorem stale_balance_unbound : ∃ nodes header blockRoot body state c r b,
    AtBlock loneSettings nodes header blockRoot body state c ∧ loneSettings.useProver = false ∧
    staleBalanceProof loneSettings 0 nodes .start = (.ok r, b) ∧
    StaleBalanceOf c header blockRoot 0 (Record.zero .validator) 31000000000 r ∧
    state.validator? 0 = .ok (Record.zero .validator) ∧ state.balance? 0 = .ok 32000000000 ∧
    r.balance ≠ 32000000000 := by
  obtain ⟨state, c, read, built, -, fits, inState, inList⟩ := exists_lone
  have given : Settings.nonEmpty? loneSettings.beaconUrl? = some "http://node" := rfl
  have small : 31000000000 < twoTo 64 := by decide +kernel
  obtain ⟨nodes, env, gives⟩ := exists_misreported given (alone_of_unnamed rfl rfl) rfl (by decide)
    fits read built rfl inState small
  obtain ⟨r, b, ran, document⟩ := gives .start
  refine ⟨nodes, _, _, _, state, c, r, b, env, rfl, ran, document,
    Snapshot.validator?_of_getElem? inState, Snapshot.balance?_of_getElem? inList, ?_⟩
  rw [document.balance]
  decide

end BeaconBranch.Service
