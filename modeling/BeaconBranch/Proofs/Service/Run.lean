import BeaconBranch.Proofs.Service.Evidence

/-!
Requests taken apart. A request that ends with a document went through all of its steps. Main
statements: for each of the three requests, what its steps gave, with the sessions between them.
-/

namespace BeaconBranch.Service

open Exchange

variable {s : Settings} {nodes : Nodes} {a b : Session}

/-- Entries with a single index stand for one thing. -/
theorem single_of_singleton {α : Type} (e : Int × α) :
    ∀ p ∈ [e], ∀ q ∈ [e], p.1 = q.1 → p.2 = q.2 := by
  intro p memP q memQ _
  rw [List.mem_singleton.mp memP, List.mem_singleton.mp memQ]

/-- The records of validators, one for each index, in the order of the indices. -/
theorem forall₂_of_records {found : List (Int × Value)} {indices : List Int}
    {validators : List Record} (read : indices.mapM
      (fun i => (liftM (BeaconNode.validatorIn? ((describedAs? i found).getD .null)) :
        Exchange Record)) nodes a = (.ok validators, b)) :
    List.Forall₂ (fun i v => BeaconNode.validatorIn? ((describedAs? i found).getD .null) = .ok v)
      indices validators := by
  refine (forall₂_of_mapM read).imp ?_
  rintro i v ⟨_, _, ran⟩
  exact (liftM_eq_ok_iff.mp ran).1

/-- The beginning of a request: until the session `u`, its time budget was started and its anchor
was checked. -/
structure Begun (s : Settings) (nodes : Nodes) (a u : Session) (anc : Anchor) : Prop where
  advance : Advance s nodes a u
  anchored : Settled s nodes a → ∃ header, Anchored s nodes a u header anc

/-- The beginning of every request. -/
theorem begun_of_start {seconds : Number} {d : Deadline} {t u : Session} {header : Record}
    {anc : Anchor} (started : Deadline.start seconds nodes a = (.ok d, t))
    (ran : anchor s d nodes t = (.ok (header, anc), u)) : Begun s nodes a u anc := by
  have early : Advance s nodes a t := (walks_start seconds).advances _ _ _ started
  refine ⟨early.trans ((walks_anchor d).advances _ _ _ ran), fun settled => ⟨header, ?_⟩⟩
  exact (anchored_of_anchor ran (early.settled settled)).mono early (.refl u)

/-- The run of a request for credentials: after the beginning, descriptions are found until the
session `v`, and proofs are made for the records in them from the session `w` on. -/
structure CredentialRun (s : Settings) (nodes : Nodes) (a b : Session) (indices : List Int)
    (r : CredentialProof) (d : Deadline) (u v w : Session) (found : List (Int × Value))
    (validators : List Record) : Prop where
  begun : Begun s nodes a u r.anchor
  described : descriptions s indices d nodes u = (.ok found, v)
  reading : Advance s nodes v w
  records : List.Forall₂
    (fun i v => BeaconNode.validatorIn? ((describedAs? i found).getD .null) = .ok v) indices
    validators
  proved : validatorProofs s r.anchor.stateRootProof.stateRoot d (indices.zip validators) nodes w =
    (.ok r.validators, b)
  checked : checkValidators r.anchor.stateRootProof.stateRoot r.validators validators = .ok ()
  requested : r.indices = indices

theorem credentialProof_run {indices : List Int} {r : CredentialProof}
    (ran : credentialProof s indices nodes a = (.ok r, b)) :
    ∃ d u v w found validators, CredentialRun s nodes a b indices r d u v w found validators := by
  rw [credentialProof] at ran
  obtain ⟨-, -, ran⟩ := liftM_bind_eq_ok_iff.mp ran
  obtain ⟨d, t, started, ran⟩ := bind_eq_ok_iff.mp ran
  obtain ⟨⟨header, anc⟩, u, anchoring, ran⟩ := bind_eq_ok_iff.mp ran
  obtain ⟨found, v, described, ran⟩ := bind_eq_ok_iff.mp ran
  obtain ⟨validators, w, read, ran⟩ := bind_eq_ok_iff.mp ran
  obtain ⟨proofs, x, proved, ran⟩ := bind_eq_ok_iff.mp ran
  obtain ⟨_, checked, ran⟩ := liftM_bind_eq_ok_iff.mp ran
  obtain ⟨rfl, rfl⟩ := pure_eq_ok_iff.mp ran
  exact ⟨d, u, v, w, found, validators, begun_of_start started anchoring, described,
    (Walks.mapM (fun _ => .lift _) indices).advances _ _ _ read, forall₂_of_records read, proved,
    checked, rfl⟩

/-- The run of a request for balances: after the beginning, a composer is built, which gives all
proofs. -/
structure CheckpointRun (s : Settings) (nodes : Nodes) (a b : Session) (indices : List Int)
    (r : CheckpointProof) (d : Deadline) (u : Session) (c : Composer) : Prop where
  begun : Begun s nodes a u r.anchor
  composed : composer s r.anchor.stateRootProof.stateRoot d nodes u = (.ok c, b)
  contained : c.balanceContainerProof? = .ok r.container
  holds : r.container.holds c.stateRoot = true
  proved : List.Forall₂ (fun i p => c.balanceProof? i = .ok p) indices r.balances
  checked : checkBalances c.balancesRoot indices r.balances = .ok ()

theorem checkpointProof_run {indices : List Int} {r : CheckpointProof}
    (ran : checkpointProof s indices nodes a = (.ok r, b)) :
    ∃ d u c, CheckpointRun s nodes a b indices r d u c := by
  rw [checkpointProof] at ran
  obtain ⟨-, -, ran⟩ := liftM_bind_eq_ok_iff.mp ran
  obtain ⟨d, t, started, ran⟩ := bind_eq_ok_iff.mp ran
  obtain ⟨⟨header, anc⟩, u, anchoring, ran⟩ := bind_eq_ok_iff.mp ran
  obtain ⟨c, x, composed, ran⟩ := bind_eq_ok_iff.mp ran
  obtain ⟨container, contained, ran⟩ := liftM_bind_eq_ok_iff.mp ran
  obtain ⟨holds, ran⟩ := guard_eq_ok_iff.mp ran
  obtain ⟨balances, proved, ran⟩ := liftM_bind_eq_ok_iff.mp ran
  obtain ⟨_, checked, ran⟩ := liftM_bind_eq_ok_iff.mp ran
  obtain ⟨rfl, rfl⟩ := pure_eq_ok_iff.mp ran
  rw [proveMany?_eq] at proved
  exact ⟨d, u, c, begun_of_start started anchoring, composed, contained, by simpa using holds,
    Outcome.mapM_eq_ok_iff.mp proved, checked⟩

/-- The run of a request for a stale balance: after the beginning, the validator's description is
told until the session `v`, and the record in it is proven from there on. -/
structure StaleBalanceRun (s : Settings) (nodes : Nodes) (a b : Session) (index : Int)
    (r : StaleBalanceProof) (d : Deadline) (u v : Session) (description : Value)
    (validator : Record) : Prop where
  begun : Begun s nodes a u r.anchor
  asking : Advance s nodes u v
  told : Told s nodes u v
    ("/eth/v1/beacon/states/" ++ finalized ++ "/validators/" ++ toString index) description
  record : BeaconNode.validatorIn? description = .ok validator
  proved : validatorProofs s r.anchor.stateRootProof.stateRoot d [(index, validator)] nodes v =
    (.ok [r.validator], b)
  checked : checkValidators r.anchor.stateRootProof.stateRoot [r.validator] [validator] = .ok ()
  slashed : r.slashed = validator.get "slashed"
  balance : (description.atKey? "balance" >>= Value.whole?) = .ok r.balance

theorem staleBalanceProof_run {index : Int} {r : StaleBalanceProof}
    (ran : staleBalanceProof s index nodes a = (.ok r, b)) :
    ∃ d u v description validator,
      StaleBalanceRun s nodes a b index r d u v description validator := by
  rw [staleBalanceProof] at ran
  obtain ⟨-, -, ran⟩ := liftM_bind_eq_ok_iff.mp ran
  obtain ⟨d, t, started, ran⟩ := bind_eq_ok_iff.mp ran
  obtain ⟨⟨header, anc⟩, u, anchoring, ran⟩ := bind_eq_ok_iff.mp ran
  obtain ⟨node, u', made, ran⟩ := bind_eq_ok_iff.mp ran
  obtain ⟨left, t', early, ran⟩ := bind_eq_ok_iff.mp ran
  obtain ⟨description, v, asked, ran⟩ := bind_eq_ok_iff.mp ran
  obtain ⟨validator, record, ran⟩ := liftM_bind_eq_ok_iff.mp ran
  obtain ⟨proofs, x, proved, ran⟩ := bind_eq_ok_iff.mp ran
  obtain ⟨_, checked, ran⟩ := liftM_bind_eq_ok_iff.mp ran
  obtain ⟨entry, held, ran⟩ := liftM_bind_eq_ok_iff.mp ran
  obtain ⟨balance, number, ran⟩ := liftM_bind_eq_ok_iff.mp ran
  obtain ⟨isNode, rfl⟩ := isBeaconNode_of_beaconNode made
  have waiting : Advance s nodes u t' := (walks_remaining d).advances _ _ _ early
  have asking : Advance s nodes t' v := (walks_fetch node _ _ _).advances _ _ _ asked
  obtain ⟨p, rest, -, none, rfl⟩ := List.forall₂_cons_left_iff.mp
    (madeFor_of_validatorProofs (single_of_singleton (index, validator)) proved)
  obtain rfl := List.forall₂_nil_left_iff.mp none
  obtain ⟨rfl, rfl⟩ := pure_eq_ok_iff.mp ran
  exact ⟨d, u, v, description, validator, begun_of_start started anchoring, waiting.trans asking,
    (told_of_fetch isNode asked).mono waiting (.refl v), record, proved, checked, rfl,
    Outcome.bind_eq_ok_iff.mpr ⟨entry, held, number⟩⟩

end BeaconBranch.Service
