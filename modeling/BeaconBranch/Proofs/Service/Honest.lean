import BeaconBranch.Proofs.Service.Success

/-!
Requests that succeed. The documents hold what a composer of the state proves, in the order of the
indices that were asked for. A beacon node is honest about a block if it tells the block's header,
the root of this header, the state that the header names and the validators of this state. Main
statements: what each of the three requests gives once its own questions are answered, and that
all of them succeed with an honest node.
-/

namespace BeaconBranch.Service

open Exchange

variable {s : Settings} {nodes : Nodes}

/-- An index of a state belongs to a validator and its balance. -/
def Belongs (state : Snapshot) (index : Int) : Prop :=
  ∃ (i : Nat) (v : Record) (b : Int), index = i ∧ state.validators[i]? = some v ∧
    state.balances[i]? = some b

/-- Indices are taken if there are some and none of them is negative. -/
theorem checkIndices_eq_ok_iff {indices : List Int} :
    checkIndices indices = .ok () ↔ indices ≠ [] ∧ ∀ index ∈ indices, 0 ≤ index := by
  by_cases empty : indices = []
  · simp [checkIndices, empty]
  · simp [checkIndices, empty]

theorem checkIndices_of_belongs {state : Snapshot} {indices : List Int} (some : indices ≠ [])
    (belong : ∀ index ∈ indices, Belongs state index) : checkIndices indices = .ok () := by
  refine checkIndices_eq_ok_iff.mpr ⟨some, fun index mem => ?_⟩
  obtain ⟨i, -, -, rfl, -⟩ := belong index mem
  exact Int.natCast_nonneg i

/-- The trees of a state prove its balances root, and the balances of every list of indices. -/
theorem exists_balanceProofs {body : ByteArray} {state : Snapshot} {c : Composer}
    (read : Snapshot.decode? body = .ok state) (built : Composer.ofSnapshot? state = .ok c)
    {indices : List Int} (belong : ∀ index ∈ indices, Belongs state index) :
    ∃ container proofs, c.balanceContainerProof? = .ok container ∧
      container.holds c.stateRoot = true ∧ indices.mapM c.balanceProof? = .ok proofs ∧
      checkBalances c.balancesRoot indices proofs = .ok () := by
  have fits := Snapshot.fits_of_decode? read
  obtain ⟨roots, chunks, fieldRoots, trees⟩ := Composer.ofSnapshot?_spec built
  obtain ⟨branch, made, -, contained⟩ := trees.proves_field trees.getElem?_balances
  have each : ∀ index ∈ indices, ∃ p, c.balanceProof? index = .ok p ∧
      p.holds index c.balancesRoot = true := by
    intro index mem
    obtain ⟨i, v, b, rfl, foundV, foundB⟩ := belong index mem
    obtain ⟨p, ok, -, leads, -⟩ :=
      trees.balanceProof (fits v (Array.mem_of_getElem? foundV)).isA foundV foundB
    exact ⟨p, ok, leads⟩
  obtain ⟨proofs, proved⟩ := Outcome.exists_mapM_eq_ok_iff.mpr fun index mem =>
    (each index mem).imp fun _ => And.left
  refine ⟨⟨c.balancesRoot, branch⟩, proofs, ?_, contained, proved, ?_⟩
  · rw [Composer.balanceContainerProof?, Outcome.bind_eq_ok_iff]
    exact ⟨branch, made, rfl⟩
  · refine Outcome.forM_eq_ok_iff.mpr fun e mem => ?_
    obtain ⟨index, q⟩ := e
    obtain ⟨p, ok, leads⟩ := each index (List.of_mem_zip mem).1
    have made : c.balanceProof? index = .ok q :=
      List.forall₂_zip (Outcome.mapM_eq_ok_iff.mp proved) mem
    obtain rfl := Except.ok.inj (ok.symm.trans made)
    dsimp only
    rw [if_pos leads]

/-! ### Documents -/

variable {header : Record} {blockRoot body : ByteArray} {state : Snapshot} {c : Composer}

/-- Credentials as a composer proves them, in the order of the indices. -/
structure CredentialsOf (c : Composer) (header : Record) (blockRoot : ByteArray)
    (indices : List Int) (r : CredentialProof) : Prop where
  anchor : AnchoredAt header blockRoot c.stateRoot r.anchor
  requested : r.indices = indices
  validators : List.Forall₂ (fun index p => c.validatorProof? index none = .ok p) indices
    r.validators

/-- Balances as a composer proves them, in the order of the indices. -/
structure CheckpointOf (c : Composer) (header : Record) (blockRoot : ByteArray)
    (indices : List Int) (r : CheckpointProof) : Prop where
  anchor : AnchoredAt header blockRoot c.stateRoot r.anchor
  container : c.balanceContainerProof? = .ok r.container
  balances : List.Forall₂ (fun index p => c.balanceProof? index = .ok p) indices r.balances

/-- A validator as a composer proves it, with the flag of its record and a balance. -/
structure StaleBalanceOf (c : Composer) (header : Record) (blockRoot : ByteArray) (index : Int)
    (v : Record) (balance : Int) (r : StaleBalanceProof) : Prop where
  anchor : AnchoredAt header blockRoot c.stateRoot r.anchor
  validator : c.validatorProof? index none = .ok r.validator
  slashed : r.slashed = v.get "slashed"
  balance : r.balance = balance

/-- What the requests about a block have in common: the node tells the block and gives its state,
which has a composer, and no other node is asked. -/
structure AtBlock (s : Settings) (nodes : Nodes) (header : Record) (blockRoot body : ByteArray)
    (state : Snapshot) (c : Composer) : Prop where
  alone : Alone s
  block : TellsBlock s nodes header blockRoot c.stateRoot
  given : GivesState s nodes body
  read : Snapshot.decode? body = .ok state
  built : Composer.ofSnapshot? state = .ok c

/-- Balances of a state are proven wherever the execution node does not hinder it. -/
theorem givesUnder_checkpointProof {I : Session → Prop} (kept : Kept s nodes I)
    (free : Unhindered s nodes I header blockRoot)
    (block : TellsBlock s nodes header blockRoot c.stateRoot) (given : GivesState s nodes body)
    (read : Snapshot.decode? body = .ok state) (built : Composer.ofSnapshot? state = .ok c)
    (patient : Patient nodes s.checkpointTimeout) {indices : List Int} (some : indices ≠ [])
    (belong : ∀ index ∈ indices, Belongs state index) :
    GivesUnder nodes I (checkpointProof s indices) (CheckpointOf c header blockRoot indices) := by
  obtain ⟨container, proofs, made, holds, proved, checked⟩ :=
    exists_balanceProofs read built belong
  refine .bind_lift (checkIndices_of_belongs some belong) ?_
  refine (GivesUnder.of_gives kept (walks_start _) (gives_start patient)).bind fun d lasts => ?_
  refine (givesUnder_anchor kept lasts free block).bind fun r anchored => ?_
  obtain ⟨header', anc⟩ := r
  obtain same : anc.stateRootProof.stateRoot = c.stateRoot := anchored.stateRoot
  dsimp only
  rw [same]
  refine (GivesUnder.of_gives kept (walks_composer _ d)
    (gives_composer lasts given read built)).bind ?_
  rintro _ rfl
  refine .bind_lift made ?_
  refine .guard (by simp [holds]) ?_
  refine .bind_lift ((proveMany?_eq _ _ _).trans proved) ?_
  exact .bind_lift checked (.pure ⟨anchored, made, Outcome.mapM_eq_ok_iff.mp proved⟩)

/-- Balances of the state are proven. -/
theorem AtBlock.gives_checkpointProof (env : AtBlock s nodes header blockRoot body state c)
    (patient : Patient nodes s.checkpointTimeout) {indices : List Int} (some : indices ≠ [])
    (belong : ∀ index ∈ indices, Belongs state index) :
    Gives nodes (checkpointProof s indices) (CheckpointOf c header blockRoot indices) :=
  givesUnder_true_iff.mp (givesUnder_checkpointProof (fun _ _ _ => id)
    (unhindered_of_alone env.alone header blockRoot) env.block env.given env.read env.built patient
    some belong)

/-! ### Proofs of validators -/

/-- Records stand in a state at the indices beside them. -/
def StandIn (state : Snapshot) (validators : List (Int × Record)) : Prop :=
  ∀ p ∈ validators, ∃ i : Nat, p.1 = i ∧ state.validators[i]? = some p.2

theorem StandIn.single {state : Snapshot} {validators : List (Int × Record)}
    (stand : StandIn state validators) :
    ∀ p ∈ validators, ∀ q ∈ validators, p.1 = q.1 → p.2 = q.2 := by
  intro p memP q memQ same
  obtain ⟨i, indexP, foundP⟩ := stand p memP
  obtain ⟨j, indexQ, foundQ⟩ := stand q memQ
  obtain rfl : i = j := by omega
  exact Option.some.inj (foundP.symm.trans foundQ)

/-- The record that a proof shows changes nothing if it is the one of the state. -/
theorem validatorProof?_own {c : Composer} {index : Int} {v : Record}
    (own : c.snapshot.validator? index = .ok v) :
    c.validatorProof? index (some v) = c.validatorProof? index none := by
  rw [Composer.validatorProof?, Composer.validatorProof?, own]
  rfl

/-- The proofs that a composer makes for records of its state. -/
def ProofsOf (c : Composer) (validators : List (Int × Record)) (proofs : List ValidatorProof) :
    Prop :=
  validators.mapM (fun e => c.validatorProof? e.1 none) = .ok proofs

/-- The trees of a state prove the records that stand in it. -/
theorem exists_validatorProofs (read : Snapshot.decode? body = .ok state)
    (built : Composer.ofSnapshot? state = .ok c) {validators : List (Int × Record)}
    (stand : StandIn state validators) :
    ∃ proofs, ProofsOf c validators proofs ∧
      checkValidators c.stateRoot proofs (validators.map (·.2)) = .ok () := by
  have fits := Snapshot.fits_of_decode? read
  obtain ⟨roots, chunks, fieldRoots, trees⟩ := Composer.ofSnapshot?_spec built
  have each : ∀ e ∈ validators, ∃ p, c.validatorProof? e.1 none = .ok p ∧
      p.holds? e.2 c.stateRoot = .ok true := by
    rintro ⟨index, v⟩ mem
    obtain ⟨i, rfl, found⟩ := stand _ mem
    obtain ⟨p, root, position, made, -, names, hashed, place, proves⟩ :=
      trees.validatorProof (fits v (Array.mem_of_getElem? found)).isA found
    refine ⟨p, made, ?_⟩
    simp only [ValidatorProof.holds?, Outcome.bind_eq_ok_iff, Outcome.pure_eq_ok_iff, names]
    exact ⟨root, hashed, position, place, proves⟩
  obtain ⟨proofs, proved⟩ := Outcome.exists_mapM_eq_ok_iff.mpr fun e mem =>
    (each e mem).imp fun _ => And.left
  refine ⟨proofs, proved, Outcome.forM_eq_ok_iff.mpr ?_⟩
  rw [List.zip_map_right]
  intro q mem
  obtain ⟨⟨p, e⟩, memZip, rfl⟩ := List.mem_map.mp mem
  obtain ⟨p', made, holds⟩ := each e (List.of_mem_zip memZip).2
  have same := List.forall₂_zip (Outcome.mapM_eq_ok_iff.mp proved).flip memZip
  obtain rfl := Except.ok.inj (made.symm.trans same)
  exact Outcome.bind_eq_ok_iff.mpr ⟨true, holds, rfl⟩

/-- Proofs from the whole state show the records that were read, which are those of the state. -/
theorem mapM_shown_eq (built : Composer.ofSnapshot? state = .ok c)
    {validators : List (Int × Record)} (stand : StandIn state validators) :
    (validators.map (·.1)).mapM (fun index =>
        c.validatorProof? index (validators.lookup index)) =
      validators.mapM fun e => c.validatorProof? e.1 none := by
  obtain ⟨roots, chunks, fieldRoots, trees⟩ := Composer.ofSnapshot?_spec built
  rw [List.mapM_map]
  refine Outcome.mapM_congr fun e mem => ?_
  obtain ⟨i, index, found⟩ := stand e mem
  have own : c.snapshot.validator? e.1 = .ok e.2 := by
    rw [trees.snapshot, index]
    exact Snapshot.validator?_of_getElem? found
  show c.validatorProof? e.1 (validators.lookup e.1) = c.validatorProof? e.1 none
  rw [lookup_of_single stand.single mem, validatorProof?_own own]

/-- The whole state gives the proofs of its records. -/
theorem AtBlock.gives_localProofs (env : AtBlock s nodes header blockRoot body state c)
    (whole : s.useProver = false) {d : Deadline} (lasts : Lasts nodes d)
    {validators : List (Int × Record)} (stand : StandIn state validators) :
    Gives nodes (validatorProofs s c.stateRoot d validators) (ProofsOf c validators) := by
  obtain ⟨proofs, proved, -⟩ := exists_validatorProofs env.read env.built stand
  rw [validatorProofs, whole]
  refine .bind_eq (gives_composer lasts env.given env.read env.built) ?_
  exact .lift ((proveMany?_eq _ _ _).trans ((mapM_shown_eq env.built stand).trans proved)) proved

/-! ### Credentials -/

/-- Each index has a description, which tells the record of the state. -/
def Described (state : Snapshot) (found : List (Int × Value)) (indices : List Int) : Prop :=
  ∀ index ∈ indices, ∃ (i : Nat) (v : Record) (e : Value), index = i ∧
    state.validators[i]? = some v ∧ describedAs? index found = some e ∧
    BeaconNode.validatorIn? e = .ok v

theorem gives_descriptions {d : Deadline} (lasts : Lasts nodes d) {indices : List Int}
    {reply : Value} {found : List (Int × Value)}
    (tells : TellsTo s nodes ("/eth/v1/beacon/states/" ++ finalized ++ "/validators")
      (BeaconNode.selection indices) reply) (listed : byIndex? reply = .ok found)
    (described : Described state found indices) :
    Gives nodes (descriptions s indices d) (· = found) := by
  have complete : indices.filter (fun i => (describedAs? i found).isNone) = [] := by
    refine List.filter_eq_nil_iff.mpr fun index mem => ?_
    obtain ⟨i, v, e, -, -, looked, -⟩ := described index mem
    simp [looked]
  refine (gives_beaconNode tells).bind fun node isNode => ?_
  refine (gives_remaining lasts).bind fun left _ => ?_
  refine .bind_eq (gives_fetch isNode tells _) ?_
  refine .bind_lift listed ?_
  exact .guard (by simp [complete]) (.pure rfl)

/-- The records that are read from descriptions. -/
theorem gives_records {indices : List Int} {found : List (Int × Value)}
    (described : Described state found indices) :
    Gives nodes (indices.mapM fun i =>
      (liftM (BeaconNode.validatorIn? ((describedAs? i found).getD .null)) : Exchange Record))
      (List.Forall₂ (fun (index : Int) v => ∃ i : Nat, index = i ∧ state.validators[i]? = some v)
        indices) := by
  refine Gives.mapM fun index mem => ?_
  obtain ⟨i, v, e, rfl, inState, looked, read⟩ := described index mem
  rw [looked]
  exact .lift read ⟨i, rfl, inState⟩

/-- Credentials of validators are proven, and alike with two settings that differ in where proofs
come from, if both give the proofs of the state's records. -/
theorem AtBlock.alike_credentialProof (env : AtBlock s nodes header blockRoot body state c)
    (patient : Patient nodes s.credentialsTimeout) {indices : List Int} (some : indices ≠ [])
    (belong : ∀ index ∈ indices, Belongs state index) {reply : Value}
    {found : List (Int × Value)}
    (tells : TellsTo s nodes ("/eth/v1/beacon/states/" ++ finalized ++ "/validators")
      (BeaconNode.selection indices) reply) (listed : byIndex? reply = .ok found)
    (described : Described state found indices) (useProver : Bool)
    (proves : ∀ d validators, Lasts nodes d → StandIn state validators →
      validators.map (·.1) = indices →
      Gives nodes (validatorProofs s c.stateRoot d validators) (ProofsOf c validators))
    (proves' : ∀ d validators, Lasts nodes d → StandIn state validators →
      validators.map (·.1) = indices →
      Gives nodes (validatorProofs { s with useProver } c.stateRoot d validators)
        (ProofsOf c validators)) :
    GivesAlike nodes (credentialProof s indices) (credentialProof { s with useProver } indices)
      (CredentialsOf c header blockRoot indices) := by
  have valid : Gives nodes (liftM (checkIndices indices) : Exchange Unit) fun _ => True :=
    .lift (checkIndices_of_belongs some belong) trivial
  refine .bind_same valid fun _ _ => ?_
  refine .bind_same (gives_start patient) fun d lasts => ?_
  refine .bind_same (gives_anchor lasts env.alone env.block) fun r anchored => ?_
  obtain ⟨header', anc⟩ := r
  obtain same : anc.stateRootProof.stateRoot = c.stateRoot := anchored.stateRoot
  refine .bind_same (gives_descriptions lasts tells listed described)
    fun found' looked => ?_
  obtain rfl : found' = found := looked
  refine .bind_same (gives_records described) fun validators records => ?_
  have stand : StandIn state (indices.zip validators) := fun p mem => List.forall₂_zip records mem
  have kept : (indices.zip validators).map (·.2) = validators :=
    List.map_snd_zip (Nat.le_of_eq records.length_eq.symm)
  have asked : (indices.zip validators).map (·.1) = indices :=
    List.map_fst_zip (Nat.le_of_eq records.length_eq)
  obtain ⟨proofs, proved, checked⟩ := exists_validatorProofs env.read env.built stand
  rw [kept] at checked
  dsimp only
  rw [same]
  refine .bind_end (.of_gives (proves d _ lasts stand asked) (proves' d _ lasts stand asked)
    fun v w ofV ofW => Except.ok.inj (ofV.symm.trans ofW)) fun v ofV => ?_
  obtain rfl : v = proofs := Except.ok.inj (ofV.symm.trans proved)
  refine ⟨_, ?_, .bind_lift checked (.pure rfl)⟩
  refine ⟨anchored, rfl, ?_⟩
  have each := Outcome.mapM_eq_ok_iff.mp proved
  rwa [← List.forall₂_map_left_iff (f := fun e : Int × Record => e.1)
    (R := fun index p => c.validatorProof? index none = .ok p), asked] at each

/-! ### Stale balances -/

/-- The single validator is proven, and the balance is the one that its description tells. -/
theorem AtBlock.gives_staleBalanceProof (env : AtBlock s nodes header blockRoot body state c)
    (patient : Patient nodes s.staleBalanceTimeout) (whole : s.useProver = false) {i : Nat}
    {v : Record} (inState : state.validators[i]? = some v) {description : Value} {balance : Int}
    (tells : TellsTo s nodes
      ("/eth/v1/beacon/states/" ++ finalized ++ "/validators/" ++ toString (i : Int)) none
      description) (record : BeaconNode.validatorIn? description = .ok v)
    (told : (description.atKey? "balance" >>= Value.whole?) = .ok balance) :
    Gives nodes (staleBalanceProof s i) (StaleBalanceOf c header blockRoot i v balance) := by
  have valid : checkIndices [(i : Int)] = .ok () := by simp [checkIndices]
  have stand : StandIn state [((i : Int), v)] := List.forall_mem_singleton.mpr ⟨i, rfl, inState⟩
  obtain ⟨entry, held, number⟩ := Outcome.bind_eq_ok_iff.mp told
  obtain ⟨proofs, proved, checked⟩ := exists_validatorProofs env.read env.built stand
  refine .bind_lift valid ?_
  refine (gives_start patient).bind fun d lasts => ?_
  refine (gives_anchor lasts env.alone env.block).bind fun r anchored => ?_
  obtain ⟨header', anc⟩ := r
  obtain same : anc.stateRootProof.stateRoot = c.stateRoot := anchored.stateRoot
  refine (gives_beaconNode tells).bind fun node isNode => ?_
  refine (gives_remaining lasts).bind fun left _ => ?_
  refine .bind_eq (gives_fetch isNode tells _) ?_
  refine .bind_lift record ?_
  dsimp only
  rw [same]
  refine (env.gives_localProofs whole lasts stand).bind fun proofs' proved' => ?_
  obtain rfl : proofs' = proofs := Except.ok.inj (proved'.symm.trans proved)
  refine .bind_lift checked ?_
  refine .bind_lift held ?_
  refine .bind_lift number ?_
  obtain ⟨p, rest, made, -, rfl⟩ :=
    List.forall₂_cons_left_iff.mp (Outcome.mapM_eq_ok_iff.mp proved)
  exact .pure ⟨anchored, made, rfl, rfl⟩

/-! ### Honest nodes -/

/-- The beacon node of the settings tells a header, its root, the state that it names, and the
validators of this state. -/
structure Honest (s : Settings) (nodes : Nodes) (header : Record) (state : Snapshot) : Prop where
  fits : header.Fits .blockHeader
  toldHeader : ∃ data, Tells s nodes ("/eth/v1/beacon/headers/" ++ finalized) data ∧
    BeaconNode.headerIn? finalized data = .ok header
  toldRoot : ∃ data root, Tells s nodes ("/eth/v1/beacon/blocks/" ++ finalized ++ "/root") data ∧
    BeaconNode.rootIn? data = .ok root ∧ header.root? = .ok root
  answeredState : ∃ body,
    Answers s nodes ("/eth/v2/debug/beacon/states/" ++ finalized) (·.body = body) ∧
    Snapshot.decode? body = .ok state
  named : ∃ root, header.get "state_root" = .bytes root ∧ state.root? = .ok root
  toldValidators : ∃ reply found,
    Tells s nodes ("/eth/v1/beacon/states/" ++ finalized ++ "/validators") reply ∧
    byIndex? reply = .ok found ∧ ∀ (i : Nat) (v : Record), state.validators[i]? = some v →
      ∃ d, describedAs? i found = some d ∧ BeaconNode.validatorIn? d = .ok v
  toldValidator : ∀ (i : Nat) (v : Record) (b : Int), state.validators[i]? = some v →
    state.balances[i]? = some b → ∃ d,
      Tells s nodes ("/eth/v1/beacon/states/" ++ finalized ++ "/validators/" ++ toString (i : Int))
        d ∧ BeaconNode.validatorIn? d = .ok v ∧ (d.atKey? "balance" >>= Value.whole?) = .ok b

/-- Honesty of the beacon node does not depend on what the execution node replies. -/
theorem Honest.with_execution (honest : Honest s nodes header state)
    (execution : List Event → Call → CallReply) : Honest s { nodes with execution } header state :=
  ⟨honest.fits, honest.toldHeader, honest.toldRoot, honest.answeredState, honest.named,
    honest.toldValidators, honest.toldValidator⟩

/-- What an honest node tells of its block and of the state. -/
theorem Honest.tellsBlock (honest : Honest s nodes header state) :
    ∃ blockRoot body c, TellsBlock s nodes header blockRoot c.stateRoot ∧
      GivesState s nodes body ∧ Snapshot.decode? body = .ok state ∧
      Composer.ofSnapshot? state = .ok c := by
  obtain ⟨data, tells, read⟩ := honest.toldHeader
  obtain ⟨rootData, blockRoot, tellsRoot, readRoot, hashed⟩ := honest.toldRoot
  obtain ⟨body, answers, decoded⟩ := honest.answeredState
  obtain ⟨stateRoot, names, whole⟩ := honest.named
  obtain ⟨c, built⟩ := Composer.exists_ofSnapshot? whole
  obtain ⟨roots, chunks, fieldRoots, trees⟩ := Composer.ofSnapshot?_spec built
  obtain rfl : c.stateRoot = stateRoot := Except.ok.inj (trees.root?.symm.trans whole)
  exact ⟨blockRoot, body, c, ⟨honest.fits, hashed, names, ⟨data, tells.to none, read⟩,
    ⟨rootData, tellsRoot.to none, readRoot⟩⟩, answers.to _ _, decoded, built⟩

/-- A service that asks no other node than an honest one is at the node's block. -/
theorem Honest.atBlock (honest : Honest s nodes header state) (alone : Alone s) :
    ∃ blockRoot body c, AtBlock s nodes header blockRoot body state c := by
  obtain ⟨blockRoot, body, c, block, given, read, built⟩ := honest.tellsBlock
  exact ⟨blockRoot, body, c, alone, block, given, read, built⟩

/-- Balances of an honest node's state are proven. -/
theorem gives_checkpointProof (patient : Patient nodes s.checkpointTimeout) (alone : Alone s)
    (honest : Honest s nodes header state) {indices : List Int} (some : indices ≠ [])
    (belong : ∀ index ∈ indices, Belongs state index) :
    Gives nodes (checkpointProof s indices) fun r =>
      ∃ c blockRoot, CheckpointOf c header blockRoot indices r := by
  obtain ⟨blockRoot, body, c, env⟩ := honest.atBlock alone
  intro a
  obtain ⟨r, b, ran, document⟩ := env.gives_checkpointProof patient some belong a
  exact ⟨r, b, ran, c, blockRoot, document⟩

/-- Credentials of an honest node's validators are proven. -/
theorem gives_credentialProof (patient : Patient nodes s.credentialsTimeout) (alone : Alone s)
    (whole : s.useProver = false) (honest : Honest s nodes header state) {indices : List Int}
    (some : indices ≠ []) (belong : ∀ index ∈ indices, Belongs state index) :
    Gives nodes (credentialProof s indices) fun r =>
      ∃ c blockRoot, CredentialsOf c header blockRoot indices r := by
  obtain ⟨blockRoot, body, c, env⟩ := honest.atBlock alone
  obtain ⟨reply, found, tells, listed, describes⟩ := honest.toldValidators
  have described : Described state found indices := by
    intro index mem
    obtain ⟨i, v, -, rfl, inState, -⟩ := belong index mem
    obtain ⟨e, looked, read⟩ := describes i v inState
    exact ⟨i, v, e, rfl, inState, looked, read⟩
  have proves : ∀ d validators, Lasts nodes d → StandIn state validators →
      validators.map (·.1) = indices →
      Gives nodes (validatorProofs s c.stateRoot d validators) (ProofsOf c validators) :=
    fun d validators lasts stand _ => env.gives_localProofs whole lasts stand
  intro a
  obtain ⟨r, b, ran, document⟩ := (env.alike_credentialProof patient some belong (tells.to _) listed
    described s.useProver proves proves).left a
  exact ⟨r, b, ran, c, blockRoot, document⟩

/-- The balance of an honest node's validator is proven to be stale. -/
theorem gives_staleBalanceProof (patient : Patient nodes s.staleBalanceTimeout) (alone : Alone s)
    (whole : s.useProver = false) (honest : Honest s nodes header state) {index : Int}
    (belongs : Belongs state index) :
    Gives nodes (staleBalanceProof s index) fun r =>
      ∃ c blockRoot v balance, StaleBalanceOf c header blockRoot index v balance r := by
  obtain ⟨blockRoot, body, c, env⟩ := honest.atBlock alone
  obtain ⟨i, v, balance, rfl, inState, inList⟩ := belongs
  obtain ⟨e, tells, record, told⟩ := honest.toldValidator i v balance inState inList
  intro a
  obtain ⟨r, b, ran, document⟩ :=
    env.gives_staleBalanceProof patient whole inState (tells.to none) record told a
  exact ⟨r, b, ran, c, blockRoot, v, balance, document⟩

end BeaconBranch.Service
