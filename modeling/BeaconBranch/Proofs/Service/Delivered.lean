import BeaconBranch.Proofs.Service.Reported

/-!
Proofs are delivered. A service needs nothing but nodes that answer as their interfaces say, and a
clock that leaves it time. Main statements: nodes that report a state exist for every state that has
a composer; and to such nodes every request about validators of the state succeeds, with one proof
for each index in turn, and the credentials are the same with proofs from a prover.
-/

namespace BeaconBranch.Service

open Exchange Merkle Record

variable {s : Settings} {nodes : Nodes} {header : Record} {blockRoot body : ByteArray}
  {state : Snapshot} {c : Composer}

/-! ### Nodes that report -/

theorem describes_descriptionOf (tellable : Tellable state) {i : Nat} {v : Record} {b : Int}
    (inState : state.validators[i]? = some v) (inList : state.balances[i]? = some b) :
    Describes state i (descriptionOf state i v) := by
  obtain ⟨n, rfl⟩ := Int.eq_ofNat_of_zero_le (tellable.balances b (List.mem_of_getElem? inList)).1
  have data : descriptionOf state i v = description i n v := by
    rw [descriptionOf, inList]
    rfl
  rw [data]
  exact ⟨v, n, inState, inList, rfl, rfl, _, rfl, _, rfl, .refl _⟩

/-- The list of all validators of a state serves every request about some of them. -/
theorem lists_validators (tellable : Tellable state) {indices : List Int}
    (belong : ∀ index ∈ indices, Belongs state index) :
    Lists state indices
      (state.validators.toList.zipIdx.map fun e => descriptionOf state e.2 e.1) := by
  have describes : ∀ (i : Nat) v, state.validators[i]? = some v → (i : Int) ∈ indices →
      Describes state i (descriptionOf state i v) := by
    intro i v inState mem
    obtain ⟨j, _, b, same, -, inList⟩ := belong i mem
    obtain rfl : i = j := Int.ofNat_inj.mp same
    exact describes_descriptionOf tellable inState inList
  refine ⟨fun d mem => ?_, fun index mem => ?_⟩
  · obtain ⟨e, inList, rfl⟩ := List.mem_map.mp mem
    have inState := mem_zipIdx inList
    have inside := (Array.getElem?_eq_some_iff.mp inState).1
    have few := tellable.few
    exact ⟨e.2, index_description (by omega) _ _, describes e.2 e.1 inState⟩
  · obtain ⟨i, v, b, rfl, inState, -⟩ := belong index mem
    refine ⟨descriptionOf state i v, List.mem_map.mpr ⟨(v, i), ?_, rfl⟩, describes i v inState mem⟩
    rw [List.mem_zipIdx_iff_getElem?, Array.getElem?_toList, inState]

/-- What a prover tells of a composer's proof. -/
def proofData (branch : List ByteArray) (place : Nat) : Value :=
  .object [("proof", .list (branch.map fun b => .text (Hex.marked b))),
    ("gindex", .text (toString (place : Int)))]

theorem plain_proofData (branch : List ByteArray) (place : Nat) :
    Json.Plain 3 (proofData branch place) := by
  have keys : ∀ k ∈ ["proof", "gindex"], Json.PlainText k := by decide
  have distinct : ["proof", "gindex"].Nodup := by decide
  have texts : ∀ t ∈ branch.map fun b => Value.text (Hex.marked b), Json.Plain 1 t := by
    intro t mem
    obtain ⟨b, -, rfl⟩ := List.mem_map.mp mem
    exact .text (Json.plainText_marked b)
  exact .object keys distinct (List.forall_mem_cons.mpr ⟨.list texts,
    List.forall_mem_singleton.mpr (.text (Json.plainText_toString place))⟩)

/-- The index in the path of a validator. -/
def indexIn (path : String) : Int :=
  (Decimal.toInt? (String.ofList (path.toList.drop "validators/".toList.length))).getD 0

theorem indexIn_eq {i : Nat} (lt : i < twoTo 64) :
    indexIn ("validators/" ++ toString (i : Int)) = i := by
  rw [indexIn, String.toList_append, List.drop_left, String.ofList_toList,
    Decimal.toInt?_toString (lt_of_lt_twoTo lt)]
  rfl

/-- The reply of a composer's prover to a question about a validator. -/
def proverReply (c : Composer) (index : Int) : Answer :=
  match c.validatorProof? index none, Registry.validatorGindex? index with
  | .ok p, .ok place => dataReply (proofData p.branch place.toNat)
  | _, _ => dataReply .null

/-- Nodes of which the beacon node tells everything about a state, and the prover proves what the
state's composer does. -/
def reporting (base : String) (header : Record) (state : Snapshot) (body : ByteArray)
    (c : Composer) : Nodes :=
  { telling base (honestReply header header.derivation.value state body) with
    prover := fun _ q =>
      .answered (proverReply c (indexIn ((q.parameter?.map (·.2)).getD ""))) }

theorem dataIn?_proofData (branch : List ByteArray) (place : Nat) :
    ProverNode.dataIn? (dataReply (proofData branch place)) = .ok (proofData branch place) := by
  have keys : ∀ k ∈ ["data"], Json.PlainText k := by decide
  have whole : Json.Plain 4 (.object [("data", proofData branch place)]) :=
    .object keys (List.pairwise_singleton _ _)
      (List.forall_mem_singleton.mpr (plain_proofData branch place))
  rw [ProverNode.dataIn?, dataReply, replyWith, Answer.json_documented whole]
  rfl

theorem exists_place {i : Nat} (lt : i < twoTo 40) :
    ∃ place : Nat, Registry.validatorGindex? i = .ok (place : Int) ∧ place < twoTo 64 := by
  have most : 87 * twoTo 40 < twoTo 64 := by decide +kernel
  exact ⟨_, Registry.validatorGindex?_eq lt, by omega⟩

/-- The reply of a composer's prover proves as the composer does. -/
theorem exists_proverReply {i : Nat} {p : ValidatorProof} (made : c.validatorProof? i none = .ok p)
    (lt : i < twoTo 40) :
    ∃ reply, ProverNode.dataIn? (proverReply c i) = .ok reply ∧ ProvesAs c i reply := by
  obtain ⟨place, names, small⟩ := exists_place lt
  have reply : proverReply c i = dataReply (proofData p.branch place) := by
    rw [proverReply, made, names]
    rfl
  rw [reply]
  exact ⟨proofData p.branch place, dataIn?_proofData _ _, ⟨p, made, rfl⟩, _, place, rfl,
    whole?_toString small, names⟩

/-- The prover of these nodes proves every validator of the state. -/
theorem proverTells_reporting (base : String) (header : Record)
    (read : Snapshot.decode? body = .ok state) (built : Composer.ofSnapshot? state = .ok c)
    {indices : List Int} (belong : ∀ index ∈ indices, Belongs state index) {prover : ProverNode}
    (known : proverNode s = .ok prover) :
    ProverTells s (reporting base header state body c) c indices := by
  obtain ⟨roots, chunks, fieldRoots, trees⟩ := Composer.ofSnapshot?_spec built
  refine ⟨prover, known, fun i mem log q _ asked => ?_⟩
  obtain ⟨j, v, b, same, inState, -⟩ := belong i mem
  obtain rfl : i = j := Int.ofNat_inj.mp same
  have lt : i < twoTo 40 := trees.lt_of_validator inState
  have isA := (Snapshot.fits_of_decode? read v (Array.mem_of_getElem? inState)).isA
  obtain ⟨p, -, -, made, -⟩ := trees.validatorProof isA inState
  obtain ⟨reply, told, proves⟩ := exists_proverReply made lt
  have small : twoTo 40 < twoTo 64 := by decide +kernel
  have index : indexIn ((q.parameter?.map (·.2)).getD "") = i := by
    rw [asked]
    exact indexIn_eq (by omega)
  exact ⟨_, reply, rfl, index ▸ told, proves⟩

/-- Every state that has a composer is reported by nodes, together with every header that names its
root. -/
theorem exists_reports {base : String} (given : Settings.nonEmpty? s.beaconUrl? = some base)
    (fits : header.Fits .blockHeader) (read : Snapshot.decode? body = .ok state)
    (built : Composer.ofSnapshot? state = .ok c) :
    ∃ nodes, (∀ seconds : Number, seconds.exceeds 0 = true → Patient nodes seconds) ∧
      ∀ indices : List Int, (∀ index ∈ indices, Belongs state index) →
        Reports s nodes header header.derivation.value body state indices ∧
        ∀ prover, proverNode s = .ok prover → ProverTells s nodes c indices := by
  obtain ⟨roots, chunks, fieldRoots, trees⟩ := Composer.ofSnapshot?_spec built
  have tellable := tellable_of_root? read trees.root?
  have tells {path : String} {data : Value} (plain : Json.Plain 3 data)
      (replied : honestReply header header.derivation.value state body path = dataReply data) :
      Tells s (reporting base header state body c) path data := tells_telling given plain replied
  refine ⟨reporting base header state body c, fun _ => patient_of_still fun _ => rfl,
    fun indices belong => ⟨⟨?_, ?_, ?_, ?_, ?_⟩,
      fun prover => proverTells_reporting base header read built belong⟩⟩
  · exact ⟨_, (tells (plain_headerData fits) rfl).to none, _, _, rfl, rfl, _, rfl, .refl _⟩
  · exact ⟨_, (tells (plain_rootData header.derivation.value) rfl).to none, rfl⟩
  · have given : Answers s (telling base (honestReply header header.derivation.value state body))
        ("/eth/v2/debug/beacon/states/" ++ finalized) (·.body = body) :=
      answers_telling given rfl rfl
    exact given.to none (some "application/octet-stream")
  · exact ⟨_, (tells (plain_validatorsData tellable) rfl).to _, lists_validators tellable belong⟩
  · intro index mem
    obtain ⟨i, v, b, rfl, inState, inList⟩ := belong index mem
    have inside := (Array.getElem?_eq_some_iff.mp inState).1
    have few := tellable.few
    have fitsV := tellable.fits v (Array.mem_of_getElem? inState)
    have reply := honestReply_single header header.derivation.value body (by omega) inState
    exact ⟨_, (tells (plain_description fitsV _ _) reply).to none,
      describes_descriptionOf tellable inState inList⟩

/-! ### All requests -/

/-- Every request about validators of the state succeeds, from every session: there is a proof of
the state's composer for each index in turn, and a stale balance comes with the record and the
balance of the state. A prover changes nothing. -/
theorem proofs_delivered (alone : Alone s) (whole : s.useProver = false)
    (patient : ∀ seconds ∈ [s.credentialsTimeout, s.checkpointTimeout, s.staleBalanceTimeout],
      Patient nodes seconds)
    (read : Snapshot.decode? body = .ok state) (built : Composer.ofSnapshot? state = .ok c)
    (typed : header.Typed .blockHeader) (hashed : header.root? = .ok blockRoot)
    (names : header.get "state_root" = .bytes c.stateRoot) {indices : List Int}
    (nonempty : indices ≠ []) (belong : ∀ index ∈ indices, Belongs state index)
    (reports : Reports s nodes header blockRoot body state indices) :
    Gives nodes (credentialProof s indices) (CredentialsOf c header blockRoot indices) ∧
    Gives nodes (checkpointProof s indices) (CheckpointOf c header blockRoot indices) ∧
    (∀ index ∈ indices, Gives nodes (staleBalanceProof s index) fun r => ∃ v balance,
      state.validators[index.toNat]? = some v ∧ state.balances[index.toNat]? = some balance ∧
        StaleBalanceOf c header blockRoot index v balance r) ∧
    (ProverTells s nodes c indices →
      GivesAlike nodes (credentialProof s indices)
        (credentialProof { s with useProver := true } indices)
        (CredentialsOf c header blockRoot indices)) := by
  have env := reports.atBlock alone (typed.fits (by decide) hashed) hashed names read built
  obtain ⟨roots, chunks, fieldRoots, trees⟩ := Composer.ofSnapshot?_spec built
  have tellable := tellable_of_root? read trees.root?
  simp only [List.forall_mem_cons] at patient
  obtain ⟨forCredentials, forCheckpoint, forStale, -⟩ := patient
  have nonneg : ∀ index ∈ indices, 0 ≤ index := by
    intro index mem
    obtain ⟨i, -, -, rfl, -⟩ := belong index mem
    exact Int.natCast_nonneg i
  obtain ⟨items, tells, lists⟩ := reports.list
  obtain ⟨found, listed, described⟩ := described_of_lists tellable nonneg lists
  have stateProofs : ∀ d validators, Lasts nodes d → StandIn state validators →
      validators.map (·.1) = indices →
      Gives nodes (validatorProofs s c.stateRoot d validators) (ProofsOf c validators) :=
    fun d validators lasts stand _ => env.gives_localProofs whole lasts stand
  have credentials := env.alike_credentialProof forCredentials nonempty belong tells listed
    described s.useProver stateProofs stateProofs
  refine ⟨credentials.left, env.gives_checkpointProof forCheckpoint nonempty belong, ?_, ?_⟩
  · intro index mem
    obtain ⟨i, rfl⟩ := Int.eq_ofNat_of_zero_le (nonneg index mem)
    obtain ⟨description, tellsOne, v, balance, inState, inList, tells⟩ := reports.single _ mem
    rw [Int.toNat_natCast] at inState inList tells
    have fits := tellable.fits v (Array.mem_of_getElem? inState)
    obtain ⟨ge, lt⟩ := tellable.balances balance (List.mem_of_getElem? inList)
    have document := env.gives_staleBalanceProof forStale whole inState tellsOne
      (validatorIn?_of_tells fits tells) (balance_of_tells ge lt tells)
    intro a
    obtain ⟨r, b, ran, holds⟩ := document a
    exact ⟨r, b, ran, v, balance, inState, inList, holds⟩
  · intro prover
    exact env.alike_credentialProof forCredentials nonempty belong tells listed described
      true stateProofs fun d validators lasts stand asked =>
        env.gives_proverProofs prover lasts stand asked

/-- The state of three validators, its composer and the header over it. -/
theorem exists_trio : ∃ body state c, Snapshot.decode? body = .ok state ∧
    Composer.ofSnapshot? state = .ok c ∧ (firstHeader c.stateRoot).Fits .blockHeader ∧
    ∀ index ∈ [2, 0, 2], Belongs state index := by
  have fits : ∀ v ∈ [zero .validator, zero .validator, slashedValidator], v.Fits .validator := by
    simp [fits_zero, fits_slashedValidator]
  have fit : ∀ n ∈ [32000000000, 0, (31000000000 : Int)], 0 ≤ n ∧ n < twoTo 64 := by
    decide +kernel
  obtain ⟨state, root, read, hashed, validators, balances⟩ := State.exists_state fits fit
    (by
      rw [State.validatorsSection, Bytes.size_concatList (State.size_of_mem_encoded fits)]
      decide)
    (by
      rw [Chunk.size_packedBytes]
      decide)
  obtain ⟨c, built, -, header⟩ := exists_composed hashed
  have first : Belongs state 0 :=
    ⟨0, zero .validator, 32000000000, rfl, by rw [validators]; rfl, by rw [balances]; rfl⟩
  have last : Belongs state 2 :=
    ⟨2, slashedValidator, 31000000000, rfl, by rw [validators]; rfl, by rw [balances]; rfl⟩
  exact ⟨_, state, c, read, built, header, by simp [first, last]⟩

/-- Requests about two of three validators, one of them asked for twice, to nodes that report them:
the proofs are shared among four workers. -/
theorem proofs_delivered_trio : ∃ nodes header blockRoot body state c,
    loneSettings.maxWorkers = 4 ∧ Alone loneSettings ∧ loneSettings.useProver = false ∧
    (∀ seconds ∈ [loneSettings.credentialsTimeout, loneSettings.checkpointTimeout,
      loneSettings.staleBalanceTimeout], Patient nodes seconds) ∧
    Snapshot.decode? body = .ok state ∧ Composer.ofSnapshot? state = .ok c ∧
    header.Typed .blockHeader ∧ header.root? = .ok blockRoot ∧
    header.get "state_root" = .bytes c.stateRoot ∧ (∀ index ∈ [2, 0, 2], Belongs state index) ∧
    Reports loneSettings nodes header blockRoot body state [2, 0, 2] ∧
    ProverTells loneSettings nodes c [2, 0, 2] ∧
    Gives nodes (credentialProof loneSettings [2, 0, 2])
      (CredentialsOf c header blockRoot [2, 0, 2]) ∧
    Gives nodes (checkpointProof loneSettings [2, 0, 2])
      (CheckpointOf c header blockRoot [2, 0, 2]) ∧
    (Gives nodes (staleBalanceProof loneSettings 2) fun r => ∃ v balance,
      state.validators[2]? = some v ∧ state.balances[2]? = some balance ∧
        StaleBalanceOf c header blockRoot 2 v balance r) ∧
    GivesAlike nodes (credentialProof loneSettings [2, 0, 2])
      (credentialProof { loneSettings with useProver := true } [2, 0, 2])
      (CredentialsOf c header blockRoot [2, 0, 2]) := by
  obtain ⟨body, state, c, read, built, fits, belong⟩ := exists_trio
  have rooted := Record.root?_eq (by decide) fits
  have given : Settings.nonEmpty? loneSettings.beaconUrl? = some "http://node" := rfl
  obtain ⟨nodes, patient, reports⟩ := exists_reports given fits read built
  have alone : Alone loneSettings := alone_of_unnamed rfl rfl
  have lasting : ∀ seconds ∈ [loneSettings.credentialsTimeout, loneSettings.checkpointTimeout,
      loneSettings.staleBalanceTimeout], Patient nodes seconds := by
    simp only [List.forall_mem_cons]
    exact ⟨patient _ (by decide), patient _ (by decide), patient _ (by decide), by simp⟩
  obtain ⟨told, proven⟩ := reports [2, 0, 2] belong
  have proven := proven _ rfl
  obtain ⟨credentials, checkpoint, stale, alike⟩ := proofs_delivered alone rfl lasting read built
    fits.typed rooted rfl (List.cons_ne_nil _ _) belong told
  exact ⟨nodes, _, _, _, state, c, rfl, alone, rfl, lasting, read, built, fits.typed, rooted, rfl,
    belong, told, proven, credentials, checkpoint, stale 2 List.mem_cons_self, alike proven⟩

end BeaconBranch.Service
