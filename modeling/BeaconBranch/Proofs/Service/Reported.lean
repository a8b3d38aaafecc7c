import BeaconBranch.Proofs.Merkle.Gindex
import BeaconBranch.Proofs.Service.Telling

/-!
What nodes report. A beacon node tells a header and the records of validators as JSON objects, with
their entries in any order and with others beside them, and a prover tells the branch of a validator
with the generalized index of its place. Main statements: descriptions of validators are found in a
reply that lists them in any order; the proofs that a prover tells are those of the state's
composer; and a beacon node that reports a block and its state stands at the block.
-/

namespace BeaconBranch.Service

open Exchange Merkle Record

variable {s : Settings} {nodes : Nodes}

/-! ### Records as they are told -/

/-- An object that tells a record: it has an entry for each field, in any order. -/
def TellsRecord (message : Value) (r : Record) : Prop :=
  ∃ es, message = .object es ∧ es.Perm r.told

/-- The reply that tells a header. -/
def TellsHeader (data : Value) (header : Record) : Prop :=
  ∃ entry message, data.atKey? "header" = .ok entry ∧ entry.atKey? "message" = .ok message ∧
    TellsRecord message header

/-- A description that tells a validator: its index, its balance and its record. -/
structure TellsValidator (description : Value) (i : Nat) (v : Record) (balance : Int) : Prop where
  index : description.atKey? "index" = .ok (.text (toString (i : Int)))
  balance : description.atKey? "balance" = .ok (.text (toString balance))
  record : ∃ message, description.find? "validator" = .ok (some message) ∧ TellsRecord message v

theorem headerIn?_of_tells {data : Value} {header : Record} (fits : header.Fits .blockHeader)
    (tells : TellsHeader data header) (block : String) :
    BeaconNode.headerIn? block data = .ok header := by
  obtain ⟨entry, _, outer, inner, es, rfl, perm⟩ := tells
  have parsed : (do
      let message ← (← data.atKey? "header").atKey? "message"
      ofJson? .blockHeader message) = .ok header := by
    simp only [Outcome.bind_eq_ok_iff]
    exact ⟨entry, outer, _, inner, ofJson?_told (by decide) (by decide) fits perm⟩
  rw [BeaconNode.headerIn?, parsed]

section Descriptions

variable {description : Value} {i : Nat} {v : Record} {balance : Int}

theorem validatorIn?_of_tells (fits : v.Fits .validator)
    (tells : TellsValidator description i v balance) :
    BeaconNode.validatorIn? description = .ok v := by
  obtain ⟨_, held, es, rfl, perm⟩ := tells.record
  have read : ofJson? .validator (.object es) = .ok v :=
    ofJson?_told (by decide) (by decide) fits perm
  rw [BeaconNode.validatorIn?, Outcome.bind_eq_ok_iff]
  refine ⟨_, held, ?_⟩
  dsimp only [Option.getD_some]
  rw [read]

theorem index_of_tells (lt : i < twoTo 64) (tells : TellsValidator description i v balance) :
    (description.atKey? "index" >>= Value.whole?) = .ok (i : Int) :=
  Outcome.bind_eq_ok_iff.mpr ⟨_, tells.index, whole?_toString lt⟩

theorem balance_of_tells (ge : 0 ≤ balance) (lt : balance < twoTo 64)
    (tells : TellsValidator description i v balance) :
    (description.atKey? "balance" >>= Value.whole?) = .ok balance := by
  obtain ⟨n, rfl⟩ := Int.eq_ofNat_of_zero_le ge
  exact Outcome.bind_eq_ok_iff.mpr ⟨_, tells.balance, whole?_toString (by omega)⟩

end Descriptions

/-- A description that tells the validator at an index of a state. -/
def Describes (state : Snapshot) (i : Nat) (description : Value) : Prop :=
  ∃ v balance, state.validators[i]? = some v ∧ state.balances[i]? = some balance ∧
    TellsValidator description i v balance

/-- Descriptions in any order, with one for each index that was asked for: each of them names an
index, and one that names an index that was asked for tells the validator there. -/
structure Lists (state : Snapshot) (indices : List Int) (items : List Value) : Prop where
  named : ∀ e ∈ items, ∃ index, (e.atKey? "index" >>= Value.whole?) = .ok index ∧
    (index ∈ indices → Describes state index.toNat e)
  asked : ∀ index ∈ indices, ∃ e ∈ items, Describes state index.toNat e

/-- A description is found by its index, or another one with the same index is. -/
theorem exists_describedAs? {items : List Value} {found : List (Int × Value)}
    (read : byIndex? (.list items) = .ok found) {e : Value} (mem : e ∈ items) {index : Int}
    (names : (e.atKey? "index" >>= Value.whole?) = .ok index) :
    ∃ d, describedAs? index found = some d := by
  obtain ⟨_, whole, each⟩ := Outcome.bind_eq_ok_iff.mp read
  obtain rfl := Except.ok.inj whole
  obtain ⟨k, place⟩ := List.getElem?_of_mem mem
  obtain ⟨p, foundAt, made⟩ := Outcome.getElem?_of_mapM each place
  have index : index = p.1 := Except.ok.inj (names.symm.trans (entry_eq_ok_iff.mp made).1)
  refine Option.ne_none_iff_exists'.mp fun none => ?_
  have other := List.lookup_eq_none_iff.mp none p
    (List.mem_reverse.mpr (List.mem_of_getElem? foundAt))
  simp [index] at other

variable {state : Snapshot}

/-- The descriptions of a reply are found by their indices. -/
theorem described_of_lists (tellable : Tellable state) {indices : List Int} {items : List Value}
    (nonneg : ∀ index ∈ indices, 0 ≤ index) (lists : Lists state indices items) :
    ∃ found, byIndex? (.list items) = .ok found ∧ Described state found indices := by
  obtain ⟨found, read⟩ := Outcome.exists_mapM_eq_ok_iff.mpr fun e mem =>
    (lists.named e mem).elim fun index names =>
      ⟨(index, e), entry_eq_ok_iff.mpr ⟨names.1, rfl⟩⟩
  have listed : byIndex? (.list items) = .ok found := Outcome.bind_eq_ok_iff.mpr ⟨_, rfl, read⟩
  refine ⟨found, listed, fun index mem => ?_⟩
  obtain ⟨i, rfl⟩ := Int.eq_ofNat_of_zero_le (nonneg index mem)
  obtain ⟨own, inItems, v, balance, inState, -, tells⟩ := lists.asked i mem
  have few := tellable.few
  have inside := (Array.getElem?_eq_some_iff.mp inState).1
  rw [Int.toNat_natCast] at inside tells
  obtain ⟨e, looked⟩ :=
    exists_describedAs? listed inItems (index_of_tells (by omega) tells)
  -- The description that is looked up may be another one, but it tells the same validator.
  obtain ⟨_, whole, inItems, names⟩ := described_of_byIndex? listed looked
  obtain rfl := Except.ok.inj whole
  obtain ⟨j, named, describes⟩ := lists.named e inItems
  obtain rfl : j = i := Except.ok.inj (named.symm.trans names)
  obtain ⟨v, balance, inState, -, tells⟩ := describes mem
  have fits := tellable.fits v (Array.mem_of_getElem? inState)
  exact ⟨i, v, e, rfl, inState, looked, validatorIn?_of_tells fits tells⟩

/-! ### Provers -/

variable {header : Record} {blockRoot body : ByteArray} {c : Composer}

/-- A reply that proves the validator at an index as a composer does: it has the composer's branch
and the generalized index of the place that the branch starts from. -/
structure ProvesAs (c : Composer) (i : Nat) (reply : Value) : Prop where
  branch : ∃ p, c.validatorProof? i none = .ok p ∧ reply.find? "proof" =
    .ok (some (.list (p.branch.map fun b => .text (Hex.marked b))))
  gindex : ∃ g place, reply.find? "gindex" = .ok (some g) ∧ g.whole? = .ok place ∧
    Registry.validatorGindex? i = .ok place

/-- The prover of the settings proves validators as a composer does, whenever it is asked. -/
def ProverTells (s : Settings) (nodes : Nodes) (c : Composer) (indices : List Int) : Prop :=
  ∃ prover, proverNode s = .ok prover ∧ ∀ i : Nat, (i : Int) ∈ indices → ∀ log q,
    q.url = prover.baseUrl ++ "/eth/v1/lightclient/proof/" ++ finalized →
    q.parameter? = some ("paths", "validators/" ++ toString (i : Int)) →
      ∃ answer reply, nodes.prover log q = .answered answer ∧
        ProverNode.dataIn? answer = .ok reply ∧ ProvesAs c i reply

/-- A branch is read as it was written. -/
theorem branch?_marked {reply : Value} {branch : List ByteArray}
    (told : reply.find? "proof" = .ok (some (.list (branch.map fun b => .text (Hex.marked b))))) :
    ProverReply.branch? reply = .ok branch := by
  simp only [ProverReply.branch?, told, Outcome.bind_eq_ok_iff]
  refine ⟨_, rfl, _, rfl, Outcome.mapM_eq_ok_iff.mpr ?_⟩
  rw [List.forall₂_map_left_iff, List.forall₂_same]
  exact fun b _ => Hex.bytes?_marked b

/-- The index of a validator's own place fits a branch of 46 nodes. -/
theorem checkGindex_own {i : Nat} (lt : i < twoTo 40) {place : Int}
    (names : Registry.validatorGindex? i = .ok place) :
    ProverReply.checkGindex place i 46 = .ok () := by
  obtain rfl := Except.ok.inj (names.symm.trans (Registry.validatorGindex?_eq lt))
  simp only [ProverReply.checkGindex, Outcome.bind_eq_ok_iff]
  refine ⟨46, Registry.depth?_validatorGindex lt, ?_⟩
  rw [if_neg (by decide)]
  exact Outcome.bind_eq_ok_iff.mpr ⟨_, names, if_neg (by simp)⟩

/-- A reply that proves a validator of the state passes the checks of its generalized index, and
becomes the composer's own proof. -/
theorem validatorProof?_of_provesAs (read : Snapshot.decode? body = .ok state)
    (built : Composer.ofSnapshot? state = .ok c) {i : Nat} {v : Record}
    (inState : state.validators[i]? = some v) {reply : Value} (proves : ProvesAs c i reply) :
    ∃ p, c.validatorProof? i none = .ok p ∧ ProverReply.validatorProof? reply i v = .ok p := by
  have isA := (Snapshot.fits_of_decode? read v (Array.mem_of_getElem? inState)).isA
  obtain ⟨roots, chunks, fieldRoots, trees⟩ := Composer.ofSnapshot?_spec built
  obtain ⟨p, -, -, made, length, -⟩ := trees.validatorProof isA inState
  have lt : i < twoTo 40 := trees.lt_of_validator inState
  obtain ⟨_, made', branch⟩ := proves.branch
  obtain rfl := Except.ok.inj (made.symm.trans made')
  obtain ⟨g, place, held, number, names⟩ := proves.gindex
  have own : c.snapshot.validator? i = .ok v :=
    trees.snapshot ▸ Snapshot.validator?_of_getElem? inState
  obtain ⟨index, leaves⟩ := madeFor_of_validatorProof? ((validatorProof?_own own).trans made)
  refine ⟨p, made, ?_⟩
  have fitting : ProverReply.checkGindex place i p.branch.length = .ok () :=
    length ▸ checkGindex_own lt names
  simp only [ProverReply.validatorProof?, Outcome.bind_eq_ok_iff]
  refine ⟨p.branch, branch?_marked branch, _, held, ?_⟩
  dsimp only [Option.getD_some]
  split
  · cases number
  · simp only [Outcome.bind_eq_ok_iff, Outcome.pure_eq_ok_iff]
    obtain ⟨_, leavesOfP, branchOfP⟩ := p
    obtain rfl : _ = (i : Int) := index
    exact ⟨_, number, (), fitting, leavesOfP, leaves, rfl⟩

/-- What the prover replies to a question about a validator. -/
theorem gives_proverReply {prover : ProverNode} {i : Nat}
    (replies : ∀ log q, q.url = prover.baseUrl ++ "/eth/v1/lightclient/proof/" ++ finalized →
      q.parameter? = some ("paths", "validators/" ++ toString (i : Int)) →
        ∃ answer reply, nodes.prover log q = .answered answer ∧
          ProverNode.dataIn? answer = .ok reply ∧ ProvesAs c i reply)
    (timeout : Option Number) :
    Gives nodes (prover.validatorProof finalized (toString (i : Int)) timeout) (ProvesAs c i) := by
  intro a
  let q : Query := ⟨prover.baseUrl ++ "/eth/v1/lightclient/proof/" ++ finalized,
    some ("paths", "validators/" ++ toString (i : Int)), none,
    Remote.timeoutOr prover.timeout timeout⟩
  obtain ⟨answer, reply, replied, read, proves⟩ := replies a.log q rfl rfl
  refine ⟨reply, note (.prover q) a, bind_eq_ok_iff.mpr ⟨_, _, rfl, ?_⟩, proves⟩
  rw [replied]
  exact liftM_eq_ok_iff.mpr ⟨read, rfl⟩

/-- The prover gives the proofs of the state's records, as the whole state does. -/
theorem AtBlock.gives_proverProofs (env : AtBlock s nodes header blockRoot body state c)
    {indices : List Int} (tells : ProverTells s nodes c indices) {d : Deadline}
    (lasts : Lasts nodes d) {validators : List (Int × Record)} (stand : StandIn state validators)
    (asked : validators.map (·.1) = indices) :
    Gives nodes (validatorProofs { s with useProver := true } c.stateRoot d validators)
      (ProofsOf c validators) := by
  obtain ⟨prover, known, replies⟩ := tells
  have fetched : ∀ e ∈ validators, Gives nodes
      (fetchValidatorProof (some d.remaining) (prover.validatorProof finalized (toString e.1)) e.1
        e.2) fun p => c.validatorProof? e.1 none = .ok p := by
    rintro ⟨index, v⟩ mem
    obtain ⟨i, rfl, inState⟩ := stand _ mem
    have among : (i : Int) ∈ indices := asked ▸ List.mem_map_of_mem mem
    refine (gives_remaining lasts).bind fun left _ => ?_
    refine (gives_proverReply (replies i among) _).bind fun reply proves => ?_
    refine (gives_remaining lasts).bind fun _ _ => .bind_eq (.pure rfl) ?_
    obtain ⟨p, made, ok⟩ := validatorProof?_of_provesAs env.read env.built inState proves
    exact .lift ok made
  have run : validatorProofs { s with useProver := true } c.stateRoot d validators =
      (liftM (proverNode s) >>= fun prover => validators.mapM fun e =>
        fetchValidatorProof (some d.remaining) (prover.validatorProof finalized (toString e.1)) e.1
          e.2) := rfl
  rw [run]
  refine .bind_lift known ?_
  intro a
  obtain ⟨proofs, b, ran, each⟩ := Gives.mapM fetched a
  exact ⟨proofs, b, ran, Outcome.mapM_eq_ok_iff.mpr each⟩

/-! ### Blocks -/

/-- What the beacon node of the settings tells to requests about some validators: a header and its
root, the bytes of a state, and descriptions of the validators. -/
structure Reports (s : Settings) (nodes : Nodes) (header : Record) (blockRoot body : ByteArray)
    (state : Snapshot) (indices : List Int) : Prop where
  header : ∃ data, TellsTo s nodes ("/eth/v1/beacon/headers/" ++ finalized) none data ∧
    TellsHeader data header
  root : ∃ data, TellsTo s nodes ("/eth/v1/beacon/blocks/" ++ finalized ++ "/root") none data ∧
    data.atKey? "root" = .ok (.text (Hex.marked blockRoot))
  given : GivesState s nodes body
  list : ∃ items, TellsTo s nodes ("/eth/v1/beacon/states/" ++ finalized ++ "/validators")
    (BeaconNode.selection indices) (.list items) ∧ Lists state indices items
  single : ∀ index ∈ indices, ∃ description, TellsTo s nodes
      ("/eth/v1/beacon/states/" ++ finalized ++ "/validators/" ++ toString index) none
      description ∧ Describes state index.toNat description

/-- A node that reports a block whose header names the root of the state tells this block. -/
theorem Reports.atBlock {indices : List Int}
    (reports : Reports s nodes header blockRoot body state indices) (alone : Alone s)
    (fits : header.Fits .blockHeader) (hashed : header.root? = .ok blockRoot)
    (names : header.get "state_root" = .bytes c.stateRoot)
    (read : Snapshot.decode? body = .ok state) (built : Composer.ofSnapshot? state = .ok c) :
    AtBlock s nodes header blockRoot body state c := by
  obtain ⟨data, tells, told⟩ := reports.header
  obtain ⟨rootData, tellsRoot, root⟩ := reports.root
  have readRoot : BeaconNode.rootIn? rootData = .ok blockRoot :=
    Outcome.bind_eq_ok_iff.mpr ⟨_, root, Hex.bytes?_marked blockRoot⟩
  exact ⟨alone, ⟨fits, hashed, names, ⟨data, tells, headerIn?_of_tells fits told _⟩,
    ⟨rootData, tellsRoot, readRoot⟩⟩, reports.given, read, built⟩

end BeaconBranch.Service
