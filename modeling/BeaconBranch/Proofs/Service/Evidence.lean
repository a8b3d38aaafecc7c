import BeaconBranch.Proofs.Composer.FanOut
import BeaconBranch.Proofs.Service.Session

/-!
What a request relies on. Replies come from nodes that may say anything, and may speak of another
block or state each time, so every part of a document is traced to the reply it was read from and to
the check it passed. Main statements: what an anchor, a composer, the descriptions of validators and
the proofs of validators stand for once a request has them.
-/

namespace BeaconBranch

theorem Snapshot.getElem?_of_balance? {state : Snapshot} {index b : Int}
    (found : state.balance? index = .ok b) :
    ∃ i : Nat, index = i ∧ state.balances[i]? = some b := by
  rw [Snapshot.balance?] at found
  split at found
  · cases found
  · rename_i nonneg
    refine ⟨index.toNat, by omega, ?_⟩
    split at found
    · rename_i held
      cases found
      exact held
    · cases found

theorem Snapshot.getElem?_of_validator? {state : Snapshot} {index : Int} {v : Record}
    (found : state.validator? index = .ok v) :
    ∃ i : Nat, index = i ∧ state.validators[i]? = some v := by
  rw [Snapshot.validator?] at found
  split at found
  · cases found
  · rename_i nonneg
    refine ⟨index.toNat, by omega, ?_⟩
    split at found
    · rename_i held
      cases found
      exact held
    · cases found

namespace Service

open Exchange

variable {s : Settings} {nodes : Nodes} {a b : Session}

/-! ### Replies -/

/-- The beacon node of the settings gave an answer for a path, asked between two sessions. -/
def Served (s : Settings) (nodes : Nodes) (first last : Session) (path : String)
    (answer : Answer) : Prop :=
  ∃ base, Settings.nonEmpty? s.beaconUrl? = some base ∧
    Answered nodes first last (Remote.trimSlashes base ++ path) answer

/-- The beacon node of the settings told a value for a path, asked between two sessions. -/
def Told (s : Settings) (nodes : Nodes) (first last : Session) (path : String) (data : Value) :
    Prop :=
  ∃ answer, Served s nodes first last path answer ∧ BeaconNode.dataIn? path answer = .ok data

theorem Served.mono {first first' last last' : Session} {path : String} {answer : Answer}
    (served : Served s nodes first last path answer) (earlier : Advance s nodes first' first)
    (later : Advance s nodes last last') : Served s nodes first' last' path answer := by
  obtain ⟨base, given, answered⟩ := served
  exact ⟨base, given, answered.mono earlier.log later.log⟩

theorem Told.mono {first first' last last' : Session} {path : String} {data : Value}
    (told : Told s nodes first last path data) (earlier : Advance s nodes first' first)
    (later : Advance s nodes last last') : Told s nodes first' last' path data := by
  obtain ⟨answer, served, read⟩ := told
  exact ⟨answer, served.mono earlier later, read⟩

/-- A node is the one of the settings. -/
def IsBeaconNode (s : Settings) (node : BeaconNode) : Prop :=
  ∃ base, Settings.nonEmpty? s.beaconUrl? = some base ∧ node.baseUrl = Remote.trimSlashes base

theorem isBeaconNode_of_beaconNode {node : BeaconNode}
    (ran : beaconNode s nodes a = (.ok node, b)) : IsBeaconNode s node ∧ a = b := by
  simp only [beaconNode, bind_eq_ok_iff, liftM_eq_ok_iff] at ran
  obtain ⟨url, _, ⟨given, rfl⟩, made, rfl⟩ := ran
  rw [Settings.requireBeaconUrl?] at given
  cases found : Settings.nonEmpty? s.beaconUrl? with
  | none => simp [found] at given
  | some base =>
    rw [found] at given
    obtain rfl : base = url := Except.ok.inj given
    have some : base ≠ "" := by simpa using (Option.filter_eq_some_iff.mp found).2
    simp only [BeaconNode.at?, List.filterMap_cons, id, List.filterMap_nil, List.find?_cons,
      bne_iff_ne.mpr some] at made
    cases made
    exact ⟨⟨base, found, rfl⟩, rfl⟩

theorem served_of_request {node : BeaconNode} (isNode : IsBeaconNode s node) {path : String}
    {parameter : Option (String × String)} {accept : Option String} {timeout : Option Number}
    {answer : Answer}
    (ran : node.request path parameter accept timeout nodes a = (.ok answer, b)) :
    Served s nodes a b path answer := by
  obtain ⟨base, given, url⟩ := isNode
  exact ⟨base, given, url ▸ BeaconNode.answered_of_request ran⟩

theorem told_of_fetch {node : BeaconNode} (isNode : IsBeaconNode s node) {path : String}
    {parameter : Option (String × String)} {timeout : Option Number} {data : Value}
    (ran : node.fetch path parameter timeout nodes a = (.ok data, b)) :
    Told s nodes a b path data := by
  obtain ⟨answer, ran, read⟩ := BeaconNode.fetch_eq_ok_iff.mp ran
  exact ⟨answer, served_of_request isNode ran, read⟩

/-! ### Anchors -/

/-- An anchor belongs to a header that the beacon node told: its block root is the root of the
header, its second is the one in which the header's slot starts on the network of the service, and
the state root of the header is proven under the block root. -/
structure Anchored (s : Settings) (nodes : Nodes) (first last : Session) (header : Record)
    (anchor : Anchor) : Prop where
  received : ∃ data, Told s nodes first last ("/eth/v1/beacon/headers/" ++ finalized) data ∧
    BeaconNode.headerIn? finalized data = .ok header
  blockRoot : header.root? = .ok anchor.blockRoot
  stateRoot : header.get "state_root" = .bytes anchor.stateRootProof.stateRoot
  timestamp : ∃ n t, last.network? = some n ∧ Resolved s nodes last.log n ∧
    (header.get "slot").toInt = .ok t ∧ anchor.timestamp = n.genesisTime + 12 * t
  proven : Merkle.proves anchor.stateRootProof.stateRoot anchor.stateRootProof.branch 3
    anchor.blockRoot = true

theorem Anchored.mono {first first' last last' : Session} {header : Record} {anchor : Anchor}
    (anchored : Anchored s nodes first last header anchor) (earlier : Advance s nodes first' first)
    (later : Advance s nodes last last') : Anchored s nodes first' last' header anchor := by
  obtain ⟨⟨data, told, read⟩, blockRoot, stateRoot, ⟨n, t, found, resolved, slot, second⟩,
    proven⟩ := anchored
  exact ⟨⟨data, told.mono earlier later, read⟩, blockRoot, stateRoot,
    ⟨n, t, later.network n found, resolved.mono later.log, slot, second⟩, proven⟩

/-- The state root of a header's proof is the one that the header names. -/
theorem stateRoot_of_ofHeader? {header : Record} {p : StateRootProof}
    (made : StateRootProof.ofHeader? header = .ok p) :
    header.get "state_root" = .bytes p.stateRoot := by
  simp only [StateRootProof.ofHeader?, Outcome.bind_eq_ok_iff] at made
  obtain ⟨branch, -, made⟩ := made
  split at made
  · rename_i root names
    cases made
    exact names
  · cases made

/-- The anchor of a request. -/
theorem anchored_of_anchor {d : Deadline} {header : Record} {anc : Anchor}
    (ran : anchor s d nodes a = (.ok (header, anc), b)) (settled : Settled s nodes a) :
    Anchored s nodes a b header anc := by
  have settledAfter := ((walks_anchor d).advances _ _ _ ran).settled settled
  rw [anchor] at ran
  obtain ⟨node, _, made, ran⟩ := bind_eq_ok_iff.mp ran
  obtain ⟨left, u₁, early, ran⟩ := bind_eq_ok_iff.mp ran
  obtain ⟨_, _, asking, ran⟩ := bind_eq_ok_iff.mp ran
  obtain ⟨left', u₃, between, ran⟩ := bind_eq_ok_iff.mp ran
  obtain ⟨blockRoot, u₄, asked, ran⟩ := bind_eq_ok_iff.mp ran
  obtain ⟨root, hashed, ran⟩ := liftM_bind_eq_ok_iff.mp ran
  obtain ⟨same, ran⟩ := guard_eq_ok_iff.mp ran
  obtain ⟨n, u₅, found, ran⟩ := bind_eq_ok_iff.mp ran
  obtain ⟨t, slot, ran⟩ := liftM_bind_eq_ok_iff.mp ran
  obtain ⟨_, _, oracle, ran⟩ := bind_eq_ok_iff.mp ran
  obtain ⟨proof, proofMade, ran⟩ := liftM_bind_eq_ok_iff.mp ran
  obtain ⟨holds, ran⟩ := guard_eq_ok_iff.mp ran
  obtain ⟨document, rfl⟩ := pure_eq_ok_iff.mp ran
  obtain ⟨rfl, rfl⟩ := Prod.mk.inj document
  obtain ⟨data, u₂, fetched, parsing⟩ := bind_eq_ok_iff.mp asking
  obtain ⟨read, rfl⟩ := liftM_eq_ok_iff.mp parsing
  obtain ⟨isNode, rfl⟩ := isBeaconNode_of_beaconNode made
  have told := told_of_fetch isNode fetched
  -- The header was told before the network was found, and the network is kept until the end.
  have toNetwork : Advance s nodes u₂ _ := ((walks_remaining d).advances _ _ _ between).trans
    ((walks_blockRoot node _ _).advances _ _ _ asked)
  have fromNetwork := (walks_checkOracle _ _).advances _ _ _ oracle
  have toEnd := (toNetwork.trans (advances_network _ _ _ found)).trans fromNetwork
  have kept := fromNetwork.network n (network?_of_network found)
  obtain rfl : root = blockRoot := by simpa using same
  refine ⟨⟨data, told.mono ((walks_remaining d).advances _ _ _ early) toEnd, read⟩, hashed,
    stateRoot_of_ofHeader? proofMade, ⟨n, t, kept, settledAfter.network n kept, slot, ?_⟩, ?_⟩
  · show n.genesisTime + t * 12 = n.genesisTime + 12 * t
    rw [Int.mul_comm]
  · have proven : proof.holds root = true := by simpa using holds
    exact proven

/-! ### States -/

/-- A composer that a request uses was built from a state that the beacon node gave, and has the
state root that was asked for. -/
theorem served_of_composer {stateRoot : ByteArray} {d : Deadline} {c : Composer}
    (ran : composer s stateRoot d nodes a = (.ok c, b)) :
    ∃ answer state, Served s nodes a b ("/eth/v2/debug/beacon/states/" ++ finalized) answer ∧
      Snapshot.decode? answer.body = .ok state ∧ Composer.ofSnapshot? state = .ok c ∧
      c.stateRoot = stateRoot := by
  simp only [composer, bind_eq_ok_iff, liftM_eq_ok_iff, guard_eq_ok_iff, pure_eq_ok_iff] at ran
  obtain ⟨node, _, made, _, u, early, body, _, asked, state, _, ⟨read, rfl⟩, _, _, ⟨built, rfl⟩,
    same, rfl, rfl⟩ := ran
  obtain ⟨isNode, rfl⟩ := isBeaconNode_of_beaconNode made
  have earlier : Advance s nodes a u := (walks_remaining d).advances _ _ _ early
  obtain ⟨answer, requested, rfl⟩ := BeaconNode.stateBytes_eq_ok_iff.mp asked
  exact ⟨answer, state, (served_of_request isNode requested).mono earlier (.refl _), read, built,
    by simpa using same⟩

/-! ### Descriptions of validators -/

/-- A description goes under the index that it names. -/
theorem entry_eq_ok_iff {e : Value} {p : Int × Value} :
    (do return (← (← e.atKey? "index").whole?, e) : Except Fault (Int × Value)) = .ok p ↔
      (e.atKey? "index" >>= Value.whole?) = .ok p.1 ∧ p.2 = e := by
  simp only [Outcome.bind_eq_ok_iff, Outcome.pure_eq_ok_iff]
  constructor
  · rintro ⟨v, held, index, number, rfl⟩
    exact ⟨⟨v, held, number⟩, rfl⟩
  · rintro ⟨⟨v, held, number⟩, rfl⟩
    exact ⟨v, held, p.1, number, rfl⟩

/-- A description that is looked up stands in the reply and names the index. -/
theorem described_of_byIndex? {reply : Value} {found : List (Int × Value)}
    (read : byIndex? reply = .ok found) {index : Int} {d : Value}
    (looked : describedAs? index found = some d) :
    ∃ items, reply.items? = .ok items ∧ d ∈ items ∧
      (d.atKey? "index" >>= Value.whole?) = .ok index := by
  obtain ⟨items, whole, each⟩ := Outcome.bind_eq_ok_iff.mp read
  obtain ⟨before, after, split, -⟩ := List.lookup_eq_some_iff.mp looked
  have listed : (index, d) ∈ found := by
    rw [← List.mem_reverse, split]
    simp
  obtain ⟨_, mem, told⟩ := Outcome.exists_of_mem_mapM each listed
  obtain ⟨names, rfl⟩ := entry_eq_ok_iff.mp told
  exact ⟨items, whole, mem, names⟩

/-- The descriptions that a request uses were told by the beacon node, one for each index. -/
theorem told_of_descriptions {indices : List Int} {d : Deadline} {found : List (Int × Value)}
    (ran : descriptions s indices d nodes a = (.ok found, b)) :
    ∃ reply items, Told s nodes a b ("/eth/v1/beacon/states/" ++ finalized ++ "/validators") reply ∧
      reply.items? = .ok items ∧ ∀ index ∈ indices, ∃ e ∈ items, describedAs? index found = some e ∧
        (e.atKey? "index" >>= Value.whole?) = .ok index := by
  simp only [descriptions, BeaconNode.validators, bind_eq_ok_iff, liftM_eq_ok_iff, guard_eq_ok_iff,
    pure_eq_ok_iff] at ran
  obtain ⟨node, _, made, _, u, early, reply, _, asked, found, _, ⟨read, rfl⟩, complete, rfl,
    rfl⟩ := ran
  obtain ⟨isNode, rfl⟩ := isBeaconNode_of_beaconNode made
  have earlier : Advance s nodes a u := (walks_remaining d).advances _ _ _ early
  have told := (told_of_fetch isNode asked).mono earlier (.refl _)
  obtain ⟨items, whole, -⟩ := Outcome.bind_eq_ok_iff.mp read
  refine ⟨reply, items, told, whole, fun index mem => ?_⟩
  have all : ∀ i ∈ indices, describedAs? i found ≠ none := by simpa using complete
  obtain ⟨e, looked⟩ := Option.ne_none_iff_exists'.mp (all index mem)
  obtain ⟨_, whole', inItems, same⟩ := described_of_byIndex? read looked
  obtain rfl := Except.ok.inj (whole'.symm.trans whole)
  exact ⟨e, inItems, looked, same⟩

/-! ### Proofs of validators -/

/-- A proof that was made for a validator's record: it names the index, and shows the leaves of the
record. -/
structure MadeFor (index : Int) (v : Record) (p : ValidatorProof) : Prop where
  index : p.index = index
  leaves : v.shownLeaves? = .ok p.leaves

theorem madeFor_of_fetch {budget : Option (Exchange Number)}
    {fetch : Option Number → Exchange Value} {index : Int} {v : Record} {p : ValidatorProof}
    (ran : fetchValidatorProof budget fetch index v nodes a = (.ok p, b)) : MadeFor index v p := by
  have read : ∃ reply, ProverReply.validatorProof? reply index v = .ok p := by
    cases budget with
    | none =>
      simp only [fetchValidatorProof, bind_eq_ok_iff, liftM_eq_ok_iff] at ran
      obtain ⟨reply, _, -, read, -⟩ := ran
      exact ⟨reply, read⟩
    | some remaining =>
      simp only [fetchValidatorProof, pure_bind, bind_eq_ok_iff, liftM_eq_ok_iff] at ran
      obtain ⟨_, _, -, reply, _, -, _, _, -, read, -⟩ := ran
      exact ⟨reply, read⟩
  obtain ⟨reply, read⟩ := read
  simp only [ProverReply.validatorProof?, Outcome.bind_eq_ok_iff] at read
  obtain ⟨branch, -, gindex, -, read⟩ := read
  split at read
  · simp only [Outcome.bind_eq_ok_iff, Outcome.pure_eq_ok_iff] at read
    obtain ⟨leaves, shown, rfl⟩ := read
    exact ⟨rfl, shown⟩
  · simp only [Outcome.bind_eq_ok_iff, Outcome.pure_eq_ok_iff] at read
    obtain ⟨_, -, _, -, leaves, shown, rfl⟩ := read
    exact ⟨rfl, shown⟩

theorem madeFor_of_validatorProof? {c : Composer} {index : Int} {v : Record} {p : ValidatorProof}
    (made : c.validatorProof? index (some v) = .ok p) : MadeFor index v p := by
  simp only [Composer.validatorProof?, Outcome.bind_eq_ok_iff, Outcome.pure_eq_ok_iff,
    Option.getD_some] at made
  obtain ⟨_, -, _, -, _, -, _, -, leaves, shown, rfl⟩ := made
  exact ⟨rfl, shown⟩

/-- An entry is looked up by its index if no index stands for two entries. -/
theorem lookup_of_single {α : Type} {entries : List (Int × α)}
    (single : ∀ p ∈ entries, ∀ q ∈ entries, p.1 = q.1 → p.2 = q.2) {p : Int × α}
    (mem : p ∈ entries) : entries.lookup p.1 = some p.2 := by
  cases looked : entries.lookup p.1 with
  | none =>
    have other := List.lookup_eq_none_iff.mp looked p mem
    simp at other
  | some v =>
    obtain ⟨before, after, split, -⟩ := List.lookup_eq_some_iff.mp looked
    have inList : (p.1, v) ∈ entries := by
      rw [split]
      simp
    exact congrArg some (single _ inList p mem rfl)

/-- Without a prover, the proofs of a request come from a state that the beacon node gave and that
has the state root that was asked for. -/
theorem served_of_validatorProofs (whole : s.useProver = false) {stateRoot : ByteArray}
    {d : Deadline} {validators : List (Int × Record)} {proofs : List ValidatorProof}
    (single : ∀ p ∈ validators, ∀ q ∈ validators, p.1 = q.1 → p.2 = q.2)
    (ran : validatorProofs s stateRoot d validators nodes a = (.ok proofs, b)) :
    ∃ answer state c, Served s nodes a b ("/eth/v2/debug/beacon/states/" ++ finalized) answer ∧
      Snapshot.decode? answer.body = .ok state ∧ Composer.ofSnapshot? state = .ok c ∧
      c.stateRoot = stateRoot ∧
      List.Forall₂ (fun v p => c.validatorProof? v.1 (some v.2) = .ok p) validators proofs := by
  simp only [validatorProofs, whole, Bool.false_eq_true, if_false, bind_eq_ok_iff,
    liftM_eq_ok_iff, proveMany?_eq] at ran
  obtain ⟨c, _, composed, proved, rfl⟩ := ran
  obtain ⟨answer, state, served, read, built, same⟩ := served_of_composer composed
  have each := Outcome.mapM_eq_ok_iff.mp proved
  rw [List.forall₂_map_left_iff] at each
  refine ⟨answer, state, c, served, read, built, same,
    Outcome.forall₂_of_getElem? each.length_eq fun k v p foundV foundP => ?_⟩
  have made := Outcome.forall₂_getElem? each foundV foundP
  rwa [lookup_of_single single (List.mem_of_getElem? foundV)] at made

/-- The proofs of a request are made for its validators, in their order, whether a prover or the
whole state gives them. -/
theorem madeFor_of_validatorProofs {stateRoot : ByteArray} {d : Deadline}
    {validators : List (Int × Record)} {proofs : List ValidatorProof}
    (single : ∀ p ∈ validators, ∀ q ∈ validators, p.1 = q.1 → p.2 = q.2)
    (ran : validatorProofs s stateRoot d validators nodes a = (.ok proofs, b)) :
    List.Forall₂ (fun v p => MadeFor v.1 v.2 p) validators proofs := by
  cases useProver : s.useProver with
  | true =>
    simp only [validatorProofs, useProver, if_true, bind_eq_ok_iff] at ran
    obtain ⟨prover, _, -, ran⟩ := ran
    refine (forall₂_of_mapM ran).imp ?_
    rintro ⟨index, v⟩ p ⟨_, _, fetched⟩
    exact madeFor_of_fetch fetched
  | false =>
    obtain ⟨_, _, _, -, -, -, -, each⟩ := served_of_validatorProofs useProver single ran
    exact each.imp fun _ _ => madeFor_of_validatorProof?

/-- A validator is proven: its proof shows the leaves of the record and leads from the root of the
record, at the place of the index, to the state root. -/
structure Proven (stateRoot : ByteArray) (index : Int) (v : Record) (p : ValidatorProof) :
    Prop where
  made : MadeFor index v p
  proves : ∃ root position, v.root? = .ok root ∧ Registry.validatorPosition? index = .ok position ∧
    Merkle.proves root p.branch position stateRoot = true

theorem holds_of_checkValidators {stateRoot : ByteArray} {proofs : List ValidatorProof}
    {validators : List Record} (checked : checkValidators stateRoot proofs validators = .ok ())
    {p : ValidatorProof} {v : Record} (mem : (p, v) ∈ proofs.zip validators) :
    p.holds? v stateRoot = .ok true := by
  have passed := Outcome.forM_eq_ok_iff.mp checked (p, v) mem
  obtain ⟨holds, ok, passed⟩ := Outcome.bind_eq_ok_iff.mp passed
  cases holds with
  | true => exact ok
  | false => cases passed

/-- Proofs that were made for validators and pass the check prove them, one by one. -/
theorem proven_of_checkValidators {stateRoot : ByteArray} {indices : List Int}
    {validators : List Record} {proofs : List ValidatorProof}
    (made : List.Forall₂ (fun v p => MadeFor v.1 v.2 p) (indices.zip validators) proofs)
    (checked : checkValidators stateRoot proofs validators = .ok ()) {k : Nat} {index : Int}
    {v : Record} {p : ValidatorProof} (foundIndex : indices[k]? = some index)
    (foundV : validators[k]? = some v) (foundP : proofs[k]? = some p) :
    Proven stateRoot index v p := by
  have pair : (indices.zip validators)[k]? = some (index, v) :=
    List.getElem?_zip_eq_some.mpr ⟨foundIndex, foundV⟩
  have madeFor : MadeFor index v p := Outcome.forall₂_getElem? made pair foundP
  have mem : (p, v) ∈ proofs.zip validators :=
    List.mem_of_getElem? (List.getElem?_zip_eq_some.mpr ⟨foundP, foundV⟩)
  have holds := holds_of_checkValidators checked mem
  simp only [ValidatorProof.holds?, Outcome.bind_eq_ok_iff, Outcome.pure_eq_ok_iff] at holds
  obtain ⟨root, hashed, position, place, proves⟩ := holds
  exact ⟨madeFor, root, position, hashed, madeFor.index ▸ place, proves⟩

/-! ### Proofs of balances -/

/-- A balance is proven: its proof carries the digest of the validator's public key and a chunk with
the balance in its place, and leads from the chunk to the balances root. -/
structure BalanceProven (state : Snapshot) (balancesRoot : ByteArray) (index : Int)
    (p : BalanceProof) : Prop where
  digest : ∃ v key, state.validator? index = .ok v ∧ v.get "pubkey" = .bytes key ∧
    p.publicKeyDigest = Sha256.digest key
  balance : ∃ b, state.balance? index = .ok b ∧
    (Chunk.balanceIn? p.chunk index).map Int.ofNat = .ok b
  proves : Merkle.proves p.chunk p.branch (index / 4) balancesRoot = true

/-- A balance's proof of a composer that passes the check. -/
theorem balanceProven_of_holds {state : Snapshot} {c : Composer}
    (built : Composer.ofSnapshot? state = .ok c) {index : Int} {p : BalanceProof}
    (made : c.balanceProof? index = .ok p) (holds : p.holds index c.balancesRoot = true) :
    BalanceProven state c.balancesRoot index p := by
  obtain ⟨roots, chunks, fieldRoots, trees⟩ := Composer.ofSnapshot?_spec built
  simp only [Composer.balanceProof?, Outcome.bind_eq_ok_iff, Outcome.pure_eq_ok_iff,
    trees.snapshot] at made
  obtain ⟨b, balance, v, validator, _, -, _, -, digest, digestOk, rfl⟩ := made
  simp only [Record.publicKeyDigest?, Outcome.bind_eq_ok_iff, Outcome.pure_eq_ok_iff,
    Value.asBytes_eq_ok_iff] at digestOk
  obtain ⟨key, names, rfl⟩ := digestOk
  refine ⟨⟨v, key, validator, names, rfl⟩, ⟨b, balance, ?_⟩, holds⟩
  obtain ⟨i, rfl, found⟩ := Snapshot.getElem?_of_balance? balance
  obtain ⟨chunk, foundChunk, read, ge⟩ := Chunk.balanceIn?_packed trees.packed found
  rw [← Array.getElem?_toList] at foundChunk
  have place : (i : Int) / (Limits.balancesPerChunk : Int) = ((i / 4 : Nat) : Int) := rfl
  dsimp only
  rw [place, Merkle.SparseTree.get_natCast, trees.balances.leafAt_of_getElem? foundChunk, read]
  exact congrArg Except.ok (Int.toNat_of_nonneg ge)

theorem holds_of_checkBalances {balancesRoot : ByteArray} {indices : List Int}
    {proofs : List BalanceProof} (checked : checkBalances balancesRoot indices proofs = .ok ())
    {index : Int} {p : BalanceProof} (mem : (index, p) ∈ indices.zip proofs) :
    p.holds index balancesRoot = true := by
  have passed := Outcome.forM_eq_ok_iff.mp checked (index, p) mem
  dsimp only at passed
  split at passed
  · assumption
  · cases passed

end Service

end BeaconBranch
