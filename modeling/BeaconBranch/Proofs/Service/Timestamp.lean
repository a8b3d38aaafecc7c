import BeaconBranch.Proofs.Service.Consistent
import BeaconBranch.Proofs.Service.Oracle

/-!
The second of a document. A service whose settings name no network takes the genesis time from the
network that it is pinned to. If the question that pins it fails, all its documents have the seconds
of the main network, whatever the execution node would tell later. Main statements: the second of
every document follows the first question for the chain id that settles the network; and a service
whose first question fails does not learn the network that its execution node tells from then on.
-/

namespace BeaconBranch.Service

open Exchange

/-- A request that leads from one session to another one ends with a document, which has an
anchor. -/
inductive Document (s : Settings) (nodes : Nodes) (a b : Session) : Anchor → Prop
  | credentials {indices : List Int} {r : CredentialProof}
      (ran : credentialProof s indices nodes a = (.ok r, b)) : Document s nodes a b r.anchor
  | balances {indices : List Int} {r : CheckpointProof}
      (ran : checkpointProof s indices nodes a = (.ok r, b)) : Document s nodes a b r.anchor
  | staleBalance {index : Int} {r : StaleBalanceProof}
      (ran : staleBalanceProof s index nodes a = (.ok r, b)) : Document s nodes a b r.anchor

variable {s : Settings} {nodes : Nodes} {node : ExecutionNode} {a b : Session} {anc : Anchor}

theorem Document.steps (document : Document s nodes a b anc) : Steps s nodes a b := by
  cases document with
  | credentials ran => exact walks_credentialProof _ _ _ _ ran
  | balances ran => exact walks_checkpointProof _ _ _ _ ran
  | staleBalance ran => exact walks_staleBalanceProof _ _ _ _ ran

theorem Document.reached (reached : Reached s nodes a) (document : Document s nodes a b anc) :
    Reached s nodes b := by
  cases document with
  | @credentials indices r ran =>
    obtain rfl : (credentialProof s indices nodes a).2 = b := congrArg Prod.snd ran
    exact reached.credentialProof indices
  | @balances indices r ran =>
    obtain rfl : (checkpointProof s indices nodes a).2 = b := congrArg Prod.snd ran
    exact reached.checkpointProof indices
  | @staleBalance index r ran =>
    obtain rfl : (staleBalanceProof s index nodes a).2 = b := congrArg Prod.snd ran
    exact reached.staleBalanceProof index

theorem Document.anchored (settled : Settled s nodes a) (document : Document s nodes a b anc) :
    ∃ header, Anchored s nodes a b header anc := by
  cases document with
  | credentials ran => exact (credentialProof_consistent settled ran).anchored
  | balances ran => exact (checkpointProof_consistent settled ran).anchored
  | staleBalance ran => exact (staleBalanceProof_consistent settled ran).anchored

/-- The second of a document is the one in which its slot starts on the network that the service is
pinned to. -/
theorem Document.timestamp (unnamed : Settings.nonEmpty? s.network? = none)
    (isNode : executionNode? s = some node) (reached : Reached s nodes a)
    (document : Document s nodes a b anc) :
    ∃ header slot before n, Anchored s nodes a b header anc ∧
      (header.get "slot").toInt = .ok slot ∧ anc.timestamp = n.genesisTime + 12 * slot ∧
      Settles node nodes b.log before n := by
  obtain ⟨header, anchored⟩ := document.anchored reached.settled
  obtain ⟨n, slot, found, -, told, second⟩ := anchored.timestamp
  have pinned := (reached.pinned unnamed isNode).steps unnamed isNode document.steps
  rcases pinned with ⟨-, missing, -⟩ | ⟨known, settles⟩
  · rw [missing] at found
    cases found
  · rw [known] at found
    cases found
    exact ⟨header, slot, _, n, anchored, told, second, settles⟩

/-! ### Outages -/

theorem kept_pinned (unnamed : Settings.nonEmpty? s.network? = none)
    (isNode : executionNode? s = some node) : Kept s nodes (Pinned node nodes) :=
  fun _ _ steps pinned => pinned.steps unnamed isNode steps

/-- A call to the contract always fails. -/
def Mute (nodes : Nodes) : Prop :=
  ∀ log address data, ∃ text, nodes.execution log (.contract address data) = .failed .web3 text

/-- An execution node whose contract cannot be called is passed over. -/
theorem gives_checkOracle_of_mute (isNode : executionNode? s = some node) (mute : Mute nodes)
    {second : Int} (callable : ExecutionNode.Callable second) (root : ByteArray) :
    Gives nodes (checkOracle s second root) fun _ => True := by
  intro a
  obtain ⟨text, replied⟩ : ∃ text,
      nodes.execution a.log (ExecutionNode.rootCall second) = .failed .web3 text := mute a.log _ _
  have asked := checkOracle_eq isNode callable root nodes a
  have none : ∀ other, ¬ExecutionNode.TellsRoot (.failed .web3 text) other := by
    rintro other ⟨_, ⟨⟩, -⟩
  rw [replied, verdict_of_rootless (.failed rfl) none] at asked
  exact ⟨(), _, asked, trivial⟩

/-- A service that is pinned goes on without its execution node, once this has told or failed to
tell the chain id. -/
theorem unhindered_of_mute (unnamed : Settings.nonEmpty? s.network? = none)
    (isNode : executionNode? s = some node)
    (tells : ∀ log, ∃ n, networkFrom (chainIdAfter node nodes log) = .ok n) (mute : Mute nodes)
    {header : Record} (fits : header.Fits .blockHeader) (blockRoot : ByteArray) :
    Unhindered s nodes (Pinned node nodes) header blockRoot := by
  have kept : Kept s nodes (Pinned node nodes) := kept_pinned unnamed isNode
  obtain ⟨t, slot, ge, lt⟩ := slotOf?_of_fits fits
  intro t' slot'
  obtain rfl : t = t' := Except.ok.inj (slot.symm.trans slot')
  have oracle : ∀ n ∈ Network.known, GivesUnder nodes (Pinned node nodes)
      (checkOracle s (slotStart t n.genesisTime) blockRoot) fun _ => True := by
    intro n known
    exact .of_gives kept (walks_checkOracle _ _)
      (gives_checkOracle_of_mute isNode mute (callable_slotStart known ge lt) blockRoot)
  intro a pinned
  have found : ∃ n ∈ Network.known, ∃ b, network s nodes a = (.ok n, b) := by
    rcases pinned with ⟨unknown, missing, -⟩ | ⟨known, settles⟩
    · obtain ⟨n, told⟩ := tells a.log
      exact ⟨n, mem_known_of_networkFrom told, _, told ▸ network_eq unnamed isNode unknown missing⟩
    · exact ⟨_, mem_known_of_networkFrom settles.told, _, network_of_known known⟩
  obtain ⟨n, known, b, ran⟩ := found
  exact ⟨n, b, ran, kept a b (walks_network a _ b ran) pinned, oracle n known⟩

/-- An event that is a question for the chain id. -/
def asksChainId : Event → Bool
  | .execution .chainId => true
  | _ => false

/-- An execution node that fails the first question for the chain id and answers all later ones.
It fails every other question. -/
def failsFirst (id : Int) (log : List Event) : Call → CallReply
  | .chainId =>
    if log.any asksChainId then .answered (.int id) else .failed .web3 "rpc down"
  | _ => .failed .web3 "rpc down"

/-- Nodes of which the execution node is such a one. -/
def withOutage (nodes : Nodes) (id : Int) : Nodes := { nodes with execution := failsFirst id }

theorem any_asksChainId_iff {log : List Event} :
    log.any asksChainId = true ↔ .execution .chainId ∈ log := by
  rw [List.any_eq_true]
  constructor
  · rintro ⟨e, mem, asks⟩
    unfold asksChainId at asks
    split at asks
    · exact mem
    · cases asks
  · exact fun mem => ⟨_, mem, rfl⟩

theorem chainIdAfter_failsFirst (id : Int) (log : List Event) :
    chainIdAfter node (withOutage nodes id) log =
      if log.any asksChainId then .ok id else .error (.chainIdFailed node.url "rpc down") := by
  rw [chainIdAfter]
  dsimp only [withOutage, failsFirst]
  split
  · rfl
  · rfl

theorem eq_of_chainIdAfter_failsFirst {c id : Int} {log : List Event}
    (told : chainIdAfter node (withOutage nodes c) log = .ok id) : id = c := by
  rw [chainIdAfter_failsFirst] at told
  split at told
  · exact (Except.ok.inj told).symm
  · cases told

/-- Whatever such a node replies is enough to settle the network. -/
theorem exists_networkFrom_failsFirst (id : Int) (log : List Event) :
    ∃ n, networkFrom (chainIdAfter node (withOutage nodes id) log) = .ok n := by
  rw [chainIdAfter_failsFirst]
  split
  · exact exists_networkFrom_ok id
  · exact ⟨Network.mainnet, rfl⟩

/-- A service with such a node is pinned to the main network, since the failure is what settles its
network. -/
theorem eq_mainnet_of_failsFirst {id : Int} {log before : List Event} {n : Network}
    (settles : Settles node (withOutage nodes id) log before n) : n = Network.mainnet := by
  have fresh : ¬before.any asksChainId = true := by
    intro asked
    obtain ⟨earlier, later, split⟩ := List.append_of_mem (any_asksChainId_iff.mp asked)
    have before : earlier ++ [.execution .chainId] <+: before :=
      ⟨later, by rw [split, List.append_assoc, List.singleton_append]⟩
    obtain ⟨f, failed⟩ := settles.first earlier before
    obtain ⟨m, told⟩ : ∃ m, networkFrom (chainIdAfter node (withOutage nodes id) earlier) = .ok m :=
      exists_networkFrom_failsFirst id earlier
    rw [told] at failed
    cases failed
  have told := settles.told
  rw [chainIdAfter_failsFirst, if_neg fresh] at told
  exact (Except.ok.inj told).symm

/-- Such a node keeps no balance from being proven. -/
theorem Honest.givesUnder_failsFirst {header : Record} {state : Snapshot}
    (honest : Honest s nodes header state) (patient : Patient nodes s.checkpointTimeout)
    (unnamed : Settings.nonEmpty? s.network? = none) (isNode : executionNode? s = some node)
    {indices : List Int} (some : indices ≠ []) (belong : ∀ index ∈ indices, Belongs state index)
    (id : Int) :
    GivesUnder (withOutage nodes id) (Pinned node (withOutage nodes id))
      (checkpointProof s indices) fun _ => True := by
  obtain ⟨blockRoot, body, c, block, given, read, built⟩ :=
    (honest.with_execution (failsFirst id)).tellsBlock
  have mute : Mute (withOutage nodes id) := fun _ _ _ => ⟨_, rfl⟩
  have free := unhindered_of_mute unnamed isNode (exists_networkFrom_failsFirst id) mute honest.fits
    blockRoot
  intro a pinned
  obtain ⟨r, b, ran, after, -⟩ := givesUnder_checkpointProof (kept_pinned unnamed isNode) free block
    given read built patient some belong a pinned
  exact ⟨r, b, ran, after, trivial⟩

/-- A service gives two documents of a single validator's state, although its execution node fails
when it is asked for the chain id. -/
theorem exists_outage : ∃ (nodes : Nodes) (r₁ : CheckpointProof) (a : Session)
    (r₂ : CheckpointProof) (b : Session),
    checkpointProof chainSettings [0] (withOutage nodes 17000) .start = (.ok r₁, a) ∧
    checkpointProof chainSettings [0] (withOutage nodes 17000) a = (.ok r₂, b) := by
  obtain ⟨state, c, read, -, hashed, fits, inState, inList⟩ := exists_lone
  have given : Settings.nonEmpty? chainSettings.beaconUrl? = some "http://node" := rfl
  obtain ⟨nodes, patient, honest⟩ := exists_honest given fits read hashed rfl
  have isNode : executionNode? chainSettings = some ⟨"http://chain"⟩ := rfl
  have belongs : Belongs state 0 := ⟨0, _, _, rfl, inState, inList⟩
  have gives := honest.givesUnder_failsFirst (patient _ (by decide)) rfl isNode
    (List.cons_ne_nil 0 []) (List.forall_mem_singleton.mpr belongs) 17000
  obtain ⟨r₁, a, ran₁, pinned, -⟩ := gives .start pinned_start
  obtain ⟨r₂, b, ran₂, -⟩ := gives a pinned
  exact ⟨nodes, r₁, a, r₂, b, ran₁, ran₂⟩

/-! ### The first answer -/

/-- Every document of a service without a named network has the second of its slot on the network
that the first question for the chain id settled: the network of the chain id if the execution node
answered this question, and the main network if it failed. The question is asked once for all
documents, however many requests fail before, between and after them. -/
theorem timestamps_follow_first_answer (unnamed : Settings.nonEmpty? s.network? = none)
    (isNode : executionNode? s = some node) {c : Int} {n : Network}
    (known : Network.ofChainId? c = .ok n)
    (constant : ∀ log id, chainIdAfter node nodes log = .ok id → id = c)
    (reached : Reached s nodes a) (document : Document s nodes a b anc) :
    ∃ header slot before m, Anchored s nodes a b header anc ∧
      (header.get "slot").toInt = .ok slot ∧ anc.timestamp = m.genesisTime + 12 * slot ∧
      Settles node nodes b.log before m ∧
      (chainIdAfter node nodes before = .ok c ∧ m = n ∨
        ∃ f, chainIdAfter node nodes before = .error f ∧
          (f.kind = .execution ∨ f.kind = .unsupportedNetwork) ∧ m = Network.mainnet) := by
  obtain ⟨header, slot, before, m, anchored, told, second, settles⟩ :=
    document.timestamp unnamed isNode reached
  refine ⟨header, slot, before, m, anchored, told, second, settles, ?_⟩
  have answer := orMainnet_eq_ok_iff.mp settles.told
  cases first : chainIdAfter node nodes before with
  | ok id =>
    obtain rfl := constant before id first
    rw [first, Except.bind, known] at answer
    simpa [eq_comm] using answer
  | error f =>
    rw [first, Except.bind] at answer
    simpa using answer

theorem timestamps_follow_first_answer_outage : ∃ s node nodes n a b anc header slot before m,
    Settings.nonEmpty? s.network? = none ∧ executionNode? s = some node ∧
    Network.ofChainId? 17000 = .ok n ∧
    (∀ log id, chainIdAfter node nodes log = .ok id → id = 17000) ∧ Reached s nodes a ∧
    Document s nodes a b anc ∧ Anchored s nodes a b header anc ∧
    (header.get "slot").toInt = .ok slot ∧ anc.timestamp = m.genesisTime + 12 * slot ∧
    Settles node nodes b.log before m ∧
    (chainIdAfter node nodes before = .ok 17000 ∧ m = n ∨
      ∃ f, chainIdAfter node nodes before = .error f ∧
        (f.kind = .execution ∨ f.kind = .unsupportedNetwork) ∧ m = Network.mainnet) := by
  obtain ⟨nodes, r₁, a, r₂, b, ran₁, ran₂⟩ := exists_outage
  have isNode : executionNode? chainSettings = some ⟨"http://chain"⟩ := rfl
  have known : Network.ofChainId? 17000 = .ok ⟨"holesky", 17000, 1695902400⟩ := rfl
  have reached := (Document.balances ran₁).reached .start
  have document := Document.balances ran₂
  obtain ⟨header, slot, before, m, follows⟩ := timestamps_follow_first_answer rfl isNode known
    (fun _ _ => eq_of_chainIdAfter_failsFirst) reached document
  exact ⟨chainSettings, _, _, _, a, b, _, header, slot, before, m, rfl, isNode, known,
    fun _ _ => eq_of_chainIdAfter_failsFirst, reached, document, follows⟩

/-- A document with a wrong second: the execution node tells the chain id of a network whenever it
is asked again, but the network is the main one since the node failed at the first document. -/
theorem timestamp_after_outage : ∃ s node nodes n r₁ a r₂ b header slot,
    Settings.nonEmpty? s.network? = none ∧ executionNode? s = some node ∧
    Network.ofChainId? 17000 = .ok n ∧
    (∀ log id, chainIdAfter node nodes log = .ok id → id = 17000) ∧
    (∀ log, .execution .chainId ∈ log → chainIdAfter node nodes log = .ok 17000) ∧
    checkpointProof s [0] nodes .start = (.ok r₁, a) ∧ .execution .chainId ∈ a.log ∧
    checkpointProof s [0] nodes a = (.ok r₂, b) ∧
    Anchored s nodes a b header r₂.anchor ∧ (header.get "slot").toInt = .ok slot ∧
    r₂.anchor.timestamp ≠ n.genesisTime + 12 * slot := by
  obtain ⟨nodes, r₁, a, r₂, b, ran₁, ran₂⟩ := exists_outage
  have isNode : executionNode? chainSettings = some ⟨"http://chain"⟩ := rfl
  have reached := (Document.balances ran₁).reached .start
  obtain ⟨_, _, _, _, -, -, -, first⟩ := (Document.balances ran₁).timestamp rfl isNode .start
  obtain ⟨header, slot, _, n, anchored, told, second, settles⟩ :=
    (Document.balances ran₂).timestamp rfl isNode reached
  obtain rfl := eq_mainnet_of_failsFirst settles
  refine ⟨chainSettings, _, _, ⟨"holesky", 17000, 1695902400⟩, r₁, a, r₂, b, header, slot, rfl,
    isNode, rfl, fun _ _ => eq_of_chainIdAfter_failsFirst, ?_, ran₁, ?_, ran₂, anchored, told, ?_⟩
  · intro log asked
    rw [chainIdAfter_failsFirst, if_pos (any_asksChainId_iff.mpr asked)]
  · exact first.asked.subset (List.mem_append_right _ List.mem_cons_self)
  · rw [second]
    dsimp only [Network.mainnet]
    omega

end BeaconBranch.Service
