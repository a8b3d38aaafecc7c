import BeaconBranch.Pod.Report
import BeaconBranch.Proofs.Remote.Exchange
import Mathlib.Logic.Relation

/-!
Sessions of a service. Whatever a request asks and however it ends, it changes its session by steps
of a few kinds: the log only grows, and what was learned for good is kept. So the network of a
session is the one that the settings name, or the one that the execution node told in an answer of
the log, or the main one where nothing was told. Main statements: every session that a service
reaches is reached by such steps, and is settled in this way.
-/

namespace BeaconBranch.Service

open Exchange

/-- The execution node of the settings was asked for the chain id, with this result. -/
def ToldChain (s : Settings) (nodes : Nodes) (log : List Event) (answer : Except Fault Int) :
    Prop :=
  ∃ node before, executionNode? s = some node ∧ before ++ [.execution .chainId] <+: log ∧
    ExecutionNode.wholeIn? (.chainIdFailed node.url) (nodes.execution before .chainId) = answer

/-- How the network is found: by its name in the settings, or else by the chain id that the
execution node told; it is the main one if there is no such node or its answer tells none. -/
inductive Resolved (s : Settings) (nodes : Nodes) (log : List Event) : Network → Prop
  | named {name : String} {n : Network} (given : Settings.nonEmpty? s.network? = some name)
      (known : Network.ofName? name = .ok n) : Resolved s nodes log n
  | unasked (unnamed : Settings.nonEmpty? s.network? = none) (alone : executionNode? s = none) :
      Resolved s nodes log Network.mainnet
  | told {answer : Except Fault Int} {n : Network} (unnamed : Settings.nonEmpty? s.network? = none)
      (asked : ToldChain s nodes log answer) (known : answer.bind Network.ofChainId? = .ok n) :
      Resolved s nodes log n
  | passedOver {answer : Except Fault Int} {f : Fault}
      (unnamed : Settings.nonEmpty? s.network? = none) (asked : ToldChain s nodes log answer)
      (failed : answer.bind Network.ofChainId? = .error f)
      (kind : f.kind = .execution ∨ f.kind = .unsupportedNetwork) :
      Resolved s nodes log Network.mainnet

/-- What a session has learned for good was told in its log. -/
structure Settled (s : Settings) (nodes : Nodes) (a : Session) : Prop where
  chainId : ∀ id, a.chainId? = some id → ToldChain s nodes a.log (.ok id)
  network : ∀ n, a.network? = some n → Resolved s nodes a.log n

/-- At the start nothing is learned. -/
theorem settled_start (s : Settings) (nodes : Nodes) : Settled s nodes .start := by
  constructor <;> rintro _ ⟨⟩

/-- One session comes after another one: the log has grown, and a network that was found is kept. -/
structure Advance (s : Settings) (nodes : Nodes) (a b : Session) : Prop where
  log : a.log <+: b.log
  network : ∀ n, a.network? = some n → b.network? = some n
  settled : Settled s nodes a → Settled s nodes b

variable {s : Settings} {nodes : Nodes} {a b c : Session}

theorem ToldChain.mono {log log' : List Event} {answer : Except Fault Int}
    (told : ToldChain s nodes log answer) (grown : log <+: log') :
    ToldChain s nodes log' answer := by
  obtain ⟨node, before, isNode, asked, same⟩ := told
  exact ⟨node, before, isNode, asked.trans grown, same⟩

theorem Resolved.mono {log log' : List Event} {n : Network} (resolved : Resolved s nodes log n)
    (grown : log <+: log') : Resolved s nodes log' n := by
  cases resolved with
  | named given known => exact .named given known
  | unasked unnamed alone => exact .unasked unnamed alone
  | told unnamed asked known => exact .told unnamed (asked.mono grown) known
  | passedOver unnamed asked failed kind =>
    exact .passedOver unnamed (asked.mono grown) failed kind

namespace Advance

theorem refl (a : Session) : Advance s nodes a a := ⟨List.prefix_rfl, fun _ => id, id⟩

theorem trans (first : Advance s nodes a b) (second : Advance s nodes b c) :
    Advance s nodes a c :=
  ⟨first.log.trans second.log, fun n found => second.network n (first.network n found),
    fun settled => second.settled (first.settled settled)⟩

/-- A session that has learned nothing new comes after one with a shorter log. -/
theorem of_log (log : a.log <+: b.log) (chainId : b.chainId? = a.chainId?)
    (network : b.network? = a.network?) : Advance s nodes a b := by
  refine ⟨log, fun n found => network.trans found,
    fun settled => ⟨fun id told => ?_, fun n found => ?_⟩⟩
  · exact (settled.chainId id (chainId.symm.trans told)).mono log
  · exact (settled.network n (network.symm.trans found)).mono log

theorem note (e : Event) (a : Session) : Advance s nodes a (note e a) :=
  of_log (List.prefix_append _ _) rfl rfl

end Advance

/-- A computation only leads to later sessions, whether it fails or not. -/
def Advances {α : Type} (s : Settings) (nodes : Nodes) (x : Exchange α) : Prop :=
  ∀ a r b, x nodes a = (r, b) → Advance s nodes a b

/-! ### Finding the network -/

/-- A session after another one that has found no other network since, and what is known then if
the earlier one is settled. -/
structure Learned (s : Settings) (nodes : Nodes) (a b : Session) (fact : Prop) : Prop where
  later : Advance s nodes a b
  network : b.network? = a.network?
  known : Settled s nodes a → fact

theorem Learned.imp {p q : Prop} (learned : Learned s nodes a b p) (along : p → q) :
    Learned s nodes a b q :=
  ⟨learned.later, learned.network, fun settled => along (learned.known settled)⟩

/-- Nothing is asked where the answer is known already. -/
theorem Learned.unasked {p : Prop} (known : Settled s nodes a → p) : Learned s nodes a a p :=
  ⟨.refl a, rfl, known⟩

/-- What the execution node tells of the chain id after a history of questions. -/
def chainIdAfter (node : ExecutionNode) (nodes : Nodes) (log : List Event) : Except Fault Int :=
  ExecutionNode.wholeIn? (.chainIdFailed node.url) (nodes.execution log .chainId)

/-- The session after the question for the chain id, with what was told. -/
def afterChainId (node : ExecutionNode) (nodes : Nodes) (a : Session) : Session :=
  { note (.execution .chainId) a with chainId? := (chainIdAfter node nodes a.log).toOption }

theorem chainId_eq {node : ExecutionNode} (unknown : a.chainId? = none) :
    node.chainId nodes a = (chainIdAfter node nodes a.log, afterChainId node nodes a) := by
  simp only [ExecutionNode.chainId, bind_apply, session, unknown, askExecution, liftM_apply,
    afterChainId]
  rw [← chainIdAfter]
  rcases chainIdAfter node nodes a.log with f | id
  · simp [note, unknown, Except.toOption]
  · rfl

theorem chainId_eq_of_known {node : ExecutionNode} {id : Int} (known : a.chainId? = some id) :
    node.chainId nodes a = (.ok id, a) := by
  simp only [ExecutionNode.chainId, bind_apply, session, known]
  rfl

/-- The chain id is asked for once, and what a session knows was told. -/
theorem chainId_spec {node : ExecutionNode} (isNode : executionNode? s = some node)
    {r : Except Fault Int} (ran : node.chainId nodes a = (r, b)) :
    Learned s nodes a b (ToldChain s nodes b.log r) := by
  cases known : a.chainId? with
  | some id =>
    rw [chainId_eq_of_known known] at ran
    cases ran
    exact .unasked fun settled => settled.chainId id known
  | none =>
    rw [chainId_eq known] at ran
    cases ran
    have noted : Advance s nodes a (note (.execution .chainId) a) := .note _ a
    have told : ToldChain s nodes (note (.execution .chainId) a).log
        (chainIdAfter node nodes a.log) := ⟨node, a.log, isNode, List.prefix_rfl, rfl⟩
    have keeps : ∀ id, (chainIdAfter node nodes a.log).toOption = some id →
        ToldChain s nodes (note (.execution .chainId) a).log (.ok id) := by
      intro id kept
      generalize chainIdAfter node nodes a.log = answer at told kept
      rcases answer with f | id
      · cases kept
      · cases kept
        exact told
    exact ⟨⟨noted.log, noted.network, fun settled => ⟨keeps, (noted.settled settled).network⟩⟩, rfl,
      fun _ => told⟩

/-- The network of the chain is the one of the chain id that was told. -/
theorem nodeNetwork_spec {node : ExecutionNode} (isNode : executionNode? s = some node)
    {r : Except Fault Network} (ran : node.network nodes a = (r, b)) :
    Learned s nodes a b (∃ answer, ToldChain s nodes b.log answer ∧
      answer.bind Network.ofChainId? = r) := by
  rw [ExecutionNode.network] at ran
  rcases bind_eq_iff.mp ran with ⟨id, u, asked, ran⟩ | ⟨e, asked, rfl⟩
  · obtain ⟨rfl, rfl⟩ := liftM_eq_iff.mp ran
    exact (chainId_spec isNode asked).imp fun told => ⟨_, told, rfl⟩
  · exact (chainId_spec isNode asked).imp fun told => ⟨_, told, rfl⟩

/-- A network that the execution node could not tell is taken to be the main one. -/
def orMainnet : Except Fault Network → Except Fault Network
  | .ok n => .ok n
  | .error f =>
    if f.kind = .execution ∨ f.kind = .unsupportedNetwork then .ok Network.mainnet else .error f

theorem orMainnet_eq_ok_iff {r : Except Fault Network} {n : Network} :
    orMainnet r = .ok n ↔ r = .ok n ∨ ∃ f, r = .error f ∧
      (f.kind = .execution ∨ f.kind = .unsupportedNetwork) ∧ n = Network.mainnet := by
  rcases r with f | m
  · by_cases kind : f.kind = .execution ∨ f.kind = .unsupportedNetwork
    · simp [orMainnet, kind, eq_comm (a := n)]
    · simp [orMainnet, kind]
  · simp [orMainnet]

/-- Where the settings name no network, the execution node is asked for it. -/
theorem findNetwork_eq_orMainnet (unnamed : Settings.nonEmpty? s.network? = none)
    {node : ExecutionNode} (isNode : executionNode? s = some node) {r : Except Fault Network}
    (asked : node.network nodes a = (r, b)) : findNetwork s nodes a = (orMainnet r, b) := by
  simp only [findNetwork, unnamed, isNode, Option.isSome_none, Bool.false_eq_true, if_false,
    bind_apply, attempt, asked]
  rcases r with f | n
  · dsimp only [orMainnet]
    split <;> rfl
  · rfl

theorem findNetwork_spec_asked (unnamed : Settings.nonEmpty? s.network? = none)
    {node : ExecutionNode} (isNode : executionNode? s = some node) {r : Except Fault Network}
    (ran : findNetwork s nodes a = (r, b)) :
    Learned s nodes a b (∀ n, r = .ok n → Resolved s nodes b.log n) := by
  rcases asked : node.network nodes a with ⟨found, u⟩
  rw [findNetwork_eq_orMainnet unnamed isNode asked] at ran
  cases ran
  refine (nodeNetwork_spec isNode asked).imp ?_
  rintro ⟨answer, told, rfl⟩ n ok
  rcases orMainnet_eq_ok_iff.mp ok with known | ⟨f, failed, kind, rfl⟩
  · exact .told unnamed told known
  · exact .passedOver unnamed told failed kind

/-- A network that is found is found as it has to be. -/
theorem findNetwork_spec {r : Except Fault Network} (ran : findNetwork s nodes a = (r, b)) :
    Learned s nodes a b (∀ n, r = .ok n → Resolved s nodes b.log n) := by
  cases given : Settings.nonEmpty? s.network? with
  | some name =>
    have step : findNetwork s = liftM s.networkOrMain? := by
      rw [findNetwork, given]
      rfl
    rw [step] at ran
    obtain ⟨rfl, rfl⟩ := liftM_eq_iff.mp ran
    refine .unasked fun _ n found => .named given ?_
    rw [Settings.networkOrMain?, given] at found
    exact found
  | none =>
    cases isNode : executionNode? s with
    | none =>
      have step : findNetwork s = Pure.pure Network.mainnet := by
        rw [findNetwork, given, isNode]
        rfl
      rw [step] at ran
      cases ran
      refine .unasked ?_
      rintro - _ ⟨⟩
      exact .unasked given isNode
    | some node => exact findNetwork_spec_asked given isNode ran

/-- A network that was found before is used again. -/
theorem network_of_known {n : Network} (known : a.network? = some n) :
    network s nodes a = (.ok n, a) := by
  simp only [network, bind_apply, session, known]
  rfl

/-- A network that is found is kept. -/
theorem network_of_found (missing : a.network? = none) {n : Network}
    (found : findNetwork s nodes a = (.ok n, b)) :
    network s nodes a = (.ok n, { b with network? := some n }) := by
  simp only [network, bind_apply, session, missing, found]
  rfl

theorem network_of_failed (missing : a.network? = none) {f : Fault}
    (failed : findNetwork s nodes a = (.error f, b)) : network s nodes a = (.error f, b) := by
  simp only [network, bind_apply, session, missing, failed]

theorem advances_network : Advances s nodes (network s) := by
  intro a r b ran
  cases known : a.network? with
  | some n =>
    rw [network_of_known known] at ran
    cases ran
    exact .refl a
  | none =>
    rcases found : findNetwork s nodes a with ⟨f | n, u⟩
    · rw [network_of_failed known found] at ran
      cases ran
      exact (findNetwork_spec found).later
    · rw [network_of_found known found] at ran
      cases ran
      obtain ⟨later, -, resolved⟩ := findNetwork_spec found
      refine ⟨later.log, fun n isKnown => (by cases known.symm.trans isKnown), fun settled =>
        ⟨(later.settled settled).chainId, ?_⟩⟩
      rintro _ ⟨⟩
      exact resolved settled n rfl

/-- The network that a service uses is the one that its session keeps from then on. -/
theorem network?_of_network {n : Network} (ran : network s nodes a = (.ok n, b)) :
    b.network? = some n := by
  cases known : a.network? with
  | some m =>
    rw [network_of_known known] at ran
    cases ran
    exact known
  | none =>
    rcases found : findNetwork s nodes a with ⟨f | m, u⟩
    · rw [network_of_failed known found] at ran
      cases ran
    · rw [network_of_found known found] at ran
      cases ran
      rfl

/-! ### Steps -/

/-- What a request does to its session, step by step: it asks a beacon node or a prover, calls the
execution node for anything but the chain id, reads the clock, or uses the network. -/
inductive Step (s : Settings) (nodes : Nodes) (a : Session) : Session → Prop
  | beacon (q : Query) : Step s nodes a (note (.beacon q) a)
  | prover (q : Query) : Step s nodes a (note (.prover q) a)
  | execution {call : Call} (other : call ≠ .chainId) : Step s nodes a (note (.execution call) a)
  | clock : Step s nodes a { a with clockReadings := a.clockReadings + 1 }
  | network : Step s nodes a (network s nodes a).2

/-- Any number of steps. -/
def Steps (s : Settings) (nodes : Nodes) : Session → Session → Prop :=
  Relation.ReflTransGen (Step s nodes)

theorem Step.advance (step : Step s nodes a b) : Advance s nodes a b := by
  cases step with
  | beacon q => exact .note _ a
  | prover q => exact .note _ a
  | execution other => exact .note _ a
  | clock => exact .of_log List.prefix_rfl rfl rfl
  | network => exact advances_network _ _ _ rfl

theorem Steps.advance (steps : Steps s nodes a b) : Advance s nodes a b := by
  induction steps with
  | refl => exact .refl a
  | tail _ step ih => exact ih.trans step.advance

/-- A computation walks its session step by step, whether it fails or not. -/
def Walks {α : Type} (s : Settings) (nodes : Nodes) (x : Exchange α) : Prop :=
  ∀ a r b, x nodes a = (r, b) → Steps s nodes a b

namespace Walks

variable {α β : Type} {x : Exchange α}

theorem advances (walks : Walks s nodes x) : Advances s nodes x :=
  fun a r b ran => (walks a r b ran).advance

theorem pure (v : α) : Walks s nodes (Pure.pure v) := by
  rintro a _ _ ⟨⟩
  exact .refl

theorem lift (r : Except Fault α) : Walks s nodes (liftM r : Exchange α) := by
  rintro a _ _ ⟨⟩
  exact .refl

theorem fail (f : Fault) : Walks s nodes (Exchange.fail f : Exchange α) := by
  rintro a _ _ ⟨⟩
  exact .refl

theorem bind {f : α → Exchange β} (first : Walks s nodes x)
    (next : ∀ v, Walks s nodes (f v)) : Walks s nodes (x >>= f) := by
  intro a r b ran
  rcases bind_eq_iff.mp ran with ⟨v, u, ranFirst, ranNext⟩ | ⟨e, ranFirst, -⟩
  · exact (first _ _ _ ranFirst).trans (next v _ _ _ ranNext)
  · exact first _ _ _ ranFirst

/-- What follows a result that needs no node may rely on where it comes from. -/
theorem bind_lift {r : Except Fault α} {f : α → Exchange β}
    (next : ∀ v, r = .ok v → Walks s nodes (f v)) :
    Walks s nodes ((liftM r : Exchange α) >>= f) := by
  intro a r' b ran
  rcases bind_eq_iff.mp ran with ⟨v, u, lifted, ranNext⟩ | ⟨e, lifted, -⟩
  · obtain ⟨made, rfl⟩ := liftM_eq_iff.mp lifted
    exact next v made _ _ _ ranNext
  · exact lift r _ _ _ lifted

theorem attempt (along : Walks s nodes x) : Walks s nodes (Exchange.attempt x) := by
  intro a r b ran
  obtain ⟨r', ran, -⟩ := attempt_eq_iff.mp ran
  exact along _ _ _ ran

/-- A computation that fails under a condition, or else goes on. -/
theorem guard {p : Prop} [Decidable p] (f : Fault) {next : Unit → Exchange α}
    (along : ∀ u, Walks s nodes (next u)) :
    Walks s nodes (if p then Exchange.fail f >>= next else next ()) := by
  by_cases met : p
  · rw [if_pos met]
    exact (fail f).bind along
  · rw [if_neg met]
    exact along ()

theorem mapM {f : β → Exchange α} (each : ∀ v, Walks s nodes (f v)) (xs : List β) :
    Walks s nodes (xs.mapM f) := by
  induction xs with
  | nil => exact pure []
  | cons x xs ih =>
    rw [List.mapM_cons]
    exact (each x).bind fun _ => ih.bind fun _ => pure _

theorem askBeacon (q : Query) : Walks s nodes (Exchange.askBeacon q) := by
  rintro a _ _ ⟨⟩
  exact .single (.beacon q)

theorem askProver (q : Query) : Walks s nodes (Exchange.askProver q) := by
  rintro a _ _ ⟨⟩
  exact .single (.prover q)

theorem askExecution {call : Call} (other : call ≠ .chainId) :
    Walks s nodes (Exchange.askExecution call) := by
  rintro a _ _ ⟨⟩
  exact .single (.execution other)

theorem readClock : Walks s nodes Exchange.readClock := by
  rintro a _ _ ⟨⟩
  exact .single .clock

end Walks

theorem walks_network : Walks s nodes (network s) := by
  rintro a r b ran
  have last : (network s nodes a).2 = b := congrArg Prod.snd ran
  exact last ▸ .single .network

/-! ### Asking nodes -/

theorem walks_beaconNode : Walks s nodes (beaconNode s) :=
  (Walks.lift _).bind fun _ => .lift _

theorem walks_request (n : BeaconNode) (path : String) (parameter : Option (String × String))
    (accept : Option String) (timeout : Option Number) :
    Walks s nodes (n.request path parameter accept timeout) := by
  refine (Walks.askBeacon _).bind fun reply => ?_
  cases reply with
  | failed kind text => exact .fail _
  | answered answer =>
    dsimp only
    split
    · exact .fail _
    · exact .pure _

theorem walks_fetch (n : BeaconNode) (path : String) (parameter : Option (String × String))
    (timeout : Option Number) : Walks s nodes (n.fetch path parameter timeout) :=
  (walks_request n path parameter none timeout).bind fun _ => .lift _

theorem walks_stateBytes (n : BeaconNode) (state : String) (timeout : Option Number) :
    Walks s nodes (n.stateBytes state timeout) :=
  (walks_request n _ none _ timeout).bind fun _ => .pure _

theorem walks_blockHeader (n : BeaconNode) (block : String) (timeout : Option Number) :
    Walks s nodes (n.blockHeader block timeout) :=
  (walks_fetch n _ none timeout).bind fun _ => .lift _

theorem walks_blockRoot (n : BeaconNode) (block : String) (timeout : Option Number) :
    Walks s nodes (n.blockRoot block timeout) :=
  (walks_fetch n _ none timeout).bind fun _ => .lift _

theorem walks_start (seconds : Number) : Walks s nodes (Deadline.start seconds) :=
  Walks.readClock.bind fun _ => .pure _

theorem walks_remaining (d : Deadline) : Walks s nodes d.remaining := by
  refine Walks.readClock.bind fun now => ?_
  dsimp only
  split
  · exact .pure _
  · exact .fail _

/-- The proofs of a prover are fetched under the time budget of the request. -/
theorem walks_fetchValidatorProof (prover : ProverNode) (d : Deadline) (state index : String)
    (i : Int) (v : Record) : Walks s nodes
      (fetchValidatorProof (some d.remaining) (prover.validatorProof state index) i v) := by
  refine (walks_remaining d).bind fun left => Walks.bind ?_ fun _ =>
    (walks_remaining d).bind fun _ => .lift _
  refine (Walks.askProver _).bind fun reply => ?_
  cases reply with
  | failed kind text => exact .fail _
  | answered answer => exact .lift _

/-! ### Requests -/

/-- A call to the contract does not ask for the chain id. -/
theorem ne_chainId_of_rootCall? {timestamp : Int} {call : Call}
    (made : ExecutionNode.rootCall? timestamp = .ok call) : call ≠ .chainId := by
  rw [ExecutionNode.rootCall?] at made
  split at made
  · cases made
  · cases made
    exact Call.noConfusion

theorem walks_beaconRoot (timestamp : Int) :
    Walks s nodes (ExecutionNode.beaconRoot timestamp) :=
  .bind_lift fun _ made => (Walks.askExecution (ne_chainId_of_rootCall? made)).bind fun _ =>
    (Walks.lift _).bind fun _ => .lift _

theorem walks_checkOracle (timestamp : Int) (root : ByteArray) :
    Walks s nodes (checkOracle s timestamp root) := by
  rw [checkOracle]
  split
  · exact .pure ()
  · refine Walks.bind ?_ fun answer => ?_
    · exact ((walks_beaconRoot timestamp).bind fun _ => .pure _).attempt
    · cases answer with
      | ok confirmed =>
        cases confirmed
        · exact .fail _
        · exact .pure ()
      | error f =>
        dsimp only
        split
        · exact .pure ()
        · exact .fail f

theorem walks_anchor (d : Deadline) : Walks s nodes (anchor s d) := by
  refine walks_beaconNode.bind fun node => ?_
  refine (walks_remaining d).bind fun left => ?_
  refine (walks_blockHeader node _ _).bind fun header => ?_
  refine (walks_remaining d).bind fun left => ?_
  refine (walks_blockRoot node _ _).bind fun blockRoot => ?_
  refine (Walks.lift _).bind fun root => .guard _ fun _ => ?_
  refine walks_network.bind fun n => (Walks.lift _).bind fun slot => ?_
  refine (walks_checkOracle _ _).bind fun _ => (Walks.lift _).bind fun proof => ?_
  exact .guard _ fun _ => .pure _

theorem walks_composer (stateRoot : ByteArray) (d : Deadline) :
    Walks s nodes (composer s stateRoot d) := by
  refine walks_beaconNode.bind fun node => (walks_remaining d).bind fun left => ?_
  refine (walks_stateBytes node _ _).bind fun data => (Walks.lift _).bind fun state => ?_
  exact (Walks.lift _).bind fun c => .guard _ fun _ => .pure c

theorem walks_descriptions (indices : List Int) (d : Deadline) :
    Walks s nodes (descriptions s indices d) := by
  refine walks_beaconNode.bind fun node => (walks_remaining d).bind fun left => ?_
  refine (walks_fetch node _ _ _).bind fun reply => (Walks.lift _).bind fun found => ?_
  exact .guard _ fun _ => .pure found

theorem walks_validatorProofs (stateRoot : ByteArray) (d : Deadline)
    (validators : List (Int × Record)) :
    Walks s nodes (validatorProofs s stateRoot d validators) := by
  rw [validatorProofs]
  split
  · refine (Walks.lift _).bind fun prover => .mapM (fun v => ?_) validators
    exact walks_fetchValidatorProof prover d finalized (toString v.1) v.1 v.2
  · exact (walks_composer stateRoot d).bind fun c => .lift _

theorem walks_credentialProof (indices : List Int) :
    Walks s nodes (credentialProof s indices) := by
  refine (Walks.lift _).bind fun _ => (walks_start _).bind fun d => ?_
  refine (walks_anchor d).bind fun r => ?_
  refine (walks_descriptions indices d).bind fun found => ?_
  refine (Walks.mapM (fun _ => .lift _) indices).bind fun validators => ?_
  refine (walks_validatorProofs _ d _).bind fun proofs => ?_
  exact (Walks.lift _).bind fun _ => .pure _

theorem walks_checkpointProof (indices : List Int) :
    Walks s nodes (checkpointProof s indices) := by
  refine (Walks.lift _).bind fun _ => (walks_start _).bind fun d => ?_
  refine (walks_anchor d).bind fun r => ?_
  refine (walks_composer _ d).bind fun c => (Walks.lift _).bind fun container => ?_
  refine .guard _ fun _ => (Walks.lift _).bind fun balances => ?_
  exact (Walks.lift _).bind fun _ => .pure _

theorem walks_staleBalanceProof (index : Int) :
    Walks s nodes (staleBalanceProof s index) := by
  refine (Walks.lift _).bind fun _ => (walks_start _).bind fun d => ?_
  refine (walks_anchor d).bind fun r => ?_
  refine walks_beaconNode.bind fun node => (walks_remaining d).bind fun left => ?_
  refine (walks_fetch node _ _ _).bind fun description => ?_
  refine (Walks.lift _).bind fun validator => ?_
  refine (walks_validatorProofs _ d _).bind fun proofs => ?_
  refine (Walks.lift _).bind fun _ => (Walks.lift _).bind fun _ => ?_
  refine (Walks.lift _).bind fun balance => ?_
  cases proofs with
  | nil => exact .fail _
  | cons proof rest => exact .pure _

theorem walks_report (address : String) (indices : List Int) :
    Walks s nodes (Pod.report s address indices) := by
  refine (Walks.lift _).bind fun _ => (walks_start _).bind fun d => ?_
  refine walks_beaconNode.bind fun node => (walks_remaining d).bind fun left => ?_
  refine (walks_fetch node _ _ _).bind fun reply => ?_
  exact (Walks.lift _).bind fun members => .pure _

/-! ### Runs of requests -/

/-- A session that a service reaches from the start by its requests, however each of them ends. -/
inductive Reached (s : Settings) (nodes : Nodes) : Session → Prop
  | start : Reached s nodes .start
  | network {a : Session} (before : Reached s nodes a) : Reached s nodes (network s nodes a).2
  | credentialProof {a : Session} (before : Reached s nodes a) (indices : List Int) :
      Reached s nodes (credentialProof s indices nodes a).2
  | checkpointProof {a : Session} (before : Reached s nodes a) (indices : List Int) :
      Reached s nodes (checkpointProof s indices nodes a).2
  | staleBalanceProof {a : Session} (before : Reached s nodes a) (index : Int) :
      Reached s nodes (staleBalanceProof s index nodes a).2
  | report {a : Session} (before : Reached s nodes a) (address : String) (indices : List Int) :
      Reached s nodes (Pod.report s address indices nodes a).2

theorem Reached.steps (reached : Reached s nodes a) : Steps s nodes .start a := by
  induction reached with
  | start => exact .refl
  | network _ ih => exact ih.trans (walks_network _ _ _ rfl)
  | credentialProof _ indices ih => exact ih.trans (walks_credentialProof indices _ _ _ rfl)
  | checkpointProof _ indices ih => exact ih.trans (walks_checkpointProof indices _ _ _ rfl)
  | staleBalanceProof _ index ih => exact ih.trans (walks_staleBalanceProof index _ _ _ rfl)
  | report _ address indices ih => exact ih.trans (walks_report address indices _ _ _ rfl)

/-- Every session that a service reaches is settled. -/
theorem Reached.settled (reached : Reached s nodes a) : Settled s nodes a :=
  reached.steps.advance.settled (settled_start s nodes)

end BeaconBranch.Service
