import BeaconBranch.Proofs.Service.Session

/-!
The network of a service that asks its execution node for it. A question for the chain id settles
the network, whether it was answered or failed as the node's failures do; only a fault of another
kind ends the request and leaves the question to the next one. Main statement: every session that
such a service reaches is pinned to the first question that settled the network, and asks for the
chain id no more.
-/

namespace BeaconBranch.Service

open Exchange

/-- The network that a service takes from what it was told: the one with the chain id, or the main
one if the node failed or no network has the chain id. -/
def networkFrom (told : Except Fault Int) : Except Fault Network :=
  orMainnet (told.bind Network.ofChainId?)

/-- No question for the chain id in a log has settled the network: each ended its request. -/
def Unsettled (node : ExecutionNode) (nodes : Nodes) (log : List Event) : Prop :=
  ∀ before, before ++ [.execution .chainId] <+: log →
    ∃ f, networkFrom (chainIdAfter node nodes before) = .error f

/-- The question for the chain id, after a history, that settles the network: the first one that
tells a network, and the last one at all. -/
structure Settles (node : ExecutionNode) (nodes : Nodes) (log before : List Event) (n : Network) :
    Prop where
  asked : before ++ [.execution .chainId] <+: log
  told : networkFrom (chainIdAfter node nodes before) = .ok n
  first : Unsettled node nodes before
  last : ∀ other, other ++ [.execution .chainId] <+: log → other <+: before

/-- A session knows the network from the question that settles it, and before this question knows
nothing of it. -/
inductive Pinned (node : ExecutionNode) (nodes : Nodes) (a : Session) : Prop
  | unknown (chainId : a.chainId? = none) (network : a.network? = none)
      (unsettled : Unsettled node nodes a.log)
  | settled {before : List Event} {n : Network} (network : a.network? = some n)
      (settles : Settles node nodes a.log before n)

variable {s : Settings} {nodes : Nodes} {node : ExecutionNode} {a b : Session}

/-! ### Asking for the network -/

theorem mem_known_of_networkFrom {told : Except Fault Int} {n : Network}
    (found : networkFrom told = .ok n) : n ∈ Network.known := by
  rcases orMainnet_eq_ok_iff.mp found with known | ⟨f, -, -, rfl⟩
  · obtain ⟨id, -, known⟩ := Outcome.bind_eq_ok_iff.mp known
    rw [Network.ofChainId?] at known
    split at known
    · cases known
      exact List.mem_of_find?_eq_some ‹_›
    · cases known
  · exact List.mem_cons_self

/-- A chain id that was told settles the network, whether one has it or not. -/
theorem exists_networkFrom_ok (id : Int) : ∃ n, networkFrom (.ok id) = .ok n := by
  cases known : Network.ofChainId? id with
  | ok n => exact ⟨n, orMainnet_eq_ok_iff.mpr (.inl known)⟩
  | error f =>
    refine ⟨Network.mainnet, orMainnet_eq_ok_iff.mpr (.inr ⟨f, known, .inr ?_, rfl⟩)⟩
    rw [Network.ofChainId?] at known
    split at known
    · cases known
    · cases known
      rfl

theorem findNetwork_eq (unnamed : Settings.nonEmpty? s.network? = none)
    (isNode : executionNode? s = some node) (unknown : a.chainId? = none) :
    findNetwork s nodes a =
      (networkFrom (chainIdAfter node nodes a.log), afterChainId node nodes a) := by
  refine findNetwork_eq_orMainnet unnamed isNode ?_
  rw [ExecutionNode.network, bind_apply, chainId_eq unknown]
  rcases chainIdAfter node nodes a.log with f | id
  · rfl
  · rfl

/-- A service that has not found its network asks for it, and keeps what it finds. -/
theorem network_eq (unnamed : Settings.nonEmpty? s.network? = none)
    (isNode : executionNode? s = some node) (unknown : a.chainId? = none)
    (missing : a.network? = none) :
    network s nodes a = (networkFrom (chainIdAfter node nodes a.log),
      { afterChainId node nodes a with
        network? := (networkFrom (chainIdAfter node nodes a.log)).toOption }) := by
  have asked : findNetwork s nodes a =
      (networkFrom (chainIdAfter node nodes a.log), afterChainId node nodes a) :=
    findNetwork_eq unnamed isNode unknown
  generalize networkFrom (chainIdAfter node nodes a.log) = told at asked ⊢
  rcases told with f | n
  · rw [network_of_failed missing asked]
    have kept : (afterChainId node nodes a).network? = none := missing
    simp [Except.toOption, ← kept]
  · exact network_of_found missing asked

/-! ### Steps -/

theorem asked_of_note {log before : List Event} {e : Event} (other : e ≠ .execution .chainId)
    (asked : before ++ [.execution .chainId] <+: log ++ [e]) :
    before ++ [.execution .chainId] <+: log := by
  rcases List.prefix_concat_iff.mp asked with last | earlier
  · exact absurd (List.append_inj_right' last rfl) (by simpa using Ne.symm other)
  · exact earlier

/-- A question for anything else changes nothing. -/
theorem Pinned.note {e : Event} (pinned : Pinned node nodes a) (other : e ≠ .execution .chainId) :
    Pinned node nodes (note e a) := by
  rcases pinned with ⟨chainId, network, unsettled⟩ | ⟨network, settles⟩
  · exact .unknown chainId network fun before asked => unsettled before (asked_of_note other asked)
  · exact .settled network ⟨settles.asked.trans (List.prefix_append _ _), settles.told,
      settles.first, fun before asked => settles.last before (asked_of_note other asked)⟩

/-- The first question that tells a network settles it. -/
theorem settles_of_unsettled {log : List Event} {n : Network} (unsettled : Unsettled node nodes log)
    (told : networkFrom (chainIdAfter node nodes log) = .ok n) :
    Settles node nodes (log ++ [.execution .chainId]) log n := by
  refine ⟨List.prefix_rfl, told, unsettled, fun before asked => ?_⟩
  rcases List.prefix_concat_iff.mp asked with last | earlier
  · exact (List.append_inj_left' last rfl) ▸ List.prefix_rfl
  · exact (List.prefix_append _ _).trans earlier

/-- A question that tells none leaves the network unsettled. -/
theorem Unsettled.concat {log : List Event} {f : Fault} (unsettled : Unsettled node nodes log)
    (failed : networkFrom (chainIdAfter node nodes log) = .error f) :
    Unsettled node nodes (log ++ [.execution .chainId]) := by
  intro before asked
  rcases List.prefix_concat_iff.mp asked with last | earlier
  · exact (List.append_inj_left' last rfl) ▸ ⟨f, failed⟩
  · exact unsettled before earlier

/-- A step keeps a session pinned: only one that uses the network can ask for the chain id, and it
does so only where nothing has settled the network before. -/
theorem Pinned.step (unnamed : Settings.nonEmpty? s.network? = none)
    (isNode : executionNode? s = some node) (pinned : Pinned node nodes a)
    (step : Step s nodes a b) : Pinned node nodes b := by
  cases step with
  | beacon q => exact pinned.note (by simp)
  | prover q => exact pinned.note (by simp)
  | execution other => exact pinned.note (by simpa using other)
  | clock =>
    rcases pinned with ⟨chainId, network, unsettled⟩ | ⟨network, settles⟩
    · exact .unknown chainId network unsettled
    · exact .settled network settles
  | network =>
    rcases pinned with ⟨unknown, missing, unsettled⟩ | ⟨known, settles⟩
    · rw [network_eq unnamed isNode unknown missing]
      cases told : networkFrom (chainIdAfter node nodes a.log) with
      | ok n => exact .settled rfl (settles_of_unsettled unsettled told)
      | error f =>
        refine .unknown ?_ rfl (unsettled.concat told)
        -- A chain id that was told would have settled the network.
        cases answer : chainIdAfter node nodes a.log with
        | ok id =>
          obtain ⟨n, found⟩ := exists_networkFrom_ok id
          rw [answer, found] at told
          cases told
        | error e =>
          show (chainIdAfter node nodes a.log).toOption = none
          rw [answer]
          rfl
    · rw [network_of_known known]
      exact .settled known settles

theorem Pinned.steps (unnamed : Settings.nonEmpty? s.network? = none)
    (isNode : executionNode? s = some node) (pinned : Pinned node nodes a)
    (steps : Steps s nodes a b) : Pinned node nodes b := by
  induction steps with
  | refl => exact pinned
  | tail _ step ih => exact ih.step unnamed isNode step

theorem pinned_start : Pinned node nodes .start := by
  refine .unknown rfl rfl fun before asked => ?_
  simp [Session.start] at asked

/-- Every session that a service without a named network reaches is pinned. -/
theorem Reached.pinned (unnamed : Settings.nonEmpty? s.network? = none)
    (isNode : executionNode? s = some node) (reached : Reached s nodes a) : Pinned node nodes a :=
  pinned_start.steps unnamed isNode reached.steps

end BeaconBranch.Service
