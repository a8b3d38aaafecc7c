import BeaconBranch.Proofs.Outcome
import BeaconBranch.Remote.BeaconNode

/-!
Exchanges step by step. A computation that gave a value can be taken apart into the values of its
steps, with the session in between, and put together from them. Main statement: what a beacon node's
request gives was the answer to a question of the log.
-/

namespace BeaconBranch

namespace Exchange

variable {α β : Type} {nodes : Nodes} {s t : Session}

theorem bind_apply (x : Exchange α) (f : α → Exchange β) (nodes : Nodes) (s : Session) :
    (x >>= f) nodes s = match x nodes s with
      | (.ok a, u) => f a nodes u
      | (.error e, u) => (.error e, u) := rfl

theorem liftM_apply (r : Except Fault α) (nodes : Nodes) (s : Session) :
    (liftM r : Exchange α) nodes s = (r, s) := rfl

/-- What a step gives goes on into a step that needs no node. -/
theorem fst_bind_liftM (x : Exchange α) (f : α → Except Fault β) :
    ((x >>= fun a => (liftM (f a) : Exchange β)) nodes s).1 = (x nodes s).1 >>= f := by
  rw [bind_apply]
  rcases x nodes s with ⟨e | a, u⟩ <;> rfl

instance : LawfulMonad Exchange := by
  refine LawfulMonad.mk' Exchange (fun x => ?_) (fun _ _ => rfl) (fun x f g => ?_)
  · funext nodes s
    show (x >>= fun a => pure (id a)) nodes s = x nodes s
    rw [bind_apply]
    rcases x nodes s with ⟨_ | a, u⟩ <;> rfl
  · funext nodes s
    rw [bind_apply, bind_apply, bind_apply]
    rcases x nodes s with ⟨_ | a, u⟩ <;> rfl

/-- Two steps end as the second one does, or with the failure of the first one. -/
theorem bind_eq_iff {x : Exchange α} {f : α → Exchange β} {r : Except Fault β} :
    (x >>= f) nodes s = (r, t) ↔ (∃ a u, x nodes s = (.ok a, u) ∧ f a nodes u = (r, t)) ∨
      ∃ e, x nodes s = (.error e, t) ∧ r = .error e := by
  rw [bind_apply]
  rcases x nodes s with ⟨e | a, u⟩
  · simp [and_comm, eq_comm]
  · simp

theorem bind_eq_ok_iff {x : Exchange α} {f : α → Exchange β} {b : β} :
    (x >>= f) nodes s = (.ok b, t) ↔
      ∃ a u, x nodes s = (.ok a, u) ∧ f a nodes u = (.ok b, t) := by
  simp [bind_eq_iff]

theorem liftM_eq_iff {r r' : Except Fault α} :
    (liftM r : Exchange α) nodes s = (r', t) ↔ r = r' ∧ s = t := by
  rw [liftM_apply, Prod.mk.injEq]

theorem pure_eq_ok_iff {a b : α} :
    (pure a : Exchange α) nodes s = (.ok b, t) ↔ a = b ∧ s = t := by
  have step : (pure a : Exchange α) nodes s = (.ok a, s) := rfl
  rw [step]
  simp

theorem liftM_eq_ok_iff {r : Except Fault α} {a : α} :
    (liftM r : Exchange α) nodes s = (.ok a, t) ↔ r = .ok a ∧ s = t :=
  liftM_eq_iff

/-- A result that needs no node goes on if it is there. -/
theorem liftM_bind_eq_ok_iff {r : Except Fault α} {f : α → Exchange β} {b : β} :
    ((liftM r : Exchange α) >>= f) nodes s = (.ok b, t) ↔
      ∃ a, r = .ok a ∧ f a nodes s = (.ok b, t) := by
  simp [bind_eq_ok_iff, liftM_eq_ok_iff]

theorem fail_ne_ok {f : Fault} {a : α} : fail f nodes s ≠ (.ok a, t) := by
  simp [fail]

/-- A computation that fails under a condition goes on if this is not met. -/
theorem guard_eq_ok_iff {p : Prop} [Decidable p] {f : Fault} {next : Unit → Exchange α} {a : α} :
    (if p then fail f >>= next else next ()) nodes s = (.ok a, t) ↔
      ¬p ∧ next () nodes s = (.ok a, t) := by
  by_cases met : p
  · rw [if_pos met]
    have step : (fail f >>= next) nodes s = (.error f, s) := rfl
    rw [step]
    simp [met]
  · rw [if_neg met, and_iff_right met]

/-- An attempt always succeeds, with the result of what was attempted. -/
theorem attempt_eq_iff {x : Exchange α} {r : Except Fault (Except Fault α)} :
    attempt x nodes s = (r, t) ↔ ∃ r', x nodes s = (r', t) ∧ r = .ok r' := by
  rw [attempt]
  rcases x nodes s with ⟨r', u⟩
  simp [and_comm, eq_comm]

theorem askBeacon_eq_ok_iff {q : Query} {r : Reply} : askBeacon q nodes s = (.ok r, t) ↔
    nodes.beacon s.log q = r ∧ note (.beacon q) s = t := by
  simp [askBeacon]

/-- A list is mapped item by item, each in a session of its own. -/
theorem forall₂_of_mapM {f : α → Exchange β} {xs : List α} {ys : List β}
    (ran : xs.mapM f nodes s = (.ok ys, t)) :
    List.Forall₂ (fun x y => ∃ u v, f x nodes u = (.ok y, v)) xs ys := by
  induction xs generalizing ys s with
  | nil =>
    obtain ⟨rfl, -⟩ := pure_eq_ok_iff.mp ran
    exact .nil
  | cons x xs ih =>
    rw [List.mapM_cons, bind_eq_ok_iff] at ran
    obtain ⟨y, u, first, ran⟩ := ran
    obtain ⟨rest, v, others, ran⟩ := bind_eq_ok_iff.mp ran
    obtain ⟨rfl, rfl⟩ := pure_eq_ok_iff.mp ran
    exact .cons ⟨s, u, first⟩ (ih others)

end Exchange

/-- A beacon node gave an answer that is no error to a question for an address, asked between two
sessions. -/
def Answered (nodes : Nodes) (first last : Session) (url : String) (answer : Answer) : Prop :=
  ∃ before query, first.log <+: before ∧ before ++ [.beacon query] <+: last.log ∧
    query.url = url ∧ nodes.beacon before query = .answered answer ∧ answer.isError = false

namespace Answered

variable {nodes : Nodes} {first first' last last' : Session} {url : String} {answer : Answer}

/-- An answer stays one when the sessions around it are further apart. -/
theorem mono (answered : Answered nodes first last url answer) (earlier : first'.log <+: first.log)
    (later : last.log <+: last'.log) : Answered nodes first' last' url answer := by
  obtain ⟨before, query, start, stop, rest⟩ := answered
  exact ⟨before, query, earlier.trans start, stop.trans later, rest⟩

end Answered

namespace BeaconNode

open Exchange Remote

variable {n : BeaconNode} {nodes : Nodes} {s t : Session} {path : String}
  {parameter : Option (String × String)} {accept : Option String} {timeout : Option Number}
  {answer : Answer}

/-- A request gives an answer that is no error. -/
theorem request_eq_ok_iff :
    n.request path parameter accept timeout nodes s = (.ok answer, t) ↔
      ∃ query, query = ⟨n.baseUrl ++ path, parameter, accept, timeoutOr n.timeout timeout⟩ ∧
        nodes.beacon s.log query = .answered answer ∧ answer.isError = false ∧
        note (.beacon query) s = t := by
  simp only [request, Exchange.bind_eq_ok_iff, askBeacon_eq_ok_iff]
  constructor
  · rintro ⟨reply, u, ⟨replied, rfl⟩, ran⟩
    cases reply with
    | failed kind text => exact absurd ran fail_ne_ok
    | answered got =>
      dsimp only at ran
      split at ran
      · exact absurd ran fail_ne_ok
      · rename_i fine
        obtain ⟨rfl, rfl⟩ := Exchange.pure_eq_ok_iff.mp ran
        exact ⟨_, rfl, replied, by simpa using fine, rfl⟩
  · rintro ⟨query, rfl, replied, fine, rfl⟩
    refine ⟨_, _, ⟨replied, rfl⟩, ?_⟩
    dsimp only
    rw [fine]
    rfl

/-- A request that is answered gives the answer, or reports the status of an error. -/
theorem request_of_answered (answered : nodes.beacon s.log
      ⟨n.baseUrl ++ path, parameter, accept, timeoutOr n.timeout timeout⟩ = .answered answer) :
    (n.request path parameter accept timeout nodes s).1 =
      if answer.isError then .error (.beaconStatus answer.status path (excerpt answer.text))
      else .ok answer := by
  rw [request, bind_apply, askBeacon]
  dsimp only
  rw [answered]
  dsimp only
  split <;> rfl

theorem answered_of_request
    (ran : n.request path parameter accept timeout nodes s = (.ok answer, t)) :
    Answered nodes s t (n.baseUrl ++ path) answer := by
  obtain ⟨query, rfl, replied, fine, rfl⟩ := request_eq_ok_iff.mp ran
  exact ⟨s.log, _, List.prefix_rfl, List.prefix_rfl, rfl, replied, fine⟩

/-- The `data` entry that is fetched stands in an answer. -/
theorem fetch_eq_ok_iff {data : Value} : n.fetch path parameter timeout nodes s = (.ok data, t) ↔
    ∃ answer, n.request path parameter none timeout nodes s = (.ok answer, t) ∧
      dataIn? path answer = .ok data := by
  simp only [fetch, Exchange.bind_eq_ok_iff, liftM_eq_ok_iff]
  constructor
  · rintro ⟨answer, u, ran, read, rfl⟩
    exact ⟨answer, ran, read⟩
  · rintro ⟨answer, ran, read⟩
    exact ⟨answer, t, ran, read, rfl⟩

/-- The bytes of a state are the body of an answer. -/
theorem stateBytes_eq_ok_iff {state : String} {body : ByteArray} :
    n.stateBytes state timeout nodes s = (.ok body, t) ↔ ∃ answer,
      n.request ("/eth/v2/debug/beacon/states/" ++ state) none (some "application/octet-stream")
        timeout nodes s = (.ok answer, t) ∧ answer.body = body := by
  simp only [stateBytes, Exchange.bind_eq_ok_iff, Exchange.pure_eq_ok_iff]
  constructor
  · rintro ⟨answer, u, ran, rfl, rfl⟩
    exact ⟨answer, ran, rfl⟩
  · rintro ⟨answer, ran, rfl⟩
    exact ⟨answer, t, ran, rfl, rfl⟩

end BeaconNode

end BeaconBranch
