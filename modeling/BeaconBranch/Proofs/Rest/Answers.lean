import BeaconBranch.Proofs.Rest.Documents
import BeaconBranch.Proofs.Service.Consistent
import BeaconBranch.Rest.Api

/-!
Answers of the web interface. No fault escapes it: a request without a route, by another method or
with a body that is not read asks no node, and every other one is answered with a document of its
route or with the status of its fault. Main statements: which answer a request gets, and what the
statuses mean; that nothing internal is told; and, over any row of requests, that the documents are
consistent and always name the same network.
-/

namespace BeaconBranch.Rest

open Exchange Service

variable {read? : Reader} {s : Settings} {nodes : Nodes} {a b : Session} {f : Fault}

/-! ### Faults -/

/-- A kind of faults that is neither the caller's nor a node's nor that of a proof. -/
def IsInternal (k : FaultKind) : Prop :=
  k.isInvalidInput = false ∧ k ∉ [.beaconNode, .prover, .execution, .service]

/-- The status and the code that a kind of faults is told with. -/
inductive ToldWith : FaultKind → Nat × String → Prop
  | invalid {k : FaultKind} (input : k.isInvalidInput = true) : ToldWith k (400, "VALIDATION_ERROR")
  | beaconNode : ToldWith .beaconNode (502, "BEACON_API_ERROR")
  | prover : ToldWith .prover (502, "PROVER_API_ERROR")
  | execution : ToldWith .execution (502, "EXECUTION_API_ERROR")
  | service : ToldWith .service (500, "PROOF_ERROR")
  | internal {k : FaultKind} (own : IsInternal k) : ToldWith k (500, "INTERNAL_ERROR")

theorem toldWith_statusOf (f : Fault) : ToldWith f.kind (statusOf f) := by
  rw [statusOf]
  generalize f.kind = k
  split
  · rename_i input
    exact .invalid input
  · rename_i input
    split
    · exact .beaconNode
    · exact .prover
    · exact .execution
    · exact .service
    · exact .internal ⟨by simpa using input, by simp_all⟩

theorem statusOf_of_internal (own : IsInternal f.kind) : statusOf f = (500, "INTERNAL_ERROR") := by
  have told := toldWith_statusOf f
  revert own told
  generalize f.kind = k
  generalize statusOf f = r
  rintro ⟨input, other⟩ told
  cases told with
  | invalid invalid => cases input.symm.trans invalid
  | internal => rfl
  | _ => simp at other

/-- The text of a fault is one entry or none. -/
theorem errorText_cases (f : Fault) :
    errorText f = [] ∨ ∃ text, errorText f = [("error", .text text)] := by
  generalize entries : errorText f = es
  unfold errorText at entries
  split at entries
  · exact .inl entries.symm
  · exact .inr ⟨_, entries.symm⟩
  · exact .inr ⟨_, entries.symm⟩

theorem toldFault_eq (f : Fault) : toldFault f = ⟨(statusOf f).1, some (.object (errorText f ++
    [("code", .text (statusOf f).2), ("details", .object [("error_type", .text f.kind.name)])]))⟩ :=
  rfl

/-- The answer to a fault tells its code and its kind. -/
theorem toldFault_spec (f : Fault) : ∃ es, toldFault f = ⟨(statusOf f).1, some (.object es)⟩ ∧
    Value.lookup "code" es = some (.text (statusOf f).2) ∧
    Value.lookup "details" es = some (.object [("error_type", .text f.kind.name)]) := by
  refine ⟨_, toldFault_eq f, ?_⟩
  rcases errorText_cases f with none | ⟨text, one⟩
  · simp [none, Value.lookup]
  · simp [one, Value.lookup]

/-- Of an internal fault only the kind is told. -/
theorem faultResponse_of_internal (own : IsInternal f.kind) : faultResponse read? f =
    ⟨500, some (.object [("error", .text "Internal server error"),
      ("code", .text "INTERNAL_ERROR"),
      ("details", .object [("error_type", .text f.kind.name)])])⟩ := by
  have status := statusOf_of_internal own
  have text : errorText f = [("error", .text "Internal server error")] := by
    unfold errorText
    rw [status]
    split
    · cases own.1
    · rfl
    · rename_i other
      exact absurd rfl other
  have told : faultResponse read? f = toldFault f := by
    rw [faultResponse, status]
    exact if_neg (by simp)
  rw [told, toldFault_eq, text, status]
  rfl

/-- The statuses of faults are none of those that refuse a request or serve a document. -/
theorem status_faultResponse (read? : Reader) (f : Fault) :
    (faultResponse read? f).status ∈ [400, 500, 502] := by
  have statuses : ∀ f, (toldFault f).status ∈ [400, 500, 502] := by
    intro f
    have told := toldWith_statusOf f
    rw [toldFault_eq]
    revert told
    generalize f.kind = k
    generalize statusOf f = r
    rintro (_ | _) <;> simp
  rw [faultResponse]
  split
  · exact statuses _
  · exact statuses f

/-! ### Requests -/

/-- The service takes all indices that pass the check of a request's body. -/
theorem taken_of_checkIndices {indices : List Int} (passes : checkIndices indices = none) :
    Service.checkIndices indices = .ok () := by
  obtain ⟨some, nonneg, -⟩ := checkIndices_eq_none_iff.mp passes
  exact Service.checkIndices_eq_ok_iff.mpr ⟨some, nonneg⟩

/-- The body of a request on this route is not read. -/
def Unread (read? : Reader) (body : Option Value) : Route → Prop
  | .credentials | .checkpoint => requestedIndices? read? body = none
  | .staleBalance => requestedIndex? read? body = none
  | .root | .health | .podStatus _ => False

/-- The document of a route, made between two sessions: what the service gives, in the shape that is
declared for it. -/
inductive Made (read? : Reader) (s : Settings) (nodes : Nodes) (body : Option Value) (a : Session) :
    Route → Value → Session → Prop
  | root : Made read? s nodes body a .root welcome a
  | health {b : Session} {document : Value} (ran : health s nodes a = (.ok document, b)) :
      Made read? s nodes body a .health document b
  | credentials {b : Session} {indices : List Int} {proof : CredentialProof} {v document : Value}
      (asked : requestedIndices? read? body = some indices)
      (ran : credentialProof s indices nodes a = (.ok proof, b)) (shown : proof.toValue? = .ok v)
      (shaped : read? credentialResponse v = some document) :
      Made read? s nodes body a .credentials document b
  | checkpoint {b : Session} {indices : List Int} {proof : CheckpointProof} {document : Value}
      (asked : requestedIndices? read? body = some indices)
      (ran : checkpointProof s indices nodes a = (.ok proof, b))
      (shaped : read? checkpointResponse proof.toValue = some document) :
      Made read? s nodes body a .checkpoint document b
  | staleBalance {b : Session} {index : Int} {proof : StaleBalanceProof} {v document : Value}
      (asked : requestedIndex? read? body = some index)
      (ran : staleBalanceProof s index nodes a = (.ok proof, b)) (shown : proof.toValue? = .ok v)
      (shaped : read? staleBalanceResponse v = some document) :
      Made read? s nodes body a .staleBalance document b
  | podStatus {b : Session} {address : String} {report : Pod.Report} {document : Value}
      (ran : Pod.report s address [] nodes a = (.ok report, b))
      (shaped : read? podStatusResponse report.toValue = some document) :
      Made read? s nodes body a (.podStatus address) document b

variable {r : Request} {response : Response} {body : Option Value} {route : Route} {v : Value}

theorem shaped_eq_ok_iff {shape : Shape} {document : Value} :
    shaped read? shape v = .ok document ↔ read? shape v = some document := by
  rw [shaped]
  cases read? shape v <;> simp

/-- A computation is answered with its document in its shape. -/
theorem answered_eq_ok_iff {shape : Shape} {x : Exchange Value} :
    answered read? shape x nodes a = (.ok response, b) ↔ ∃ v document,
      x nodes a = (.ok v, b) ∧ read? shape v = some document ∧ response = ⟨200, some document⟩ := by
  simp only [answered, bind_eq_ok_iff, liftM_eq_ok_iff, Exchange.pure_eq_ok_iff, shaped_eq_ok_iff]
  constructor
  · rintro ⟨v, u, ran, document, w, ⟨read, rfl⟩, rfl, rfl⟩
    exact ⟨v, document, ran, read, rfl⟩
  · rintro ⟨v, document, ran, read, rfl⟩
    exact ⟨v, b, ran, document, b, ⟨read, rfl⟩, rfl, rfl⟩

/-- A route refuses a body that is not read, and answers every other request with a document of its
own, if it does not fail. -/
theorem dispatch_spec (ran : dispatch read? s body route nodes a = (.ok response, b)) :
    Unread read? body route ∧ response = ⟨422, none⟩ ∧ b = a ∨
    ∃ document, response = ⟨200, some document⟩ ∧ Made read? s nodes body a route document b := by
  cases route with
  | root =>
    obtain ⟨rfl, rfl⟩ := Exchange.pure_eq_ok_iff.mp ran
    exact .inr ⟨_, rfl, .root⟩
  | health =>
    obtain ⟨document, u, made, ran⟩ := bind_eq_ok_iff.mp ran
    obtain ⟨rfl, rfl⟩ := Exchange.pure_eq_ok_iff.mp ran
    exact .inr ⟨_, rfl, .health made⟩
  | credentials =>
    cases asked : requestedIndices? read? body with
    | none =>
      simp only [dispatch, asked] at ran
      obtain ⟨rfl, rfl⟩ := Exchange.pure_eq_ok_iff.mp ran
      exact .inl ⟨asked, rfl, rfl⟩
    | some indices =>
      simp only [dispatch, asked] at ran
      obtain ⟨v, document, given, shaped, rfl⟩ := answered_eq_ok_iff.mp ran
      obtain ⟨proof, u, made, last⟩ := bind_eq_ok_iff.mp given
      obtain ⟨shown, rfl⟩ := liftM_eq_ok_iff.mp last
      exact .inr ⟨_, rfl, .credentials asked made shown shaped⟩
  | checkpoint =>
    cases asked : requestedIndices? read? body with
    | none =>
      simp only [dispatch, asked] at ran
      obtain ⟨rfl, rfl⟩ := Exchange.pure_eq_ok_iff.mp ran
      exact .inl ⟨asked, rfl, rfl⟩
    | some indices =>
      simp only [dispatch, asked] at ran
      obtain ⟨v, document, given, shaped, rfl⟩ := answered_eq_ok_iff.mp ran
      obtain ⟨proof, u, made, last⟩ := bind_eq_ok_iff.mp given
      obtain ⟨rfl, rfl⟩ := Exchange.pure_eq_ok_iff.mp last
      exact .inr ⟨_, rfl, .checkpoint asked made shaped⟩
  | staleBalance =>
    cases asked : requestedIndex? read? body with
    | none =>
      simp only [dispatch, asked] at ran
      obtain ⟨rfl, rfl⟩ := Exchange.pure_eq_ok_iff.mp ran
      exact .inl ⟨asked, rfl, rfl⟩
    | some index =>
      simp only [dispatch, asked] at ran
      obtain ⟨v, document, given, shaped, rfl⟩ := answered_eq_ok_iff.mp ran
      obtain ⟨proof, u, made, last⟩ := bind_eq_ok_iff.mp given
      obtain ⟨shown, rfl⟩ := liftM_eq_ok_iff.mp last
      exact .inr ⟨_, rfl, .staleBalance asked made shown shaped⟩
  | podStatus address =>
    rw [dispatch] at ran
    obtain ⟨v, document, given, shaped, rfl⟩ := answered_eq_ok_iff.mp ran
    obtain ⟨report, u, made, last⟩ := bind_eq_ok_iff.mp given
    obtain ⟨rfl, rfl⟩ := Exchange.pure_eq_ok_iff.mp last
    exact .inr ⟨_, rfl, .podStatus made shaped⟩

/-- A request has this route, and the method that the route takes. -/
def Request.IsFor (r : Request) (route : Route) : Prop :=
  Route.ofPath? r.path = some route ∧ r.method.toUpper = route.method

/-- How a request is answered, and the session behind it. -/
inductive Answering (read? : Reader) (s : Settings) (nodes : Nodes) (r : Request) (a : Session) :
    Response → Session → Prop
  | notFound (missing : Route.ofPath? r.path = none) :
      Answering read? s nodes r a (detail 404 "Not Found") a
  | notAllowed {route : Route} (found : Route.ofPath? r.path = some route)
      (differs : r.method.toUpper ≠ route.method) :
      Answering read? s nodes r a (detail 405 "Method Not Allowed") a
  | refused {route : Route} (isFor : r.IsFor route) (unread : Unread read? r.body? route) :
      Answering read? s nodes r a ⟨422, none⟩ a
  | served {route : Route} (isFor : r.IsFor route) {document : Value} {b : Session}
      (made : Made read? s nodes r.body? a route document b) :
      Answering read? s nodes r a ⟨200, some document⟩ b
  | failed {route : Route} (isFor : r.IsFor route) {f : Fault} {b : Session}
      (ran : dispatch read? s r.body? route nodes a = (.error f, b)) :
      Answering read? s nodes r a (faultResponse read? f) b

/-- Every request is answered in one of these ways, however the nodes reply. -/
theorem answering_of_respond {result : Except Fault Response}
    (ran : respond read? s r nodes a = (result, b)) :
    ∃ response, result = .ok response ∧ Answering read? s nodes r a response b := by
  rw [respond] at ran
  cases found : Route.ofPath? r.path with
  | none =>
    rw [found] at ran
    cases ran
    exact ⟨_, rfl, .notFound found⟩
  | some route =>
    rw [found] at ran
    dsimp only at ran
    split at ran
    · rename_i differs
      cases ran
      exact ⟨_, rfl, .notAllowed found differs⟩
    · rename_i same
      have isFor : r.IsFor route := ⟨found, Decidable.not_not.mp same⟩
      rw [bind_apply, attempt] at ran
      rcases dispatched : dispatch read? s r.body? route nodes a with ⟨f | response, u⟩
      · rw [dispatched] at ran
        cases ran
        exact ⟨_, rfl, .failed isFor dispatched⟩
      · rw [dispatched] at ran
        cases ran
        rcases dispatch_spec dispatched with ⟨unread, rfl, rfl⟩ | ⟨document, rfl, made⟩
        · exact ⟨_, rfl, .refused isFor unread⟩
        · exact ⟨_, rfl, .served isFor made⟩

/-- A body that is not read is refused. -/
theorem dispatch_of_unread (unread : Unread read? body route) :
    dispatch read? s body route nodes a = (.ok ⟨422, none⟩, a) := by
  cases route with
  | root | health | podStatus => exact unread.elim
  | credentials | checkpoint | staleBalance =>
    rw [Unread] at unread
    simp only [dispatch, unread]
    rfl

/-- A document is only made for a body that is read. -/
theorem Made.read (made : Made read? s nodes body a route v b) : ¬Unread read? body route := by
  cases made with
  | root | health | podStatus => exact id
  | credentials asked | checkpoint asked | staleBalance asked =>
    intro unread
    cases asked.symm.trans unread

namespace Answering

/-- Every answer has one of seven statuses. -/
theorem status_mem (answering : Answering read? s nodes r a response b) :
    response.status ∈ [200, 400, 404, 405, 422, 500, 502] := by
  cases answering with
  | @failed _ _ f =>
    have mem := status_faultResponse read? f
    simp only [List.mem_cons, List.not_mem_nil, or_false] at mem ⊢
    omega
  | _ => simp [detail]

/-- What the statuses of refusals mean: no route, another method, or a body that is not read. -/
theorem refusal_iff (answering : Answering read? s nodes r a response b) :
    (response.status = 404 ↔ Route.ofPath? r.path = none) ∧
    (response.status = 405 ↔
      ∃ route, Route.ofPath? r.path = some route ∧ r.method.toUpper ≠ route.method) ∧
    (response.status = 422 ↔ ∃ route, r.IsFor route ∧ Unread read? r.body? route) := by
  cases answering with
  | notFound missing => simp [detail, missing, Request.IsFor]
  | notAllowed found differs => simp [detail, found, differs, Request.IsFor]
  | refused isFor unread => simp [Request.IsFor, isFor.1, isFor.2, unread]
  | served isFor made => simp [Request.IsFor, isFor.1, isFor.2, made.read]
  | @failed route isFor f _ ran =>
    have mem := status_faultResponse read? f
    have read : ¬Unread read? r.body? route := by
      intro unread
      rw [dispatch_of_unread unread] at ran
      cases ran
    simp only [List.mem_cons, List.not_mem_nil, or_false] at mem
    obtain status | status | status := mem
    all_goals simp [Request.IsFor, isFor.1, isFor.2, read, status]

/-- A request that is refused asks nothing. -/
theorem unasked (answering : Answering read? s nodes r a response b)
    (refused : response.status ∈ [404, 405, 422]) : b = a := by
  cases answering with
  | notFound | notAllowed | refused => rfl
  | served => simp at refused
  | @failed _ _ f =>
    have mem := status_faultResponse read? f
    simp only [List.mem_cons, List.not_mem_nil, or_false] at mem refused
    omega

/-- What is served is a document of the route that was asked for. -/
theorem made_of_served (answering : Answering read? s nodes r a response b)
    (served : response.status = 200) : ∃ route document, r.IsFor route ∧
      response = ⟨200, some document⟩ ∧ Made read? s nodes r.body? a route document b := by
  cases answering with
  | served isFor made => exact ⟨_, _, isFor, rfl, made⟩
  | @failed _ _ f =>
    have mem := status_faultResponse read? f
    simp [served] at mem
  | notFound | notAllowed | refused => cases served

/-- What fails is answered with the code and the kind of a fault. -/
theorem fault_of_failed (answering : Answering read? s nodes r a response b)
    (failed : response.status ∈ [400, 500, 502]) : ∃ f es,
      response = ⟨(statusOf f).1, some (.object es)⟩ ∧
      Value.lookup "code" es = some (.text (statusOf f).2) ∧
      Value.lookup "details" es = some (.object [("error_type", .text f.kind.name)]) := by
  cases answering with
  | @failed _ _ f =>
    rw [faultResponse]
    split
    · exact ⟨_, toldFault_spec _⟩
    · exact ⟨f, toldFault_spec f⟩
  | notFound | notAllowed | refused | served => simp [detail] at failed

end Answering

/-! ### Rows of requests -/

theorem walks_isHealthy (n : BeaconNode) : Walks s nodes n.isHealthy := by
  refine (Walks.askBeacon _).bind fun reply => ?_
  cases reply with
  | answered answer => exact .pure _
  | failed kind text =>
    dsimp only
    split
    · exact .pure _
    · exact .fail _

theorem walks_health : Walks s nodes (health s) :=
  walks_beaconNode.bind fun node => (walks_isHealthy node).bind fun _ =>
    walks_network.bind fun _ => .pure _

theorem walks_answered {shape : Shape} {x : Exchange Value} (walks : Walks s nodes x) :
    Walks s nodes (answered read? shape x) :=
  walks.bind fun _ => (Walks.lift _).bind fun _ => .pure _

theorem walks_dispatch (route : Route) : Walks s nodes (dispatch read? s body route) := by
  cases route with
  | root => exact .pure _
  | health => exact walks_health.bind fun _ => .pure _
  | credentials =>
    cases asked : requestedIndices? read? body with
    | none => simpa only [dispatch, asked] using .pure _
    | some indices =>
      simp only [dispatch, asked]
      exact walks_answered ((walks_credentialProof indices).bind fun _ => .lift _)
  | checkpoint =>
    cases asked : requestedIndices? read? body with
    | none => simpa only [dispatch, asked] using .pure _
    | some indices =>
      simp only [dispatch, asked]
      exact walks_answered ((walks_checkpointProof indices).bind fun _ => .pure _)
  | staleBalance =>
    cases asked : requestedIndex? read? body with
    | none => simpa only [dispatch, asked] using .pure _
    | some index =>
      simp only [dispatch, asked]
      exact walks_answered ((walks_staleBalanceProof index).bind fun _ => .lift _)
  | podStatus address => exact walks_answered ((walks_report address []).bind fun _ => .pure _)

/-- A request changes its session by the steps of a service. -/
theorem walks_respond (r : Request) : Walks s nodes (respond read? s r) := by
  rw [respond]
  split
  · exact .pure _
  · split
    · exact .pure _
    · refine (walks_dispatch _).attempt.bind fun result => ?_
      cases result with
      | ok response => exact .pure _
      | error f => exact .pure _

/-- The proofs in a document are consistent: it shows what is asked for, with every proof under the
block root that it names. -/
def Consistent (read? : Reader) (s : Settings) (nodes : Nodes) (body : Option Value)
    (a b : Session) (document : Value) : Route → Prop
  | .credentials => ∃ indices proof v, requestedIndices? read? body = some indices ∧
      CredentialConsistent s nodes a b indices proof ∧ proof.toValue? = .ok v ∧
      read? credentialResponse v = some document
  | .checkpoint => ∃ indices proof, requestedIndices? read? body = some indices ∧
      CheckpointConsistent s nodes a b indices proof ∧
      read? checkpointResponse proof.toValue = some document
  | .staleBalance => ∃ index proof v, requestedIndex? read? body = some index ∧
      StaleBalanceConsistent s nodes a b index proof ∧ proof.toValue? = .ok v ∧
      read? staleBalanceResponse v = some document
  | .root | .health | .podStatus _ => True

theorem Made.consistent (made : Made read? s nodes body a route v b) (settled : Settled s nodes a) :
    Consistent read? s nodes body a b v route := by
  cases made with
  | root | health | podStatus => trivial
  | credentials asked ran shown shaped =>
    exact ⟨_, _, _, asked, credentialProof_consistent settled ran, shown, shaped⟩
  | checkpoint asked ran shaped =>
    exact ⟨_, _, asked, checkpointProof_consistent settled ran, shaped⟩
  | staleBalance asked ran shown shaped =>
    exact ⟨_, _, _, asked, staleBalanceProof_consistent settled ran, shown, shaped⟩

/-- Requests in a row, each answered in the session that the one before left behind. -/
inductive Serves (read? : Reader) (s : Settings) (nodes : Nodes) :
    Session → List Request → List Response → Session → Prop
  | nil {a : Session} : Serves read? s nodes a [] [] a
  | cons {a b c : Session} {r : Request} {rs : List Request} {response : Response}
      {responses : List Response} (first : respond read? s r nodes a = (.ok response, b))
      (rest : Serves read? s nodes b rs responses c) :
      Serves read? s nodes a (r :: rs) (response :: responses) c

/-- Every row of requests is answered. -/
theorem exists_serves (read? : Reader) (s : Settings) (nodes : Nodes) (rs : List Request)
    (a : Session) : ∃ responses b, rs.mapM (respond read? s) nodes a = (.ok responses, b) ∧
      Serves read? s nodes a rs responses b := by
  induction rs generalizing a with
  | nil => exact ⟨[], a, rfl, .nil⟩
  | cons r rs ih =>
    rcases ran : respond read? s r nodes a with ⟨result, u⟩
    obtain ⟨response, rfl, -⟩ := answering_of_respond ran
    obtain ⟨responses, b, others, rest⟩ := ih u
    refine ⟨response :: responses, b, ?_, .cons ran rest⟩
    rw [List.mapM_cons]
    exact bind_eq_ok_iff.mpr ⟨response, u, ran, bind_eq_ok_iff.mpr ⟨responses, b, others, rfl⟩⟩

/-- A request is answered with this response, in a session that is settled, and what is served is
consistent. -/
def AnsweredSoundly (read? : Reader) (s : Settings) (nodes : Nodes) (r : Request)
    (response : Response) : Prop :=
  ∃ a b, Settled s nodes a ∧ Answering read? s nodes r a response b ∧
    (response.status = 200 → ∃ route document, r.IsFor route ∧ response = ⟨200, some document⟩ ∧
      Consistent read? s nodes r.body? a b document route)

variable {rs : List Request} {responses : List Response}

theorem Serves.soundly (serves : Serves read? s nodes a rs responses b)
    (settled : Settled s nodes a) :
    Settled s nodes b ∧ List.Forall₂ (AnsweredSoundly read? s nodes) rs responses := by
  induction serves with
  | nil => exact ⟨settled, .nil⟩
  | cons first _ ih =>
    obtain ⟨response, same, answering⟩ := answering_of_respond first
    obtain rfl := Except.ok.inj same
    obtain ⟨after, others⟩ := ih (((walks_respond _).advances _ _ _ first).settled settled)
    refine ⟨after, .cons ⟨_, _, settled, answering, fun served => ?_⟩ others⟩
    obtain ⟨route, document, isFor, same, made⟩ := answering.made_of_served served
    exact ⟨route, document, isFor, same, made.consistent settled⟩

/-- From the start of a service, every row of requests is answered soundly, whatever the nodes
reply. -/
theorem requests_answered (read? : Reader) (s : Settings) (nodes : Nodes) (rs : List Request) :
    ∃ responses b, rs.mapM (respond read? s) nodes .start = (.ok responses, b) ∧
      Settled s nodes b ∧ List.Forall₂ (AnsweredSoundly read? s nodes) rs responses := by
  obtain ⟨responses, b, ran, serves⟩ := exists_serves read? s nodes rs .start
  exact ⟨responses, b, ran, serves.soundly (settled_start s nodes)⟩

/-! ### The network -/

/-- An answer about the health of the service names a network. -/
def NamesNetwork (name : String) (response : Response) : Prop :=
  ∃ document, response.body? = some document ∧ document.atKey? "network" = .ok (.text name)

/-- The health document names the network that the session keeps. -/
theorem health_spec (ran : health s nodes a = (.ok v, b)) :
    ∃ n, b.network? = some n ∧ v.atKey? "network" = .ok (.text n.name) := by
  simp only [health, bind_eq_ok_iff] at ran
  obtain ⟨node, u, -, up, w, -, n, t, found, last⟩ := ran
  obtain ⟨rfl, rfl⟩ := Exchange.pure_eq_ok_iff.mp last
  exact ⟨n, network?_of_network found, rfl⟩

/-- A request for the health of the service that is served leaves a session with the network that
the answer names. -/
theorem network_of_served (ran : respond read? s r nodes a = (.ok response, b))
    (isHealth : Route.ofPath? r.path = some .health) (served : response.status = 200) :
    ∃ n, b.network? = some n ∧ NamesNetwork n.name response := by
  obtain ⟨response, same, answering⟩ := answering_of_respond ran
  obtain rfl := Except.ok.inj same
  obtain ⟨route, document, isFor, rfl, made⟩ := answering.made_of_served served
  obtain rfl : route = .health := Option.some.inj (isFor.1.symm.trans isHealth)
  cases made with
  | health made =>
    obtain ⟨n, found, names⟩ := health_spec made
    exact ⟨n, found, document, rfl, names⟩

/-- Once a session has found the network, every answer about the health of the service names it. -/
theorem Serves.namesNetwork {n : Network} (serves : Serves read? s nodes a rs responses b)
    (known : a.network? = some n) : ∀ e ∈ rs.zip responses, Route.ofPath? e.1.path = some .health →
      e.2.status = 200 → NamesNetwork n.name e.2 := by
  induction serves with
  | nil => exact fun e mem => by cases mem
  | cons first _ ih =>
    have kept := ((walks_respond _).advances _ _ _ first).network n known
    rw [List.zip_cons_cons, List.forall_mem_cons]
    refine ⟨fun isHealth served => ?_, ih kept⟩
    obtain ⟨m, found, names⟩ := network_of_served first isHealth served
    obtain rfl : n = m := Option.some.inj (kept.symm.trans found)
    exact names

/-- All answers about the health of a service name one network. -/
theorem Serves.network_stable (serves : Serves read? s nodes a rs responses b) :
    ∃ name, ∀ e ∈ rs.zip responses, Route.ofPath? e.1.path = some .health → e.2.status = 200 →
      NamesNetwork name e.2 := by
  induction serves with
  | nil => exact ⟨"", fun e mem => by cases mem⟩
  | @cons a b c r rs response responses first rest ih =>
    by_cases told : Route.ofPath? r.path = some .health ∧ response.status = 200
    · obtain ⟨n, found, names⟩ := network_of_served first told.1 told.2
      rw [List.zip_cons_cons]
      exact ⟨n.name, List.forall_mem_cons.mpr ⟨fun _ _ => names, rest.namesNetwork found⟩⟩
    · obtain ⟨name, others⟩ := ih
      rw [List.zip_cons_cons]
      exact ⟨name, List.forall_mem_cons.mpr
        ⟨fun isHealth served => absurd ⟨isHealth, served⟩ told, others⟩⟩

end BeaconBranch.Rest
