import BeaconBranch.Proofs.Composer.Openings
import BeaconBranch.Proofs.Service.Evidence

/-!
Steps that succeed. A step of a request gives a value, whatever the session before it is, once its
question is answered and its time budget lasts. Only the network and the execution node depend on
what a session holds, so these are asked under a condition that every step keeps. Two requests that
differ in some steps give one value if these steps do. Main statements: what the steps that all
requests share give, the anchor at a block and the composer of a state.
-/

namespace BeaconBranch.Service

open Exchange

variable {α β : Type} {s : Settings} {nodes : Nodes}

/-- A computation gives a value that has a property, whatever the session before it is. -/
def Gives (nodes : Nodes) (x : Exchange α) (p : α → Prop) : Prop :=
  ∀ a, ∃ v b, x nodes a = (.ok v, b) ∧ p v

namespace Gives

variable {x : Exchange α} {p : α → Prop} {q : β → Prop}

theorem bind {f : α → Exchange β} (first : Gives nodes x p)
    (next : ∀ v, p v → Gives nodes (f v) q) : Gives nodes (x >>= f) q := by
  intro a
  obtain ⟨v, u, ranFirst, holds⟩ := first a
  obtain ⟨w, b, ranNext, result⟩ := next v holds u
  exact ⟨w, b, bind_eq_ok_iff.mpr ⟨v, u, ranFirst, ranNext⟩, result⟩

theorem pure {v : α} (holds : p v) : Gives nodes (Pure.pure v) p := fun a => ⟨v, a, rfl, holds⟩

theorem lift {r : Except Fault α} {v : α} (ok : r = .ok v) (holds : p v) :
    Gives nodes (liftM r : Exchange α) p := fun a => ⟨v, a, liftM_eq_ok_iff.mpr ⟨ok, rfl⟩, holds⟩

theorem bind_eq {v : α} {f : α → Exchange β} (first : Gives nodes x (· = v))
    (next : Gives nodes (f v) q) : Gives nodes (x >>= f) q := by
  refine first.bind ?_
  rintro _ rfl
  exact next

theorem bind_lift {r : Except Fault α} {v : α} {f : α → Exchange β} (ok : r = .ok v)
    (next : Gives nodes (f v) q) : Gives nodes ((liftM r : Exchange α) >>= f) q :=
  bind_eq (lift ok rfl) next

theorem guard {c : Prop} [Decidable c] {f : Fault} {next : Unit → Exchange α} (unmet : ¬c)
    (along : Gives nodes (next ()) p) :
    Gives nodes (if c then fail f >>= next else next ()) p := by
  rw [if_neg unmet]
  exact along

theorem mapM {f : α → Exchange β} {R : α → β → Prop} {xs : List α}
    (each : ∀ x ∈ xs, Gives nodes (f x) (R x)) : Gives nodes (xs.mapM f) (List.Forall₂ R xs) := by
  induction xs with
  | nil => exact pure .nil
  | cons x xs ih =>
    obtain ⟨first, others⟩ := List.forall_mem_cons.mp each
    rw [List.mapM_cons]
    exact first.bind fun y holds => (ih others).bind fun ys all => pure (.cons holds all)

end Gives

/-- A computation gives a value that has a property, from every session that meets a condition, and
leads to a session that meets it again. -/
def GivesUnder (nodes : Nodes) (I : Session → Prop) (x : Exchange α) (p : α → Prop) : Prop :=
  ∀ a, I a → ∃ v b, x nodes a = (.ok v, b) ∧ I b ∧ p v

theorem givesUnder_true_iff {x : Exchange α} {p : α → Prop} :
    GivesUnder nodes (fun _ => True) x p ↔ Gives nodes x p := by
  simp only [GivesUnder, Gives, true_and, true_implies]

/-- A condition on sessions is kept by every step. -/
def Kept (s : Settings) (nodes : Nodes) (I : Session → Prop) : Prop :=
  ∀ a b, Steps s nodes a b → I a → I b

namespace GivesUnder

variable {I : Session → Prop} {x : Exchange α} {p : α → Prop} {q : β → Prop}

theorem of_gives (kept : Kept s nodes I) (walks : Walks s nodes x) (gives : Gives nodes x p) :
    GivesUnder nodes I x p := by
  intro a met
  obtain ⟨v, b, ran, holds⟩ := gives a
  exact ⟨v, b, ran, kept a b (walks a _ b ran) met, holds⟩

theorem bind {f : α → Exchange β} (first : GivesUnder nodes I x p)
    (next : ∀ v, p v → GivesUnder nodes I (f v) q) : GivesUnder nodes I (x >>= f) q := by
  intro a met
  obtain ⟨v, u, ranFirst, metBetween, holds⟩ := first a met
  obtain ⟨w, b, ranNext, metAfter, result⟩ := next v holds u metBetween
  exact ⟨w, b, bind_eq_ok_iff.mpr ⟨v, u, ranFirst, ranNext⟩, metAfter, result⟩

theorem pure {v : α} (holds : p v) : GivesUnder nodes I (Pure.pure v) p :=
  fun a met => ⟨v, a, rfl, met, holds⟩

theorem bind_lift {r : Except Fault α} {v : α} {f : α → Exchange β} (ok : r = .ok v)
    (next : GivesUnder nodes I (f v) q) :
    GivesUnder nodes I ((liftM r : Exchange α) >>= f) q := by
  intro a met
  obtain ⟨w, b, ran, metAfter, result⟩ := next a met
  exact ⟨w, b, bind_eq_ok_iff.mpr ⟨v, a, liftM_eq_ok_iff.mpr ⟨ok, rfl⟩, ran⟩, metAfter, result⟩

theorem guard {c : Prop} [Decidable c] {f : Fault} {next : Unit → Exchange α} (unmet : ¬c)
    (along : GivesUnder nodes I (next ()) p) :
    GivesUnder nodes I (if c then fail f >>= next else next ()) p := by
  rw [if_neg unmet]
  exact along

end GivesUnder

/-- From every session that meets a condition, a computation goes on as another one does from a
session that meets it again. -/
def LeadsTo (nodes : Nodes) (I : Session → Prop) (x y : Exchange α) : Prop :=
  ∀ a, I a → ∃ b, I b ∧ x nodes a = y nodes b

namespace LeadsTo

variable {I : Session → Prop} {x : Exchange α} {p : α → Prop} {y z : Exchange β} {q : β → Prop}

theorem refl (x : Exchange α) : LeadsTo nodes I x x := fun a met => ⟨a, met, rfl⟩

theorem bind {f : α → Exchange β} (first : GivesUnder nodes I x p)
    (next : ∀ v, p v → LeadsTo nodes I (f v) z) : LeadsTo nodes I (x >>= f) z := by
  intro a met
  obtain ⟨v, u, ran, metBetween, holds⟩ := first a met
  obtain ⟨b, metAfter, same⟩ := next v holds u metBetween
  refine ⟨b, metAfter, ?_⟩
  rw [bind_apply, ran]
  exact same

theorem bind_lift {r : Except Fault α} {v : α} {f : α → Exchange β} (ok : r = .ok v)
    (next : LeadsTo nodes I (f v) z) : LeadsTo nodes I ((liftM r : Exchange α) >>= f) z := by
  rw [ok]
  exact next

theorem guard {c : Prop} [Decidable c] {f : Fault} {next : Unit → Exchange β} (unmet : ¬c)
    (along : LeadsTo nodes I (next ()) z) :
    LeadsTo nodes I (if c then fail f >>= next else next ()) z := by
  rw [if_neg unmet]
  exact along

theorem gives (leads : LeadsTo nodes I y z) (gives : GivesUnder nodes I z q) :
    GivesUnder nodes I y q := by
  intro a met
  obtain ⟨b, metBetween, same⟩ := leads a met
  rw [same]
  exact gives b metBetween

end LeadsTo

/-- Two computations give one value, which has a property, from every session. -/
def GivesAlike (nodes : Nodes) (x y : Exchange α) (p : α → Prop) : Prop :=
  ∀ a, ∃ v b c, x nodes a = (.ok v, b) ∧ y nodes a = (.ok v, c) ∧ p v

namespace GivesAlike

variable {x y : Exchange α} {p : α → Prop} {q : β → Prop}

theorem of_gives {p' : α → Prop} (left : Gives nodes x p) (right : Gives nodes y p')
    (unique : ∀ v w, p v → p' w → v = w) : GivesAlike nodes x y p := by
  intro a
  obtain ⟨v, b, ranLeft, holds⟩ := left a
  obtain ⟨w, c, ranRight, holds'⟩ := right a
  obtain rfl := unique v w holds holds'
  exact ⟨v, b, c, ranLeft, ranRight, holds⟩

theorem left (alike : GivesAlike nodes x y p) : Gives nodes x p := by
  intro a
  obtain ⟨v, b, -, ran, -, holds⟩ := alike a
  exact ⟨v, b, ran, holds⟩

/-- Computations that start with the same steps. -/
theorem bind_same {f g : α → Exchange β} (first : Gives nodes x p)
    (next : ∀ v, p v → GivesAlike nodes (f v) (g v) q) :
    GivesAlike nodes (x >>= f) (x >>= g) q := by
  intro a
  obtain ⟨v, u, ranFirst, holds⟩ := first a
  obtain ⟨w, b, c, ranLeft, ranRight, result⟩ := next v holds u
  exact ⟨w, b, c, bind_eq_ok_iff.mpr ⟨v, u, ranFirst, ranLeft⟩,
    bind_eq_ok_iff.mpr ⟨v, u, ranFirst, ranRight⟩, result⟩

/-- Computations that end with the same steps, which do not look at the session. -/
theorem bind_end {f : α → Exchange β} (first : GivesAlike nodes x y p)
    (next : ∀ v, p v → ∃ w, q w ∧ Gives nodes (f v) (· = w)) :
    GivesAlike nodes (x >>= f) (y >>= f) q := by
  intro a
  obtain ⟨v, b, c, ranLeft, ranRight, holds⟩ := first a
  obtain ⟨w, result, last⟩ := next v holds
  obtain ⟨_, b', endLeft, rfl⟩ := last b
  obtain ⟨_, c', endRight, rfl⟩ := last c
  exact ⟨_, b', c', bind_eq_ok_iff.mpr ⟨v, b, ranLeft, endLeft⟩,
    bind_eq_ok_iff.mpr ⟨v, c, ranRight, endRight⟩, result⟩

end GivesAlike

/-! ### Time -/

/-- The clock never shows that a time budget is spent. -/
def Lasts (nodes : Nodes) (d : Deadline) : Prop :=
  ∀ n, d.seconds.exceeds (nodes.clock n - d.started) = true

/-- The clock moves by less than a number of seconds. -/
def Patient (nodes : Nodes) (seconds : Number) : Prop :=
  ∀ m n, seconds.exceeds (nodes.clock n - nodes.clock m) = true

/-- Time that stands still is never spent. -/
theorem patient_of_still (still : ∀ n, nodes.clock n = 0) {seconds : Number}
    (time : seconds.exceeds 0 = true) : Patient nodes seconds := by
  intro m n
  rw [still, still, Rat.sub_self]
  exact time

theorem gives_start {seconds : Number} (patient : Patient nodes seconds) :
    Gives nodes (Deadline.start seconds) (Lasts nodes) :=
  fun a => ⟨_, _, rfl, patient a.clockReadings⟩

theorem gives_remaining {d : Deadline} (lasts : Lasts nodes d) :
    Gives nodes d.remaining fun _ => True := by
  have reading : Gives nodes readClock fun now => d.seconds.exceeds (now - d.started) = true :=
    fun a => ⟨_, _, rfl, lasts a.clockReadings⟩
  refine reading.bind fun now early => ?_
  dsimp only
  rw [if_pos early]
  exact .pure trivial

/-! ### Replies -/

/-- The beacon node of the settings answers every question for a path, with what has a property. -/
def Answers (s : Settings) (nodes : Nodes) (path : String) (p : Answer → Prop) : Prop :=
  ∃ base, Settings.nonEmpty? s.beaconUrl? = some base ∧ ∀ log q,
    q.url = Remote.trimSlashes base ++ path →
      ∃ answer, nodes.beacon log q = .answered answer ∧ answer.isError = false ∧ p answer

/-- The beacon node of the settings answers every question for a path with a value. -/
def Tells (s : Settings) (nodes : Nodes) (path : String) (data : Value) : Prop :=
  Answers s nodes path fun answer => BeaconNode.dataIn? path answer = .ok data

/-- The beacon node of the settings answers a question, whenever it is asked, with what has a
property. -/
def AnswersTo (s : Settings) (nodes : Nodes) (path : String) (parameter : Option (String × String))
    (accept : Option String) (p : Answer → Prop) : Prop :=
  ∃ base, Settings.nonEmpty? s.beaconUrl? = some base ∧ ∀ log q,
    q.url = Remote.trimSlashes base ++ path → q.parameter? = parameter → q.accept? = accept →
      ∃ answer, nodes.beacon log q = .answered answer ∧ answer.isError = false ∧ p answer

/-- The beacon node of the settings answers a question with a value, whenever it is asked. -/
def TellsTo (s : Settings) (nodes : Nodes) (path : String) (parameter : Option (String × String))
    (data : Value) : Prop :=
  AnswersTo s nodes path parameter none fun answer => BeaconNode.dataIn? path answer = .ok data

theorem Answers.to {path : String} {p : Answer → Prop} (answers : Answers s nodes path p)
    (parameter : Option (String × String)) (accept : Option String) :
    AnswersTo s nodes path parameter accept p := by
  obtain ⟨base, given, replies⟩ := answers
  exact ⟨base, given, fun log q url _ _ => replies log q url⟩

theorem Tells.to {path : String} {data : Value} (tells : Tells s nodes path data)
    (parameter : Option (String × String)) : TellsTo s nodes path parameter data :=
  Answers.to tells parameter none

section Questions

variable {path : String} {parameter : Option (String × String)} {accept : Option String}
  {p : Answer → Prop} {data : Value}

theorem gives_beaconNode (answers : AnswersTo s nodes path parameter accept p) :
    Gives nodes (beaconNode s) (IsBeaconNode s) := by
  obtain ⟨base, given, -⟩ := answers
  have some : base ≠ "" := by simpa using (Option.filter_eq_some_iff.mp given).2
  have url : s.requireBeaconUrl? = .ok base := by rw [Settings.requireBeaconUrl?, given]
  have made : BeaconNode.at? (.some base) none (.whole 60) =
      .ok ⟨Remote.trimSlashes base, .whole 60⟩ := by
    simp [BeaconNode.at?, some]
  refine .bind_lift url ?_
  exact .lift made ⟨_, given, rfl⟩

theorem gives_request {node : BeaconNode} (isNode : IsBeaconNode s node)
    (answers : AnswersTo s nodes path parameter accept p) (timeout : Option Number) :
    Gives nodes (node.request path parameter accept timeout) p := by
  intro a
  obtain ⟨base, given, url⟩ := isNode
  obtain ⟨base', given', replies⟩ := answers
  obtain rfl : base = base' := Option.some.inj (given.symm.trans given')
  obtain ⟨answer, replied, fine, holds⟩ := replies a.log
    ⟨node.baseUrl ++ path, parameter, accept, Remote.timeoutOr node.timeout timeout⟩ (by rw [url])
    rfl rfl
  exact ⟨answer, _, BeaconNode.request_eq_ok_iff.mpr ⟨_, rfl, replied, fine, rfl⟩, holds⟩

theorem gives_fetch {node : BeaconNode} (isNode : IsBeaconNode s node)
    (tells : TellsTo s nodes path parameter data) (timeout : Option Number) :
    Gives nodes (node.fetch path parameter timeout) (· = data) :=
  (gives_request isNode tells timeout).bind fun _ read => .lift read rfl

end Questions

/-! ### The network -/

/-- A service that has no execution node, and whose settings name a known network if any. -/
structure Alone (s : Settings) : Prop where
  unasked : executionNode? s = none
  known : ∃ n, s.networkOrMain? = .ok n

/-- Settings that name no network mean the main one. -/
theorem alone_of_unnamed (unasked : executionNode? s = none)
    (unnamed : Settings.nonEmpty? s.network? = none) : Alone s := by
  have lower : LowerCase.lower (Blank.trim Network.mainnet.name) = Network.mainnet.name := by decide
  refine ⟨unasked, Network.mainnet, ?_⟩
  rw [Settings.networkOrMain?, unnamed, Option.getD_none, Network.ofName?, lower]
  rfl

theorem gives_network (alone : Alone s) : Gives nodes (network s) fun _ => True := by
  have found : Gives nodes (findNetwork s) fun _ => True := by
    obtain ⟨n, known⟩ := alone.known
    rw [findNetwork, alone.unasked]
    have named : (Exchange.lift s.networkOrMain? : Exchange Network) =
        liftM s.networkOrMain? := rfl
    split
    · rw [named]
      exact .lift known trivial
    · exact .pure trivial
  intro a
  cases held : a.network? with
  | some n => exact ⟨n, a, network_of_known held, trivial⟩
  | none =>
    obtain ⟨n, u, ran, -⟩ := found a
    exact ⟨n, _, network_of_found held ran, trivial⟩

theorem gives_checkOracle (alone : Alone s) (timestamp : Int) (root : ByteArray) :
    Gives nodes (checkOracle s timestamp root) fun _ => True := by
  rw [checkOracle, alone.unasked]
  exact .pure trivial

/-- Under a condition on sessions, a network is found, and the execution node, if there is one, does
not deny that a block root belongs to the second in which a header's slot starts. -/
def Unhindered (s : Settings) (nodes : Nodes) (I : Session → Prop) (header : Record)
    (blockRoot : ByteArray) : Prop :=
  ∀ t, slotOf? header = .ok t → GivesUnder nodes I (network s) fun n =>
    GivesUnder nodes I (checkOracle s (slotStart t n.genesisTime) blockRoot) fun _ => True

theorem unhindered_of_alone (alone : Alone s) (header : Record) (blockRoot : ByteArray) :
    Unhindered s nodes (fun _ => True) header blockRoot := by
  intro t _
  refine givesUnder_true_iff.mpr fun a => ?_
  obtain ⟨n, b, ran, -⟩ := gives_network alone a
  exact ⟨n, b, ran, givesUnder_true_iff.mpr (gives_checkOracle alone _ _)⟩

/-! ### Blocks and states -/

/-- The beacon node of the settings tells a header that names a state root, and the header's
root. -/
structure TellsBlock (s : Settings) (nodes : Nodes) (header : Record)
    (blockRoot stateRoot : ByteArray) : Prop where
  fits : header.Fits .blockHeader
  hashed : header.root? = .ok blockRoot
  names : header.get "state_root" = .bytes stateRoot
  header : ∃ data, TellsTo s nodes ("/eth/v1/beacon/headers/" ++ finalized) none data ∧
    BeaconNode.headerIn? finalized data = .ok header
  root : ∃ data, TellsTo s nodes ("/eth/v1/beacon/blocks/" ++ finalized ++ "/root") none data ∧
    BeaconNode.rootIn? data = .ok blockRoot

/-- What the beacon node tells of a block does not depend on what the execution node replies. -/
theorem TellsBlock.with_execution {header : Record} {blockRoot stateRoot : ByteArray}
    (block : TellsBlock s nodes header blockRoot stateRoot)
    (execution : List Event → Call → CallReply) :
    TellsBlock s { nodes with execution } header blockRoot stateRoot :=
  ⟨block.fits, block.hashed, block.names, block.header, block.root⟩

/-- The beacon node of the settings gives the bytes of a state. -/
def GivesState (s : Settings) (nodes : Nodes) (body : ByteArray) : Prop :=
  AnswersTo s nodes ("/eth/v2/debug/beacon/states/" ++ finalized) none
    (some "application/octet-stream") (·.body = body)

/-- An anchor at a header: the root of the header, and the proof of the state root that it names. -/
structure AnchoredAt (header : Record) (blockRoot stateRoot : ByteArray) (anc : Anchor) : Prop where
  blockRoot : anc.blockRoot = blockRoot
  stateRoot : anc.stateRootProof.stateRoot = stateRoot
  proof : StateRootProof.ofHeader? header = .ok anc.stateRootProof

theorem slotOf?_of_fits {header : Record} (fits : header.Fits .blockHeader) :
    ∃ t, slotOf? header = .ok t ∧ 0 ≤ t ∧ t < twoTo 64 := by
  obtain ⟨n, isInt, bounds⟩ := FieldKind.holds_uint64_iff.mp (fits.holds (by decide) (k := 0) rfl)
  exact ⟨n, by rw [slotOf?, isInt]; rfl, bounds⟩

section Block

variable {d : Deadline} {header : Record} {blockRoot stateRoot body : ByteArray} {state : Snapshot}
  {c : Composer}

/-- What is left of an anchor once a header and the root of its block have been told. -/
def anchorAt (s : Settings) (header : Record) (blockRoot : ByteArray) :
    Exchange (Record × Anchor) := do
  let genesisTime := (← network s).genesisTime
  let timestamp := slotStart (← slotOf? header) genesisTime
  checkOracle s timestamp blockRoot
  let proof ← StateRootProof.ofHeader? header
  if !proof.holds blockRoot then fail .stateRootUnproven
  return (header, ⟨timestamp, blockRoot, proof⟩)

/-- A node that tells a block with its root leaves only the network and the execution node to be
asked. -/
theorem anchor_leadsTo {I : Session → Prop} (kept : Kept s nodes I) (lasts : Lasts nodes d)
    (block : TellsBlock s nodes header blockRoot stateRoot) :
    LeadsTo nodes I (anchor s d) (anchorAt s header blockRoot) := by
  obtain ⟨data, tells, read⟩ := block.header
  obtain ⟨rootData, tellsRoot, readRoot⟩ := block.root
  have time : GivesUnder nodes I d.remaining fun _ => True :=
    .of_gives kept (walks_remaining d) (gives_remaining lasts)
  refine .bind (.of_gives kept walks_beaconNode (gives_beaconNode tells)) fun node isNode => ?_
  have tellsHeader (left : Number) : Gives nodes (node.blockHeader finalized (some left))
      (· = header) := .bind_eq (gives_fetch isNode tells _) (.lift read rfl)
  have tellsBlockRoot (left : Number) : Gives nodes (node.blockRoot finalized (some left))
      (· = blockRoot) := .bind_eq (gives_fetch isNode tellsRoot _) (.lift readRoot rfl)
  refine .bind time fun left _ => ?_
  refine .bind (.of_gives kept (walks_blockHeader node _ _) (tellsHeader left)) ?_
  rintro _ rfl
  refine .bind time fun left _ => ?_
  refine .bind (.of_gives kept (walks_blockRoot node _ _) (tellsBlockRoot left)) ?_
  rintro _ rfl
  refine .bind_lift block.hashed ?_
  exact .guard (by simp) (.refl _)

theorem givesUnder_anchor {I : Session → Prop} (kept : Kept s nodes I) (lasts : Lasts nodes d)
    (free : Unhindered s nodes I header blockRoot)
    (block : TellsBlock s nodes header blockRoot stateRoot) :
    GivesUnder nodes I (anchor s d) fun r => AnchoredAt header blockRoot stateRoot r.2 := by
  obtain ⟨t, slot, -⟩ := slotOf?_of_fits block.fits
  obtain ⟨top, made, same, -, holds⟩ :=
    StateRootProof.ofHeader?_complete block.fits.isA block.hashed block.names
  refine (anchor_leadsTo kept lasts block).gives ?_
  refine (free t slot).bind fun n unrefuted => ?_
  refine .bind_lift slot ?_
  refine unrefuted.bind fun _ _ => ?_
  refine .bind_lift made ?_
  exact .guard (by simp [holds]) (.pure ⟨rfl, same, made⟩)

theorem gives_anchor (lasts : Lasts nodes d) (alone : Alone s)
    (block : TellsBlock s nodes header blockRoot stateRoot) :
    Gives nodes (anchor s d) fun r => AnchoredAt header blockRoot stateRoot r.2 :=
  givesUnder_true_iff.mp (givesUnder_anchor (fun _ _ _ => id) lasts
    (unhindered_of_alone alone header blockRoot) block)

theorem gives_composer (lasts : Lasts nodes d) (given : GivesState s nodes body)
    (read : Snapshot.decode? body = .ok state) (built : Composer.ofSnapshot? state = .ok c) :
    Gives nodes (composer s c.stateRoot d) (· = c) := by
  refine (gives_beaconNode given).bind fun node isNode => ?_
  refine (gives_remaining lasts).bind fun left _ => ?_
  refine .bind_eq ((gives_request isNode given _).bind fun _ same => .pure same) ?_
  refine .bind_lift read ?_
  refine .bind_lift built ?_
  exact .guard (by simp) (.pure rfl)

end Block

end BeaconBranch.Service
