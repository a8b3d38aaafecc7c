import BeaconBranch.Command.Run
import BeaconBranch.Proofs.Command.Words
import BeaconBranch.Proofs.Service.Consistent

/-!
Ends of commands. Every command line ends with a transcript: with exit code 2 if it makes no sense,
with 1 if it fails, and else with 0. Main statements: how a command line ends, and that a command
that fails shows no result; and that proofs that are printed or written to a file are consistent.
-/

namespace BeaconBranch.Command

open Exchange Service

variable {nodes : Nodes} {a b : Session} {t : Transcript} {c : Common} {s : Settings}
  {files : String → Option ByteArray} {environment : String → Option String} {words : List String}
  {task : Task}

/-! ### Transcripts -/

/-- A transcript in order: a failure has no output and starts no server, a success has no message,
and a result stands in one place only. -/
structure Orderly (t : Transcript) : Prop where
  exit : t.exit = 0 ∨ t.exit = 1
  failure : t.exit = 1 → t.out = "" ∧ t.server? = none
  success : t.exit = 0 → t.err = ""
  once : t.file? ≠ none → t.out = ""

/-- A failure without output is in order, with any messages. -/
theorem orderly_failure (err : String) (shown : List Block) (file? : Option (String × String)) :
    Orderly { exit := 1, err := err, shown := shown, file? := file? } :=
  ⟨.inr rfl, fun _ => ⟨rfl, rfl⟩, nofun, fun _ => rfl⟩

theorem orderly_ofFault (f : Fault) : Orderly (.ofFault f) := by
  rw [Transcript.ofFault]
  split
  · exact orderly_failure _ [] none
  · exact orderly_failure "" [] none

theorem exit_ofFault (f : Fault) : (Transcript.ofFault f).exit = 1 := by
  rw [Transcript.ofFault]
  split <;> rfl

theorem Orderly.showFirst (orderly : Orderly t) (shown : Block) : Orderly (t.showFirst shown) :=
  ⟨orderly.exit, orderly.failure, orderly.success, orderly.once⟩

theorem orderly_shown (shown : List Block) : Orderly { shown := shown } :=
  ⟨.inl rfl, nofun, fun _ => rfl, fun named => absurd rfl named⟩

section Emit

variable {es : List (String × Value)} {title : String} {output? : Option String} {asTable : Bool}

theorem orderly_emit : Orderly (emit es title output? asTable) := by
  unfold emit
  cases asTable with
  | true =>
    cases resultTable? title es with
    | ok table => exact ⟨.inl rfl, nofun, fun _ => rfl, fun _ => rfl⟩
    | error f => exact orderly_failure "" _ _
  | false =>
    refine ⟨.inl rfl, nofun, fun _ => rfl, fun named => ?_⟩
    cases output? with
    | none => exact absurd rfl named
    | some path => rfl

/-- Where a result stands: in the file that is named, or else in the output. -/
theorem emit_spec : (emit es title output? asTable).file? =
      output?.map (fun path => (path, Json.renderPretty (.object es))) ∧
    (output? = none → asTable = false →
      (emit es title output? asTable).out = Json.renderPretty (.object es) ++ "\n") := by
  unfold emit
  cases asTable with
  | true =>
    refine ⟨?_, nofun⟩
    cases resultTable? title es <;> rfl
  | false =>
    refine ⟨rfl, ?_⟩
    rintro rfl -
    rfl

/-- A result fails to be shown exactly if its table cannot be drawn. -/
theorem exit_emit_iff : (emit es title output? asTable).exit = 0 ↔
    (asTable = true → ∃ table, resultTable? title es = .ok table) := by
  unfold emit
  cases asTable with
  | true =>
    cases resultTable? title es <;> simp
  | false => simp

end Emit

/-! ### Commands -/

section Report

variable {title : String} {x : Exchange Value}

theorem report_of_ok {v : Value} (ran : x nodes a = (.ok v, b)) : report c title x nodes a =
    (.ok (emit (entriesOf v) title c.file? (c.layout == .table)), b) := by
  rw [report, bind_apply, attempt, ran]
  rfl

theorem report_of_error {f : Fault} (ran : x nodes a = (.error f, b)) :
    report c title x nodes a = (.ok (.ofFault f), b) := by
  rw [report, bind_apply, attempt, ran]
  rfl

theorem exists_report (title : String) (x : Exchange Value) :
    ∃ t b, report c title x nodes a = (.ok t, b) ∧ Orderly t := by
  rcases ran : x nodes a with ⟨f | v, b⟩
  · exact ⟨_, b, report_of_error ran, orderly_ofFault f⟩
  · exact ⟨_, b, report_of_ok ran, orderly_emit⟩

/-- A computation is reported well exactly if it gave a document that can be shown. -/
theorem exit_report_iff (reported : report c title x nodes a = (.ok t, b)) :
    t.exit = 0 ↔ ∃ v, x nodes a = (.ok v, b) ∧
      (c.layout = .table → ∃ table, resultTable? title (entriesOf v) = .ok table) := by
  rcases ran : x nodes a with ⟨f | v, u⟩
  · cases reported.symm.trans (report_of_error ran)
    simp [exit_ofFault]
  · cases reported.symm.trans (report_of_ok ran)
    rw [exit_emit_iff, beq_iff_eq]
    simp

end Report

theorem exists_runStatus (address : String) (indices : List Int) :
    ∃ t b, runStatus c s address indices nodes a = (.ok t, b) ∧ Orderly t := by
  rw [runStatus, bind_apply, attempt]
  rcases ran : Pod.report s address indices nodes a with ⟨f | r, b⟩
  · exact ⟨_, b, rfl, orderly_ofFault f⟩
  · dsimp only
    split
    · exact ⟨_, b, rfl, orderly_emit⟩
    · cases podTable? r with
      | ok blocks => exact ⟨_, b, rfl, orderly_shown blocks⟩
      | error f => exact ⟨_, b, rfl, orderly_ofFault f⟩

theorem orderly_inspectionFailed (f : Fault) : Orderly (inspectionFailed c f) := by
  rw [inspectionFailed]
  split
  · exact orderly_failure "" [] none
  · exact orderly_failure "" _ none

theorem orderly_runInspect (file : String) (data : ByteArray) (index? : Option Int) :
    Orderly (runInspect c file data index?) := by
  refine Orderly.showFirst ?_ _
  split
  · exact orderly_inspectionFailed _
  · refine Orderly.showFirst ?_ _
    split
    · exact orderly_shown []
    · split
      · exact orderly_inspectionFailed _
      · exact orderly_emit

/-- Every task ends with a transcript in order. -/
theorem exists_perform (task : Task) :
    ∃ t b, perform files c s task nodes a = (.ok t, b) ∧ Orderly t := by
  cases task with
  | credentials indices => exact exists_report _ _
  | checkpoint indices => exact exists_report _ _
  | staleBalance index => exact exists_report _ _
  | status address indices => exact exists_runStatus address indices
  | inspect file index? => exact ⟨_, a, rfl, orderly_runInspect _ _ _⟩
  | serve host port dev =>
    exact ⟨_, a, rfl, .inl rfl, nofun, fun _ => rfl, fun named => absurd rfl named⟩

theorem orderly_of_perform (ran : perform files c s task nodes a = (.ok t, b)) : Orderly t := by
  obtain ⟨t', b', performed, orderly⟩ := @exists_perform nodes a c s files task
  cases ran.symm.trans performed
  exact orderly

/-! ### Command lines -/

/-- The task of a command line, with its options and settings. -/
structure Meant (environment : String → Option String) (files : String → Option ByteArray)
    (words : List String) (c : Common) (s : Settings) (task : Task) : Prop where
  valid : task.Valid
  isThere : ∀ file index?, task = .inspect file index? → (files file).isSome = true
  settings : settings? environment c = .ok s
  said : ∃ verb rest w, heading? environment words = some (c, verb, rest) ∧
    readWords? (specsOf verb) false rest = some w ∧
    task? (fun f => (files f).isSome) verb w = some task

/-- A command line without sense: no command, or words that make no task of it. -/
def Senseless (environment : String → Option String) (files : String → Option ByteArray)
    (words : List String) : Prop :=
  heading? environment words = none ∨ ∃ c verb rest s,
    heading? environment words = some (c, verb, rest) ∧ settings? environment c = .ok s ∧
    ∀ w, readWords? (specsOf verb) false rest = some w →
      task? (fun f => (files f).isSome) verb w = none

/-- How a command line ends, and the session behind it. -/
inductive Ending (environment : String → Option String) (files : String → Option ByteArray)
    (words : List String) (nodes : Nodes) (a : Session) : Transcript → Session → Prop
  | usage (senseless : Senseless environment files words) :
      Ending environment files words nodes a .usage a
  | unset {c : Common} {verb : Verb} {rest : List String} {f : Fault}
      (headed : heading? environment words = some (c, verb, rest))
      (failed : settings? environment c = .error f) :
      Ending environment files words nodes a (.ofFault f) a
  | performed {c : Common} {s : Settings} {task : Task} {t : Transcript} {b : Session}
      (meant : Meant environment files words c s task)
      (ran : perform files c s task nodes a = (.ok t, b)) :
      Ending environment files words nodes a t b

/-- Every command line ends in one of these ways. -/
theorem ending_of_run {result : Except Fault Transcript}
    (ran : run environment files words nodes a = (result, b)) :
    ∃ t, result = .ok t ∧ Ending environment files words nodes a t b := by
  rw [run] at ran
  cases headed : heading? environment words with
  | none =>
    rw [headed] at ran
    cases ran
    exact ⟨_, rfl, .usage (.inl headed)⟩
  | some heading =>
    obtain ⟨c, verb, rest⟩ := heading
    simp only [headed] at ran
    cases set : settings? environment c with
    | error f =>
      simp only [set] at ran
      cases ran
      exact ⟨_, rfl, .unset headed set⟩
    | ok s =>
      simp only [set] at ran
      cases made : (readWords? (specsOf verb) false rest).bind
          (task? (fun f => (files f).isSome) verb) with
      | none =>
        simp only [made] at ran
        cases ran
        refine ⟨_, rfl, .usage (.inr ⟨c, verb, rest, s, headed, set, fun w read => ?_⟩)⟩
        rwa [read] at made
      | some task =>
        simp only [made] at ran
        obtain ⟨w, read, isTask⟩ := Option.bind_eq_some_iff.mp made
        obtain ⟨valid, isThere⟩ := valid_of_task? isTask
        obtain ⟨t, u, performed, -⟩ := @exists_perform nodes a c s files task
        cases ran.symm.trans performed
        exact ⟨t, rfl, .performed ⟨valid, isThere, set, verb, rest, w, headed, read, isTask⟩
          performed⟩

namespace Ending

/-- Unless it makes no sense, a command line ends in order. -/
theorem usage_or_orderly (ending : Ending environment files words nodes a t b) :
    t = .usage ∨ Orderly t := by
  cases ending with
  | usage => exact .inl rfl
  | unset => exact .inr (orderly_ofFault _)
  | performed _ ran => exact .inr (orderly_of_perform ran)

/-- Exit code 2 is that of command lines without sense, and of no others. -/
theorem exit_eq_two_iff (ending : Ending environment files words nodes a t b) :
    t.exit = 2 ↔ Senseless environment files words := by
  have sensible : ∀ {t}, Orderly t → t.exit ≠ 2 := by
    intro t orderly
    have exit := orderly.exit
    omega
  cases ending with
  | usage senseless => simp [Transcript.usage, senseless]
  | unset headed failed =>
    refine ⟨fun two => absurd two (sensible (orderly_ofFault _)), ?_⟩
    rintro (none | ⟨c, verb, rest, s, headed', set, -⟩)
    · cases headed.symm.trans none
    · cases headed.symm.trans headed'
      cases failed.symm.trans set
  | performed meant ran =>
    obtain ⟨verb, rest, w, headed, read, isTask⟩ := meant.said
    refine ⟨fun two => absurd two (sensible (orderly_of_perform ran)), ?_⟩
    rintro (none | ⟨c', verb', rest', s', headed', -, noTask⟩)
    · cases headed.symm.trans none
    · cases headed.symm.trans headed'
      cases isTask.symm.trans (noTask w read)

end Ending

/-! ### Proofs -/

/-- The document of a task that proves something: it is that of a consistent proof. -/
inductive Proves (s : Settings) (nodes : Nodes) (a b : Session) : Task → Value → Prop
  | credentials {indices : List Int} {proof : CredentialProof} {v : Value}
      (consistent : CredentialConsistent s nodes a b indices proof)
      (shown : proof.toValue? = .ok v) : Proves s nodes a b (.credentials indices) v
  | checkpoint {indices : List Int} {proof : CheckpointProof}
      (consistent : CheckpointConsistent s nodes a b indices proof) :
      Proves s nodes a b (.checkpoint indices) proof.toValue
  | staleBalance {index : Int} {proof : StaleBalanceProof} {v : Value}
      (consistent : StaleBalanceConsistent s nodes a b index proof)
      (shown : proof.toValue? = .ok v) : Proves s nodes a b (.staleBalance index) v

/-- A task that proves something. -/
def Task.isProof : Task → Bool
  | .credentials _ | .checkpoint _ | .staleBalance _ => true
  | .status .. | .inspect .. | .serve .. => false

/-- The documents of proofs are objects. -/
theorem Proves.object {v : Value} (proves : Proves s nodes a b task v) :
    .object (entriesOf v) = v := by
  cases proves with
  | credentials consistent shown =>
    obtain ⟨proofs, -, same⟩ := Outcome.bind_eq_ok_iff.mp shown
    cases same
    rfl
  | checkpoint => rfl
  | staleBalance consistent shown =>
    obtain ⟨proof, -, same⟩ := Outcome.bind_eq_ok_iff.mp shown
    cases same
    rfl

/-- The result of a command is this document: it is written to the file that is named, or else it is
the output, if no table is asked for. -/
structure Shows (c : Common) (t : Transcript) (v : Value) : Prop where
  file : ∀ path, c.file? = some path → t.file? = some (path, Json.renderPretty v)
  out : c.file? = none → c.layout = .json → t.out = Json.renderPretty v ++ "\n"

/-- A task that proves something and does not fail shows a consistent proof. -/
theorem shows_of_perform (settled : Settled s nodes a) (proof : task.isProof = true)
    (ran : perform files c s task nodes a = (.ok t, b)) (done : t.exit = 0) :
    ∃ v, Proves s nodes a b task v ∧ Shows c t v := by
  have shown : ∀ {title : String} {x : Exchange Value},
      report c title x nodes a = (.ok t, b) →
      (∀ v, x nodes a = (.ok v, b) → Proves s nodes a b task v) →
      ∃ v, Proves s nodes a b task v ∧ Shows c t v := by
    intro title x reported proves
    rcases made : x nodes a with ⟨f | v, u⟩
    · cases reported.symm.trans (report_of_error made)
      cases (exit_ofFault f).symm.trans done
    · cases reported.symm.trans (report_of_ok made)
      have isProof := proves v made
      obtain ⟨file, out⟩ := @emit_spec (entriesOf v) title c.file? (c.layout == .table)
      rw [isProof.object] at file out
      refine ⟨v, isProof, fun path named => by rw [file, named]; rfl, fun unnamed json => ?_⟩
      exact out unnamed (by rw [json]; rfl)
  cases task with
  | credentials indices =>
    refine shown ran fun v made => ?_
    obtain ⟨proof, u, proved, last⟩ := bind_eq_ok_iff.mp made
    obtain ⟨told, rfl⟩ := liftM_eq_ok_iff.mp last
    exact .credentials (credentialProof_consistent settled proved) told
  | checkpoint indices =>
    refine shown ran fun v made => ?_
    obtain ⟨proof, u, proved, last⟩ := bind_eq_ok_iff.mp made
    obtain ⟨rfl, rfl⟩ := Exchange.pure_eq_ok_iff.mp last
    exact .checkpoint (checkpointProof_consistent settled proved)
  | staleBalance index =>
    refine shown ran fun v made => ?_
    obtain ⟨proof, u, proved, last⟩ := bind_eq_ok_iff.mp made
    obtain ⟨told, rfl⟩ := liftM_eq_ok_iff.mp last
    exact .staleBalance (staleBalanceProof_consistent settled proved) told
  | status | inspect | serve => cases proof

/-- Every command line ends; if it ends well, it has a task, and if this proves something, a
consistent proof is shown. -/
theorem run_ends (environment : String → Option String) (files : String → Option ByteArray)
    (words : List String) (nodes : Nodes) :
    ∃ t b, run environment files words nodes .start = (.ok t, b) ∧ t.exit ≤ 2 ∧
      (t.exit = 0 → ∃ c s task, Meant environment files words c s task ∧
        (task.isProof = true → ∃ v, Proves s nodes .start b task v ∧ Shows c t v)) := by
  rcases ran : run environment files words nodes .start with ⟨result, b⟩
  obtain ⟨t, rfl, ending⟩ := ending_of_run ran
  refine ⟨t, b, rfl, ?_, fun done => ?_⟩
  · rcases ending.usage_or_orderly with rfl | orderly
    · exact Nat.le_refl 2
    · have exit := orderly.exit
      omega
  · cases ending with
    | usage => cases done
    | unset => cases (exit_ofFault _).symm.trans done
    | performed meant performed =>
      exact ⟨_, _, _, meant, fun proof =>
        shows_of_perform (settled_start _ nodes) proof performed done⟩

end BeaconBranch.Command
