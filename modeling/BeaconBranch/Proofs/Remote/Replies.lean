import BeaconBranch.Proofs.Record.Sound
import BeaconBranch.Proofs.Record.Spelling
import BeaconBranch.Proofs.Service.Telling

/-!
Replies about headers and validators. Main statements: a record is read from every object that
spells it; and whatever the reply, it is refused as a fault of the node, unless it is nested too
deeply, or it is read as the record of what its entries say. Nothing compares these values with the
fields, so that the record is sound only if they may stand there.
-/

namespace BeaconBranch.BeaconNode

open Outcome Record Remote

/-! ### Validators -/

/-- The value in a description that tells the validator: its entry, or else all of it. -/
def described (outer : List (String × Value)) : Value :=
  (Value.lookup "validator" outer).getD (.object outer)

theorem validatorIn?_eq (outer : List (String × Value)) : validatorIn? (.object outer) =
    match ofJson? .validator (described outer) with
    | .ok v => .ok v
    | .error f => .error (.malformedValidator f.text) := rfl

theorem validatorIn?_eq_ok_iff {outer : List (String × Value)} {v : Record} :
    validatorIn? (.object outer) = .ok v ↔ ofJson? .validator (described outer) = .ok v := by
  rw [validatorIn?_eq]
  cases ofJson? .validator (described outer) <;> simp

/-- Validators and block headers are read from every object that spells them; a validator is read
alike from a description, whether the object stands inside it or is all of it. -/
theorem records_parsed :
    (∀ (v : Record) (es : List (String × Value)), v.Fits .validator → v.SpelledIn es →
      ofJson? .validator (.object es) = .ok v ∧ validatorIn? (.object es) = .ok v ∧
      ∀ outer, Value.lookup "validator" outer = some (.object es) →
        validatorIn? (.object outer) = .ok v) ∧
    ∀ (h : Record) (es : List (String × Value)), h.Fits .blockHeader → h.SpelledIn es →
      ofJson? .blockHeader (.object es) = .ok h := by
  refine ⟨fun v es fits spelled => ?_, fun h es fits spelled =>
    ofJson?_of_spelledIn spellable_blockHeader fits spelled⟩
  have read := ofJson?_of_spelledIn spellable_validator fits spelled
  refine ⟨read, validatorIn?_eq_ok_iff.mpr ?_, fun outer inside => validatorIn?_eq_ok_iff.mpr ?_⟩
  · have foreign : fieldName "validator" ∉ Schema.validator.fields.map (·.name) := by
      rw [fieldName_of_isSnake (by decide) (by decide)]
      decide
    rw [described, lookup_of_spelledIn spellable_validator fits spelled foreign, Option.getD_none,
      read]
  · rw [described, inside, Option.getD_some, read]

/-- A header with a root of other digits than zeros. -/
def mixedHeader : Record :=
  ⟨.blockHeader, [.int 123, .int 18446744073709551615, .bytes (Bytes.zeros 32),
    .bytes ⟨Array.replicate 32 0xab⟩, .bytes (Bytes.zeros 32)]⟩

/-- An object that spells it in its own way, from the last field to the first. -/
def mixedEntries : List (String × Value) :=
  [("bodyRoot", .text (Hex.marked (Bytes.zeros 32))),
    ("stateRoot", .text ("0x" ++ String.ofList (List.replicate 32 ['a', 'B']).flatten)),
    ("parentBlockRoot", .text (Hex.marked (Bytes.zeros 32))),
    ("proposer_index", .text "18446744073709551615"), ("slot", .text "123")]

theorem fits_mixedHeader : mixedHeader.Fits .blockHeader :=
  ⟨rfl, .cons ⟨by decide, by decide +kernel⟩ <| .cons ⟨by decide, by decide +kernel⟩ <|
    .cons (Bytes.size_zeros 32) <| .cons rfl <| .cons (Bytes.size_zeros 32) .nil⟩

theorem spelledIn_mixedEntries : mixedHeader.SpelledIn mixedEntries := by
  refine ⟨mixedEntries.reverse, (List.reverse_perm _).symm, ?_⟩
  have zeros : Tells (.text (Hex.marked (Bytes.zeros 32))) (.bytes (Bytes.zeros 32)) :=
    .bytes _ (Hex.toList_marked _) (Hex.map_toLower_digits _)
  have mixed : Tells (.text ("0x" ++ String.ofList (List.replicate 32 ['a', 'B']).flatten))
      (.bytes ⟨Array.replicate 32 0xab⟩) :=
    @Tells.bytes _ (List.replicate 32 ['a', 'B']).flatten _ (by simp) (by decide)
  exact .cons ⟨.snake "slot", .number 123⟩ <|
    .cons ⟨.snake "proposer_index", .number 18446744073709551615⟩ <|
    .cons ⟨.camelBlock, zeros⟩ <| .cons ⟨.camel "state_root", mixed⟩ <|
    .cons ⟨.camel "body_root", zeros⟩ .nil

theorem records_parsed_mixed :
    ofJson? .blockHeader (.object mixedEntries) = .ok mixedHeader ∧
    validatorIn? (.object (zero .validator).told) = .ok (zero .validator) :=
  ⟨records_parsed.2 mixedHeader mixedEntries fits_mixedHeader spelledIn_mixedEntries,
    (records_parsed.1 (zero .validator) _ (fits_zero _) (spelledIn_told (fits_zero _))).2.1⟩

/-! ### Bodies -/

/-- A value has another one behind keys, from the outside in. -/
def Leads : List String → Value → Value → Prop
  | [], v, w => v = w
  | key :: keys, v, w => ∃ es u, v = .object es ∧ Value.lookup key es = some u ∧ Leads keys u w

theorem atKey?_eq_ok_iff {key : String} {v u : Value} :
    v.atKey? key = .ok u ↔ ∃ es, v = .object es ∧ Value.lookup key es = some u := by
  cases v with
  | object es => cases found : Value.lookup key es <;> simp [Value.atKey?, found]
  | null | flag | int | real | text | bytes | list => simp [Value.atKey?]

theorem data?_eq_some_iff {v u : Value} :
    data? v = some u ↔ ∃ es, v = .object es ∧ Value.lookup "data" es = some u := by
  cases v <;> simp [data?]

/-- The `data` entry of an answer is read, or it is not there, or the body is nested too deeply. -/
theorem dataIn?_spec (path : String) (a : Answer) :
    (a.json = .error .tooDeep ∧ dataIn? path a = .error (.misuse .tooDeep)) ∨
    (∃ v d, a.json = .ok v ∧ data? v = some d ∧ dataIn? path a = .ok d) ∨
    (¬∃ v d, a.json = .ok v ∧ data? v = some d) ∧
      ∃ f, dataIn? path a = .error f ∧ f.kind = .beaconNode := by
  rw [dataIn?]
  cases parsed : a.json with
  | error problem =>
    cases problem with
    | tooDeep => exact .inl ⟨rfl, rfl⟩
    | malformed | numberTooLong =>
      refine .inr (.inr ⟨?_, _, rfl, rfl⟩)
      rintro ⟨_, _, ⟨⟩, -⟩
  | ok v =>
    dsimp only
    cases entry : data? v with
    | some d => exact .inr (.inl ⟨v, d, rfl, entry, rfl⟩)
    | none =>
      refine .inr (.inr ⟨?_, .beaconNoData, rfl, rfl⟩)
      rintro ⟨_, d, ⟨⟩, found⟩
      rw [entry] at found
      cases found

theorem headerIn?_eq_ok_iff {block : String} {d : Value} {h : Record} :
    headerIn? block d = .ok h ↔
      ∃ v, Leads ["header", "message"] d v ∧ ofJson? .blockHeader v = .ok h := by
  have parsed : headerIn? block d = .ok h ↔
      (do ofJson? .blockHeader (← (← d.atKey? "header").atKey? "message")) = .ok h := by
    -- Every fault of the parse becomes one of the node, so both sides fail together.
    rw [headerIn?]
    split
    · rename_i read
      rw [read]
    · rename_i refused
      rw [refused]
      exact iff_of_false (by rintro ⟨⟩) (by rintro ⟨⟩)
  simp only [parsed, bind_eq_ok_iff, atKey?_eq_ok_iff, Leads]
  constructor
  · rintro ⟨u, ⟨es, rfl, outer⟩, v, ⟨fs, rfl, inner⟩, read⟩
    exact ⟨v, ⟨es, _, rfl, outer, fs, v, rfl, inner, rfl⟩, read⟩
  · rintro ⟨v, ⟨es, u, rfl, outer, fs, w, rfl, inner, rfl⟩, read⟩
    exact ⟨_, ⟨es, rfl, outer⟩, w, ⟨fs, rfl, inner⟩, read⟩

/-- A computation that fails only as a fault of the beacon node. -/
abbrev NodeOnly (x : Except Fault Record) : Prop :=
  FailsOnly (fun f : Fault => f.kind = .beaconNode) x

theorem nodeOnly_headerIn? (block : String) (d : Value) : NodeOnly (headerIn? block d) := by
  rw [headerIn?]
  split
  · exact .ok _
  · exact .error rfl

theorem nodeOnly_validatorIn? (outer : List (String × Value)) :
    NodeOnly (validatorIn? (.object outer)) := by
  rw [validatorIn?_eq]
  split
  · exact .ok _
  · exact .error rfl

/-! ### What is read -/

/-- A reply is reported for what it is: by a record that is sound, or as a fault of the node. -/
def Reported (s : Schema) (x : Except Fault Record) : Prop :=
  (∃ r, x = .ok r ∧ r.Sound s) ∨ ∃ f, x = .error f ∧ f.kind = .beaconNode

/-- A record that is read from a value, or refused as a fault of the node. It is the record of what
the entries say, and the reply is reported for what it is exactly if that may stand in the
fields. -/
structure Judged (s : Schema) (From : Value → Prop) (x : Except Fault Record) : Prop where
  refused : ∀ f, x = .error f → f.kind = .beaconNode
  returned : ∀ r, x = .ok r ↔ ∃ es, From (.object es) ∧
    (∀ e ∈ es, Legible (fieldName e.1) e.2) ∧ r.schema = s ∧
    List.Forall₂ (fun f v => valueFrom? es f = some v) s.fields r.values
  reported : Reported s x ↔ ∀ r, x = .ok r → List.Forall₂ Field.Bears s.fields r.values

theorem judged_of_ofJson? {s : Schema} {From : Value → Prop} {x : Except Fault Record}
    (regular : s.Regular) (only : NodeOnly x)
    (read : ∀ r, x = .ok r ↔ ∃ v, From v ∧ ofJson? s v = .ok r) : Judged s From x where
  refused := only
  returned r := by
    rw [read]
    constructor
    · rintro ⟨v, fromHere, made⟩
      cases v with
      | object es => exact ⟨es, fromHere, ofJson?_eq_ok_iff.mp made⟩
      | null | flag | int | real | text | bytes | list => cases made
    · rintro ⟨es, fromHere, made⟩
      exact ⟨.object es, fromHere, ofJson?_eq_ok_iff.mpr made⟩
  reported := by
    constructor
    · rintro (⟨r, ok, sound⟩ | ⟨f, error, -⟩) r' ok'
      · obtain rfl := Except.ok.inj (ok.symm.trans ok')
        exact sound.values
      · cases error.symm.trans ok'
    · intro bears
      rcases only.eq_ok_or with ⟨r, ok⟩ | refused
      · obtain ⟨v, -, made⟩ := (read r).mp ok
        exact .inl ⟨r, ok, (sound_iff regular (isA_of_ofJson? made).schema).mpr (bears r ok)⟩
      · exact .inr refused

theorem judged_header {path block : String} {a : Answer} (shallow : a.json ≠ .error .tooDeep) :
    Judged .blockHeader
      (fun v => ∃ reply, a.json = .ok reply ∧ Leads ["data", "header", "message"] reply v)
      (dataIn? path a >>= headerIn? block) := by
  rcases dataIn?_spec path a with ⟨deep, -⟩ | ⟨v, d, parsed, entry, ok⟩ | ⟨none, f, error, kind⟩
  · exact absurd deep shallow
  · obtain ⟨es, rfl, found⟩ := data?_eq_some_iff.mp entry
    rw [ok, ok_bind]
    refine judged_of_ofJson? (by decide) (nodeOnly_headerIn? block d) fun r => ?_
    rw [headerIn?_eq_ok_iff, parsed]
    refine exists_congr fun v => and_congr_left fun _ => ?_
    constructor
    · exact fun leads => ⟨_, rfl, es, d, rfl, found, leads⟩
    · rintro ⟨_, ⟨⟩, es', u, ⟨⟩, found', leads⟩
      rwa [Option.some.inj (found.symm.trans found')]
  · rw [error, error_bind]
    refine judged_of_ofJson? (by decide) (.error kind) fun r => iff_of_false (by rintro ⟨⟩) ?_
    rintro ⟨v, ⟨reply, parsed, es, d, rfl, found, -⟩, -⟩
    exact none ⟨_, d, parsed, data?_eq_some_iff.mpr ⟨es, rfl, found⟩⟩

/-! ### Requests -/

variable {n : BeaconNode} {block : String} {timeout : Option Number} {nodes : Nodes}
  {session : Session} {answer : Answer}

/-- The path of a block's header. -/
def headerPath (block : String) : String := "/eth/v1/beacon/headers/" ++ block

/-- The question for a block's header. -/
def headerQuery (n : BeaconNode) (block : String) (timeout : Option Number) : Query :=
  ⟨n.baseUrl ++ headerPath block, none, none, timeoutOr n.timeout timeout⟩

theorem blockHeader_of_answered (answered : nodes.beacon session.log (n.headerQuery block timeout) =
      .answered answer) :
    (n.blockHeader block timeout nodes session).1 =
      if answer.isError then
        .error (.beaconStatus answer.status (headerPath block) (excerpt answer.text))
      else dataIn? (headerPath block) answer >>= headerIn? block := by
  have run : n.blockHeader block timeout = n.fetch (headerPath block) none timeout >>=
      fun d => liftM (headerIn? block d) := rfl
  rw [run, Exchange.fst_bind_liftM, fetch, Exchange.fst_bind_liftM, request_of_answered answered]
  split <;> rfl

/-- Whatever the answer to a question for a header, and whatever the description of a validator: it
is nested too deeply, or it is refused as a fault of the node, or it is read as the record of what
its entries say, sound or not. -/
theorem replies_judged (answered : nodes.beacon session.log (n.headerQuery block timeout) =
      .answered answer) :
    ((answer.isError = false ∧ answer.json = .error .tooDeep ∧
        (n.blockHeader block timeout nodes session).1 = .error (.misuse .tooDeep)) ∨
      Judged .blockHeader
        (fun v => answer.isError = false ∧
          ∃ reply, answer.json = .ok reply ∧ Leads ["data", "header", "message"] reply v)
        (n.blockHeader block timeout nodes session).1) ∧
    ∀ outer, Judged .validator (fun v => described outer = v) (validatorIn? (.object outer)) := by
  refine ⟨?_, fun outer => ?_⟩
  · rw [blockHeader_of_answered answered]
    cases reported : answer.isError with
    | true =>
      refine .inr (judged_of_ofJson? (by decide) (.error rfl) fun r => ?_)
      refine iff_of_false (by rintro ⟨⟩) ?_
      rintro ⟨_, ⟨⟨⟩, -⟩, -⟩
    | false =>
      simp only [Bool.false_eq_true, if_false, true_and]
      by_cases deep : answer.json = .error .tooDeep
      · refine .inl ⟨deep, ?_⟩
        rw [dataIn?, deep]
        rfl
      · exact .inr (judged_header deep)
  · refine judged_of_ofJson? (by decide) (nodeOnly_validatorIn? outer) fun r => ?_
    simp only [validatorIn?_eq_ok_iff, exists_eq_left']

/-! ### A header with a short root -/

/-- A header whose state root has one byte. -/
def shortHeader : Record :=
  ⟨.blockHeader,
    [.int 1, .int 7, .bytes (Bytes.zeros 32), .bytes ⟨#[0x11]⟩, .bytes (Bytes.zeros 32)]⟩

/-- The answer that tells it. -/
def shortReply : Answer := Service.dataReply (Service.headerData shortHeader)

/-- Beacon nodes that give the same answer to every question. -/
def repeating (answer : Answer) : Nodes :=
  { Nodes.unreachable with beacon := fun _ _ => .answered answer }

theorem ofJson?_shortHeader :
    ofJson? .blockHeader (.object shortHeader.told) = .ok shortHeader := by
  have means : List.Forall₂ (fun f v => Means (f.name, tell v) (f.name, v))
      Schema.blockHeader.fields shortHeader.values :=
    .cons (means_tell (by decide) ⟨by decide, by decide +kernel⟩) <|
    .cons (means_tell (by decide) ⟨by decide, by decide +kernel⟩) <|
    .cons (means_marked (by decide) (by decide) _) <|
    .cons (means_marked (by decide) (by decide) _) <|
    .cons (means_marked (by decide) (by decide) _) .nil
  exact ofJson?_of_means (by decide) rfl (forall₂_means_map means) (.refl _)

theorem plain_shortHeader : Json.Plain 3 (Service.headerData shortHeader) := by
  have number : ∀ n : Nat, Json.Plain 0 (tell (.int n)) :=
    fun n => .text (Json.plainText_toString n)
  have bytes : ∀ b, Json.Plain 0 (tell (.bytes b)) := fun b => .text (Json.plainText_marked b)
  have outer : ∀ k ∈ ["header"], Json.PlainText k := by decide
  have inner : ∀ k ∈ ["message"], Json.PlainText k := by decide
  have names : ∀ k ∈ shortHeader.told.map Prod.fst, Json.PlainText k := by decide
  refine .object outer (List.pairwise_singleton _ _) (List.forall_mem_singleton.mpr ?_)
  refine .object inner (List.pairwise_singleton _ _) (List.forall_mem_singleton.mpr ?_)
  refine .object names (by decide) ?_
  exact List.forall_mem_cons.mpr ⟨number 1, List.forall_mem_cons.mpr ⟨number 7,
    List.forall_mem_cons.mpr ⟨bytes _, List.forall_mem_cons.mpr ⟨bytes _,
      List.forall_mem_singleton.mpr (bytes _)⟩⟩⟩⟩

theorem blockHeader_shortReply (n : BeaconNode) (block : String) (timeout : Option Number)
    (session : Session) :
    (n.blockHeader block timeout (repeating shortReply) session).1 = .ok shortHeader := by
  rw [blockHeader_of_answered rfl, if_neg (by decide), shortReply,
    Service.dataIn?_dataReply plain_shortHeader, ok_bind, headerIn?_eq_ok_iff]
  exact ⟨_, ⟨_, _, rfl, rfl, _, _, rfl, rfl, rfl⟩, ofJson?_shortHeader⟩

theorem root?_shortHeader (root : ByteArray) : shortHeader.root? ≠ .ok root := by
  intro hashed
  have typed : shortHeader.Typed .blockHeader :=
    ⟨rfl, .cons trivial <| .cons trivial <| .cons trivial <| .cons trivial <| .cons trivial .nil⟩
  have stateRoot : (ByteArray.mk #[0x11]).size = 32 :=
    match (typed.fits (by decide) hashed).values with
    | .cons _ (.cons _ (.cons _ (.cons short _))) => short
  exact absurd stateRoot (by decide)

theorem replies_judged_shortReply :
    Judged .blockHeader
      (fun v => shortReply.isError = false ∧ ∃ reply, shortReply.json = .ok reply ∧
        Leads ["data", "header", "message"] reply v)
      (blockHeader ⟨"http://b", .whole 60⟩ "finalized" none (repeating shortReply) .start).1 := by
  have answered : (repeating shortReply).beacon Session.start.log
      (headerQuery ⟨"http://b", .whole 60⟩ "finalized" none) = .answered shortReply := rfl
  refine (replies_judged answered).1.resolve_left fun deep => ?_
  rw [blockHeader_shortReply] at deep
  cases deep.2.2

/-- A header with a short root is returned, although it has no root itself. -/
theorem short_root_returned :
    (blockHeader ⟨"http://b", .whole 60⟩ "finalized" none (repeating shortReply) .start).1 =
      .ok shortHeader ∧
    (∀ root, shortHeader.root? ≠ .ok root) ∧
    ¬Reported .blockHeader
      (blockHeader ⟨"http://b", .whole 60⟩ "finalized" none (repeating shortReply) .start).1 := by
  rw [blockHeader_shortReply]
  refine ⟨rfl, root?_shortHeader, ?_⟩
  rintro (⟨_, ⟨⟩, sound⟩ | ⟨_, ⟨⟩, -⟩)
  obtain ⟨root, hashed⟩ := sound.rooted
  exact root?_shortHeader root hashed

end BeaconBranch.BeaconNode
