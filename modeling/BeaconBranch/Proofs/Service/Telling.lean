import BeaconBranch.Proofs.Json.Roundtrip
import BeaconBranch.Proofs.Record.Reading
import BeaconBranch.Proofs.Service.Honest

/-!
Honest nodes exist. What a beacon node has to tell about a block is written as JSON, and is read
from it again. Main statement: for every state that has a root, and every header that names this
root, there is a beacon node that is honest about them.
-/

namespace BeaconBranch.Service

open Exchange Merkle Record

variable {s : Settings} {depth : Nat}

/-! ### Records -/

theorem plain_tell {k : FieldKind} {v : Value} (holds : k.Holds v) : Json.Plain depth (tell v) := by
  have number : ∀ n : Int, 0 ≤ n → Json.Plain depth (tell (.int n)) := by
    intro n ge
    obtain ⟨n, rfl⟩ := Int.eq_ofNat_of_zero_le ge
    exact .text (Json.plainText_toString n)
  have bytes : ∀ b, Json.Plain depth (tell (.bytes b)) := fun b => .text (Json.plainText_marked b)
  cases k with
  | uint64 =>
    obtain ⟨n, rfl, ge, -⟩ := FieldKind.holds_uint64_iff.mp holds
    exact number n ge
  | uint256 =>
    obtain ⟨n, rfl, ge, -⟩ := FieldKind.holds_uint256_iff.mp holds
    exact number n ge
  | flag =>
    obtain ⟨b, rfl⟩ := FieldKind.holds_flag_iff.mp holds
    exact .flag b
  | bytes n =>
    obtain ⟨b, rfl, -⟩ := FieldKind.holds_bytes_iff.mp holds
    exact bytes b
  | chunk =>
    obtain ⟨b, rfl, -⟩ := FieldKind.holds_chunk_iff.mp holds
    exact bytes b
  | extraData =>
    obtain ⟨b, rfl, -⟩ := FieldKind.holds_extraData_iff.mp holds
    exact bytes b

/-- What is told of a record is plain. -/
theorem plain_told {r : Record} {schema : Schema} (fits : r.Fits schema)
    (distinct : (schema.fields.map (·.name)).Nodup)
    (names : ∀ k ∈ schema.fields.map (·.name), Json.PlainText k) :
    Json.Plain (depth + 1) (.object r.told) := by
  obtain ⟨rfl, holds⟩ := fits
  have length : (r.schema.fields.map (·.name)).length = (r.values.map tell).length := by
    rw [List.length_map, List.length_map, holds.length_eq]
  have keys : r.told.map Prod.fst = r.schema.fields.map (·.name) :=
    List.map_fst_zip (Nat.le_of_eq length)
  have values : r.told.map Prod.snd = r.values.map tell :=
    List.map_snd_zip (Nat.le_of_eq length.symm)
  refine .object (keys ▸ names) (keys ▸ distinct) (values ▸ ?_)
  intro v mem
  obtain ⟨w, inRecord, rfl⟩ := List.mem_map.mp mem
  obtain ⟨i, found⟩ := List.getElem?_of_mem inRecord
  have lt : i < r.schema.fields.length :=
    holds.length_eq ▸ (List.getElem?_eq_some_iff.mp found).1
  exact plain_tell (Outcome.forall₂_getElem? holds (List.getElem?_eq_getElem lt) found)

/-! ### Replies -/

/-- The reply with a body, where values may be nested as deep as what is told of a block and its
state. -/
def replyWith (body : ByteArray) : Answer := .documented 4 200 body

/-- The reply that has a value as its `data` entry. -/
def dataReply (data : Value) : Answer := replyWith (Json.render (.object [("data", data)])).toUTF8

theorem dataIn?_dataReply {data : Value} (plain : Json.Plain 3 data) (path : String) :
    BeaconNode.dataIn? path (dataReply data) = .ok data := by
  have keys : ∀ k ∈ ["data"], Json.PlainText k := by decide
  have whole : Json.Plain 4 (.object [("data", data)]) :=
    .object keys (List.pairwise_singleton _ _) (List.forall_mem_singleton.mpr plain)
  rw [BeaconNode.dataIn?, dataReply, replyWith, Answer.json_documented whole]
  rfl

/-- What is told of a header. -/
def headerData (header : Record) : Value :=
  .object [("header", .object [("message", .object header.told)])]

theorem plain_headerData {header : Record} (fits : header.Fits .blockHeader) :
    Json.Plain 3 (headerData header) := by
  have outer : ∀ k ∈ ["header"], Json.PlainText k := by decide
  have inner : ∀ k ∈ ["message"], Json.PlainText k := by decide
  refine .object outer (List.pairwise_singleton _ _) (List.forall_mem_singleton.mpr ?_)
  refine .object inner (List.pairwise_singleton _ _) (List.forall_mem_singleton.mpr ?_)
  exact plain_told fits (by decide) (by decide)

theorem headerIn?_headerData {header : Record} (fits : header.Fits .blockHeader) (block : String) :
    BeaconNode.headerIn? block (headerData header) = .ok header := by
  have parsed : (do
      let message ← (← (headerData header).atKey? "header").atKey? "message"
      ofJson? .blockHeader message) = .ok header :=
    ofJson?_told (by decide) (by decide) fits (.refl _)
  rw [BeaconNode.headerIn?, parsed]

/-- What is told of a block's root. -/
def rootData (blockRoot : ByteArray) : Value := .object [("root", .text (Hex.marked blockRoot))]

theorem plain_rootData (blockRoot : ByteArray) : Json.Plain 3 (rootData blockRoot) := by
  have keys : ∀ k ∈ ["root"], Json.PlainText k := by decide
  refine .object keys (List.pairwise_singleton _ _) (List.forall_mem_singleton.mpr ?_)
  exact .text (Json.plainText_marked blockRoot)

theorem rootIn?_rootData (blockRoot : ByteArray) :
    BeaconNode.rootIn? (rootData blockRoot) = .ok blockRoot := by
  rw [BeaconNode.rootIn?, Outcome.bind_eq_ok_iff]
  exact ⟨_, rfl, Hex.bytes?_marked blockRoot⟩

/-! ### Descriptions of validators -/

/-- What is told of a validator. -/
def description (index balance : Nat) (v : Record) : Value :=
  .object [("index", .text (toString (index : Int))), ("balance", .text (toString (balance : Int))),
    ("validator", .object v.told)]

theorem plain_description {v : Record} (fits : v.Fits .validator) (index balance : Nat) :
    Json.Plain (depth + 2) (description index balance v) := by
  have keys : ∀ k ∈ ["index", "balance", "validator"], Json.PlainText k := by decide
  have distinct : ["index", "balance", "validator"].Nodup := by decide
  refine .object keys distinct ?_
  have record : Json.Plain (depth + 1) (.object v.told) := plain_told fits (by decide) (by decide)
  have number : ∀ n : Nat, Json.Plain (depth + 1) (.text (toString (n : Int))) :=
    fun n => .text (Json.plainText_toString n)
  exact List.forall_mem_cons.mpr ⟨number index,
    List.forall_mem_cons.mpr ⟨number balance, List.forall_mem_singleton.mpr record⟩⟩

theorem validatorIn?_description {v : Record} (fits : v.Fits .validator) (index balance : Nat) :
    BeaconNode.validatorIn? (description index balance v) = .ok v := by
  have read : ofJson? .validator (.object v.told) = .ok v :=
    ofJson?_told (by decide) (by decide) fits (.refl _)
  have entry : (description index balance v).find? "validator" = .ok (some (.object v.told)) := rfl
  rw [BeaconNode.validatorIn?, Outcome.bind_eq_ok_iff]
  refine ⟨_, entry, ?_⟩
  dsimp only [Option.getD_some]
  rw [read]

/-- A number is told as a text that means it. -/
theorem whole?_toString {n : Nat} (lt : n < twoTo 64) :
    (Value.text (toString (n : Int))).whole? = .ok (n : Int) := by
  rw [Value.whole?, Decimal.toInt?_toString (lt_of_lt_twoTo lt)]

theorem index_description {index : Nat} (lt : index < twoTo 64) (balance : Nat) (v : Record) :
    ((description index balance v).atKey? "index" >>= Value.whole?) = .ok (index : Int) :=
  Outcome.bind_eq_ok_iff.mpr ⟨_, rfl, whole?_toString lt⟩

theorem balance_description {balance : Nat} (lt : balance < twoTo 64) (index : Nat) (v : Record) :
    ((description index balance v).atKey? "balance" >>= Value.whole?) = .ok (balance : Int) :=
  Outcome.bind_eq_ok_iff.mpr ⟨_, rfl, whole?_toString lt⟩

/-- What is told of the validator at an index of a state. -/
def descriptionOf (state : Snapshot) (index : Nat) (v : Record) : Value :=
  description index ((state.balances[index]?).getD 0).toNat v

/-- What is told of all validators of a state. -/
def validatorsData (state : Snapshot) : Value :=
  .list (state.validators.toList.zipIdx.map fun e => descriptionOf state e.2 e.1)

/-- What is told of all validators of a state, by their indices. -/
def validatorsByIndex (state : Snapshot) : List (Int × Value) :=
  state.validators.toList.zipIdx.map fun e => ((e.2 : Int), descriptionOf state e.2 e.1)

/-- A state of which everything can be told: its validators have all fields, and neither their
number nor their balances are too large. -/
structure Tellable (state : Snapshot) : Prop where
  fits : ∀ v ∈ state.validators, v.Fits .validator
  few : state.validators.size < twoTo 64
  balances : ∀ b ∈ state.balances, 0 ≤ b ∧ b < twoTo 64

theorem tellable_of_root? {body : ByteArray} {state : Snapshot} {root : ByteArray}
    (read : Snapshot.decode? body = .ok state) (hashed : state.root? = .ok root) :
    Tellable state := by
  obtain ⟨c, built⟩ := Composer.exists_ofSnapshot? hashed
  obtain ⟨roots, chunks, fieldRoots, trees⟩ := Composer.ofSnapshot?_spec built
  have count : roots.length = state.validators.size :=
    (Outcome.mapM_eq_ok_iff.mp trees.hashed).length_eq.symm
  have room : roots.length ≤ twoTo 40 := trees.validators.room
  have more : twoTo 40 < twoTo 64 := by decide +kernel
  exact ⟨Snapshot.fits_of_decode? read, by omega,
    (Chunk.packUint64s?_eq_ok_iff.mp trees.packed).1⟩

variable {state : Snapshot}

theorem mem_zipIdx {e : Record × Nat} (mem : e ∈ state.validators.toList.zipIdx) :
    state.validators[e.2]? = some e.1 := by
  rw [← Array.getElem?_toList]
  exact List.mem_zipIdx_iff_getElem?.mp mem

theorem plain_validatorsData (tellable : Tellable state) :
    Json.Plain 3 (validatorsData state) := by
  refine .list fun d mem => ?_
  obtain ⟨e, inState, rfl⟩ := List.mem_map.mp mem
  exact plain_description (tellable.fits _ (Array.mem_of_getElem? (mem_zipIdx inState))) _ _

/-- The validators of a state are told by their indices. -/
theorem byIndex?_validatorsData (tellable : Tellable state) :
    byIndex? (validatorsData state) = .ok (validatorsByIndex state) := by
  rw [byIndex?, Outcome.bind_eq_ok_iff]
  refine ⟨_, rfl, Outcome.mapM_eq_ok_iff.mpr ?_⟩
  rw [validatorsByIndex, List.forall₂_map_left_iff, List.forall₂_map_right_iff,
    List.forall₂_same]
  intro e mem
  have inside := (Array.getElem?_eq_some_iff.mp (mem_zipIdx mem)).1
  have few := tellable.few
  have index : ((descriptionOf state e.2 e.1).atKey? "index" >>= Value.whole?) = .ok (e.2 : Int) :=
    index_description (by omega) _ _
  exact entry_eq_ok_iff.mpr ⟨index, rfl⟩

theorem describedAs?_validatorsByIndex {i : Nat} {v : Record}
    (found : state.validators[i]? = some v) :
    describedAs? i (validatorsByIndex state) = some (descriptionOf state i v) := by
  refine lookup_of_single (p := ((i : Int), descriptionOf state i v)) ?_ ?_
  · intro p memP q memQ same
    obtain ⟨e, inP, rfl⟩ := List.mem_map.mp (List.mem_reverse.mp memP)
    obtain ⟨f, inQ, rfl⟩ := List.mem_map.mp (List.mem_reverse.mp memQ)
    have index : e.2 = f.2 := Int.ofNat_inj.mp same
    have record : e.1 = f.1 :=
      Option.some.inj ((mem_zipIdx inP).symm.trans (index ▸ mem_zipIdx inQ))
    rw [index, record]
  · refine List.mem_reverse.mpr (List.mem_map.mpr ⟨(v, i), ?_, rfl⟩)
    rw [List.mem_zipIdx_iff_getElem?, Array.getElem?_toList, found]

/-! ### Nodes that tell everything -/

/-- Nodes of which the beacon node at an address has one reply for each path, and no other node
can be reached. The clock stands still. -/
def telling (base : String) (reply : String → Answer) : Nodes where
  beacon _ q := .answered
    (reply (String.ofList (q.url.toList.drop (Remote.trimSlashes base).toList.length)))
  prover := Nodes.unreachable.prover
  execution := Nodes.unreachable.execution
  clock := Nodes.unreachable.clock

section Telling

variable {base : String} (given : Settings.nonEmpty? s.beaconUrl? = some base)
  {reply : String → Answer} {path : String}

include given

theorem answers_telling {p : Answer → Prop} (fine : (reply path).isError = false)
    (holds : p (reply path)) : Answers s (telling base reply) path p := by
  refine ⟨base, given, fun log q url => ⟨reply path, ?_, fine, holds⟩⟩
  dsimp only [telling]
  rw [url, String.toList_append, List.drop_left, String.ofList_toList]

/-- A reply with a value as its `data` entry tells the value. -/
theorem tells_telling {data : Value} (plain : Json.Plain 3 data)
    (replied : reply path = dataReply data) : Tells s (telling base reply) path data := by
  refine answers_telling given ?_ ?_
  · rw [replied]
    rfl
  · rw [replied]
    exact dataIn?_dataReply plain path

/-- Nodes that tell a header and its root are at the block. -/
theorem tellsBlock_telling {header : Record} (fits : header.Fits .blockHeader)
    {stateRoot : ByteArray} (names : header.get "state_root" = .bytes stateRoot)
    (tellsHeader : reply ("/eth/v1/beacon/headers/" ++ finalized) = dataReply (headerData header))
    (tellsRoot : reply ("/eth/v1/beacon/blocks/" ++ finalized ++ "/root") =
      dataReply (rootData header.derivation.value)) :
    TellsBlock s (telling base reply) header header.derivation.value stateRoot := by
  have toldHeader := tells_telling given (plain_headerData fits) tellsHeader
  have toldRoot := tells_telling given (plain_rootData header.derivation.value) tellsRoot
  exact ⟨fits, Record.root?_eq (by decide) fits, names,
    ⟨_, toldHeader.to none, headerIn?_headerData fits _⟩,
    ⟨_, toldRoot.to none, rootIn?_rootData _⟩⟩

end Telling

/-- The path of a single validator, up to its index. -/
def singlePath : String := "/eth/v1/beacon/states/" ++ finalized ++ "/validators/"

/-- The reply of an honest beacon node to a question for a path. -/
def honestReply (header : Record) (blockRoot : ByteArray) (state : Snapshot) (body : ByteArray)
    (path : String) : Answer :=
  if path = "/eth/v1/beacon/headers/" ++ finalized then dataReply (headerData header)
  else if path = "/eth/v1/beacon/blocks/" ++ finalized ++ "/root" then
    dataReply (rootData blockRoot)
  else if path = "/eth/v2/debug/beacon/states/" ++ finalized then replyWith body
  else if path = "/eth/v1/beacon/states/" ++ finalized ++ "/validators" then
    dataReply (validatorsData state)
  else
    let index := Decimal.toInt? (String.ofList (path.toList.drop singlePath.toList.length))
    dataReply (descriptionOf state (index.getD 0).toNat
      ((state.validators[(index.getD 0).toNat]?).getD (.zero .validator)))

/-- A path that starts in another way is not that of a single validator. -/
theorem singlePath_append_ne {path : String}
    (other : path.toList.take singlePath.toList.length ≠ singlePath.toList) (index : String) :
    singlePath ++ index ≠ path := by
  rintro rfl
  exact other (by rw [String.toList_append, List.take_left])

theorem honestReply_single (header : Record) (blockRoot : ByteArray) (body : ByteArray) {i : Nat}
    {v : Record} (lt : i < twoTo 64) (found : state.validators[i]? = some v) :
    honestReply header blockRoot state body (singlePath ++ toString (i : Int)) =
      dataReply (descriptionOf state i v) := by
  -- None of the four paths that are told apart first starts as this one does.
  have differ : ∀ path : String, path.toList.take singlePath.toList.length ≠ singlePath.toList →
      singlePath ++ toString (i : Int) ≠ path := fun _ other => singlePath_append_ne other _
  have index : Decimal.toInt? (String.ofList ((singlePath ++ toString (i : Int)).toList.drop
      singlePath.toList.length)) = some (i : Int) := by
    rw [String.toList_append, List.drop_left, String.ofList_toList]
    exact Decimal.toInt?_toString (lt_of_lt_twoTo lt)
  rw [honestReply, if_neg (differ _ (by decide)), if_neg (differ _ (by decide)),
    if_neg (differ _ (by decide)), if_neg (differ _ (by decide)), index]
  dsimp only [Option.getD_some, Int.toNat_natCast]
  rw [found]
  rfl

/-- Every state that has a root is told by a node that is honest about it, together with every
header that names its root. -/
theorem exists_honest {base : String} (given : Settings.nonEmpty? s.beaconUrl? = some base)
    {header : Record} (fits : header.Fits .blockHeader) {body : ByteArray}
    (read : Snapshot.decode? body = .ok state) {stateRoot : ByteArray}
    (hashed : state.root? = .ok stateRoot) (names : header.get "state_root" = .bytes stateRoot) :
    ∃ nodes, (∀ seconds : Number, seconds.exceeds 0 = true → Patient nodes seconds) ∧
      Honest s nodes header state := by
  have tellable := tellable_of_root? read hashed
  have root := Record.root?_eq (by decide) fits
  refine ⟨telling base (honestReply header header.derivation.value state body),
    fun _ => patient_of_still fun _ => rfl, fits, ?_, ?_, ?_, ⟨stateRoot, names, hashed⟩, ?_, ?_⟩
  · exact ⟨_, tells_telling given (plain_headerData fits) rfl, headerIn?_headerData fits _⟩
  · exact ⟨_, _, tells_telling given (plain_rootData _) rfl, rootIn?_rootData _, root⟩
  · exact ⟨_, answers_telling given rfl rfl, read⟩
  · refine ⟨_, _, tells_telling given (plain_validatorsData tellable) rfl,
      byIndex?_validatorsData tellable, fun i v found => ?_⟩
    exact ⟨_, describedAs?_validatorsByIndex found,
      validatorIn?_description (tellable.fits v (Array.mem_of_getElem? found)) _ _⟩
  · intro i v b found inList
    have inside := (Array.getElem?_eq_some_iff.mp found).1
    have few := tellable.few
    have fitsV := tellable.fits v (Array.mem_of_getElem? found)
    obtain ⟨ge, lt⟩ := tellable.balances b (List.mem_of_getElem? inList)
    obtain ⟨b, rfl⟩ := Int.eq_ofNat_of_zero_le ge
    have reply := honestReply_single header header.derivation.value body (by omega) found
    have data : descriptionOf state i v = description i b v := by
      rw [descriptionOf, inList]
      rfl
    rw [data] at reply
    exact ⟨_, tells_telling given (plain_description fitsV i b) reply,
      validatorIn?_description fitsV i b, balance_description (by omega) i v⟩

/-! ### The lone validator's node -/

/-- Settings that name a beacon node and nothing else. -/
def loneSettings : Settings := { beaconUrl? := some "http://node" }

/-- Settings that name a beacon node and an execution node. -/
def chainSettings : Settings := { loneSettings with executionUrl? := some "http://chain" }

/-- The header of the first slot, over a state root. -/
def firstHeader (stateRoot : ByteArray) : Record :=
  ⟨.blockHeader, [.int 0, .int 0, .bytes zeroChunk, .bytes stateRoot, .bytes zeroChunk]⟩

theorem fits_firstHeader {stateRoot : ByteArray} (size : stateRoot.size = 32) :
    (firstHeader stateRoot).Fits .blockHeader := by
  have number : FieldKind.uint64.Holds (.int 0) := FieldKind.holds_zero .uint64
  have node : FieldKind.Holds (.bytes 32) (.bytes zeroChunk) := size_zeroChunk
  have own : FieldKind.Holds (.bytes 32) (.bytes stateRoot) := size
  exact ⟨rfl, .cons number (.cons number (.cons node (.cons own (.cons node .nil))))⟩

/-- A state with a root has a composer, and there is a header over it. -/
theorem exists_composed {root : ByteArray} (hashed : state.root? = .ok root) :
    ∃ c, Composer.ofSnapshot? state = .ok c ∧ state.root? = .ok c.stateRoot ∧
      (firstHeader c.stateRoot).Fits .blockHeader := by
  obtain ⟨c, built⟩ := Composer.exists_ofSnapshot? hashed
  obtain ⟨_, _, _, trees⟩ := Composer.ofSnapshot?_spec built
  exact ⟨c, built, trees.root?, fits_firstHeader trees.size_stateRoot⟩

/-- The state of a single validator, its composer and the header over it. -/
theorem exists_lone : ∃ state c, Snapshot.decode? State.loneBuffer = .ok state ∧
    Composer.ofSnapshot? state = .ok c ∧ state.root? = .ok c.stateRoot ∧
    (firstHeader c.stateRoot).Fits .blockHeader ∧
    state.validators[0]? = some (Record.zero .validator) ∧
    state.balances[0]? = some 32000000000 := by
  obtain ⟨state, root, read, hashed, validators, balances⟩ := State.exists_loneState
  obtain ⟨c, built, own, fits⟩ := exists_composed hashed
  refine ⟨state, c, read, built, own, fits, ?_, ?_⟩
  · rw [validators]
    rfl
  · rw [balances]
    rfl

/-- There is a node that is honest about the state of a single validator. -/
theorem exists_honest_lone : ∃ nodes header state,
    (∀ seconds : Number, seconds.exceeds 0 = true → Patient nodes seconds) ∧
      Honest loneSettings nodes header state ∧ Belongs state 0 := by
  obtain ⟨state, c, read, -, hashed, fits, inState, inList⟩ := exists_lone
  have given : Settings.nonEmpty? loneSettings.beaconUrl? = some "http://node" := rfl
  obtain ⟨nodes, patient, honest⟩ := exists_honest given fits read hashed rfl
  exact ⟨nodes, _, state, patient, honest, 0, _, _, rfl, inState, inList⟩

end BeaconBranch.Service
