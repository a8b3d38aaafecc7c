import BeaconBranch.Proofs.Remote.Exchange
import BeaconBranch.Remote.ExecutionNode

/-!
Beacon roots by second. A call to the contract can name the seconds that fit into 32 bytes, and a
reply tells a root or is a failure of the node. The search for the newest root calls for one slot
after the other, back from the latest block. Main statements: what a call gives; and how the search
ends, which is with the newest root, or with its own fault after the last slot, or with a fault of
the call once it has come to a second that no call can name.
-/

namespace BeaconBranch.ExecutionNode

open Exchange

variable {nodes : Nodes} {s : Session} {second : Int} {reply : CallReply} {root : ByteArray}

/-! ### Calls to the contract -/

/-- A call can name a second. -/
def Callable (second : Int) : Prop := 0 ≤ second ∧ second < twoTo 256

/-- The call that asks for the root of a second. -/
def rootCall (second : Int) : Call :=
  .contract rootsContract (Hex.marked (Bytes.ofNatBE 32 second.toNat))

theorem rootCall?_of_callable (callable : Callable second) :
    rootCall? second = .ok (rootCall second) := by
  have inside : ¬(second < 0 ∨ (twoTo 256 : Int) ≤ second) := by
    obtain ⟨ge, lt⟩ := callable
    omega
  rw [rootCall?, if_neg inside]
  rfl

theorem rootCall?_of_not_callable (notCallable : ¬Callable second) :
    rootCall? second = .error (.misuse .overflow) := by
  have outside : second < 0 ∨ (twoTo 256 : Int) ≤ second := by
    rw [Callable] at notCallable
    omega
  rw [rootCall?, if_pos outside]

/-- What a reply to the call for a second tells. -/
def toldRoot? (second : Int) (reply : CallReply) : Except Fault ByteArray :=
  valueIn? (.rootQueryFailed second) reply >>= rootIn? second

theorem beaconRoot_of_callable (callable : Callable second) (nodes : Nodes) (s : Session) :
    beaconRoot second nodes s = (toldRoot? second (nodes.execution s.log (rootCall second)),
      note (.execution (rootCall second)) s) := by
  simp only [beaconRoot, rootCall?_of_callable callable, bind_apply, liftM_apply, askExecution,
    toldRoot?]
  rcases valueIn? (.rootQueryFailed second) (nodes.execution s.log (rootCall second)) with f | v
  · rfl
  · rfl

theorem beaconRoot_of_not_callable (notCallable : ¬Callable second) (nodes : Nodes) (s : Session) :
    beaconRoot second nodes s = (.error (.misuse .overflow), s) := by
  simp only [beaconRoot, rootCall?_of_not_callable notCallable, bind_apply, liftM_apply]

/-- The bytes in an answer; an answer that counts as false has none. -/
def contents (answer : Value) : Except Fault ByteArray :=
  if answer.isTruthy then answer.toBytes else .ok ByteArray.empty

/-- What a call to the contract ends with: bytes of any number, or a failure of the node. -/
inductive IsOutcome : CallReply → Prop
  | answered {answer : Value} {b : ByteArray} (bytes : contents answer = .ok b) :
      IsOutcome (.answered answer)
  | failed {kind : FaultKind} {text : String} (ofNode : isCallFault kind = true) :
      IsOutcome (.failed kind text)

/-- A reply tells a root: 32 bytes that are not all zero. -/
def TellsRoot (reply : CallReply) (root : ByteArray) : Prop :=
  ∃ answer, reply = .answered answer ∧ contents answer = .ok root ∧ root.size = 32 ∧
    root ≠ Bytes.zeros 32

theorem contents_bytes (b : ByteArray) : contents (.bytes b) = .ok b := by
  rw [contents]
  split
  · rfl
  · rename_i empty
    have size : b.size = 0 := by simpa [Value.isTruthy] using empty
    rw [ByteArray.size_eq_zero_iff.mp size]

theorem tellsRoot_bytes (size : root.size = 32) (nonzero : root ≠ Bytes.zeros 32) :
    TellsRoot (.answered (.bytes root)) root :=
  ⟨_, rfl, contents_bytes root, size, nonzero⟩

theorem rootIn?_eq (second : Int) (answer : Value) : rootIn? second answer =
    contents answer >>= fun root =>
      if root.size == 32 && root != Bytes.zeros 32 then .ok root
      else .error (.rootNotAvailable second) := by
  rw [rootIn?, contents]
  split
  · rfl
  · rfl

theorem isRoot_iff : (root.size == 32 && root != Bytes.zeros 32) = true ↔
    root.size = 32 ∧ root ≠ Bytes.zeros 32 := by
  simp only [Bool.and_eq_true, beq_iff_eq, bne_iff_ne]

theorem toldRoot?_eq_ok_iff : toldRoot? second reply = .ok root ↔ TellsRoot reply root := by
  cases reply with
  | failed kind text =>
    have refused : toldRoot? second (.failed kind text) ≠ .ok root := by
      rw [toldRoot?, valueIn?, Outcome.error_bind]
      simp
    simp [refused, TellsRoot]
  | answered answer =>
    have read : toldRoot? second (.answered answer) = rootIn? second answer := rfl
    rw [read, rootIn?_eq, Outcome.bind_eq_ok_iff]
    constructor
    · rintro ⟨b, bytes, fits⟩
      split at fits
      · rename_i whole
        obtain rfl := Except.ok.inj fits
        exact ⟨answer, rfl, bytes, isRoot_iff.mp whole⟩
      · cases fits
    · rintro ⟨_, ⟨⟩, bytes, whole⟩
      exact ⟨root, bytes, if_pos (isRoot_iff.mpr whole)⟩

/-- A reply that tells no root is a fault of the node. -/
theorem kind_of_toldRoot? (outcome : IsOutcome reply) {f : Fault}
    (failed : toldRoot? second reply = .error f) : f.kind = .execution := by
  cases outcome with
  | failed ofNode =>
    rw [toldRoot?, valueIn?, if_pos ofNode] at failed
    cases failed
    rfl
  | @answered answer b bytes =>
    have read : toldRoot? second (.answered answer) = rootIn? second answer := rfl
    rw [read, rootIn?_eq, bytes, Outcome.ok_bind] at failed
    split at failed
    · cases failed
    · cases failed
      rfl

/-! ### The search -/

/-- The contract has an outcome for each second, whenever it is asked. -/
def Assigned (nodes : Nodes) (outcome : Int → CallReply) : Prop :=
  ∀ log second, Callable second → nodes.execution log (rootCall second) = outcome second

/-- The second that lies some slots back. -/
def back (start : Int) (slots : Nat) : Int := start - 12 * slots

theorem back_zero (start : Int) : back start 0 = start := by
  rw [back]
  omega

theorem back_succ (start : Int) (j : Nat) : back start (j + 1) = back (start - 12) j := by
  rw [back, back]
  omega

/-- The calls for so many slots, one after the other, back from a second. -/
def calls (start : Int) (slots : Nat) : List Event :=
  (List.range slots).map fun j => .execution (rootCall (back start j))

/-- A session after more questions. -/
def afterCalls (s : Session) (events : List Event) : Session := { s with log := s.log ++ events }

theorem calls_succ (start : Int) (slots : Nat) :
    calls start (slots + 1) = .execution (rootCall start) :: calls (start - 12) slots := by
  rw [calls, List.range_succ_eq_map, List.map_cons, List.map_map, back_zero, calls]
  refine List.cons_eq_cons.mpr ⟨rfl, List.map_congr_left fun j _ => ?_⟩
  rw [Function.comp_apply, back_succ]

theorem afterCalls_nil (s : Session) : afterCalls s [] = s := by
  rw [afterCalls, List.append_nil]

theorem afterCalls_cons (s : Session) (event : Event) (events : List Event) :
    afterCalls s (event :: events) = afterCalls (note event s) events := by
  simp [afterCalls, note]

/-- The calls down to a slot end with the call for this slot. -/
theorem note_rootCall_back (s : Session) (start : Int) (slots : Nat) :
    note (.execution (rootCall (back start slots))) (afterCalls s (calls start slots)) =
      afterCalls s (calls start (slots + 1)) := by
  simp [note, afterCalls, calls, List.range_succ]

/-- None of the calls for so many slots back from a second has a root for its outcome. -/
def Rootless (outcome : Int → CallReply) (start : Int) (slots : Nat) : Prop :=
  ∀ j < slots, ∀ root, ¬TellsRoot (outcome (back start j)) root

variable {outcome : Int → CallReply} {lookback start : Int} {n k : Nat}

/-- A second with a root ends the search. -/
theorem searchBack_of_root (assigned : Assigned nodes outcome) (callable : Callable start)
    (tells : TellsRoot (outcome start) root) : searchBack lookback (n + 1) start nodes s =
      (.ok (root, start), note (.execution (rootCall start)) s) := by
  have asked := beaconRoot_of_callable callable nodes s
  rw [assigned _ _ callable, toldRoot?_eq_ok_iff.mpr tells] at asked
  rw [searchBack, bind_apply, attempt, asked]
  rfl

/-- A second without a root is passed over. -/
theorem searchBack_of_rootless (assigned : Assigned nodes outcome) (callable : Callable start)
    (known : IsOutcome (outcome start)) (none : ∀ root, ¬TellsRoot (outcome start) root) :
    searchBack lookback (n + 1) start nodes s =
      searchBack lookback n (start - 12) nodes (note (.execution (rootCall start)) s) := by
  have asked := beaconRoot_of_callable callable nodes s
  rw [assigned _ _ callable] at asked
  cases told : toldRoot? start (outcome start) with
  | ok root => exact absurd (toldRoot?_eq_ok_iff.mp told) (none root)
  | error f =>
    rw [told] at asked
    rw [searchBack, bind_apply, attempt, asked]
    dsimp only
    rw [if_pos (kind_of_toldRoot? known told)]
    rfl

/-- A second that no call can name ends the search with a fault that it does not pass over. -/
theorem searchBack_of_not_callable (notCallable : ¬Callable start) :
    searchBack lookback (n + 1) start nodes s = (.error (.misuse .overflow), s) := by
  have asked := beaconRoot_of_not_callable notCallable nodes s
  rw [searchBack, bind_apply, attempt, asked]
  rfl

/-- As long as no second has a root, the search goes on back. -/
theorem searchBack_past_rootless (assigned : Assigned nodes outcome)
    (known : ∀ second, Callable second → IsOutcome (outcome second))
    (callable : ∀ j < k, Callable (back start j)) (none : Rootless outcome start k) :
    searchBack lookback (k + n) start nodes s =
      searchBack lookback n (back start k) nodes (afterCalls s (calls start k)) := by
  induction k generalizing start s with
  | zero =>
    have unasked : calls start 0 = [] := rfl
    rw [Nat.zero_add, back_zero, unasked, afterCalls_nil]
  | succ k ih =>
    have first : Callable start := back_zero start ▸ callable 0 (Nat.succ_pos k)
    have rootless := none 0 (Nat.succ_pos k)
    rw [back_zero] at rootless
    have later : ∀ j < k, Callable (back (start - 12) j) := fun j lt =>
      back_succ start j ▸ callable (j + 1) (Nat.succ_lt_succ lt)
    have others : Rootless outcome (start - 12) k := fun j lt =>
      back_succ start j ▸ none (j + 1) (Nat.succ_lt_succ lt)
    rw [Nat.succ_add, searchBack_of_rootless assigned first (known _ first) rootless,
      ih later others, back_succ, calls_succ, afterCalls_cons]

/-! ### The latest block -/

/-- The execution node tells the number and the second of the latest block, whenever it is asked. -/
structure LatestBlock (nodes : Nodes) (number latest : Int) : Prop where
  numbered : ∀ log, ∃ answer, nodes.execution log .blockNumber = .answered answer ∧
    answer.whole? = .ok number
  timed : ∀ log, ∃ block time, nodes.execution log (.block number) = .answered block ∧
    block.atKey? "timestamp" = .ok time ∧ time.whole? = .ok latest

/-- The second in which the slot of a block starts. -/
def slotSecond (latest : Int) : Int := latest - latest % 12

/-- A session after the questions for the latest block. -/
def afterLatest (s : Session) (number : Int) : Session :=
  afterCalls s [.execution .blockNumber, .execution (.block number)]

theorem latestBeaconRoot_eq {number latest : Int} (told : LatestBlock nodes number latest)
    (lookback : Int) : latestBeaconRoot lookback nodes s =
      searchBack lookback lookback.toNat (slotSecond latest) nodes (afterLatest s number) := by
  obtain ⟨answer, answered, isNumber⟩ := told.numbered s.log
  obtain ⟨block, time, answeredBlock, held, isSecond⟩ :=
    told.timed (note (.execution .blockNumber) s).log
  have asked : blockNumber nodes s = (.ok number, note (.execution .blockNumber) s) := by
    simp only [blockNumber, bind_apply, askExecution, answered, liftM_apply, wholeIn?, valueIn?,
      Outcome.ok_bind, isNumber]
    rfl
  have askedBlock : blockTimestamp number nodes (note (.execution .blockNumber) s) =
      (.ok latest, afterLatest s number) := by
    simp only [blockTimestamp, bind_apply, askExecution, answeredBlock, liftM_apply, valueIn?, held,
      isSecond, afterLatest, afterCalls_cons, afterCalls_nil]
  rw [latestBeaconRoot, bind_apply, asked]
  dsimp only
  rw [bind_apply, askedBlock]
  rfl

/-- The number of slots, back from a second down to time zero, that a call can name. -/
def room (start : Int) : Nat := if start < twoTo 256 then (start / 12).toNat + 1 else 0

theorem callable_of_lt_room (since : 0 ≤ start) {j : Nat} (lt : j < room start) :
    Callable (back start j) := by
  rw [room] at lt
  split at lt
  · rw [back, Callable]
    omega
  · exact absurd lt (Nat.not_lt_zero j)

theorem not_callable_room : ¬Callable (back start (room start)) := by
  rw [room]
  split
  · rw [back, Callable]
    omega
  · rw [back_zero, Callable]
    omega

/-- How a search over at most `n` slots ends, whose first slot starts in a second, by the outcomes
of the calls for the slots. -/
structure Searched (outcome : Int → CallReply) (start : Int) (n : Nat) (before : Session)
    (run : Except Fault (ByteArray × Int) × Session) : Prop where
  /-- The newest root is given after one call for each slot down to its own. -/
  found : ∀ k root, k < n → k < room start → TellsRoot (outcome (back start k)) root →
    Rootless outcome start k →
      run = (.ok (root, back start k), afterCalls before (calls start (k + 1)))
  /-- Where no slot has a root, the search fails after one call for each slot. -/
  exhausted : n ≤ room start → Rootless outcome start n →
    run = (.error (.noRecentRoot n), afterCalls before (calls start n))
  /-- A search that would go on to a second that no call can name fails in another way. -/
  outrun : room start < n → Rootless outcome start (room start) →
    run = (.error (.misuse .overflow), afterCalls before (calls start (room start)))
  /-- There are no other failures. -/
  faults : ∀ f, run.1 = .error f → f = .noRecentRoot n ∨ room start < n ∧ f = .misuse .overflow

/-- Among the outcomes of some slots there is a newest root, or there is none at all. -/
theorem exists_newest (outcome : Int → CallReply) (start : Int) (n : Nat) :
    (∃ k root, k < n ∧ TellsRoot (outcome (back start k)) root ∧ Rootless outcome start k) ∨
      Rootless outcome start n := by
  induction n with
  | zero => exact .inr fun j lt => absurd lt (Nat.not_lt_zero j)
  | succ n ih =>
    rcases ih with ⟨k, root, lt, newest⟩ | none
    · exact .inl ⟨k, root, Nat.lt_succ_of_lt lt, newest⟩
    · by_cases last : ∃ root, TellsRoot (outcome (back start n)) root
      · obtain ⟨root, tells⟩ := last
        exact .inl ⟨n, root, Nat.lt_succ_self n, tells, none⟩
      · refine .inr fun j lt root tells => ?_
        rcases Nat.lt_succ_iff_lt_or_eq.mp lt with earlier | rfl
        · exact none j earlier root tells
        · exact last ⟨root, tells⟩

theorem searched_of_searchBack (assigned : Assigned nodes outcome)
    (known : ∀ second, Callable second → IsOutcome (outcome second)) (since : 0 ≤ start) (n : Nat) :
    Searched outcome start n s (searchBack n n start nodes s) := by
  -- Each ending is reached past the slots without a root, which all have calls.
  have past {k m : Nat} (within : k ≤ room start) (none : Rootless outcome start k) :
      searchBack n (k + m) start nodes s =
        searchBack n m (back start k) nodes (afterCalls s (calls start k)) :=
    searchBack_past_rootless assigned known
      (fun j lt => callable_of_lt_room since (Nat.lt_of_lt_of_le lt within)) none
  have found : ∀ k root, k < n → k < room start → TellsRoot (outcome (back start k)) root →
      Rootless outcome start k → searchBack n n start nodes s =
        (.ok (root, back start k), afterCalls s (calls start (k + 1))) := by
    intro k root lt within tells none
    obtain ⟨m, split⟩ := Nat.exists_eq_add_of_lt lt
    have step := past (m := m + 1) (Nat.le_of_lt within) none
    rw [← Nat.add_assoc, ← split] at step
    rw [step, searchBack_of_root assigned (callable_of_lt_room since within) tells,
      note_rootCall_back]
  have exhausted : n ≤ room start → Rootless outcome start n →
      searchBack n n start nodes s = (.error (.noRecentRoot n), afterCalls s (calls start n)) := by
    intro within none
    have step := past (m := 0) within none
    rw [Nat.add_zero] at step
    rw [step]
    rfl
  have outrun : room start < n → Rootless outcome start (room start) → searchBack n n start nodes s =
        (.error (.misuse .overflow), afterCalls s (calls start (room start))) := by
    intro lt none
    obtain ⟨m, split⟩ := Nat.exists_eq_add_of_lt lt
    have step := past (m := m + 1) (Nat.le_refl _) none
    rw [← Nat.add_assoc, ← split] at step
    rw [step, searchBack_of_not_callable not_callable_room]
  refine ⟨found, exhausted, outrun, fun f failed => ?_⟩
  rcases exists_newest outcome start (min n (room start)) with ⟨k, root, lt, tells, first⟩ | none
  · obtain ⟨ltN, within⟩ := Nat.lt_min.mp lt
    rw [found k root ltN within tells first] at failed
    cases failed
  · rcases Nat.lt_or_ge (room start) n with beyond | within
    · rw [Nat.min_eq_right (Nat.le_of_lt beyond)] at none
      rw [outrun beyond none] at failed
      exact .inr ⟨beyond, (Except.error.inj failed).symm⟩
    · rw [Nat.min_eq_left within] at none
      rw [exhausted within none] at failed
      exact .inl (Except.error.inj failed).symm

/-- The search for the newest root calls for the slot of the latest block and for those before it,
one after the other. It gives the newest root that there is among the slots it may look at, or fails
as a failure of the node does; but on a chain so young that the search comes to time zero, or with a
block so late that 32 bytes do not hold its second, it ends with an overflow. -/
theorem newest_root_searched {number latest : Int} (told : LatestBlock nodes number latest)
    (since : 0 ≤ latest) (assigned : Assigned nodes outcome)
    (known : ∀ second, Callable second → IsOutcome (outcome second)) (n : Nat) (s : Session) :
    Searched outcome (slotSecond latest) n (afterLatest s number) (latestBeaconRoot n nodes s) := by
  have start : 0 ≤ slotSecond latest := by
    rw [slotSecond]
    omega
  rw [latestBeaconRoot_eq told, Int.toNat_natCast]
  exact searched_of_searchBack assigned known start n

/-- An execution node with a latest block, and with an answer for each call to the contract. -/
def chain (latest : Int) (answer : Call → Value) : Nodes :=
  { Nodes.unreachable with
    execution := fun _ call =>
      match call with
      | .chainId => .failed .web3 "no network"
      | .blockNumber => .answered (.int 500)
      | .block _ => .answered (.object [("timestamp", .int latest)])
      | .contract address data => .answered (answer (.contract address data)) }

/-- A contract that keeps one root, for one second. -/
def keepsOnly (second : Int) (root : ByteArray) (call : Call) : Value :=
  if call == rootCall second then .bytes root else .null

theorem latestBlock_chain (latest : Int) (answer : Call → Value) :
    LatestBlock (chain latest answer) 500 latest :=
  ⟨fun _ => ⟨_, rfl, rfl⟩, fun _ => ⟨_, _, rfl, rfl, rfl⟩⟩

theorem assigned_chain (latest : Int) (answer : Call → Value) :
    Assigned (chain latest answer) fun second => .answered (answer (rootCall second)) :=
  fun _ _ _ => rfl

theorem isOutcome_null : IsOutcome (.answered .null) := .answered rfl

theorem not_tellsRoot_null (root : ByteArray) : ¬TellsRoot (.answered .null) root := by
  rintro ⟨_, ⟨⟩, bytes, size, -⟩
  obtain rfl : ByteArray.empty = root := Except.ok.inj bytes
  cases size

theorem isOutcome_keepsOnly (second : Int) (root : ByteArray) (call : Call) :
    IsOutcome (.answered (keepsOnly second root call)) := by
  rw [keepsOnly]
  split
  · exact .answered (contents_bytes root)
  · exact isOutcome_null

/-- A root of which every byte is nine. -/
def nines : ByteArray := ⟨Array.replicate 32 9⟩

/-- The root of the slot that lies two slots before that of the latest block is found. -/
theorem newest_root_searched_two_back :
    let nodes := chain 1000005 (keepsOnly 999972 nines)
    let outcome := fun second => CallReply.answered (keepsOnly 999972 nines (rootCall second))
    LatestBlock nodes 500 1000005 ∧ (0 : Int) ≤ 1000005 ∧ Assigned nodes outcome ∧
      (∀ second, Callable second → IsOutcome (outcome second)) ∧
      Searched outcome (slotSecond 1000005) 10 (afterLatest .start 500)
        (latestBeaconRoot (10 : Nat) nodes .start) ∧
      latestBeaconRoot (10 : Nat) nodes .start =
        (.ok (nines, 999972), afterCalls (afterLatest .start 500) (calls 999996 3)) := by
  intro nodes outcome
  have told : LatestBlock nodes 500 1000005 := latestBlock_chain _ _
  have assigned : Assigned nodes outcome := assigned_chain _ _
  have known : ∀ second, Callable second → IsOutcome (outcome second) := fun second _ =>
    isOutcome_keepsOnly 999972 nines (rootCall second)
  have searched := newest_root_searched told (by decide) assigned known 10 .start
  have tells : TellsRoot (outcome 999972) nines := by
    have kept : keepsOnly 999972 nines (rootCall 999972) = .bytes nines := if_pos (by decide +kernel)
    show TellsRoot (.answered (keepsOnly 999972 nines (rootCall 999972))) nines
    rw [kept]
    exact tellsRoot_bytes rfl (by decide +kernel)
  have newer : Rootless outcome 999996 2 := by
    intro j lt other
    have none : keepsOnly 999972 nines (rootCall (back 999996 j)) = .null := by
      obtain rfl | rfl : j = 0 ∨ j = 1 := by omega
      · exact if_neg (by decide +kernel)
      · exact if_neg (by decide +kernel)
    show ¬TellsRoot (.answered (keepsOnly 999972 nines (rootCall (back 999996 j)))) other
    rw [none]
    exact not_tellsRoot_null other
  exact ⟨told, by decide, assigned, known, searched,
    searched.found 2 nines (by decide) (by decide +kernel) tells newer⟩

/-- A chain that is younger than the search is long: no slot has a root, and the search does not
fail as a failure of the node does. -/
theorem young_chain_outrun :
    let nodes := chain 5 fun _ => .null
    LatestBlock nodes 500 5 ∧ Assigned nodes (fun _ => .answered .null) ∧
      IsOutcome (.answered .null) ∧ (∀ root, ¬TellsRoot (.answered .null) root) ∧
      (latestBeaconRoot (10 : Nat) nodes .start).1 = .error (.misuse .overflow) ∧
      (Fault.misuse .overflow).kind ≠ .execution := by
  intro nodes
  have told : LatestBlock nodes 500 5 := latestBlock_chain _ _
  have assigned : Assigned nodes fun _ => .answered .null := assigned_chain _ _
  have start : 0 ≤ slotSecond 5 := by decide
  have searched := searched_of_searchBack (s := afterLatest .start 500) assigned
    (fun _ _ => isOutcome_null) start 10
  have outrun := searched.outrun (by decide +kernel) fun _ _ => not_tellsRoot_null
  refine ⟨told, assigned, isOutcome_null, not_tellsRoot_null, ?_, by decide⟩
  rw [latestBeaconRoot_eq told, Int.toNat_natCast]
  exact congrArg Prod.fst outrun

end BeaconBranch.ExecutionNode
