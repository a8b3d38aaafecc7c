import BeaconBranch.Proofs.Composer.Level
import BeaconBranch.Proofs.Remote.BeaconRoots
import BeaconBranch.Proofs.Service.Chain
import BeaconBranch.Proofs.Service.Telling

/-!
The check against the contract. A request asks the contract for the second in which its header's
slot starts. What the contract keeps for this second is the root of the block before, and the check
compares it with the root of the header's own block. Main statements: what the check makes of any
reply; and where the contract keeps the parent root of the header, every request of a service fails
at the check, unless the block were its own parent.
-/

namespace BeaconBranch.Service

open Exchange ExecutionNode Merkle

variable {α β : Type} {s : Settings} {nodes : Nodes} {node : ExecutionNode} {a : Session}
  {second : Int} {reply : CallReply} {blockRoot root : ByteArray}

/-! ### The check -/

/-- What the check makes of a reply: a root has to be that of the block, and a failure of the node
is passed over. -/
def verdict (second : Int) (blockRoot : ByteArray) (reply : CallReply) : Except Fault Unit :=
  match toldRoot? second reply with
  | .ok root => if root == blockRoot then .ok () else .error .oracleDiffers
  | .error f => if f.kind = .execution then .ok () else .error f

/-- The check calls the contract once. -/
theorem checkOracle_eq (isNode : executionNode? s = some node) (callable : Callable second)
    (blockRoot : ByteArray) (nodes : Nodes) (a : Session) :
    checkOracle s second blockRoot nodes a =
      (verdict second blockRoot (nodes.execution a.log (rootCall second)),
        note (.execution (rootCall second)) a) := by
  have asked := beaconRoot_of_callable callable nodes a
  have confirmed : confirms second blockRoot nodes a =
      ((toldRoot? second (nodes.execution a.log (rootCall second))).map (· == blockRoot),
        note (.execution (rootCall second)) a) := by
    rw [confirms, bind_apply, asked]
    rcases toldRoot? second (nodes.execution a.log (rootCall second)) with f | root
    · rfl
    · rfl
  rw [checkOracle, isNode, verdict]
  simp only [Option.isNone_some, Bool.false_eq_true, if_false, bind_apply, attempt, confirmed]
  rcases toldRoot? second (nodes.execution a.log (rootCall second)) with f | root
  · dsimp only [Except.map]
    split
    · rfl
    · rfl
  · dsimp only [Except.map]
    cases root == blockRoot
    · rfl
    · rfl

theorem verdict_of_tellsRoot (tells : TellsRoot reply root) : verdict second blockRoot reply =
    if root == blockRoot then .ok () else .error .oracleDiffers := by
  rw [verdict, toldRoot?_eq_ok_iff.mpr tells]

/-- A reply without a root is passed over. -/
theorem verdict_of_rootless (outcome : IsOutcome reply) (none : ∀ root, ¬TellsRoot reply root) :
    verdict second blockRoot reply = .ok () := by
  rw [verdict]
  cases told : toldRoot? second reply with
  | ok root => exact absurd (toldRoot?_eq_ok_iff.mp told) (none root)
  | error f => exact if_pos (kind_of_toldRoot? outcome told)

/-- The slots of headers start at seconds that a call to the contract can name. -/
theorem callable_slotStart {n : Network} (known : n ∈ Network.known) {t : Int} (ge : 0 ≤ t)
    (lt : t < twoTo 64) : Callable (slotStart t n.genesisTime) := by
  have genesis : ∀ n ∈ Network.known, 0 ≤ n.genesisTime ∧ n.genesisTime < 2000000000 := by decide
  obtain ⟨after, early⟩ := genesis n known
  have wide : 2000000000 + 12 * twoTo 64 < twoTo 256 := by decide +kernel
  have start : slotStart t n.genesisTime = n.genesisTime + t * 12 := rfl
  exact ⟨by omega, by omega⟩

/-! ### The network of a service -/

/-- From a session on, a service that uses its network finds this one. -/
def OnNetwork (s : Settings) (nodes : Nodes) (n : Network) (a : Session) : Prop :=
  ∀ b, Steps s nodes a b → ∃ c, network s nodes b = (.ok n, c)

variable {n : Network}

theorem kept_onNetwork : Kept s nodes (OnNetwork s nodes n) :=
  fun _ _ steps on c later => on c (steps.trans later)

theorem givesUnder_network :
    GivesUnder nodes (OnNetwork s nodes n) (network s) (· = n) := by
  intro a on
  obtain ⟨b, ran⟩ := on a .refl
  exact ⟨n, b, ran, kept_onNetwork a b (walks_network a _ b ran) on, rfl⟩

/-- Settings that name a network mean it in every session. -/
theorem onNetwork_of_name {name : String} (given : Settings.nonEmpty? s.network? = some name)
    (known : Network.ofName? name = .ok n) (settled : Settled s nodes a) :
    OnNetwork s nodes n a := by
  intro b steps
  cases held : b.network? with
  | some m =>
    have same : m = n := by
      cases (steps.advance.settled settled).network m held with
      | named given' known' =>
        cases given.symm.trans given'
        exact Except.ok.inj (known'.symm.trans known)
      | unasked unnamed => cases given.symm.trans unnamed
      | told unnamed => cases given.symm.trans unnamed
      | passedOver unnamed => cases given.symm.trans unnamed
    exact ⟨b, same ▸ network_of_known held⟩
  | none =>
    have found : findNetwork s nodes b = (.ok n, b) := by
      rw [findNetwork, given, Settings.networkOrMain?, given, Option.getD_some, known]
      rfl
    exact ⟨_, network_of_found held found⟩

/-- An execution node that always tells the same of the chain id settles one network. -/
theorem onNetwork_of_chainId (unnamed : Settings.nonEmpty? s.network? = none)
    (isNode : executionNode? s = some node)
    (tells : ∀ log, networkFrom (chainIdAfter node nodes log) = .ok n)
    (pinned : Pinned node nodes a) : OnNetwork s nodes n a := by
  intro b steps
  rcases pinned.steps unnamed isNode steps with ⟨unknown, missing, -⟩ | ⟨known, settles⟩
  · exact ⟨_, tells b.log ▸ network_eq unnamed isNode unknown missing⟩
  · rw [← Except.ok.inj ((tells _).symm.trans settles.told)] at known
    exact ⟨b, network_of_known known⟩

/-! ### Requests that fail -/

/-- From every session that meets a condition, a computation ends with a fault. -/
def FailsUnder (nodes : Nodes) (I : Session → Prop) (x : Exchange α) (f : Fault) : Prop :=
  ∀ a, I a → ∃ b, x nodes a = (.error f, b)

namespace FailsUnder

variable {I : Session → Prop} {x : Exchange α} {p : α → Prop} {f : Fault}

/-- A fault ends what would follow. -/
theorem bind (fails : FailsUnder nodes I x f) (next : α → Exchange β) :
    FailsUnder nodes I (x >>= next) f := by
  intro a met
  obtain ⟨b, ran⟩ := fails a met
  exact ⟨b, bind_eq_iff.mpr (.inr ⟨f, ran, rfl⟩)⟩

theorem bind_after {next : α → Exchange β} (first : GivesUnder nodes I x p)
    (fails : ∀ v, p v → FailsUnder nodes I (next v) f) : FailsUnder nodes I (x >>= next) f := by
  intro a met
  obtain ⟨v, u, ran, between, holds⟩ := first a met
  obtain ⟨b, failed⟩ := fails v holds u between
  exact ⟨b, bind_eq_iff.mpr (.inl ⟨v, u, ran, failed⟩)⟩

theorem bind_lift {r : Except Fault α} {v : α} {next : α → Exchange β} (ok : r = .ok v)
    (fails : FailsUnder nodes I (next v) f) :
    FailsUnder nodes I ((liftM r : Exchange α) >>= next) f := by
  rw [ok]
  exact fails

theorem of_leadsTo {y : Exchange α} (leads : LeadsTo nodes I x y)
    (fails : FailsUnder nodes I y f) : FailsUnder nodes I x f := by
  intro a met
  obtain ⟨b, between, same⟩ := leads a met
  rw [same]
  exact fails b between

end FailsUnder

/-- A request that cannot be anchored fails. -/
theorem fails_of_anchor {I : Session → Prop} (kept : Kept s nodes I) {f : Fault}
    (fails : ∀ d, Lasts nodes d → FailsUnder nodes I (anchor s d) f) {indices : List Int}
    (checked : checkIndices indices = .ok ()) {seconds : Number} (patient : Patient nodes seconds)
    (next : Deadline → Record × Anchor → Exchange α) :
    FailsUnder nodes I (do
      checkIndices indices
      let d ← Deadline.start seconds
      next d (← anchor s d)) f := by
  refine .bind_lift checked ?_
  refine .bind_after (.of_gives kept (walks_start seconds) (gives_start patient)) fun d lasts => ?_
  exact (fails d lasts).bind _

/-! ### The parent root -/

/-- The contract of a service's execution node keeps the parent root that a header names, for the
second in which the header's slot starts on a network. -/
structure KeepsParent (s : Settings) (nodes : Nodes) (n : Network) (header : Record)
    (parentRoot : ByteArray) : Prop where
  asked : ∃ node, executionNode? s = some node
  names : header.get "parent_root" = .bytes parentRoot
  nonzero : parentRoot ≠ Bytes.zeros 32
  replies : ∀ t, slotOf? header = .ok t → ∀ log,
    nodes.execution log (rootCall (slotStart t n.genesisTime)) = .answered (.bytes parentRoot)

variable {d : Deadline} {header : Record} {stateRoot parentRoot : ByteArray}

theorem KeepsParent.tells (keeps : KeepsParent s nodes n header parentRoot)
    (fits : header.Fits .blockHeader) : TellsRoot (.answered (.bytes parentRoot)) parentRoot := by
  obtain ⟨b, isBytes, size⟩ := FieldKind.holds_bytes_iff.mp (fits.holds (by decide) (k := 2) rfl)
  rw [keeps.names] at isBytes
  cases isBytes
  exact tellsRoot_bytes size keeps.nonzero

/-- The check compares the root of a block with that of the block before. -/
theorem KeepsParent.checkOracle_eq (keeps : KeepsParent s nodes n header parentRoot)
    (fits : header.Fits .blockHeader) (known : n ∈ Network.known) {t : Int}
    (slot : slotOf? header = .ok t) (blockRoot : ByteArray) (a : Session) :
    ∃ b, checkOracle s (slotStart t n.genesisTime) blockRoot nodes a =
      (if parentRoot == blockRoot then .ok () else .error .oracleDiffers, b) := by
  obtain ⟨node, isNode⟩ := keeps.asked
  obtain ⟨t', slot', ge, lt⟩ := slotOf?_of_fits fits
  obtain rfl : t' = t := Except.ok.inj (slot'.symm.trans slot)
  have asked := Service.checkOracle_eq isNode (callable_slotStart known ge lt) blockRoot nodes a
  rw [keeps.replies t' slot, verdict_of_tellsRoot (keeps.tells fits)] at asked
  exact ⟨_, asked⟩

/-- A block that is its own parent would be anchored. -/
theorem KeepsParent.givesUnder_anchor (keeps : KeepsParent s nodes n header parentRoot)
    (known : n ∈ Network.known) (block : TellsBlock s nodes header blockRoot stateRoot)
    (own : parentRoot = blockRoot) (lasts : Lasts nodes d) :
    GivesUnder nodes (OnNetwork s nodes n) (anchor s d) fun r =>
      AnchoredAt header blockRoot stateRoot r.2 := by
  refine Service.givesUnder_anchor kept_onNetwork lasts (fun t slot a on => ?_) block
  obtain ⟨m, b, ran, later, same⟩ := givesUnder_network a on
  rw [same] at ran
  have passes : Gives nodes (checkOracle s (slotStart t n.genesisTime) blockRoot) fun _ => True := by
    intro a
    obtain ⟨b, ran⟩ := keeps.checkOracle_eq block.fits known slot blockRoot a
    rw [if_pos (beq_iff_eq.mpr own)] at ran
    exact ⟨(), b, ran, trivial⟩
  exact ⟨n, b, ran, later, .of_gives kept_onNetwork (walks_checkOracle _ _) passes⟩

/-- Every other block fails at the check. -/
theorem KeepsParent.fails_anchor (keeps : KeepsParent s nodes n header parentRoot)
    (known : n ∈ Network.known) (block : TellsBlock s nodes header blockRoot stateRoot)
    (other : parentRoot ≠ blockRoot) (lasts : Lasts nodes d) :
    FailsUnder nodes (OnNetwork s nodes n) (anchor s d) .oracleDiffers := by
  obtain ⟨t, slot, -⟩ := slotOf?_of_fits block.fits
  refine .of_leadsTo (anchor_leadsTo kept_onNetwork lasts block) ?_
  refine .bind_after givesUnder_network fun m same => ?_
  refine .bind_lift slot (.bind ?_ _)
  rw [same]
  intro a _
  obtain ⟨b, ran⟩ := keeps.checkOracle_eq block.fits known slot blockRoot a
  rw [beq_eq_false_iff_ne.mpr other] at ran
  exact ⟨b, ran⟩

/-- Every request of a service for indices that it takes ends with a fault, if its time budget
lasts. -/
structure Refused (s : Settings) (nodes : Nodes) (a : Session) (f : Fault) : Prop where
  credentials : ∀ indices, checkIndices indices = .ok () → Patient nodes s.credentialsTimeout →
    ∃ b, credentialProof s indices nodes a = (.error f, b)
  balances : ∀ indices, checkIndices indices = .ok () → Patient nodes s.checkpointTimeout →
    ∃ b, checkpointProof s indices nodes a = (.error f, b)
  staleBalance : ∀ index, checkIndices [index] = .ok () → Patient nodes s.staleBalanceTimeout →
    ∃ b, staleBalanceProof s index nodes a = (.error f, b)

/-- With a beacon node that tells a block and a contract that keeps the block's parent root, a
service can anchor its requests exactly if the block is its own parent. All others fail, whatever
they ask for. -/
theorem contract_denies_block (known : n ∈ Network.known) (on : OnNetwork s nodes n a)
    (block : TellsBlock s nodes header blockRoot stateRoot)
    (keeps : KeepsParent s nodes n header parentRoot) :
    (parentRoot = blockRoot → ∀ d, Lasts nodes d → ∃ r b, anchor s d nodes a = (.ok r, b) ∧
      AnchoredAt header blockRoot stateRoot r.2) ∧
    (parentRoot ≠ blockRoot →
      (∀ d, Lasts nodes d → ∃ b, anchor s d nodes a = (.error .oracleDiffers, b)) ∧
      Refused s nodes a .oracleDiffers) := by
  constructor
  · intro own d lasts
    obtain ⟨r, b, ran, -, anchored⟩ := keeps.givesUnder_anchor known block own lasts a on
    exact ⟨r, b, ran, anchored⟩
  · intro other
    have fails : ∀ d, Lasts nodes d →
        FailsUnder nodes (OnNetwork s nodes n) (anchor s d) .oracleDiffers :=
      fun d lasts => keeps.fails_anchor known block other lasts
    refine ⟨fun d lasts => fails d lasts a on, fun indices checked patient => ?_,
      fun indices checked patient => ?_, fun index checked patient => ?_⟩
    · exact fails_of_anchor kept_onNetwork fails checked patient _ a on
    · exact fails_of_anchor kept_onNetwork fails checked patient _ a on
    · exact fails_of_anchor kept_onNetwork fails checked patient _ a on

/-- A header that names one root as that of its state and as that of its parent. -/
def twiceNaming (root : ByteArray) : Record :=
  ⟨.blockHeader, [.int 0, .int 0, .bytes root, .bytes root, .bytes zeroChunk]⟩

theorem fits_twiceNaming (size : root.size = 32) : (twiceNaming root).Fits .blockHeader := by
  have number : FieldKind.uint64.Holds (.int 0) := FieldKind.holds_zero .uint64
  have named : FieldKind.Holds (.bytes 32) (.bytes root) := size
  have node : FieldKind.Holds (.bytes 32) (.bytes zeroChunk) := size_zeroChunk
  exact ⟨rfl, .cons number (.cons number (.cons named (.cons named (.cons node .nil))))⟩

theorem root?_twiceNaming (size : root.size = 32) : (twiceNaming root).root? =
    .ok (join (join (zeroHash 1) (join root root)) (join (zeroHash 1) (zeroHash 1))) := by
  have fits := fits_twiceNaming size
  have chunks : (twiceNaming root).chunks? = .ok [zeroChunk, zeroChunk, root, root, zeroChunk] := by
    have own : (FieldKind.bytesDerivation root).value = root := by
      simp [FieldKind.bytesDerivation, Derivation.value, size, Bytes.padRight, Bytes.pushZeros]
    have leaves : (twiceNaming root).fieldDerivations.map Derivation.value =
        [zeroChunk, zeroChunk, (FieldKind.bytesDerivation root).value,
          (FieldKind.bytesDerivation root).value, zeroChunk] := rfl
    rw [Record.chunks?_eq (by decide) fits, leaves, own]
  rw [Record.root?_blockHeader fits chunks, zeroHash_succ, zeroHash_zero]
  rfl

/-- The node over two zero chunks is neither zero nor the root of the header that names it. -/
theorem firstByte_pair :
    let pair := join zeroChunk zeroChunk
    pair.data.getD 0 0 ≠ 0 ∧
      (join (join pair (join pair pair)) (join pair pair)).data.getD 0 0 ≠ pair.data.getD 0 0 := by
  decide +kernel

theorem pair_ne_zero : zeroHash 1 ≠ Bytes.zeros 32 := by
  intro same
  rw [zeroHash_succ, zeroHash_zero] at same
  exact firstByte_pair.1 (congrArg (fun b => b.data.getD 0 0) same)

theorem root_twiceNaming_ne_pair : (twiceNaming (zeroHash 1)).derivation.value ≠ zeroHash 1 := by
  have size : (zeroHash 1).size = 32 := size_zeroHash 1
  have hashed := root?_twiceNaming size
  rw [Record.root?_eq (by decide) (fits_twiceNaming size)] at hashed
  rw [Except.ok.inj hashed, zeroHash_succ, zeroHash_zero]
  exact fun same => firstByte_pair.2 (congrArg (fun b => b.data.getD 0 0) same)

/-- The reply of a beacon node that tells one header and its root. -/
def blockReply (header : Record) (path : String) : Answer :=
  if path = "/eth/v1/beacon/headers/" ++ finalized then dataReply (headerData header)
  else dataReply (rootData header.derivation.value)

/-- The reply of an execution node of the main network, the contract of which keeps one root. -/
def keepsRoot (root : ByteArray) : Call → CallReply
  | .chainId => .answered (.int 1)
  | .contract _ _ => .answered (.bytes root)
  | _ => .failed .web3 "rpc down"

/-- Nodes that tell one header, and keep the root that it names for its parent. -/
def keepingParent (root : ByteArray) : Nodes :=
  { telling "http://node" (blockReply (twiceNaming root)) with execution := fun _ => keepsRoot root }

theorem tellsBlock_keepingParent (given : Settings.nonEmpty? s.beaconUrl? = some "http://node")
    (size : root.size = 32) : TellsBlock s (keepingParent root) (twiceNaming root)
      (twiceNaming root).derivation.value root :=
  (tellsBlock_telling given (fits_twiceNaming size) rfl (if_pos rfl)
    (if_neg (by decide))).with_execution _

theorem keepsParent_keepingParent (isNode : executionNode? s = some node)
    (nonzero : root ≠ Bytes.zeros 32) (n : Network) :
    KeepsParent s (keepingParent root) n (twiceNaming root) root :=
  ⟨⟨node, isNode⟩, rfl, nonzero, fun _ _ _ => rfl⟩

theorem contract_denies_block_pair :
    let nodes := keepingParent (zeroHash 1)
    let header := twiceNaming (zeroHash 1)
    let blockRoot := header.derivation.value
    Network.mainnet ∈ Network.known ∧ OnNetwork chainSettings nodes .mainnet .start ∧
      TellsBlock chainSettings nodes header blockRoot (zeroHash 1) ∧
      KeepsParent chainSettings nodes .mainnet header (zeroHash 1) ∧
      (zeroHash 1 = blockRoot → ∀ d, Lasts nodes d →
        ∃ r b, anchor chainSettings d nodes .start = (.ok r, b) ∧
          AnchoredAt header blockRoot (zeroHash 1) r.2) ∧
      (zeroHash 1 ≠ blockRoot →
        (∀ d, Lasts nodes d →
          ∃ b, anchor chainSettings d nodes .start = (.error .oracleDiffers, b)) ∧
        Refused chainSettings nodes .start .oracleDiffers) := by
  intro nodes header blockRoot
  have known : Network.mainnet ∈ Network.known := List.mem_cons_self
  have isNode : executionNode? chainSettings = some ⟨"http://chain"⟩ := rfl
  have on : OnNetwork chainSettings nodes .mainnet .start :=
    onNetwork_of_chainId rfl isNode (fun _ => rfl) pinned_start
  have block : TellsBlock chainSettings nodes header blockRoot (zeroHash 1) :=
    tellsBlock_keepingParent rfl (size_zeroHash 1)
  have keeps : KeepsParent chainSettings nodes .mainnet header (zeroHash 1) :=
    keepsParent_keepingParent isNode pair_ne_zero .mainnet
  exact ⟨known, on, block, keeps, contract_denies_block known on block keeps⟩

/-- Settings that name the main network beside the two nodes. -/
def mainSettings : Settings := { chainSettings with network? := some "mainnet" }

/-- A block that is refused: the beacon node tells it with its root, the contract keeps its parent
root, and time does not run. -/
theorem parent_root_refused :
    let nodes := keepingParent (zeroHash 1)
    let header := twiceNaming (zeroHash 1)
    OnNetwork mainSettings nodes .mainnet .start ∧
      TellsBlock mainSettings nodes header header.derivation.value (zeroHash 1) ∧
      KeepsParent mainSettings nodes .mainnet header (zeroHash 1) ∧
      Lasts nodes ⟨.whole 120, 0⟩ ∧
      (∃ b, anchor mainSettings ⟨.whole 120, 0⟩ nodes .start = (.error .oracleDiffers, b)) ∧
      Fault.oracleDiffers.kind = .service := by
  intro nodes header
  have settled : Settled mainSettings nodes .start := Reached.start.settled
  have on : OnNetwork mainSettings nodes .mainnet .start := onNetwork_of_name rfl rfl settled
  have block : TellsBlock mainSettings nodes header header.derivation.value (zeroHash 1) :=
    tellsBlock_keepingParent rfl (size_zeroHash 1)
  have keeps : KeepsParent mainSettings nodes .mainnet header (zeroHash 1) :=
    keepsParent_keepingParent rfl pair_ne_zero .mainnet
  have lasts : Lasts nodes ⟨.whole 120, 0⟩ := patient_of_still (fun _ => rfl) (by decide) 0
  exact ⟨on, block, keeps, lasts, keeps.fails_anchor List.mem_cons_self block
    root_twiceNaming_ne_pair.symm lasts .start on, rfl⟩

end BeaconBranch.Service
