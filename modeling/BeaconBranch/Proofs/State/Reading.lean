import BeaconBranch.Proofs.Lookup
import BeaconBranch.Proofs.State.SectionRoot
import BeaconBranch.Proofs.State.Tiling
import BeaconBranch.State.Snapshot

/-!
Reading states. A state is read if its sections are, each in its own way; twelve of them become
values, and the bytes of the others are kept. Main statements: what a state was read from, and that
each of its fields has the root of the section, whether it is hashed from its value or from its
bytes.
-/

namespace BeaconBranch

open Outcome Merkle

namespace State

/-! ### Sections by name -/

theorem nodup_names : (fields.map (·.name)).Nodup := by decide

/-- A section is found by the name of its field. -/
theorem lookup_section {parts : List ByteArray} {k : Nat} {f : SectionField} {b : ByteArray}
    (field : fields[k]? = some f) (part : parts[k]? = some b) :
    ((fields.map (·.name)).zip parts).lookup f.name = some b :=
  lookup_zip nodup_names (by rw [List.getElem?_map, field]; rfl) part

end State

open State

namespace Snapshot

/-- A state was read from these sections. -/
structure ReadFrom (s : Snapshot) (all : Sections) : Prop where
  genesisTime : s.genesisTime = Bytes.toNatLE (all.get "genesis_time")
  genesisValidatorsRoot : s.genesisValidatorsRoot = all.get "genesis_validators_root"
  slot : s.slot = Bytes.toNatLE (all.get "slot")
  fork : Schema.fork.decode? (all.get "fork") = .ok s.fork
  latestBlockHeader :
    Schema.blockHeader.decode? (all.get "latest_block_header") = .ok s.latestBlockHeader
  validators : decodeValidators? (all.get "validators") = .ok s.validators
  balances : decodeBalances? (all.get "balances") = .ok s.balances
  blockRoots : s.blockRoots = Bytes.chunks 32 (all.get "block_roots")
  stateRoots : s.stateRoots = Bytes.chunks 32 (all.get "state_roots")
  eth1Data : ∃ r, Schema.eth1Data.decode? (all.get "eth1_data") = .ok r ∧ s.eth1Data? = some r
  eth1DepositIndex : s.eth1DepositIndex = Bytes.toNatLE (all.get "eth1_deposit_index")
  payloadHeader : ∃ r, Schema.payloadHeader.decode? (all.get "latest_execution_payload_header") =
    .ok r ∧ s.payloadHeader? = some r
  sections : s.sections = all.filter fun e => !typedFields.contains e.1

/-- A buffer is read as a state exactly if its sections are. -/
theorem decode?_eq_ok_iff {data : ByteArray} {s : Snapshot} :
    decode? data = .ok s ↔ ∃ all, sections? data = .ok all ∧ s.ReadFrom all := by
  rw [decode?, bind_eq_ok_iff]
  refine exists_congr fun all => and_congr_right fun _ => ?_
  constructor
  · intro read
    dsimp only at read
    split at read
    · cases read
    · split at read
      · cases read
      · simp only [bind_eq_ok_iff, pure_eq_ok_iff] at read
        obtain ⟨fork, forkOk, header, headerOk, validators, validatorsOk, balances, balancesOk,
          eth1, eth1Ok, payload, payloadOk, rfl⟩ := read
        exact ⟨rfl, rfl, rfl, forkOk, headerOk, validatorsOk, balancesOk, rfl, rfl,
          ⟨eth1, eth1Ok, rfl⟩, rfl, ⟨payload, payloadOk, rfl⟩, rfl⟩
  · intro read
    have wholeV : (all.get "validators").size % Limits.validatorRecordSize = 0 :=
      (decodeValidators?_eq_ok_iff.mp read.validators).1
    have wholeB := (decodeBalances?_eq_ok_iff.mp read.balances).1
    rw [if_neg (not_not.mpr wholeV), if_neg (not_not.mpr wholeB)]
    simp only [bind_eq_ok_iff, pure_eq_ok_iff]
    obtain ⟨time, root, slot, fork, header, validators, balances, blocks, states, ⟨eth1, eth1Ok,
      eth1Same⟩, index, ⟨payload, payloadOk, payloadSame⟩, kept⟩ := read
    refine ⟨_, fork, _, header, _, validators, _, balances, eth1, eth1Ok, payload, payloadOk, ?_⟩
    rw [← time, ← root, ← slot, ← blocks, ← states, ← eth1Same, ← index, ← payloadSame, ← kept]

/-! ### Roots of fields -/

theorem typedRoot?_eq_none (s : Snapshot) {name : String}
    (untyped : typedFields.contains name = false) : s.typedRoot? name = none := by
  rw [typedRoot?]
  all_goals
    rintro rfl
    exact absurd untyped (by decide)

theorem getD_section {parts : List ByteArray} {k : Nat} {f : SectionField} {b : ByteArray}
    (field : fields[k]? = some f) (part : parts[k]? = some b) :
    Sections.get ((fields.map (·.name)).zip parts) f.name = b := by
  rw [Sections.get, lookup_section field part]
  rfl

/-- The positions of the fields that are read as values. -/
theorem position_of_typed {k : Nat} {f : SectionField} (field : fields[k]? = some f)
    (typed : typedFields.contains f.name = true) :
    k ∈ [0, 1, 2, 3, 4, 5, 6, 8, 10, 11, 12, 24] := by
  have all : ∀ e ∈ (fields.map (·.name)).zipIdx, typedFields.contains e.1 = true →
    e.2 ∈ [0, 1, 2, 3, 4, 5, 6, 8, 10, 11, 12, 24] := by decide
  refine all (f.name, k) (List.mem_zipIdx_iff_getElem?.mpr ?_) typed
  rw [List.getElem?_map, field]
  rfl

variable {s : Snapshot} {parts : List ByteArray} {heap k : Nat} {f : SectionField} {b : ByteArray}

theorem name_of_payloadHeader : ∀ f ∈ fields, f.kind = .payloadHeader →
    f.name = "latest_execution_payload_header" := by
  simp [fields]

/-- The section of the payload header is not empty. -/
theorem ReadFrom.size_payloadHeader (read : s.ReadFrom ((fields.map (·.name)).zip parts))
    (field : fields[k]? = some f) (part : parts[k]? = some b) (kind : f.kind = .payloadHeader) :
    b.size ≠ 0 := by
  obtain ⟨r, same, -⟩ := read.payloadHeader
  have get := getD_section field part
  rw [name_of_payloadHeader f (List.mem_of_getElem? field) kind] at get
  rw [get] at same
  intro none
  have least := Schema.size_le_of_decode? (by decide) same
  rw [none] at least
  exact absurd least (by decide)

/-- A vector of past roots is hashed from its pieces as from its bytes. -/
theorem vectorRoot?_chunks (size : b.size = Limits.slotsPerHistoricalRoot * 32) :
    typedRoot?.vectorRoot? (Bytes.chunks 32 b) =
      some (Merkle.vectorRoot? (chunksOf b) Limits.slotsPerHistoricalRoot) := by
  have whole : b.size % 32 = 0 := by rw [size, Nat.mul_mod_left]
  have count := Bytes.size_chunks_of_whole (by decide) whole
  have some : (Bytes.chunks 32 b).isEmpty = false := by
    rw [Array.isEmpty_eq_false_iff, ne_eq, ← Array.size_eq_zero_iff]
    rw [size, Limits.slotsPerHistoricalRoot] at count
    omega
  rw [typedRoot?.vectorRoot?, some, chunksOf, Bytes.padToMultiple_of_dvd whole]
  rfl

/-- The validators' roots are computed one after another in a list as in an array. -/
theorem validatorsRoot?_eq (s : Snapshot) : s.validatorsRoot? =
    s.validators.mapM Record.root? >>= fun roots => Chunk.validatorsRoot? roots.toList := by
  rw [validatorsRoot?, validatorRoots?, Array.mapM_eq_mapM_toList]
  cases s.validators.toList.mapM Record.root? <;> rfl

theorem root?_of_decode? {schema : Schema} {r : Record} (read : schema.decode? b = .ok r) :
    schema.decode? b >>= Record.root? = r.root? := by
  rw [read]
  rfl

/-- A field that is read as a value has the root of the section that it was read from. -/
theorem ReadFrom.typedRoot?_eq (read : s.ReadFrom ((fields.map (·.name)).zip parts))
    (tiles : Tiles heap fields parts) (field : fields[k]? = some f) (part : parts[k]? = some b)
    (typed : typedFields.contains f.name = true) : s.typedRoot? f.name = some (f.root? b) := by
  have get := getD_section field part
  have sizes : ∀ {n}, f.size? = some n → b.size = n := tiles.size_eq field part
  have positions := position_of_typed field typed
  simp only [List.mem_cons, List.not_mem_nil, or_false] at positions
  rcases positions with rfl | rfl | rfl | rfl | rfl | rfl | rfl | rfl | rfl | rfl | rfl | rfl
  all_goals obtain rfl := Option.some.inj field
  -- One case for each of these fields, in their order in the state.
  · have same := read.genesisTime
    rw [get] at same
    exact congrArg (fun n => some (Chunk.ofUint64? n)) same
  · have same := read.genesisValidatorsRoot
    rw [get] at same
    have whole : Chunk.encodeBytes? b 32 = .ok b := by
      rw [Chunk.encodeBytes?, if_pos]
      rw [sizes rfl]
      rfl
    exact congrArg some ((congrArg (Chunk.encodeBytes? · 32) same).trans whole)
  · have same := read.slot
    rw [get] at same
    exact congrArg (fun n => some (Chunk.ofUint64? n)) same
  · have same := read.fork
    rw [get] at same
    exact congrArg some (root?_of_decode? same).symm
  · have same := read.latestBlockHeader
    rw [get] at same
    exact congrArg some (root?_of_decode? same).symm
  · have same := read.blockRoots
    rw [get] at same
    exact (congrArg typedRoot?.vectorRoot? same).trans (vectorRoot?_chunks (sizes rfl))
  · have same := read.stateRoots
    rw [get] at same
    exact (congrArg typedRoot?.vectorRoot? same).trans (vectorRoot?_chunks (sizes rfl))
  · obtain ⟨r, same, held⟩ := read.eth1Data
    rw [get] at same
    exact (congrArg (Option.map Record.root?) held).trans
      (congrArg some (root?_of_decode? same).symm)
  · have same := read.eth1DepositIndex
    rw [get] at same
    exact congrArg (fun n => some (Chunk.ofUint64? n)) same
  · have same := read.validators
    rw [get] at same
    have roots : (decodeValidators? b >>= fun vs => vs.mapM Record.root? >>= fun roots =>
        Chunk.validatorsRoot? roots.toList) = s.validatorsRoot? := by
      rw [same]
      exact (validatorsRoot?_eq s).symm
    exact congrArg some roots.symm
  · have same := read.balances
    rw [get] at same
    have root : decodeBalances? b >>= Chunk.balancesRoot? = s.balancesRoot? := by
      rw [same]
      rfl
    exact congrArg some root.symm
  · obtain ⟨r, same, held⟩ := read.payloadHeader
    rw [get] at same
    have root : SectionKind.payloadHeader.root? "latest_execution_payload_header" b = r.root? := by
      rw [SectionKind.root?, if_neg (read.size_payloadHeader field part rfl)]
      exact root?_of_decode? same
    exact (congrArg (Option.map Record.root?) held).trans (congrArg some root.symm)

/-- The bytes of any other field are kept. -/
theorem ReadFrom.lookup_sections (read : s.ReadFrom ((fields.map (·.name)).zip parts))
    (field : fields[k]? = some f) (part : parts[k]? = some b)
    (untyped : typedFields.contains f.name = false) : s.sections.lookup f.name = some b := by
  have kept : (!typedFields.contains f.name) = true := by rw [untyped]; rfl
  rw [read.sections, ← lookup_section field part]
  exact @lookup_filter _ _ (fun name => !typedFields.contains name) _ kept

/-- Each field has the root of the section that it was read from. -/
theorem ReadFrom.fieldRoot?_eq (read : s.ReadFrom ((fields.map (·.name)).zip parts))
    (tiles : Tiles heap fields parts) (field : fields[k]? = some f) (part : parts[k]? = some b) :
    s.fieldRoot? f = f.root? b := by
  rw [fieldRoot?]
  cases typed : typedFields.contains f.name with
  | true => rw [read.typedRoot?_eq tiles field part typed]
  | false =>
    rw [typedRoot?_eq_none s typed, read.lookup_sections field part typed]
    rfl

end Snapshot

end BeaconBranch
