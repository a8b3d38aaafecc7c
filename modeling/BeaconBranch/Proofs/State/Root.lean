import BeaconBranch.Proofs.State.Reading

/-!
Roots of states. A state has a root if each of its fields has one, and for a state that was read
from a buffer this says that every section is one that its field can have. Main statements: how the
root of such a state comes about from the sections, and that there is a state for all sections that
their fields can have.
-/

namespace BeaconBranch

open Outcome Merkle

namespace State

/-- How the roots of the fields come about from the sections. -/
def fieldDerivations (parts : List ByteArray) : List Derivation :=
  List.zipWith (fun f b => f.kind.derivation b) fields parts

/-- The sections of a buffer, in the order of the fields. -/
def partsOf (data : ByteArray) : List ByteArray :=
  match sections? data with
  | .ok all => all.map (·.2)
  | .error _ => []

/-- How the root of the state in a buffer comes about. -/
def derivation (data : ByteArray) : Derivation :=
  .ofList (fieldDerivations (partsOf data)) Limits.stateTreeDepth

/-- Sections that the fields of a state can have. -/
abbrev AllHold (parts : List ByteArray) : Prop :=
  List.Forall₂ (fun f b => f.kind.Holds b) fields parts

section Parts

variable {parts : List ByteArray}

theorem partsOf_encode (tiles : Tiles fixedRegionSize fields parts) :
    partsOf (encode parts) = parts := by
  rw [partsOf, sections?_eq_ok_iff.mpr ⟨parts, tiles, rfl, rfl⟩]
  dsimp only
  exact List.map_snd_zip (Nat.le_of_eq (by rw [List.length_map, tiles.length_eq]))

theorem length_fieldDerivations (holds : AllHold parts) : (fieldDerivations parts).length = 28 := by
  rw [fieldDerivations, List.length_zipWith, ← holds.length_eq, Nat.min_self]
  rfl

theorem size_of_mem_fieldDerivations (holds : AllHold parts) :
    ∀ t ∈ fieldDerivations parts, t.value.size = 32 := by
  intro t mem
  obtain ⟨k, found⟩ := List.getElem?_of_mem mem
  obtain ⟨f, b, field, part, rfl⟩ := List.getElem?_zipWith_eq_some.mp found
  exact SectionKind.size_derivation
    (SectionKind.regular_of_mem_fields f (List.mem_of_getElem? field))
    (forall₂_getElem? holds field part)

end Parts

end State

open State

namespace Snapshot

theorem fieldRoots?_nil (s : Snapshot) : s.fieldRoots? [] = State.fields.mapM s.fieldRoot? := by
  have pairs : s.fieldRoots? [] = State.fields.zipIdx.mapM (s.fieldRoot? ∘ Prod.fst) := rfl
  rw [pairs, ← List.mapM_map, List.zipIdx_map_fst]

/-- Roots that are known beforehand and right change nothing. -/
theorem fieldRoots?_known {s : Snapshot} {known : KnownRoots}
    (right : ∀ (i : Nat) (f : State.SectionField) (root : ByteArray), State.fields[i]? = some f →
      known.lookup (i : Int) = some root → s.fieldRoot? f = .ok root) :
    s.fieldRoots? known = s.fieldRoots? [] := by
  refine mapM_congr ?_
  intro e mem
  have found := List.mem_zipIdx_iff_getElem?.mp mem
  obtain ⟨f, i⟩ := e
  dsimp only
  split
  · rename_i root looked
    exact (right i f root found looked).symm
  · rfl

variable {s : Snapshot} {parts : List ByteArray} {a root : ByteArray}

/-- The roots of all fields are given exactly if every section can stand in a state. -/
theorem ReadFrom.fieldRoots?_eq_ok_iff (read : s.ReadFrom ((fields.map (·.name)).zip parts))
    (tiles : Tiles fixedRegionSize fields parts) {roots : List ByteArray} :
    s.fieldRoots? [] = .ok roots ↔
      AllHold parts ∧ roots = (fieldDerivations parts).map Derivation.value := by
  rw [fieldRoots?_nil, fieldDerivations, List.map_zipWith]
  refine mapM_eq_ok_iff_zipWith (forall₂_of_getElem? tiles.length_eq fun k f b field part r => ?_)
  rw [read.fieldRoot?_eq tiles field part]
  exact SectionKind.root?_eq_ok_iff
    (SectionKind.regular_of_mem_fields f (List.mem_of_getElem? field))
    (fun n size => tiles.size_eq field part size) (read.size_payloadHeader field part)

/-- A state has a root exactly if its fields have, and it is the root of the tree over them. -/
theorem root?_eq_ok_iff : s.root? = .ok root ↔ ∃ roots t, s.fieldRoots? [] = .ok roots ∧
    DenseTree.ofLeaves? roots.toArray Limits.stateTreeDepth = .ok t ∧ t.root = root := by
  simp only [root?, tree?, bind_eq_ok_iff, pure_eq_ok_iff]
  constructor
  · rintro ⟨t, ⟨roots, ok, built⟩, rfl⟩
    exact ⟨roots, t, ok, built, rfl⟩
  · rintro ⟨roots, t, ok, built, rfl⟩
    exact ⟨t, ⟨roots, ok, built⟩, rfl⟩

/-- The tree over the roots of 28 fields. -/
theorem stateRoot_eq {ds : List Derivation} {t : DenseTree}
    (built : DenseTree.ofLeaves? (ds.map Derivation.value).toArray Limits.stateTreeDepth = .ok t) :
    t.root = (Derivation.ofList ds Limits.stateTreeDepth).value := by
  have depth : t.depth = Limits.stateTreeDepth := DenseTree.depth_of_ofLeaves? built
  rw [DenseTree.root_of_ofLeaves? built, depth]
  exact (Derivation.value_ofList_of_chunks rfl _).symm

/-- What a buffer is like whose state has a root. -/
theorem of_decode?_of_root? (read : decode? a = .ok s) (hashed : s.root? = .ok root) :
    ∃ parts, Tiles fixedRegionSize fields parts ∧ AllHold parts ∧ encode parts = a ∧
      s.ReadFrom ((fields.map (·.name)).zip parts) ∧ (derivation a).value = root := by
  obtain ⟨all, cut, readFrom⟩ := decode?_eq_ok_iff.mp read
  obtain ⟨parts, tiles, rfl, whole⟩ := sections?_eq_ok_iff.mp cut
  obtain ⟨roots, t, ok, built, rfl⟩ := root?_eq_ok_iff.mp hashed
  obtain ⟨holds, rfl⟩ := (readFrom.fieldRoots?_eq_ok_iff tiles).mp ok
  refine ⟨parts, tiles, holds, whole, readFrom, ?_⟩
  rw [derivation, ← whole, partsOf_encode tiles]
  exact (stateRoot_eq built).symm

/-! ### Every family of sections -/

/-- A field has a section that its kind can have. -/
theorem exists_part (holds : AllHold parts) {k : Nat} {f : SectionField}
    (field : fields[k]? = some f) : ∃ b, parts[k]? = some b ∧
      Sections.get ((fields.map (·.name)).zip parts) f.name = b ∧ f.kind.Holds b := by
  have lt : k < parts.length := holds.length_eq ▸ (List.getElem?_eq_some_iff.mp field).1
  have part := List.getElem?_eq_getElem lt
  exact ⟨_, part, getD_section field part, forall₂_getElem? holds field part⟩

theorem exists_decodeValidators? {b : ByteArray} (holds : SectionKind.validators.Holds b) :
    ∃ records, decodeValidators? b = .ok records := by
  obtain ⟨pieced, reads⟩ := holds
  obtain ⟨records, read, -⟩ :=
    (Schema.readRoots_iff (by decide)).mpr ⟨reads, List.toList_toArray.symm⟩
  exact ⟨records, decodeValidators?_eq_ok_iff.mpr ⟨pieced.whole, read⟩⟩

/-- All sections that their fields can have make a buffer that is read as a state, and this state
has a root. -/
theorem exists_decode? (tiles : Tiles fixedRegionSize fields parts) (holds : AllHold parts) :
    ∃ s, decode? (encode parts) = .ok s ∧ s.ReadFrom ((fields.map (·.name)).zip parts) ∧
      s.root? = .ok (derivation (encode parts)).value := by
  obtain ⟨_, -, rfl, fork, forkOk⟩ := exists_part holds (k := 3) rfl
  obtain ⟨_, -, rfl, header, headerOk⟩ := exists_part holds (k := 4) rfl
  obtain ⟨_, -, rfl, eth1, eth1Ok⟩ := exists_part holds (k := 8) rfl
  obtain ⟨_, -, rfl, validators⟩ := exists_part holds (k := 11) rfl
  obtain ⟨_, -, rfl, balances⟩ := exists_part holds (k := 12) rfl
  obtain ⟨_, -, rfl, payload, payloadOk⟩ := exists_part holds (k := 24) rfl
  obtain ⟨records, recordsOk⟩ := exists_decodeValidators? validators
  have numbersOk := decodeBalances?_eq_ok_iff.mpr ⟨balances.1, rfl⟩
  let all : Sections := (fields.map (·.name)).zip parts
  let s : Snapshot := {
    genesisTime := Bytes.toNatLE (all.get "genesis_time")
    genesisValidatorsRoot := all.get "genesis_validators_root"
    slot := Bytes.toNatLE (all.get "slot")
    fork := fork
    latestBlockHeader := header
    validators := records
    balances := (Bytes.chunks 8 (all.get "balances")).toList.map fun x => (Bytes.toNatLE x : Int)
    blockRoots := Bytes.chunks 32 (all.get "block_roots")
    stateRoots := Bytes.chunks 32 (all.get "state_roots")
    eth1Data? := some eth1
    eth1DepositIndex := Bytes.toNatLE (all.get "eth1_deposit_index")
    payloadHeader? := some payload
    sections := all.filter fun e => !typedFields.contains e.1 }
  have read : s.ReadFrom all := ⟨rfl, rfl, rfl, forkOk, headerOk, recordsOk, numbersOk, rfl, rfl,
    ⟨eth1, eth1Ok, rfl⟩, rfl, ⟨payload, payloadOk, rfl⟩, rfl⟩
  have roots := (read.fieldRoots?_eq_ok_iff tiles).mpr ⟨holds, rfl⟩
  have sizes : ∀ b ∈ ((fieldDerivations parts).map Derivation.value).toArray, b.size = 32 := by
    intro b mem
    obtain ⟨t, inList, rfl⟩ := List.mem_map.mp (List.mem_toArray.mp mem)
    exact size_of_mem_fieldDerivations holds t inList
  have room : ((fieldDerivations parts).map Derivation.value).toArray.size ≤
      twoTo Limits.stateTreeDepth := by
    rw [List.size_toArray, List.length_map, length_fieldDerivations holds]
    decide
  obtain ⟨t, built, -⟩ := DenseTree.exists_ofLeaves? sizes room
  refine ⟨s, decode?_eq_ok_iff.mpr
    ⟨all, sections?_eq_ok_iff.mpr ⟨parts, tiles, rfl, rfl⟩, read⟩, read, ?_⟩
  rw [derivation, partsOf_encode tiles, ← stateRoot_eq built]
  exact root?_eq_ok_iff.mpr ⟨_, t, roots, built, rfl⟩

end Snapshot

end BeaconBranch
