import BeaconBranch.Proofs.Merkle.Hashed
import BeaconBranch.Proofs.Record.Acceptance

/-!
Records from bytes to roots. Reading a record loses no byte and its root is hashed from all of its
values, so the root binds the bytes that the record was read from. Main statement: for each record
of the state, which byte strings are read, that the fields written one after another are these
strings, and that two of them with one root are equal unless two of the hashed messages collide.
-/

namespace BeaconBranch

open Outcome Merkle

/-! ### Messages -/

/-- The messages that are hashed for the leaf of a value: the halves of a public key and their
digests, the tree over the pieces of a logs bloom, and extra data with its length. -/
def FieldKind.LeafHashed : FieldKind → Value → ByteArray → Prop
  | bytes 48, .bytes b, m => m = b.extract 0 32 ∨ m = Bytes.padRight 32 (b.extract 32 48) ∨
      m = Sha256.digest (b.extract 0 32) ++
        Sha256.digest (Bytes.padRight 32 (b.extract 32 48))
  | bytes 256, .bytes b, m =>
      ∃ t, DenseTree.ofLeaves? (Bytes.chunks 32 b) 0 = .ok t ∧ t.Hashed m
  | extraData, .bytes b, m => m = Bytes.padRight 32 b ++ lengthChunk b.size
  | _, _, _ => False

/-- The messages that are hashed for the root of a record: those of its leaves and those of the tree
over them. -/
def Record.RootHashed (r : Record) (m : ByteArray) : Prop :=
  (∃ e ∈ r.schema.fields.zip r.values, e.1.kind.LeafHashed e.2 m) ∨
    ∃ t, r.tree? = .ok t ∧ t.Hashed m

/-- The leaf of a logs bloom is hashed as the tree over its pieces. -/
theorem FieldKind.leafHashed_bloom {b : ByteArray} (bloom : b.size = 256) {m : ByteArray}
    (hashed : (Derivation.ofChunks (Bytes.chunks 32 b) 3).Hashed m) :
    (bytes 256).LeafHashed (.bytes b) m := by
  have sizes : ∀ x ∈ Bytes.chunks 32 b, x.size = 32 := fun x mem =>
    Bytes.size_of_mem_chunks (by rw [bloom]) mem
  have count : (Bytes.chunks 32 b).size = 8 := by rw [Bytes.size_chunks, bloom]
  have built := DenseTree.ofLeaves?_eq_ok_iff.mpr
    ⟨sizes, Int.le_refl 0, DenseTree.le_twoTo_depthFor (Bytes.chunks 32 b).size, rfl⟩
  have depth : DenseTree.depthAsked (Bytes.chunks 32 b) 0 = 3 := by
    rw [DenseTree.depthAsked, if_pos rfl, count]
    rfl
  have ends := Derivation.map_value_given (Bytes.chunks 32 b).toList
  rcases Derivation.hashed_ofList built ends (depth.symm ▸ hashed) with layers | ⟨d, mem, own⟩
  · exact ⟨_, built, layers⟩
  -- The pieces themselves are given, so nothing is hashed for them.
  · obtain ⟨x, -, rfl⟩ := List.mem_map.mp mem
    exact own.elim

/-- A leaf is hashed from all messages of its derivation. -/
theorem FieldKind.leafHashed_of_derivation {k : FieldKind} {v : Value} (holds : k.Holds v)
    {m : ByteArray} (hashed : (k.derivation v).Hashed m) : k.LeafHashed v m := by
  cases k with
  | uint64 =>
    obtain ⟨n, rfl, -⟩ := holds_uint64_iff.mp holds
    exact hashed.elim
  | uint256 =>
    obtain ⟨n, rfl, -⟩ := holds_uint256_iff.mp holds
    exact hashed.elim
  | flag =>
    obtain ⟨b, rfl⟩ := holds_flag_iff.mp holds
    exact hashed.elim
  | chunk =>
    obtain ⟨b, rfl, -⟩ := holds_chunk_iff.mp holds
    exact hashed.elim
  | extraData =>
    obtain ⟨b, rfl, -⟩ := holds_extraData_iff.mp holds
    rcases hashed with rfl | none | none
    · rfl
    · exact none.elim
    · exact none.elim
  | bytes n =>
    obtain ⟨b, rfl, rfl⟩ := holds_bytes_iff.mp holds
    rw [derivation, bytesDerivation] at hashed
    split at hashed
    · rename_i key
      rw [key]
      rcases hashed with joined | head | tail
      · exact .inr (.inr joined)
      · exact .inl head
      · exact .inr (.inl tail)
    · split at hashed
      · rename_i bloom
        rw [bloom]
        exact leafHashed_bloom bloom hashed
      · exact hashed.elim

/-- The root of a record that fits its schema is hashed from all messages of its derivation. -/
theorem Record.rootHashed_of_derivation {r : Record} {s : Schema} (regular : s.Regular)
    (fits : r.Fits s) {m : ByteArray} (hashed : r.derivation.Hashed m) : r.RootHashed m := by
  obtain ⟨chunks, t, made, built, -⟩ := root?_eq_ok_iff.mp (root?_eq regular fits)
  obtain rfl : r.fieldDerivations.map Derivation.value = chunks :=
    Except.ok.inj ((chunks?_eq regular fits).symm.trans made)
  have depth : t.depth = depthFor r.schema.fields.length := by
    rw [DenseTree.depth_of_ofLeaves? built, DenseTree.depthAsked, if_pos rfl, List.size_toArray,
      List.length_map, length_fieldDerivations fits, fits.schema]
  rw [derivation, ← depth] at hashed
  rcases Derivation.hashed_ofList built rfl hashed with layers | ⟨d, mem, own⟩
  · refine .inr ⟨t, ?_, layers⟩
    rw [tree?_eq, made]
    exact built
  · obtain ⟨i, found⟩ := List.getElem?_of_mem mem
    obtain ⟨f, v, field, value, rfl⟩ := List.getElem?_zipWith_eq_some.mp found
    have holds := forall₂_getElem? fits.values (fits.schema ▸ field) value
    refine .inl ⟨(f, v), ?_, FieldKind.leafHashed_of_derivation holds own⟩
    exact List.mem_of_getElem? (List.getElem?_zip_eq_some.mpr ⟨field, value⟩)

/-! ### Faithful schemas -/

/-- The byte strings that are read as records of a schema are the accepted ones. Reading and writing
invert each other, and the root of a record that was read binds its bytes. -/
structure Schema.Faithful (s : Schema) (Accepted : ByteArray → Prop) : Prop where
  accepts : ∀ b, (∃ r, s.decode? b = .ok r) ↔ Accepted b
  refuses : ∀ b f, s.decode? b = .error f → f.kind = .recordBounds
  written : ∀ b r, s.decode? b = .ok r → r.Fits s ∧ r.encode = b
  reread : ∀ r, r.Fits s → s.decode? r.encode = .ok r
  rooted : ∀ b r, s.decode? b = .ok r → ∃ root, r.root? = .ok root
  binds : ∀ a b q r root, s.decode? a = .ok q → s.decode? b = .ok r →
    q.root? = .ok root → r.root? = .ok root →
      a = b ∨ Collision fun m => q.RootHashed m ∨ r.RootHashed m

namespace Schema

variable {s : Schema}

/-- The root of a record binds the bytes that it was read from. -/
theorem root_binds_bytes (regular : s.Regular) {a b root : ByteArray} {q r : Record}
    (readA : s.decode? a = .ok q) (readB : s.decode? b = .ok r) (rootA : q.root? = .ok root)
    (rootB : r.root? = .ok root) : a = b ∨ Collision fun m => q.RootHashed m ∨ r.RootHashed m := by
  obtain ⟨fitsA, rfl⟩ := (decode?_eq_ok_iff regular).mp readA
  obtain ⟨fitsB, rfl⟩ := (decode?_eq_ok_iff regular).mp readB
  have valueA := Except.ok.inj ((Record.root?_eq regular fitsA).symm.trans rootA)
  have valueB := Except.ok.inj ((Record.root?_eq regular fitsB).symm.trans rootB)
  refine (Record.binds_derivation regular fitsA fitsB (valueA.trans valueB.symm)).imp
    (congrArg Record.encode) (Collision.mono fun m => ?_)
  exact Or.imp (Record.rootHashed_of_derivation regular fitsA)
    (Record.rootHashed_of_derivation regular fitsB)

theorem faithful_of_accepts (regular : s.Regular) {Accepted : ByteArray → Prop}
    (accepts : ∀ b, (∃ r, s.decode? b = .ok r) ↔ Accepted b) : s.Faithful Accepted where
  accepts := accepts
  refuses _ _ failed := boundsOnly_decode? _ failed
  written _ _ read := (decode?_eq_ok_iff regular).mp read
  reread _ fits := (decode?_eq_ok_iff regular).mpr ⟨fits, rfl⟩
  rooted _ _ read := ⟨_, Record.root?_eq regular ((decode?_eq_ok_iff regular).mp read).1⟩
  binds _ _ _ _ _ readA readB rootA rootB := root_binds_bytes regular readA readB rootA rootB

/-- Every record of the state is read from the byte strings of its size, whose flags are flags and
whose extra data starts behind the fixed part, and from no others; it is written as it was read, and
its root binds it. -/
theorem records_faithful :
    fork.Faithful (·.size = 16) ∧ blockHeader.Faithful (·.size = 112) ∧
    checkpoint.Faithful (·.size = 40) ∧ eth1Data.Faithful (·.size = 72) ∧
    historicalSummary.Faithful (·.size = 64) ∧
    validator.Faithful (fun b => b.size = 121 ∧ IsFlagAt b 88) ∧
    payloadHeader.Faithful (fun b =>
      584 ≤ b.size ∧ b.size ≤ 616 ∧ Bytes.toNatLE (b.extract 436 440) = 584) := by
  have plain {s : Schema} (regular : s.Regular) (none : s.extraDataPlace? = none)
      (noFlags : ∀ p ∈ s.places, p.2.kind ≠ .flag) : s.Faithful (·.size = s.size) :=
    faithful_of_accepts regular fun _ => exists_decode?_iff_size regular none noFlags
  refine ⟨plain (by decide) (by decide) (by decide), plain (by decide) (by decide) (by decide),
    plain (by decide) (by decide) (by decide), plain (by decide) (by decide) (by decide),
    plain (by decide) (by decide) (by decide), ?_, ?_⟩
  · exact faithful_of_accepts (by decide) fun _ => exists_decode?_validator_iff
  · exact faithful_of_accepts (by decide) fun _ => exists_decode?_payloadHeader_iff

end Schema

end BeaconBranch
