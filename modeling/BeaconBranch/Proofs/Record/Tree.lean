import BeaconBranch.Proofs.Lookup
import BeaconBranch.Proofs.Merkle.Dense
import BeaconBranch.Proofs.Outcome
import BeaconBranch.Record.Beacon

/-!
The trees of records. A record that has a root has a leaf for each of its fields, and each of them
stands in the tree where the field stands in the schema. Main statements: what a root of a record
tells about its leaves, and what the root of a validator tells about its public key.
-/

namespace BeaconBranch

open Outcome

theorem Value.asBytes_eq_ok_iff {v : Value} {b : ByteArray} :
    v.asBytes = .ok b ↔ v = .bytes b := by
  cases v <;> simp [asBytes]

namespace Record

/-- A record has the fields of a schema, with a value for each. -/
structure IsA (r : Record) (s : Schema) : Prop where
  schema : r.schema = s
  values : r.values.length = s.fields.length

/-- The value of a field stands at the place of the field. -/
theorem IsA.getElem?_values {r : Record} {s : Schema} (isA : r.IsA s)
    (nodup : (s.fields.map (·.name)).Nodup) {k : Nat} {f : Field} (field : s.fields[k]? = some f) :
    r.values[k]? = some (r.get f.name) := by
  have lt : k < r.values.length := isA.values ▸ (List.getElem?_eq_some_iff.mp field).1
  have found := List.getElem?_eq_getElem lt
  have named : (s.fields.map (·.name))[k]? = some f.name := by
    rw [List.getElem?_map, field]
    rfl
  rw [get, isA.schema, Value.lookup_eq, lookup_zip nodup named found, found]
  rfl

/-- The chunks of a record's fields, as far as all of them have one. -/
def chunks? (r : Record) : Except Fault (List ByteArray) := do
  (← r.leaves?).mapM Value.toBytes

theorem tree?_eq (r : Record) :
    r.tree? = r.chunks? >>= fun chunks => Merkle.DenseTree.ofLeaves? chunks.toArray 0 := by
  simp only [tree?, chunks?, bind_assoc]

/-- A record has a root exactly if its chunks make a tree. -/
theorem root?_eq_ok_iff {r : Record} {b : ByteArray} : r.root? = .ok b ↔
    ∃ chunks t, r.chunks? = .ok chunks ∧ Merkle.DenseTree.ofLeaves? chunks.toArray 0 = .ok t ∧
      t.root = b := by
  simp only [root?, tree?_eq, bind_eq_ok_iff, pure_eq_ok_iff]
  constructor
  · rintro ⟨t, ⟨chunks, ok, built⟩, rfl⟩
    exact ⟨chunks, t, ok, built, rfl⟩
  · rintro ⟨chunks, t, ok, built, rfl⟩
    exact ⟨t, ⟨chunks, ok, built⟩, rfl⟩

theorem chunks?_eq_ok_iff {r : Record} {chunks : List ByteArray} : r.chunks? = .ok chunks ↔
    ∃ leaves, r.leaves? = .ok leaves ∧ leaves.mapM Value.toBytes = .ok chunks := bind_eq_ok_iff

/-- The chunk of a field is made from its value. -/
theorem leaf_of_chunks? {r : Record} {s : Schema} (isA : r.IsA s)
    (nodup : (s.fields.map (·.name)).Nodup) {chunks : List ByteArray} (ok : r.chunks? = .ok chunks)
    {k : Nat} {f : Field} (field : s.fields[k]? = some f) :
    ∃ leaf chunk, chunks[k]? = some chunk ∧ f.kind.leaf (r.get f.name) = .ok leaf ∧
      leaf.toBytes = .ok chunk := by
  obtain ⟨leaves, leavesOk, bytesOk⟩ := chunks?_eq_ok_iff.mp ok
  have pair : (r.schema.fields.zip r.values)[k]? = some (f, r.get f.name) :=
    List.getElem?_zip_eq_some.mpr ⟨isA.schema ▸ field, isA.getElem?_values nodup field⟩
  obtain ⟨leaf, foundLeaf, made⟩ := getElem?_of_mapM leavesOk pair
  obtain ⟨chunk, foundChunk, read⟩ := getElem?_of_mapM bytesOk foundLeaf
  exact ⟨leaf, chunk, foundChunk, made, read⟩

theorem length_chunks? {r : Record} {s : Schema} (isA : r.IsA s) {chunks : List ByteArray}
    (ok : r.chunks? = .ok chunks) : chunks.length = s.fields.length := by
  obtain ⟨leaves, leavesOk, bytesOk⟩ := chunks?_eq_ok_iff.mp ok
  rw [← (mapM_eq_ok_iff.mp bytesOk).length_eq, ← (mapM_eq_ok_iff.mp leavesOk).length_eq,
    List.length_zip, isA.schema, isA.values, Nat.min_self]

/-! ### Validators -/

/-- The public key of a validator that has a root is a byte string. -/
theorem publicKey_of_root? {r : Record} (isA : r.IsA .validator) {b : ByteArray}
    (hashed : r.root? = .ok b) : ∃ key, r.get "pubkey" = .bytes key := by
  obtain ⟨chunks, -, ok, -⟩ := root?_eq_ok_iff.mp hashed
  obtain ⟨leaf, -, -, made, -⟩ := leaf_of_chunks? isA (by decide) ok (k := 0) rfl
  simp only [FieldKind.leaf, bind_eq_ok_iff] at made
  obtain ⟨n, -, made⟩ := made
  split at made
  · simp only [bind_eq_ok_iff, Value.asBytes_eq_ok_iff] at made
    obtain ⟨key, isBytes, -⟩ := made
    exact ⟨key, isBytes⟩
  · cases made

/-- A validator that has a root can be shown. -/
theorem shownLeaves?_of_root? {r : Record} (isA : r.IsA .validator) {b : ByteArray}
    (hashed : r.root? = .ok b) : ∃ leaves, r.shownLeaves? = .ok leaves := by
  obtain ⟨key, pubkey⟩ := publicKey_of_root? isA hashed
  obtain ⟨chunks, -, ok, -⟩ := root?_eq_ok_iff.mp hashed
  obtain ⟨leaves, leavesOk, -⟩ := chunks?_eq_ok_iff.mp ok
  refine ⟨.bytes (Sha256.digest key) :: leaves.drop 1, ?_⟩
  simp only [shownLeaves?, publicKeyDigest?, pubkey, Value.asBytes, bind_eq_ok_iff, pure_eq_ok_iff]
  exact ⟨leaves, leavesOk, _, ⟨key, rfl, rfl⟩, rfl⟩

theorem publicKeyDigest?_of_root? {r : Record} (isA : r.IsA .validator) {b : ByteArray}
    (hashed : r.root? = .ok b) : ∃ digest, r.publicKeyDigest? = .ok digest := by
  obtain ⟨key, pubkey⟩ := publicKey_of_root? isA hashed
  refine ⟨Sha256.digest key, ?_⟩
  simp only [publicKeyDigest?, pubkey, Value.asBytes, bind_eq_ok_iff, pure_eq_ok_iff]
  exact ⟨key, rfl, rfl⟩

end Record

end BeaconBranch
