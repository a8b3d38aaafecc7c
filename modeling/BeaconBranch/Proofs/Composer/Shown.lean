import BeaconBranch.Proofs.Composer.Sound

/-!
Records that need not fit. A validator's record may come from outside with values of any type, and
still be accepted under a state root. What the root binds then is not the record but its chunks.
Main statements: a record that is accepted at the place of a validator has the chunks of the state's
own record, unless two of the hashed messages collide, and so its flag counts as the state's own.
-/

namespace BeaconBranch

open Outcome Merkle

namespace Record

variable {own v : Record} {s : Schema}

/-- The root of a record that fits its schema binds the chunks of every record of the schema. -/
theorem chunks?_of_root? (regular : s.Regular) (fits : own.Fits s) (isA : v.IsA s)
    (hashed : v.root? = .ok own.derivation.value) : v.chunks? = own.chunks? ∨
      Collision fun m => own.derivation.Hashed m ∨ v.TreeHashed m := by
  obtain ⟨chunks, t, ok, built, root⟩ := root?_eq_ok_iff.mp hashed
  have count : chunks.length = s.fields.length := length_chunks? isA ok
  have sizes : ∀ b ∈ chunks, b.size = 32 := fun b mem =>
    (DenseTree.ofLeaves?_eq_ok_iff.mp built).1 b (List.mem_toArray.mpr mem)
  have depth : t.depth = depthFor chunks.length := by
    rw [DenseTree.depth_of_ofLeaves? built, DenseTree.depthAsked, if_pos rfl, List.size_toArray]
  have same : own.derivation.value =
      (Derivation.ofList (chunks.map .given) (depthFor chunks.length)).value := by
    rw [← root, DenseTree.root_of_ofLeaves? built, depth]
    exact (Derivation.value_ofChunks chunks.toArray _).symm
  have length : own.fieldDerivations.length = (chunks.map Derivation.given).length := by
    rw [List.length_map, length_fieldDerivations fits, count]
  have height : own.derivation = .ofList own.fieldDerivations (depthFor chunks.length) := by
    rw [derivation, fits.schema, count]
  rw [height] at same
  refine (Derivation.binds_ofList
    (P := fun i => (own.fieldDerivations.map Derivation.value)[i]? = chunks[i]?) length ?_
    (sizes_fieldDerivations regular fits) (Derivation.size_of_mem_map sizes)
    (fun i x y found found' => ?_) same).imp (fun equal => ?_)
    (Collision.mono fun m => Or.imp ?_ fun hashed => ⟨chunks, ok, .inl hashed⟩)
  · rw [length, List.length_map]
    exact DenseTree.le_twoTo_depthFor _
  · rw [List.getElem?_map, Option.map_eq_some_iff] at found'
    obtain ⟨b, foundB, rfl⟩ := found'
    refine (fun value => .inl ?_)
    rw [List.getElem?_map, found, foundB]
    exact congrArg some value
  · have chunksOfOwn : own.fieldDerivations.map Derivation.value = chunks :=
      Derivation.eq_of_getElem?_eq (by simpa using length) fun i lt =>
        equal i (by simpa using lt)
    rw [ok, chunks?_eq regular fits, chunksOfOwn]
  · rw [height]
    exact id

/-- A record with the chunks of a validator that fits counts as slashed if the validator is. -/
theorem slashed_of_chunks? (fits : own.Fits .validator) (isA : v.IsA .validator)
    (same : v.chunks? = own.chunks?) :
    own.get "slashed" = .flag (v.get "slashed").isTruthy := by
  have regular : Schema.validator.Regular := by decide
  have ok := chunks?_eq regular fits
  obtain ⟨leaf, chunk, found, made, read⟩ := leaf_of_chunks? fits.isA (by decide) ok (k := 3) rfl
  obtain ⟨leaf', chunk', found', made', read'⟩ :=
    leaf_of_chunks? isA (by decide) (same.trans ok) (k := 3) rfl
  obtain rfl : chunk = chunk' := Option.some.inj (found.symm.trans found')
  obtain ⟨b, flag⟩ := FieldKind.holds_flag_iff.mp (fits.holds (by decide) (k := 3) rfl)
  rw [flag] at made
  obtain rfl : Value.bytes (Chunk.ofFlag b) = leaf := Except.ok.inj made
  obtain rfl : Value.bytes (Chunk.ofFlag (v.get "slashed").isTruthy) = leaf' :=
    Except.ok.inj made'
  have flags : Chunk.ofFlag b = Chunk.ofFlag (v.get "slashed").isTruthy :=
    (Except.ok.inj read).trans (Except.ok.inj read').symm
  rw [flag, Chunk.ofFlag_injective flags]

end Record

namespace Composer

variable {c : Composer} {s : Snapshot} {data : ByteArray} {fields : List Derivation}
  {chunks : Array ByteArray}

/-- A record that is accepted at the place of a validator has the chunks of the validator. -/
theorem Traced.chunks_of_proves (traced : c.Traced s data fields chunks) (same : c.snapshot = s)
    {i : Nat} {own v : Record} (found : s.validators[i]? = some own) (inTree : i < twoTo 40)
    (isA : v.IsA .validator) {root : ByteArray} (hashed : v.root? = .ok root)
    {branch : List ByteArray} (length : branch.length = 46)
    (proven : proves root branch ((i + 11 * twoTo 41 : Nat) : Int) c.stateRoot = true) :
    v.chunks? = own.chunks? ∨ Collision fun m => State.TreeHashed data m ∨ v.TreeHashed m ∨
      Replayed root ((i + 11 * twoTo 41 : Nat) : Int) branch m := by
  obtain ⟨_, -, count, opens⟩ := traced.opens_validator same inTree
  rw [← traced.value_stateRoot] at proven
  rcases opens.unique (length.trans count.symm) proven with ⟨leaf, -⟩ | collision
  · rw [validatorLeaf_of_getElem? found] at leaf
    have fits := traced.fits own (Array.mem_of_getElem? found)
    rw [leaf] at hashed
    refine (Record.chunks?_of_root? (by decide) fits isA hashed).imp_right
      (Collision.mono fun m => ?_)
    rintro (ours | theirs)
    · exact .inl (.inl (traced.hashed_of_validator found inTree ours))
    · exact .inr (.inl theirs)
  · exact .inr (collision.mono fun m => Or.imp_right .inr)

end Composer

end BeaconBranch
