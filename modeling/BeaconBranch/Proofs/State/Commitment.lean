import BeaconBranch.Proofs.State.Existence

/-!
The root of a state binds its buffer. Each field binds its section in its own way, the tree of the
state binds the roots of the fields, and the sections make the buffer, offsets included. Main
statement: two buffers whose states have one root are equal, byte for byte, unless two of the
messages that were hashed for the roots collide.
-/

namespace BeaconBranch

open Outcome Merkle State

namespace State

variable {parts parts' : List ByteArray}

/-- The root of a state binds its sections. -/
theorem binds_fieldDerivations (holds : AllHold parts) (holds' : AllHold parts') :
    Derivation.Binds (.ofList (fieldDerivations parts) Limits.stateTreeDepth)
      (.ofList (fieldDerivations parts') Limits.stateTreeDepth) (parts = parts') := by
  have count := length_fieldDerivations holds
  have count' := length_fieldDerivations holds'
  refine (Derivation.binds_ofList (P := fun k => parts[k]? = parts'[k]?) (count.trans count'.symm)
    (by rw [count]; decide) (size_of_mem_fieldDerivations holds)
    (size_of_mem_fieldDerivations holds') fun k x y found found' => ?_).imp fun same => ?_
  · obtain ⟨f, b, field, part, rfl⟩ := List.getElem?_zipWith_eq_some.mp found
    obtain ⟨f', b', field', part', rfl⟩ := List.getElem?_zipWith_eq_some.mp found'
    obtain rfl : f = f' := Option.some.inj (field.symm.trans field')
    refine (SectionKind.binds_derivation
      (SectionKind.regular_of_mem_fields f (List.mem_of_getElem? field))
      (forall₂_getElem? holds field part) (forall₂_getElem? holds' field part')).imp ?_
    intro same
    rw [part, part', same]
  · rw [count] at same
    have length : parts.length = parts'.length := holds.length_eq.symm.trans holds'.length_eq
    have size : parts.length = 28 := holds.length_eq.symm
    exact Derivation.eq_of_getElem?_eq length fun k lt => same k (size ▸ lt)

end State

namespace Snapshot

variable {s s' : Snapshot} {a b root : ByteArray}

/-- The root of a state binds the whole buffer: two states with one root were read from the same
bytes, or two different messages that were hashed for this root have the same digest. -/
theorem root_binds_buffer (readA : decode? a = .ok s) (readB : decode? b = .ok s')
    (rootA : s.root? = .ok root) (rootB : s'.root? = .ok root) :
    (State.derivation a).value = root ∧ (State.derivation b).value = root ∧
      (a = b ∨
        Collision fun m => (State.derivation a).Hashed m ∨ (State.derivation b).Hashed m) := by
  obtain ⟨parts, tiles, holds, rfl, -, valueA⟩ := of_decode?_of_root? readA rootA
  obtain ⟨parts', tiles', holds', rfl, -, valueB⟩ := of_decode?_of_root? readB rootB
  refine ⟨valueA, valueB, ?_⟩
  have same := valueA.trans valueB.symm
  rw [State.derivation, State.derivation, partsOf_encode tiles, partsOf_encode tiles'] at same ⊢
  exact (binds_fieldDerivations holds holds' same).imp_left (congrArg encode)

theorem root_binds_buffer_lone : ∃ s root, decode? loneBuffer = .ok s ∧ s.root? = .ok root ∧
    (State.derivation loneBuffer).value = root := by
  obtain ⟨s, root, read, hashed, -⟩ := exists_loneState
  exact ⟨s, root, read, hashed, (root_binds_buffer read read hashed hashed).1⟩

end Snapshot

end BeaconBranch
