import BeaconBranch.Proofs.Composer.Trees
import BeaconBranch.Proofs.State.Encoding

/-!
Three ways to the same roots. A field can be hashed from the bytes of its section, from the values
that were read from them, and, for the two lists, from the trees of a composer. Main statement: for
every buffer that is read as a state the first two give the same root for each field and fail alike,
and a composer of this state has its roots and its branches.
-/

namespace BeaconBranch

open Outcome State

namespace Snapshot

/-- A state has the roots of these sections: each field has one, and the roots of the fields are
those of the sections, or both are missing. -/
structure HashesAs (s : Snapshot) (all : Sections) : Prop where
  names : all.map (·.1) = fields.map (·.name)
  roots : s.fieldRoots? [] = fields.mapM fun f => f.root? (all.get f.name)
  entry : ∀ roots, s.fieldRoots? [] = .ok roots →
    List.Forall₂ (fun f root => f.root? (all.get f.name) = .ok root) fields roots
  fails : (∃ e, s.fieldRoots? [] = .error e) ↔
    ∃ f ∈ fields, ∃ e, f.root? (all.get f.name) = .error e

/-- A state that was read from sections has their roots. -/
theorem ReadFrom.hashesAs {s : Snapshot} {heap : Nat} {parts : List ByteArray}
    (read : s.ReadFrom (named parts)) (tiles : Tiles heap fields parts) :
    s.HashesAs (named parts) := by
  have same : s.fieldRoots? [] =
      fields.mapM fun f => f.root? (Sections.get (named parts) f.name) := by
    rw [fieldRoots?_nil]
    refine mapM_congr fun f mem => ?_
    obtain ⟨k, field⟩ := List.getElem?_of_mem mem
    obtain ⟨b, part⟩ := tiles.exists_part field
    rw [read.fieldRoot?_eq tiles field part, named, getD_section field part]
  have count : (fields.map (·.name)).length = parts.length := by
    rw [List.length_map, tiles.length_eq]
  refine ⟨List.map_fst_zip (Nat.le_of_eq count), same,
    fun roots ok => mapM_eq_ok_iff.mp (same ▸ ok), ?_⟩
  rw [same, exists_mapM_eq_error_iff]

end Snapshot

namespace Composer

/-- A composer has the roots of a state and the branches of its fields. -/
structure Agrees (c : Composer) (s : Snapshot) : Prop where
  validators : s.validatorsRoot? = .ok c.validatorsRoot
  balances : s.balancesRoot? = .ok c.balancesRoot
  state : s.root? = .ok c.stateRoot
  branches : ∀ k : Int, c.fieldBranch? k = s.fieldBranch? k []

theorem Over.agrees {c : Composer} {s : Snapshot} {roots fieldRoots : List ByteArray}
    {chunks : Array ByteArray} (trees : c.Over s roots chunks fieldRoots) : c.Agrees s := by
  refine ⟨trees.validatorsRoot, trees.balancesRoot, trees.root?, fun k => ?_⟩
  have tree : s.tree? [] = .ok c.stateTree := by
    rw [Snapshot.tree?, trees.fields]
    exact trees.state
  rw [fieldBranch?, Snapshot.fieldBranch?, tree]
  rfl

end Composer

/-- The state in a buffer has the roots of the buffer's sections, whichever of its fields are hashed
from values, and its composer has the roots and the branches of the state. -/
theorem Snapshot.roots_agree {data : ByteArray} {s : Snapshot} (read : decode? data = .ok s) :
    (∃ all, sections? data = .ok all ∧ s.HashesAs all) ∧
      ∀ c, Composer.ofSnapshot? s = .ok c → c.Agrees s := by
  constructor
  · obtain ⟨all, cut, readFrom⟩ := decode?_eq_ok_iff.mp read
    obtain ⟨parts, tiles, rfl, -⟩ := sections?_eq_ok_iff.mp cut
    exact ⟨_, cut, readFrom.hashesAs tiles⟩
  · intro c built
    obtain ⟨_, _, _, trees⟩ := Composer.ofSnapshot?_spec built
    exact trees.agrees

theorem Snapshot.roots_agree_lone : ∃ s all c, decode? loneBuffer = .ok s ∧
    sections? loneBuffer = .ok all ∧ s.HashesAs all ∧ Composer.ofSnapshot? s = .ok c ∧
    c.Agrees s := by
  obtain ⟨s, root, read, hashed, -⟩ := exists_loneState
  obtain ⟨c, built⟩ := Composer.exists_ofSnapshot? hashed
  obtain ⟨⟨all, cut, hashes⟩, agrees⟩ := roots_agree read
  exact ⟨s, all, c, read, cut, hashes, built, agrees c built⟩

end BeaconBranch
