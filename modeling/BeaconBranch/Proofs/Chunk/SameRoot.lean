import BeaconBranch.Proofs.Chunk.Registry

/-!
One root from every builder. A row of chunks can be hashed layer by layer up to a depth, stored in a
sparse tree and stored in a dense tree. Each of the three gives the topmost node over the chunks as
long as there is room for them, and each refuses more chunks than that. So the two registries have
the roots of ordinary lists. Main statement: `builders_agree`.
-/

namespace BeaconBranch

open Outcome Merkle

namespace Merkle

/-- A computation fails with a fault that its caller has to answer for. -/
def Refused {α : Type} (x : Except Fault α) (f : Fault) : Prop :=
  x = .error f ∧ f.kind.isInvalidInput = true

/-- All three builders give the topmost node over the chunks. -/
structure SameRoot (chunks : Array ByteArray) (d : Nat) : Prop where
  layered : rootAtDepth? chunks d = .ok (nodeOver (DenseTree.leafOf chunks) d 0)
  sparse : (SparseTree.ofLeaves? d chunks.toList).map SparseTree.root =
    .ok (nodeOver (DenseTree.leafOf chunks) d 0)
  dense : (DenseTree.ofLeaves? chunks d).map DenseTree.root =
    .ok (nodeOver (DenseTree.leafOf chunks) d 0)

/-- All three builders refuse the chunks, each in its own words. -/
structure NoRoom (chunks : Array ByteArray) (d : Nat) : Prop where
  layered : Refused (rootAtDepth? chunks d) (.tooManyChunks chunks.size (twoTo d))
  sparse : Refused (SparseTree.ofLeaves? d chunks.toList)
    (.indexOutOfRange "leaf" (twoTo d) (twoTo d))
  dense : Refused (DenseTree.ofLeaves? chunks d) (.tooManyLeaves d chunks.size)

variable {chunks : Array ByteArray} {d : Nat}

theorem sameRoot (sizes : ∀ b ∈ chunks, b.size = 32) (room : chunks.size ≤ twoTo d) :
    SameRoot chunks d where
  layered := rootAtDepth?_eq_ok_iff.mpr ⟨room, rfl⟩
  sparse := map_eq_ok_iff.mpr (SparseTree.root_ofLeaves?_eq_ok_iff.mpr ⟨sizes, room, rfl⟩)
  dense := by
    obtain ⟨t, built, depth⟩ := DenseTree.exists_ofLeaves? sizes room
    exact map_eq_ok_iff.mpr ⟨t, built, by rw [DenseTree.root_of_ofLeaves? built, depth]⟩

/-- The first entry that a sparse tree refuses is the reason why it is not built. -/
theorem SparseTree.ofMapping?_of_error {entries : List (Int × ByteArray)} {f : Fault}
    (first : entries.mapM (fun e => checkEntry d e.1 e.2) = .error f) :
    ofMapping? d entries = .error f := by
  rw [ofMapping?, if_neg (by omega), Int.toNat_natCast]
  dsimp only
  rw [first]
  rfl

/-- A sparse tree takes leaves as long as it has room and refuses the position of the next one. -/
theorem SparseTree.ofLeaves?_of_no_room {leaves : List ByteArray}
    (sizes : ∀ b ∈ leaves, b.size = 32) (large : twoTo d < leaves.length) :
    ofLeaves? d leaves = .error (.indexOutOfRange "leaf" (twoTo d) (twoTo d)) := by
  have length : (leaves.take (twoTo d)).length = twoTo d := List.length_take_of_le (by omega)
  have listed : leaves.zipIdx = (leaves.take (twoTo d)).zipIdx ++
      (leaves[twoTo d], twoTo d) :: (leaves.drop (twoTo d + 1)).zipIdx (twoTo d + 1) := by
    conv_lhs => rw [← List.take_append_drop (twoTo d) leaves, List.zipIdx_append, length,
      Nat.zero_add, List.drop_eq_getElem_cons large, List.zipIdx_cons]
  have fit := accepts_zipIdx_iff.mpr
    ⟨fun b mem => sizes b (List.mem_of_mem_take mem), Nat.le_of_eq length⟩
  have next : checkEntry d (twoTo d : Nat) leaves[twoTo d] =
      .error (.indexOutOfRange "leaf" (twoTo d) (twoTo d)) := by
    rw [checkEntry, if_pos (.inr (Int.le_refl _))]
  rw [ofLeaves?, listed, List.map_append, List.map_cons]
  exact ofMapping?_of_error (mapM_eq_error_iff.mpr
    ⟨_, _, _, rfl, fun e mem => ⟨_, checkEntry_of_accepts (fit e mem)⟩, next⟩)

theorem noRoom (sizes : ∀ b ∈ chunks, b.size = 32) (positive : 1 ≤ d)
    (large : twoTo d < chunks.size) : NoRoom chunks d where
  layered := by
    refine ⟨?_, rfl⟩
    rw [rootAtDepth?, if_neg (by omega), Int.toNat_natCast]
    exact if_pos large
  sparse := ⟨SparseTree.ofLeaves?_of_no_room
    (fun b mem => sizes b (Array.mem_toList_iff.mp mem)) large, rfl⟩
  dense := by
    refine ⟨?_, rfl⟩
    have asked : DenseTree.depthAsked chunks d = d := by
      rw [DenseTree.depthAsked, if_neg (by omega), Int.toNat_natCast]
    rw [DenseTree.ofLeaves?, DenseTree.checkChunks_eq_ok_iff.mpr sizes]
    dsimp only
    have depth : (if (d : Int) = 0 then depthFor chunks.size else (d : Int).toNat) = d := asked
    rw [if_neg (by omega), depth, if_pos large]

end Merkle

namespace Chunk

/-- The list of the balances has the root of any list of as many numbers. -/
theorem uint64ListRoot?_eq_balancesRoot? {ns : List Int} (fit : ∀ n ∈ ns, 0 ≤ n ∧ n < twoTo 64)
    (room : ns.length ≤ twoTo 40) :
    ∃ root, uint64ListRoot? ns (twoTo 40) = .ok root ∧ balancesRoot? ns = .ok root := by
  have packed := packUint64s?_eq_ok_iff.mpr ⟨fit, rfl⟩
  have count := size_packUint64s? packed
  have powers : twoTo 40 = 4 * twoTo 38 := rfl
  have limit : ((twoTo 40 : Nat) * 8 + 31 : Int) / 32 = (twoTo 38 : Nat) := by omega
  have lengths : twoTo 40 < twoTo 256 := twoTo_lt (by decide)
  refine ⟨_, ?_, balancesRoot?_eq_ok_iff.mpr ⟨_, packed, by omega, by omega, rfl⟩⟩
  rw [uint64ListRoot?, packed]
  refine listRoot?_eq_ok_iff.mpr ⟨?_, by omega, ?_⟩
  · rw [limit, depthForLimit_twoTo]
    omega
  · rw [limit, depthForLimit_twoTo]

/-- The list of the validators has the root of any list of as many chunks. -/
theorem chunkListRoot?_eq_validatorsRoot? {roots : Array ByteArray}
    (sizes : ∀ b ∈ roots, b.size = 32) (room : roots.size ≤ twoTo 40) :
    ∃ root, chunkListRoot? roots (twoTo 40) = .ok root ∧
      validatorsRoot? roots.toList = .ok root := by
  have lengths : twoTo 40 < twoTo 256 := twoTo_lt (by decide)
  refine ⟨_, ?_, validatorsRoot?_eq_ok_iff.mpr ⟨sizes, room, by omega, rfl⟩⟩
  exact listRoot?_eq_ok_iff.mpr
    ⟨by rwa [depthForLimit_twoTo], by omega, by rw [depthForLimit_twoTo]⟩

/-- Three ways to hash a row of chunks agree on the root of every row that they have room for, and
none of them takes a longer one; the two registries therefore have the roots of lists of at most
`2 ^ 40` items, whichever way they are hashed. -/
theorem builders_agree {chunks : Array ByteArray} (sizes : ∀ b ∈ chunks, b.size = 32) (d : Nat)
    {ns : List Int} (fit : ∀ n ∈ ns, 0 ≤ n ∧ n < twoTo 64) :
    (chunks.size ≤ twoTo d → SameRoot chunks d) ∧
    (1 ≤ d → twoTo d < chunks.size → NoRoom chunks d) ∧
    (ns.length ≤ twoTo 40 →
      ∃ root, uint64ListRoot? ns (twoTo 40) = .ok root ∧ balancesRoot? ns = .ok root) ∧
    (chunks.size ≤ twoTo 40 →
      ∃ root, chunkListRoot? chunks (twoTo 40) = .ok root ∧
        validatorsRoot? chunks.toList = .ok root) :=
  ⟨sameRoot sizes, noRoom sizes, uint64ListRoot?_eq_balancesRoot? fit,
    chunkListRoot?_eq_validatorsRoot? sizes⟩

/-- Three chunks fill a tree of two levels up to its last leaf and are too many for one level. -/
theorem builders_agree_three_chunks :
    SameRoot #[lengthChunk 1, lengthChunk 2, lengthChunk 3] 2 ∧
    NoRoom #[lengthChunk 1, lengthChunk 2, lengthChunk 3] 1 ∧
    (∃ root, uint64ListRoot? [32, 0, 31, 0, 7] (twoTo 40) = .ok root ∧
      balancesRoot? [32, 0, 31, 0, 7] = .ok root) ∧
    ∃ root, chunkListRoot? #[lengthChunk 1, lengthChunk 2, lengthChunk 3] (twoTo 40) = .ok root ∧
      validatorsRoot? [lengthChunk 1, lengthChunk 2, lengthChunk 3] = .ok root := by
  have sizes : ∀ b ∈ #[lengthChunk 1, lengthChunk 2, lengthChunk 3], b.size = 32 := by simp
  have fit : ∀ n ∈ ([32, 0, 31, 0, 7] : List Int), 0 ≤ n ∧ n < twoTo 64 := by decide
  have two := builders_agree sizes 2 fit
  exact ⟨two.1 (by decide), (builders_agree sizes 1 fit).2.1 (by decide) (by decide),
    two.2.2.1 (by decide), two.2.2.2 (by decide)⟩

end Chunk

end BeaconBranch
