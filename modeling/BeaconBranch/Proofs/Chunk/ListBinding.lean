import BeaconBranch.Proofs.Chunk.Registry
import BeaconBranch.Proofs.Merkle.Hashed

/-!
Roots of lists bind them. Zeros behind the last item do not show in the data root, so lists that
differ in such zeros only are told apart by the length that is joined with it, and lists of one
length by their chunks. Main statement: two lists with one root are equal unless two of the messages
that were hashed for their roots collide, for each of the five ways to hash a list.
-/

namespace BeaconBranch

open Outcome Merkle

namespace Chunk

/-- Two lists with one root are equal, or two different messages that were hashed for their roots
have the same digest. -/
def Binding {α : Type} (root? : α → Except Fault ByteArray) (Hashed : α → ByteArray → Prop) :
    Prop :=
  ∀ x y r, root? x = .ok r → root? y = .ok r → x = y ∨ Collision fun m => Hashed x m ∨ Hashed y m

/-- The messages that are hashed for the root of a list of `n` items over a sparse tree. -/
def SparseHashed (tree? : Except Fault SparseTree) (n : Nat) (m : ByteArray) : Prop :=
  ∃ t, tree? = .ok t ∧ (t.RootHashed m ∨ m = t.root ++ lengthChunk n)

/-- The messages that are hashed for the root of a list of numbers. -/
def NumbersHashed (limit : Int) (ns : List Int) (m : ByteArray) : Prop :=
  ∃ chunks, packUint64s? ns = .ok chunks ∧ ListHashed chunks ((limit * 8 + 31) / 32) ns.length m

/-- Rows of chunks of 32 bytes. -/
abbrev Row : Type := { chunks : Array ByteArray // ∀ b ∈ chunks, b.size = 32 }

/-- The roots of the two registries and of lists of at most `limit` items bind the lists. -/
structure ListRootsBind (limit : Int) : Prop where
  balances : Binding balancesRoot? fun ns => SparseHashed (balancesTree? ns) ns.length
  validators : Binding validatorsRoot? fun roots =>
    SparseHashed (validatorsTree? roots) roots.length
  numbers : Binding (fun ns => uint64ListRoot? ns limit) (NumbersHashed limit)
  bytes : Binding (fun data => byteListRoot? data limit) fun data =>
    ListHashed (Bytes.chunks 32 (Bytes.padToMultiple 32 data)) ((limit + 31) / 32) data.size
  chunks : Binding (fun row : Row => chunkListRoot? row.1 limit) fun row =>
    ListHashed row.1 limit row.1.size

/-! ### Numbers -/

/-- Numbers are told by their chunks once it is known how many they are. -/
theorem packUint64s?_injective {ns ms : List Int} {chunks : Array ByteArray}
    (packed : packUint64s? ns = .ok chunks) (packed' : packUint64s? ms = .ok chunks)
    (length : ns.length = ms.length) : ns = ms := by
  refine List.ext_getElem length fun i lt lt' => ?_
  obtain ⟨chunk, found, read, nonneg⟩ := balanceIn?_packed packed (List.getElem?_eq_getElem lt)
  obtain ⟨chunk', found', read', nonneg'⟩ :=
    balanceIn?_packed packed' (List.getElem?_eq_getElem lt')
  obtain rfl : chunk = chunk' := Option.some.inj (found.symm.trans found')
  have same : (ns[i]).toNat = (ms[i]).toNat := Except.ok.inj (read.symm.trans read')
  omega

/-- The root over packed numbers and their length binds them. -/
theorem packed_binds {ns ms : List Int} {as bs : Array ByteArray} {d : Nat}
    (packedA : packUint64s? ns = .ok as) (packedB : packUint64s? ms = .ok bs)
    (room : as.size ≤ twoTo d) (ltN : ns.length < twoTo 256) (ltM : ms.length < twoTo 256)
    (same : join (nodeOver (DenseTree.leafOf as) d 0) (lengthChunk ns.length) =
      join (nodeOver (DenseTree.leafOf bs) d 0) (lengthChunk ms.length)) :
    ns = ms ∨ Collision fun m => RowHashed as d ns.length m ∨ RowHashed bs d ms.length m := by
  have count : ns.length = ms.length → as.size = bs.size := fun length => by
    rw [size_packUint64s? packedA, size_packUint64s? packedB, length]
  refine (row_binds (fun b mem => size_of_mem_packUint64s? packedA mem)
    (fun b mem => size_of_mem_packUint64s? packedB mem) ltN ltM count room same).imp_left ?_
  rintro ⟨rfl, length⟩
  exact packUint64s?_injective packedA packedB length

/-! ### Registries -/

/-- The root of a sparse tree and its length are hashed from all messages of its row. -/
theorem sparseHashed_of_rowHashed {chunks : Array ByteArray} {d n : Nat}
    {tree? : Except Fault SparseTree}
    (tree : ∀ t, SparseTree.ofLeaves? d chunks.toList = .ok t → tree? = .ok t)
    (sizes : ∀ b ∈ chunks, b.size = 32) (room : chunks.size ≤ twoTo d) {m : ByteArray}
    (hashed : RowHashed chunks d n m) : SparseHashed tree? n m := by
  obtain ⟨t, built, root⟩ := SparseTree.root_ofLeaves?_eq_ok_iff.mpr ⟨sizes, room, rfl⟩
  refine ⟨t, tree t built, hashed.imp (SparseTree.rootHashed_of_pairHashed built) ?_⟩
  rw [root]
  exact id

theorem balancesRoot?_binding :
    Binding balancesRoot? fun ns => SparseHashed (balancesTree? ns) ns.length := by
  intro ns ms r rootA rootB
  obtain ⟨as, packedA, roomA, ltA, rfl⟩ := balancesRoot?_eq_ok_iff.mp rootA
  obtain ⟨bs, packedB, roomB, ltB, same⟩ := balancesRoot?_eq_ok_iff.mp rootB
  have hashed : ∀ {ns : List Int} {chunks : Array ByteArray}, packUint64s? ns = .ok chunks →
      chunks.size ≤ twoTo 38 → ∀ {m}, RowHashed chunks 38 ns.length m →
        SparseHashed (balancesTree? ns) ns.length m := fun packed room =>
    sparseHashed_of_rowHashed (fun _ built => balancesTree?_eq_ok_iff.mpr ⟨_, packed, built⟩)
      (fun b mem => size_of_mem_packUint64s? packed mem) room
  refine (packed_binds packedA packedB roomA ltA ltB same).imp_right (Collision.mono fun m => ?_)
  exact Or.imp (hashed packedA roomA) (hashed packedB roomB)

theorem validatorsRoot?_binding :
    Binding validatorsRoot? fun roots => SparseHashed (validatorsTree? roots) roots.length := by
  intro as bs r rootA rootB
  obtain ⟨sizesA, roomA, ltA, rfl⟩ := (@validatorsRoot?_eq_ok_iff as.toArray _).mp rootA
  obtain ⟨sizesB, roomB, ltB, same⟩ := (@validatorsRoot?_eq_ok_iff bs.toArray _).mp rootB
  refine (row_binds sizesA sizesB ltA ltB id roomA same).imp (fun rows => ?_)
    (Collision.mono fun m => ?_)
  · exact congrArg Array.toList rows.1
  · exact Or.imp
      (sparseHashed_of_rowHashed (fun _ => validatorsTree?_eq_ok_iff.mpr) sizesA roomA)
      (sparseHashed_of_rowHashed (fun _ => validatorsTree?_eq_ok_iff.mpr) sizesB roomB)

/-! ### Lists with a limit -/

theorem uint64ListRoot?_binding (limit : Int) :
    Binding (fun ns => uint64ListRoot? ns limit) (NumbersHashed limit) := by
  intro ns ms r rootA rootB
  obtain ⟨as, packedA, listA⟩ := bind_eq_ok_iff.mp rootA
  obtain ⟨bs, packedB, listB⟩ := bind_eq_ok_iff.mp rootB
  obtain ⟨roomA, ltA, rfl⟩ := listRoot?_eq_ok_iff.mp listA
  obtain ⟨roomB, ltB, same⟩ := listRoot?_eq_ok_iff.mp listB
  refine (packed_binds packedA packedB roomA ltA ltB same).imp_right (Collision.mono fun m => ?_)
  exact Or.imp (fun hashed => ⟨as, packedA, listHashed_of_rowHashed roomA hashed⟩)
    fun hashed => ⟨bs, packedB, listHashed_of_rowHashed roomB hashed⟩

theorem byteListRoot?_binding (limit : Int) :
    Binding (fun data => byteListRoot? data limit) fun data =>
      ListHashed (Bytes.chunks 32 (Bytes.padToMultiple 32 data)) ((limit + 31) / 32) data.size := by
  intro a b r rootA rootB
  obtain ⟨roomA, ltA, rfl⟩ := listRoot?_eq_ok_iff.mp rootA
  obtain ⟨roomB, ltB, same⟩ := listRoot?_eq_ok_iff.mp rootB
  refine (row_binds (fun _ => Derivation.size_of_mem_packed)
    (fun _ => Derivation.size_of_mem_packed) ltA ltB Derivation.size_packedChunks_congr roomA
    same).imp ?_ (Collision.mono fun m => ?_)
  · rintro ⟨rows, size⟩
    exact Derivation.packedChunks_injective size rows
  · exact Or.imp (listHashed_of_rowHashed roomA) (listHashed_of_rowHashed roomB)

theorem chunkListRoot?_binding (limit : Int) :
    Binding (fun row : Row => chunkListRoot? row.1 limit) fun row =>
      ListHashed row.1 limit row.1.size := by
  rintro ⟨as, sizesA⟩ ⟨bs, sizesB⟩ r rootA rootB
  obtain ⟨roomA, ltA, rfl⟩ := listRoot?_eq_ok_iff.mp rootA
  obtain ⟨roomB, ltB, same⟩ := listRoot?_eq_ok_iff.mp rootB
  refine (row_binds sizesA sizesB ltA ltB id roomA same).imp (fun rows => Subtype.ext rows.1)
    (Collision.mono fun m => ?_)
  exact Or.imp (listHashed_of_rowHashed roomA) (listHashed_of_rowHashed roomB)

/-- Whichever way a list is hashed, its root binds it: lists with one root are equal, or two
different messages that were hashed for their roots have the same digest. That covers lists that
differ only in zeros behind the last item, whose data roots are equal. -/
theorem list_roots_bind (limit : Int) : ListRootsBind limit where
  balances := balancesRoot?_binding
  validators := validatorsRoot?_binding
  numbers := uint64ListRoot?_binding limit
  bytes := byteListRoot?_binding limit
  chunks := chunkListRoot?_binding limit

/-- A balance of zero more leaves the chunks as they are, so that only the length tells the two
lists apart. -/
theorem list_roots_bind_trailing_zero :
    ∃ r s, balancesRoot? [1, 2, 3] = .ok r ∧ balancesRoot? [1, 2, 3, 0] = .ok s ∧
      packUint64s? [1, 2, 3] = packUint64s? [1, 2, 3, 0] ∧
      (r = s → Collision fun m =>
        SparseHashed (balancesTree? [1, 2, 3]) 3 m ∨
          SparseHashed (balancesTree? [1, 2, 3, 0]) 4 m) := by
  have given : ∀ ns : List Int, (∀ n ∈ ns, 0 ≤ n ∧ n < twoTo 64) → ns.length ≤ 4 →
      ∃ r, balancesRoot? ns = .ok r := by
    intro ns fit short
    have packed := packUint64s?_eq_ok_iff.mpr ⟨fit, rfl⟩
    have count := size_packUint64s? packed
    have one : 1 ≤ twoTo 38 := twoTo_pos 38
    have long : 4 < twoTo 256 := by decide
    exact ⟨_, balancesRoot?_eq_ok_iff.mpr ⟨_, packed, by omega, by omega, rfl⟩⟩
  obtain ⟨r, rootA⟩ := given [1, 2, 3] (by decide) (by decide)
  obtain ⟨s, rootB⟩ := given [1, 2, 3, 0] (by decide) (by decide)
  refine ⟨r, s, rootA, rootB, rfl, fun same => ?_⟩
  exact ((list_roots_bind 0).balances _ _ r rootA (same ▸ rootB)).resolve_left (by decide)

end Chunk

end BeaconBranch
