import BeaconBranch.Proofs.Merkle.Inclusion
import BeaconBranch.Proofs.Merkle.Pieces
import BeaconBranch.Proofs.Merkle.Sparse

/-!
The messages that are hashed for a root. Layers are hashed pair by pair, and a sparse tree hashes a
pair for each node that it gets to know; in both, each node with one of the leaves below it is
hashed from the two nodes under it. Main statements: every such pair is hashed by either builder,
and the root of a list binds the row of its chunks through these pairs and the length alone.
-/

namespace BeaconBranch.Merkle

/-- The messages of a tree of depth `d` over `n` leaves: for each node above a leaf the two nodes
below it. -/
def PairHashed (leaf : Nat → ByteArray) (n d : Nat) (m : ByteArray) : Prop :=
  ∃ h p, h < d ∧ p * twoTo (h + 1) < n ∧
    m = nodeOver leaf h (2 * p) ++ nodeOver leaf h (2 * p + 1)

/-- The messages of a list of `n` items: those of its chunks, and the data root with the length. -/
def RowHashed (chunks : Array ByteArray) (d n : Nat) (m : ByteArray) : Prop :=
  PairHashed (DenseTree.leafOf chunks) chunks.size d m ∨
    m = nodeOver (DenseTree.leafOf chunks) d 0 ++ lengthChunk n

/-! ### Layers -/

/-- The messages that are hashed above a layer of height `h`, over `n` more layers. -/
def HashedAbove : Nat → Nat → Array ByteArray → ByteArray → Prop
  | 0, _, _, _ => False
  | n + 1, h, layer, m =>
    (∃ i, i < (parents (zeroHash h) layer).size ∧
      m = layer.getD (2 * i) (zeroHash h) ++ layer.getD (2 * i + 1) (zeroHash h)) ∨
      HashedAbove n (h + 1) (parents (zeroHash h) layer) m

/-- The messages that are hashed for the root of a list of `n` items. -/
def ListHashed (chunks : Array ByteArray) (limit : Int) (n : Nat) (m : ByteArray) : Prop :=
  HashedAbove (depthForLimit limit) 0 chunks m ∨
    ∃ root, rootAtDepth? chunks (depthForLimit limit) = .ok root ∧ m = root ++ lengthChunk n

/-- A layer has a node at each position above one of the first `n` leaves, and no other. -/
def Populated (n h : Nat) (layer : Array ByteArray) : Prop :=
  ∀ p, p * twoTo h < n ↔ p < layer.size

theorem Populated.parents {n h : Nat} {layer : Array ByteArray} (populated : Populated n h layer) :
    Populated n (h + 1) (parents (zeroHash h) layer) := by
  intro p
  rw [mul_twoTo_succ, populated, size_parents]
  omega

/-- Going up layer by layer hashes a pair for each node above a leaf. -/
theorem hashedAbove_pair {leaf : Nat → ByteArray} {n h k l p : Nat} {layer : Array ByteArray}
    (right : RightLayer leaf h layer) (populated : Populated n h layer) (ge : h ≤ l)
    (lt : l < h + k) (above : p * twoTo (l + 1) < n) :
    HashedAbove k h layer (nodeOver leaf l (2 * p) ++ nodeOver leaf l (2 * p + 1)) := by
  induction k generalizing h layer with
  | zero => omega
  | succ k ih =>
    rcases Nat.eq_or_lt_of_le ge with rfl | higher
    · exact .inl ⟨p, (populated.parents p).mp above, by rw [right, right]⟩
    · exact .inr (ih right.parents populated.parents higher (by omega))

/-- The root of a list is hashed from all messages of its row. -/
theorem listHashed_of_rowHashed {chunks : Array ByteArray} {limit : Int} {n : Nat}
    (room : chunks.size ≤ twoTo (depthForLimit limit)) {m : ByteArray}
    (hashed : RowHashed chunks (depthForLimit limit) n m) : ListHashed chunks limit n m := by
  rcases hashed with ⟨h, p, lt, above, rfl⟩ | rfl
  · refine .inl (hashedAbove_pair (rightLayer_leafOf chunks) (fun q => ?_) (Nat.zero_le h)
      (by omega) above)
    rw [twoTo_zero, Nat.mul_one]
  · exact .inr ⟨_, rootAtDepth?_eq_ok_iff.mpr ⟨room, rfl⟩, rfl⟩

/-! ### Sparse trees -/

namespace SparseTree

variable {t : SparseTree}

/-- The messages that are hashed when the root is asked for: for each node that only then becomes
known the two nodes below it. -/
def RootHashed (t : SparseTree) (m : ByteArray) : Prop :=
  ∃ h p, (h + 1, p) ∉ t.nodes ∧ (h + 1, p) ∈ t.computeRoot.2.nodes ∧
    m = nodeOver t.leafAt h (2 * p) ++ nodeOver t.leafAt h (2 * p + 1)

/-- Once the root was asked for, every node above a populated leaf is known. -/
theorem known_of_mem_leaves (sound : t.Sound) (fresh : t.nodes = ∅) {h p i : Nat}
    (lt : h < t.depth) (stored : i ∈ t.leaves) (ge : p * twoTo (h + 1) ≤ i)
    (below : i < p * twoTo (h + 1) + twoTo (h + 1)) : (h + 1, p) ∈ t.computeRoot.2.nodes := by
  obtain ⟨n, deep⟩ : ∃ n, t.depth = h + 1 + n := ⟨t.depth - (h + 1), by omega⟩
  have inside : i < twoTo (h + 1 + n) := deep ▸ sound.inside i stored
  have level : p < twoTo n := by
    rw [← Nat.div_eq_of_lt_le ge (by rwa [Nat.succ_mul])]
    exact div_twoTo_lt inside
  rcases settled_computeRoot sound fresh deep level with zero | known | empty
  · omega
  · exact known
  · have listed := (hasLeaves_iff sound.sorted).mpr ⟨i, sound.listed i stored, ge, below⟩
    rw [empty] at listed
    cases listed

theorem mem_foldl_insert {entries : List (Nat × ByteArray)} {m : Std.HashMap Nat ByteArray}
    {i : Nat} : i ∈ entries.foldl (fun m e => m.insert e.1 e.2) m ↔
      i ∈ m ∨ i ∈ entries.map Prod.fst := by
  induction entries generalizing m with
  | nil => simp
  | cons e rest ih =>
    rw [List.foldl_cons, ih, Std.HashMap.mem_insert, beq_iff_eq, List.map_cons, List.mem_cons,
      eq_comm, or_comm (a := i = e.1), or_assoc]

/-- A tree over a row of leaves holds one at each position of the row, zero chunks included. -/
theorem mem_leaves_of_ofLeaves? {d : Nat} {leaves : List ByteArray}
    (built : ofLeaves? d leaves = .ok t) {i : Nat} (lt : i < leaves.length) : i ∈ t.leaves := by
  have fit := (accepts_of_ofMapping? built).2
  rw [ofLeaves?, ofMapping?, if_neg (by omega)] at built
  dsimp only at built
  rw [mapM_checkEntry fit] at built
  obtain rfl := Except.ok.inj built
  refine mem_foldl_insert.mpr (.inr ?_)
  have entry : (leaves[i], i) ∈ leaves.zipIdx :=
    List.mem_zipIdx_iff_getElem?.mpr (List.getElem?_eq_getElem lt)
  rw [List.map_map, List.map_map]
  exact List.mem_map.mpr ⟨_, entry, Int.toNat_natCast i⟩

/-- The root of a tree over a row of chunks is hashed from every pair of the row. -/
theorem rootHashed_of_pairHashed {d : Nat} {chunks : Array ByteArray}
    (built : ofLeaves? d chunks.toList = .ok t) {m : ByteArray}
    (hashed : PairHashed (DenseTree.leafOf chunks) chunks.size d m) : t.RootHashed m := by
  obtain ⟨h, p, lt, above, rfl⟩ := hashed
  obtain ⟨-, -, sound, depth, leaves, fresh⟩ := ofLeaves?_spec built
  have leafAt : t.leafAt = DenseTree.leafOf chunks := by
    rw [leaves, DenseTree.getD_toList_eq_leafOf]
  refine ⟨h, p, by rw [fresh]; exact Std.HashMap.not_mem_empty, ?_, by rw [leafAt]⟩
  have stored := mem_leaves_of_ofLeaves? built (i := p * twoTo (h + 1)) above
  exact known_of_mem_leaves sound fresh (depth ▸ lt) stored (Nat.le_refl _)
    (Nat.lt_add_of_pos_right (twoTo_pos _))

end SparseTree

/-! ### Dense trees -/

namespace DenseTree

/-- Layer by layer a pair is hashed for each node above the leaves. -/
theorem layersHashed_pair {leaf : Nat → ByteArray} {h n l p : Nat} {layer : Array ByteArray}
    (holds : HoldsNodes leaf h (twoTo n) layer) (ge : h ≤ l) (lt : l < h + n)
    (inside : p * twoTo (l + 1) < twoTo (h + n)) :
    LayersHashed (layersFrom n layer) (nodeOver leaf l (2 * p) ++ nodeOver leaf l (2 * p + 1)) := by
  induction n generalizing h layer with
  | zero => omega
  | succ n ih =>
    rw [twoTo_succ, ← Nat.two_mul] at holds
    rw [layersFrom, layersHashed_cons]
    rcases Nat.eq_or_lt_of_le ge with rfl | higher
    · have level : p < twoTo n := by
        have split : twoTo (h + (n + 1)) = twoTo n * twoTo (h + 1) := by
          rw [show h + (n + 1) = n + (h + 1) by omega, twoTo_add]
        exact Nat.lt_of_mul_lt_mul_right (split ▸ inside)
      refine .inl ⟨p, by rw [holds.parents.1]; exact level, ?_⟩
      rw [holds.2 _ (by omega), holds.2 _ (by omega)]
    · refine .inr (ih holds.parents higher (by omega) ?_)
      rwa [Nat.add_right_comm, Nat.add_assoc]

/-- A tree is hashed from every pair of its leaves. -/
theorem hashed_of_pairHashed {leaves : Array ByteArray} {depth : Int} {t : DenseTree}
    (built : ofLeaves? leaves depth = .ok t) {n : Nat} (room : n ≤ twoTo t.depth) {m : ByteArray}
    (pair : PairHashed (leafOf leaves) n t.depth m) : t.Hashed m := by
  obtain ⟨h, p, lt, above, rfl⟩ := pair
  obtain ⟨holds, layers⟩ := holdsNodes_of_ofLeaves? built
  rw [Hashed, layers]
  exact layersHashed_pair holds (Nat.zero_le h) (by omega) (by rw [Nat.zero_add]; omega)

end DenseTree

/-! ### Rows -/

namespace Derivation

/-- A message of a tree of derivations is a pair of nodes above a leaf, or it was hashed for a
leaf. -/
theorem hashed_tree {leaf : Nat → Derivation} {n h p : Nat} {m : ByteArray}
    (hashed : (tree leaf n h p).Hashed m) :
    PairHashed (leafValue leaf n) n h m ∨ ∃ q, q < n ∧ (leaf q).Hashed m := by
  induction h generalizing p with
  | zero =>
    rw [tree] at hashed
    split at hashed
    · exact hashed.elim
    · exact .inr ⟨p, by omega, hashed⟩
  | succ h ih =>
    have deeper : PairHashed (leafValue leaf n) n h m →
        PairHashed (leafValue leaf n) n (h + 1) m := by
      rintro ⟨k, q, lt, rest⟩
      exact ⟨k, q, by omega, rest⟩
    rw [tree] at hashed
    split at hashed
    · exact hashed.elim
    · rcases hashed with rfl | left | right
      · exact .inl ⟨h, p, by omega, by omega, by rw [value_tree, value_tree]⟩
      · exact (ih left).imp_left deeper
      · exact (ih right).imp_left deeper

/-- What is hashed for a root over derived leaves is hashed for the tree over these leaves, or for
one of them. -/
theorem hashed_ofList {ds : List Derivation} {leaves : Array ByteArray}
    {depth : Int} {t : DenseTree} (built : DenseTree.ofLeaves? leaves depth = .ok t)
    (ends : ds.map value = leaves.toList) {m : ByteArray} (hashed : (ofList ds t.depth).Hashed m) :
    t.Hashed m ∨ ∃ d ∈ ds, d.Hashed m := by
  have room := (DenseTree.ofLeaves?_eq_ok_iff.mp built).2.2.1
  rw [← DenseTree.depth_of_ofLeaves? built] at room
  have length : ds.length = leaves.size := by
    rw [← Array.length_toList, ← ends, List.length_map]
  rcases hashed_tree hashed with pair | ⟨q, lt, item⟩
  · rw [leafValue_getD, leafOf_of_chunks ends] at pair
    exact .inl (DenseTree.hashed_of_pairHashed built (length ▸ room) pair)
  · rw [List.getD_eq_getElem?_getD, List.getElem?_eq_getElem lt] at item
    exact .inr ⟨_, List.getElem_mem lt, item⟩

/-- The messages of a list of chunks are those of its row. -/
theorem hashed_ofItems_given {chunks : Array ByteArray} {d n : Nat} {m : ByteArray}
    (hashed : (ofItems (chunks.toList.map given) d n).Hashed m) : RowHashed chunks d n m := by
  have values := map_value_given chunks.toList
  rcases hashed with rfl | data | length
  · exact .inr (by rw [value_ofList_of_chunks values, value])
  · rcases hashed_tree data with pair | ⟨q, lt, item⟩
    · rw [leafValue_getD, leafOf_of_chunks values, List.length_map, Array.length_toList] at pair
      exact .inl pair
    · rw [List.getD_eq_getElem?_getD, List.getElem?_eq_getElem lt, List.getElem_map] at item
      exact item.elim
  · exact length.elim

end Derivation

/-- The root of a list binds its length and its chunks, if the length tells their number. -/
theorem row_binds {as bs : Array ByteArray} {d n m : Nat} (sizesA : ∀ b ∈ as, b.size = 32)
    (sizesB : ∀ b ∈ bs, b.size = 32) (ltN : n < twoTo 256) (ltM : m < twoTo 256)
    (count : n = m → as.size = bs.size) (room : as.size ≤ twoTo d)
    (same : join (nodeOver (DenseTree.leafOf as) d 0) (lengthChunk n) =
      join (nodeOver (DenseTree.leafOf bs) d 0) (lengthChunk m)) :
    (as = bs ∧ n = m) ∨ Collision fun x => RowHashed as d n x ∨ RowHashed bs d m x := by
  have binds := Derivation.binds_ofItems_map (g := Derivation.given) ltN ltM count room
    (fun a mem => sizesA a (Array.mem_toList_iff.mp mem))
    (fun b mem => sizesB b (Array.mem_toList_iff.mp mem)) fun a _ b _ => Derivation.binds_given a b
  rw [Derivation.Binds, Derivation.value_ofItems_of_chunks (Derivation.map_value_given _),
    Derivation.value_ofItems_of_chunks (Derivation.map_value_given _)] at binds
  refine (binds same).imp (And.imp_left Array.toList_inj.mp) (Collision.mono fun x => ?_)
  exact Or.imp Derivation.hashed_ofItems_given Derivation.hashed_ofItems_given

end BeaconBranch.Merkle
