import BeaconBranch.Proofs.Bytes.Pieces
import BeaconBranch.Proofs.Merkle.ListRoot

/-!
Derivations of hashes. A derivation keeps, beside the hash that it ends with, every message that was
hashed on the way. Two derivations that end with the same hash either came from the same messages,
or two different ones among their messages have the same digest; which one it is, is found by going
down from the end as long as the messages agree. Main statements: what is bound by a single step is
bound by the trees that are built of such steps.
-/

namespace BeaconBranch.Merkle

/-- How a node came about. -/
inductive Derivation
  /-- Bytes that nothing was hashed for. -/
  | given (b : ByteArray)
  | digest (message : ByteArray)
  /-- The join of two nodes. -/
  | both (left right : Derivation)

/-- Two different messages among the hashed ones have the same digest. -/
def Collision (hashed : ByteArray → Prop) : Prop :=
  ∃ m n, hashed m ∧ hashed n ∧ m ≠ n ∧ Sha256.digest m = Sha256.digest n

theorem Collision.mono {hashed more : ByteArray → Prop} (sub : ∀ m, hashed m → more m) :
    Collision hashed → Collision more := by
  rintro ⟨m, n, hashedM, hashedN, differ, same⟩
  exact ⟨m, n, sub m hashedM, sub n hashedN, differ, same⟩

/-- Hashed messages with one digest are equal unless they collide. -/
theorem eq_or_collision {hashed : ByteArray → Prop} {m n : ByteArray} (hashedM : hashed m)
    (hashedN : hashed n) (same : Sha256.digest m = Sha256.digest n) : m = n ∨ Collision hashed := by
  by_cases eq : m = n
  · exact .inl eq
  · exact .inr ⟨m, n, hashedM, hashedN, eq, same⟩

namespace Derivation

/-- The node at the end. -/
def value : Derivation → ByteArray
  | given b => b
  | digest m => Sha256.digest m
  | both l r => join l.value r.value

/-- The messages that were hashed. -/
def Hashed : Derivation → ByteArray → Prop
  | given _, _ => False
  | digest message, m => m = message
  | both l r, m => m = l.value ++ r.value ∨ l.Hashed m ∨ r.Hashed m

/-- Derivations that end with the same node have a property, or two of their messages collide. -/
def Binds (t u : Derivation) (P : Prop) : Prop :=
  t.value = u.value → P ∨ Collision fun m => t.Hashed m ∨ u.Hashed m

variable {t u l r l' r' : Derivation} {P Q : Prop}

theorem Binds.imp (binds : Binds t u P) (implies : P → Q) : Binds t u Q :=
  fun same => (binds same).imp_left implies

theorem binds_given (a b : ByteArray) : Binds (given a) (given b) (a = b) := Or.inl

theorem binds_digest (m n : ByteArray) : Binds (digest m) (digest n) (m = n) :=
  eq_or_collision (.inl rfl) (.inr rfl)

/-- A join binds what its right part binds, and then what its left part binds. -/
theorem Binds.both (size : l.value.size = l'.value.size) (right : Binds r r' Q)
    (left : Q → Binds l l' P) : Binds (l.both r) (l'.both r') (P ∧ Q) := by
  intro same
  have collides : ∀ {hashed : ByteArray → Prop},
      (∀ m, hashed m → (l.both r).Hashed m ∨ (l'.both r').Hashed m) → Collision hashed →
      Collision fun m => (l.both r).Hashed m ∨ (l'.both r').Hashed m := Collision.mono
  have joined : _ ∨ Collision fun m => (l.both r).Hashed m ∨ (l'.both r').Hashed m :=
    eq_or_collision (.inl (.inl rfl)) (.inr (.inl rfl)) same
  rcases joined with messages | collision
  · obtain ⟨sameLeft, sameRight⟩ := Bytes.append_injective size messages
    rcases right sameRight with q | collision
    · rcases left q sameLeft with p | collision
      · exact .inl ⟨p, q⟩
      · exact .inr (collides (fun m => Or.imp (.inr ∘ .inl) (.inr ∘ .inl)) collision)
    · exact .inr (collides (fun m => Or.imp (.inr ∘ .inr) (.inr ∘ .inr)) collision)
  · exact .inr collision

/-! ### Trees -/

/-- The node at a height and a position of a tree with `n` leaves in front; an empty subtree is not
hashed. -/
def tree (leaf : Nat → Derivation) (n : Nat) : Nat → Nat → Derivation
  | 0, p => if n ≤ p then given zeroChunk else leaf p
  | h + 1, p =>
    if n ≤ p * twoTo (h + 1) then given (zeroHash (h + 1))
    else both (tree leaf n h (2 * p)) (tree leaf n h (2 * p + 1))

section Tree

variable {leaf leaf' : Nat → Derivation} {n : Nat}

/-- The chunks of the leaves, with zero chunks behind the first `n`. -/
def leafValue (leaf : Nat → Derivation) (n p : Nat) : ByteArray :=
  if n ≤ p then zeroChunk else (leaf p).value

theorem size_leafValue (sizes : ∀ p, p < n → (leaf p).value.size = 32) (p : Nat) :
    (leafValue leaf n p).size = 32 := by
  rw [leafValue]
  split
  · exact size_zeroChunk
  · exact sizes p (by omega)

theorem nodeOver_of_le {h p : Nat} (empty : n ≤ p * twoTo h) :
    nodeOver (leafValue leaf n) h p = zeroHash h :=
  nodeOver_eq_zeroHash fun _ ge _ => if_pos (Nat.le_trans empty ge)

theorem value_tree (leaf : Nat → Derivation) (n h p : Nat) :
    (tree leaf n h p).value = nodeOver (leafValue leaf n) h p := by
  induction h generalizing p with
  | zero =>
    rw [tree, nodeOver, leafValue]
    split <;> rfl
  | succ h ih =>
    rw [tree]
    split
    · rename_i empty
      exact (nodeOver_of_le empty).symm
    · rw [value, ih, ih, nodeOver]

/-- A tree binds what its leaves bind. -/
theorem binds_tree {P : Nat → Prop} (sizes : ∀ p, p < n → (leaf p).value.size = 32)
    (sizes' : ∀ p, p < n → (leaf' p).value.size = 32)
    (each : ∀ p, p < n → Binds (leaf p) (leaf' p) (P p)) (h p : Nat) :
    Binds (tree leaf n h p) (tree leaf' n h p)
      (∀ i, p * twoTo h ≤ i → i < p * twoTo h + twoTo h → i < n → P i) := by
  induction h generalizing p with
  | zero =>
    rw [tree, tree, twoTo_zero, Nat.mul_one]
    split
    · exact fun _ => .inl fun i ge lt inside => by omega
    · refine (each p (by omega)).imp fun holds i ge lt _ => ?_
      obtain rfl : i = p := by omega
      exact holds
  | succ h ih =>
    have next : (2 * p + 1) * twoTo h = 2 * p * twoTo h + twoTo h := Nat.succ_mul _ _
    rw [tree, tree]
    split
    · exact fun _ => .inl fun i ge _ inside => by omega
    · rw [mul_twoTo_succ, twoTo_succ]
      have size : (tree leaf n h (2 * p)).value.size = (tree leaf' n h (2 * p)).value.size := by
        rw [value_tree, value_tree, size_nodeOver (size_leafValue sizes),
          size_nodeOver (size_leafValue sizes')]
      refine (Binds.both size (ih (2 * p + 1)) fun _ => ih (2 * p)).imp ?_
      intro holds i ge lt inside
      obtain ⟨low, high⟩ := holds
      rcases Nat.lt_or_ge i (2 * p * twoTo h + twoTo h) with before | behind
      · exact low i ge before inside
      · exact high i (by omega) (by omega) inside

end Tree

/-! ### Lists -/

/-- The root of a tree of depth `d` over the first leaves. -/
def ofList (ds : List Derivation) (d : Nat) : Derivation :=
  tree (fun p => ds.getD p (given zeroChunk)) ds.length d 0

/-- The root of a list of `n` items. -/
def ofItems (ds : List Derivation) (d n : Nat) : Derivation :=
  both (ofList ds d) (given (lengthChunk n))

/-- The chunks of a list at all positions. -/
def leafOf (ds : List Derivation) (p : Nat) : ByteArray := (ds.map value).getD p zeroChunk

theorem leafValue_getD (ds : List Derivation) :
    leafValue (fun p => ds.getD p (given zeroChunk)) ds.length = leafOf ds := by
  funext p
  rw [leafValue, leafOf]
  split
  · rename_i outside
    rw [List.getD_eq_getElem?_getD, List.getElem?_eq_none (by simpa using outside)]
    rfl
  · rename_i inside
    have lt : p < ds.length := by omega
    simp [lt]

theorem value_ofList (ds : List Derivation) (d : Nat) :
    (ofList ds d).value = nodeOver (leafOf ds) d 0 := by
  rw [ofList, value_tree, leafValue_getD]

theorem size_getD {ds : List Derivation} (sizes : ∀ x ∈ ds, x.value.size = 32) (p : Nat) :
    (ds.getD p (given zeroChunk)).value.size = 32 := by
  rw [List.getD_eq_getElem?_getD]
  cases found : ds[p]? with
  | none => exact size_zeroChunk
  | some x => exact sizes x (List.mem_of_getElem? found)

theorem size_ofList {ds : List Derivation} (sizes : ∀ x ∈ ds, x.value.size = 32) (d : Nat) :
    (ofList ds d).value.size = 32 := by
  rw [ofList, value_tree]
  exact size_nodeOver (size_leafValue fun p _ => size_getD sizes p) d 0

section Lists

variable {ds es : List Derivation} {P : Nat → Prop}

/-- The root over a list binds what the items bind. -/
theorem binds_ofList {d : Nat} (length : ds.length = es.length) (room : ds.length ≤ twoTo d)
    (sizes : ∀ x ∈ ds, x.value.size = 32) (sizes' : ∀ x ∈ es, x.value.size = 32)
    (each : ∀ (i : Nat) (x y : Derivation), ds[i]? = some x → es[i]? = some y → Binds x y (P i)) :
    Binds (ofList ds d) (ofList es d) (∀ i, i < ds.length → P i) := by
  rw [ofList, ofList, ← length]
  refine (binds_tree (P := P) (fun p _ => size_getD sizes p) (fun p _ => size_getD sizes' p)
    (fun p lt => ?_) d 0).imp fun holds i lt => holds i (by omega) (by omega) lt
  have lt' : p < es.length := length ▸ lt
  have found := List.getElem?_eq_getElem lt
  have found' := List.getElem?_eq_getElem lt'
  rw [List.getD_eq_getElem?_getD, List.getD_eq_getElem?_getD, found, found']
  exact each p _ _ found found'

/-- The root of a list binds its length, and then what the items bind. -/
theorem binds_ofItems {d n m : Nat} (ltN : n < twoTo 256) (ltM : m < twoTo 256)
    (length : n = m → ds.length = es.length) (room : ds.length ≤ twoTo d)
    (sizes : ∀ x ∈ ds, x.value.size = 32) (sizes' : ∀ x ∈ es, x.value.size = 32)
    (each : ∀ (i : Nat) (x y : Derivation), ds[i]? = some x → es[i]? = some y → Binds x y (P i)) :
    Binds (ofItems ds d n) (ofItems es d m) ((∀ i, i < ds.length → P i) ∧ n = m) := by
  refine Binds.both (by rw [size_ofList sizes, size_ofList sizes'])
    ((binds_given _ _).imp fun same => ?_) fun same =>
      binds_ofList (length same) room sizes sizes' each
  have power : twoTo 256 = 256 ^ 32 := Bytes.twoTo_eight_mul 32
  exact Bytes.ofNatLE_injective (power ▸ ltN) (power ▸ ltM) same

end Lists

section Maps

variable {α : Type} {g : α → Derivation} {as bs : List α}

/-- Lists of one length that agree at each of their positions are equal. -/
theorem eq_of_getElem?_eq (length : as.length = bs.length)
    (same : ∀ i, i < as.length → as[i]? = bs[i]?) : as = bs := by
  refine List.ext_getElem? ?_
  intro i
  rcases Nat.lt_or_ge i as.length with lt | ge
  · exact same i lt
  · rw [List.getElem?_eq_none ge, List.getElem?_eq_none (length ▸ ge)]

theorem size_of_mem_map (sizes : ∀ a ∈ as, (g a).value.size = 32) :
    ∀ x ∈ as.map g, x.value.size = 32 := by
  intro x mem
  obtain ⟨a, inList, rfl⟩ := List.mem_map.mp mem
  exact sizes a inList

theorem binds_getElem?_map (each : ∀ a ∈ as, ∀ b ∈ bs, Binds (g a) (g b) (a = b)) (i : Nat)
    (x y : Derivation) (found : (as.map g)[i]? = some x) (found' : (bs.map g)[i]? = some y) :
    Binds x y (as[i]? = bs[i]?) := by
  rw [List.getElem?_map, Option.map_eq_some_iff] at found found'
  obtain ⟨a, foundA, rfl⟩ := found
  obtain ⟨b, foundB, rfl⟩ := found'
  refine (each a (List.mem_of_getElem? foundA) b (List.mem_of_getElem? foundB)).imp ?_
  intro same
  rw [foundA, foundB, same]

/-- A root over derived items binds them if each derivation binds its item. -/
theorem binds_ofList_map {d : Nat} (length : as.length = bs.length) (room : as.length ≤ twoTo d)
    (sizes : ∀ a ∈ as, (g a).value.size = 32) (sizes' : ∀ b ∈ bs, (g b).value.size = 32)
    (each : ∀ a ∈ as, ∀ b ∈ bs, Binds (g a) (g b) (a = b)) :
    Binds (ofList (as.map g) d) (ofList (bs.map g) d) (as = bs) := by
  refine (binds_ofList (P := fun i => as[i]? = bs[i]?) (by simpa using length) (by simpa using room)
    (size_of_mem_map sizes) (size_of_mem_map sizes') (binds_getElem?_map each)).imp fun same => ?_
  rw [List.length_map] at same
  exact eq_of_getElem?_eq length same

/-- The root of a list of derived items binds its length and them. -/
theorem binds_ofItems_map {d n m : Nat} (ltN : n < twoTo 256) (ltM : m < twoTo 256)
    (length : n = m → as.length = bs.length) (room : as.length ≤ twoTo d)
    (sizes : ∀ a ∈ as, (g a).value.size = 32) (sizes' : ∀ b ∈ bs, (g b).value.size = 32)
    (each : ∀ a ∈ as, ∀ b ∈ bs, Binds (g a) (g b) (a = b)) :
    Binds (ofItems (as.map g) d n) (ofItems (bs.map g) d m) (as = bs ∧ n = m) := by
  refine (binds_ofItems (P := fun i => as[i]? = bs[i]?) ltN ltM (by simpa using length)
    (by simpa using room) (size_of_mem_map sizes) (size_of_mem_map sizes')
    (binds_getElem?_map each)).imp fun holds => ?_
  obtain ⟨same, count⟩ := holds
  rw [List.length_map] at same
  exact ⟨eq_of_getElem?_eq (length count) same, count⟩

end Maps

/-! ### Chunks -/

/-- The root of a tree over chunks that are given. -/
def ofChunks (chunks : Array ByteArray) (d : Nat) : Derivation := ofList (chunks.toList.map given) d

theorem map_value_given (chunks : List ByteArray) : (chunks.map given).map value = chunks := by
  rw [List.map_map]
  exact List.map_id chunks

theorem leafOf_of_chunks {ds : List Derivation} {chunks : Array ByteArray}
    (ends : ds.map value = chunks.toList) : leafOf ds = DenseTree.leafOf chunks := by
  funext p
  rw [leafOf, ends]
  exact congrFun (DenseTree.getD_toList_eq_leafOf chunks) p

/-- Derivations that end with the chunks of a layer end with the root over them. -/
theorem value_ofList_of_chunks {ds : List Derivation} {chunks : Array ByteArray}
    (ends : ds.map value = chunks.toList) (d : Nat) :
    (ofList ds d).value = nodeOver (DenseTree.leafOf chunks) d 0 := by
  rw [value_ofList, leafOf_of_chunks ends]

theorem value_ofChunks (chunks : Array ByteArray) (d : Nat) :
    (ofChunks chunks d).value = nodeOver (DenseTree.leafOf chunks) d 0 :=
  value_ofList_of_chunks (map_value_given chunks.toList) d

/-- The root of a tree binds its chunks. -/
theorem binds_ofChunks {as bs : Array ByteArray} {d : Nat} (size : as.size = bs.size)
    (room : as.size ≤ twoTo d) (sizesA : ∀ b ∈ as, b.size = 32) (sizesB : ∀ b ∈ bs, b.size = 32) :
    Binds (ofChunks as d) (ofChunks bs d) (as = bs) :=
  (binds_ofList_map (g := given) size room (fun a mem => sizesA a (Array.mem_toList_iff.mp mem))
    (fun b mem => sizesB b (Array.mem_toList_iff.mp mem)) fun a _ b _ => binds_given a b).imp
      Array.toList_inj.mp

end Derivation

end BeaconBranch.Merkle
