import BeaconBranch.Proofs.Merkle.Derivation

/-!
Derivations of lists and vectors that are cut from byte strings. The items of a list are pieces of
one width, or they are packed into chunks with zeros behind the last one. Main statements: when such
a list has a root, and that the root binds the whole string.
-/

namespace BeaconBranch.Merkle

/-- A list has room for its chunks, and its length fits into a chunk. -/
structure Room (chunks d n : Nat) : Prop where
  chunks : chunks ≤ twoTo d
  length : n < twoTo 256

/-- A byte string is a list of pieces of one width. -/
structure Pieced (width d : Nat) (b : ByteArray) : Prop where
  pos : 0 < width
  whole : b.size % width = 0
  room : Room (Bytes.chunks width b).size d (Bytes.chunks width b).size

namespace Derivation

/-- A list of pieces of one width. -/
def ofPieces (width : Nat) (g : ByteArray → Derivation) (d : Nat) (b : ByteArray) : Derivation :=
  ofItems ((Bytes.chunks width b).toList.map g) d (Bytes.chunks width b).size

/-- The chunks of a byte string, with zeros behind the last one. -/
def packed (d : Nat) (b : ByteArray) : Derivation :=
  ofChunks (Bytes.chunks 32 (Bytes.padToMultiple 32 b)) d

/-- A list of `n` items that are packed into chunks. -/
def ofPacked (d n : Nat) (b : ByteArray) : Derivation := both (packed d b) (given (lengthChunk n))

/-! ### Roots -/

/-- A list that ends with given chunks has the root over them. -/
theorem value_ofItems_of_chunks {ds : List Derivation} {chunks : Array ByteArray}
    (ends : ds.map value = chunks.toList) (d n : Nat) : (ofItems ds d n).value =
      join (nodeOver (DenseTree.leafOf chunks) d 0) (lengthChunk n) := by
  rw [ofItems, value, value_ofList_of_chunks ends, value]

theorem listRoot?_iff_ofItems {ds : List Derivation} {chunks : Array ByteArray} {limit : Int}
    {n : Nat} {r : ByteArray} (ends : ds.map value = chunks.toList) :
    listRoot? chunks limit n = .ok r ↔ Room chunks.size (depthForLimit limit) n ∧
      r = (ofItems ds (depthForLimit limit) n).value := by
  rw [listRoot?_eq_ok_iff, value_ofItems_of_chunks ends]
  exact ⟨fun ⟨room, length, root⟩ => ⟨⟨room, length⟩, root⟩,
    fun ⟨⟨room, length⟩, root⟩ => ⟨room, length, root⟩⟩

/-- The root of a list whose chunks were made of pieces. -/
theorem chunkListRoot?_iff_ofItems {g : ByteArray → Derivation} {pieces chunks : Array ByteArray}
    {limit : Int} {r : ByteArray} (ends : (pieces.toList.map g).map value = chunks.toList) :
    chunkListRoot? chunks limit = .ok r ↔ Room pieces.size (depthForLimit limit) pieces.size ∧
      r = (ofItems (pieces.toList.map g) (depthForLimit limit) pieces.size).value := by
  have count : chunks.size = pieces.size := by
    rw [← Array.length_toList, ← ends, List.length_map, List.length_map, Array.length_toList]
  rw [chunkListRoot?, listRoot?_iff_ofItems ends, count]

theorem vectorRoot?_iff_ofChunks {chunks : Array ByteArray} {limit : Int} {r : ByteArray} :
    vectorRoot? chunks limit = .ok r ↔ chunks.size ≤ twoTo (depthForLimit limit) ∧
      r = (ofChunks chunks (depthForLimit limit)).value := by
  rw [vectorRoot?_eq_ok_iff, value_ofChunks]

/-! ### Bindings -/

section Bindings

variable {a b : ByteArray} {d : Nat}

theorem size_of_mem_packed {x : ByteArray}
    (mem : x ∈ Bytes.chunks 32 (Bytes.padToMultiple 32 b)) : x.size = 32 :=
  Bytes.size_of_mem_chunks (Bytes.size_padToMultiple_mod (by decide) b) mem

theorem size_packed (d : Nat) (b : ByteArray) : (packed d b).value.size = 32 :=
  size_ofList (size_of_mem_map fun _ mem => size_of_mem_packed (Array.mem_toList_iff.mp mem)) d

theorem size_packedChunks_congr (size : a.size = b.size) :
    (Bytes.chunks 32 (Bytes.padToMultiple 32 a)).size =
      (Bytes.chunks 32 (Bytes.padToMultiple 32 b)).size := by
  rw [Bytes.size_chunks, Bytes.size_chunks, Bytes.size_padToMultiple, Bytes.size_padToMultiple,
    size]

/-- Chunks with zeros behind the last one tell the string whose size is known. -/
theorem packedChunks_injective (size : a.size = b.size)
    (same : Bytes.chunks 32 (Bytes.padToMultiple 32 a) =
      Bytes.chunks 32 (Bytes.padToMultiple 32 b)) : a = b :=
  Bytes.padToMultiple_injective size (Bytes.chunks_injective (by decide) same)

/-- The root over these chunks binds the string whose size is known. -/
theorem binds_packed (size : a.size = b.size)
    (room : (Bytes.chunks 32 (Bytes.padToMultiple 32 a)).size ≤ twoTo d) :
    Binds (packed d a) (packed d b) (a = b) := by
  have count := size_packedChunks_congr size
  have chunks := binds_ofChunks count room (fun _ => size_of_mem_packed) fun _ => size_of_mem_packed
  exact chunks.imp (packedChunks_injective size)

/-- A list of packed items binds the string whose size its length tells. -/
theorem binds_ofPacked {n m : Nat} (length : n = m → a.size = b.size)
    (room : Room (Bytes.chunks 32 (Bytes.padToMultiple 32 a)).size d n)
    (room' : Room (Bytes.chunks 32 (Bytes.padToMultiple 32 b)).size d m) :
    Binds (ofPacked d n a) (ofPacked d m b) (a = b) := by
  have power : twoTo 256 = 256 ^ 32 := Bytes.twoTo_eight_mul 32
  have known : Binds (given (lengthChunk n)) (given (lengthChunk m)) (a.size = b.size) :=
    (binds_given _ _).imp fun same =>
      length (Bytes.ofNatLE_injective (power ▸ room.length) (power ▸ room'.length) same)
  exact (Binds.both (by rw [size_packed, size_packed]) known fun size =>
    binds_packed size room.chunks).imp And.left

/-- A list of pieces binds the string if each piece is bound. -/
theorem binds_ofPieces {width : Nat} {g : ByteArray → Derivation} (pieced : Pieced width d a)
    (pieced' : Pieced width d b)
    (sizes : ∀ x ∈ Bytes.chunks width a, (g x).value.size = 32)
    (sizes' : ∀ x ∈ Bytes.chunks width b, (g x).value.size = 32)
    (each : ∀ x ∈ Bytes.chunks width a, ∀ y ∈ Bytes.chunks width b, Binds (g x) (g y) (x = y)) :
    Binds (ofPieces width g d a) (ofPieces width g d b) (a = b) := by
  have items := binds_ofItems_map pieced.room.length pieced'.room.length (fun count => count)
    pieced.room.chunks
    (fun x mem => sizes x (Array.mem_toList_iff.mp mem))
    (fun x mem => sizes' x (Array.mem_toList_iff.mp mem))
    fun x mem y mem' => each x (Array.mem_toList_iff.mp mem) y (Array.mem_toList_iff.mp mem')
  refine items.imp ?_
  intro same
  exact Bytes.chunks_injective pieced.pos (Array.toList_inj.mp same.1)

end Bindings

end Derivation

end BeaconBranch.Merkle
