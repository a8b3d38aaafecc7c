import BeaconBranch.Fault
import BeaconBranch.Merkle.Zero

/-!
Layers of nodes, and roots of lists and vectors. One step up in a tree leads from a layer of nodes
to the layer of their parents. Chunks are hashed up to the full capacity of their type, and empty
parts are replaced by zero hashes, so only the populated part costs anything. The root of a list
also commits to its length: the data root is joined with the length as a chunk.
-/

namespace BeaconBranch.Merkle

/-- The parents of a layer. `zero` stands beside the last node when their number is odd. -/
def parents (zero : ByteArray) (layer : Array ByteArray) : Array ByteArray :=
  Array.ofFn fun i : Fin ((layer.size + 1) / 2) =>
    join (layer.getD (2 * i) zero) (layer.getD (2 * i + 1) zero)

@[simp] theorem size_parents (zero : ByteArray) (layer : Array ByteArray) :
    (parents zero layer).size = (layer.size + 1) / 2 := by simp [parents]

/-- The depth of the smallest tree with at least `n` leaves. -/
def depthFor (n : Nat) : Nat := if 1 < n then (n - 1).log2 + 1 else 0

/-- The first node that is not a chunk of 32 bytes is refused. -/
def checkChunks (nodes : Array ByteArray) : Except Nat Unit :=
  match nodes.find? (·.size != 32) with
  | some b => .error b.size
  | none => .ok ()

/-- The root above a layer of height `h`, with `n` more layers to go. -/
def rootAbove : Nat → Nat → Array ByteArray → ByteArray
  | 0, h, layer => layer.getD 0 (zeroHash h)
  | n + 1, h, layer => rootAbove n (h + 1) (parents (zeroHash h) layer)

/-- The root of a tree of exactly `2 ^ depth` leaves that starts with the given chunks. -/
def rootAtDepth? (chunks : Array ByteArray) (depth : Int) : Except Fault ByteArray :=
  if depth < 0 then .error (.misuse .value)
  else
    let d := depth.toNat
    if twoTo d < chunks.size then .error (.tooManyChunks chunks.size (twoTo d))
    else .ok (if chunks.isEmpty then zeroHash d else rootAbove d 0 chunks)

/-- The depth of a tree with room for a number of chunks. -/
def depthForLimit (limit : Int) : Nat := depthFor limit.toNat

/-- A length as a chunk. -/
def lengthChunk? (n : Int) : Except Fault ByteArray :=
  if n < 0 ∨ twoTo 256 ≤ n then .error (.misuse .overflow) else .ok (Bytes.ofNatLE 32 n.toNat)

/-- Commits a data root to the length of its list. -/
def mixInLength? (root : ByteArray) (n : Int) : Except Fault ByteArray := do
  return join root (← lengthChunk? n)

/-- The root of a vector with room for `limit` chunks. -/
def vectorRoot? (chunks : Array ByteArray) (limit : Int) : Except Fault ByteArray :=
  rootAtDepth? chunks (depthForLimit limit)

/-- The root of a list with room for `limit` chunks and `n` items. -/
def listRoot? (chunks : Array ByteArray) (limit n : Int) : Except Fault ByteArray := do
  mixInLength? (← rootAtDepth? chunks (depthForLimit limit)) n

/-- The root of a list of chunks that may have up to `limit` items. -/
def chunkListRoot? (chunks : Array ByteArray) (limit : Int) : Except Fault ByteArray :=
  listRoot? chunks limit chunks.size

/-- The root of a list of bytes that may have up to `limit` items. -/
def byteListRoot? (data : ByteArray) (limit : Int) : Except Fault ByteArray :=
  listRoot? (Bytes.chunks 32 (Bytes.padToMultiple 32 data)) ((limit + 31) / 32) data.size

end BeaconBranch.Merkle
