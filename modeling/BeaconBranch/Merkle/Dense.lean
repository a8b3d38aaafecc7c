import BeaconBranch.Merkle.Gindex
import BeaconBranch.Merkle.ListRoot

/-!
Dense trees. All `2 ^ depth` leaves are stored, and above them every layer up to the root, so a
branch is read off layer by layer. Leaves that are not given are zero chunks.
-/

namespace BeaconBranch.Merkle

/-- A complete tree: its layers from the leaves up to the root. -/
structure DenseTree where
  depth : Nat
  layers : List (Array ByteArray)

namespace DenseTree

/-- A layer and the `depth` layers above it. -/
def layersFrom : Nat → Array ByteArray → List (Array ByteArray)
  | 0, layer => [layer]
  | depth + 1, layer => layer :: layersFrom depth (parents zeroChunk layer)

/-- The leaves with zero chunks up to `2 ^ depth` of them. -/
def padLeaves (depth : Nat) (leaves : Array ByteArray) : Array ByteArray :=
  leaves ++ Array.replicate (twoTo depth - leaves.size) zeroChunk

/-- The tree over the given leaves; depth zero asks for the smallest tree that holds them. -/
def ofLeaves? (leaves : Array ByteArray) (depth : Int) : Except Fault DenseTree :=
  match checkChunks leaves with
  | .error size => .error (.wrongLeafSize size)
  | .ok () =>
    if depth < 0 then .error (.negativeDepth depth)
    else
      let d := if depth = 0 then depthFor leaves.size else depth.toNat
      if twoTo d < leaves.size then .error (.tooManyLeaves d leaves.size)
      else .ok ⟨d, layersFrom d (padLeaves d leaves)⟩

/-- The number of leaves, zero chunks included. -/
def leafCount (t : DenseTree) : Nat := twoTo t.depth

/-- The single node of the last layer. -/
def root (t : DenseTree) : ByteArray := (t.layers.getLastD #[]).getD 0 zeroChunk

/-- The node beside position `i`, then the one beside its parent, up to below the root. -/
def siblings : List (Array ByteArray) → Nat → List ByteArray
  | layer :: above :: rest, i => layer.getD (i ^^^ 1) zeroChunk :: siblings (above :: rest) (i / 2)
  | _, _ => []

/-- The branch of a leaf, from the leaf up. -/
def branch? (t : DenseTree) (index : Int) : Except Fault (List ByteArray) :=
  if index < 0 ∨ t.leafCount ≤ index then .error (.indexOutOfRange "leaf" index t.leafCount)
  else .ok (siblings t.layers index.toNat)

/-- The branch of the leaf that a generalized index addresses. -/
def branchAt? (t : DenseTree) (gindex : Int) : Except Fault (List ByteArray) := do
  t.branch? (← Gindex.toLeaf? gindex t.depth)

/-- The text of a tree in logs. -/
def display (t : DenseTree) : String :=
  let root := Hex.marked t.root
  s!"MerkleTree(depth={t.depth}, root={root})"

end DenseTree

/-- The root of the smallest tree over the given chunks; without chunks, the zero chunk. -/
def rootOfChunks (chunks : Array ByteArray) : Except Fault ByteArray :=
  if chunks.isEmpty then .ok zeroChunk
  else (DenseTree.ofLeaves? chunks 0).map DenseTree.root

end BeaconBranch.Merkle
