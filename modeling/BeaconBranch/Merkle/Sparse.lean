import BeaconBranch.Fault
import BeaconBranch.Merkle.ListRoot
import Std.Data.HashMap.Lemmas

/-!
Sparse trees. Of a tree with up to astronomically many leaves only the populated ones are stored,
with a sorted row of their positions: a subtree without a position in the row is empty, and its
hash is known from its height. The hash of every other inner node is kept from the first time it is
asked for up to the next write, so a branch that follows a root costs no further hashing. Main
statements: what a bisection finds in a sorted row, and which positions a row lists after one more
was put into it.
-/

namespace BeaconBranch.Merkle

/-- The hashes of inner nodes that were asked for since the last write, by height and position. -/
abbrev NodeMemo := Std.HashMap (Nat × Nat) ByteArray

/-- A sparse tree: its populated leaves by position, the row of their positions, smallest first,
and the inner nodes whose hashes are known. -/
structure SparseTree where
  depth : Nat
  leaves : Std.HashMap Nat ByteArray
  row : Array Nat
  nodes : NodeMemo

/-- The first place from `lo` up to `hi` whose entry is not below a bound, where all entries that
are below it stand in front of all others. -/
def bisect (below : Nat → Bool) (row : Array Nat) (lo hi : Nat) : Nat :=
  if lo < hi then
    let middle := (lo + hi) / 2
    if below (row.getD middle 0) then bisect below row (middle + 1) hi
    else bisect below row lo middle
  else lo
termination_by hi - lo

/-- Puts a position into its place in a sorted row, behind an equal one. -/
def insertIndex (i : Nat) (row : Array Nat) : Array Nat :=
  row.insertIdxIfInBounds (bisect (fun j => decide (j ≤ i)) row 0 row.size) i

namespace SparseTree

/-- The number of leaves the tree has room for. -/
def capacity (t : SparseTree) : Nat := twoTo t.depth

/-- A position must lie in the tree and a leaf must have 32 bytes, in this order. -/
def checkEntry (depth : Nat) (index : Int) (v : ByteArray) : Except Fault (Nat × ByteArray) :=
  if index < 0 ∨ twoTo depth ≤ index then .error (.indexOutOfRange "leaf" index (twoTo depth))
  else if v.size ≠ 32 then .error (.wrongLeafSize v.size)
  else .ok (index.toNat, v)

/-- Puts an entry into a mapping: a position that is there keeps its place, a new one goes last. -/
def putEntry (entry : Int × ByteArray) : List (Int × ByteArray) → List (Int × ByteArray)
  | [] => [entry]
  | e :: rest => if e.1 = entry.1 then entry :: rest else e :: putEntry entry rest

/-- The map of the entries; of two for one position the later one stays. -/
def leafMap (entries : List (Nat × ByteArray)) : Std.HashMap Nat ByteArray :=
  entries.foldl (fun m e => m.insert e.1 e.2) ∅

/-- The tree whose populated leaves are the given ones. -/
def ofMapping? (depth : Int) (entries : List (Int × ByteArray)) : Except Fault SparseTree :=
  if depth < 0 then .error (.negativeDepth depth)
  else do
    let d := depth.toNat
    let leaves := leafMap (← entries.mapM fun e => checkEntry d e.1 e.2)
    .ok ⟨d, leaves, leaves.keys.mergeSort.toArray, ∅⟩

/-- The tree whose populated leaves are the first ones, in order. -/
def ofLeaves? (depth : Int) (leaves : List ByteArray) : Except Fault SparseTree :=
  ofMapping? depth (leaves.zipIdx.map fun (v, i) => ((i : Int), v))

/-- The listed positions, smallest first. -/
def indices (t : SparseTree) : List Nat := t.row.toList

/-- The leaf at a position; the zero chunk where none is set and outside the tree. -/
def get (t : SparseTree) (index : Int) : ByteArray :=
  if index < 0 then zeroChunk else t.leaves.getD index.toNat zeroChunk

/-- Sets a leaf, after which no inner node is known any more. The position is listed before the
leaf is looked at, so a leaf of a wrong size leaves the position listed and nothing stored. -/
def set (t : SparseTree) (index : Int) (v : ByteArray) : Except Fault Unit × SparseTree :=
  if index < 0 ∨ t.capacity ≤ index then
    (.error (.indexOutOfRange "leaf" index t.capacity), t)
  else
    let i := index.toNat
    let listed := if t.leaves.contains i then t.row else insertIndex i t.row
    if v.size ≠ 32 then (.error (.wrongLeafSize v.size), ⟨t.depth, t.leaves, listed, t.nodes⟩)
    else (.ok (), ⟨t.depth, t.leaves.insert i v, listed, ∅⟩)

/-- Whether a position from `start` up to `stop` is listed. -/
def hasLeaves (t : SparseTree) (start stop : Nat) : Bool :=
  match t.row[bisect (fun j => decide (j < start)) t.row 0 t.row.size]? with
  | some j => decide (j < stop)
  | none => false

/-- The hash of the node at a height and a position, and the known nodes with what was computed on
the way. -/
def node (t : SparseTree) : Nat → Nat → NodeMemo → ByteArray × NodeMemo
  | 0, p, known => (t.leaves.getD p zeroChunk, known)
  | h + 1, p, known =>
    match known[(h + 1, p)]? with
    | some x => (x, known)
    | none =>
      if t.hasLeaves (p * twoTo (h + 1)) (p * twoTo (h + 1) + twoTo (h + 1)) then
        let (left, known) := t.node h (2 * p) known
        let (right, known) := t.node h (2 * p + 1) known
        let x := join left right
        (x, known.insert (h + 1, p) x)
      else (zeroHash (h + 1), known)

/-- The nodes beside the way up from a position, at the given heights. -/
def siblings (t : SparseTree) (i : Nat) : List Nat → NodeMemo → List ByteArray × NodeMemo
  | [], known => ([], known)
  | h :: rest, known =>
    let (x, known) := t.node h ((i / twoTo h) ^^^ 1) known
    let (xs, known) := siblings t i rest known
    (x :: xs, known)

/-- The root of the tree, and the tree with the nodes computed for it. -/
def computeRoot (t : SparseTree) : ByteArray × SparseTree :=
  let (x, known) := t.node t.depth 0 t.nodes
  (x, ⟨t.depth, t.leaves, t.row, known⟩)

/-- The branch of a leaf, from the leaf up, and the tree with the nodes computed for it. -/
def computeBranch? (t : SparseTree) (index : Int) : Except Fault (List ByteArray) × SparseTree :=
  if index < 0 ∨ t.capacity ≤ index then
    (.error (.indexOutOfRange "leaf" index t.capacity), t)
  else
    let (xs, known) := t.siblings index.toNat (List.range t.depth) t.nodes
    (.ok xs, ⟨t.depth, t.leaves, t.row, known⟩)

/-- The root of a tree that is not asked again. -/
def root (t : SparseTree) : ByteArray := t.computeRoot.1

/-- The branch of a leaf in a tree that is not asked again. -/
def branch? (t : SparseTree) (index : Int) : Except Fault (List ByteArray) :=
  (t.computeBranch? index).1

/-- The text of a tree in logs. -/
def display (t : SparseTree) : String :=
  s!"SparseMerkleTree(depth={t.depth}, populated={t.row.size})"

end SparseTree

end BeaconBranch.Merkle
