import BeaconBranch.Merkle.Gindex
import BeaconBranch.Merkle.Zero

/-!
Branches. A branch is the list of hashes beside the way from a leaf up to a root. Replaying it
joins each hash on the side that the position tells, and the branch is right if that ends at the
root. The branches of nested trees are put one after another, innermost first, and the position at
the bottom is made of those in the single trees, innermost lowest. Where parts are malformed, a
check answers that the branch is wrong, unless the branch has no length at all.
-/

namespace BeaconBranch.Merkle

/-- The node reached from a leaf by joining the hashes of a branch. -/
def climb (leaf : ByteArray) (index : Int) : List ByteArray → ByteArray
  | [] => leaf
  | sibling :: rest =>
    let parent := if index % 2 = 0 then join leaf sibling else join sibling leaf
    climb parent (index / 2) rest

/-- A node of a tree: 32 bytes. -/
def isNode (b : ByteArray) : Bool := b.size == 32

/-- Whether the branch proves the leaf at a position under the root. The position has to fit the
length of the branch. -/
def proves (leaf : ByteArray) (branch : List ByteArray) (index : Int) (root : ByteArray) : Bool :=
  decide (0 ≤ index) && decide (index < twoTo branch.length) && isNode leaf && isNode root &&
    branch.all isNode && climb leaf index branch == root

/-- The nodes among the items of a value; nothing if some item is not a node. -/
def nodesOf? : Value → Option (List ByteArray)
  | .list items => items.mapM fun
    | .bytes b => if isNode b then some b else none
    | _ => none
  | v => if v.length? = some 0 then some [] else none

/-- `proves` on parts of unknown shape. A branch that has no length is a misuse. -/
def provesValues (leaf branch index root : Value) : Except Fault Bool :=
  match index.integer? with
  | none => .ok false
  | some i =>
    if i < 0 then .ok false
    else match branch.length? with
      | none => .error .wrongType
      | some n =>
        if twoTo n ≤ i then .ok false
        else match leaf, root, nodesOf? branch with
          | .bytes l, .bytes r, some nodes => .ok (proves l nodes i r)
          | _, _, _ => .ok false

/-- `provesValues` for a node addressed by a generalized index. -/
def provesGindexValues (leaf branch gindex root : Value) : Except Fault Bool :=
  match gindex.integer? with
  | none => .ok false
  | some g =>
    if g < 1 then .ok false
    else match branch.length? with
      | none => .error .wrongType
      | some n =>
        if g.toNat.log2 ≠ n then .ok false
        else provesValues leaf branch (.int (g - twoTo n)) root

/-- The branch of a leaf through nested trees, innermost first. -/
def composeBranches (segments : List (List ByteArray)) : List ByteArray := segments.flatten

end BeaconBranch.Merkle

namespace BeaconBranch

/-- The position at the bottom of nested trees, from pairs of a position and a depth, innermost
first. The parts are put over each other bit by bit and not compared with their depths. -/
def composePositions? (parts : List (Int × Int)) : Except Fault Int :=
  (·.1) <$> parts.foldlM (fun (whole, shift) (position, depth) =>
    if shift < 0 then .error (.misuse .value)
    else .ok (orBits whole (position * twoTo shift.toNat), shift + depth)) ((0 : Int), (0 : Int))

end BeaconBranch
