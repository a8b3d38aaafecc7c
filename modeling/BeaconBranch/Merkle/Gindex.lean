import BeaconBranch.Fault

/-!
Generalized indices. One number addresses a node of any tree: the root is 1, and the children of
node `k` are `2 * k` and `2 * k + 1`. Its binary digits after the leading one are the way down, so
paths, numbers and leaf positions at a depth are three views of one address.
-/

namespace BeaconBranch

/-- Bitwise or of two whole numbers, negative ones taken as endless rows of ones on the left. -/
def orBits : Int → Int → Int
  | .ofNat a, .ofNat b => (a ||| b : Nat)
  | .ofNat a, .negSucc b => .negSucc (b - (a &&& b))
  | .negSucc a, .ofNat b => .negSucc (a - (a &&& b))
  | .negSucc a, .negSucc b => .negSucc (a &&& b)

namespace Gindex

/-- One step down from a node: 0 to the left, 1 to the right. -/
def step? (g step : Int) : Except Fault Int :=
  if step = 0 ∨ step = 1 then .ok (2 * g + step) else .error (.notAPathStep (toString step))

/-- The index at the end of a path. -/
def ofPath? (path : List Int) : Except Fault Int := path.foldlM step? 1

/-- `ofPath?` on steps of unknown shape: what is no whole number is no step. -/
def ofSteps? (steps : List Value) : Except Fault Int :=
  steps.foldlM (fun g v =>
    match v.integer? with
    | some n => step? g n
    | none => .error (.notAPathStep v.display)) 1

/-- The steps from the root to a node. -/
def pathTo (g : Nat) : List Nat :=
  if g ≤ 1 then [] else pathTo (g / 2) ++ [g % 2]

/-- The steps from the root to the node of an index. -/
def toPath? (g : Int) : Except Fault (List Nat) :=
  if g < 1 then .error (.gindexNotPositive g) else .ok (pathTo g.toNat)

/-- The number of steps from the root to a node. -/
def depth? (g : Int) : Except Fault Nat :=
  if g < 1 then .error (.gindexNotPositive g) else .ok g.toNat.log2

/-- The index of a leaf at a depth. The position is not compared with the number of leaves: its
higher bits are put over the leading one. -/
def ofLeaf? (position depth : Int) : Except Fault Int :=
  if depth < 0 then .error (.misuse .value)
  else .ok (orBits (twoTo depth.toNat) position)

/-- The position of the leaf that an index addresses in a tree of the given depth. -/
def toLeaf? (g depth : Int) : Except Fault Int := do
  let actual ← depth? g
  if (actual : Int) ≠ depth then .error (.depthMismatch g depth actual)
  else .ok (g - twoTo actual)

/-- The index of a node addressed in a subtree of a node addressed in a tree, and so on. -/
def concat? (gs : List Int) : Except Fault Int :=
  gs.foldlM (fun whole g => do
    let depth ← depth? g
    .ok (whole * twoTo depth + (g - twoTo depth))) 1

/-- The siblings of a node and of its ancestors, from the node up. -/
def siblingsOf (g : Nat) : List Nat :=
  if g ≤ 1 then [] else (g ^^^ 1) :: siblingsOf (g / 2)

/-- The siblings along the way from a node to the root. -/
def siblings (g : Int) : List Nat := siblingsOf g.toNat

end Gindex

end BeaconBranch
