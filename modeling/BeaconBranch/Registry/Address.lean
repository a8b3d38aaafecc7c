import BeaconBranch.Limits
import BeaconBranch.Merkle.Branch
import BeaconBranch.Merkle.Gindex

/-!
Addresses of registry entries under the state root. A list's root joins its data with its length,
so an entry stands on the left side (2) of its list. The same place is told in two ways: as a
generalized index, and as the position that a composed branch is walked with.
-/

namespace BeaconBranch.Registry

/-- The generalized index of a validator under the state root. -/
def validatorGindex? (index : Int) : Except Fault Int := do
  Gindex.concat? [Limits.validatorsGindex, 2, ← Gindex.ofLeaf? index Limits.validatorTreeHeight]

/-- The generalized index of the chunk that holds a validator's balance. -/
def balanceGindex? (index : Int) : Except Fault Int := do
  let chunk := index / (Limits.balancesPerChunk : Int)
  Gindex.concat? [Limits.balancesGindex, 2, ← Gindex.ofLeaf? chunk Limits.balanceTreeHeight]

/-- The position of a validator's root at the bottom of its composed branch. -/
def validatorPosition? (index : Int) : Except Fault Int :=
  composePositions? [(index, Limits.validatorTreeHeight), (0, 1),
    (Limits.validatorsField, Limits.stateTreeDepth)]

/-- The position of the chunk that holds a validator's balance, at the bottom of its composed
branch. -/
def balancePosition? (index : Int) : Except Fault Int :=
  composePositions? [(index / (Limits.balancesPerChunk : Int), Limits.balanceTreeHeight), (0, 1),
    (Limits.balancesField, Limits.stateTreeDepth)]

end BeaconBranch.Registry
