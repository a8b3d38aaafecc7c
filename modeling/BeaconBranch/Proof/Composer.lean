import BeaconBranch.Proof.Document
import BeaconBranch.State.Snapshot

/-!
Composing proofs from one state. The trees of the validators, of the balances and of the state are
built once; a proof is then put together from their branches, with the length of the list between
the branch in the list and the branch in the state.
-/

namespace BeaconBranch

/-- The trees of a state. All nodes of the two lists are computed when they are built, so that no
proof has to add one and proofs can be made in any order. -/
structure Composer where
  snapshot : Snapshot
  validatorsTree : Merkle.SparseTree
  balancesTree : Merkle.SparseTree
  validatorsRoot : ByteArray
  balancesRoot : ByteArray
  stateTree : Merkle.DenseTree

namespace Composer

/-- Builds the trees of a state. -/
def ofSnapshot? (s : Snapshot) : Except Fault Composer := do
  let validatorsTree ← Chunk.validatorsTree? (← s.validatorRoots?)
  let balancesTree ← Chunk.balancesTree? s.balances
  let (validatorsData, validatorsTree) := validatorsTree.computeRoot
  let validatorsRoot ← Merkle.mixInLength? validatorsData s.validators.size
  let (balancesData, balancesTree) := balancesTree.computeRoot
  let balancesRoot ← Merkle.mixInLength? balancesData s.balances.length
  let stateTree ← s.tree?
    [(Limits.validatorsField, validatorsRoot), (Limits.balancesField, balancesRoot)]
  return { snapshot := s, validatorsTree, balancesTree, validatorsRoot, balancesRoot, stateTree }

/-- The root of the state. -/
def stateRoot (c : Composer) : ByteArray := c.stateTree.root

/-- Proves a validator under the state root. The leaves of `shown` are carried along, or those of
the state's own record. -/
def validatorProof? (c : Composer) (index : Int) (shown : Option Record) :
    Except Fault ValidatorProof := do
  let own ← c.snapshot.validator? index
  let branch := Merkle.composeBranches [← c.validatorsTree.branch? index,
    [← Merkle.lengthChunk? c.snapshot.validators.size],
    ← c.stateTree.branch? Limits.validatorsField]
  return ⟨index, ← (shown.getD own).shownLeaves?, branch⟩

/-- Proves the chunk of a validator's balance under the balances root. -/
def balanceProof? (c : Composer) (index : Int) : Except Fault BalanceProof := do
  let _ ← c.snapshot.balance? index
  let validator ← c.snapshot.validator? index
  let chunk := index / (Limits.balancesPerChunk : Int)
  let branch := Merkle.composeBranches [← c.balancesTree.branch? chunk,
    [← Merkle.lengthChunk? c.snapshot.balances.length]]
  return ⟨← validator.publicKeyDigest?, c.balancesTree.get chunk, branch⟩

/-- Proves the balances root under the state root. -/
def balanceContainerProof? (c : Composer) : Except Fault BalanceContainerProof := do
  return ⟨c.balancesRoot, ← c.stateTree.branch? Limits.balancesField⟩

/-- The branch from the chunk of a validator's balance up to the state root. -/
def fullBalanceBranch? (c : Composer) (index : Int) : Except Fault (List ByteArray) := do
  let balance ← c.balanceProof? index
  return Merkle.composeBranches [balance.branch, (← c.balanceContainerProof?).branch]

/-- The branch of a field under the state root. -/
def fieldBranch? (c : Composer) (index : Int) : Except Fault (List ByteArray) := do
  Snapshot.checkField index
  c.stateTree.branch? index

end Composer

/-- Hands over the results of several calls in the order of the calls; the first failure in that
order wins, whichever call ended first. -/
def gather {α : Type} : List (Except Fault α) → Except Fault (List α)
  | [] => .ok []
  | .error f :: _ => .error f
  | .ok a :: rest => (gather rest).map (a :: ·)

/-- Runs a proof function over several indices. A single worker stops at the first failure; several
workers share the calls, and all of these are made before their results are gathered. -/
def proveMany? {α : Type} (prove : Int → Except Fault α) (indices : List Int) (workers : Int) :
    Except Fault (List α) :=
  if workers ≤ 1 ∨ indices.length ≤ 1 then indices.mapM prove
  else gather (indices.map prove)

end BeaconBranch
