import BeaconBranch.Chunk.Scalar
import BeaconBranch.Merkle.ListRoot
import BeaconBranch.Merkle.Sparse

/-!
Packed numbers. Four 64-bit numbers share a chunk, so balance `i` stands in chunk `i / 4` at byte
`8 * (i % 4)`. The registries of validators and balances are sparse trees of 40 and 38 levels over
their chunks; a longer list than a registry may be has no tree.
-/

namespace BeaconBranch.Chunk

/-- Numbers packed four to a chunk, with zeros after the last one. -/
def packUint64s? (ns : List Int) : Except Fault (Array ByteArray) := do
  let encoded ← ns.mapM (encodeUint? 64)
  return Bytes.chunks 32 (Bytes.padToMultiple 32 (Bytes.concat encoded.toArray))

/-- The chunk that holds a balance. -/
def balanceChunk? (balances : List Int) (index : Int) : Except Fault ByteArray :=
  if index < 0 ∨ balances.length ≤ index then
    .error (.indexOutOfRange "balance" index balances.length)
  else do
    let start := index.toNat / 4 * 4
    let chunks ← packUint64s? ((balances.drop start).take 4)
    return chunks.getD 0 Merkle.zeroChunk

/-- The balance at a place of its chunk. -/
def balanceIn? (chunk : ByteArray) (index : Int) : Except Fault Nat :=
  if chunk.size ≠ 32 then .error (.notALeaf chunk.size)
  else
    let offset := (index % 4).toNat * 8
    .ok (Bytes.toNatLE (chunk.extract offset (offset + 8)))

/-- The four balances of a chunk. -/
def balancesIn? (chunk : ByteArray) : Except Fault (List Nat) :=
  [0, 1, 2, 3].mapM fun (i : Int) => balanceIn? chunk i

/-- A registry has no more entries than its limit. -/
def checkRegistry (what : String) (length : Nat) : Except Fault Unit :=
  if Limits.validatorRegistry < length then .error (.registryTooLong what length) else .ok ()

/-- The tree of the validators' roots. -/
def validatorsTree? (roots : List ByteArray) : Except Fault Merkle.SparseTree := do
  checkRegistry "Validators" roots.length
  Merkle.SparseTree.ofLeaves? Limits.validatorTreeHeight roots

/-- The tree of the packed balances. -/
def balancesTree? (balances : List Int) : Except Fault Merkle.SparseTree := do
  checkRegistry "Balances" balances.length
  Merkle.SparseTree.ofLeaves? Limits.balanceTreeHeight (← packUint64s? balances).toList

/-- The root of the validators' list. -/
def validatorsRoot? (roots : List ByteArray) : Except Fault ByteArray := do
  Merkle.mixInLength? (← validatorsTree? roots).root roots.length

/-- The root of the balances' list. -/
def balancesRoot? (balances : List Int) : Except Fault ByteArray := do
  Merkle.mixInLength? (← balancesTree? balances).root balances.length

/-- The root of a list of 64-bit numbers that may have up to `limit` items. -/
def uint64ListRoot? (ns : List Int) (limit : Int) : Except Fault ByteArray := do
  Merkle.listRoot? (← packUint64s? ns) ((limit * 8 + 31) / 32) ns.length

end BeaconBranch.Chunk
