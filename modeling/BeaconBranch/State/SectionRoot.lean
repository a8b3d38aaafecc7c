import BeaconBranch.State.Layout

/-!
Roots of state fields from their bytes.
-/

namespace BeaconBranch.State

/-- The root of a sync committee: its members' keys as a vector, and the aggregate key. -/
def syncCommitteeRoot? (data : ByteArray) : Except Fault ByteArray := do
  let n := Limits.syncCommitteeSize
  let keys ← (Array.range n).mapM fun i => Chunk.ofPublicKey? (data.extract (i * 48) (i * 48 + 48))
  let aggregate ← Chunk.ofPublicKey? (data.extract (n * 48) data.size)
  Merkle.rootOfChunks #[← Merkle.vectorRoot? keys n, aggregate]

/-- The chunks of a byte string, the last one filled up with zeros. -/
def chunksOf (data : ByteArray) : Array ByteArray := Bytes.chunks 32 (Bytes.padToMultiple 32 data)

/-- The root of a field from its bytes; `name` is the field's name. -/
def SectionKind.root? (name : String) (data : ByteArray) : SectionKind → Except Fault ByteArray
  | uint64 => Chunk.ofUint64? (Bytes.toNatLE data)
  | root => .ok data
  | record s => do (← s.decode? data).root?
  | chunkVector n => Merkle.vectorRoot? (chunksOf data) n
  | uint64Vector n => Merkle.vectorRoot? (chunksOf data) ((n * 8 + 31) / 32 : Nat)
  | bits => .ok (Bytes.padRight 32 data)
  | syncCommittee => syncCommitteeRoot? data
  | chunkList limit => do Merkle.chunkListRoot? (← Schema.cut? data 32 name) limit
  | recordList s limit => do
    let records ← Schema.cut? data s.size name
    Merkle.chunkListRoot? (← records.mapM fun b => do (← s.decode? b).root?) limit
  | validators => do
    let roots ← (← decodeValidators? data).mapM Record.root?
    Chunk.validatorsRoot? roots.toList
  | balances => do Chunk.balancesRoot? (← decodeBalances? data)
  | byteList limit => Merkle.byteListRoot? data limit
  | uint64List limit => do
    let numbers := (← Schema.cut? data 8 name).map fun b => (Bytes.toNatLE b : Int)
    Chunk.uint64ListRoot? numbers.toList limit
  | payloadHeader =>
    if data.size = 0 then (Record.zero .payloadHeader).root?
    else do (← Schema.payloadHeader.decode? data).root?
  | digestList s limit => do
    Merkle.chunkListRoot? ((← Schema.cut? data s.size name).map Sha256.digest) limit

/-- The root of a field from its bytes. -/
def SectionField.root? (f : SectionField) (data : ByteArray) : Except Fault ByteArray :=
  f.kind.root? f.name data

end BeaconBranch.State
