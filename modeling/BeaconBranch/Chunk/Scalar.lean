import BeaconBranch.Fault
import BeaconBranch.Merkle.Zero

/-!
Single values as bytes and as chunks. Numbers are written lowest byte first, a flag is one byte,
and a byte string has a declared length and nothing around it. A chunk is the value's bytes with
zeros up to 32; a public key, which is longer, is hashed in two halves.
-/

namespace BeaconBranch.Chunk

/-- A number of `bits` bits as bytes. -/
def encodeUint? (bits : Nat) (n : Int) : Except Fault ByteArray :=
  if n < 0 then .error (.negativeNumber bits (.whole n))
  else if twoTo bits ≤ n then .error (.numberTooLarge bits (.whole n))
  else .ok (Bytes.ofNatLE (bits / 8) n.toNat)

/-- A 64-bit number as a chunk. -/
def ofUint64? (n : Int) : Except Fault ByteArray := (encodeUint? 64 n).map (Bytes.padRight 32)

/-- A 256-bit number, which fills a chunk. -/
def ofUint256? (n : Int) : Except Fault ByteArray := encodeUint? 256 n

/-- A flag as one byte. -/
def encodeFlag (b : Bool) : ByteArray := ByteArray.empty.push (if b then 1 else 0)

/-- A flag as a chunk. -/
def ofFlag (b : Bool) : ByteArray := Bytes.padRight 32 (encodeFlag b)

/-- A byte string of a declared length. -/
def encodeBytes? (b : ByteArray) (length : Int) : Except Fault ByteArray :=
  if (b.size : Int) = length then .ok b else .error (.wrongLength length b.size)

/-- A public key as a chunk: the digests of its first 32 bytes and of the rest with zeros, joined.
-/
def ofPublicKey? (b : ByteArray) : Except Fault ByteArray := do
  let key ← encodeBytes? b 48
  let head := Sha256.digest (key.extract 0 32)
  let tail := Sha256.digest (Bytes.padRight 32 (key.extract 32 48))
  return Merkle.join head tail

/-- Reads a number from exactly eight bytes. -/
def decodeUint64? (b : ByteArray) : Except Fault Nat :=
  if b.size = 8 then .ok (Bytes.toNatLE b) else .error (.notEightBytes b.size)

/-- Reads a flag from exactly one byte. -/
def decodeFlag? (b : ByteArray) : Except Fault Bool :=
  match b.data.toList with
  | [0] => .ok false
  | [1] => .ok true
  | _ => .error (.invalidFlag b)

/-- The `length` bytes at an offset of a longer string. -/
def readBytes? (b : ByteArray) (offset length : Int) : Except Fault ByteArray :=
  if offset < 0 ∨ b.size < offset + length then .error (.readOutside length offset b.size)
  else .ok (Bytes.slice b offset (offset + length))

/-- The 64-bit number at an offset. -/
def readUint64? (b : ByteArray) (offset : Int) : Except Fault Nat :=
  (readBytes? b offset 8).map Bytes.toNatLE

/-- The 32-bit number at an offset. -/
def readUint32? (b : ByteArray) (offset : Int) : Except Fault Nat :=
  (readBytes? b offset 4).map Bytes.toNatLE

/-- The flag at an offset; its byte is 0 or 1. -/
def readFlag? (b : ByteArray) (offset : Int) : Except Fault Bool := do
  let byte := (← readBytes? b offset 1).data.getD 0 0
  if byte > 1 then .error (.invalidFlagByte byte offset) else .ok (byte == 1)

end BeaconBranch.Chunk
