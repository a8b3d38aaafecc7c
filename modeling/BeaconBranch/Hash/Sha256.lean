import BeaconBranch.Bytes.Basic

/-!
SHA-256, the only hash of the library. A message is padded to whole 64-byte blocks, each block is
expanded to 64 schedule words, and the eight working words absorb one block after another. Main
statement: a digest always has 32 bytes, which is what every tree above it relies on.
-/

namespace BeaconBranch.Sha256

/-- Eight 32-bit words: a chaining value between blocks, or the working words inside one. -/
structure Words where
  a : UInt32
  b : UInt32
  c : UInt32
  d : UInt32
  e : UInt32
  f : UInt32
  g : UInt32
  h : UInt32

/-- The chaining value before the first block: fractional parts of the square roots of the first
eight primes. -/
def start : Words :=
  ⟨0x6a09e667, 0xbb67ae85, 0x3c6ef372, 0xa54ff53a, 0x510e527f, 0x9b05688c, 0x1f83d9ab, 0x5be0cd19⟩

/-- One constant per round: fractional parts of the cube roots of the first 64 primes. -/
def roundConstants : Array UInt32 := #[
  0x428a2f98, 0x71374491, 0xb5c0fbcf, 0xe9b5dba5, 0x3956c25b, 0x59f111f1, 0x923f82a4, 0xab1c5ed5,
  0xd807aa98, 0x12835b01, 0x243185be, 0x550c7dc3, 0x72be5d74, 0x80deb1fe, 0x9bdc06a7, 0xc19bf174,
  0xe49b69c1, 0xefbe4786, 0x0fc19dc6, 0x240ca1cc, 0x2de92c6f, 0x4a7484aa, 0x5cb0a9dc, 0x76f988da,
  0x983e5152, 0xa831c66d, 0xb00327c8, 0xbf597fc7, 0xc6e00bf3, 0xd5a79147, 0x06ca6351, 0x14292967,
  0x27b70a85, 0x2e1b2138, 0x4d2c6dfc, 0x53380d13, 0x650a7354, 0x766a0abb, 0x81c2c92e, 0x92722c85,
  0xa2bfe8a1, 0xa81a664b, 0xc24b8b70, 0xc76c51a3, 0xd192e819, 0xd6990624, 0xf40e3585, 0x106aa070,
  0x19a4c116, 0x1e376c08, 0x2748774c, 0x34b0bcb5, 0x391c0cb3, 0x4ed8aa4a, 0x5b9cca4f, 0x682e6ff3,
  0x748f82ee, 0x78a5636f, 0x84c87814, 0x8cc70208, 0x90befffa, 0xa4506ceb, 0xbef9a3f7, 0xc67178f2]

@[inline] def rotateRight (x n : UInt32) : UInt32 := (x >>> n) ||| (x <<< (32 - n))

/-- The four bytes at `i`, most significant first; bytes past the end count as zero. -/
@[inline] def wordAt (m : ByteArray) (i : Nat) : UInt32 :=
  let byte (k : Nat) : UInt32 := if h : k < m.size then m[k].toUInt32 else 0
  (byte i <<< 24) ||| (byte (i + 1) <<< 16) ||| (byte (i + 2) <<< 8) ||| byte (i + 3)

/-- The sixteen words of the block that starts at `offset`. -/
def blockWords (m : ByteArray) (offset : Nat) : Nat → Array UInt32 → Array UInt32
  | 0, w => w
  | n + 1, w => blockWords m offset n (w.push (wordAt m (offset + 4 * w.size)))

/-- Appends `n` schedule words, each made from the words 16, 15, 7 and 2 places before it. -/
def extend : Nat → Array UInt32 → Array UInt32
  | 0, w => w
  | n + 1, w =>
    let x := w.getD (w.size - 15) 0
    let y := w.getD (w.size - 2) 0
    let s₀ := rotateRight x 7 ^^^ rotateRight x 18 ^^^ (x >>> 3)
    let s₁ := rotateRight y 17 ^^^ rotateRight y 19 ^^^ (y >>> 10)
    extend n (w.push (w.getD (w.size - 16) 0 + s₀ + w.getD (w.size - 7) 0 + s₁))

/-- The last `n` of the 64 rounds over the schedule `w`. -/
def rounds (w : Array UInt32) : Nat → (a b c d e f g h : UInt32) → Words
  | 0, a, b, c, d, e, f, g, h => ⟨a, b, c, d, e, f, g, h⟩
  | n + 1, a, b, c, d, e, f, g, h =>
    let s₁ := rotateRight e 6 ^^^ rotateRight e 11 ^^^ rotateRight e 25
    let choice := (e &&& f) ^^^ (~~~e &&& g)
    let t₁ := h + s₁ + choice + roundConstants.getD (63 - n) 0 + w.getD (63 - n) 0
    let s₀ := rotateRight a 2 ^^^ rotateRight a 13 ^^^ rotateRight a 22
    let majority := (a &&& b) ^^^ (a &&& c) ^^^ (b &&& c)
    rounds w n (t₁ + s₀ + majority) a b c (d + t₁) e f g

/-- Absorbs the block that starts at `offset`. -/
def compress (v : Words) (m : ByteArray) (offset : Nat) : Words :=
  let w := extend 48 (blockWords m offset 16 (Array.mkEmpty 64))
  let r := rounds w 64 v.a v.b v.c v.d v.e v.f v.g v.h
  ⟨v.a + r.a, v.b + r.b, v.c + r.c, v.d + r.d, v.e + r.e, v.f + r.f, v.g + r.g, v.h + r.h⟩

/-- Absorbs `n` blocks from `offset` on. -/
def absorb (m : ByteArray) : Nat → Nat → Words → Words
  | 0, _, v => v
  | n + 1, offset, v => absorb m n (offset + 64) (compress v m offset)

/-- Appends a word, most significant byte first. -/
@[inline] def pushWord (m : ByteArray) (x : UInt32) : ByteArray :=
  (((m.push (x >>> 24).toUInt8).push (x >>> 16).toUInt8).push (x >>> 8).toUInt8).push x.toUInt8

/-- The message, a one bit, zeros up to eight bytes before a block boundary, and the length in
bits as a 64-bit number. -/
def pad (m : ByteArray) : ByteArray :=
  let bits := m.size * 8
  let padded := Bytes.pushZeros ((119 - m.size % 64) % 64) (m.push 0x80)
  pushWord (pushWord padded (bits >>> 32).toUInt32) bits.toUInt32

/-- The words of a chaining value, written one after another. -/
def Words.toBytes (v : Words) : ByteArray :=
  let m := ByteArray.emptyWithCapacity 32
  let m := pushWord (pushWord (pushWord (pushWord m v.a) v.b) v.c) v.d
  pushWord (pushWord (pushWord (pushWord m v.e) v.f) v.g) v.h

/-- The SHA-256 digest of a message. -/
def digest (m : ByteArray) : ByteArray :=
  let p := pad m
  (absorb p (p.size / 64) 0 start).toBytes

theorem size_pushWord (m : ByteArray) (x : UInt32) : (pushWord m x).size = m.size + 4 := by
  simp [pushWord, ByteArray.size_push]

/-- Every digest has 32 bytes. -/
@[simp] theorem size_digest (m : ByteArray) : (digest m).size = 32 := by
  simp only [digest, Words.toBytes, size_pushWord]
  rfl

end BeaconBranch.Sha256
