/-!
Reading UTF-8. Every byte string can be read: each longest run of bytes that starts a character
and breaks off, and each byte that starts none, is replaced by U+FFFD.
-/

namespace BeaconBranch.Utf8

/-- How many bytes follow a first byte, its share of the character, and the range of the second
byte. -/
def lead? (b : Nat) : Option (Nat × Nat × Nat × Nat) :=
  if 0xc2 ≤ b ∧ b ≤ 0xdf then some (1, b - 0xc0, 0x80, 0xbf)
  else if b = 0xe0 then some (2, 0, 0xa0, 0xbf)
  else if b = 0xed then some (2, 0xd, 0x80, 0x9f)
  else if 0xe1 ≤ b ∧ b ≤ 0xef then some (2, b - 0xe0, 0x80, 0xbf)
  else if b = 0xf0 then some (3, 0, 0x90, 0xbf)
  else if 0xf1 ≤ b ∧ b ≤ 0xf3 then some (3, b - 0xf0, 0x80, 0xbf)
  else if b = 0xf4 then some (3, 4, 0x80, 0x8f)
  else none

/-- A character of which `more` further bytes are to come, the next one between `low` and `high`;
`part` is what its bytes have told so far. -/
structure Pending where
  more : Nat
  part : Nat
  low : Nat
  high : Nat

/-- What stands for bytes that are no character. -/
def replacement : Char := Char.ofNat 0xfffd

/-- Starts a character at a byte, behind the characters `before`. -/
def start (before : List Char) (b : Nat) : List Char × Option Pending :=
  if b < 0x80 then (Char.ofNat b :: before, none)
  else match lead? b with
    | some (more, part, low, high) => (before, some ⟨more, part, low, high⟩)
    | none => (replacement :: before, none)

/-- Takes in one byte. -/
def step : List Char × Option Pending → UInt8 → List Char × Option Pending
  | (before, none), b => start before b.toNat
  | (before, some p), b =>
    let n := b.toNat
    if p.low ≤ n ∧ n ≤ p.high then
      let part := p.part * 64 + (n - 0x80)
      if p.more ≤ 1 then (Char.ofNat part :: before, none)
      else (before, some ⟨p.more - 1, part, 0x80, 0xbf⟩)
    else start (replacement :: before) n

/-- The text that a byte string spells. -/
def decode (b : ByteArray) : String :=
  match String.fromUTF8? b with
  | some s => s
  | none =>
    match b.data.foldl step ([], none) with
    | (before, none) => String.ofList before.reverse
    | (before, some _) => String.ofList (replacement :: before).reverse

end BeaconBranch.Utf8
