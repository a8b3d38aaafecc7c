import BeaconBranch.Fault
import BeaconBranch.Limits
import BeaconBranch.Text.CharClass
import BeaconBranch.Text.LowerCase

/-!
Networks. A network is known by name and by chain id, and its genesis time ties slots to seconds.
-/

namespace BeaconBranch

/-- A known network. -/
structure Network where
  name : String
  chainId : Int
  genesisTime : Int
  deriving DecidableEq, Repr, Inhabited

namespace Network

/-- The main network. -/
def mainnet : Network := ⟨"mainnet", 1, 1606824023⟩

/-- The networks that are known. -/
def known : List Network :=
  [mainnet, ⟨"holesky", 17000, 1695902400⟩, ⟨"sepolia", 11155111, 1655733600⟩]

/-- The network of a name, in any case and with blanks around it. -/
def ofName? (name : String) : Except Fault Network :=
  match known.find? (·.name == LowerCase.lower (Blank.trim name)) with
  | some n => .ok n
  | none => .error (.unsupportedNetwork name)

/-- The network of a name that may be missing. -/
def ofValue? : Value → Except Fault Network
  | .text s => ofName? s
  | v =>
    if v.isTruthy then .error (.misuse .missingAttribute)
    else .error (.unsupportedNetwork v.display)

/-- The network of a chain id. -/
def ofChainId? (chainId : Int) : Except Fault Network :=
  match known.find? (·.chainId == chainId) with
  | some n => .ok n
  | none => .error (.unsupportedNetwork s!"chain id {chainId}")

end Network

/-- The second in which a slot starts. -/
def slotStart (slot genesisTime : Int) : Int := genesisTime + slot * Limits.secondsPerSlot

/-- The slot that a second falls into; slot 0 up to genesis. -/
def slotAt (timestamp genesisTime : Int) : Int :=
  if timestamp ≤ genesisTime then 0 else (timestamp - genesisTime) / (Limits.secondsPerSlot : Int)

end BeaconBranch
