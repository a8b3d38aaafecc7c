import BeaconBranch.Binary64

/-!
Limits and sizes of the beacon state in its Deneb form, with the positions of the fields that
proofs go through.
-/

namespace BeaconBranch.Limits

def slotsPerHistoricalRoot : Nat := 8192
def epochsPerHistoricalVector : Nat := 65536
def epochsPerSlashingsVector : Nat := 8192

/-- The most historical roots, and the most historical summaries. -/
def historicalRoots : Nat := twoTo 24

def eth1DataVotes : Nat := 2048
def syncCommitteeSize : Nat := 512

/-- The most validators, and the most balances. -/
def validatorRegistry : Nat := twoTo 40

def validatorTreeHeight : Nat := 40
def validatorRecordSize : Nat := 121
def balancesPerChunk : Nat := 4

/-- Four balances share a chunk, so their tree has two levels less than that of the validators. -/
def balanceTreeHeight : Nat := 38

def stateFieldCount : Nat := 28

/-- The 28 fields of the state stand under 32 leaves. -/
def stateTreeDepth : Nat := 5

def validatorsField : Nat := 11
def balancesField : Nat := 12

/-- The generalized index of the validators under the state root. -/
def validatorsGindex : Nat := twoTo stateTreeDepth + validatorsField

/-- The generalized index of the balances under the state root. -/
def balancesGindex : Nat := twoTo stateTreeDepth + balancesField

/-- The position of the state root among the fields of a block header. -/
def headerStateRootField : Nat := 3

def secondsPerSlot : Nat := 12
def offsetSize : Nat := 4
def extraData : Nat := 32

end BeaconBranch.Limits
