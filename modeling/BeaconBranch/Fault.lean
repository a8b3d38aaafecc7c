import BeaconBranch.Limits
import BeaconBranch.Text.Hex
import BeaconBranch.Value

/-!
What can go wrong, one constructor per cause. `Fault.kind` sorts the causes into the kinds that
callers tell apart, and `Fault.message?` is the one place where their wording stands. A misuse of
a value (`Fault.misuse`) has a kind and no wording of its own.
-/

namespace BeaconBranch

/-- The kinds of faults that callers tell apart. -/
inductive FaultKind
  | value
  | overflow
  | assertion
  | wrongType
  | missingKey
  | missingAttribute
  | zeroDivision
  | runtime
  | tooDeep
  | truncatedInput
  | recordBounds
  | indexOutOfRange
  | depthMismatch
  | unsupportedNetwork
  | beaconNode
  | prover
  | execution
  | service
  | parameter
  | validation
  | connectTimeout
  | connection
  | readTimeout
  | timeout
  | tls
  | tooManyRedirects
  | invalidUrl
  | chunkedEncoding
  | request
  | httpStatus
  | web3
  | other (name : String)
  deriving DecidableEq, Repr

namespace FaultKind

/-- The name under which a kind is reported. -/
def name : FaultKind → String
  | value => "ValueError"
  | overflow => "OverflowError"
  | assertion => "AssertionError"
  | wrongType => "TypeError"
  | missingKey => "KeyError"
  | missingAttribute => "AttributeError"
  | zeroDivision => "ZeroDivisionError"
  | runtime => "RuntimeError"
  | tooDeep => "RecursionError"
  | truncatedInput => "TruncatedInputError"
  | recordBounds => "RecordBoundsError"
  | indexOutOfRange => "IndexOutOfRangeError"
  | depthMismatch => "DepthMismatchError"
  | unsupportedNetwork => "UnsupportedNetworkError"
  | beaconNode => "BeaconAPIError"
  | prover => "ProverAPIError"
  | execution => "ExecutionAPIError"
  | service => "ProofServiceError"
  | parameter => "BadParameter"
  | validation => "ValidationError"
  | connectTimeout => "ConnectTimeout"
  | connection => "ConnectionError"
  | readTimeout => "ReadTimeout"
  | timeout => "Timeout"
  | tls => "SSLError"
  | tooManyRedirects => "TooManyRedirects"
  | invalidUrl => "InvalidURL"
  | chunkedEncoding => "ChunkedEncodingError"
  | request => "RequestException"
  | httpStatus => "HTTPError"
  | web3 => "Web3Exception"
  | other s => s

/-- The kinds that have a constructor of their own. -/
def listed : List FaultKind :=
  [value, overflow, assertion, wrongType, missingKey, missingAttribute, zeroDivision, runtime,
    tooDeep, truncatedInput, recordBounds, indexOutOfRange, depthMismatch, unsupportedNetwork,
    beaconNode, prover, execution, service, parameter, validation, connectTimeout, connection,
    readTimeout, timeout, tls, tooManyRedirects, invalidUrl, chunkedEncoding, request, httpStatus,
    web3]

/-- The kind that a name reports. -/
def ofName (s : String) : FaultKind := (listed.find? (·.name == s)).getD (other s)

/-- The input was not valid: the caller has to change it. -/
def isInvalidInput : FaultKind → Bool
  | value | truncatedInput | recordBounds | indexOutOfRange | depthMismatch | unsupportedNetwork
  | validation | invalidUrl => true
  | _ => false

/-- No connection came about. -/
def isConnection : FaultKind → Bool
  | connection | connectTimeout | tls => true
  | _ => false

/-- No answer came in time. -/
def isTimeout : FaultKind → Bool
  | timeout | connectTimeout | readTimeout => true
  | _ => false

/-- The exchange with a remote node failed below the level of its answer. -/
def isTransport : FaultKind → Bool
  | connection | connectTimeout | tls | timeout | readTimeout | tooManyRedirects | invalidUrl
  | chunkedEncoding | request | httpStatus => true
  | _ => false

/-- A defect of a state snapshot or of a tree built from it. -/
def isSnapshotDefect : FaultKind → Bool
  | truncatedInput | recordBounds | indexOutOfRange | depthMismatch => true
  | _ => false

end FaultKind

/-- A cause of failure. -/
inductive Fault
  /-- A value was used as something it is not. -/
  | misuse (kind : FaultKind)
  /-- A remote exchange failed. -/
  | remote (kind : FaultKind) (text : String)
  | negativeNumber (bits : Nat) (n : Number)
  | numberTooLarge (bits : Nat) (n : Number)
  | wrongLength (expected : Int) (actual : Nat)
  | notEightBytes (actual : Nat)
  | invalidFlag (data : ByteArray)
  | readOutside (length offset : Int) (size : Nat)
  | invalidFlagByte (byte : UInt8) (offset : Int)
  | unsupportedType (name : String)
  | notALeaf (actual : Nat)
  | indexOutOfRange (what : String) (index : Int) (size : Nat)
  | notAPathStep (step : String)
  | gindexNotPositive (gindex : Int)
  | depthMismatch (gindex : Int) (expected : Int) (actual : Nat)
  | wrongLeafSize (actual : Nat)
  | negativeDepth (depth : Int)
  | tooManyLeaves (depth : Nat) (actual : Nat)
  | tooManyChunks (actual : Nat) (capacity : Nat)
  | registryTooLong (what : String) (actual : Nat)
  | wrongRecordSize (what : String) (expected actual : Nat)
  | payloadTooShort (actual : Nat)
  | payloadOffset (offset : Nat)
  | extraDataTooLong (actual : Nat)
  | extraDataOverLimit (actual : Nat)
  | notWholeRecords (what : String) (actual : Nat) (width : Int)
  | truncatedState (actual : Nat)
  | firstOffset (what : String) (offset : Nat)
  | offsetsDecrease (what : String) (start stop : Nat)
  | sectionOutside (what : String) (stop size : Nat)
  | invalidHex (text : String)
  | wrongHexLength (expected : Int) (actual : Nat) (text : String)
  | notAnObject (what kindName : String)
  | wrongAddressLength (actual : Nat) (text : String)
  | foreignGindex (gindex index expected : Int)
  | unsupportedNetwork (name : String)
  | beaconUrlMissing
  | proverUrlMissing
  | executionUrlMissing
  | beaconUnreachable (url cause : String)
  | beaconTimeout (path url cause : String)
  | beaconStatus (status : Int) (path body : String)
  | beaconRequest (url cause : String)
  | beaconNotJson (path cause : String)
  | beaconNoData
  | malformedHeader (blockId cause : String)
  | malformedValidator (cause : String)
  | proverStatus (status : Int) (body : String)
  | proverRequest (cause : String)
  | proverNotJson (cause : String)
  | proverNoData
  | chainIdFailed (url cause : String)
  | blockNumberFailed (cause : String)
  | blockFailed (number cause : String)
  | rootQueryFailed (timestamp : Int) (cause : String)
  | rootNotAvailable (timestamp : Int)
  | noRecentRoot (lookback : Int)
  | timedOut (seconds : Number)
  | blockRootDiffers (computed given : ByteArray)
  | stateRootUnproven
  | oracleDiffers
  | stateRootDiffers (computed header : ByteArray)
  | validatorUnproven (index : Int)
  | containerUnproven
  | balanceUnproven (index : Int)
  | validatorsMissing (indices : String)
  | noIndices
  | negativeIndices (indices : String)
  | indexListMissing
  | indexListMalformed (text : String)
  | indexListNegative
  | invalidResponse
  deriving Inhabited

namespace Fault

/-- The kind of a cause. -/
def kind : Fault → FaultKind
  | misuse k => k
  | remote k _ => k
  | numberTooLarge .. => .overflow
  | wrongLength .. => .assertion
  | readOutside .. | invalidFlagByte .. | wrongRecordSize .. | payloadTooShort .. | payloadOffset ..
  | extraDataTooLong .. | notWholeRecords .. | firstOffset .. | offsetsDecrease ..
  | sectionOutside .. => .recordBounds
  | indexOutOfRange .. => .indexOutOfRange
  | depthMismatch .. => .depthMismatch
  | truncatedState .. => .truncatedInput
  | unsupportedNetwork .. => .unsupportedNetwork
  | beaconUnreachable .. | beaconTimeout .. | beaconStatus .. | beaconRequest .. | beaconNotJson ..
  | beaconNoData | malformedHeader .. | malformedValidator .. => .beaconNode
  | proverStatus .. | proverRequest .. | proverNotJson .. | proverNoData => .prover
  | chainIdFailed .. | blockNumberFailed .. | blockFailed .. | rootQueryFailed ..
  | rootNotAvailable .. | noRecentRoot .. => .execution
  | timedOut .. | blockRootDiffers .. | stateRootUnproven | oracleDiffers | stateRootDiffers ..
  | validatorUnproven .. | containerUnproven | balanceUnproven .. => .service
  | indexListMissing | indexListMalformed .. | indexListNegative => .parameter
  | invalidResponse => .validation
  | _ => .value

/-- The wording of a cause, if it has one. -/
def message? : Fault → Option String
  | misuse _ => none
  | remote _ text => text
  | negativeNumber bits n => some (s!"uint{bits} cannot encode negative value " ++ n.text)
  | numberTooLarge bits n => some (n.text ++ s!" does not fit in a uint{bits}")
  | wrongLength expected actual => s!"Expected {expected} bytes, got {actual}"
  | notEightBytes actual => s!"uint64 needs exactly 8 bytes, got {actual}"
  | invalidFlag data => some ("Invalid SSZ boolean: " ++ Hex.marked data)
  | readOutside length offset size =>
    s!"read of {length} bytes at offset {offset} exceeds buffer of {size} bytes"
  | invalidFlagByte byte offset =>
    let shown := String.ofList (Hex.digits byte)
    s!"invalid boolean byte 0x{shown} at offset {offset}"
  | unsupportedType name => s!"Unsupported basic type: {name}"
  | notALeaf actual => s!"Expected 32-byte leaf, got {actual}"
  | indexOutOfRange what index size => s!"{what} index {index} out of range (size {size})"
  | notAPathStep step => s!"Path elements must be 0 or 1, got {step}"
  | gindexNotPositive gindex => s!"Generalized index must be positive, got {gindex}"
  | depthMismatch gindex expected actual =>
    s!"generalized index {gindex} has depth {actual}, tree depth is {expected}"
  | wrongLeafSize actual => s!"Merkle leaves must be 32 bytes, got {actual}"
  | negativeDepth depth => s!"Tree depth must be non-negative, got {depth}"
  | tooManyLeaves depth actual =>
    let capacity := twoTo depth
    s!"Too many leaves for depth {depth}: {actual} > {capacity}"
  | tooManyChunks actual capacity => s!"Too many leaves: {actual} > {capacity}"
  | registryTooLong what actual =>
    s!"{what} list too large: {actual} > {Limits.validatorRegistry}"
  | wrongRecordSize what expected actual => s!"{what} must be {expected} bytes, got {actual}"
  | payloadTooShort actual => s!"ExecutionPayloadHeader needs at least 584 bytes, got {actual}"
  | payloadOffset offset => s!"ExecutionPayloadHeader extra_data offset {offset} != 584"
  | extraDataTooLong actual => s!"extra_data length {actual} exceeds 32"
  | extraDataOverLimit actual => s!"ExtraData length {actual} exceeds maximum 32"
  | notWholeRecords what actual width =>
    s!"{what} section of {actual} bytes is not a multiple of {width}"
  | truncatedState actual => s!"beacon state too short: got {actual} bytes, need at least 2736653"
  | firstOffset what offset =>
    s!"first variable offset ({what}) is {offset}, expected end of fixed region 2736653"
  | offsetsDecrease what start stop => s!"offset of {what} ({start}) exceeds next offset ({stop})"
  | sectionOutside what stop size =>
    s!"section {what} ends at {stop}, beyond buffer of {size} bytes"
  | invalidHex text => s!"Invalid hex string: {text}"
  | wrongHexLength expected actual text => s!"Expected {expected} bytes, got {actual}: {text}"
  | notAnObject what kindName => s!"Expected a JSON object for {what}, got {kindName}"
  | wrongAddressLength actual text => s!"Expected a 20-byte address, got {actual} bytes: {text}"
  | foreignGindex gindex index expected =>
    s!"Prover returned gindex {gindex} for validator {index}, expected {expected}"
  | unsupportedNetwork name =>
    s!"Unsupported network: {name}. Known networks: holesky, mainnet, sepolia"
  | beaconUrlMissing => "BEACON_RPC_URL environment variable is not set"
  | proverUrlMissing => "Prover API URL is not set (PROVER_API_URL or BEACON_RPC_URL)"
  | executionUrlMissing => "EXECUTION_RPC_URL is not set"
  | beaconUnreachable url cause => some (s!"Failed to connect to beacon API at {url}. " ++
      "Please check the beacon node is running and BEACON_RPC_URL is correct. " ++
      s!"Original error: {cause}")
  | beaconTimeout path url cause => some (s!"Timeout fetching {path} from beacon API at {url}. " ++
      s!"The beacon node may be slow or unresponsive. Original error: {cause}")
  | beaconStatus status path body => s!"Beacon API error {status} for {path}: {body}"
  | beaconRequest url cause => s!"Request failed to beacon API at {url}. Error: {cause}"
  | beaconNotJson path cause => s!"Invalid JSON from beacon API for {path}: {cause}"
  | beaconNoData | proverNoData => "Invalid response format: missing 'data' field"
  | malformedHeader blockId cause => s!"Malformed header response for {blockId}: {cause}"
  | malformedValidator cause => s!"Malformed validator record: {cause}"
  | proverStatus status body => s!"Prover API error {status}: {body}"
  | proverRequest cause => s!"Prover API request failed: {cause}"
  | proverNotJson cause => s!"Invalid JSON from prover API: {cause}"
  | chainIdFailed url cause => s!"Failed to fetch chain id from {url}: {cause}"
  | blockNumberFailed cause => s!"Failed to fetch block number: {cause}"
  | blockFailed number cause => s!"Failed to fetch block {number}: {cause}"
  | rootQueryFailed timestamp cause =>
    s!"Beacon roots query failed for timestamp {timestamp}: {cause}"
  | rootNotAvailable timestamp =>
    s!"Beacon root not available for timestamp {timestamp} (may be outside the ring buffer)"
  | noRecentRoot lookback => s!"Could not find a beacon root in the last {lookback} slots"
  | timedOut seconds => some ("Timed out after " ++ seconds.text ++ "s fetching beacon data")
  | blockRootDiffers computed given => some ("Header root " ++ Hex.marked computed ++
      " does not match block root " ++ Hex.marked given)
  | stateRootUnproven => "State root proof does not verify against the block root"
  | oracleDiffers => "Beacon root does not match EIP-4788 oracle - timestamp may be too old"
  | stateRootDiffers computed header => some ("Decoded state root " ++ Hex.marked computed ++
      " does not match header state root " ++ Hex.marked header)
  | validatorUnproven index => s!"Validator proof for {index} does not verify against the state root"
  | containerUnproven => "Balance container proof does not verify against the state root"
  | balanceUnproven index => s!"Balance proof for {index} does not verify against the balances root"
  | validatorsMissing indices => s!"Validators not found: {indices}"
  | noIndices => "At least one validator index is required"
  | negativeIndices indices => s!"Validator indices must be non-negative: {indices}"
  | indexListMissing => "at least one validator index is required"
  | indexListMalformed text => s!"'{text}' is not a comma-separated list of integers"
  | indexListNegative => "validator indices must be non-negative integers"
  | invalidResponse => none

/-- What stands for a cause inside another message when it has no wording. -/
def unworded : String := "<runtime>"

/-- The text of a cause inside another message. -/
def text (f : Fault) : String := f.message?.getD unworded

end Fault

/-- A value used as something of another type. -/
def Fault.wrongType : Fault := .misuse .wrongType

end BeaconBranch
