import Nehemiah.Billing.UtcDay

/-!
# Host usage observations

The observation a host submits, as `billing/metering.ts` types it, and `validateObservation`.  The
decimal texts of the source (`sequence`, `runtimeNs`, `egressBytes` and so on) are canonical decimals:
the two regular expressions admit no sign and no leading zero, so a text and its value determine each
other and the value is kept.  The enumerations are inductive types, so that the membership tests of the
source for `kind`, `quality` and `quality_reason` hold by typing.  `observedAt` stays a text, since the
payload hash is taken over the text and not over the instant it names.
-/

namespace Nehemiah.Billing

def maxSignedBigint : ℕ := 9223372036854775807

def maxUnsignedBigint : ℕ := 18446744073709551615

def maxSafeInteger : ℕ := 9007199254740991

inductive HostUsageObservationKind
  | start | checkpoint | final
deriving DecidableEq

inductive HostUsageObservationQuality
  | exact | lastDefensible
deriving DecidableEq

inductive HostUsageObservationQualityReason
  | none | terminalMonotonicUnavailable | terminalMonotonicRegressed | terminalEgressUnavailable
  | invalidOrExpiredState | runtimeUnavailable | hostBootChanged | networkIsolationUnavailable
deriving DecidableEq

structure HostUsageObservation where
  machineId : String
  hostMachineId : String
  leaseId : String
  leaseGeneration : ℕ
  hostBootId : String
  sequence : ℕ
  kind : HostUsageObservationKind
  quality : HostUsageObservationQuality
  qualityReason : HostUsageObservationQualityReason
  runtimeNs : ℕ
  egressBytes : ℕ
  egressCounterEpoch : ℕ
  observedMonotonicNs : ℕ
  observedAt : String
  vcpus : ℕ
  memoryBytes : ℕ
  processId : ℕ
deriving DecidableEq

/-- What a call of `ingest` can throw: the three classes of the source, an error raised by the
database, and the plain `Error` of `processObservation`. -/
inductive MeteringError
  | input (message : String)
  | hostLifecycle (message : String)
  | rateLimit (message : String)
  | database (message : String)
  | internal (message : String)
deriving DecidableEq

/-! ### Timestamps -/

def decimal (cs : List Char) : Option ℕ :=
  if cs ≠ [] ∧ cs.all Char.isDigit then
    some (cs.foldl (fun n c => 10 * n + (c.toNat - '0'.toNat)) 0)
  else none

/-- Milliseconds of the optional fraction, and the closing `Z`. -/
def parseFraction : List Char → Option ℕ
  | ['Z'] => some 0
  | '.' :: rest =>
    let digits := rest.dropLast
    if rest.getLast? = some 'Z' ∧ digits.length ≤ 9 then do
      let _ ← decimal digits
      decimal ((digits ++ ['0', '0']).take 3)
    else none
  | _ => none

/-- `new Date(text)` for a text of the form `YYYY-MM-DDTHH:MM:SS(.f{1,9})?Z`, `none` for every other
text and for an instant that is not finite.  Midnight may be written as hour `24`. -/
def parseObservedAt (text : String) : Option ℤ :=
  let cs := text.toList
  let field (start len : ℕ) : Option ℕ := decimal ((cs.drop start).take len)
  if cs[4]? = some '-' ∧ cs[7]? = some '-' ∧ cs[10]? = some 'T' ∧ cs[13]? = some ':'
      ∧ cs[16]? = some ':' ∧ 20 ≤ cs.length then do
    let year ← field 0 4
    let month ← field 5 2
    let day ← field 8 2
    let hour ← field 11 2
    let minute ← field 14 2
    let second ← field 17 2
    let ms ← parseFraction (cs.drop 19)
    if 1 ≤ month ∧ month ≤ 12 ∧ 1 ≤ day ∧ day ≤ 31 ∧ minute ≤ 59 ∧ second ≤ 59
        ∧ (hour ≤ 23 ∨ hour = 24 ∧ minute = 0 ∧ second = 0 ∧ ms = 0) then
      let y : ℤ := year
      some ((dayFromYear y + monthStart (inLeapYear y) (month - 1) + day - 1) * msPerDay
        + ((hour * 60 + minute) * 60 + second) * 1000 + ms)
    else none
  else none

/-! ### Validation -/

def isHexLower (c : Char) : Bool := c.isDigit || ('a' ≤ c && c ≤ 'f')

/-- The `i` flag of the regular expressions for UUIDs. -/
def isHex (c : Char) : Bool := isHexLower c || ('A' ≤ c && c ≤ 'F')

/-- `/^m_[A-Za-z0-9_-]{12,}$/` and at most 128 characters. -/
def validMachineId (s : String) : Bool :=
  let cs := s.toList
  cs.length ≤ 128 && cs.take 2 == ['m', '_'] && 12 ≤ (cs.drop 2).length
    && (cs.drop 2).all fun c => c.isAlphanum || c == '_' || c == '-'

/-- `/^m-[0-9a-f]{8}$/`. -/
def validHostMachineId (s : String) : Bool :=
  let cs := s.toList
  cs.take 2 == ['m', '-'] && (cs.drop 2).length == 8 && (cs.drop 2).all isHexLower

/-- `/^[0-9a-f]{8}-[0-9a-f]{4}-[1-5][0-9a-f]{3}-[89ab][0-9a-f]{3}-[0-9a-f]{12}$/i`. -/
def validUuid (s : String) : Bool :=
  let cs := s.toList
  let at? (i : ℕ) (p : Char → Bool) : Bool := (cs[i]?).any p
  cs.length == 36
    && [8, 13, 18, 23].all (fun i => at? i (· == '-'))
    && (List.range 36).all (fun i => [8, 13, 18, 23].contains i || at? i isHex)
    && at? 14 (fun c => '1' ≤ c && c ≤ '5')
    && at? 19 (fun c => ['8', '9', 'a', 'b', 'A', 'B'].contains c)

/-- `parseUnsigned`: at most thirty digits, then the bound of the host's `uint64`. -/
def parseUnsigned (value : ℕ) (name : String) : Except MeteringError ℕ :=
  if 10 ^ 30 ≤ value then .error (.input (name ++ " must be an unsigned decimal integer"))
  else if maxUnsignedBigint < value then .error (.input (name ++ " exceeds host uint64"))
  else .ok value

/-- `parsePositiveBigint`: at most nineteen digits, then the bound of PostgreSQL's `bigint`. -/
def parsePositiveBigint (value : ℕ) (name : String) : Except MeteringError ℕ :=
  if value = 0 ∨ 10 ^ 19 ≤ value then
    .error (.input (name ++ " must be a positive decimal integer"))
  else if maxSignedBigint < value then .error (.input (name ++ " exceeds PostgreSQL bigint"))
  else .ok value

def qualityConsistent (o : HostUsageObservation) : Bool :=
  match o.quality with
  | .exact => o.qualityReason == .none
  | .lastDefensible => o.kind == .final && o.qualityReason != .none

/-- Throw the message unless the test holds. -/
def require (test : Bool) (message : String) : Except MeteringError Unit :=
  if test then .ok () else .error (.input message)

def validateObservation (o : HostUsageObservation) : Except MeteringError Unit := do
  require (validMachineId o.machineId) "machine_id is invalid"
  require (validHostMachineId o.hostMachineId) "host_machine_id is invalid"
  require (validUuid o.leaseId) "lease_id is invalid"
  require (validUuid o.hostBootId) "host_boot_id is invalid"
  let _ ← parsePositiveBigint o.leaseGeneration "lease_generation"
  let _ ← parsePositiveBigint o.sequence "sequence"
  let _ ← parseUnsigned o.runtimeNs "runtime_ns"
  let _ ← parseUnsigned o.egressBytes "egress_bytes"
  let _ ← parsePositiveBigint o.egressCounterEpoch "egress_counter_epoch"
  let _ ← parseUnsigned o.observedMonotonicNs "observed_monotonic_ns"
  let _ ← parsePositiveBigint o.memoryBytes "memory_bytes"
  require (qualityConsistent o) "quality and quality_reason are inconsistent"
  require (1 ≤ o.vcpus && o.vcpus ≤ maxSafeInteger) "vcpus is invalid"
  require (1 < o.processId && o.processId ≤ maxSafeInteger) "process_id is invalid"
  require (parseObservedAt o.observedAt).isSome "observed_at must be a canonical UTC timestamp"

end Nehemiah.Billing
