import Mathlib
import Nehemiah.Billing.Observation

/-!
# The metering tables

The rows that `billing/metering.ts` reads and writes, and its one-statement queries.  A table with a
primary key that the code looks rows up by (`hosts`, `machines`, `machine_meter_state`) is a partial
function from the key; the append-only tables are lists in insertion order.  Keys that the source
builds as texts from colon-free parts (`meter:${observation.id}:${segment.index}:compute`) are
inductive types, one constructor for each template.

A timestamp column is an integer of milliseconds, the resolution the code sees it at.  The columns
that no modelled function reads or that only record when a row was touched (`updated_at`,
`recorded_at`, `detected_at`, the credential material of a host) are left out.
-/

namespace Nehemiah.Billing

/-! ### Rows -/

inductive HostDesiredState
  | active | draining | quarantined | revoked
deriving DecidableEq

inductive HostState
  | ready | draining | unhealthy | stale
deriving DecidableEq

inductive CredentialStatus
  | active | revoked
deriving DecidableEq

structure HostRow where
  desiredState : HostDesiredState
  state : HostState
  credentialStatus : CredentialStatus
  credentialGeneration : ℕ
  lifecycleReason : Option String
  lastMeteringBatchAt : Option ℤ
  meteringQuarantinedAt : Option ℤ

inductive MachineState
  | requested | placing | starting | running | stopping | stopped | failed | lost
deriving DecidableEq

/-- A row of `machines`.  `hostId` and `hostMachineId` are null until the machine is placed and its
host has answered. -/
structure MachineRow where
  organizationId : String
  projectId : String
  hostId : Option String
  hostMachineId : Option String
  leaseId : String
  leaseGeneration : ℕ
  vcpus : ℕ
  memoryMb : ℕ
  createdAt : ℤ
  startedAt : Option ℤ
  usageCheckpointAt : Option ℤ
  usageFinalizedAt : Option ℤ
  state : MachineState
  expiresAt : ℤ

/-- `MachineIdentityRow`: what `ingest` selects of a machine, together with the statement time. -/
structure MachineIdentity where
  id : String
  organizationId : String
  projectId : String
  hostId : String
  hostMachineId : String
  leaseId : String
  leaseGeneration : ℕ
  vcpus : ℕ
  memoryBytes : ℕ
  createdAt : ℤ
  startedAt : Option ℤ
  usageCheckpointAt : Option ℤ
  state : MachineState
  expiresAt : ℤ
  admissionReceivedAt : ℤ

/-- A row of `host_usage_observations`.  `payload` stands for the SHA-256 of the canonical payload,
which is taken to be injective. -/
structure StoredObservation where
  id : ℕ
  hostId : String
  machineId : String
  hostMachineId : String
  leaseId : String
  leaseGeneration : ℕ
  payload : HostUsageObservation
  hostBootId : String
  sequence : ℕ
  kind : HostUsageObservationKind
  quality : HostUsageObservationQuality
  qualityReason : HostUsageObservationQualityReason
  runtimeNs : ℕ
  egressBytes : ℕ
  egressCounterEpoch : ℕ
  observedMonotonicNs : ℕ
  observedAt : ℤ
  receivedAt : ℤ
  vcpus : ℕ
  memoryBytes : ℕ
  processId : ℕ

/-- The values the check constraint of `machine_meter_state.quarantine_reason` admits. -/
inductive QuarantineReason
  | bootIdChanged | counterReset | clockSkew | startMissing | startRepeated | observationAfterFinal
  | payloadConflict | degradedTerminal | sequenceWindowExceeded | observationRateExceeded
  | egressPlausibilityExceeded | prematureFinal
deriving DecidableEq

/-- A row of `machine_meter_state`. -/
structure MeterState where
  hostId : String
  hostMachineId : String
  leaseId : String
  leaseGeneration : ℕ
  hostBootId : String
  lastSequence : ℕ
  lastRuntimeNs : ℕ
  projectedRuntimeNs : ℕ
  startMonotonicNs : Option ℕ
  lastObservedMonotonicNs : Option ℕ
  lastEgressBytes : ℕ
  egressCounterEpoch : ℕ
  startSeen : Bool
  finalSeen : Bool
  lastObservedAt : Option ℤ
  lastPeriodEnd : Option ℤ
  lastReceivedAt : Option ℤ
  lossClosedAt : Option ℤ
  quarantinedAt : Option ℤ
  quarantineReason : Option QuarantineReason

inductive Dimension
  | compute | memory | egress
deriving DecidableEq

inductive UsageUnit
  | vcpuNanosecond | byteNanosecond | byte

/-- Keys of the raw usage events: `meter:${id}:${index}:compute`, `meter:${id}:${index}:memory` and
`meter:${id}:egress`. -/
inductive RawEventKey
  | compute (observationId index : ℕ)
  | memory (observationId index : ℕ)
  | egress (observationId : ℕ)
deriving DecidableEq

def RawEventKey.observationId : RawEventKey → ℕ
  | .compute i _ => i
  | .memory i _ => i
  | .egress i => i

/-- A row of `meter_raw_usage_events`. -/
structure RawUsageEvent where
  eventKey : RawEventKey
  observationId : ℕ
  organizationId : String
  projectId : String
  machineId : String
  leaseId : String
  leaseGeneration : ℕ
  dimension : Dimension
  unit : UsageUnit
  quantity : ℕ
  periodStart : ℤ
  periodEnd : ℤ

inductive UsageDimension
  | vcpuSeconds | gibSeconds | egressBytes

/-- A row that `appendProjection` writes to `usage_events`, under the key `raw:${eventKey}`.  The
column is `numeric(30, 9)`: the quantity is counted in billionths. -/
structure UsageEvent where
  eventKey : RawEventKey
  organizationId : String
  projectId : String
  machineId : String
  dimension : UsageDimension
  quantityNano : ℕ
  periodStart : ℤ
  periodEnd : ℤ

/-- A row that `closeLegacyPrefix` writes to `usage_outbox`, under the key
`machine:${id}:meter-cutover:${generation}:${boundary}`. -/
structure CutoverEvent where
  machineId : String
  leaseGeneration : ℕ
  boundary : ℤ
  organizationId : String
  projectId : String
  vcpus : ℕ
  memoryMb : ℕ
  periodStart : ℤ
  periodEnd : ℤ

inductive ExceptionReason
  | sequenceGap | hostLostWithoutFinal | hostLostWithoutObservation
  | quarantine (reason : QuarantineReason)
deriving DecidableEq

/-- The templates of `exception_key`. -/
inductive ExceptionKey
  /-- `meter:${machine}:${generation}:${reason}` -/
  | admission (machineId : String) (leaseGeneration : ℕ) (reason : QuarantineReason)
  /-- `meter:${machine}:${generation}:${boot}:${sequence}:${reason}` -/
  | observation (machineId : String) (leaseGeneration : ℕ) (hostBootId : String) (sequence : ℕ)
      (reason : ExceptionReason)
  /-- `meter:${machine}:${generation}:${boot}:${sequence}:degraded_terminal:${quality_reason}` -/
  | degradedTerminal (machineId : String) (leaseGeneration : ℕ) (hostBootId : String) (sequence : ℕ)
      (qualityReason : HostUsageObservationQualityReason)
  /-- `meter:${machine}:${generation}:host_loss:${reason}` -/
  | hostLoss (machineId : String) (leaseGeneration : ℕ) (reason : ExceptionReason)
deriving DecidableEq

structure MeteringException where
  id : ℕ
  exceptionKey : ExceptionKey
  hostId : String
  machineId : String
  leaseId : String
  leaseGeneration : ℕ
  hostBootId : Option String
  sequence : Option ℕ
  reason : ExceptionReason

structure ExceptionResolution where
  exceptionId : ℕ
  resolution : String

structure AuditEvent where
  hostId : String
  reason : String

/-- What the meter recorded when it processed the start observation of a lease: the runtime already
covered by legacy metering and the egress counter at the start.  No column holds the former, so it is
kept beside the tables; no function of the model reads it. -/
structure StartRecord where
  legacyCoveredRuntime : ℕ
  egressBytes : ℕ

structure Db where
  hosts : String → Option HostRow
  machines : String → Option MachineRow
  meterStates : String → Option MeterState
  observations : List StoredObservation
  nextObservationId : ℕ
  rawEvents : List RawUsageEvent
  usageEvents : List UsageEvent
  cutovers : List CutoverEvent
  exceptions : List MeteringException
  resolutions : List ExceptionResolution
  auditEvents : List AuditEvent
  startRecords : String → Option StartRecord

/-! ### One-statement queries -/

/-- The text form of a `uuid` column. -/
def uuidText (s : String) : String := String.ofList (s.toList.map Char.toLower)

/-- `INSERT INTO metering_exceptions … ON CONFLICT (exception_key) DO NOTHING`. -/
def exception (db : Db) (e : MeteringException) : Db :=
  if db.exceptions.any (·.exceptionKey == e.exceptionKey) then db
  else { db with exceptions := db.exceptions ++ [{ e with id := db.exceptions.length + 1 }] }

def stateForUpdate (db : Db) (machineId : String) : Option MeterState := db.meterStates machineId

/-- An `UPDATE machine_meter_state … WHERE machine_id = $1`. -/
def updateState (db : Db) (machineId : String) (f : MeterState → MeterState) : Db :=
  { db with meterStates := Function.update db.meterStates machineId ((db.meterStates machineId).map f) }

/-- The row that `setQuarantined` writes: the first quarantine is kept. -/
def MeterState.quarantine (s : MeterState) (now : ℤ) (reason : QuarantineReason) : MeterState :=
  { s with
    quarantinedAt := some (s.quarantinedAt.getD now)
    quarantineReason := some (s.quarantineReason.getD reason) }

def setQuarantined (db : Db) (now : ℤ) (machineId : String) (reason : QuarantineReason) : Db :=
  updateState db machineId (·.quarantine now reason)

/-- The row that `quarantineHost` writes. -/
def HostRow.quarantine (h : HostRow) (now : ℤ) (reason : String) : HostRow :=
  { h with
    desiredState := .quarantined
    state := .stale
    credentialGeneration := h.credentialGeneration + 1
    credentialStatus := .revoked
    lifecycleReason := some reason
    meteringQuarantinedAt := some (h.meteringQuarantinedAt.getD now) }

def quarantineHost (db : Db) (now : ℤ) (hostId : String) (reason : String) : Db :=
  { db with
    hosts := Function.update db.hosts hostId <| (db.hosts hostId).map fun h =>
      if h.desiredState = .quarantined ∨ h.desiredState = .revoked then h else h.quarantine now reason
    auditEvents :=
      if db.auditEvents.any (·.hostId == hostId) then db.auditEvents
      else db.auditEvents ++ [{ hostId := hostId, reason := reason }] }

/-- An `UPDATE machines … WHERE id = $1 AND lease_id = $2 AND lease_generation = $3`. -/
def updateMachine (db : Db) (id leaseId : String) (leaseGeneration : ℕ)
    (f : MachineRow → MachineRow) : Db :=
  { db with
    machines := Function.update db.machines id <| (db.machines id).map fun m =>
      if m.leaseId = leaseId ∧ m.leaseGeneration = leaseGeneration then f m else m }

/-! ### Usage projection -/

/-- The billed dimension and divisor of a raw unit. -/
def UsageUnit.projection : UsageUnit → UsageDimension × ℕ
  | .vcpuNanosecond => (.vcpuSeconds, 1000000000)
  | .byteNanosecond => (.gibSeconds, 1073741824 * 1000000000)
  | .byte => (.egressBytes, 1)

/-- `numeric` division rounded to nine decimals, half away from zero. -/
def roundNano (quantity divisor : ℕ) : ℕ := (2 * quantity * 1000000000 + divisor) / (2 * divisor)

def usageEventOf (e : RawUsageEvent) : UsageEvent :=
  { eventKey := e.eventKey
    organizationId := e.organizationId
    projectId := e.projectId
    machineId := e.machineId
    dimension := e.unit.projection.1
    quantityNano := roundNano e.quantity e.unit.projection.2
    periodStart := e.periodStart
    periodEnd := e.periodEnd }

/-- `appendProjection`.  A zero quantity is not stored; an existing event key is left alone; a second
row for one observation, dimension and period start breaks the unique constraint. -/
def appendProjection (db : Db) (e : RawUsageEvent) : Except MeteringError Db :=
  if e.quantity = 0 then .ok db
  else if db.rawEvents.any (·.eventKey == e.eventKey) then
    .ok { db with usageEvents :=
      if db.usageEvents.any (·.eventKey == e.eventKey) then db.usageEvents
      else db.usageEvents ++ [usageEventOf e] }
  else if db.rawEvents.any (fun r => r.observationId == e.observationId
      && r.dimension == e.dimension && r.periodStart == e.periodStart) then
    .error (.database "duplicate key value violates unique constraint")
  else
    .ok { db with
      rawEvents := db.rawEvents ++ [e]
      usageEvents :=
        if db.usageEvents.any (·.eventKey == e.eventKey) then db.usageEvents
        else db.usageEvents ++ [usageEventOf e] }

def appendProjections (db : Db) : List RawUsageEvent → Except MeteringError Db
  | [] => .ok db
  | e :: es => do
    let db ← appendProjection db e
    appendProjections db es

/-- `closeLegacyPrefix`: the boundary between legacy and authoritative metering. -/
def cutoverBoundary (identity : MachineIdentity) (hostStart : ℤ) : ℤ :=
  match identity.usageCheckpointAt.orElse fun _ => identity.startedAt with
  | some legacyStart => if hostStart < legacyStart then legacyStart else hostStart
  | none => hostStart

def cutoverEvent (identity : MachineIdentity) (legacyStart boundary : ℤ) : CutoverEvent :=
  { machineId := identity.id
    leaseGeneration := identity.leaseGeneration
    boundary := boundary
    organizationId := identity.organizationId
    projectId := identity.projectId
    vcpus := identity.vcpus
    memoryMb := identity.memoryBytes / 1048576
    periodStart := legacyStart
    periodEnd := boundary }

def appendCutover (db : Db) (e : CutoverEvent) : Db :=
  if db.cutovers.any (fun c => c.machineId == e.machineId
      && c.leaseGeneration == e.leaseGeneration && c.boundary == e.boundary) then db
  else { db with cutovers := db.cutovers ++ [e] }

def closeLegacyPrefix (db : Db) (identity : MachineIdentity) (hostStart : ℤ) : Db × ℤ :=
  let boundary := cutoverBoundary identity hostStart
  let db :=
    match identity.usageCheckpointAt.orElse fun _ => identity.startedAt with
    | some legacyStart =>
      if legacyStart < boundary then appendCutover db (cutoverEvent identity legacyStart boundary)
      else db
    | none => db
  (updateMachine db identity.id identity.leaseId identity.leaseGeneration fun m =>
    { m with usageCheckpointAt := some (max (m.usageCheckpointAt.getD boundary) boundary) }, boundary)

end Nehemiah.Billing
