import Nehemiah.Billing.Store

/-!
# Authoritative metering

`observationIntegrityReason`, `processObservation`, `AuthoritativeMetering.ingest` and
`closeHostLoss` of `billing/metering.ts`.

A transaction is a function from the tables to the tables and a result, or an error; an error rolls
everything back.  The times a transaction reads are arguments: `now()` is fixed for the transaction,
`statement_timestamp()` is not, and `ingest` reads it when it admits the batch, when it selects the
machine of an observation (`admission_received_at`) and when it stores the observation (the default of
`received_at`).  The last two travel with the observation as an `Arrival`.

`processObservation` is cut where the source itself changes from judging to writing: `anomalyOf` is the
chain of tests, `projections` the raw events of an accepted observation, `MeterState.started` and
`MeterState.advanced` the two rows it writes.
-/

namespace Nehemiah.Billing

def maximumClockLeadMs : ℤ := 300000

def maximumWallDivergenceMs : ℕ := 300000

def maximumForwardSequenceWindow : ℕ := 64

def maximumPendingObservationsPerHost : ℕ := 2048

def minimumMeteringBatchIntervalMs : ℕ := 1000

def minimumCheckpointRuntimeDeltaNs : ℕ := 4 * nanosecondsPerSecond

def managedEgressBytesPerSecond : ℕ := 8000000

def managedEgressBurstBytes : ℕ := 1048576

def maximumExactFinalLeadMs : ℤ := 30000

/-! ### Judging an observation -/

/-- The counters of an observation that the integrity check reads. -/
structure Counters where
  kind : HostUsageObservationKind
  quality : HostUsageObservationQuality
  runtimeNs : ℕ
  egressBytes : ℕ
  egressCounterEpoch : ℕ

def HostUsageObservation.counters (o : HostUsageObservation) : Counters :=
  ⟨o.kind, o.quality, o.runtimeNs, o.egressBytes, o.egressCounterEpoch⟩

def StoredObservation.counters (o : StoredObservation) : Counters :=
  ⟨o.kind, o.quality, o.runtimeNs, o.egressBytes, o.egressCounterEpoch⟩

/-- The most bytes that `runtimeNs` nanoseconds of the managed egress rate allow, burst included. -/
def maximumEgress (runtimeNs : ℕ) : ℕ :=
  managedEgressBurstBytes
    + (runtimeNs * managedEgressBytesPerSecond + nanosecondsPerSecond - 1) / nanosecondsPerSecond

def defensibleElapsedNs (identity : MachineIdentity) (receivedAt : ℤ) : ℕ :=
  ((receivedAt - identity.startedAt.getD identity.createdAt).toNat + maximumWallDivergenceMs) * 1000000

def MachineState.isTerminal : MachineState → Bool
  | .stopping | .stopped | .failed | .lost => true
  | _ => false

/-- The last test of `observationIntegrityReason`: a final may only close a meter whose machine is on
its way out, or, when it is exact, one that is about to expire. -/
def prematureFinal (identity : MachineIdentity) (c : Counters) (receivedAt : ℤ) : Bool :=
  c.kind == .final && !identity.state.isTerminal &&
    match c.quality with
    | .exact => receivedAt < identity.expiresAt - maximumExactFinalLeadMs
    | .lastDefensible => true

def observationIntegrityReason (identity : MachineIdentity) (state : MeterState) (c : Counters)
    (receivedAt : ℤ) : Option QuarantineReason :=
  let elapsed := defensibleElapsedNs identity receivedAt
  if elapsed < c.runtimeNs then some .observationRateExceeded
  else if maximumEgress elapsed < c.egressBytes then some .egressPlausibilityExceeded
  else if !state.startSeen then none
  else if c.runtimeNs < state.lastRuntimeNs ∨ c.egressBytes < state.lastEgressBytes then none
  else
    let runtimeDelta := c.runtimeNs - state.lastRuntimeNs
    let egressDelta := c.egressBytes - state.lastEgressBytes
    if c.kind = .checkpoint ∧ runtimeDelta < minimumCheckpointRuntimeDeltaNs then
      some .observationRateExceeded
    else if c.egressCounterEpoch = state.egressCounterEpoch
        ∧ (if runtimeDelta = 0 then 0 else maximumEgress runtimeDelta) < egressDelta then
      some .egressPlausibilityExceeded
    else if prematureFinal identity c receivedAt then some .prematureFinal
    else none

/-- The counters or the clock of the host went backwards, or its egress counter was replaced. -/
def counterReset (state : MeterState) (o : StoredObservation) : Bool :=
  o.runtimeNs < state.lastRuntimeNs || o.egressBytes < state.lastEgressBytes
    || o.egressCounterEpoch != state.egressCounterEpoch
    || (state.startSeen &&
      match state.startMonotonicNs, state.lastObservedMonotonicNs with
      | some start, some last =>
        o.observedMonotonicNs < last || (o.observedMonotonicNs : ℤ) - start != o.runtimeNs
      | _, _ => true)

/-- The wall clock of the host disagrees with the control plane's or with its own monotonic clock. -/
def clockSkew (identity : MachineIdentity) (state : MeterState) (o : StoredObservation) : Bool :=
  if o.receivedAt + maximumClockLeadMs < o.observedAt
      ∨ o.kind = .start ∧ o.observedAt < identity.createdAt - maximumClockLeadMs then true
  else
    match state.lastObservedAt with
    | some last =>
      let runtimeDeltaMs := ((o.runtimeNs : ℤ) - state.lastRuntimeNs).tdiv nanosecondsPerMillisecond
      maximumWallDivergenceMs < (o.observedAt - last - runtimeDeltaMs).natAbs
    | none => false

/-- What `processObservation` finds wrong with an observation, `none` for a clean one. -/
def anomalyOf (identity : MachineIdentity) (state : MeterState) (o : StoredObservation) :
    Option QuarantineReason :=
  let anomaly :=
    if state.quarantinedAt.isSome then state.quarantineReason
    else if state.hostBootId ≠ o.hostBootId then some .bootIdChanged
    else if state.lossClosedAt.isSome then some .observationAfterFinal
    else if !state.startSeen && (o.sequence != 1 || o.kind != .start || o.runtimeNs != 0) then
      some .startMissing
    else if state.startSeen && o.kind == .start then some .startRepeated
    else if state.finalSeen then some .observationAfterFinal
    else if counterReset state o then some .counterReset
    else observationIntegrityReason identity state o.counters o.receivedAt
  anomaly.orElse fun _ => if clockSkew identity state o then some .clockSkew else none

/-! ### Writing an observation -/

inductive Verdict
  | accepted | quarantined
deriving DecidableEq

/-- Runtime that legacy metering has already covered at the cut-over. -/
def legacyCoveredRuntime (identity : MachineIdentity) (o : StoredObservation) : ℕ :=
  (cutoverBoundary identity o.observedAt - o.observedAt).toNat * 1000000

/-- The row after a start. -/
def MeterState.started (s : MeterState) (identity : MachineIdentity) (o : StoredObservation) :
    MeterState :=
  { s with
    lastSequence := o.sequence
    startSeen := true
    lastRuntimeNs := o.runtimeNs
    projectedRuntimeNs := legacyCoveredRuntime identity o
    lastEgressBytes := o.egressBytes
    egressCounterEpoch := o.egressCounterEpoch
    startMonotonicNs := some o.observedMonotonicNs
    lastObservedMonotonicNs := some o.observedMonotonicNs
    lastObservedAt := some o.observedAt
    lastPeriodEnd := some (cutoverBoundary identity o.observedAt)
    lastReceivedAt := some o.receivedAt
    finalSeen := false }

/-- Runtime of the observation that no earlier one has projected. -/
def runtimeDelta (s : MeterState) (o : StoredObservation) : ℕ := o.runtimeNs - s.projectedRuntimeNs

def advancedPeriodEnd (s : MeterState) (o : StoredObservation) (periodStart : ℤ) : ℤ :=
  timestampFromNanoseconds (periodStart * nanosecondsPerMillisecond + runtimeDelta s o)

/-- The row after a checkpoint or a final. -/
def MeterState.advanced (s : MeterState) (o : StoredObservation) (periodStart : ℤ) : MeterState :=
  { s with
    lastSequence := o.sequence
    lastRuntimeNs := o.runtimeNs
    projectedRuntimeNs := max o.runtimeNs s.projectedRuntimeNs
    lastEgressBytes := o.egressBytes
    lastObservedMonotonicNs := some o.observedMonotonicNs
    lastObservedAt := some o.observedAt
    lastPeriodEnd := some (advancedPeriodEnd s o periodStart)
    lastReceivedAt := some o.receivedAt
    finalSeen := o.kind == .final }

/-- The row after an anomaly: only the cursor moves. -/
def MeterState.skipped (s : MeterState) (o : StoredObservation) : MeterState :=
  { s with lastSequence := o.sequence, lastReceivedAt := some o.receivedAt }

/-- The raw events of one segment. -/
def segmentEvents (identity : MachineIdentity) (o : StoredObservation) (seg : UsageSegment) :
    List RawUsageEvent :=
  let event (key : RawEventKey) (dimension : Dimension) (unit : UsageUnit) (quantity : ℕ) :=
    { eventKey := key
      observationId := o.id
      organizationId := identity.organizationId
      projectId := identity.projectId
      machineId := identity.id
      leaseId := identity.leaseId
      leaseGeneration := identity.leaseGeneration
      dimension := dimension
      unit := unit
      quantity := quantity
      periodStart := seg.start
      periodEnd := seg.stop : RawUsageEvent }
  [event (.compute o.id seg.index) .compute .vcpuNanosecond (seg.runtimeNs * identity.vcpus),
    event (.memory o.id seg.index) .memory .byteNanosecond (seg.runtimeNs * identity.memoryBytes)]

/-- The egress event of an observation, over the whole period it adds. -/
def egressEvents (identity : MachineIdentity) (s : MeterState) (o : StoredObservation)
    (periodStart : ℤ) (segments : List UsageSegment) : List RawUsageEvent :=
  let egressDelta := o.egressBytes - s.lastEgressBytes
  if 0 < egressDelta then
    [{ eventKey := .egress o.id
       observationId := o.id
       organizationId := identity.organizationId
       projectId := identity.projectId
       machineId := identity.id
       leaseId := identity.leaseId
       leaseGeneration := identity.leaseGeneration
       dimension := .egress
       unit := .byte
       quantity := egressDelta
       periodStart := periodStart
       periodEnd := (segments.getLast?.map (·.stop)).getD periodStart }]
  else []

/-- The raw events an accepted checkpoint or final projects, in the order they are inserted. -/
def projections (identity : MachineIdentity) (s : MeterState) (o : StoredObservation)
    (periodStart : ℤ) : List RawUsageEvent :=
  let segments := splitRuntimeAtUtcMidnight periodStart (runtimeDelta s o)
  segments.flatMap (segmentEvents identity o) ++ egressEvents identity s o periodStart segments

/-- The exception row of an observation. -/
def observationException (identity : MachineIdentity) (o : StoredObservation) (key : ExceptionKey)
    (reason : ExceptionReason) : MeteringException :=
  { id := 0
    exceptionKey := key
    hostId := identity.hostId
    machineId := identity.id
    leaseId := identity.leaseId
    leaseGeneration := identity.leaseGeneration
    hostBootId := some o.hostBootId
    sequence := some o.sequence
    reason := reason }

/-- `UPDATE machine_meter_state … WHERE machine_id = $1 AND last_sequence = $prior`. -/
def updateStateAt (db : Db) (machineId : String) (prior : ℕ) (f : MeterState → MeterState) : Db :=
  updateState db machineId fun s => if s.lastSequence = prior then f s else s

def rejectObservation (db : Db) (now : ℤ) (identity : MachineIdentity) (state : MeterState)
    (o : StoredObservation) (anomaly : QuarantineReason) : Db :=
  let key := .observation identity.id identity.leaseGeneration o.hostBootId o.sequence
    (.quarantine anomaly)
  let db := exception db (observationException identity o key (.quarantine anomaly))
  let db := setQuarantined db now identity.id anomaly
  updateStateAt db identity.id state.lastSequence (·.skipped o)

def processStart (db : Db) (identity : MachineIdentity) (state : MeterState)
    (o : StoredObservation) : Except MeteringError Db :=
  let db := (closeLegacyPrefix db identity o.observedAt).1
  if maxUnsignedBigint < legacyCoveredRuntime identity o then
    .error (.database "projected_runtime_ns violates check constraint")
  else
    .ok { updateStateAt db identity.id state.lastSequence (·.started identity o) with
      startRecords := Function.update db.startRecords identity.id
        (some ⟨legacyCoveredRuntime identity o, o.egressBytes⟩) }

/-- The part of `processObservation` after a final has been projected. -/
def closeFinal (db : Db) (now : ℤ) (identity : MachineIdentity) (o : StoredObservation)
    (periodEnd : ℤ) : Db × Verdict :=
  let db := updateMachine db identity.id identity.leaseId identity.leaseGeneration fun m =>
    { m with
      usageCheckpointAt := some periodEnd
      usageFinalizedAt := some (m.usageFinalizedAt.getD now) }
  match o.quality with
  | .exact => (db, .accepted)
  | .lastDefensible =>
    let key := .degradedTerminal identity.id identity.leaseGeneration o.hostBootId o.sequence
      o.qualityReason
    let db := exception db (observationException identity o key (.quarantine .degradedTerminal))
    (setQuarantined db now identity.id .degradedTerminal, .quarantined)

def processUsage (db : Db) (now : ℤ) (identity : MachineIdentity) (state : MeterState)
    (o : StoredObservation) (periodStart : ℤ) : Except MeteringError (Db × Verdict) := do
  let db ← appendProjections db (projections identity state o periodStart)
  let db := updateStateAt db identity.id state.lastSequence (·.advanced o periodStart)
  if o.kind = .final then
    return closeFinal db now identity o (advancedPeriodEnd state o periodStart)
  else
    return (db, .accepted)

def processObservation (db : Db) (now : ℤ) (identity : MachineIdentity) (state : MeterState)
    (o : StoredObservation) : Except MeteringError (Db × Verdict) :=
  match anomalyOf identity state o with
  | some anomaly => .ok (rejectObservation db now identity state o anomaly, .quarantined)
  | none =>
    if o.kind = .start then do
      let db ← processStart db identity state o
      return (db, .accepted)
    else
      match state.lastPeriodEnd.orElse fun _ => state.lastObservedAt with
      | some periodStart => processUsage db now identity state o periodStart
      | none => .error (.internal "accepted meter state is missing its period boundary")

/-! ### Ingestion -/

inductive HostUsageObservationOutcome
  | accepted | duplicate | pendingGap | quarantined | rejectedPayloadConflict
deriving DecidableEq

structure HostUsageObservationReceipt where
  leaseId : String
  leaseGeneration : ℕ
  hostBootId : String
  sequence : ℕ
  outcome : HostUsageObservationOutcome
  acknowledged : Bool

def receiptFor (o : HostUsageObservation) (outcome : HostUsageObservationOutcome) :
    HostUsageObservationReceipt :=
  { leaseId := o.leaseId
    leaseGeneration := o.leaseGeneration
    hostBootId := o.hostBootId
    sequence := o.sequence
    outcome := outcome
    acknowledged := true }

/-- A batch entry with the statement times at which its machine is selected and its row inserted. -/
structure Arrival where
  observation : HostUsageObservation
  admissionReceivedAt : ℤ
  receivedAt : ℤ

/-- One call of `ingest`: its arguments, `now()`, and the statement times of the host's row. -/
structure IngestCall where
  hostId : String
  batch : List Arrival
  credentialGeneration : Option ℕ
  now : ℤ
  admittedAt : ℤ
  stampedAt : ℤ

theorem minimumMeteringBatchIntervalMs_le : minimumMeteringBatchIntervalMs ≤ 60000 := by decide

structure AuthoritativeMetering where
  minimumBatchIntervalMs : ℕ := minimumMeteringBatchIntervalMs
  interval_le : minimumBatchIntervalMs ≤ 60000 := by exact minimumMeteringBatchIntervalMs_le

/-- The columns `ingest` selects of a machine row. -/
def MachineRow.identity (m : MachineRow) (id hostId hostMachineId : String)
    (admissionReceivedAt : ℤ) : MachineIdentity :=
  { id := id
    organizationId := m.organizationId
    projectId := m.projectId
    hostId := hostId
    hostMachineId := hostMachineId
    leaseId := m.leaseId
    leaseGeneration := m.leaseGeneration
    vcpus := m.vcpus
    memoryBytes := m.memoryMb * 1048576
    createdAt := m.createdAt
    startedAt := m.startedAt
    usageCheckpointAt := m.usageCheckpointAt
    state := m.state
    expiresAt := m.expiresAt
    admissionReceivedAt := admissionReceivedAt }

/-- The machine row that matches the observation. -/
def machineIdentity (db : Db) (hostId : String) (a : Arrival) : Option MachineIdentity :=
  let o := a.observation
  match db.machines o.machineId with
  | some m =>
    if m.hostId = some hostId ∧ m.hostMachineId = some o.hostMachineId
        ∧ m.leaseId = uuidText o.leaseId ∧ m.leaseGeneration = o.leaseGeneration then
      some (m.identity o.machineId hostId o.hostMachineId a.admissionReceivedAt)
    else none
  | none => none

/-- The row inserted on the first observation of a machine. -/
def initialState (identity : MachineIdentity) (o : HostUsageObservation) : MeterState :=
  { hostId := identity.hostId
    hostMachineId := identity.hostMachineId
    leaseId := identity.leaseId
    leaseGeneration := identity.leaseGeneration
    hostBootId := uuidText o.hostBootId
    lastSequence := 0
    lastRuntimeNs := 0
    projectedRuntimeNs := 0
    startMonotonicNs := none
    lastObservedMonotonicNs := none
    lastEgressBytes := 0
    egressCounterEpoch := o.egressCounterEpoch
    startSeen := false
    finalSeen := false
    lastObservedAt := none
    lastPeriodEnd := none
    lastReceivedAt := none
    lossClosedAt := none
    quarantinedAt := none
    quarantineReason := none }

def insertState (db : Db) (identity : MachineIdentity) (o : HostUsageObservation) : Db :=
  { db with
    meterStates := Function.update db.meterStates identity.id (some (initialState identity o)) }

/-- The state row of the observation's machine, inserted first when there is none. -/
def ensureState (db : Db) (identity : MachineIdentity) (o : HostUsageObservation) : Db × MeterState :=
  match stateForUpdate db o.machineId with
  | some state => (db, state)
  | none => (insertState db identity o, initialState identity o)

/-- Whether a stored observation waits for an earlier one of its lease. -/
def isPending (db : Db) (o : StoredObservation) : Bool :=
  match db.meterStates o.machineId with
  | some meter => meter.leaseGeneration == o.leaseGeneration && meter.lastSequence < o.sequence
  | none => false

def pendingCount (db : Db) (hostId : String) : ℕ :=
  db.observations.countP fun o => o.hostId == hostId && isPending db o

def sequenceViolation (db : Db) (hostId : String) (state : MeterState) (o : HostUsageObservation) :
    Bool :=
  state.hostBootId != o.hostBootId
    || state.lastSequence + maximumForwardSequenceWindow < o.sequence
    || (state.lastSequence + 1 < o.sequence
      && maximumPendingObservationsPerHost ≤ pendingCount db hostId)

/-- The integrity check made before the row is inserted, for the next observation in sequence. -/
def integrityViolation (identity : MachineIdentity) (state : MeterState) (o : HostUsageObservation) :
    Option QuarantineReason :=
  if o.sequence = state.lastSequence + 1 then
    observationIntegrityReason identity state o.counters identity.admissionReceivedAt
  else none

/-- An exception row that names the batch entry. -/
def inputException (identity : MachineIdentity) (o : HostUsageObservation) (key : ExceptionKey)
    (reason : ExceptionReason) : MeteringException :=
  { id := 0
    exceptionKey := key
    hostId := identity.hostId
    machineId := identity.id
    leaseId := identity.leaseId
    leaseGeneration := identity.leaseGeneration
    hostBootId := some (uuidText o.hostBootId)
    sequence := some o.sequence
    reason := reason }

/-- Record the exception, quarantine the meter, quarantine the host. -/
def quarantineInput (db : Db) (now : ℤ) (hostId : String) (identity : MachineIdentity)
    (o : HostUsageObservation) (key : ExceptionKey) (reason : QuarantineReason) (hostReason : String) :
    Db :=
  let db := exception db (inputException identity o key (.quarantine reason))
  let db := setQuarantined db now o.machineId reason
  quarantineHost db now hostId hostReason

def storedObservation (id : ℕ) (hostId : String) (a : Arrival) : StoredObservation :=
  let o := a.observation
  { id := id
    hostId := hostId
    machineId := o.machineId
    hostMachineId := o.hostMachineId
    leaseId := uuidText o.leaseId
    leaseGeneration := o.leaseGeneration
    payload := o
    hostBootId := uuidText o.hostBootId
    sequence := o.sequence
    kind := o.kind
    quality := o.quality
    qualityReason := o.qualityReason
    runtimeNs := o.runtimeNs
    egressBytes := o.egressBytes
    egressCounterEpoch := o.egressCounterEpoch
    observedMonotonicNs := o.observedMonotonicNs
    observedAt := (parseObservedAt o.observedAt).getD 0
    receivedAt := a.receivedAt
    vcpus := o.vcpus
    memoryBytes := o.memoryBytes
    processId := o.processId }

/-- The conflict target of the insert. -/
def sameObservationKey (hostId : String) (o : HostUsageObservation) (s : StoredObservation) : Bool :=
  s.hostId == hostId && s.hostBootId == uuidText o.hostBootId && s.leaseId == uuidText o.leaseId
    && s.leaseGeneration == o.leaseGeneration && s.sequence == o.sequence

/-- `INSERT INTO host_usage_observations … ON CONFLICT DO NOTHING`: the stored row and whether it was
there already.  A process id outside `integer` is refused by the database. -/
def insertObservation (db : Db) (hostId : String) (a : Arrival) :
    Except MeteringError (Db × StoredObservation × Bool) :=
  if 2147483647 < a.observation.processId then .error (.database "integer out of range")
  else
    match db.observations.find? (sameObservationKey hostId a.observation) with
    | some stored => .ok ({ db with nextObservationId := db.nextObservationId + 1 }, stored, true)
    | none =>
      let stored := storedObservation db.nextObservationId hostId a
      .ok ({ db with
        observations := db.observations ++ [stored]
        nextObservationId := db.nextObservationId + 1 }, stored, false)

/-- The stored observation that comes next for the machine. -/
def nextPending (db : Db) (identity : MachineIdentity) (state : MeterState) :
    Option StoredObservation :=
  db.observations.find? fun s => s.machineId == identity.id
    && s.leaseGeneration == identity.leaseGeneration && s.hostBootId == state.hostBootId
    && s.sequence == state.lastSequence + 1

/-- An observation that `processObservation` was called on, and what it answered. -/
abbrev Judged := StoredObservation × Verdict

/-- The `for (;;)` loop that processes stored observations while the next one is there.  Every turn
moves the cursor past a stored observation, so their number bounds the turns. -/
def drain (now : ℤ) (identity : MachineIdentity) : ℕ → Db → Except MeteringError (Db × List Judged)
  | 0, db => .ok (db, [])
  | fuel + 1, db =>
    match stateForUpdate db identity.id with
    | none => .error (.internal "meter state is missing")
    | some state =>
      match nextPending db identity state with
      | none => .ok (db, [])
      | some pending => do
        let (db, verdict) ← processObservation db now identity state pending
        let (db, judged) ← drain now identity fuel db
        return (db, (pending, verdict) :: judged)

/-- `processedInput` and `inputQuarantined` after the loop. -/
def inputVerdict (stored : StoredObservation) (judged : List Judged) : Bool × Bool :=
  judged.foldl (fun acc j => if j.1.id = stored.id then (true, j.2 = .quarantined) else acc)
    (false, false)

/-- `INSERT INTO metering_exception_resolutions`: every open gap up to the cursor is resolved. -/
def resolveGaps (db : Db) (identity : MachineIdentity) (lastSequence : ℕ) : Db :=
  let closed := db.exceptions.filter fun e => e.machineId == identity.id
    && e.leaseGeneration == identity.leaseGeneration && e.reason == .sequenceGap
    && e.sequence.any (· ≤ lastSequence)
    && !db.resolutions.any (·.exceptionId == e.id)
  { db with resolutions :=
      db.resolutions ++ closed.map fun e => ⟨e.id, "missing observation arrived"⟩ }

/-- What one turn of the batch loop leaves behind. -/
structure Entry where
  db : Db
  hostQuarantined : Bool
  receipt : HostUsageObservationReceipt
  judged : List Judged

/-- The tail of a turn: host quarantine, gap bookkeeping and the receipt. -/
def finishEntry (db : Db) (now : ℤ) (hostId : String) (identity : MachineIdentity)
    (o : HostUsageObservation) (stored : StoredObservation) (duplicate : Bool) (judged : List Judged) :
    Except MeteringError Entry :=
  let (processedInput, inputQuarantined) := inputVerdict stored judged
  let db :=
    if inputQuarantined then quarantineHost db now hostId "metering observation integrity violated"
    else db
  match stateForUpdate db o.machineId with
  | none => .error (.internal "meter state is missing")
  | some state =>
    let gapKey := .observation o.machineId o.leaseGeneration o.hostBootId o.sequence .sequenceGap
    let db :=
      if state.lastSequence < o.sequence then
        exception db (inputException identity o gapKey .sequenceGap)
      else db
    let outcome : HostUsageObservationOutcome :=
      if inputQuarantined then .quarantined
      else if processedInput then (if duplicate then .duplicate else .accepted)
      else if o.sequence ≤ state.lastSequence then .duplicate
      else .pendingGap
    .ok
      { db := resolveGaps db identity state.lastSequence
        hostQuarantined := inputQuarantined
        receipt := receiptFor o outcome
        judged := judged }

/-- The part of a turn after the observation has passed the admission checks. -/
def storeAndDrain (db : Db) (now : ℤ) (hostId : String) (identity : MachineIdentity) (a : Arrival) :
    Except MeteringError Entry := do
  let o := a.observation
  let (db, stored, duplicate) ← insertObservation db hostId a
  if duplicate && stored.payload != o then
    let key := .observation o.machineId o.leaseGeneration o.hostBootId o.sequence
      (.quarantine .payloadConflict)
    return { db := quarantineInput db now hostId identity o key .payloadConflict
                     "metering payload conflict"
             hostQuarantined := true
             receipt := receiptFor o .rejectedPayloadConflict
             judged := [] }
  else
    let (db, judged) ← drain now identity (db.observations.length + 1) db
    finishEntry db now hostId identity o stored duplicate judged

def integrityHostReason : QuarantineReason → String
  | .observationRateExceeded => "metering observation_rate_exceeded"
  | .egressPlausibilityExceeded => "metering egress_plausibility_exceeded"
  | _ => "metering premature_final"

/-- One turn of the batch loop, for a host that is not quarantined yet. -/
def ingestOne (db : Db) (now : ℤ) (hostId : String) (a : Arrival) : Except MeteringError Entry :=
  let o := a.observation
  let mismatch := MeteringError.input
    "observation does not match the authoritative machine lease and resources"
  match machineIdentity db hostId a with
  | none => .error mismatch
  | some identity =>
    if identity.vcpus ≠ o.vcpus ∨ identity.memoryBytes ≠ o.memoryBytes then .error mismatch
    else
      let (db, state) := ensureState db identity o
      if sequenceViolation db hostId state o then
        let key := .admission identity.id identity.leaseGeneration .sequenceWindowExceeded
        .ok { db := quarantineInput db now hostId identity o key .sequenceWindowExceeded
                      "metering sequence admission violated"
              hostQuarantined := true
              receipt := receiptFor o .quarantined
              judged := [] }
      else
        match integrityViolation identity state o with
        | some reason =>
          let key := .admission identity.id identity.leaseGeneration reason
          .ok { db := quarantineInput db now hostId identity o key reason (integrityHostReason reason)
                hostQuarantined := true
                receipt := receiptFor o .quarantined
                judged := [] }
        | none => storeAndDrain db now hostId identity a

/-- What a call of `ingest` returns, with the observations it judged on the way. -/
structure IngestResult where
  db : Db
  hostQuarantined : Bool
  receipts : List HostUsageObservationReceipt
  judged : List Judged

/-- The `for (const input of observations)` loop. -/
def ingestLoop (now : ℤ) (hostId : String) : Db → Bool → List Arrival →
    Except MeteringError IngestResult
  | db, hostQuarantined, [] => .ok ⟨db, hostQuarantined, [], []⟩
  | db, true, a :: rest => do
    let r ← ingestLoop now hostId db true rest
    return { r with receipts := receiptFor a.observation .quarantined :: r.receipts }
  | db, false, a :: rest => do
    let entry ← ingestOne db now hostId a
    let r ← ingestLoop now hostId entry.db entry.hostQuarantined rest
    return { r with receipts := entry.receipt :: r.receipts, judged := entry.judged ++ r.judged }

/-- The lifecycle and cadence checks on the host's row. -/
def admitHost (metering : AuthoritativeMetering) (db : Db) (call : IngestCall) :
    Except MeteringError HostRow :=
  let closed := MeteringError.hostLifecycle "host lifecycle does not allow metering observations"
  match db.hosts call.hostId with
  | none => .error closed
  | some host =>
    if (host.desiredState ≠ .active ∧ host.desiredState ≠ .draining)
        ∨ host.credentialStatus ≠ .active
        ∨ call.credentialGeneration.any (· != host.credentialGeneration) then .error closed
    else if host.lastMeteringBatchAt.any
        (fun last => decide (call.admittedAt - metering.minimumBatchIntervalMs < last)) then
      .error (.rateLimit "host metering batch cadence exceeded")
    else .ok host

def stampBatch (db : Db) (call : IngestCall) : Db :=
  { db with
    hosts := Function.update db.hosts call.hostId <| (db.hosts call.hostId).map fun h =>
      { h with lastMeteringBatchAt := some call.stampedAt } }

def validateBatch (batch : List Arrival) : Except MeteringError Unit :=
  if batch.length < 1 ∨ 256 < batch.length then
    .error (.input "observation batch must contain between 1 and 256 entries")
  else batch.forM fun a => validateObservation a.observation

/-- `AuthoritativeMetering.ingest`. -/
def ingest (metering : AuthoritativeMetering) (db : Db) (call : IngestCall) :
    Except MeteringError IngestResult := do
  validateBatch call.batch
  let _ ← admitHost metering db call
  ingestLoop call.now call.hostId (stampBatch db call) false call.batch

/-- `database.transaction`: the tables after a call, unchanged when it throws. -/
def commit (db : Db) (r : Except MeteringError IngestResult) : Db :=
  match r with
  | .ok result => result.db
  | .error _ => db

/-! ### Host loss -/

def lossReason (state : MeterState) : ExceptionReason :=
  if state.lastPeriodEnd.isSome then .hostLostWithoutFinal else .hostLostWithoutObservation

def lossException (machineId leaseId : String) (machine : MachineRow) (state : MeterState) :
    MeteringException :=
  { id := 0
    exceptionKey := .hostLoss machineId machine.leaseGeneration (lossReason state)
    hostId := machine.hostId.getD ""
    machineId := machineId
    leaseId := leaseId
    leaseGeneration := machine.leaseGeneration
    hostBootId := none
    sequence := none
    reason := lossReason state }

/-- The meter state after a host loss. -/
def MeterState.lossClosed (s : MeterState) (now : ℤ) : MeterState :=
  { s with lossClosedAt := some (s.lossClosedAt.getD now) }

/-- The machine row after a host loss: usage ends where the meter stopped. -/
def MachineRow.lossClosed (m : MachineRow) (now : ℤ) (lastPeriodEnd : Option ℤ) : MachineRow :=
  { m with
    usageCheckpointAt := lastPeriodEnd.orElse fun _ => m.usageCheckpointAt
    usageFinalizedAt := some (m.usageFinalizedAt.getD now) }

/-- The part of `closeHostLoss` that runs when a start was seen and no final. -/
def closeMeter (db : Db) (now : ℤ) (machineId leaseId : String) (machine : MachineRow)
    (state : MeterState) : Db :=
  if state.finalSeen then db
  else
    updateState (exception db (lossException machineId leaseId machine state)) machineId fun s =>
      if s.leaseId = leaseId then s.lossClosed now else s

/-- `closeHostLoss`, with `now()`. -/
def closeHostLoss (db : Db) (now : ℤ) (machineId leaseId : String) : Db × Option ℤ :=
  match db.machines machineId, db.meterStates machineId with
  | some machine, some state =>
    if machine.leaseId ≠ leaseId then (db, none)
    else if !state.startSeen then
      (exception db (lossException machineId leaseId machine state), none)
    else
      (updateMachine (closeMeter db now machineId leaseId machine state) machineId leaseId
        machine.leaseGeneration (·.lossClosed now state.lastPeriodEnd), state.lastPeriodEnd)
  | _, _ => (db, none)

end Nehemiah.Billing
