import Nehemiah.Host.Fork

/-!
# Restart

`NewManager` and `Reconcile`: the document of the last process is loaded and checked, its machines are
re-attached or finalized one by one, its fork operations are settled, and the result is committed.  While
this goes on, machines that are already re-attached may become ready or expire.
-/

namespace Nehemiah.Host

open Billing

instance : Inhabited Machine :=
  ⟨{ id := "", status := .booting, expiresAt := 0, vcpus := 0, memoryMb := 0, diskMb := 0,
     leaseId := "", leaseGeneration := 0 }⟩

instance : Inhabited ForkReservation :=
  ⟨{ sourceId := "", fingerprint := "", childIds := [], state := .pending, createdAt := 0,
     retainUntil := 0 }⟩

namespace Manager

/-- `NewManager`, over the file of the last process.  `bootId` is `none` when it cannot be read. -/
def fresh (store : StateStore) (saves : List SaveRecord) (bootId : Option String) : Manager :=
  { store := { store with lastSaved := 0 }
    hostBootId := bootId.getD ""
    objects := fun _ => default
    nextObject := 0
    machines := []
    jailerIdentities := []
    transitions := []
    nextTransition := 0
    createKeys := []
    reservations := fun _ => default
    nextReservation := 0
    forkKeys := []
    meteringOutbox := []
    stateGeneration := 0
    stateHealthy := bootId.isSome
    networkHealthy := true
    runtimeCohortHealthy := true
    identityHealthy := true
    meteringHealthy := bootId.isSome
    acknowledged := []
    saves := saves }

variable (mgr : Manager)

/-! ### The checks on a document -/

/-- `validatePersistedJailerIdentities`; `available` is the answer of the accounts database. -/
def validIdentities (cfg : Config) (doc : MachineStateSnapshot) (available : JailerIdentity → Bool) :
    Bool :=
  doc.jailerIdentities.all (fun e => validHostMachineId e.1
      && cfg.jailerUid ≤ e.2.uid && e.2.uid < cfg.jailerUid + cfg.maxMachines
      && cfg.jailerGid ≤ e.2.gid && e.2.gid < cfg.jailerGid + cfg.maxMachines
      && available e.2)
    && decide (doc.jailerIdentities.map (·.1)).Nodup
    && decide (doc.jailerIdentities.map (·.2.uid)).Nodup
    && decide (doc.jailerIdentities.map (·.2.gid)).Nodup
    && doc.machines.all fun m => (doc.jailerIdentities.lookup m.id).isSome

def hex64 (s : String) : Bool := s.toList.length == 64 && s.toList.all isHexLower

def validPersistedForkChildren (ids : List String) : Bool :=
  1 ≤ ids.length && ids.length ≤ 8 && ids.all validHostMachineId && decide ids.Nodup

/-- One operation of `retainedForkOperations`, with its retention brought up to date. -/
def retainedOperation (cfg : Config) (doc : MachineStateSnapshot) (op : PersistedForkOperation) :
    PersistedForkOperation :=
  let expiries := op.childIds.filterMap fun id => (doc.machines.find? (·.id == id)).map (·.expiresAt)
  { op with retainUntil := max op.retainUntil (forkRetentionUntil cfg op.createdAt expiries) }

/-- `retainedForkOperations`, `none` for an invalid history. -/
def retainedForkOperations (cfg : Config) (doc : MachineStateSnapshot) (now : Time) :
    Option (List PersistedForkOperation) :=
  let sound := doc.forks.all fun op => validHostMachineId op.key.sourceId
    && validOperationKey op.key.idempotencyKey && hex64 op.fingerprint
    && validPersistedForkChildren op.childIds
  let kept := (doc.forks.map (retainedOperation cfg doc)).filter fun op =>
    op.state == .pending || decide (now < op.retainUntil)
  if sound && kept.length ≤ maxDurableForkOperations then some kept else none

/-- The document is the host's own, of its runtime cohort, and its jailer identities are usable. -/
def identitiesAccepted (cfg : Config) (doc : MachineStateSnapshot) (available : JailerIdentity → Bool) :
    Bool :=
  let freshEmpty := doc.generation == 0 && doc.hostId == "" && doc.machines.isEmpty
    && doc.jailerIdentities.isEmpty
  doc.version == machineStateVersion
    && (doc.hostId == "" || cfg.hostId == "" || doc.hostId == cfg.hostId)
    && (freshEmpty || doc.runtimeCohort == cfg.runtimeCohort)
    && validIdentities cfg doc available

/-- The document passes every check of `Reconcile`. -/
def validSnapshot (cfg : Config) (doc : MachineStateSnapshot) (available : JailerIdentity → Bool)
    (now : Time) : Bool :=
  identitiesAccepted cfg doc available
    && decide (doc.machines.map (·.id)).Nodup
    && (retainedForkOperations cfg doc now).isSome
    && doc.meteringOutbox.length ≤ maxMeteringOutbox

/-- The manager takes over a valid document. -/
def adopt (doc : MachineStateSnapshot) : Manager :=
  { mgr with
    jailerIdentities := doc.jailerIdentities
    stateGeneration := doc.generation
    transitions := doc.transitions
    nextTransition := (doc.transitions.map (·.sequence)).foldl max mgr.nextTransition
    meteringOutbox := doc.meteringOutbox
    meteringHealthy := mgr.meteringHealthy && decide (doc.meteringOutbox.length < meteringAdmissionLimit)
    acknowledged := doc.acknowledged }

/-- `recoverInvalidMachineState` after the runtimes are isolated: the document is moved away and an
empty one is committed. -/
def recoverInvalid (cfg : Config) (now : Time) (fault : SaveFault) : Manager × Bool :=
  { mgr with
    store := { disk := none, lastSaved := 0 }
    stateGeneration := 0
    transitions := []
    nextTransition := 0
    createKeys := []
    forkKeys := []
    meteringOutbox := []
    acknowledged := [] }.persist cfg now fault

/-! ### One machine of the document -/

/-- What `Reconcile` finds out about the runtime of a machine: it is the machine's own process, it
responds, its network identity could be reasserted. -/
structure RuntimeProbe where
  valid : Bool
  responding : Bool
  network : Bool

/-- The reason to give a machine up, `none` to re-attach it. -/
def lostReason (cfg : Config) (p : PersistedMachine) (probe : RuntimeProbe) (now : Time) :
    Option HostUsageObservationQualityReason :=
  if !(probe.valid && validHostMachineId p.id && p.runtime.any (1 < ·.pid))
      || !p.persistent && decide (p.expiresAt ≤ now) then some .invalidOrExpiredState
  else if !probe.responding then some .runtimeUnavailable
  else if 0 < p.metering.sequence && p.metering.hostBootId != mgr.hostBootId then some .hostBootChanged
  else if p.runtime.any (·.network) && cfg.netEnable && !probe.network then
    some .networkIsolationUnavailable
  else none

def reasonText : HostUsageObservationQualityReason → String
  | .invalidOrExpiredState => "invalid_or_expired_state"
  | .runtimeUnavailable => "runtime_unavailable"
  | .hostBootChanged => "host_boot_changed"
  | .networkIsolationUnavailable => "network_isolation_unavailable"
  | .terminalMonotonicUnavailable => "terminal_monotonic_unavailable"
  | .terminalMonotonicRegressed => "terminal_monotonic_regressed"
  | .terminalEgressUnavailable => "terminal_egress_unavailable"
  | .none => "none"

/-- The record of a machine after its recovered final. -/
def finalized (p : PersistedMachine) : PersistedMachine :=
  { p with metering := { p.metering with sequence := p.metering.sequence + 1, final := true } }

/-- The recovered final: the last persisted counters, not extended to the restart. -/
def recoveredFinal (p : PersistedMachine) (reason : HostUsageObservationQualityReason)
    (updatedAt : String) : HostUsageObservation :=
  observation (finalized p).toMachineRecord (processId p.runtime) .final (.lastDefensible, reason)
    (if p.metering.lastObservedAt = "" then updatedAt else p.metering.lastObservedAt)

/-- `saveRecoverySnapshot`: the document itself is saved, at its own next generation. -/
def saveRecoverySnapshot (doc : MachineStateSnapshot) (now : Time) (fault : SaveFault) :
    Manager × MachineStateSnapshot × Bool :=
  let doc' := { doc with generation := nextGeneration doc.generation, updatedAt := now }
  match mgr.saved doc' fault with
  | (x, true) => ({ x with stateGeneration := doc'.generation, stateHealthy := true }, doc', true)
  | (x, false) => ({ x with stateHealthy := false, meteringHealthy := false }, doc', false)

/-- `finalizePersistedMachine`.  The outbox of the manager becomes the outbox of the document. -/
def finalizePersistedMachine (doc : MachineStateSnapshot) (index : ℕ) (p : PersistedMachine)
    (reason : HostUsageObservationQualityReason) (updatedAt : String) (now : Time) (fault : SaveFault) :
    Manager × MachineStateSnapshot × Bool :=
  if p.metering.sequence = 0 ∨ p.metering.final then (mgr, doc, true)
  else if maxMeteringOutbox ≤ doc.meteringOutbox.length then
    ({ mgr with meteringHealthy := false }, doc, false)
  else if p.publicId = "" ∨ p.leaseId = "" ∨ p.metering.hostBootId = "" then (mgr, doc, false)
  else
    let doc' := { doc with
      machines := doc.machines.set index (finalized p)
      meteringOutbox := doc.meteringOutbox ++ [recoveredFinal p reason updatedAt] }
    match mgr.saveRecoverySnapshot doc' now fault with
    | (x, doc'', true) => ({ x with meteringOutbox := doc''.meteringOutbox }, doc'', true)
    | (x, _, false) => (x, doc, false)

/-- The machine in memory for a record of the document. -/
def reattached (p : PersistedMachine) : Machine :=
  { p.toMachineRecord with
    status := .starting
    ready := false
    driver := p.runtime
    jailerIdentity := mgr.jailerIdentities.lookup p.id }

/-- A machine rejoins the registry; `false` when its metering cannot start. -/
def reattach (p : PersistedMachine) (reading : Reading) : Manager × Bool :=
  let (placed, r) := mgr.allocate (mgr.reattached p)
  let logged := placed.transition r (some p.status) .starting "daemon_reattached"
  let (metering, ok) :=
    if p.metering.sequence = 0 ∧ p.leaseId ≠ "" then logged.recordMeterStart r reading else (logged, true)
  if !ok then (metering.unregister p.id, false)
  else if p.idempotencyKey = "" then (metering, true)
  else
    ({ metering with createKeys := (metering.createKeys.filter fun e => e.1 != p.idempotencyKey)
        ++ [(p.idempotencyKey, ⟨p.requestFingerprint, some p.id, true⟩)] }, true)

/-- A record without a generation gets the first one. -/
def upgraded (p : PersistedMachine) : PersistedMachine :=
  if p.leaseId ≠ "" ∧ p.leaseGeneration = 0 then { p with leaseGeneration := 1 } else p

/-! ### The fork operations of the document -/

/-- `validSucceededForkChild`. -/
def validSucceededForkChild (sourceId : String) (child : Machine) (p : PersistedMachine) : Bool :=
  child.parentId == sourceId && child.leaseId != "" && child.driver.isSome && p.parentId == sourceId
    && p.status == .running && p.ready && p.leaseId == child.leaseId
    && child.publicId != "" && child.meta "parent_machine_id" != ""
    && child.meta "fork_operation_id" != ""

/-- The batch of an operation that succeeded is complete. -/
def batchRecovered (loaded : List PersistedMachine) (op : PersistedForkOperation) : Bool :=
  op.childIds.all (fun id =>
    match mgr.find id, loaded.find? (·.id == id) with
    | some r, some p => validSucceededForkChild op.key.sourceId (mgr.objects r) p
        && (stillStarting (mgr.objects r).status || (mgr.objects r).status == .running)
    | _, _ => false)
    && validManagedForkBatch op.key.sourceId ((op.childIds.filterMap mgr.find).map mgr.objects)

def restoredReservation (op : PersistedForkOperation) (state : ForkState) (err : Option HostError) :
    ForkReservation :=
  { sourceId := op.key.sourceId
    fingerprint := op.fingerprint
    childIds := op.childIds
    err := err
    state := state
    createdAt := op.createdAt
    retainUntil := op.retainUntil
    done := true
    runtimeExpectation := op.runtimeExpectation }

/-- The reservation of an operation enters the map. -/
def enterReservation (key : ForkKey) (v : ForkReservation) : Manager :=
  { mgr with
    reservations := Function.update mgr.reservations mgr.nextReservation v
    nextReservation := mgr.nextReservation + 1
    forkKeys := (mgr.forkKeys.filter fun e => e.1 ≠ key) ++ [(key, mgr.nextReservation)] }

/-- One operation is settled: an incomplete batch is cleaned and fails. -/
def settleOperation (loaded : List PersistedMachine) (readings : ℕ → Reading)
    (op : PersistedForkOperation) : Manager × List ℕ :=
  match op.state with
  | .succeeded =>
    if mgr.batchRecovered loaded op then
      (mgr.enterReservation op.key (restoredReservation op .succeeded none), [])
    else
      let (x, removed) := mgr.removeForkChildren op.childIds "managed_fork_incomplete_restart_cleanup"
        readings
      (x.enterReservation op.key (restoredReservation op .failed (some .forkBatchCleaned)), removed)
  | .failed =>
    let (x, removed) := mgr.removeForkChildren op.childIds "managed_fork_failed_restart_cleanup" readings
    (x.enterReservation op.key
      (restoredReservation op .failed (some (forkFailureFromCode op.failureCode))), removed)
  | .pending =>
    let (x, removed) := mgr.removeForkChildren op.childIds "managed_fork_restart_cleanup" readings
    (x.enterReservation op.key (restoredReservation op .failed (some .forkBatchCleaned)), removed)

/-- The section over the fork operations. -/
def settleOperations (loaded : List PersistedMachine) (readings : ℕ → Reading) :
    Manager → List PersistedForkOperation → Manager × List ℕ
  | mgr, [] => (mgr, [])
  | mgr, op :: rest =>
    let (x, removed) := mgr.settleOperation loaded readings op
    let (y, more) := settleOperations loaded readings x rest
    (y, removed ++ more)

end Manager

end Nehemiah.Host
