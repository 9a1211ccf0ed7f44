import Nehemiah.Billing.Observation

/-!
# Machines and the state document

The records of the host daemon: a machine with its metering state, a fork reservation, and the document
that the daemon commits to `state.json`.  `StateStore.save` is the generation check and the commit by
rename; where the file system fails is an input.
-/

namespace Nehemiah.Host

open Billing

/-- Wall-clock time. -/
abbrev Time := ℤ

/-! ### Machines -/

/-- `machineMeteringState`; the zero value is a machine that is not metered yet. -/
structure MachineMeteringState where
  hostBootId : String := ""
  leaseGeneration : ℕ := 0
  sequence : ℕ := 0
  startMonotonicNs : ℕ := 0
  lastMonotonicNs : ℕ := 0
  lastRuntimeNs : ℕ := 0
  egressBytes : ℕ := 0
  egressCounterBase : ℕ := 0
  egressRawBytes : ℕ := 0
  egressCounterEpoch : ℕ := 0
  lastObservedAt : String := ""
  final : Bool := false
deriving DecidableEq

inductive MachineStatus
  | booting | starting | warming | running | stopping | stopped | failed | lost
deriving DecidableEq

/-- What the daemon keeps of a `fcDriver` across a restart. -/
structure Driver where
  pid : ℕ
  tap : String
  ip : String
  network : Bool
deriving DecidableEq

structure JailerIdentity where
  uid : ℕ
  gid : ℕ
  reservationId : String
deriving DecidableEq

/-- The fields that a machine has in memory and in the document. -/
structure MachineRecord where
  id : String
  status : MachineStatus
  ready : Bool := false
  template : String := ""
  expiresAt : Time
  vcpus : ℕ
  memoryMb : ℕ
  diskMb : ℕ
  persistent : Bool := false
  parentId : String := ""
  leaseId : String
  leaseGeneration : ℕ
  metering : MachineMeteringState := {}
  metadata : List (String × String) := []
  idempotencyKey : String := ""
  requestFingerprint : String := ""
  runtimeRootfsSha256 : String := ""
  extendOperations : List (String × Time) := []
  reservedIp : String := ""
deriving DecidableEq

structure Machine extends MachineRecord where
  driver : Option Driver := none
  meteringReserved : Bool := false
  jailerIdentity : Option JailerIdentity := none

structure PersistedMachine extends MachineRecord where
  runtime : Option Driver
deriving DecidableEq

/-- An entry of the metadata map, empty when it is absent. -/
def MachineRecord.meta (m : MachineRecord) (key : String) : String := (m.metadata.lookup key).getD ""

def MachineRecord.publicId (m : MachineRecord) : String := m.meta "public_machine_id"

def Machine.persisted (m : Machine) : PersistedMachine := { m.toMachineRecord with runtime := m.driver }

/-! ### Fork reservations -/

inductive HostError
  | snapshotUnavailable | forkSourceNotReady | hostDraining | hostUnhealthy | tooManyMachines
  | forkBatchCleaned | forkBatchFailed | forkResultPending | idempotencyConflict | invalidLease
  | invalidResources | notFound
deriving DecidableEq

def forkFailureCode : Option HostError → String
  | none => ""
  | some .snapshotUnavailable => "snapshot_unavailable"
  | some .forkSourceNotReady => "source_not_ready"
  | some .hostDraining => "host_draining"
  | some .hostUnhealthy => "host_unhealthy"
  | some .tooManyMachines => "host_capacity"
  | some .forkBatchCleaned => "fork_batch_cleaned"
  | some _ => "fork_batch_failed"

def forkFailureFromCode (code : String) : HostError :=
  if code = "snapshot_unavailable" then .snapshotUnavailable
  else if code = "source_not_ready" then .forkSourceNotReady
  else if code = "host_draining" then .hostDraining
  else if code = "host_unhealthy" then .hostUnhealthy
  else if code = "host_capacity" then .tooManyMachines
  else if code = "fork_batch_cleaned" then .forkBatchCleaned
  else .forkBatchFailed

inductive ForkState
  | pending | succeeded | failed
deriving DecidableEq

structure RuntimeExpectation where
  cohortId : String := ""
  rootfsSha256 : String := ""
deriving DecidableEq

/-- A `forkReservation`; the channels `done` and `cleanupDone` are flags: closed, and made but not closed
yet. -/
structure ForkReservation where
  sourceId : String
  fingerprint : String
  childIds : List String
  err : Option HostError := none
  state : ForkState
  createdAt : Time
  retainUntil : Time
  done : Bool := false
  cleaning : Bool := false
  runtimeExpectation : RuntimeExpectation := {}

/-- `sourceID + "\x00" + idempotencyKey`. -/
structure ForkKey where
  sourceId : String
  idempotencyKey : String
deriving DecidableEq

structure PersistedForkOperation where
  key : ForkKey
  fingerprint : String
  childIds : List String
  state : ForkState
  failureCode : String
  createdAt : Time
  retainUntil : Time
  runtimeExpectation : RuntimeExpectation
deriving DecidableEq

def ForkReservation.persisted (key : ForkKey) (r : ForkReservation) : PersistedForkOperation :=
  { key := key
    fingerprint := r.fingerprint
    childIds := r.childIds
    state := r.state
    failureCode := if r.state = .failed then forkFailureCode r.err else ""
    createdAt := r.createdAt
    retainUntil := r.retainUntil
    runtimeExpectation := r.runtimeExpectation }

/-! ### The state document -/

/-- `machineTransition`. -/
structure Transition where
  sequence : ℕ
  machineId : String
  leaseId : String
  source : Option MachineStatus
  target : MachineStatus
  reason : String
deriving DecidableEq

/-- `machineStateSnapshot`.  `acknowledged` is a ghost: the observations that acknowledgements have
removed from the outbox on the way to this document. -/
structure MachineStateSnapshot where
  version : ℕ
  generation : ℕ
  hostId : String
  runtimeCohort : String
  updatedAt : Time
  machines : List PersistedMachine
  jailerIdentities : List (String × JailerIdentity)
  forks : List PersistedForkOperation
  transitions : List Transition
  meteringOutbox : List HostUsageObservation
  acknowledged : List HostUsageObservation := []
deriving DecidableEq

def machineStateVersion : ℕ := 1

/-- How a save ends: it commits, it fails before the rename, or it fails after the rename, when the new
document is already in place. -/
inductive SaveFault
  | none | beforeRename | afterRename
deriving DecidableEq

/-- `StateStore` with the content of its file. -/
structure StateStore where
  disk : Option MachineStateSnapshot
  lastSaved : ℕ

/-- `StateStore.Save`.  A document older than the last one saved is skipped without an error. -/
def StateStore.save (s : StateStore) (snapshot : MachineStateSnapshot) (fault : SaveFault) :
    StateStore × Bool :=
  if snapshot.generation < s.lastSaved then (s, true)
  else
    match fault with
    | .none => ({ disk := some snapshot, lastSaved := snapshot.generation }, true)
    | .beforeRename => (s, false)
    | .afterRename => ({ s with disk := some snapshot }, false)

/-- The document that a missing file stands for. -/
def emptySnapshot : MachineStateSnapshot :=
  { version := machineStateVersion
    generation := 0
    hostId := ""
    runtimeCohort := ""
    updatedAt := 0
    machines := []
    jailerIdentities := []
    forks := []
    transitions := []
    meteringOutbox := [] }

/-- `StateStore.Load` of a readable file.  A missing file leaves `lastSaved` alone. -/
def StateStore.load (s : StateStore) : StateStore × MachineStateSnapshot :=
  match s.disk with
  | none => (s, emptySnapshot)
  | some snapshot => ({ s with lastSaved := snapshot.generation }, snapshot)

end Nehemiah.Host
