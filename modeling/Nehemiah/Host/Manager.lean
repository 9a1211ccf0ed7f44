import Mathlib
import Nehemiah.Host.Machine

/-!
# The manager

The state of the daemon in managed mode, and the operations that run under the manager's lock: the state
commit, the metering of a machine, checkpoints and acknowledgements, readiness, extension, destruction
and expiry.

Machines and fork reservations are objects on a heap: a create or a fork in flight holds a reference to
its machine, which other operations may have removed from the registry meanwhile.  Everything that the
daemon reads from its surroundings (clocks, counters, the end of a save) is an argument.
-/

namespace Nehemiah.Host

open Billing

def maxMeteringOutbox : ℕ := 65536

def meteringTerminalHeadroom : ℕ := 4096

def maxMeteringBatch : ℕ := 256

/-- The length of the outbox at which the daemon stops to take new work. -/
def meteringAdmissionLimit : ℕ := maxMeteringOutbox - meteringTerminalHeadroom

def maxDurableForkOperations : ℕ := 4096

/-- The configuration, as far as it decides what the manager does. -/
structure Config where
  hostId : String
  runtimeCohort : String
  maxMachines : ℕ
  maxForks : ℕ
  maxForkOperations : ℕ
  defaultTtl : ℤ
  maxTtl : ℤ
  jailerUid : ℕ
  jailerGid : ℕ
  netEnable : Bool

/-- One call of a save: the document, the answer, and the file afterwards. -/
structure SaveRecord where
  snapshot : MachineStateSnapshot
  ok : Bool
  disk : Option MachineStateSnapshot

/-- A create that is known by its idempotency key. -/
structure CreateReservation where
  fingerprint : String
  machineId : Option String
  done : Bool

structure Manager where
  store : StateStore
  hostBootId : String
  objects : ℕ → Machine
  nextObject : ℕ
  /-- The registry `mgr.machines`. -/
  machines : List ℕ
  jailerIdentities : List (String × JailerIdentity)
  transitions : List Transition
  nextTransition : ℕ
  createKeys : List (String × CreateReservation)
  reservations : ℕ → ForkReservation
  nextReservation : ℕ
  forkKeys : List (ForkKey × ℕ)
  meteringOutbox : List HostUsageObservation
  stateGeneration : ℕ
  stateHealthy : Bool
  networkHealthy : Bool
  runtimeCohortHealthy : Bool
  identityHealthy : Bool
  meteringHealthy : Bool
  /-- Ghost: what acknowledgements have removed from the outbox. -/
  acknowledged : List HostUsageObservation
  /-- Ghost: the saves so far. -/
  saves : List SaveRecord

namespace Manager

variable (mgr : Manager)

/-! ### Objects and the registry -/

def modifyMachine (r : ℕ) (f : Machine → Machine) : Manager :=
  { mgr with objects := Function.update mgr.objects r (f (mgr.objects r)) }

def setMetering (r : ℕ) (s : MachineMeteringState) : Manager :=
  mgr.modifyMachine r fun m => { m with metering := s }

def setStatus (r : ℕ) (status : MachineStatus) : Manager :=
  mgr.modifyMachine r fun m => { m with status := status }

/-- `mgr.machines[id]`. -/
def find (id : String) : Option ℕ := mgr.machines.find? fun r => (mgr.objects r).id == id

def registered (id : String) : Bool := (mgr.find id).isSome

/-- `delete(mgr.machines, id)`. -/
def unregister (id : String) : Manager :=
  { mgr with machines := mgr.machines.filter fun r => (mgr.objects r).id != id }

/-- `mgr.machines[machine.ID] = machine`. -/
def register (r : ℕ) : Manager :=
  { mgr with machines := (mgr.unregister (mgr.objects r).id).machines ++ [r] }

/-- A new object, registered. -/
def allocate (m : Machine) : Manager × ℕ :=
  ({ mgr with
      objects := Function.update mgr.objects mgr.nextObject m
      nextObject := mgr.nextObject + 1 }.register mgr.nextObject, mgr.nextObject)

/-- The last 1024 transitions. -/
@[irreducible]
def trimmed (transitions : List Transition) : List Transition :=
  transitions.drop (transitions.length - 1024)

/-- `transitionLocked` of a machine with this id and lease. -/
def logTransition (id leaseId : String) (source : Option MachineStatus) (target : MachineStatus)
    (reason : String) : Manager :=
  let event : Transition := ⟨mgr.nextTransition + 1, id, leaseId, source, target, reason⟩
  { mgr with
    nextTransition := mgr.nextTransition + 1
    transitions := trimmed (mgr.transitions ++ [event]) }

def transition (r : ℕ) (source : Option MachineStatus) (target : MachineStatus) (reason : String) :
    Manager :=
  mgr.logTransition (mgr.objects r).id (mgr.objects r).leaseId source target reason

/-- The `m-<8 hex>` ids that `newID` may return. -/
def newIdFree (id : String) : Bool :=
  validHostMachineId id && !mgr.registered id && !mgr.jailerIdentities.any (·.1 == id)

/-- `reserveJailerIdentityLocked`; `free` tells which slots no live process and no account holds. -/
def reserveJailerIdentity (cfg : Config) (id : String) (free : ℕ → Bool) (reservationId : String) :
    Option (Manager × JailerIdentity) :=
  match mgr.jailerIdentities.lookup id with
  | some identity => some (mgr, identity)
  | none =>
    let usable (slot : ℕ) : Bool := free slot
      && !mgr.jailerIdentities.any (fun e => e.2.uid == cfg.jailerUid + slot)
      && !mgr.jailerIdentities.any (fun e => e.2.gid == cfg.jailerGid + slot)
    ((List.range cfg.maxMachines).find? usable).map fun slot =>
      let identity : JailerIdentity := ⟨cfg.jailerUid + slot, cfg.jailerGid + slot, reservationId⟩
      ({ mgr with jailerIdentities := mgr.jailerIdentities ++ [(id, identity)] }, identity)

def releaseIdentity (id : String) : Manager :=
  { mgr with jailerIdentities := mgr.jailerIdentities.filter fun e => e.1 != id }

/-! ### The state commit -/

def nextGeneration (g : ℕ) : ℕ := (g + 1) % 2 ^ 64

/-- `snapshotLocked`, at the generation it is given.  Machines, identities and forks are sorted. -/
def snapshot (cfg : Config) (generation : ℕ) (now : Time) : MachineStateSnapshot :=
  { version := machineStateVersion
    generation := generation
    hostId := cfg.hostId
    runtimeCohort := cfg.runtimeCohort
    updatedAt := now
    machines := (mgr.machines.map fun r => (mgr.objects r).persisted).insertionSort (·.id ≤ ·.id)
    jailerIdentities := mgr.jailerIdentities.insertionSort (·.1 ≤ ·.1)
    forks := (mgr.forkKeys.map fun e => (mgr.reservations e.2).persisted e.1).insertionSort fun a b =>
      a.key.sourceId < b.key.sourceId
        ∨ a.key.sourceId = b.key.sourceId ∧ a.key.idempotencyKey ≤ b.key.idempotencyKey
    transitions := mgr.transitions
    meteringOutbox := mgr.meteringOutbox
    acknowledged := mgr.acknowledged }

/-- A document goes to the store. -/
def saved (snapshot : MachineStateSnapshot) (fault : SaveFault) : Manager × Bool :=
  let (store, ok) := mgr.store.save snapshot fault
  ({ mgr with store := store, saves := mgr.saves ++ [⟨snapshot, ok, store.disk⟩] }, ok)

/-- `persistRequiredLocked`, and `persistLocked` for callers that drop the answer. -/
def persist (cfg : Config) (now : Time) (fault : SaveFault) : Manager × Bool :=
  let generation := nextGeneration mgr.stateGeneration
  let (mgr', ok) := mgr.saved (mgr.snapshot cfg generation now) fault
  ({ mgr' with stateGeneration := generation, stateHealthy := ok }, ok)

def admissionHealthy : Bool :=
  mgr.stateHealthy && mgr.networkHealthy && mgr.runtimeCohortHealthy && mgr.identityHealthy

/-! ### Metering -/

/-- What a sample reads: `CLOCK_BOOTTIME`, the egress counter of the tap and the wall clock. -/
structure Reading where
  monotonic : Option ℕ
  egress : Option ℕ
  observedAt : String

def meteringCanReserve (slots : ℕ) : Bool :=
  1 ≤ slots && mgr.hostBootId != "" && mgr.meteringHealthy
    && mgr.meteringOutbox.length + mgr.machines.countP (fun r => (mgr.objects r).meteringReserved) + slots
      ≤ meteringAdmissionLimit

/-- Only terminal observations may use the reserve. -/
def meteringLimit (terminal : Bool) : ℕ := if terminal then maxMeteringOutbox else meteringAdmissionLimit

def appendMetering (o : HostUsageObservation) (terminal : Bool) : Manager × Bool :=
  if meteringLimit terminal ≤ mgr.meteringOutbox.length then ({ mgr with meteringHealthy := false }, false)
  else
    ({ mgr with
      meteringOutbox := mgr.meteringOutbox ++ [o]
      meteringHealthy := mgr.meteringHealthy
        && decide ((mgr.meteringOutbox ++ [o]).length < meteringAdmissionLimit) }, true)

/-- Quality and reason of an observation. -/
abbrev Quality := HostUsageObservationQuality × HostUsageObservationQualityReason

def exact : Quality := (.exact, .none)

/-- The observation of a record at its current metering state. -/
def observation (m : MachineRecord) (processId : ℕ) (kind : HostUsageObservationKind)
    (quality : Quality) (observedAt : String) : HostUsageObservation :=
  { machineId := m.publicId
    hostMachineId := m.id
    leaseId := m.leaseId
    leaseGeneration := m.metering.leaseGeneration
    hostBootId := m.metering.hostBootId
    sequence := m.metering.sequence
    kind := kind
    quality := quality.1
    qualityReason := quality.2
    runtimeNs := m.metering.lastRuntimeNs
    egressBytes := m.metering.egressBytes
    egressCounterEpoch := m.metering.egressCounterEpoch
    observedMonotonicNs := m.metering.lastMonotonicNs
    observedAt := observedAt
    vcpus := m.vcpus
    memoryBytes := m.memoryMb * 1048576
    processId := processId }

/-- The process id of a driver, `2` when there is none. -/
def processId (driver : Option Driver) : ℕ :=
  match driver with
  | some d => if 1 < d.pid then d.pid else 2
  | none => 2

def appendMachineObservation (r : ℕ) (kind : HostUsageObservationKind) (terminal : Bool)
    (quality : Quality) : Manager × Bool :=
  let m := mgr.objects r
  if m.metering.sequence = 0 ∨ m.publicId = "" then (mgr, false)
  else
    mgr.appendMetering
      (observation m.toMachineRecord (processId m.driver) kind quality m.metering.lastObservedAt) terminal

def tapOf (m : Machine) : String := (m.driver.map (·.tap)).getD ""

/-- The metering state that a start begins with. -/
def startState (m : Machine) (now : ℕ) (reading : Reading) : MachineMeteringState :=
  { hostBootId := mgr.hostBootId
    leaseGeneration := if m.leaseGeneration = 0 then 1 else m.leaseGeneration
    sequence := 1
    startMonotonicNs := now
    lastMonotonicNs := now
    egressCounterEpoch := 1
    lastObservedAt := reading.observedAt
    egressRawBytes := if tapOf m ≠ "" then reading.egress.getD 0 else 0 }

/-- The lease is metered: it carries the identities of the control plane. -/
def metered (m : MachineRecord) : Bool :=
  m.leaseId != "" && validUuid m.leaseId && validMachineId m.publicId

/-- `recordMeterStartLocked`. -/
def recordMeterStart (r : ℕ) (reading : Reading) : Manager × Bool :=
  let m := mgr.objects r
  if !metered m.toMachineRecord then (mgr, true)
  else if m.driver.all (·.pid ≤ 1) then (mgr, false)
  else if !m.meteringReserved && !mgr.meteringCanReserve 1 then (mgr, false)
  else if m.meteringReserved && (mgr.hostBootId == "" || maxMeteringOutbox ≤ mgr.meteringOutbox.length)
  then (mgr, false)
  else
    match reading.monotonic with
    | none => ({ mgr with meteringHealthy := false }, false)
    | some now =>
      let (mgr', ok) := (mgr.setMetering r (mgr.startState m now reading)).appendMachineObservation r
        .start m.meteringReserved exact
      if ok then (mgr'.modifyMachine r fun m => { m with meteringReserved := false }, true)
      else (mgr', false)

/-- The clock part of a sample: the reading to use and its quality, `none` for an error. -/
def sampleClock (s : MachineMeteringState) (terminal : Bool) (reading : Reading) :
    Option (ℕ × Quality) :=
  match reading.monotonic with
  | none =>
    if terminal then some (s.lastMonotonicNs, (.lastDefensible, .terminalMonotonicUnavailable)) else none
  | some monotonic =>
    if monotonic < s.startMonotonicNs then
      if terminal then some (s.lastMonotonicNs, (.lastDefensible, .terminalMonotonicRegressed)) else none
    else some (monotonic, exact)

def clocked (s : MachineMeteringState) (monotonic : ℕ) : MachineMeteringState :=
  { s with lastMonotonicNs := monotonic, lastRuntimeNs := monotonic - s.startMonotonicNs }

/-- The egress counter of a live chain. -/
def counted (s : MachineMeteringState) (raw : ℕ) : MachineMeteringState :=
  if raw < s.egressRawBytes then
    { s with
      egressCounterEpoch := s.egressCounterEpoch + 1
      egressCounterBase := s.egressBytes
      egressRawBytes := raw }
  else { s with egressBytes := s.egressBytes + (raw - s.egressRawBytes), egressRawBytes := raw }

/-- The egress part of a sample, `none` for an error. -/
def sampleEgress (s : MachineMeteringState) (tap : String) (terminal : Bool) (reading : Reading)
    (quality : Quality) : Option (MachineMeteringState × Quality) :=
  if tap = "" then some (s, quality)
  else
    match reading.egress with
    | some raw => some (counted s raw, quality)
    | none =>
      if !terminal then none
      else if quality = exact then some (s, (.lastDefensible, .terminalEgressUnavailable))
      else some (s, quality)

/-- `sampleMachineMeteringLocked`. -/
def sample (r : ℕ) (terminal : Bool) (reading : Reading) : Manager × Bool :=
  let m := mgr.objects r
  let s := m.metering
  if s.sequence = 0 ∨ s.final then (mgr, true)
  else
    match sampleClock s terminal reading with
    | none => ({ mgr with meteringHealthy := false }, false)
    | some (monotonic, quality) =>
      match sampleEgress (clocked s monotonic) (tapOf m) terminal reading quality with
      | none => (mgr.setMetering r (clocked s monotonic), false)
      | some (s', quality) =>
        (mgr.setMetering r
          { s' with
            sequence := s'.sequence + 1
            lastObservedAt := reading.observedAt
            final := s'.final || terminal }).appendMachineObservation r
          (if terminal then .final else .checkpoint) terminal quality

/-! ### Checkpoints and acknowledgements -/

/-- The machines that a checkpoint samples. -/
def eligible (r : ℕ) : Bool :=
  0 < (mgr.objects r).metering.sequence && !(mgr.objects r).metering.final

/-- The samples of a checkpoint, up to the first that fails, with the machines visited. -/
def sampleAll (readings : ℕ → Reading) : Manager → List ℕ → Manager × List ℕ × Bool
  | mgr, [] => (mgr, [], true)
  | mgr, r :: rest =>
    match mgr.sample r false (readings r) with
    | (mgr', false) => (mgr', [r], false)
    | (mgr', true) =>
      let (mgr'', visited, ok) := sampleAll readings mgr' rest
      (mgr'', r :: visited, ok)

/-- The metering states and the outbox as they were in `prior`. -/
def rollback (prior : Manager) (visited : List ℕ) : Manager :=
  { mgr with
    objects := fun r =>
      if r ∈ visited then { mgr.objects r with metering := (prior.objects r).metering } else mgr.objects r
    meteringOutbox := mgr.meteringOutbox.take prior.meteringOutbox.length
    meteringHealthy := false }

/-- `checkpointMetering`.  `order` is the order in which the map yields the eligible machines. -/
def checkpoint (cfg : Config) (order : List ℕ) (readings : ℕ → Reading) (now : Time)
    (fault : SaveFault) : Manager × Bool :=
  if meteringAdmissionLimit < mgr.meteringOutbox.length + order.length then
    ({ mgr with meteringHealthy := false }, false)
  else if order = [] then (mgr, true)
  else
    match sampleAll readings mgr order with
    | (mgr', visited, false) => (mgr'.rollback mgr visited, false)
    | (mgr', visited, true) =>
      match mgr'.persist cfg now fault with
      | (mgr'', true) => (mgr'', true)
      | (mgr'', false) => (mgr''.rollback mgr visited, false)

def pendingMeteringBatch : List HostUsageObservation := mgr.meteringOutbox.take maxMeteringBatch

/-- `hostUsageObservationReceipt`. -/
structure Receipt where
  leaseId : String
  leaseGeneration : ℕ
  hostBootId : String
  sequence : ℕ
  outcome : String
  acknowledged : Bool

def knownOutcome (outcome : String) : Bool :=
  ["accepted", "duplicate", "pending_gap", "quarantined", "rejected_payload_conflict"].contains outcome

def receiptMatches (o : HostUsageObservation) (receipt : Receipt) : Bool :=
  receipt.acknowledged && receipt.leaseId == o.leaseId && receipt.leaseGeneration == o.leaseGeneration
    && receipt.hostBootId == o.hostBootId && receipt.sequence == o.sequence
    && knownOutcome receipt.outcome

/-- Two observations have the key that an acknowledgement compares. -/
def sameKey (a b : HostUsageObservation) : Bool :=
  a.hostBootId == b.hostBootId && a.leaseId == b.leaseId && a.leaseGeneration == b.leaseGeneration
    && a.sequence == b.sequence

/-- The batch that was sent is still the head of the outbox. -/
def headMatches (outbox sent : List HostUsageObservation) : Bool :=
  sent.length ≤ outbox.length && (outbox.zip sent).all fun p => sameKey p.1 p.2

/-- `acknowledgeMeteringBatch`. -/
def acknowledge (cfg : Config) (sent : List HostUsageObservation) (receipts : List Receipt) (now : Time)
    (fault : SaveFault) : Manager × Bool :=
  if sent.length ≠ receipts.length then (mgr, false)
  else if !(sent.zip receipts).all (fun p => receiptMatches p.1 p.2) then (mgr, false)
  else if !headMatches mgr.meteringOutbox sent then (mgr, false)
  else
    let removed := { mgr with
      meteringOutbox := mgr.meteringOutbox.drop sent.length
      acknowledged := mgr.acknowledged ++ mgr.meteringOutbox.take sent.length }
    match removed.persist cfg now fault with
    | (mgr', true) =>
      ({ mgr' with
        meteringHealthy := mgr'.meteringHealthy
          || decide (mgr'.meteringOutbox.length < meteringAdmissionLimit) }, true)
    | (mgr', false) =>
      ({ mgr' with
        meteringOutbox := mgr.meteringOutbox
        acknowledged := mgr.acknowledged
        meteringHealthy := false }, false)

/-! ### Readiness, extension, destruction and expiry -/

/-- The part of `awaitReady` after a successful probe. -/
def becomeReady (cfg : Config) (id : String) (now : Time) (fault : SaveFault) : Manager :=
  match mgr.find id with
  | none => mgr
  | some r =>
    if (mgr.objects r).ready then mgr
    else
      let status := (mgr.objects r).status
      (((mgr.modifyMachine r fun m => { m with ready := true, status := .running }).transition r (some status)
        .running "guest_agent_ready").persist cfg now fault).1

/-- `ExtendInternal` after the checks on the key and on the target. -/
def extend (cfg : Config) (id leaseId key : String) (target now : Time) (fault : SaveFault) :
    Manager × Except HostError Bool :=
  match mgr.find id with
  | none => (mgr, .error .notFound)
  | some r =>
    let m := mgr.objects r
    if m.leaseId = "" ∨ leaseId ≠ m.leaseId then (mgr, .error .invalidLease)
    else
      match m.extendOperations.lookup key with
      | some prior => if prior = target then (mgr, .ok true) else (mgr, .error .idempotencyConflict)
      | none =>
        let extended := mgr.modifyMachine r fun m => { m with
          extendOperations := m.extendOperations ++ [(key, target)]
          expiresAt := if !m.persistent && m.expiresAt < target then target else m.expiresAt }
        ((extended.persist cfg now fault).1, .ok false)

/-- The answer of `destroy`. -/
inductive Stop
  | absent | failed | done (r : ℕ)
  deriving DecidableEq

/-- `destroy` with a durable commit. -/
def destroy (cfg : Config) (id : String) (reading : Reading) (now : Time) (fault : SaveFault) :
    Manager × Stop :=
  match mgr.find id with
  | none => (mgr, .absent)
  | some r =>
    let m := mgr.objects r
    let stopping := (mgr.setStatus r .stopping).transition r (some m.status) .stopping "delete_requested"
    let undo (x : Manager) : Manager :=
      { (x.modifyMachine r fun o => { o with status := m.status, metering := m.metering }) with
        meteringOutbox := x.meteringOutbox.take mgr.meteringOutbox.length }
    match stopping.sample r true reading with
    | (x, false) => (undo x, .failed)
    | (x, true) =>
      let stopped := (x.unregister id).transition r (some .stopping) .stopped "deleted"
      match stopped.persist cfg now fault with
      | (y, true) => (y, .done r)
      | (y, false) =>
        if 0 < (x.objects r).metering.sequence then (undo (y.register r), .failed) else (y, .done r)

/-- `reap`, called by a timer or by the sweep. -/
def reap (cfg : Config) (id : String) (reading : Reading) (now : Time) (fault : SaveFault) :
    Manager × Stop :=
  match mgr.find id with
  | none => (mgr, .absent)
  | some r =>
    let m := mgr.objects r
    let undo (x : Manager) : Manager :=
      { x.setMetering r m.metering with
        meteringOutbox := x.meteringOutbox.take mgr.meteringOutbox.length }
    match mgr.sample r true reading with
    | (x, false) => (undo x, .failed)
    | (x, true) =>
      let stopped := (x.unregister id).transition r (some m.status) .stopped "ttl_expired"
      match stopped.persist cfg now fault with
      | (y, true) => (y, .done r)
      | (y, false) => (undo (y.register r), .failed)

/-- `releaseJailerIdentityAfterTeardown` of a machine object. -/
def releaseAfterTeardown (cfg : Config) (id : String) (expected : Option JailerIdentity)
    (verified : Bool) (now : Time) (fault : SaveFault) : Manager :=
  match mgr.jailerIdentities.lookup id with
  | none => mgr
  | some identity =>
    if expected.any (· != identity) || !verified then { mgr with identityHealthy := false }
    else
      match (mgr.releaseIdentity id).persist cfg now fault with
      | (x, true) => x
      | (x, false) => { x with jailerIdentities := mgr.jailerIdentities, identityHealthy := false }

end Manager

end Nehemiah.Host
