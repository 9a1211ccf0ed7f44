import Nehemiah.Host.Manager

/-!
# Creates and forks

The sections of `create`, `forkInternal`, `runManagedFork` and `forkReservationResult` that run under the
manager's lock.  Between them the lock is free: boots, restores and probes run without it, and their
outcomes are arguments of the next section.
-/

namespace Nehemiah.Host

open Billing

namespace Manager

variable (mgr : Manager)

/-! ### Creates -/

/-- A managed create request, with the template's resources filled in. -/
structure CreateRequest where
  idempotencyKey : String
  fingerprint : String
  leaseId : String
  leaseGeneration : ℕ
  metadata : List (String × String)
  template : String
  expiresAt : Time
  persistent : Bool
  vcpus : ℕ
  memoryMb : ℕ
  diskMb : ℕ
  runtimeRootfsSha256 : String

def credentialWords : List String :=
  ["password", "secret", "token", "credential", "authorization", "cookie", "api_key", "apikey"]

/-- A metadata key that could name a credential. -/
def namesCredential (key : String) : Bool :=
  let lower := key.toList.map Char.toLower
  credentialWords.any fun word => decide (word.toList <:+: lower)

def blank (s : String) : Bool := s.toList.all Char.isWhitespace

/-- `validateInternalCreate`. -/
def validateInternalCreate (idempotencyKey leaseId : String) (metadata : List (String × String)) :
    Bool :=
  !blank idempotencyKey && idempotencyKey.utf8ByteSize ≤ 256
    && !blank leaseId && leaseId.utf8ByteSize ≤ 256
    && metadata.length ≤ 32
    && metadata.all fun e => e.1 != "" && e.1.utf8ByteSize ≤ 64 && e.2.utf8ByteSize ≤ 1024
        && !namesCredential e.1

/-- The key of a create is taken; `none` when the request is refused or is a replay. -/
def beginCreate (req : CreateRequest) : Option Manager :=
  if validateInternalCreate req.idempotencyKey req.leaseId req.metadata
      && req.leaseGeneration != 0
      && (mgr.createKeys.lookup req.idempotencyKey).isNone && mgr.admissionHealthy then
    some { mgr with
      createKeys := mgr.createKeys ++ [(req.idempotencyKey, ⟨req.fingerprint, none, false⟩)] }
  else none

/-- The key is settled: it names the machine, or is free again after an error. -/
def endCreate (key : String) (machineId : Option String) : Manager :=
  match machineId with
  | some id =>
    { mgr with createKeys := mgr.createKeys.map fun e =>
        if e.1 = key then (e.1, { e.2 with machineId := some id, done := true }) else e }
  | none => { mgr with createKeys := mgr.createKeys.filter fun e => e.1 != key }

def metadataValue (metadata : List (String × String)) (key : String) : String :=
  (metadata.lookup key).getD ""

/-- A registered machine holds the lease, or the public id. -/
def leaseHeld (leaseId publicId : String) : Bool :=
  mgr.machines.any fun r =>
    (mgr.objects r).leaseId == leaseId || publicId != "" && (mgr.objects r).publicId == publicId

def createdMachine (req : CreateRequest) (id : String) (identity : JailerIdentity) : Machine :=
  { id := id
    status := .booting
    template := req.template
    expiresAt := req.expiresAt
    vcpus := req.vcpus
    memoryMb := req.memoryMb
    diskMb := req.diskMb
    persistent := req.persistent
    leaseId := req.leaseId
    leaseGeneration := req.leaseGeneration
    metadata := req.metadata
    idempotencyKey := req.idempotencyKey
    requestFingerprint := req.fingerprint
    runtimeRootfsSha256 := req.runtimeRootfsSha256
    meteringReserved := req.leaseId != ""
    jailerIdentity := some identity }

/-- What a reservation draws: the id, the free slots of the identity pool and a reservation id. -/
structure Draw where
  id : String
  free : ℕ → Bool
  reservationId : String

/-- `create` up to the boot: the slot and the id are reserved durably.  `refusal` is the answer of the
checks on draining and control groups, `memory` that of the memory probe. -/
def reserveCreate (cfg : Config) (req : CreateRequest) (draw : Draw) (refusal : Option HostError)
    (memory : Bool) (now : Time) (fault : SaveFault) : Manager × Except HostError ℕ :=
  let publicId := metadataValue req.metadata "public_machine_id"
  if let some e := refusal then (mgr, .error e)
  else if !mgr.admissionHealthy then (mgr, .error .hostUnhealthy)
  else if req.leaseId != "" && !mgr.meteringCanReserve 1 then (mgr, .error .hostUnhealthy)
  else if req.leaseId != "" && mgr.leaseHeld req.leaseId publicId then
    (mgr, .error .idempotencyConflict)
  else if cfg.maxMachines ≤ mgr.machines.length || !memory then (mgr, .error .tooManyMachines)
  else
    match mgr.reserveJailerIdentity cfg draw.id draw.free draw.reservationId with
    | none => (mgr, .error .hostUnhealthy)
    | some (held, identity) =>
      let (placed, r) := held.allocate (createdMachine req draw.id identity)
      match (placed.transition r none .booting "create").persist cfg now fault with
      | (x, true) => (x, .ok r)
      | (x, false) => ((x.unregister draw.id).releaseIdentity draw.id, .error .hostUnhealthy)

/-- A create fails after its reservation: the slot is given up. -/
def abandonCreate (cfg : Config) (r : ℕ) (reason : String) (now : Time) (fault : SaveFault) : Manager :=
  (((mgr.unregister (mgr.objects r).id).transition r (some .booting) .failed reason).persist cfg now
    fault).1

def started (r : ℕ) (driver : Driver) (overlayMb : ℕ) : Manager :=
  mgr.modifyMachine r fun m => { m with
    driver := some driver
    diskMb := if m.diskMb = 0 then overlayMb else m.diskMb
    status := .starting }

/-- `create` after the boot.  The registry is not consulted. -/
def publishCreate (cfg : Config) (r : ℕ) (driver : Driver) (overlayMb : ℕ) (reading : Reading)
    (now : Time) (fault fault' : SaveFault) : Manager × Bool :=
  let id := (mgr.objects r).id
  if !mgr.admissionHealthy then
    ((((mgr.modifyMachine r fun m => { m with driver := some driver }).unregister id).transition r
      (some .booting) .failed "managed_runtime_drift").persist cfg now fault |>.1, false)
  else
    let running := (mgr.started r driver overlayMb).transition r (some .booting) .starting "vmm_started"
    match running.recordMeterStart r reading with
    | (x, false) =>
      (((x.unregister id).transition r (some .starting) .failed "metering_start").persist cfg now fault
        |>.1, false)
    | (x, true) =>
      match x.persist cfg now fault with
      | (y, true) => (y, true)
      | (y, false) =>
        if 0 < (x.objects r).metering.sequence then
          let undone := { y.setMetering r {} with
            meteringOutbox := y.meteringOutbox.take mgr.meteringOutbox.length }
          (((undone.unregister id).transition r (some .starting) .failed "metering_persistence").persist
            cfg now fault' |>.1, false)
        else (y, true)

/-! ### Fork children -/

/-- `managedForkChild`. -/
structure ManagedForkChild where
  leaseId : String
  leaseGeneration : ℕ
  expiresAt : Time
  metadata : List (String × String)
  vcpus : ℕ
  memoryMb : ℕ
  diskMb : ℕ

def ManagedForkChild.meta (c : ManagedForkChild) (key : String) : String :=
  metadataValue c.metadata key

structure ForkRequest where
  sourceId : String
  sourceLeaseId : String
  idempotencyKey : String
  fingerprint : String
  expectation : RuntimeExpectation
  children : List ManagedForkChild

def ForkRequest.key (req : ForkRequest) : ForkKey := ⟨req.sourceId, req.idempotencyKey⟩

/-- `/^[A-Za-z0-9._:-]{1,128}$/`. -/
def validOperationKey (key : String) : Bool :=
  let cs := key.toList
  1 ≤ cs.length && cs.length ≤ 128
    && cs.all fun c => c.isAlphanum || c == '.' || c == '_' || c == ':' || c == '-'

/-- The checks of `forkInternal` before the lock. -/
def validForkRequest (req : ForkRequest) : Bool :=
  validOperationKey req.idempotencyKey
    && 1 ≤ req.children.length && req.children.length ≤ 8
    && req.children.all fun c => validateInternalCreate req.idempotencyKey c.leaseId c.metadata

/-- `validateManagedForkDescriptors`. -/
def validateManagedForkDescriptors (source : Machine) (children : List ManagedForkChild) (now : Time) :
    Option HostError :=
  let operations := children.map (·.meta "fork_operation_id")
  if source.publicId = "" then some .invalidLease
  else if children.any fun c => c.meta "public_machine_id" == "" || 256 < (c.meta "public_machine_id").utf8ByteSize
      || c.meta "parent_machine_id" != source.publicId || c.meta "fork_operation_id" == "" then
    some .invalidLease
  else if operations.any (· != operations.headD "") then some .invalidLease
  else if ¬ (children.map (·.meta "public_machine_id")).Nodup then some .invalidLease
  else if ¬ (children.map (·.leaseId)).Nodup then some .invalidLease
  else if children.any fun c => c.vcpus != source.vcpus || c.memoryMb != source.memoryMb
      || c.diskMb != source.diskMb then some .invalidResources
  else if children.any fun c => decide (c.expiresAt ≤ now) || decide (source.expiresAt < c.expiresAt) then
    some .invalidResources
  else none

/-- `validManagedForkBatch`. -/
def validManagedForkBatch (sourceId : String) (children : List Machine) : Bool :=
  match children with
  | [] => false
  | first :: _ =>
    children.all (fun c => c.parentId == sourceId && c.leaseId != "" && c.driver.isSome
      && c.template == first.template && c.vcpus == first.vcpus && c.memoryMb == first.memoryMb
      && c.diskMb == first.diskMb
      && c.publicId != "" && c.meta "parent_machine_id" != "" && c.meta "fork_operation_id" != ""
      && c.meta "fork_operation_id" == first.meta "fork_operation_id"
      && c.meta "parent_machine_id" == first.meta "parent_machine_id")
    && decide (children.map (·.publicId)).Nodup
    && decide (children.map (·.leaseId)).Nodup
    && decide ((children.map (·.reservedIp)).filter (· ≠ "")).Nodup

/-! ### Cleanup -/

/-- The final observations that removing the children would take. -/
def terminalNeeded (ids : List String) : ℕ :=
  ids.eraseDups.countP fun id => (mgr.find id).any mgr.eligible

/-- The loop of `removeForkChildrenLocked`. -/
def removeChildren (reason : String) (readings : ℕ → Reading) :
    Manager → List String → Manager × List ℕ
  | mgr, [] => (mgr, [])
  | mgr, id :: rest =>
    match mgr.find id with
    | none => removeChildren reason readings mgr rest
    | some r =>
      match mgr.sample r true (readings r) with
      | (x, false) => removeChildren reason readings { x with meteringHealthy := false } rest
      | (x, true) =>
        let (y, removed) := removeChildren reason readings
          ((x.unregister id).transition r (some (x.objects r).status) .failed reason) rest
        (y, r :: removed)

/-- `removeForkChildrenLocked`: the children that are gone from the registry.  Without room for their
final observations all of them stay. -/
def removeForkChildren (ids : List String) (reason : String) (readings : ℕ → Reading) :
    Manager × List ℕ :=
  if maxMeteringOutbox < mgr.meteringOutbox.length + mgr.terminalNeeded ids then
    ({ mgr with meteringHealthy := false }, [])
  else removeChildren reason readings mgr ids.eraseDups

structure ForkCleanupCheckpoint where
  machines : List (ℕ × MachineStatus × MachineMeteringState)
  outboxLength : ℕ
  transitionLength : ℕ
  nextTransition : ℕ

/-- `captureForkCleanupLocked`. -/
def captureForkCleanup (ids : List String) : ForkCleanupCheckpoint :=
  { machines := (ids.filterMap mgr.find).map fun r =>
      (r, (mgr.objects r).status, (mgr.objects r).metering)
    outboxLength := mgr.meteringOutbox.length
    transitionLength := mgr.transitions.length
    nextTransition := mgr.nextTransition }

/-- One machine of a checkpoint is back, with its prior status and metering state. -/
def restoreMachine (e : ℕ × MachineStatus × MachineMeteringState) : Manager :=
  (mgr.modifyMachine e.1 fun m => { m with status := e.2.1, metering := e.2.2 }).register e.1

/-- `restoreForkCleanupLocked`. -/
def restoreForkCleanup (c : ForkCleanupCheckpoint) : Manager :=
  let restored := c.machines.foldl restoreMachine mgr
  { restored with
    meteringOutbox := restored.meteringOutbox.take c.outboxLength
    transitions := restored.transitions.take c.transitionLength
    nextTransition := c.nextTransition }

/-! ### The fork reservation -/

def modifyReservation (res : ℕ) (f : ForkReservation → ForkReservation) : Manager :=
  { mgr with reservations := Function.update mgr.reservations res (f (mgr.reservations res)) }

/-- The reservation ends with `ErrForkBatchCleaned`. -/
def failReservation (res : ℕ) : Manager :=
  mgr.modifyReservation res fun v => { v with state := .failed, err := some .forkBatchCleaned }

def maxForkOperations (cfg : Config) : ℕ :=
  if 0 < cfg.maxForkOperations ∧ cfg.maxForkOperations < maxDurableForkOperations then
    cfg.maxForkOperations
  else maxDurableForkOperations

def forkRetentionUntil (cfg : Config) (now : Time) (expiries : List Time) : Time :=
  expiries.foldl max (now + max (max cfg.maxTtl cfg.defaultTtl) 1)

/-- `pruneForkReservationsLocked`. -/
def pruneForkReservations (now : Time) : Manager :=
  { mgr with forkKeys := mgr.forkKeys.filter fun e =>
      (mgr.reservations e.2).state == .pending || decide (now < (mgr.reservations e.2).retainUntil) }

/-- The addresses `200` to `250` of the subnet that no machine holds. -/
def allocForkIps (subnet : String) (n : ℕ) : List String :=
  let used (ip : String) : Bool := mgr.machines.any fun r =>
    (mgr.objects r).reservedIp == ip || ((mgr.objects r).driver.map (·.ip)).getD "" == ip
  (((List.range' 200 51).map fun x => subnet ++ "." ++ toString x).filter fun ip => !used ip).take n

/-- The addresses of the children of a source with a network interface. -/
def forkIps (cfg : Config) (source : Machine) (subnet : String) (n : ℕ) : List String :=
  if tapOf source ≠ "" ∧ cfg.netEnable then mgr.allocForkIps subnet n else List.replicate n ""

def forkChild (source : Machine) (c : ManagedForkChild) (id ip : String) (identity : JailerIdentity) :
    Machine :=
  { id := id
    status := .booting
    template := source.template
    expiresAt := c.expiresAt
    vcpus := c.vcpus
    memoryMb := c.memoryMb
    diskMb := c.diskMb
    parentId := source.id
    leaseId := c.leaseId
    leaseGeneration := if c.leaseGeneration = 0 then 1 else c.leaseGeneration
    metadata := c.metadata
    runtimeRootfsSha256 := source.runtimeRootfsSha256
    reservedIp := ip
    meteringReserved := true
    jailerIdentity := some identity }

/-- The loop that reserves the children, `none` when the identity pool is exhausted; the references come
in the order of the request. -/
def reserveChildren (cfg : Config) (source : Machine) :
    Manager → List (ManagedForkChild × String × Draw) → Manager × Option (List ℕ)
  | mgr, [] => (mgr, some [])
  | mgr, (c, ip, draw) :: rest =>
    match mgr.reserveJailerIdentity cfg draw.id draw.free draw.reservationId with
    | none => (mgr, none)
    | some (held, identity) =>
      let (placed, r) := held.allocate (forkChild source c draw.id ip identity)
      match reserveChildren cfg source (placed.transition r none .booting "managed_fork_reserved") rest with
      | (x, some refs) => (x, some (r :: refs))
      | (x, none) => ((x.unregister draw.id).releaseIdentity draw.id, none)

/-- How `forkInternal` leaves its first section. -/
inductive ForkBegin
  | refused (e : HostError)
  | replay (res : ℕ)
  | started (res source : ℕ) (children : List ℕ)
  | cleaned (res : ℕ) (removed : List ℕ)

/-- What the first section of a fork asks of its surroundings: the answer of the checks on the runtime
expectation, draining and control groups, whether the host has the capacity, the subnet, and a draw for
each child. -/
structure ForkProbe where
  refusal : Option HostError
  capacity : Bool
  subnet : String
  draws : List Draw

/-- The admission of a fork whose source is registered. -/
def admitFork (cfg : Config) (req : ForkRequest) (probe : ForkProbe) (source : Machine) (now : Time) :
    Option HostError :=
  if source.leaseId = "" ∨ source.leaseId ≠ req.sourceLeaseId then some .invalidLease
  else if probe.refusal.isSome then probe.refusal
  else if source.driver.isNone || !source.ready || source.status != .running || source.persistent
      || decide (source.expiresAt ≤ now) then some .forkSourceNotReady
  else
    match validateManagedForkDescriptors source req.children now with
    | some e => some e
    | none =>
      if cfg.maxMachines < mgr.machines.length + req.children.length || !probe.capacity then
        some .tooManyMachines
      else if req.children.any fun c => mgr.leaseHeld c.leaseId (c.meta "public_machine_id") then
        some .idempotencyConflict
      else none

/-- The reservation is entered and committed. -/
def reserveFork (cfg : Config) (req : ForkRequest) (source : ℕ) (ips : List String) (probe : ForkProbe)
    (now : Time) (fault fault' : SaveFault) : Manager × ForkBegin :=
  match reserveChildren cfg (mgr.objects source) mgr (req.children.zip (ips.zip probe.draws)) with
  | (x, none) => (x, .refused .hostUnhealthy)
  | (x, some children) =>
    let res := x.nextReservation
    let reservation : ForkReservation :=
      { sourceId := req.sourceId
        fingerprint := req.fingerprint
        childIds := children.map fun r => (x.objects r).id
        state := .pending
        createdAt := now
        retainUntil := forkRetentionUntil cfg now (req.children.map (·.expiresAt))
        runtimeExpectation := req.expectation }
    let entered := { x with
      reservations := Function.update x.reservations res reservation
      nextReservation := res + 1
      forkKeys := x.forkKeys ++ [(req.key, res)] }
    match entered.persist cfg now fault with
    | (y, true) => (y, .started res source children)
    | (y, false) =>
      -- nothing has been metered yet, so no reading is taken
      let (z, removed) := y.removeForkChildren reservation.childIds
        "managed_fork_reservation_persist_failed" fun _ => ⟨none, none, ""⟩
      let closed := (z.failReservation res).modifyReservation res fun v => { v with done := true }
      ((closed.persist cfg now fault').1, .cleaned res removed)

/-- The first section of `forkInternal`. -/
def beginFork (cfg : Config) (req : ForkRequest) (probe : ForkProbe) (now : Time)
    (fault fault' : SaveFault) : Manager × ForkBegin :=
  match mgr.forkKeys.lookup req.key with
  | some res =>
    let existing := mgr.reservations res
    if existing.fingerprint ≠ req.fingerprint ∨ existing.runtimeExpectation ≠ req.expectation then
      (mgr, .refused .idempotencyConflict)
    else (mgr, .replay res)
  | none =>
    if !mgr.admissionHealthy || !mgr.meteringCanReserve req.children.length then
      (mgr, .refused .hostUnhealthy)
    else if max cfg.maxForks 1 < req.children.length then (mgr, .refused .invalidResources)
    else
      let pruned := mgr.pruneForkReservations now
      if maxForkOperations cfg ≤ pruned.forkKeys.length then (pruned, .refused .tooManyMachines)
      else
        match pruned.find req.sourceId with
        | none => (pruned, .refused .notFound)
        | some source =>
          let s := pruned.objects source
          match pruned.admitFork cfg req probe s now with
          | some e => (pruned, .refused e)
          | none =>
            let ips := pruned.forkIps cfg s probe.subnet req.children.length
            if ips.length ≠ req.children.length then (pruned, .refused .tooManyMachines)
            else pruned.reserveFork cfg req source ips probe now fault fault'

/-! ### Running a fork -/

/-- The source of a fork is still the machine it was. -/
def sourceCurrent (source : ℕ) (driver : Option Driver) : Bool :=
  mgr.find (mgr.objects source).id == some source && (mgr.objects source).driver == driver
    && (mgr.objects source).ready && (mgr.objects source).status == .running

/-- `runManagedFork` after the boot of a child.  A start that fails is left to the rollback, which runs in
a section of its own. -/
def publishChild (cfg : Config) (r : ℕ) (driver : Driver) (reading : Reading) (now : Time)
    (fault : SaveFault) : Manager × Bool :=
  if mgr.find (mgr.objects r).id != some r || !mgr.admissionHealthy then (mgr, false)
  else
    let running := ((mgr.modifyMachine r fun m => { m with driver := some driver, status := .starting }).transition
      r (some .booting) .starting "managed_fork_vmm_started")
    match running.recordMeterStart r reading with
    | (x, false) => (x, false)
    | (x, true) => x.persist cfg now fault

def childrenReady (children : List ℕ) : Bool :=
  children.all fun r => mgr.find (mgr.objects r).id == some r && (mgr.objects r).ready
    && (mgr.objects r).status == .running

/-- `rollbackForkChildren`. -/
def rollbackForkChildren (cfg : Config) (children : List ℕ) (readings : ℕ → Reading) (now : Time)
    (fault : SaveFault) : Manager × List ℕ :=
  let ids := children.map fun r => (mgr.objects r).id
  let (x, removed) := mgr.removeForkChildren ids "managed_fork_rollback" readings
  match x.persist cfg now fault with
  | (y, true) => (y, removed)
  | (y, false) => (y.restoreForkCleanup (mgr.captureForkCleanup ids), [])

/-- How the section of `forkInternal` after the run ends. -/
structure ForkEnd where
  removed : List ℕ
  /-- `nil` at the end: the batch succeeded durably. -/
  succeeded : Bool
  /-- The terminal record could not be saved. -/
  unsaved : Bool

/-- The section of `forkInternal` after the run. -/
def finishFork (cfg : Config) (res : ℕ) (failed : Bool) (readings : ℕ → Reading) (now : Time)
    (fault fault' : SaveFault) : Manager × ForkEnd :=
  let ids := (mgr.reservations res).childIds
  let checkpoint := mgr.captureForkCleanup ids
  if failed then
    let (x, removed) := mgr.removeForkChildren ids "managed_fork_terminal_cleanup" readings
    match (x.failReservation res).persist cfg now fault with
    | (y, true) => (y, ⟨removed, false, false⟩)
    | (y, false) =>
      match y.persist cfg now fault' with
      | (z, true) => (z, ⟨removed, false, false⟩)
      | (z, false) => (z.restoreForkCleanup checkpoint, ⟨[], false, true⟩)
  else
    let succeeded := mgr.modifyReservation res fun v => { v with state := .succeeded, err := none }
    match succeeded.persist cfg now fault with
    | (y, true) => (y, ⟨[], true, false⟩)
    | (y, false) =>
      let (x, removed) := y.removeForkChildren ids "managed_fork_terminal_persist_failed" readings
      match (x.failReservation res).persist cfg now fault' with
      | (z, true) => (z, ⟨removed, false, false⟩)
      | (z, false) => (z.restoreForkCleanup checkpoint, ⟨[], false, true⟩)

def closeReservation (res : ℕ) : Manager :=
  mgr.modifyReservation res fun v => { v with done := true }

/-! ### The result of a reservation -/

inductive ForkAnswer
  | wait
  | answer (result : Except HostError (List ℕ))
  | cleaned (removed : List ℕ)

def stillStarting (status : MachineStatus) : Bool :=
  status == .starting || status == .booting || status == .warming

/-- The children of a reservation are all there and sound. -/
def batchSound (v : ForkReservation) : Bool :=
  let children := v.childIds.filterMap mgr.find
  children.length == v.childIds.length
    && children.all (fun r => stillStarting (mgr.objects r).status
        || (mgr.objects r).ready && (mgr.objects r).status == .running)
    && validManagedForkBatch v.sourceId (children.map mgr.objects)

/-- `forkReservationResult`, up to the end of a cleanup. -/
def forkReservationResult (cfg : Config) (res : ℕ) (readings : ℕ → Reading) (now : Time)
    (fault : SaveFault) : Manager × ForkAnswer :=
  let v := mgr.reservations res
  if v.cleaning then (mgr, .wait)
  else if v.state = .pending then (mgr, .answer (.error .forkResultPending))
  else
    match v.err with
    | some e => (mgr, .answer (.error e))
    | none =>
      let children := v.childIds.filterMap mgr.find
      if mgr.batchSound v then
        if children.any fun r => stillStarting (mgr.objects r).status then
          (mgr, .answer (.error .forkResultPending))
        else (mgr, .answer (.ok children))
      else
        let (x, removed) := mgr.removeForkChildren v.childIds "managed_fork_incomplete_replay_cleanup"
          readings
        let cleaning := (x.failReservation res).modifyReservation res fun v => { v with cleaning := true }
        match cleaning.persist cfg now fault with
        | (y, true) => (y, .cleaned removed)
        | (y, false) => (y.restoreForkCleanup (mgr.captureForkCleanup v.childIds), .cleaned [])

/-- The end of the cleanup of a replay. -/
def endCleanup (res : ℕ) : Manager :=
  mgr.modifyReservation res fun v => { v with cleaning := false }

end Manager

end Nehemiah.Host
