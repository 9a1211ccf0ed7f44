import Nehemiah.Control.ForkOperations

/-!
# Calls in progress

`MachineService.create` and `MachineService.destroy` of `domain/machines.ts` and
`MachineReconciler.reconcile` of `jobs/reconcile-machines.ts`, cut at their database transactions and host
calls.  A `Call` says what a call does next and what it holds: the row it has read, the token of its claim,
its reservation, the machine that a host has returned.  Between two steps of a call anything may happen to
the rows it has read.

A host answers a create by its idempotency key, which is the id of the machine.  It remembers the key of a
machine that is gone, for as long as the daemon runs, and answers a replay with 404 then.  A request may
have its effect and lose its answer, or be lost itself; both look ambiguous to the caller.
-/

namespace Nehemiah.Control

open Billing (MachineState)
open Lib

/-! ### Hosts -/

/-- A running virtual machine. -/
structure Vm where
  hostId : String
  id : String
  leaseId : String

/-- An idempotency key that a host remembers, and the machine it was used for. -/
structure CreateKey where
  hostId : String
  key : String
  id : String

structure Fleet where
  vms : List Vm
  keys : List CreateKey

inductive Outcome
  /-- The request is carried out and answered. -/
  | answered
  /-- It is carried out and the answer is lost. -/
  | answerLost
  /-- It is lost. -/
  | requestLost
  /-- It is refused. -/
  | refused
deriving DecidableEq

/-- What the caller of `host.create` gets. -/
inductive Created
  | machine (id : String)
  | ambiguous
  | refused

namespace Fleet

def key? (f : Fleet) (hostId key : String) : Option CreateKey :=
  f.keys.find? fun k => decide (k.hostId = hostId) && decide (k.key = key)

def live (f : Fleet) (hostId id : String) : Bool :=
  f.vms.any fun v => decide (v.hostId = hostId) && decide (v.id = id)

/-- `POST /internal/v1/machines`.  `fresh` is the id of the machine if one is made; `kept` says that the
host still lists a machine that has ended. -/
def create (f : Fleet) (hostId key leaseId fresh : String) (kept : Bool) (outcome : Outcome) :
    Fleet × Created :=
  match outcome with
  | .refused => (f, .refused)
  | .requestLost => (f, .ambiguous)
  | .answered | .answerLost =>
    match f.key? hostId key with
    | some k =>
      if outcome = .answerLost then (f, .ambiguous)
      else if f.live hostId k.id || kept then (f, .machine k.id)
      else (f, .refused)
    | none =>
      ({ vms := ⟨hostId, fresh, leaseId⟩ :: f.vms
         keys := ⟨hostId, key, fresh⟩ :: f.keys },
        if outcome = .answered then .machine fresh else .ambiguous)

def remove (f : Fleet) (hostId id : String) : Fleet :=
  { f with vms := f.vms.filter fun v => !(decide (v.hostId = hostId) && decide (v.id = id)) }

/-- `DELETE /internal/v1/machines/:id`, and whether it was answered without an error; a 404 is an
error. -/
def destroy (f : Fleet) (hostId id : String) (outcome : Outcome) : Fleet × Bool :=
  match outcome with
  | .answered => (f.remove hostId id, f.live hostId id)
  | .answerLost => (f.remove hostId id, false)
  | .requestLost | .refused => (f, false)

end Fleet

/-! ### Calls -/

/-- The row that a reconcile run has claimed, and `startup_deadline_reached`. -/
structure ReconcileRow where
  machine : MachineRow
  deadlineReached : Bool

inductive Call
  -- `create`
  | findExisting (input : CreateMachine)
  | insert (input : CreateMachine) (machine : MachineRow)
  | findRaced (input : CreateMachine)
  | claim (input : CreateMachine) (machine : MachineRow)
  | reserve (input : CreateMachine) (machine : MachineRow) (token : String)
  | hostCreate (input : CreateMachine) (machine : MachineRow) (token : String) (reservation : Reservation)
  | observe (input : CreateMachine) (machine : MachineRow) (token : String) (reservation : Reservation)
      (created : HostMachine)
  | compensate (input : CreateMachine) (machine : MachineRow) (token : String) (reservation : Reservation)
      (created : HostMachine)
  | stopCompensated (machine : MachineRow) (token : String)
  | failCreate (input : CreateMachine) (machine : MachineRow) (token : String)
      (reservation : Option Reservation) (failure : Failure)
  | releaseClaim (machine : MachineRow) (token : String)
  -- `destroy`; the flag tells the calls of `reapExpiredMachines`
  | destroyFind (reaper : Bool) (id organizationId : String) (projectId : Option String)
  | destroyBegin (reaper : Bool) (machine : MachineRow)
  | destroyHost (machine : MachineRow)
  | destroyEnd (machine : MachineRow)
  -- `reconcile`
  | recover (row : ReconcileRow)
  | persist (row : ReconcileRow) (recovered : HostMachine)
  | destroyUnrecorded (row : ReconcileRow) (recovered : HostMachine)
  | hostGet (row : ReconcileRow) (hostMachineId : String)
  | markObserved (row : ReconcileRow) (observed : HostMachine)
  | reconcileDestroy (row : ReconcileRow) (hostMachineId : String) (target : MachineState)
  | finish (row : ReconcileRow) (target : MachineState)
  -- the last step of all three
  | release (hostId : String) (resources : Resources) (machineId : String)
  | returned

/-- What the surroundings contribute to a step: drawn identities, the outcome of the placement query, the
answer of a host, or the failure of a statement. -/
inductive Answer
  | none
  | identity (id leaseId : String) (serviceTime : ℤ)
  | token (token : String)
  | placement (times : Times) (selected : Option String)
  | host (outcome : Outcome) (machine : HostMachine)
  /-- `host.get` finds no machine. -/
  | gone
  /-- The end of the last period of a meter that is closed as lost. -/
  | cutoff (lossCutoff : Option ℤ)
  | fault

/-- The row of a machine that is asked for; `now` is the default of `created_at`. -/
def requestedRow (input : CreateMachine) (id leaseId : String) (now serviceTime : ℤ) : MachineRow :=
  { id := id
    organizationId := input.organizationId
    projectId := input.projectId
    region := input.region
    architecture := input.architecture
    image := input.image
    idempotencyKey := input.idempotencyKey
    idempotencyRequestHash := input.requestHash
    requestedTtlSeconds := input.ttlSeconds
    leaseId := leaseId
    resources := input.resources
    hostId := none
    hostMachineId := none
    state := .requested
    ready := false
    createClaimToken := none
    createClaimedUntil := none
    createFailure := none
    forkOperationId := none
    createdAt := now
    placedAt := none
    startedAt := none
    stoppedAt := none
    startupDeadlineAt := none
    expiresAt := serviceTime + seconds input.ttlSeconds
    reservationReleasedAt := none
    usageFinalizedAt := none }

/-- `failureForCreateError`. -/
def failureForCreateError : AdmissionError → Failure
  | .quotaExceeded message => ⟨429, "quota_exceeded", message⟩
  | .billingRejected code message => ⟨429, code, message⟩
  | .capacityUnavailable message => ⟨503, "capacity_unavailable", message⟩
  | .notForkable _ | .fault _ => ⟨500, "internal_error", "The machine request could not be completed."⟩

def hostRequestFailed : Failure :=
  ⟨502, "host_request_failed", "The selected host rejected the machine request."⟩

def internalError : Failure := ⟨500, "internal_error", "The machine request could not be completed."⟩

/-- A create that has found a machine under its key goes on when the request is the same, has not failed
and is not under way yet. -/
def resume (input : CreateMachine) (existing : MachineRow) : Call :=
  if existing.idempotencyRequestHash ≠ input.requestHash then .returned
  else if existing.createFailure.isSome then .returned
  else if existing.state ≠ .requested then .returned
  else .claim input existing

def CreateMachine.scheduleRequest (input : CreateMachine) (machineId : String) : ScheduleRequest :=
  { organizationId := input.organizationId
    projectId := input.projectId
    region := input.region
    architecture := input.architecture
    resources := input.resources
    machineId := machineId }

/-- The observation is of the machine that the row describes. -/
def HostMachine.describes (o : HostMachine) (hostMachineId : String) (row : ReconcileRow) : Bool :=
  decide (o.id = hostMachineId) && decide (o.leaseId = row.machine.leaseId)
    && decide (o.publicMachineId = row.machine.id) && decide (o.resources = row.machine.resources)

/-- What `reconcile` does with the observation of a machine. -/
def judge (row : ReconcileRow) (hostMachineId : String) : Option HostMachine → Call
  | some observed =>
    if ¬ observed.describes hostMachineId row then .returned
    else
      match observed.status with
      | .stopped => .finish row .stopped
      | .failed | .lost => .finish row .failed
      | .creating | .running =>
        if row.machine.state = .starting ∧ ¬ observed.ready ∧ row.deadlineReached then
          .reconcileDestroy row hostMachineId .failed
        else .markObserved row observed
  | none =>
    if row.machine.state = .running then .finish row .lost
    else if row.machine.state = .starting ∧ row.deadlineReached then .finish row .failed
    else .returned

/-- The start of `reconcile` for a row whose host machine is known. -/
def reconcileKnown (row : ReconcileRow) (hostMachineId : String) : Call :=
  if row.machine.state = .stopping then .reconcileDestroy row hostMachineId .stopped
  else .hostGet row hostMachineId

namespace MachineRow

variable (m : MachineRow) (now : ℤ)

/-- When a lost machine stopped: where its meter ended, or where it began. -/
def lostAt (lossCutoff : Option ℤ) : ℤ := lossCutoff.getD (m.startedAt.getD (m.placedAt.getD m.createdAt))

def finished (target : MachineState) (lossCutoff : Option ℤ) : MachineRow :=
  { m with
    state := target
    stoppedAt := some (if target = .lost then m.lostAt lossCutoff else now)
    ready := false }

def started (observed : HostMachine) : MachineRow :=
  { m with
    state := if observed.ready then .running else .starting
    ready := observed.ready
    startedAt := some (m.startedAt.getD (observed.startedAt.getD now)) }

def recovered (machine : HostMachine) : MachineRow :=
  { m with
    hostMachineId := some machine.id
    startedAt := some (m.startedAt.getD (machine.startedAt.getD now)) }

end MachineRow

/-- `finishAndRelease` without the release: the row ends, and whether it had not before. -/
def Db.finishMachine (db : Db) (now : ℤ) (row : MachineRow) (target : MachineState)
    (lossCutoff : Option ℤ) : Db × Bool :=
  match db.machine? row.id with
  | none => (db, false)
  | some m =>
    if m.leaseId = row.leaseId ∧ ¬ terminal m.state then
      (db.setMachine (m.finished now target lossCutoff), true)
    else (db, false)

/-- The writes of `reconcile` for a machine that its host has. -/
def Db.markObserved (db : Db) (now : ℤ) (row : ReconcileRow) (observed : HostMachine) : Db :=
  match db.machine? row.machine.id with
  | none => db
  | some m =>
    if m.leaseId = row.machine.leaseId ∧ m.state = row.machine.state then
      if m.state = .running then db.setMachine { m with ready := observed.ready }
      else if m.state = .starting then db.setMachine (m.started now observed)
      else db
    else db

/-- The write of the id that a replayed create has recovered, and the state of the row it is written
to. -/
def Db.persistRecovered (db : Db) (now : ℤ) (row : MachineRow) (recovered : HostMachine) :
    Db × Option MachineState :=
  match db.machine? row.id with
  | none => (db, none)
  | some m =>
    if m.leaseId = row.leaseId ∧ (m.state = .starting ∨ m.state = .stopping ∨ m.state = .running)
        ∧ (m.hostMachineId = none ∨ m.hostMachineId = some recovered.id) then
      (db.setMachine (m.recovered now recovered), some m.state)
    else (db, none)

/-! ### Steps of a call -/

def Times.ordered (t : Times) (now : ℤ) : Bool :=
  decide (t.began ≤ t.readAt) && decide (t.readAt ≤ t.enforcedAt) && decide (t.enforcedAt ≤ now)

/-- The part of the system that the steps of calls read and write. -/
structure Site where
  db : Db
  fleet : Fleet

namespace Site

variable (policy : BillingAdmissionPolicy) (greatest : ℤ → ℤ) (s : Site) (now : ℤ)

/-- `host.create` for the machine, and what the caller does with a machine or a refusal.  The client
takes an answer that does not describe the machine for an ambiguous one. -/
def hostCreate (hostId : String) (m : MachineRow) (outcome : Outcome) (answer : HostMachine)
    (created : HostMachine → Call) (refused : Call) : Site × Call :=
  let (fleet, result) := s.fleet.create hostId m.id m.leaseId answer.id (!answer.status.live) outcome
  ({ s with fleet := fleet },
    match result with
    | .machine id =>
      let machine := { answer with id := id }
      if machine.describes id ⟨m, false⟩ && fleet.live hostId id == answer.status.live then created machine
      else .returned
    | .ambiguous => .returned
    | .refused => refused)

/-- `host.destroy`, and what the caller does after an answer and after an error. -/
def hostDestroy (hostId id : String) (outcome : Outcome) (done failed : Call) : Site × Call :=
  let (fleet, ok) := s.fleet.destroy hostId id outcome
  ({ s with fleet := fleet }, if ok then done else failed)

/-- The next step of a call.  A step that does not fit the answer is none. -/
def next : Call → Answer → Option (Site × Call)
  -- `create`
  | .findExisting input, .identity id leaseId serviceTime =>
    match s.db.findByIdempotency input.organizationId input.projectId input.idempotencyKey with
    | some existing => some (s, resume input existing)
    | none => some (s, .insert input (requestedRow input id leaseId now serviceTime))
  | .insert input m, .none =>
    match s.db.insertRequested { m with createdAt := now } with
    | some db => some ({ s with db := db }, .claim input m)
    | none => some (s, .findRaced input)
  | .insert input _, .fault => some (s, .findRaced input)
  | .findRaced input, .none =>
    match s.db.findByIdempotency input.organizationId input.projectId input.idempotencyKey with
    | some raced => some (s, resume input raced)
    | none => some (s, .returned)
  | .claim input m, .token token =>
    match s.db.claimCreate now m.id token with
    | (db, some token) => some ({ s with db := db }, .reserve input m token)
    | (_, none) => some (s, .returned)
  | .reserve input m token, .placement times selected =>
    if times.ordered now then
      match Control.reserve policy s.db times (input.scheduleRequest m.id) selected with
      | .ok (db, reservation) => some ({ s with db := db }, .hostCreate input m token reservation)
      | .error e => some (s, .failCreate input m token none (failureForCreateError e))
    else none
  | .reserve input m token, .fault => some (s, .failCreate input m token none internalError)
  | .hostCreate input m token reservation, .host outcome answer =>
    some (s.hostCreate reservation.hostId m outcome answer (.observe input m token reservation)
      (.failCreate input m token (some reservation) hostRequestFailed))
  | .observe _ m _ _ created, .none => some ({ s with db := s.db.observeHost now m.id created }, .returned)
  | .observe input m token reservation created, .fault =>
    some (s, .compensate input m token reservation created)
  | .compensate input m token reservation created, .host outcome _ =>
    some (s.hostDestroy reservation.hostId created.id outcome
      (.failCreate input m token (some reservation) internalError) (.stopCompensated m token))
  | .stopCompensated m token, .none =>
    some ({ s with db := (s.db.transition now m.id [.starting, .running] .stopping).1 }, .releaseClaim m token)
  | .failCreate input m token reservation failure, .none =>
    match s.db.failCreate now m.id token failure, reservation with
    | (db, true), some r => some ({ s with db := db }, .release r.hostId input.resources m.id)
    | (db, true), none => some ({ s with db := db }, .returned)
    | (_, false), _ => some (s, .releaseClaim m token)
  | .releaseClaim m token, .none => some ({ s with db := s.db.releaseCreateClaim m.id token }, .returned)
  -- `destroy`
  | .destroyFind reaper id organizationId projectId, .none =>
    match s.db.find id organizationId projectId with
    | none => some (s, .returned)
    | some m => some (s, if terminal m.state then .returned else .destroyBegin reaper m)
  | .destroyBegin _ m, .none =>
    match s.db.transition now m.id [.requested, .placing, .starting, .running] .stopping with
    | (_, false) => some (s, .returned)
    | (db, true) =>
      some ({ s with db := db },
        match m.hostId, m.hostMachineId with
        | some _, none => .returned
        | some _, some _ => .destroyHost m
        | none, _ => .destroyEnd m)
  | .destroyHost m, .host outcome _ =>
    match m.hostId, m.hostMachineId with
    | some hostId, some hostMachineId =>
      -- a 404 counts as done
      some ((s.hostDestroy hostId hostMachineId outcome .returned .returned).1,
        if outcome = .answered then .destroyEnd m else .returned)
    | _, _ => none
  | .destroyEnd m, .none =>
    some ({ s with db := (s.db.transition now m.id [.stopping] .stopped).1 },
      match m.hostId with
      | some hostId => .release hostId m.resources m.id
      | none => .returned)
  -- `reconcile`
  | .recover row, .host outcome answer =>
    match row.machine.hostId with
    | some hostId => some (s.hostCreate hostId row.machine outcome answer (.persist row) .returned)
    | none => none
  | .persist row recovered, .none =>
    match s.db.persistRecovered now row.machine recovered with
    | (_, none) => some (s, .destroyUnrecorded row recovered)
    | (db, some state) =>
      let row := { row with
        machine := { row.machine with state := state, hostMachineId := some recovered.id } }
      some ({ s with db := db },
        if state = .stopping then .reconcileDestroy row recovered.id .stopped
        else judge row recovered.id (some recovered))
  | .destroyUnrecorded row recovered, .host outcome _ =>
    match row.machine.hostId with
    | some hostId => some (s.hostDestroy hostId recovered.id outcome .returned .returned)
    | none => none
  | .hostGet row hostMachineId, .host _ observed =>
    match row.machine.hostId with
    | some hostId =>
      if s.fleet.live hostId hostMachineId = observed.status.live then
        some (s, judge row hostMachineId (some observed))
      else none
    | none => none
  | .hostGet row hostMachineId, .gone =>
    match row.machine.hostId with
    | some hostId =>
      if s.fleet.live hostId hostMachineId then none else some (s, judge row hostMachineId none)
    | none => none
  | .markObserved row observed, .none =>
    some ({ s with db := s.db.markObserved now row observed }, .returned)
  | .reconcileDestroy row hostMachineId target, .host outcome _ =>
    match row.machine.hostId with
    | some hostId =>
      some ((s.hostDestroy hostId hostMachineId outcome .returned .returned).1,
        if outcome = .answered then .finish row target else .returned)
    | none => none
  | .finish row target, .cutoff lossCutoff =>
    match s.db.finishMachine now row.machine target lossCutoff, row.machine.hostId with
    | (db, true), some hostId =>
      some ({ s with db := db }, .release hostId row.machine.resources row.machine.id)
    | (db, true), none => some ({ s with db := db }, .returned)
    | (_, false), _ => some (s, .returned)
  | .release hostId resources machineId, .none =>
    some ({ s with db := Control.release greatest s.db now hostId resources machineId }, .returned)
  | _, _ => none

end Site

end Nehemiah.Control
