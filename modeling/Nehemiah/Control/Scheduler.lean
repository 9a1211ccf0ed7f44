import Nehemiah.Control.Admission

/-!
# Placement

`Scheduler.reserve` and `Scheduler.release` of `scheduler/scheduler.ts`.  The placement query skips hosts
that another transaction has locked, so which of the eligible hosts it returns, if any, is an argument; the
conditions on templates and runtime cohorts only narrow the choice.  All callers pass a machine.

The releasing transactions subtract under a `GREATEST(0, …)`.  It is an argument of the model, `greatest`,
so that the system can be run without it; the code is the case `greatest0`.
-/

namespace Nehemiah.Control

open Billing (MachineState HostState HostDesiredState CredentialStatus)
open Lib

def greatest0 (n : ℤ) : ℤ := max 0 n

def validateResources (resources : Resources) : Except AdmissionError Unit :=
  if resources .vcpus ≤ 0 then .error (.fault "vcpus must be positive")
  else if resources .memoryMb ≤ 0 then .error (.fault "memoryMb must be positive")
  else if resources .diskMb ≤ 0 then .error (.fault "diskMb must be positive")
  else if 4 < resources .vcpus then .error (.fault "vcpus must not exceed 4")
  else if 4096 < resources .memoryMb then .error (.fault "memoryMb must not exceed 4096")
  else if 20480 < resources .diskMb then .error (.fault "diskMb must not exceed 20480")
  else .ok ()

structure ScheduleRequest where
  organizationId : String
  projectId : String
  region : String
  architecture : Architecture
  resources : Resources
  machineId : String

structure Reservation where
  hostId : String

/-- The clock readings of an admitting transaction: `now()`, which is the start of the transaction, the
time of the statement that reads the remaining lifetime, and that of the query for the commitments. -/
structure Times where
  began : ℤ
  readAt : ℤ
  enforcedAt : ℤ

/-- `CEIL(EXTRACT(EPOCH FROM interval))`. -/
def ceilSeconds (microseconds : ℤ) : ℤ := -(-microseconds / 1000000)

/-! ### Quotas -/

def Db.usedMachines (db : Db) (p : MachineRow → Bool) : ℤ :=
  sumWhere (fun m => p m && counted m.state) (fun _ => 1) db.machines

def Db.usedResources (db : Db) (p : MachineRow → Bool) : Resources :=
  sumWhere (fun m => p m && counted m.state) (·.resources) db.machines

def inOrganization (organizationId : String) (m : MachineRow) : Bool :=
  decide (m.organizationId = organizationId)

def inProject (projectId : String) (m : MachineRow) : Bool := decide (m.projectId = projectId)

/-- The row of a usage query. -/
structure Usage where
  machines : ℤ
  resources : Resources

def Db.usage (db : Db) (p : MachineRow → Bool) : Usage := ⟨db.usedMachines p, db.usedResources p⟩

/-- The limits admit `count` machines more that need `need` together. -/
def Limits.admits (limits : Limits) (usage : Usage) (count : ℤ) (need : Resources) : Bool :=
  decide (usage.machines + count ≤ limits.maxMachines) && (usage.resources + need).fits limits.max

/-- The comparison with the limits of the organization and of the project. -/
def checkQuota (db : Db) (organization : Organization) (project : Project) (count : ℤ) (need : Resources) :
    Except AdmissionError Unit :=
  if ¬ organization.limits.admits (db.usage (inOrganization organization.id)) count need then
    .error (.quotaExceeded "Organization machine quota would be exceeded.")
  else if ¬ project.limits.admits (db.usage (inProject project.id)) count need then
    .error (.quotaExceeded "Project machine quota would be exceeded.")
  else .ok ()

/-- The remaining seconds of the machine that is to be placed. -/
def Db.candidateSeconds (db : Db) (request : ScheduleRequest) (time : ℤ) : ℤ :=
  match db.machine? request.machineId with
  | some m =>
    if m.organizationId = request.organizationId ∧ m.projectId = request.projectId ∧ unplaced m.state then
      ceilSeconds (max (m.expiresAt - time) 0)
    else 0
  | none => 0

def enforceQuota (policy : BillingAdmissionPolicy) (db : Db) (times : Times) (request : ScheduleRequest) :
    Except AdmissionError Unit :=
  match db.organization? request.organizationId with
  | none => .error (.quotaExceeded "Organization does not exist.")
  | some organization => do
    policy.enforce db times.enforcedAt request.organizationId
      (.machine (db.candidateSeconds request times.readAt) request.resources)
    match db.project? request.projectId request.organizationId with
    | none => throw (.quotaExceeded "Project does not belong to this organization.")
    | some project => checkQuota db organization project 1 request.resources

/-! ### Reservations -/

/-- What is free on a host, by its reservations and by its own report. -/
def HostRow.free (h : HostRow) : Resources := fun r =>
  min (h.total r - h.reserved r) ((h.reportedAvailable r).getD (h.total r - h.reserved r))

/-- The host takes new machines. -/
def HostRow.accepts (h : HostRow) (now : ℤ) : Bool :=
  decide (h.state = .ready) && decide (h.desiredState = .active) && decide (h.credentialStatus = .active)
    && h.lastHeartbeatAt.any fun t => decide (now - seconds 30 < t)

/-- The condition of the placement query. -/
def HostRow.schedulable (h : HostRow) (now : ℤ) (request : ScheduleRequest) : Bool :=
  decide (h.region = request.region) && decide (h.architecture = request.architecture) && h.accepts now
    && request.resources.fits h.free

def HostRow.reserve (need : Resources) (h : HostRow) : HostRow := { h with reserved := h.reserved + need }

def HostRow.giveBack (greatest : ℤ → ℤ) (given : Resources) (h : HostRow) : HostRow :=
  { h with reserved := fun r => greatest (h.reserved r - given r) }

/-- The assignment of a machine to a host. -/
def MachineRow.place (m : MachineRow) (hostId : String) (now : ℤ) : MachineRow :=
  { m with
    hostId := some hostId
    state := .starting
    placedAt := some now
    startupDeadlineAt := some (now + seconds 120) }

/-- The placement of the request on the host that the query has returned. -/
def placeOn (db : Db) (now : ℤ) (request : ScheduleRequest) (hostId : String) :
    Except AdmissionError (Db × Reservation) :=
  match db.machine? request.machineId with
  | none => .error (.fault "machine could not be assigned atomically")
  | some m =>
    if unplaced m.state then
      .ok ((db.modifyHost hostId (HostRow.reserve request.resources)).setMachine (m.place hostId now),
        ⟨hostId⟩)
    else .error (.fault "machine could not be assigned atomically")

def reserve (policy : BillingAdmissionPolicy) (db : Db) (times : Times) (request : ScheduleRequest)
    (selected : Option String) : Except AdmissionError (Db × Reservation) := do
  validateResources request.resources
  enforceQuota policy db times request
  match selected.bind db.host? with
  | none => throw (.capacityUnavailable "No healthy host has enough reserved capacity.")
  | some host =>
    if host.schedulable times.began request then placeOn db times.began request host.id
    else throw (.capacityUnavailable "No healthy host has enough reserved capacity.")

def MachineRow.released (m : MachineRow) (now : ℤ) : MachineRow := { m with reservationReleasedAt := some now }

/-- `Scheduler.release`, and the reconciler's own `release`. -/
def release (greatest : ℤ → ℤ) (db : Db) (now : ℤ) (hostId : String) (resources : Resources)
    (machineId : String) : Db :=
  match db.machine? machineId with
  | none => db
  | some m =>
    if m.reservationReleasedAt.isSome then db
    else (db.setMachine (m.released now)).modifyHost hostId (HostRow.giveBack greatest resources)

end Nehemiah.Control
