import Nehemiah.Control.Scheduler

/-!
# The machine repository

The transactions of `PostgresMachineRepository` in `domain/machines.ts`.  Each is one function on the
database; `now` is the transaction's `now()`.  An update that carries conditions in its `WHERE` finds the
row first and writes it when the conditions hold.

`assign` is for a reservation that has not committed the assignment; one for a machine always has.  A fork
operation's rows of `machine_fork_children` repeat the identity of the machines that carry its id and are not kept
apart.
-/

namespace Nehemiah.Control

open Billing (MachineState)
open Lib

inductive HostMachineStatus
  | creating | running | stopped | failed | lost
deriving DecidableEq

def HostMachineStatus.live : HostMachineStatus → Bool
  | .creating | .running => true
  | .stopped | .failed | .lost => false

/-- What a host says of one of its machines. -/
structure HostMachine where
  id : String
  status : HostMachineStatus
  leaseId : String
  publicMachineId : String
  parentMachineId : Option String
  forkOperationId : Option String
  resources : Resources
  ready : Bool
  startedAt : Option ℤ
  expiresAt : Option ℤ

/-! ### Writes of a machine -/

namespace MachineRow

variable (m : MachineRow) (now : ℤ)

def claimed (token : String) : MachineRow :=
  { m with createClaimToken := some token, createClaimedUntil := some (now + seconds 300) }

def unclaimed : MachineRow := { m with createClaimToken := none, createClaimedUntil := none }

def createFailed (failure : Failure) : MachineRow :=
  { m with
    state := .failed
    stoppedAt := some now
    ready := false
    createFailure := some failure
    createClaimToken := none
    createClaimedUntil := none }

def observed (hostMachine : HostMachine) : MachineRow :=
  { m with
    hostMachineId := some hostMachine.id
    state := if hostMachine.ready then .running else .starting
    ready := hostMachine.ready
    startedAt := some (hostMachine.startedAt.getD (m.startedAt.getD now))
    createClaimToken := none
    createClaimedUntil := none }

def moved (target : MachineState) : MachineRow :=
  { m with
    state := target
    stoppedAt := if terminal target then some now else m.stoppedAt
    ready := decide (target = .running) && m.ready
    createClaimToken := if terminal target then none else m.createClaimToken
    createClaimedUntil := if terminal target then none else m.createClaimedUntil }

end MachineRow

namespace Db

/-! ### Reads -/

def find (db : Db) (id organizationId : String) (projectId : Option String) : Option MachineRow :=
  (db.machine? id).filter fun m =>
    decide (m.organizationId = organizationId) && projectId.all (fun p => decide (m.projectId = p))
      && (m.forkOperationId.isNone || db.forkIs .succeeded m)

def findByIdempotency (db : Db) (organizationId projectId key : String) : Option MachineRow :=
  db.machines.find? fun m => decide (m.organizationId = organizationId) && decide (m.projectId = projectId)
    && decide (m.idempotencyKey = key)

/-- `list`: a page of at most a hundred machines, in descending order of their ids. -/
def list (db : Db) (organizationId : String) (projectId cursor : Option String) (limit : ℤ) : List MachineRow :=
  let rows := db.machines.filter fun m =>
    decide (m.organizationId = organizationId) && projectId.all (fun p => decide (m.projectId = p))
      && cursor.all (fun c => decide (m.id < c)) && (m.forkOperationId.isNone || db.forkIs .succeeded m)
  (rows.mergeSort fun a b => decide (b.id ≤ a.id)).take (min (max limit 1) 100).toNat

/-! ### Creation -/

/-- A unique key of `machines` keeps the row out: its id, its lease, or its idempotency key. -/
def keysTaken (db : Db) (m : MachineRow) : Bool :=
  db.machines.any fun x => decide (x.id = m.id) || decide (x.leaseId = m.leaseId)
    || decide (x.organizationId = m.organizationId) && decide (x.projectId = m.projectId)
      && decide (x.idempotencyKey = m.idempotencyKey)

/-- `insertRequested`; `none` when a key is taken, the project is unknown, or a check constraint rejects
the resources. -/
def insertRequested (db : Db) (m : MachineRow) : Option Db :=
  if db.keysTaken m || (db.project? m.projectId m.organizationId).isNone
      || !(Resources.fits 1 m.resources) then none
  else some { db with machines := db.machines ++ [m] }

def claimCreate (db : Db) (now : ℤ) (id token : String) : Db × Option String :=
  match db.machine? id with
  | none => (db, none)
  | some m =>
    if m.state = .requested ∧ m.createFailure = none
        ∧ (m.createClaimToken = none ∨ m.createClaimedUntil.any fun t => decide (t ≤ now)) then
      (db.setMachine (m.claimed now token), some token)
    else (db, none)

def releaseCreateClaim (db : Db) (id token : String) : Db :=
  match db.machine? id with
  | none => db
  | some m => if m.createClaimToken = some token then db.setMachine m.unclaimed else db

def failCreate (db : Db) (now : ℤ) (id token : String) (failure : Failure) : Db × Bool :=
  match db.machine? id with
  | none => (db, false)
  | some m =>
    if m.createClaimToken = some token ∧ (unplaced m.state ∨ m.state = .starting) then
      (db.setMachine (m.createFailed now failure), true)
    else (db, false)

/-- `assign`; `none` when it throws. -/
def assign (db : Db) (now : ℤ) (id hostId : String) : Option Db :=
  match db.machine? id with
  | none => none
  | some m => if unplaced m.state then some (db.setMachine (m.place hostId now)) else none

def observeHost (db : Db) (now : ℤ) (id : String) (hostMachine : HostMachine) : Db :=
  match db.machine? id with
  | none => db
  | some m => if m.state = .starting then db.setMachine (m.observed now hostMachine) else db

def transition (db : Db) (now : ℤ) (id : String) (source : List MachineState) (target : MachineState) :
    Db × Bool :=
  match db.machine? id with
  | none => (db, false)
  | some m => if m.state ∈ source then (db.setMachine (m.moved now target), true) else (db, false)

/-! ### Extension -/

/-- `target_expires_at` and `additional_seconds`; `admittedAt` is the admission clock. -/
def extendTarget (committedUntil admittedAt ttlSeconds : ℤ) : ℤ × ℤ :=
  let target := max committedUntil (admittedAt + seconds ttlSeconds)
  (target, ceilSeconds (max (target - max committedUntil admittedAt) 0))

/-- `beginExtend`; `none` for a machine that cannot be extended, and the flag tells a replay. -/
def beginExtend (policy : BillingAdmissionPolicy) (db : Db) (admittedAt enforcedAt : ℤ)
    (machineId organizationId projectId idempotencyKey : String) (ttlSeconds : ℤ) :
    Except AdmissionError (Db × Option (ExtendOperation × Bool)) :=
  match db.organization? organizationId, db.machine? machineId with
  | some _, some m =>
    if m.organizationId ≠ organizationId ∨ m.projectId ≠ projectId then .ok (db, none)
    else
      match db.extendOperations.find? fun o => decide (o.organizationId = organizationId)
          && decide (o.machineId = machineId) && decide (o.idempotencyKey = idempotencyKey) with
      | some prior => .ok (db, some (prior, true))
      | none =>
        if ¬ liveState m.state ∨ m.hostId = none ∨ m.hostMachineId = none then
          .ok (db, none)
        else do
          let (target, additionalSeconds) := extendTarget (db.committedUntil m) admittedAt ttlSeconds
          policy.enforce db enforcedAt organizationId (.machine additionalSeconds m.resources)
          let operation : ExtendOperation :=
            { id := db.extendOperations.length
              organizationId := organizationId
              projectId := projectId
              machineId := machineId
              idempotencyKey := idempotencyKey
              ttlSeconds := ttlSeconds
              targetExpiresAt := target
              resultExpiresAt := none }
          return ({ db with extendOperations := db.extendOperations ++ [operation] },
            some (operation, false))
  | _, _ => .ok (db, none)

/-- The write of the result to the operation, unless it is complete. -/
def recordExtend (db : Db) (operationId : ℕ) (resultExpiresAt : ℤ) : Db :=
  { db with
    extendOperations := updateWhere
      (fun o => decide (o.id = operationId) && o.resultExpiresAt.isNone)
      (fun o => { o with resultExpiresAt := some resultExpiresAt }) db.extendOperations }

/-- `completeExtend`; `none` when the machine or the operation is missing. -/
def completeExtend (db : Db) (operationId : ℕ) (machineId organizationId : String) (resultExpiresAt : ℤ) :
    Option (Db × ℤ) :=
  match db.machine? machineId,
    db.extendOperations.find? fun o => decide (o.id = operationId) && decide (o.machineId = machineId)
      && decide (o.organizationId = organizationId) with
  | some m, some operation =>
    if m.organizationId ≠ organizationId then none
    else
      let recorded := operation.resultExpiresAt.getD resultExpiresAt
      let db := db.recordExtend operationId resultExpiresAt
      if terminal m.state then some (db, recorded)
      else some (db.setMachine { m with expiresAt := max m.expiresAt recorded }, recorded)
  | _, _ => none

end Db

end Nehemiah.Control
