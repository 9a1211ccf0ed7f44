import Nehemiah.Control.Repository

/-!
# Fork operations

The transactions of `PostgresMachineRepository` that create the children of a fork, complete the batch, or
fail it and give back what it had reserved.  `failFork` and `completeForkCleanup` differ in what they ask
of the operation; what they write is `settleFork`.
-/

namespace Nehemiah.Control

open Billing (MachineState)
open Lib

/-- The request of a fork and the identities it draws: the operation, and a machine id and a lease id for
each child. -/
structure ForkRequest where
  sourceMachineId : String
  organizationId : String
  projectId : String
  idempotencyKey : String
  operationId : String
  children : List (String × String)

def ForkRequest.count (request : ForkRequest) : ℕ := request.children.length

/-- The row of a child. -/
def forkChild (request : ForkRequest) (source : MachineRow) (now remainingSeconds : ℤ) (ordinal : ℕ)
    (identity : String × String) : MachineRow :=
  { id := identity.1
    organizationId := request.organizationId
    projectId := request.projectId
    region := source.region
    architecture := source.architecture
    image := source.image
    idempotencyKey := "fork:" ++ request.operationId ++ ":" ++ toString ordinal
    idempotencyRequestHash := .forkChild request.count ordinal identity.1 identity.2
    requestedTtlSeconds := min remainingSeconds 86400
    leaseId := identity.2
    resources := source.resources
    hostId := source.hostId
    hostMachineId := none
    state := .starting
    ready := false
    createClaimToken := none
    createClaimedUntil := none
    createFailure := none
    forkOperationId := some request.operationId
    createdAt := now
    placedAt := some now
    startedAt := none
    stoppedAt := none
    startupDeadlineAt := some (now + seconds 120)
    expiresAt := source.expiresAt
    reservationReleasedAt := none
    usageFinalizedAt := none }

def forkOperation (request : ForkRequest) (hostId : String) : ForkOperation :=
  { id := request.operationId
    organizationId := request.organizationId
    projectId := request.projectId
    sourceMachineId := request.sourceMachineId
    sourceHostId := hostId
    idempotencyKey := request.idempotencyKey
    count := request.count
    state := .pending
    cleanupRequestedAt := none
    cleanupClaimToken := none
    cleanupClaimedUntil := none
    cleanupFailure := none
    failure := none }

namespace ForkOperation

def succeeds (o : ForkOperation) : ForkOperation := { o with state := .succeeded }

def fails (o : ForkOperation) (failure : Failure) : ForkOperation :=
  { o with
    state := .failed
    failure := some failure
    cleanupClaimToken := none
    cleanupClaimedUntil := none }

end ForkOperation

namespace Db

/-- The keys of the rows that a fork inserts are free. -/
def forkInsertable (db : Db) (request : ForkRequest) (children : List MachineRow) : Bool :=
  !(db.forkOperations.any fun o => decide (o.id = request.operationId))
    && decide (request.children.map Prod.fst).Nodup && decide (request.children.map Prod.snd).Nodup
    && children.all fun m => !db.keysTaken m

/-- The inserts of a fork and the reservation on the source's host. -/
def insertFork (db : Db) (request : ForkRequest) (source : MachineRow) (hostId : String)
    (children : List MachineRow) : Db :=
  { db with
    forkOperations := db.forkOperations ++ [forkOperation request hostId]
    machines := db.machines ++ children }.modifyHost hostId
    (HostRow.reserve (request.count • source.resources))

/-- `beginFork`; `none` when there is nothing to fork, and the flag tells a replay. -/
def beginFork (policy : BillingAdmissionPolicy) (db : Db) (times : Times) (request : ForkRequest) :
    Except AdmissionError (Db × Option (ForkOperation × Bool)) :=
  match db.organization? request.organizationId, db.project? request.projectId request.organizationId,
    db.machine? request.sourceMachineId with
  | some organization, some project, some source =>
    match source.hostId.bind db.host? with
    | none => .ok (db, none)
    | some host =>
      if source.organizationId ≠ request.organizationId ∨ source.projectId ≠ request.projectId then
        .ok (db, none)
      else
        match db.forkOperations.find? fun o => decide (o.organizationId = request.organizationId)
            && decide (o.projectId = request.projectId)
            && decide (o.sourceMachineId = request.sourceMachineId)
            && decide (o.idempotencyKey = request.idempotencyKey) with
        | some prior => .ok (db, some (prior, true))
        | none => do
          let remainingSeconds := ceilSeconds (source.expiresAt - times.readAt)
          demand (source.state = .running ∧ source.ready ∧ source.hostMachineId ≠ none
              ∧ 15 ≤ remainingSeconds)
            (.notForkable "The source machine must be current, ready, and live.")
          demand (host.accepts times.began)
            (.capacityUnavailable "The source host is not accepting new fork children.")
          checkQuota db organization project request.count (request.count • source.resources)
          policy.enforce db times.enforcedAt request.organizationId
            (.machine (max remainingSeconds 0 * request.count) source.resources)
          demand (Resources.fits (request.count • source.resources) host.free)
            (.capacityUnavailable "The source host cannot fit the entire fork batch.")
          let children := request.children.mapIdx (forkChild request source times.began remainingSeconds)
          demand (db.forkInsertable request children) (.fault "a key of the fork is taken")
          return (db.insertFork request source host.id children,
            some (forkOperation request host.id, false))
  | _, _, _ => .ok (db, none)

/-! ### Completion -/

/-- The host's observation is that of the child. -/
def matchesChild (operation : ForkOperation) (child : MachineRow) (o : HostMachine) : Bool :=
  decide (o.publicMachineId = child.id) && decide (o.leaseId = child.leaseId)
    && decide (o.parentMachineId = some operation.sourceMachineId)
    && decide (o.forkOperationId = some operation.id)
    && child.hostMachineId.all (fun id => decide (id = o.id))
    && decide (o.resources = child.resources) && decide (o.expiresAt = some child.expiresAt)

/-- The batch that the host has returned is the batch of the operation. -/
def completeBatch (db : Db) (operation : ForkOperation) (observed : List HostMachine) : Bool :=
  let expected := db.machines.filter (childOf operation.id)
  decide (observed.length = expected.length) && decide (observed.map (·.id)).Nodup
    && decide (observed.map (·.publicMachineId)).Nodup && observed.all (fun o => decide (o.id ≠ ""))
    && expected.all fun c => observed.any (matchesChild operation c)

/-- The write of a host's observation to a child. -/
def completeChild (now : ℤ) (allReady : Bool) (observed : List HostMachine) (child : MachineRow) :
    MachineRow :=
  match observed.find? fun o => decide (o.publicMachineId = child.id) with
  | none => child
  | some o =>
    { child with
      hostMachineId := some o.id
      state := if allReady then .running else child.state
      ready := allReady
      startedAt := some (child.startedAt.getD (o.startedAt.getD now)) }

/-- `completeFork`; `none` when it throws. -/
def completeFork (db : Db) (now : ℤ) (operationId : String) (observed : List HostMachine) : Option Db :=
  match db.forkOperation? operationId with
  | none => none
  | some operation =>
    if operation.state ≠ .pending ∨ operation.cleanupRequestedAt.isSome then some db
    else if ¬ db.completeBatch operation observed then none
    else if ¬ (db.machines.filter (childOf operationId)).all fun m => decide (m.state = .starting) then none
    else
      let allReady := observed.all fun o => o.ready && decide (o.status = .running)
      let db :=
        { db with
          machines := updateWhere (childOf operationId) (completeChild now allReady observed) db.machines }
      some <| if allReady then db.setForkOperation operation.succeeds else db

/-! ### Failure -/

def failChild (now : ℤ) (m : MachineRow) : MachineRow :=
  { m with state := .failed, ready := false, stoppedAt := some now, reservationReleasedAt := some now }

/-- The children fail, the host gets back what the whole batch had reserved, and the operation fails. -/
def settleFork (greatest : ℤ → ℤ) (db : Db) (now : ℤ) (operation : ForkOperation) (failure : Failure) : Db :=
  let totals := sumWhere (childOf operation.id) (·.resources) db.machines
  let db :=
    { db with
      machines := updateWhere
        (fun m => childOf operation.id m && liveState m.state)
        (failChild now) db.machines }
  (db.modifyHost operation.sourceHostId (HostRow.giveBack greatest totals)).setForkOperation
    (operation.fails failure)

def failFork (greatest : ℤ → ℤ) (db : Db) (now : ℤ) (operationId : String) (failure : Failure) : Option Db :=
  match db.forkOperation? operationId with
  | none => none
  | some operation =>
    if operation.state ≠ .pending ∨ operation.cleanupRequestedAt.isSome then some db
    else some (db.settleFork greatest now operation failure)

/-- `requestForkCleanup`: record the failure that the cleanup is for, and take the claim when it is free. -/
def requestForkCleanup (db : Db) (now : ℤ) (operationId token : String) (failure : Failure) : Option Db :=
  match db.forkOperation? operationId with
  | none => none
  | some operation =>
    if operation.state ≠ .pending then some db
    else
      let operation :=
        if operation.cleanupRequestedAt.isNone then
          { operation with cleanupRequestedAt := some now, cleanupFailure := some failure }
        else operation
      let operation :=
        if operation.cleanupClaimToken = none ∨ operation.cleanupClaimedUntil.any (fun t => decide (t ≤ now))
        then
          { operation with
            cleanupClaimToken := some token, cleanupClaimedUntil := some (now + seconds 300) }
        else operation
      some (db.setForkOperation operation)

def releaseForkCleanupClaim (db : Db) (operationId token : String) : Db :=
  match db.forkOperation? operationId with
  | none => db
  | some operation =>
    if operation.state = .pending ∧ operation.cleanupClaimToken = some token then
      db.setForkOperation { operation with cleanupClaimToken := none, cleanupClaimedUntil := none }
    else db

def completeForkCleanup (greatest : ℤ → ℤ) (db : Db) (now : ℤ) (operationId token : String) : Option Db :=
  match db.forkOperation? operationId with
  | none => none
  | some operation =>
    if operation.state ≠ .pending ∨ operation.cleanupClaimToken ≠ some token then some db
    else
      match operation.cleanupFailure with
      | none => some db
      | some failure => some (db.settleFork greatest now operation failure)

end Db

end Nehemiah.Control
