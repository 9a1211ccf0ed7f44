import Nehemiah.Control.Service
import Nehemiah.Lib.Run

/-!
# The control plane as a system

The database, the hosts, a clock, and the calls in progress.  An action is a step of one call, the start or
the death of a call, a transaction of a job or of a request that needs one transaction only, or a change
that comes from outside: a heartbeat, a machine that ends, a new limit, a row of usage.

The reconciler runs under an advisory lock and claims a machine once in a run, so no two of its calls are
about one machine; its batches, and that of the reaper, are taken row by row.  Of the fork and extend
requests only the transactions are actions, with any argument, so that every order of their steps is
among the runs.
-/

namespace Nehemiah.Control

open Billing (MachineState HostState HostDesiredState CredentialStatus)
open Lib

structure World where
  site : Site
  now : ℤ
  calls : List Call

inductive Act
  | tick (duration : ℕ)
  /-- The row of a host is inserted, or rewritten but for its reservations. -/
  | host (row : HostRow)
  | organization (row : Organization)
  | project (row : Project)
  | billingAccount (row : BillingAccount)
  | usageEvent (row : UsageEvent)
  | usageOutbox (row : UsageOutbox)
  | usageProcessed (machineId : String)
  | usageFinalized (machineId : String)
  | volume (row : Volume)
  /-- A virtual machine ends by itself: its lifetime is over, or it has crashed. -/
  | vmEnds (hostId id : String)
  | create (input : CreateMachine)
  | destroy (id organizationId : String) (projectId : Option String)
  | call (i : ℕ) (answer : Answer)
  | abort (i : ℕ)
  -- the reconciler
  | markLost (lossCutoff : String → Option ℤ)
  | selectLeaked (id : String)
  | claimReconcile (id : String)
  -- the reaper
  | selectExpired (id : String)
  -- single transactions
  | beginExtend (admittedAt enforcedAt : ℤ) (machineId organizationId projectId idempotencyKey : String)
      (ttlSeconds : ℤ)
  | completeExtend (operationId : ℕ) (machineId organizationId : String) (resultExpiresAt : ℤ)
  | beginFork (times : Times) (request : ForkRequest)
  | completeFork (operationId : String) (observed : List HostMachine)
  | failFork (operationId : String) (failure : Failure)
  | requestForkCleanup (operationId token : String) (failure : Failure)
  | releaseForkCleanupClaim (operationId token : String)
  | completeForkCleanup (operationId token : String)

/-- The checks that `create` makes before it reads anything. -/
def CreateMachine.valid (input : CreateMachine) : Bool :=
  (validateResources input.resources).isOk && decide (15 ≤ input.ttlSeconds)
    && decide (input.ttlSeconds ≤ 86400)

/-- The machine that a call of the reconciler is about. -/
def Call.reconciles : Call → Option String
  | .recover row | .persist row _ | .destroyUnrecorded row _ | .hostGet row _ | .markObserved row _
  | .reconcileDestroy row _ _ | .finish row _ => some row.machine.id
  | _ => none

namespace Db

/-- The write of a host's row; its reservations are those of the row that is there. -/
def putHost (db : Db) (row : HostRow) : Db :=
  match db.host? row.id with
  | some h => db.modifyHost row.id fun _ => { row with reserved := h.reserved }
  | none => { db with hosts := db.hosts ++ [{ row with reserved := 0 }] }

def putOrganization (db : Db) (row : Organization) : Db :=
  match db.organization? row.id with
  | some _ =>
    { db with organizations := updateWhere (fun o => decide (o.id = row.id)) (fun _ => row) db.organizations }
  | none => { db with organizations := db.organizations ++ [row] }

def putProject (db : Db) (row : Project) : Option Db :=
  match db.projects.find? fun p => decide (p.id = row.id) with
  | some p =>
    if p.organizationId = row.organizationId then
      some { db with projects := updateWhere (fun p => decide (p.id = row.id)) (fun _ => row) db.projects }
    else none
  | none => some { db with projects := db.projects ++ [row] }

def putBillingAccount (db : Db) (row : BillingAccount) : Db :=
  { db with billingAccounts :=
      row :: db.billingAccounts.filter fun a => !decide (a.organizationId = row.organizationId) }

/-- Usage is recorded of machines that have been placed. -/
def placed (db : Db) (machineId : String) : Bool :=
  (db.machine? machineId).any fun m => m.placedAt.isSome && !unplaced m.state

/-- The machines of `markLostOnStaleHosts`. -/
def onStaleHost (db : Db) (m : MachineRow) : Bool :=
  !terminal m.state && !db.forkIs .pending m
    && (m.hostId.bind db.host?).any fun h => decide (h.state = .stale)

/-- The transaction of `markLostOnStaleHosts`. -/
def markLost (db : Db) (now : ℤ) (lossCutoff : String → Option ℤ) : Db :=
  { db with
    machines := updateWhere db.onStaleHost
      (fun m => m.finished now .lost (lossCutoff m.id)) db.machines }

/-- The condition of `claimReconcileBatch`, but for the times and the claims. -/
def reconcilable (db : Db) (m : MachineRow) (now : ℤ) : Bool :=
  (decide (m.state = .starting) || decide (m.state = .stopping) || decide (m.state = .running))
    && (m.hostId.bind db.host?).isSome && !db.forkIs .pending m
    && (decide (m.state = .running) || m.placedAt.any fun t => decide (t < now - seconds 15))

/-- The condition of the reaper's query. -/
def expired (db : Db) (m : MachineRow) (now : ℤ) : Bool :=
  decide (db.committedUntil m ≤ now) && !terminal m.state && !db.forkIs .pending m

end Db

/-- The call that `reconcile` is for the row that the batch has returned. -/
def reconcileCall (m : MachineRow) (now : ℤ) : Call :=
  let deadline := m.startupDeadlineAt.getD (m.placedAt.getD m.createdAt + seconds 120)
  let row : ReconcileRow := ⟨m, decide (deadline ≤ now)⟩
  match m.hostMachineId with
  | none => .recover row
  | some hostMachineId => reconcileKnown row hostMachineId

/-- The reconciler's release of a row that it has read. -/
def releaseCall (m : MachineRow) : Call :=
  match m.hostId with
  | some hostId => .release hostId m.resources m.id
  | none => .returned

namespace World

variable (policy : BillingAdmissionPolicy) (greatest : ℤ → ℤ) (w : World)

abbrev db : Db := w.site.db

abbrev fleet : Fleet := w.site.fleet

def withDb (db : Db) : World := { w with site := { w.site with db := db } }

def withCalls (calls : List Call) : World := { w with calls := w.calls ++ calls }

/-- The next state of the system, if the action is possible. -/
def step : Act → Option World
  | .tick duration => some { w with now := w.now + duration }
  | .host row => if Resources.fits 1 row.total then some (w.withDb (w.db.putHost row)) else none
  | .organization row => if row.limits.valid then some (w.withDb (w.db.putOrganization row)) else none
  | .project row =>
    if row.limits.valid ∧ (w.db.organization? row.organizationId).isSome then
      (w.db.putProject row).map w.withDb
    else none
  | .billingAccount row => some (w.withDb (w.db.putBillingAccount row))
  | .usageEvent row =>
    if row.machineId.all w.db.placed then
      some (w.withDb { w.db with usageEvents := w.db.usageEvents ++ [row] })
    else none
  | .usageOutbox row =>
    if w.db.placed row.machineId then
      some (w.withDb { w.db with usageOutbox := w.db.usageOutbox ++ [row] })
    else none
  | .usageProcessed machineId =>
    some (w.withDb { w.db with
      usageOutbox := updateWhere (fun o => decide (o.machineId = machineId))
        (fun o => { o with processedAt := some w.now }) w.db.usageOutbox })
  | .usageFinalized machineId =>
    (w.db.machine? machineId).map fun m => w.withDb (w.db.setMachine { m with usageFinalizedAt := some w.now })
  | .volume row => some (w.withDb { w.db with volumes := w.db.volumes ++ [row] })
  | .vmEnds hostId id => some { w with site := { w.site with fleet := w.fleet.remove hostId id } }
  | .create input => if input.valid then some (w.withCalls [.findExisting input]) else none
  | .destroy id organizationId projectId =>
    some (w.withCalls [.destroyFind false id organizationId projectId])
  | .call i answer =>
    match w.calls[i]? with
    | none => none
    | some c =>
      (w.site.next policy greatest w.now c answer).map fun (site, c') =>
        { w with site := site, calls := w.calls.set i c' }
  | .abort i => some { w with calls := w.calls.set i .returned }
  | .markLost lossCutoff =>
    some ((w.withDb (w.db.markLost w.now lossCutoff)).withCalls
      ((w.db.machines.filter w.db.onStaleHost).map releaseCall))
  | .selectLeaked id =>
    match w.db.machine? id with
    | some m =>
      if terminal m.state ∧ m.reservationReleasedAt = none then some (w.withCalls [releaseCall m]) else none
    | none => none
  | .claimReconcile id =>
    match w.db.machine? id with
    | some m =>
      if w.db.reconcilable m w.now && w.calls.all fun c => decide (c.reconciles ≠ some id) then
        some (w.withCalls [reconcileCall m w.now])
      else none
    | none => none
  | .selectExpired id =>
    match w.db.machine? id with
    | some m =>
      if w.db.expired m w.now then
        some (w.withCalls [.destroyFind true m.id m.organizationId (some m.projectId)])
      else none
    | none => none
  | .beginExtend admittedAt enforcedAt machineId organizationId projectId idempotencyKey ttlSeconds =>
    if admittedAt ≤ enforcedAt ∧ enforcedAt ≤ w.now ∧ 15 ≤ ttlSeconds ∧ ttlSeconds ≤ 86400 then
      match w.db.beginExtend policy admittedAt enforcedAt machineId organizationId projectId idempotencyKey
          ttlSeconds with
      | .ok (db, _) => some (w.withDb db)
      | .error _ => some w
    else none
  | .completeExtend operationId machineId organizationId resultExpiresAt =>
    match w.db.completeExtend operationId machineId organizationId resultExpiresAt with
    | some (db, _) => some (w.withDb db)
    | none => some w
  | .beginFork times request =>
    if times.ordered w.now ∧ 1 ≤ request.count ∧ request.count ≤ 8 then
      match w.db.beginFork policy times request with
      | .ok (db, _) => some (w.withDb db)
      | .error _ => some w
    else none
  | .completeFork operationId observed =>
    some (((w.db.completeFork w.now operationId observed).map w.withDb).getD w)
  | .failFork operationId failure =>
    some (((w.db.failFork greatest w.now operationId failure).map w.withDb).getD w)
  | .requestForkCleanup operationId token failure =>
    some (((w.db.requestForkCleanup w.now operationId token failure).map w.withDb).getD w)
  | .releaseForkCleanupClaim operationId token =>
    some (w.withDb (w.db.releaseForkCleanupClaim operationId token))
  | .completeForkCleanup operationId token =>
    some (((w.db.completeForkCleanup greatest w.now operationId token).map w.withDb).getD w)

end World

def Step (policy : BillingAdmissionPolicy) (greatest : ℤ → ℤ) (w : World) (a : Act) (w' : World) : Prop :=
  w.step policy greatest a = some w'

/-- Nothing is there yet. -/
def World.empty (now : ℤ) : World :=
  { site :=
      { db := ⟨[], [], [], [], [], [], [], [], [], []⟩
        fleet := ⟨[], []⟩ }
    now := now
    calls := [] }

end Nehemiah.Control
