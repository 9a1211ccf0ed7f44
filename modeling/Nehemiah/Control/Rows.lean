import Mathlib
import Nehemiah.Billing.Store
import Nehemiah.Lib.Table

/-!
# The tables of the control plane

The rows that the scheduler, the machine repository, the reconciler and the admission policy read and
write.  A table is the list of its rows; the primary keys are part of the invariants of the modules above.
A timestamp is an integer of microseconds, the resolution of the database.

The three resource columns of a machine, and the three of each kind that a host, a project and an
organization have, are one function on `Resource`.

`idempotency_request_hash` holds a SHA-256 digest; the model keeps the request that is digested, as a
digest that no two requests share.  Columns that no modelled function reads (names of templates, network
policies, state reasons, the stopping and ready times) are left out.
-/

namespace Nehemiah.Control

open Billing (MachineState HostState HostDesiredState CredentialStatus)
open Lib

def seconds (n : ℤ) : ℤ := n * 1000000

inductive Resource
  | vcpus | memoryMb | diskMb
deriving DecidableEq

instance : Fintype Resource where
  elems := {.vcpus, .memoryMb, .diskMb}
  complete r := by cases r <;> decide

abbrev Resources := Resource → ℤ

def Resources.of (vcpus memoryMb diskMb : ℤ) : Resources
  | .vcpus => vcpus
  | .memoryMb => memoryMb
  | .diskMb => diskMb

/-- `need` fits into `free`, resource by resource. -/
def Resources.fits (need free : Resources) : Bool := decide (∀ r, need r ≤ free r)

inductive Architecture
  | x8664 | aarch64
deriving DecidableEq

/-- What a machine boots from: a built-in template or a published one. -/
inductive Image
  | template (name : String)
  | templateId (id : String)
deriving DecidableEq

/-- `CreateMachine`.  A managed network policy other than `off` and an OCI reference are rejected before
anything is read, so the request carries neither. -/
structure CreateMachine where
  organizationId : String
  projectId : String
  region : String
  architecture : Architecture
  resources : Resources
  image : Image
  ttlSeconds : ℤ
  idempotencyKey : String
  deriving DecidableEq

/-- The fields of a create that its request hash digests. -/
structure HashedRequest where
  projectId : String
  region : String
  architecture : Architecture
  resources : Resources
  image : Image
  ttlSeconds : ℤ
  deriving DecidableEq

inductive RequestHash
  | create (request : HashedRequest)
  /-- `${requestHash}:${ordinal}:${machineId}:${leaseId}` of a fork child. -/
  | forkChild (count : ℤ) (ordinal : ℕ) (machineId leaseId : String)
  deriving DecidableEq

def CreateMachine.requestHash (input : CreateMachine) : RequestHash :=
  .create
    { projectId := input.projectId
      region := input.region
      architecture := input.architecture
      resources := input.resources
      image := input.image
      ttlSeconds := input.ttlSeconds }

/-- `create_failure_status`, `create_failure_code` and `create_failure_message`, which are written
together; also the failure of a fork operation. -/
structure Failure where
  status : ℕ
  code : String
  message : String
deriving DecidableEq

structure MachineRow where
  id : String
  organizationId : String
  projectId : String
  region : String
  architecture : Architecture
  image : Image
  idempotencyKey : String
  idempotencyRequestHash : RequestHash
  requestedTtlSeconds : ℤ
  leaseId : String
  resources : Resources
  hostId : Option String
  hostMachineId : Option String
  state : MachineState
  ready : Bool
  createClaimToken : Option String
  createClaimedUntil : Option ℤ
  createFailure : Option Failure
  forkOperationId : Option String
  createdAt : ℤ
  placedAt : Option ℤ
  startedAt : Option ℤ
  stoppedAt : Option ℤ
  startupDeadlineAt : Option ℤ
  expiresAt : ℤ
  reservationReleasedAt : Option ℤ
  usageFinalizedAt : Option ℤ
  deriving DecidableEq

structure HostRow where
  id : String
  region : String
  architecture : Architecture
  state : HostState
  desiredState : HostDesiredState
  credentialStatus : CredentialStatus
  lastHeartbeatAt : Option ℤ
  total : Resources
  reserved : Resources
  reportedAvailable : Resource → Option ℤ

structure Limits where
  maxMachines : ℤ
  max : Resources
  deriving DecidableEq

/-- The check constraints of the limits. -/
def Limits.valid (limits : Limits) : Bool := decide (0 ≤ limits.maxMachines) && Resources.fits 0 limits.max

structure Organization where
  id : String
  limits : Limits
  deriving DecidableEq

structure Project where
  id : String
  organizationId : String
  limits : Limits

/-- A row of `machine_extend_operations`; it is complete when it has a result. -/
structure ExtendOperation where
  id : ℕ
  organizationId : String
  projectId : String
  machineId : String
  idempotencyKey : String
  /-- The digested request: the machine is `machineId`. -/
  ttlSeconds : ℤ
  targetExpiresAt : ℤ
  resultExpiresAt : Option ℤ

inductive ForkOperationState
  | pending | succeeded | failed
deriving DecidableEq

structure ForkOperation where
  id : String
  organizationId : String
  projectId : String
  sourceMachineId : String
  sourceHostId : String
  idempotencyKey : String
  /-- The digested request: the source is `sourceMachineId`. -/
  count : ℤ
  state : ForkOperationState
  cleanupRequestedAt : Option ℤ
  cleanupClaimToken : Option String
  cleanupClaimedUntil : Option ℤ
  cleanupFailure : Option Failure
  failure : Option Failure
deriving DecidableEq

/-! ### Billing -/

inductive MeterDimension
  | vcpuSeconds | gibSeconds | storageGibHours | egressBytes | inferenceUnits
deriving DecidableEq

def meterDimensions : List MeterDimension :=
  [.vcpuSeconds, .gibSeconds, .storageGibHours, .egressBytes, .inferenceUnits]

/-- A decimal of the database: `unscaled` with the point before its last `scale` digits. -/
structure Numeric where
  unscaled : ℤ
  scale : ℕ

structure BillingAccount where
  organizationId : String
  plan : String
  spendCapCents : Option ℤ
  delinquentAt : Option ℤ
deriving DecidableEq

structure UsageEvent where
  organizationId : String
  machineId : Option String
  dimension : MeterDimension
  quantity : Numeric
  periodEnd : ℤ

structure UsageOutbox where
  organizationId : String
  machineId : String
  vcpus : ℤ
  memoryMb : ℤ
  periodStart : ℤ
  periodEnd : ℤ
  processedAt : Option ℤ

structure Volume where
  organizationId : String
  sizeLimitBytes : ℤ
  expiresAt : ℤ
  deletedAt : Option ℤ

structure Db where
  organizations : List Organization
  projects : List Project
  hosts : List HostRow
  machines : List MachineRow
  extendOperations : List ExtendOperation
  forkOperations : List ForkOperation
  billingAccounts : List BillingAccount
  usageEvents : List UsageEvent
  usageOutbox : List UsageOutbox
  volumes : List Volume

/-! ### States of a machine -/

/-- `('stopped', 'failed', 'lost')`. -/
def terminal : MachineState → Bool
  | .stopped | .failed | .lost => true
  | _ => false

/-- `('requested', 'placing')`. -/
def unplaced : MachineState → Bool
  | .requested | .placing => true
  | _ => false

/-- `('starting', 'running')`. -/
def liveState : MachineState → Bool
  | .starting | .running => true
  | _ => false

/-- `NOT IN ('requested', 'placing', 'stopped', 'failed', 'lost')`. -/
def counted (s : MachineState) : Bool := !unplaced s && !terminal s

/-! ### Lookups and writes by key -/

namespace Db

def machine? (db : Db) (id : String) : Option MachineRow := db.machines.find? fun m => decide (m.id = id)

def host? (db : Db) (id : String) : Option HostRow := db.hosts.find? fun h => decide (h.id = id)

def organization? (db : Db) (id : String) : Option Organization :=
  db.organizations.find? fun o => decide (o.id = id)

def project? (db : Db) (id organizationId : String) : Option Project :=
  db.projects.find? fun p => decide (p.id = id) && decide (p.organizationId = organizationId)

def forkOperation? (db : Db) (id : String) : Option ForkOperation :=
  db.forkOperations.find? fun o => decide (o.id = id)

/-- Write the row of a machine. -/
def setMachine (db : Db) (m : MachineRow) : Db :=
  { db with machines := updateWhere (fun x => decide (x.id = m.id)) (fun _ => m) db.machines }

def modifyHost (db : Db) (id : String) (f : HostRow → HostRow) : Db :=
  { db with hosts := updateWhere (fun h => decide (h.id = id)) f db.hosts }

def setForkOperation (db : Db) (o : ForkOperation) : Db :=
  { db with forkOperations := updateWhere (fun x => decide (x.id = o.id)) (fun _ => o) db.forkOperations }

/-- `EXISTS (SELECT 1 FROM machine_fork_operations … AND fork.state = s)`. -/
def forkIs (db : Db) (s : ForkOperationState) (m : MachineRow) : Bool :=
  match m.forkOperationId with
  | none => false
  | some id => db.forkOperations.any fun o => decide (o.id = id) && decide (o.state = s)

/-- The machines of a fork operation. -/
def childOf (operationId : String) (m : MachineRow) : Bool := decide (m.forkOperationId = some operationId)

end Db

end Nehemiah.Control
