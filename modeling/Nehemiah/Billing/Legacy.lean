import Nehemiah.Billing.Ledger

/-!
# Legacy metering

`MachineReconciler.enqueueUsageIntervals` of `jobs/reconcile-machines.ts` writes the usage of machines
whose hosts do not report observations: a final interval for a machine that has ended, a checkpoint for a
running one whose last interval is five minutes old.  Its rows and those of `closeLegacyPrefix` share the
table `usage_outbox`; the latter are `Db.cutovers`.

Each of its two queries is a `SELECT … FOR UPDATE SKIP LOCKED` under read committed.  Such a statement
works on two states of the database.  Which rows are candidates, the `NOT EXISTS` subqueries included, is
decided on the snapshot the statement starts with.  When it comes to lock a candidate, a row that a
transaction has changed and committed in the meantime is read again and the condition on the row is tested
again; the other tables of the condition are still those of the snapshot.  So a candidate is chosen by
`selects` in one state and written by `enqueue` in a later one.
-/

namespace Nehemiah.Billing

open Nehemiah.Lib

/-- `machine:${id}:final:${end}` and `machine:${id}:checkpoint:${end}`. -/
inductive OutboxKey
  | final (machineId : String) (periodEnd : ℤ)
  | checkpoint (machineId : String) (periodEnd : ℤ)
deriving DecidableEq

/-- A row that the reconciler writes to `usage_outbox`. -/
structure OutboxRow where
  eventKey : OutboxKey
  organizationId : String
  projectId : String
  machineId : String
  vcpus : ℕ
  memoryMb : ℕ
  periodStart : ℤ
  periodEnd : ℤ
  final : Bool

/-- The tables of legacy metering: those of the metering database, the reconciler's rows of
`usage_outbox`, and the columns of `machines` that only legacy metering reads. -/
structure LegacyDb where
  db : Db
  stoppedAt : String → Option ℤ
  usageQuarantineReason : String → Option String
  outbox : List OutboxRow

/-- The two queries. -/
inductive UsageInterval
  | terminal | active
deriving DecidableEq

/-- `COALESCE(usage_checkpoint_at, started_at)`. -/
def MachineRow.usageStart (m : MachineRow) : Option ℤ := m.usageCheckpointAt.orElse fun _ => m.startedAt

/-- The condition of a query on the machine row; `now` is the transaction's. -/
def LegacyDb.rowMatches (l : LegacyDb) (now : ℤ) (interval : UsageInterval) (id : String) : Bool :=
  match l.db.machines id with
  | none => false
  | some m =>
    m.startedAt.isSome && (l.usageQuarantineReason id).isNone &&
      match interval with
      | .terminal => (m.state == .stopped || m.state == .failed || m.state == .lost)
          && (l.stoppedAt id).isSome && m.usageFinalizedAt.isNone
      | .active => m.state == .running && m.usageStart.any (· < now - 300000)

def LegacyDb.startSeen (l : LegacyDb) (id : String) : Bool :=
  (l.db.meterStates id).any (·.startSeen)

/-- The `NOT EXISTS` subqueries of a query. -/
def LegacyDb.subqueriesMatch (l : LegacyDb) (excludeAuthoritativeLeases : Bool)
    (interval : UsageInterval) (id : String) : Bool :=
  (!excludeAuthoritativeLeases || !l.startSeen id) &&
    match interval with
    | .terminal => !l.outbox.any fun o => o.machineId == id && o.final
    | .active => true

/-- The machine is a candidate of the query, on the snapshot `l`. -/
def LegacyDb.selects (l : LegacyDb) (excludeAuthoritativeLeases : Bool) (now : ℤ)
    (interval : UsageInterval) (id : String) : Bool :=
  l.rowMatches now interval id && l.subqueriesMatch excludeAuthoritativeLeases interval id

/-- A candidate that its query has yet to lock; `checkpointEnd` is the transaction's `now()`. -/
structure Selection where
  interval : UsageInterval
  machineId : String
  checkpointEnd : ℤ
deriving DecidableEq

def outboxRow (id : String) (m : MachineRow) (key : OutboxKey) (periodStart periodEnd : ℤ)
    (final : Bool) : OutboxRow :=
  { eventKey := key
    organizationId := m.organizationId
    projectId := m.projectId
    machineId := id
    vcpus := m.vcpus
    memoryMb := m.memoryMb
    periodStart := periodStart
    periodEnd := periodEnd
    final := final }

/-- `UPDATE machines SET usage_checkpoint_at = $2 WHERE id = $1`. -/
def LegacyDb.checkpoint (l : LegacyDb) (id : String) (t : ℤ) : LegacyDb :=
  { l with db :=
    { l.db with machines := Function.update l.db.machines id <| (l.db.machines id).map fun m =>
        { m with usageCheckpointAt := some t } } }

/-- One turn of the loop over the terminal rows. -/
def LegacyDb.enqueueTerminal (l : LegacyDb) (id : String) (m : MachineRow)
    (periodStart periodEnd checkpointEnd : ℤ) : LegacyDb :=
  if periodEnd < periodStart then
    { l with usageQuarantineReason :=
        Function.update l.usageQuarantineReason id (some "usage interval starts after it ends") }
  else if checkpointEnd + 30000 < periodEnd then
    { l with usageQuarantineReason :=
        Function.update l.usageQuarantineReason id (some "usage interval ends in the future") }
  else
    let key := .final id periodEnd
    let l :=
      if l.outbox.any (·.eventKey == key) then l
      else { l with outbox := l.outbox ++ [outboxRow id m key periodStart periodEnd true] }
    l.checkpoint id periodEnd

/-- One turn of the loop over the active rows.  An event key that is taken aborts the transaction. -/
def LegacyDb.enqueueActive (l : LegacyDb) (id : String) (m : MachineRow)
    (periodStart checkpointEnd : ℤ) : LegacyDb :=
  let key := .checkpoint id checkpointEnd
  if l.outbox.any (·.eventKey == key) then l
  else
    { l with outbox := l.outbox ++ [outboxRow id m key periodStart checkpointEnd false] }.checkpoint id
      checkpointEnd

/-- What a query does with a candidate when it locks the row. -/
def LegacyDb.enqueue (l : LegacyDb) (sel : Selection) : LegacyDb :=
  if l.rowMatches sel.checkpointEnd sel.interval sel.machineId then
    match l.db.machines sel.machineId with
    | none => l
    | some m =>
      match m.usageStart, sel.interval with
      | some periodStart, .terminal =>
        match l.stoppedAt sel.machineId with
        | some periodEnd => l.enqueueTerminal sel.machineId m periodStart periodEnd sel.checkpointEnd
        | none => l
      | some periodStart, .active => l.enqueueActive sel.machineId m periodStart sel.checkpointEnd
      | none, _ => l
  else l

/-! ### The system -/

inductive CutoverAct
  /-- A call of `ingest`. -/
  | ingest (call : IngestCall)
  /-- A call of `closeHostLoss`. -/
  | closeHostLoss (now : ℤ) (machineId leaseId : String)
  /-- A transaction of the rest of the control plane. -/
  | other (hosts : String → Option HostRow) (machines : String → Option MachineRow)
      (stoppedAt : String → Option ℤ)
  /-- A query of `enqueueUsageIntervals` finds a candidate on its snapshot. -/
  | select (sel : Selection)
  /-- It locks the candidate's row and writes. -/
  | enqueue (sel : Selection)

structure CutoverState where
  tables : LegacyDb
  selected : List Selection

/-- What the rest of the control plane leaves alone in `machines`: rows are not deleted, the usage
checkpoint is written by metering only, and `vcpus` satisfies its check constraint. -/
structure MachinesEvolve (ms ms' : String → Option MachineRow) : Prop where
  kept : ∀ id m, ms id = some m → ∃ m', ms' id = some m' ∧ m'.usageCheckpointAt = m.usageCheckpointAt
  created : ∀ id m', ms id = none → ms' id = some m' → m'.usageCheckpointAt = none
  vcpus_pos : ∀ id m', ms' id = some m' → 0 < m'.vcpus

inductive CutoverStep (metering : AuthoritativeMetering) : CutoverState → CutoverAct → CutoverState → Prop
  | ingest (s : CutoverState) (call : IngestCall) :
      CutoverStep metering s (.ingest call)
        { s with tables := { s.tables with db := commit s.tables.db (ingest metering s.tables.db call) } }
  | closeHostLoss (s : CutoverState) (now : ℤ) (machineId leaseId : String) :
      CutoverStep metering s (.closeHostLoss now machineId leaseId)
        { s with tables :=
          { s.tables with db := (closeHostLoss s.tables.db now machineId leaseId).1 } }
  | other (s : CutoverState) (hosts : String → Option HostRow) (machines : String → Option MachineRow)
      (stoppedAt : String → Option ℤ)
      (hschema : Schema { s.tables.db.tables with hosts := hosts, machines := machines })
      (hevolve : MachinesEvolve s.tables.db.machines machines) :
      CutoverStep metering s (.other hosts machines stoppedAt)
        { s with tables :=
          { s.tables with
            db := { s.tables.db with hosts := hosts, machines := machines }
            stoppedAt := stoppedAt } }
  | select (s : CutoverState) (sel : Selection)
      (h : s.tables.selects true sel.checkpointEnd sel.interval sel.machineId = true) :
      CutoverStep metering s (.select sel) { s with selected := sel :: s.selected }
  | enqueue (s : CutoverState) (sel : Selection) (h : sel ∈ s.selected) :
      CutoverStep metering s (.enqueue sel)
        { tables := s.tables.enqueue sel, selected := s.selected.erase sel }

end Nehemiah.Billing
