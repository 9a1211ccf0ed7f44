import Mathlib
import Nehemiah.Lib.Run
import Nehemiah.Lib.Table

/-!
# Templates in use

The transactions that delete a template and those that use one, statement by statement under the locks of a
PostgreSQL database at READ COMMITTED.  `remove` locks the template `FOR UPDATE` and looks for machines in a second
statement; `insertRequested` locks it `FOR SHARE`; the insert of a fork's children and of a replica take the key-share
lock of their foreign keys, which a soft delete passes; the scheduler reads the template without any lock.  A lock is
taken when no other transaction holds a conflicting one, on the row as it is then.  `deleted_template_unused` is about
all their runs.

Capacities, cohorts and the retry times of replicas, which say nothing about templates, are left out; a step is free to
pick any host that the model admits.
-/

namespace Nehemiah.TemplateUse

open Lib

inductive MachineState
  | requested
  | placing
  | starting
  | running
  | stopping
  | stopped
  | failed
  | lost
deriving DecidableEq

def MachineState.terminal : MachineState → Bool
  | stopped | failed | lost => true
  | _ => false

/-- The states from which the scheduler assigns a machine. -/
def MachineState.placeable : MachineState → Bool
  | requested | placing => true
  | _ => false

theorem MachineState.active_of_placeable {state : MachineState} (h : state.placeable = true) : state.terminal = false := by
  cases state <;> first | rfl | cases h

inductive ReplicaState
  | requested
  | pulling
  | ready
  | failed
deriving DecidableEq

structure Template where
  id : String
  organizationId : String
  projectId : String
  architecture : String
  deleted : Bool

structure Machine where
  id : String
  organizationId : String
  projectId : String
  templateId : Option String
  state : MachineState
deriving DecidableEq

structure Replica where
  templateId : String
  hostId : String
  state : ReplicaState

structure Host where
  id : String
  architecture : String
  /-- `ready` or `draining`. -/
  accepting : Bool
  ready : Bool

/-- A `ScheduleRequest`. -/
structure Request where
  architecture : String
  templateId : Option String
  machineId : Option String
deriving DecidableEq

/-- A transaction after some of its statements. -/
inductive Tx
  /-- `remove`, with the template locked, before or after it found no active machine. -/
  | removing (templateId : String) (checked : Bool)
  /-- `insertRequested`, with the template locked. -/
  | inserting (machine : Machine)
  /-- `Scheduler.reserve`, with a host locked, before or after the update of the machine. -/
  | reserving (request : Request) (candidateTemplate : Option String) (hostId : String) (assigned : Bool)
  /-- `beginFork`, with the source locked, before or after the insert of the children. -/
  | forking (sourceId : String) (children : List Machine) (inserted : Bool)
  /-- `enqueueMissing`, after its snapshot. -/
  | enqueuing (pairs : List (String × String))
deriving DecidableEq

/-- A reservation or a replica assignment that was committed, and whether the template was deleted by then. -/
structure Use where
  templateId : String
  deleted : Bool
deriving DecidableEq

structure State where
  templates : List Template
  machines : List Machine
  replicas : List Replica
  hosts : List Host
  txs : List Tx
  uses : List Use

namespace Tx

/-- The template that is locked `FOR UPDATE`. -/
def updates : Tx → Option String
  | removing t _ => some t
  | _ => none

/-- The templates that are locked `FOR SHARE` or `FOR KEY SHARE`. -/
def shares : Tx → List String
  | inserting m => m.templateId.toList
  | forking _ children true => children.filterMap Machine.templateId
  | _ => []

/-- The machine whose row is locked. -/
def machine : Tx → List String
  | reserving r _ _ true => r.machineId.toList
  | forking sourceId _ _ => [sourceId]
  | _ => []

end Tx

namespace State

def deleted (s : State) (t : String) : Bool := s.templates.any fun r => decide (r.id = t) && r.deleted

/-- The row that `id = t AND deleted_at IS NULL` finds. -/
def live? (s : State) (t : String) : Option Template := s.templates.find? fun r => decide (r.id = t) && !r.deleted

def machine? (s : State) (id : String) : Option Machine := s.machines.find? fun m => decide (m.id = id)

def updateLocked (s : State) (t : String) : Bool := s.txs.any fun tx => decide (tx.updates = some t)

def shareLocked (s : State) (t : String) : Bool := s.txs.any fun tx => decide (t ∈ tx.shares)

def machineLocked (s : State) (id : String) : Bool := s.txs.any fun tx => decide (id ∈ tx.machine)

def inUse (s : State) (t : String) : Bool := s.machines.any fun m => decide (m.templateId = some t) && !m.state.terminal

def hasReplica (s : State) (t hostId : String) : Bool := s.replicas.any fun r => decide (r.templateId = t ∧ r.hostId = hostId)

def begin (s : State) (tx : Tx) : State := { s with txs := s.txs ++ [tx] }

/-- Commit or rollback. -/
def finish (s : State) (tx : Tx) : State := { s with txs := s.txs.erase tx }

def advance (s : State) (tx tx' : Tx) : State := (s.finish tx).begin tx'

/-- The log of what is committed for templates. -/
def record (s : State) (templates : List String) : State :=
  { s with uses := s.uses ++ templates.map fun t => ⟨t, s.deleted t⟩ }

def setMachine (s : State) (id : String) (state : MachineState) : State :=
  { s with machines := updateWhere (fun m => decide (m.id = id)) (fun m => { m with state := state }) s.machines }

def addTemplate (s : State) (t : Template) : State := { s with templates := s.templates ++ [t] }

def addMachines (s : State) (ms : List Machine) : State := { s with machines := s.machines ++ ms }

def queue (s : State) (pairs : List (String × String)) : State :=
  { s with replicas := s.replicas ++ pairs.map fun p => Replica.mk p.1 p.2 .requested }

/-- The soft delete of a template and the delete of its replicas. -/
def delete (s : State) (t : String) : State :=
  { s with
    templates := updateWhere (fun r => decide (r.id = t)) (fun r => { r with deleted := true }) s.templates
    replicas := s.replicas.filter fun r => decide (r.templateId ≠ t) }

/-- `PostgresTemplateRepository.insert`, with the replicas that it queues. -/
def publish (s : State) (t : Template) : Option State :=
  if t.deleted = false ∧ t.id ∉ s.templates.map Template.id then
    let queued := s.hosts.filter fun h => decide (h.architecture = t.architecture) && h.accepting
    some (((s.addTemplate t).queue (queued.map fun h : Host => (t.id, h.id))).record (queued.map fun _ => t.id))
  else none

def removeLock (s : State) (id organizationId : String) (projectId : Option String) : Option State :=
  match s.live? id with
  | none => none
  | some t =>
    if t.organizationId = organizationId ∧ projectId.all (fun p => decide (p = t.projectId)) ∧
        s.updateLocked id = false ∧ s.shareLocked id = false then
      some (s.begin (.removing id false))
    else none

/-- The look for active machines; one answers `in_use`. -/
def removeCheck (s : State) (t : String) : Option State :=
  if Tx.removing t false ∈ s.txs then
    some (if s.inUse t then s.finish (.removing t false) else s.advance (.removing t false) (.removing t true))
  else none

def removeCommit (s : State) (t : String) : Option State :=
  if Tx.removing t true ∈ s.txs then
    some ((s.delete t).finish (.removing t true))
  else none

def insertLock (s : State) (m : Machine) : Option State :=
  match m.templateId with
  | none => if m.state = .requested then some (s.begin (.inserting m)) else none
  | some t =>
    match s.live? t with
    | none => none
    | some row =>
      if m.state = .requested ∧ row.organizationId = m.organizationId ∧ row.projectId = m.projectId ∧
          s.updateLocked t = false then
        some (s.begin (.inserting m))
      else none

def insertCommit (s : State) (m : Machine) : Option State :=
  if Tx.inserting m ∈ s.txs ∧ m.id ∉ s.machines.map Machine.id then
    some ((s.addMachines [m]).finish (.inserting m))
  else none

/-- The query of the scheduler; it locks the host only. -/
def reserveSelect (s : State) (r : Request) (hostId : String) : Option State :=
  let candidate := r.machineId.bind s.machine?
  let candidateTemplate := candidate.bind Machine.templateId
  if s.hosts.any (fun h => decide (h.id = hostId ∧ h.architecture = r.architecture) && h.ready) ∧
      r.templateId.all (fun t => (s.live? t).isSome &&
        s.replicas.any fun p => decide (p.templateId = t ∧ p.hostId = hostId ∧ p.state = .ready)) ∧
      (r.machineId.isSome = true → candidate.isSome = true) ∧ candidateTemplate.all (fun t => (s.live? t).isSome) then
    some (s.begin (.reserving r candidateTemplate hostId false))
  else none

/-- The update of the machine, which waits for its row and rechecks its state. -/
def reserveAssign (s : State) (r : Request) (candidateTemplate : Option String) (hostId : String) : Option State :=
  match r.machineId with
  | none => none
  | some id =>
    if Tx.reserving r candidateTemplate hostId false ∈ s.txs ∧ s.machineLocked id = false ∧
        (s.machine? id).any (fun m => m.state.placeable) then
      some (s.advance (.reserving r candidateTemplate hostId false) (.reserving r candidateTemplate hostId true))
    else none

def reserveCommit (s : State) (r : Request) (candidateTemplate : Option String) (hostId : String) : Option State :=
  match r.machineId with
  | none =>
    if Tx.reserving r candidateTemplate hostId false ∈ s.txs then
      some ((s.record r.templateId.toList).finish (.reserving r candidateTemplate hostId false))
    else none
  | some id =>
    if Tx.reserving r candidateTemplate hostId true ∈ s.txs then
      some (((s.record (r.templateId.toList ++ candidateTemplate.toList)).finish
        (.reserving r candidateTemplate hostId true)).setMachine id .starting)
    else none

/-- The lock of the source, which is running; each child is a new machine of its template. -/
def forkLock (s : State) (sourceId : String) (children : List Machine) : Option State :=
  match s.machine? sourceId with
  | none => none
  | some source =>
    if source.state = .running ∧ s.machineLocked sourceId = false ∧
        ∀ c ∈ children, c.templateId = source.templateId ∧ c.state = .starting then
      some (s.begin (.forking sourceId children false))
    else none

/-- The inserts, whose foreign keys wait for a removal of the template. -/
def forkInsert (s : State) (sourceId : String) (children : List Machine) : Option State :=
  if Tx.forking sourceId children false ∈ s.txs ∧ ∀ t ∈ children.filterMap Machine.templateId, s.updateLocked t = false then
    some (s.advance (.forking sourceId children false) (.forking sourceId children true))
  else none

def forkCommit (s : State) (sourceId : String) (children : List Machine) : Option State :=
  if Tx.forking sourceId children true ∈ s.txs ∧ (children.map Machine.id).Nodup ∧
      ∀ c ∈ children, c.id ∉ s.machines.map Machine.id then
    some (((s.addMachines children).record (children.filterMap Machine.templateId)).finish (.forking sourceId children true))
  else none

/-- The pairs that the snapshot of `enqueueMissing` selects. -/
def missing (s : State) : List (String × String) :=
  (s.templates.filter fun t => !t.deleted).flatMap fun t =>
    (s.hosts.filter fun h => decide (h.architecture = t.architecture) && h.accepting && !s.hasReplica t.id h.id).map
      fun h => (t.id, h.id)

def enqueueRead (s : State) : State := s.begin (.enqueuing s.missing)

/-- The insert of the pairs, whose foreign keys wait for removals of their templates. -/
def enqueueCommit (s : State) (pairs : List (String × String)) : Option State :=
  if Tx.enqueuing pairs ∈ s.txs ∧ ∀ p ∈ pairs, s.updateLocked p.1 = false then
    let inserted := pairs.filter fun p => !s.hasReplica p.1 p.2
    some (((s.queue inserted).record (inserted.map Prod.fst)).finish (.enqueuing pairs))
  else none

def setReplicas (s : State) (p : Replica → Bool) (state : ReplicaState) : State :=
  { s with replicas := updateWhere p (fun r => { r with state := state }) s.replicas }

/-- The statement of `claim` or `markReady`: an update of one replica of a live template.  A replica whose row a removal
has deleted is not found again. -/
def updateReplica (s : State) (t hostId : String) (sources : List ReplicaState) (state : ReplicaState) : Option State :=
  if (s.live? t).isSome ∧ s.replicas.any (fun r => decide (r.templateId = t ∧ r.hostId = hostId ∧ r.state ∈ sources)) then
    some ((s.setReplicas (fun r => decide (r.templateId = t ∧ r.hostId = hostId)) state).record [t])
  else none

def markFailed (s : State) (t hostId : String) : State :=
  s.setReplicas (fun r => decide (r.templateId = t ∧ r.hostId = hostId ∧ r.state = .pulling)) .failed

/-- A host is registered, or changes. -/
def setHost (s : State) (h : Host) : State := { s with hosts := h :: s.hosts.filter fun other => decide (other.id ≠ h.id) }

/-- Any other update of the state of a machine; no path leads out of a terminal state. -/
def moveMachine (s : State) (id : String) (state : MachineState) : Option State :=
  if s.machineLocked id = false ∧ (s.machine? id).any (fun m => !m.state.terminal) then some (s.setMachine id state)
  else none

end State

inductive Action
  | publish (t : Template)
  | removeLock (id organizationId : String) (projectId : Option String)
  | removeCheck (t : String)
  | removeCommit (t : String)
  | rollback (tx : Tx)
  | insertLock (m : Machine)
  | insertCommit (m : Machine)
  | reserveSelect (r : Request) (hostId : String)
  | reserveAssign (r : Request) (candidateTemplate : Option String) (hostId : String)
  | reserveCommit (r : Request) (candidateTemplate : Option String) (hostId : String)
  | forkLock (sourceId : String) (children : List Machine)
  | forkInsert (sourceId : String) (children : List Machine)
  | forkCommit (sourceId : String) (children : List Machine)
  | enqueueRead
  | enqueueCommit (pairs : List (String × String))
  | claim (t hostId : String)
  | markReady (t hostId : String)
  | markFailed (t hostId : String)
  | setHost (h : Host)
  | moveMachine (id : String) (state : MachineState)

def step (s : State) : Action → Option State
  | .publish t => s.publish t
  | .removeLock id organizationId projectId => s.removeLock id organizationId projectId
  | .removeCheck t => s.removeCheck t
  | .removeCommit t => s.removeCommit t
  | .rollback tx => some (s.finish tx)
  | .insertLock m => s.insertLock m
  | .insertCommit m => s.insertCommit m
  | .reserveSelect r hostId => s.reserveSelect r hostId
  | .reserveAssign r candidateTemplate hostId => s.reserveAssign r candidateTemplate hostId
  | .reserveCommit r candidateTemplate hostId => s.reserveCommit r candidateTemplate hostId
  | .forkLock sourceId children => s.forkLock sourceId children
  | .forkInsert sourceId children => s.forkInsert sourceId children
  | .forkCommit sourceId children => s.forkCommit sourceId children
  | .enqueueRead => some s.enqueueRead
  | .enqueueCommit pairs => s.enqueueCommit pairs
  | .claim t hostId => s.updateReplica t hostId [.requested, .failed, .pulling] .pulling
  | .markReady t hostId => s.updateReplica t hostId [.pulling] .ready
  | .markFailed t hostId => some (s.markFailed t hostId)
  | .setHost h => some (s.setHost h)
  | .moveMachine id state => s.moveMachine id state

def initial : State := ⟨[], [], [], [], [], []⟩

/-- No machine that is not in a terminal state refers to a deleted template, and nothing was committed for a template
after its deletion. -/
structure Safe (s : State) : Prop where
  machines : ∀ m ∈ s.machines, m.state.terminal = false → ∀ t ∈ m.templateId, s.deleted t = false
  uses : ∀ u ∈ s.uses, u.deleted = false

/-- The transaction has read the template under no lock that keeps it: an enqueueing, or a reservation for the template
without a machine of the template. -/
def Tx.reads (tx : Tx) (t : String) : Bool :=
  match tx with
  | .reserving r candidateTemplate _ _ => decide (r.templateId = some t ∧ candidateTemplate ≠ some t)
  | .enqueuing pairs => pairs.any fun p => decide (p.1 = t)
  | _ => false

/-- A removal does not commit between the read and the commit of such a transaction. -/
def Unread (s : State) (a : Action) (_ : State) : Prop :=
  match a with
  | .removeCommit t => ∀ tx ∈ s.txs, tx.reads t = false
  | _ => True

instance (s : State) (a : Action) (t : State) : Decidable (Unread s a t) := by
  unfold Unread
  split <;> infer_instance

/-! ### The invariant -/

/-- What a transaction has found stays true while it is open. -/
def Holds (s : State) : Tx → Prop
  | .removing t checked => checked = true → s.inUse t = false
  | .inserting m => ∀ t ∈ m.templateId, s.deleted t = false
  | .reserving r candidateTemplate _ assigned =>
      (r.machineId = none → candidateTemplate = none) ∧
        ∀ id ∈ r.machineId, ∃ m, s.machine? id = some m ∧ m.templateId = candidateTemplate ∧
          (assigned = true → m.state.placeable = true)
  | .forking sourceId children _ =>
      ∃ m, s.machine? sourceId = some m ∧ m.state = .running ∧
        ∀ c ∈ children, c.templateId = m.templateId ∧ c.state = .starting
  | .enqueuing _ => True

structure Inv (s : State) : Prop where
  keyed : (s.templates.map Template.id).Nodup
  machineKeyed : (s.machines.map Machine.id).Nodup
  locks : (s.txs.flatMap Tx.machine).Nodup
  excluded : ∀ tx ∈ s.txs, ∀ t ∈ tx.updates, s.shareLocked t = false
  holds : ∀ tx ∈ s.txs, Holds s tx
  machines : ∀ m ∈ s.machines, m.state.terminal = false → ∀ t ∈ m.templateId, s.deleted t = false

namespace State

variable {s : State} {tx : Tx} {t id : String}

theorem deleted_eq_false : s.deleted t = false ↔ ∀ r ∈ s.templates, r.id = t → r.deleted = false := by
  simp only [deleted, List.any_eq_false, Bool.and_eq_true, decide_eq_true_eq, not_and, Bool.not_eq_true]

theorem inUse_eq_false :
    s.inUse t = false ↔ ∀ m ∈ s.machines, m.templateId = some t → m.state.terminal = true := by
  simp only [inUse, List.any_eq_false, Bool.and_eq_true, decide_eq_true_eq, not_and, Bool.not_eq_true, Bool.not_eq_false']

theorem shareLocked_eq_false : s.shareLocked t = false ↔ ∀ tx ∈ s.txs, t ∉ tx.shares := by
  simp only [shareLocked, List.any_eq_false, decide_eq_true_eq]

theorem updateLocked_eq_false : s.updateLocked t = false ↔ ∀ tx ∈ s.txs, tx.updates ≠ some t := by
  simp only [updateLocked, List.any_eq_false, decide_eq_true_eq, ne_eq]

theorem machineLocked_eq_false : s.machineLocked id = false ↔ ∀ tx ∈ s.txs, id ∉ tx.machine := by
  simp only [machineLocked, List.any_eq_false, decide_eq_true_eq]

theorem machine?_mem {m : Machine} (h : s.machine? id = some m) : m ∈ s.machines ∧ m.id = id :=
  ⟨List.mem_of_find?_eq_some h, by simpa using List.find?_some h⟩

/-- A template that is found has one row, which is not deleted. -/
theorem deleted_of_live? (hn : (s.templates.map Template.id).Nodup) {r : Template} (h : s.live? t = some r) :
    s.deleted t = false := by
  rw [deleted_eq_false]
  intro r' hr' hid
  have hr := List.mem_of_find?_eq_some h
  have hp : r.id = t ∧ r.deleted = false := by simpa using List.find?_some h
  rw [key_inj hn hr' hr (hid.trans hp.1.symm)]
  exact hp.2

theorem deleted_of_isSome (hn : (s.templates.map Template.id).Nodup) (h : (s.live? t).isSome = true) :
    s.deleted t = false := by
  obtain ⟨r, hr⟩ := Option.isSome_iff_exists.mp h
  exact deleted_of_live? hn hr

theorem machine?_addMachines {ms : List Machine} {m : Machine} (h : s.machine? id = some m) :
    (s.addMachines ms).machine? id = some m := by
  show (s.machines ++ ms).find? _ = some m
  rw [List.find?_append]
  have h' : s.machines.find? (fun m => decide (m.id = id)) = some m := h
  rw [h']
  rfl

theorem machine?_setMachine {other : String} {state : MachineState} :
    (s.setMachine id state).machine? other =
      (s.machine? other).map fun m => if m.id = id then { m with state := state } else m := by
  have hfind : (updateWhere _ _ s.machines).find? _ = _ := find?_updateWhere (p := fun m : Machine => decide (m.id = id))
    (f := fun m => { m with state := state }) (q := fun m => decide (m.id = other)) fun _ => rfl
  simp only [decide_eq_true_eq] at hfind
  exact hfind

/-- A removal of another template leaves a template as it is. -/
theorem deleted_delete {other : String} (h : other ≠ t) (hd : s.deleted other = false) :
    (s.delete t).deleted other = false := by
  rw [deleted_eq_false] at hd ⊢
  intro r' hr' hid
  obtain ⟨r, hr, rfl⟩ := mem_updateWhere.mp hr'
  by_cases hp : r.id = t
  · rw [if_pos (decide_eq_true hp)] at hid
    exact absurd (hid.symm.trans hp) h
  · rw [if_neg (by simpa using hp)] at hid ⊢
    exact hd r hr hid

/-- A new template changes what is said of no template. -/
theorem deleted_addTemplate {r : Template} (h : r.deleted = false) : (s.addTemplate r).deleted t = s.deleted t := by
  show (s.templates ++ [r]).any _ = s.templates.any _
  rw [List.any_append]
  simp [h]

theorem mem_txs_finish {tx' : Tx} (h : tx' ∈ (s.finish tx).txs) : tx' ∈ s.txs := List.mem_of_mem_erase h

end State

/-! ### What the changes preserve -/

namespace Inv

variable {s s' : State} {tx : Tx} {t id : String}

/-- The replicas and the log are not part of the invariant. -/
theorem of_eq (h : Inv s) (ht : s'.templates = s.templates) (hm : s'.machines = s.machines) (hx : s'.txs = s.txs) :
    Inv s' := by
  obtain ⟨templates, machines, replicas, hosts, txs, uses⟩ := s
  obtain ⟨templates', machines', replicas', hosts', txs', uses'⟩ := s'
  obtain rfl : templates' = templates := ht
  obtain rfl : machines' = machines := hm
  obtain rfl : txs' = txs := hx
  exact ⟨h.keyed, h.machineKeyed, h.locks, h.excluded, h.holds, h.machines⟩

theorem record (h : Inv s) (ts : List String) : Inv (s.record ts) := h.of_eq rfl rfl rfl

theorem queue (h : Inv s) (pairs : List (String × String)) : Inv (s.queue pairs) := h.of_eq rfl rfl rfl

theorem setReplicas (h : Inv s) (p : Replica → Bool) (state : ReplicaState) : Inv (s.setReplicas p state) :=
  h.of_eq rfl rfl rfl

theorem finish (h : Inv s) (tx : Tx) : Inv (s.finish tx) where
  keyed := h.keyed
  machineKeyed := h.machineKeyed
  locks := h.locks.sublist (List.erase_sublist.flatMap _)
  excluded := by
    intro tx' htx' t ht
    rw [State.shareLocked_eq_false]
    intro other hother
    exact State.shareLocked_eq_false.mp (h.excluded tx' (State.mem_txs_finish htx') t ht) other
      (State.mem_txs_finish hother)
  holds := by
    intro tx' htx'
    have := h.holds tx' (State.mem_txs_finish htx')
    cases tx' <;> exact this
  machines := h.machines

theorem begin (h : Inv s) (hholds : Holds s tx) (hn : tx.machine.Nodup)
    (hm : ∀ id ∈ tx.machine, s.machineLocked id = false) (hu : ∀ t ∈ tx.updates, s.shareLocked t = false ∧ t ∉ tx.shares)
    (hs : ∀ t ∈ tx.shares, s.updateLocked t = false) : Inv (s.begin tx) where
  keyed := h.keyed
  machineKeyed := h.machineKeyed
  locks := by
    show ((s.txs ++ [tx]).flatMap Tx.machine).Nodup
    rw [List.flatMap_append, List.nodup_append]
    refine ⟨h.locks, by simpa using hn, ?_⟩
    intro id hid id' hid' heq
    obtain ⟨other, hother, hin⟩ := List.mem_flatMap.mp hid
    have hid'' : id' ∈ tx.machine := by simpa using hid'
    exact State.machineLocked_eq_false.mp (hm id' hid'') other hother (heq ▸ hin)
  excluded := by
    intro tx' hmem t ht
    rw [State.shareLocked_eq_false]
    intro other hin
    rcases List.mem_append.mp hmem with htx' | htx' <;> rcases List.mem_append.mp hin with hother | hother
    · exact State.shareLocked_eq_false.mp (h.excluded tx' htx' t ht) other hother
    · obtain rfl := List.mem_singleton.mp hother
      intro hshare
      exact State.updateLocked_eq_false.mp (hs t hshare) tx' htx' ht
    · obtain rfl := List.mem_singleton.mp htx'
      exact State.shareLocked_eq_false.mp (hu t ht).1 other hother
    · obtain rfl := List.mem_singleton.mp htx'
      obtain rfl := List.mem_singleton.mp hother
      exact (hu t ht).2
  holds := by
    intro tx' htx'
    have hall : Holds s tx' := by
      rcases List.mem_append.mp htx' with htx' | htx'
      · exact h.holds tx' htx'
      · obtain rfl := List.mem_singleton.mp htx'
        exact hholds
    cases tx' <;> exact hall
  machines := h.machines

/-- The row of a machine that a transaction has locked is locked by no other one. -/
theorem machineLocked_finish (h : Inv s) (htx : tx ∈ s.txs) (hid : id ∈ tx.machine) :
    (s.finish tx).machineLocked id = false := by
  rw [State.machineLocked_eq_false]
  intro other hother hin
  have hperm : (s.txs.flatMap Tx.machine).Perm ((tx :: s.txs.erase tx).flatMap Tx.machine) :=
    (List.perm_cons_erase htx).flatMap_right _
  have hnodup := hperm.nodup_iff.mp h.locks
  rw [List.flatMap_cons, List.nodup_append] at hnodup
  exact hnodup.2.2 id hid id (List.mem_flatMap.mpr ⟨other, hother, hin⟩) rfl

/-- Rows of one machine are one row. -/
theorem active (h : Inv s) {m : Machine} (hm : s.machine? id = some m) (hactive : m.state.terminal = false) :
    ∀ m' ∈ s.machines, m'.id = id → m'.state.terminal = false := by
  intro m' hm' hid
  obtain ⟨hin, heq⟩ := State.machine?_mem hm
  rw [key_inj h.machineKeyed hm' hin (hid.trans heq.symm)]
  exact hactive

/-- A removal that found no active machine excludes active machines of its template. -/
theorem not_inUse (h : Inv s) (htx : Tx.removing t true ∈ s.txs) : s.inUse t = false := h.holds _ htx rfl

theorem addMachines (h : Inv s) {ms : List Machine} (hn : (ms.map Machine.id).Nodup)
    (hfresh : ∀ m ∈ ms, m.id ∉ s.machines.map Machine.id)
    (hms : ∀ m ∈ ms, ∀ t ∈ m.templateId, s.deleted t = false ∧ ∀ c, Tx.removing t c ∉ s.txs) :
    Inv (s.addMachines ms) where
  keyed := h.keyed
  machineKeyed := by
    show ((s.machines ++ ms).map Machine.id).Nodup
    rw [List.map_append, List.nodup_append]
    refine ⟨h.machineKeyed, hn, ?_⟩
    intro id hid id' hid' heq
    obtain ⟨m, hm, rfl⟩ := List.mem_map.mp hid'
    exact hfresh m hm (heq ▸ hid)
  locks := h.locks
  excluded := h.excluded
  holds := by
    intro tx htx
    have hold := h.holds tx htx
    cases tx with
    | removing t checked =>
      intro hc
      rw [State.inUse_eq_false]
      intro m hm hmt
      rcases List.mem_append.mp hm with hm | hm
      · exact State.inUse_eq_false.mp (hold hc) m hm hmt
      · exact absurd htx ((hms m hm t hmt).2 checked)
    | inserting m => exact hold
    | reserving r candidateTemplate hostId assigned =>
      refine ⟨hold.1, fun id hid => ?_⟩
      obtain ⟨m, hm, hrest⟩ := hold.2 id hid
      exact ⟨m, State.machine?_addMachines hm, hrest⟩
    | forking sourceId children inserted =>
      obtain ⟨m, hm, hrest⟩ := hold
      exact ⟨m, State.machine?_addMachines hm, hrest⟩
    | enqueuing pairs => exact hold
  machines := by
    intro m hm hactive t ht
    rcases List.mem_append.mp hm with hm | hm
    · exact h.machines m hm hactive t ht
    · exact (hms m hm t ht).1

/-- The update of a machine that is not in a terminal state and whose row nobody has locked. -/
theorem setMachine (h : Inv s) {state : MachineState} (hlock : s.machineLocked id = false)
    (hactive : ∀ m ∈ s.machines, m.id = id → m.state.terminal = false) : Inv (s.setMachine id state) where
  keyed := h.keyed
  machineKeyed := by
    have hids : (s.setMachine id state).machines.map Machine.id = s.machines.map Machine.id :=
      map_updateWhere fun _ => rfl
    rw [hids]
    exact h.machineKeyed
  locks := h.locks
  excluded := h.excluded
  holds := by
    intro tx htx
    have hold := h.holds tx htx
    have hfree := State.machineLocked_eq_false.mp hlock tx htx
    cases tx with
    | removing t checked =>
      intro hc
      rw [State.inUse_eq_false]
      intro m' hm' hmt
      obtain ⟨m, hm, rfl⟩ := mem_updateWhere.mp hm'
      have hterm := State.inUse_eq_false.mp (hold hc) m hm
      split at hmt
      · next hid =>
        rw [hactive m hm (of_decide_eq_true hid)] at hterm
        exact absurd (hterm hmt) (by decide)
      · next hid =>
        rw [if_neg hid]
        exact hterm hmt
    | inserting m => exact hold
    | reserving r candidateTemplate hostId assigned =>
      refine ⟨hold.1, fun other hother => ?_⟩
      obtain ⟨m, hm, htemplate, hplace⟩ := hold.2 other hother
      refine ⟨_, State.machine?_setMachine.trans (congrArg _ hm), ?_, ?_⟩
      · show (if m.id = id then _ else m).templateId = _
        split <;> exact htemplate
      · intro hassigned
        subst hassigned
        have hne : m.id ≠ id := by
          rintro rfl
          rw [(State.machine?_mem hm).2] at hfree
          exact hfree (Option.mem_toList.mpr hother)
        show (if m.id = id then _ else m).state.placeable = true
        rw [if_neg hne]
        exact hplace rfl
    | forking sourceId children inserted =>
      obtain ⟨m, hm, hrunning, hchildren⟩ := hold
      have hne : m.id ≠ id := by
        rintro rfl
        rw [(State.machine?_mem hm).2] at hfree
        exact hfree (List.mem_singleton_self _)
      refine ⟨m, State.machine?_setMachine.trans ?_, hrunning, hchildren⟩
      rw [hm]
      show some (if m.id = id then _ else m) = some m
      rw [if_neg hne]
    | enqueuing pairs => exact hold
  machines := by
    intro m' hm' _ t ht
    obtain ⟨m, hm, rfl⟩ := mem_updateWhere.mp hm'
    by_cases hid : m.id = id
    · rw [if_pos (decide_eq_true hid)] at ht
      exact h.machines m hm (hactive m hm hid) t ht
    · rw [if_neg (by simpa using hid)] at ht
      refine h.machines m hm ?_ t ht
      next hact =>
        rwa [if_neg (by simpa using hid)] at hact

theorem addTemplate (h : Inv s) {r : Template} (hr : r.deleted = false) (hid : r.id ∉ s.templates.map Template.id) :
    Inv (s.addTemplate r) where
  keyed := by
    show ((s.templates ++ [r]).map Template.id).Nodup
    rw [List.map_append, List.nodup_append]
    refine ⟨h.keyed, List.nodup_singleton _, ?_⟩
    intro t ht t' ht' heq
    obtain rfl := List.mem_singleton.mp ht'
    exact hid (heq ▸ ht)
  machineKeyed := h.machineKeyed
  locks := h.locks
  excluded := h.excluded
  holds := by
    intro tx htx
    have hold := h.holds tx htx
    cases tx with
    | inserting m =>
      intro t ht
      rw [State.deleted_addTemplate hr]
      exact hold t ht
    | removing | reserving | forking | enqueuing => exact hold
  machines := by
    intro m hm hactive t ht
    rw [State.deleted_addTemplate hr]
    exact h.machines m hm hactive t ht

/-- A template that no active machine refers to and nobody has locked for an insert is deleted. -/
theorem delete (h : Inv s) (huse : s.inUse t = false) (hshare : s.shareLocked t = false) : Inv (s.delete t) where
  keyed := by
    have hids : (s.delete t).templates.map Template.id = s.templates.map Template.id := map_updateWhere fun _ => rfl
    rw [hids]
    exact h.keyed
  machineKeyed := h.machineKeyed
  locks := h.locks
  excluded := h.excluded
  holds := by
    intro tx htx
    have hold := h.holds tx htx
    cases tx with
    | inserting m =>
      intro t' ht'
      refine State.deleted_delete ?_ (hold t' ht')
      rintro rfl
      exact State.shareLocked_eq_false.mp hshare _ htx (Option.mem_toList.mpr ht')
    | removing | reserving | forking | enqueuing => exact hold
  machines := by
    intro m hm hactive t' ht'
    refine State.deleted_delete ?_ (h.machines m hm hactive t' ht')
    rintro rfl
    rw [State.inUse_eq_false.mp huse m hm ht'] at hactive
    cases hactive

end Inv

/-! ### The steps -/

namespace Inv

variable {s s' : State} {t id hostId sourceId : String} {m : Machine} {r : Request} {candidateTemplate : Option String}
  {children : List Machine} {pairs : List (String × String)}

theorem of_publish (h : Inv s) {r : Template} (hs : s.publish r = some s') : Inv s' := by
  unfold State.publish at hs
  split at hs
  · next hr =>
    cases hs
    exact ((h.addTemplate hr.1 hr.2).queue _).record _
  · cases hs

theorem of_removeLock (h : Inv s) {organizationId : String} {projectId : Option String}
    (hs : s.removeLock id organizationId projectId = some s') : Inv s' := by
  unfold State.removeLock at hs
  split at hs
  · cases hs
  · split at hs
    · next hc =>
      cases hs
      refine h.begin (fun hchecked => nomatch hchecked) List.nodup_nil (fun _ hm => nomatch hm) ?_ (fun _ ht => nomatch ht)
      intro t ht
      obtain rfl := Option.some.inj ht
      exact ⟨hc.2.2.2, List.not_mem_nil⟩
    · cases hs

theorem of_removeCheck (h : Inv s) (hs : s.removeCheck t = some s') : Inv s' := by
  unfold State.removeCheck at hs
  split at hs
  · next htx =>
    cases hs
    split
    · exact h.finish _
    · next huse =>
      refine (h.finish _).begin (fun _ => eq_false_of_ne_true huse) List.nodup_nil (fun _ hm => nomatch hm) ?_
        (fun _ ht => nomatch ht)
      intro t' ht'
      obtain rfl := Option.some.inj ht'
      refine ⟨?_, List.not_mem_nil⟩
      rw [State.shareLocked_eq_false]
      intro other hother
      exact State.shareLocked_eq_false.mp (h.excluded _ htx t rfl) other (State.mem_txs_finish hother)
  · cases hs

theorem of_removeCommit (h : Inv s) (hs : s.removeCommit t = some s') : Inv s' := by
  unfold State.removeCommit at hs
  split at hs
  · next htx =>
    cases hs
    exact (h.delete (h.not_inUse htx) (h.excluded _ htx t rfl)).finish _
  · cases hs

theorem of_insertLock (h : Inv s) (hs : s.insertLock m = some s') : Inv s' := by
  unfold State.insertLock at hs
  split at hs
  · next hnone =>
    split at hs
    · cases hs
      refine h.begin ?_ List.nodup_nil (fun _ hm => nomatch hm) (fun _ ht => nomatch ht) ?_
      · intro t ht
        rw [hnone] at ht
        cases ht
      · intro t ht
        have ht : t ∈ m.templateId := Option.mem_toList.mp ht
        rw [hnone] at ht
        cases ht
    · cases hs
  · next t hsome =>
    split at hs
    · cases hs
    · next row hrow =>
      split at hs
      · next hc =>
        cases hs
        have honly : ∀ t' ∈ m.templateId, t' = t := by
          intro t' ht'
          rw [hsome] at ht'
          exact (Option.some.inj ht').symm
        refine h.begin ?_ List.nodup_nil (fun _ hm => nomatch hm) (fun _ ht => nomatch ht) ?_
        · intro t' ht'
          rw [honly t' ht']
          exact State.deleted_of_live? h.keyed hrow
        · intro t' ht'
          rw [honly t' (Option.mem_toList.mp ht')]
          exact hc.2.2.2
      · cases hs

theorem of_insertCommit (h : Inv s) (hs : s.insertCommit m = some s') : Inv s' := by
  unfold State.insertCommit at hs
  split at hs
  · next hc =>
    cases hs
    have hone : ([m].map Machine.id).Nodup := List.nodup_singleton m.id
    refine (h.addMachines hone ?_ ?_).finish _
    · intro m' hm'
      obtain rfl := List.mem_singleton.mp hm'
      exact hc.2
    · intro m' hm' t ht
      obtain rfl := List.mem_singleton.mp hm'
      refine ⟨h.holds _ hc.1 t ht, fun c hin => ?_⟩
      exact State.shareLocked_eq_false.mp (h.excluded _ hin t rfl) _ hc.1 (Option.mem_toList.mpr ht)
  · cases hs

theorem of_reserveSelect (h : Inv s) (hs : s.reserveSelect r hostId = some s') : Inv s' := by
  unfold State.reserveSelect at hs
  dsimp only at hs
  split at hs
  · next hc =>
    cases hs
    refine h.begin ?_ List.nodup_nil (fun _ hm => nomatch hm) (fun _ ht => nomatch ht) (fun _ ht => nomatch ht)
    refine ⟨fun hnone => by rw [hnone]; rfl, fun id hid => ?_⟩
    have hid : r.machineId = some id := hid
    have hsome := hc.2.2.1 (by rw [hid]; rfl)
    obtain ⟨m, hm⟩ := Option.isSome_iff_exists.mp hsome
    rw [hid] at hm ⊢
    exact ⟨m, hm, by rw [hm]; rfl, fun hassigned => nomatch hassigned⟩
  · cases hs

theorem of_reserveAssign (h : Inv s) (hs : s.reserveAssign r candidateTemplate hostId = some s') : Inv s' := by
  unfold State.reserveAssign at hs
  split at hs
  · cases hs
  · next id hid =>
    split at hs
    · next hc =>
      cases hs
      have hlocks : ∀ id' ∈ (Tx.reserving r candidateTemplate hostId true).machine, id' = id := by
        intro id' hid'
        have hid' : r.machineId = some id' := Option.mem_toList.mp hid'
        exact Option.some.inj (hid'.symm.trans hid)
      refine (h.finish _).begin ⟨(h.holds _ hc.1).1, ?_⟩ ?_ ?_ (fun _ ht => nomatch ht) (fun _ ht => nomatch ht)
      · intro id' hid'
        obtain ⟨m, hm, htemplate, -⟩ := (h.holds _ hc.1).2 id' hid'
        refine ⟨m, hm, htemplate, fun _ => ?_⟩
        rw [hlocks id' (Option.mem_toList.mpr hid')] at hm
        have hplace := hc.2.2
        rw [hm] at hplace
        exact hplace
      · show r.machineId.toList.Nodup
        rw [hid]
        exact List.nodup_singleton id
      · intro id' hid'
        rw [hlocks id' hid', State.machineLocked_eq_false]
        intro other hother
        exact State.machineLocked_eq_false.mp hc.2.1 other (State.mem_txs_finish hother)
    · cases hs

/-- A machine that was assigned has stayed placeable, so that it is not in a terminal state. -/
theorem of_reserveCommit (h : Inv s) (hs : s.reserveCommit r candidateTemplate hostId = some s') : Inv s' := by
  unfold State.reserveCommit at hs
  split at hs
  · split at hs
    · cases hs
      exact (h.record _).finish _
    · cases hs
  · next id hid =>
    split at hs
    · next htx =>
      cases hs
      obtain ⟨m, hm, -, hplace⟩ := (h.holds _ htx).2 id hid
      refine ((h.record _).finish _).setMachine ?_ (h.active hm (MachineState.active_of_placeable (hplace rfl)))
      refine (h.record _).machineLocked_finish htx ?_
      exact Option.mem_toList.mpr hid
    · cases hs

theorem of_forkLock (h : Inv s) (hs : s.forkLock sourceId children = some s') : Inv s' := by
  unfold State.forkLock at hs
  split at hs
  · cases hs
  · next source hsource =>
    split at hs
    · next hc =>
      cases hs
      refine h.begin ⟨source, hsource, hc.1, hc.2.2⟩ (List.nodup_singleton _) ?_ (fun _ ht => nomatch ht)
        (fun _ ht => nomatch ht)
      intro id hid
      obtain rfl := List.mem_singleton.mp hid
      exact hc.2.1
    · cases hs

theorem of_forkInsert (h : Inv s) (hs : s.forkInsert sourceId children = some s') : Inv s' := by
  unfold State.forkInsert at hs
  split at hs
  · next hc =>
    cases hs
    refine (h.finish _).begin (h.holds _ hc.1) (List.nodup_singleton _) ?_ (fun _ ht => nomatch ht) ?_
    · intro id hid
      exact h.machineLocked_finish hc.1 hid
    · intro t ht
      rw [State.updateLocked_eq_false]
      intro other hother
      exact State.updateLocked_eq_false.mp (hc.2 t ht) other (State.mem_txs_finish hother)
  · cases hs

/-- The children are of the template of the source, which is running. -/
theorem forking_live (h : Inv s) {inserted : Bool} (htx : Tx.forking sourceId children inserted ∈ s.txs) :
    ∀ c ∈ children, ∀ t ∈ c.templateId, s.deleted t = false := by
  intro c hc t ht
  obtain ⟨source, hsource, hrunning, hchildren⟩ := h.holds _ htx
  rw [(hchildren c hc).1] at ht
  refine h.machines source (State.machine?_mem hsource).1 ?_ t ht
  rw [hrunning]
  rfl

theorem of_forkCommit (h : Inv s) (hs : s.forkCommit sourceId children = some s') : Inv s' := by
  unfold State.forkCommit at hs
  split at hs
  · next hc =>
    cases hs
    refine ((h.addMachines hc.2.1 hc.2.2 ?_).record _).finish _
    intro m hm t ht
    refine ⟨h.forking_live hc.1 m hm t ht, fun c hin => ?_⟩
    exact State.shareLocked_eq_false.mp (h.excluded _ hin t rfl) _ hc.1 (List.mem_filterMap.mpr ⟨m, hm, ht⟩)
  · cases hs

theorem of_enqueueCommit (h : Inv s) (hs : s.enqueueCommit pairs = some s') : Inv s' := by
  unfold State.enqueueCommit at hs
  split at hs
  · cases hs
    exact ((h.queue _).record _).finish _
  · cases hs

theorem of_updateReplica (h : Inv s) {sources : List ReplicaState} {state : ReplicaState}
    (hs : s.updateReplica t hostId sources state = some s') : Inv s' := by
  unfold State.updateReplica at hs
  split at hs
  · cases hs
    exact (h.setReplicas _ _).record _
  · cases hs

theorem of_moveMachine (h : Inv s) {state : MachineState} (hs : s.moveMachine id state = some s') : Inv s' := by
  unfold State.moveMachine at hs
  split at hs
  · next hc =>
    cases hs
    obtain ⟨m, hm, hactive⟩ := (Option.any_eq_true _ _).mp hc.2
    exact h.setMachine hc.1 (h.active hm (by simpa using hactive))
  · cases hs

theorem next (h : Inv s) {a : Action} (hs : TemplateUse.step s a = some s') : Inv s' := by
  cases a with
  | publish t => exact h.of_publish hs
  | removeLock id organizationId projectId => exact h.of_removeLock hs
  | removeCheck t => exact h.of_removeCheck hs
  | removeCommit t => exact h.of_removeCommit hs
  | rollback tx =>
    cases hs
    exact h.finish tx
  | insertLock m => exact h.of_insertLock hs
  | insertCommit m => exact h.of_insertCommit hs
  | reserveSelect r hostId => exact h.of_reserveSelect hs
  | reserveAssign r candidateTemplate hostId => exact h.of_reserveAssign hs
  | reserveCommit r candidateTemplate hostId => exact h.of_reserveCommit hs
  | forkLock sourceId children => exact h.of_forkLock hs
  | forkInsert sourceId children => exact h.of_forkInsert hs
  | forkCommit sourceId children => exact h.of_forkCommit hs
  | enqueueRead =>
    cases hs
    exact h.begin trivial List.nodup_nil (fun _ hm => nomatch hm) (fun _ ht => nomatch ht) (fun _ ht => nomatch ht)
  | enqueueCommit pairs => exact h.of_enqueueCommit hs
  | claim t hostId => exact h.of_updateReplica hs
  | markReady t hostId => exact h.of_updateReplica hs
  | markFailed t hostId =>
    cases hs
    exact h.setReplicas _ _
  | setHost host =>
    cases hs
    exact h.of_eq rfl rfl rfl
  | moveMachine id state => exact h.of_moveMachine hs

theorem initial : Inv TemplateUse.initial where
  keyed := List.nodup_nil
  machineKeyed := List.nodup_nil
  locks := List.nodup_nil
  excluded := List.forall_mem_nil _
  holds := List.forall_mem_nil _
  machines := List.forall_mem_nil _

end Inv

/-! ### What the readers without a lock have found -/

/-- No transaction has read a template that is deleted by now, and nothing was committed for a deleted one. -/
structure Current (s : State) : Prop where
  reads : ∀ tx ∈ s.txs, ∀ t, tx.reads t = true → s.deleted t = false
  uses : ∀ u ∈ s.uses, u.deleted = false

namespace Current

variable {s s' : State} {tx : Tx} {t hostId sourceId : String} {r : Request} {candidateTemplate : Option String}
  {children : List Machine} {pairs : List (String × String)}

theorem of_eq (h : Current s) (ht : s'.templates = s.templates) (hx : s'.txs = s.txs) (hu : s'.uses = s.uses) :
    Current s' := by
  obtain ⟨templates, machines, replicas, hosts, txs, uses⟩ := s
  obtain ⟨templates', machines', replicas', hosts', txs', uses'⟩ := s'
  obtain rfl : templates' = templates := ht
  obtain rfl : txs' = txs := hx
  obtain rfl : uses' = uses := hu
  exact ⟨h.reads, h.uses⟩

theorem queue (h : Current s) (pairs : List (String × String)) : Current (s.queue pairs) := h.of_eq rfl rfl rfl

theorem finish (h : Current s) (tx : Tx) : Current (s.finish tx) :=
  ⟨fun tx' htx' => h.reads tx' (State.mem_txs_finish htx'), h.uses⟩

theorem begin (h : Current s) (htx : ∀ t, tx.reads t = true → s.deleted t = false) : Current (s.begin tx) := by
  refine ⟨fun tx' htx' => ?_, h.uses⟩
  rcases List.mem_append.mp htx' with htx' | htx'
  · exact h.reads tx' htx'
  · obtain rfl := List.mem_singleton.mp htx'
    exact htx

theorem record (h : Current s) {ts : List String} (hts : ∀ t ∈ ts, s.deleted t = false) : Current (s.record ts) := by
  refine ⟨h.reads, fun u hu => ?_⟩
  rcases List.mem_append.mp hu with hu | hu
  · exact h.uses u hu
  · obtain ⟨t, ht, rfl⟩ := List.mem_map.mp hu
    exact hts t ht

theorem of_publish (h : Current s) (hi : Inv s) {r : Template} (hs : s.publish r = some s') : Current s' := by
  unfold State.publish at hs
  split at hs
  · next hr =>
    cases hs
    have hadd : Current (s.addTemplate r) :=
      ⟨fun tx htx t ht => (State.deleted_addTemplate hr.1).trans (h.reads tx htx t ht), h.uses⟩
    have hlive : (s.addTemplate r).deleted r.id = false := by
      rw [State.deleted_eq_false]
      intro r' hr' hid
      rw [key_inj (hi.addTemplate hr.1 hr.2).keyed hr' (List.mem_append_right _ (List.mem_singleton_self r)) hid]
      exact hr.1
    refine (hadd.queue _).record ?_
    intro t ht
    obtain ⟨-, -, rfl⟩ := List.mem_map.mp ht
    exact hlive
  · cases hs

/-- A removal commits when no such transaction has read its template. -/
theorem of_removeCommit (h : Current s) (hg : Unread s (.removeCommit t) s') (hs : s.removeCommit t = some s') :
    Current s' := by
  unfold State.removeCommit at hs
  split at hs
  · cases hs
    have hdelete : Current (s.delete t) := by
      refine ⟨fun tx htx t' ht' => State.deleted_delete ?_ (h.reads tx htx t' ht'), h.uses⟩
      rintro rfl
      have hnone : tx.reads t' = false := hg tx htx
      rw [hnone] at ht'
      cases ht'
    exact hdelete.finish _
  · cases hs

theorem of_reserveSelect (h : Current s) (hi : Inv s) (hs : s.reserveSelect r hostId = some s') : Current s' := by
  unfold State.reserveSelect at hs
  dsimp only at hs
  split at hs
  · next hc =>
    cases hs
    refine h.begin fun t ht => ?_
    have ht : r.templateId = some t ∧ _ := of_decide_eq_true ht
    have hlive := hc.2.1
    rw [ht.1] at hlive
    exact State.deleted_of_isSome hi.keyed (Bool.and_eq_true_iff.mp hlive).1
  · cases hs

/-- The template of the request is that of the machine, which is not in a terminal state, or nobody has deleted it since
it was read. -/
theorem of_reserveCommit (h : Current s) (hi : Inv s) (hs : s.reserveCommit r candidateTemplate hostId = some s') :
    Current s' := by
  have hrequested : ∀ {assigned : Bool}, Tx.reserving r candidateTemplate hostId assigned ∈ s.txs →
      ∀ t, r.templateId = some t → candidateTemplate ≠ some t → s.deleted t = false :=
    fun htx t ht hne => h.reads _ htx t (decide_eq_true ⟨ht, hne⟩)
  unfold State.reserveCommit at hs
  split at hs
  · next hnone =>
    split at hs
    · next htx =>
      cases hs
      refine (h.record fun t ht => ?_).finish _
      refine hrequested htx t (Option.mem_toList.mp ht) ?_
      rw [(hi.holds _ htx).1 hnone]
      exact fun heq => nomatch heq
    · cases hs
  · next id hid =>
    split at hs
    · next htx =>
      cases hs
      have hcandidate : ∀ t, candidateTemplate = some t → s.deleted t = false := by
        intro t ht
        obtain ⟨m, hm, htemplate, hplace⟩ := (hi.holds _ htx).2 id hid
        exact hi.machines m (State.machine?_mem hm).1 (MachineState.active_of_placeable (hplace rfl)) t
          (htemplate.trans ht)
      refine Current.of_eq ((h.record fun t ht => ?_).finish _) rfl rfl rfl
      by_cases hc : candidateTemplate = some t
      · exact hcandidate t hc
      · rcases List.mem_append.mp ht with ht | ht
        · exact hrequested htx t (Option.mem_toList.mp ht) hc
        · exact absurd (Option.mem_toList.mp ht) hc
    · cases hs

theorem of_forkCommit (h : Current s) (hi : Inv s) (hs : s.forkCommit sourceId children = some s') : Current s' := by
  unfold State.forkCommit at hs
  split at hs
  · next hc =>
    cases hs
    have hadd : Current (s.addMachines children) := h.of_eq rfl rfl rfl
    refine (hadd.record fun t ht => ?_).finish _
    obtain ⟨c, hin, hct⟩ := List.mem_filterMap.mp ht
    exact hi.forking_live hc.1 c hin t hct
  · cases hs

theorem of_enqueueRead (h : Current s) (hi : Inv s) : Current s.enqueueRead := by
  refine h.begin fun t ht => ?_
  obtain ⟨p, hp, hpt⟩ := List.any_eq_true.mp ht
  obtain ⟨row, hrow, hin⟩ := List.mem_flatMap.mp hp
  obtain ⟨host, -, rfl⟩ := List.mem_map.mp hin
  obtain ⟨hrow, hlive⟩ := List.mem_filter.mp hrow
  have hpt : row.id = t := of_decide_eq_true hpt
  rw [State.deleted_eq_false]
  intro row' hrow' hid
  rw [key_inj hi.keyed hrow' hrow (hid.trans hpt.symm)]
  exact Bool.not_eq_true' row.deleted |>.mp hlive

theorem of_enqueueCommit (h : Current s) (hs : s.enqueueCommit pairs = some s') : Current s' := by
  unfold State.enqueueCommit at hs
  split at hs
  · next hc =>
    cases hs
    refine ((h.queue _).record fun t ht => ?_).finish _
    obtain ⟨p, hp, rfl⟩ := List.mem_map.mp ht
    refine h.reads _ hc.1 p.1 (List.any_eq_true.mpr ⟨p, (List.mem_filter.mp hp).1, decide_eq_true rfl⟩)
  · cases hs

theorem of_updateReplica (h : Current s) (hi : Inv s) {sources : List ReplicaState} {state : ReplicaState}
    (hs : s.updateReplica t hostId sources state = some s') : Current s' := by
  unfold State.updateReplica at hs
  split at hs
  · next hc =>
    cases hs
    have hset : Current (s.setReplicas (fun r => decide (r.templateId = t ∧ r.hostId = hostId)) state) := h.of_eq rfl rfl rfl
    refine hset.record fun t' ht' => ?_
    obtain rfl := List.mem_singleton.mp ht'
    exact State.deleted_of_isSome hi.keyed hc.1
  · cases hs

theorem of_removeLock (h : Current s) {id organizationId : String} {projectId : Option String}
    (hs : s.removeLock id organizationId projectId = some s') : Current s' := by
  unfold State.removeLock at hs
  split at hs
  · cases hs
  · split at hs
    · cases hs
      exact h.begin fun _ ht => nomatch ht
    · cases hs

theorem of_removeCheck (h : Current s) (hs : s.removeCheck t = some s') : Current s' := by
  unfold State.removeCheck at hs
  split at hs
  · cases hs
    split
    · exact h.finish _
    · exact (h.finish _).begin fun _ ht => nomatch ht
  · cases hs

theorem of_insertLock (h : Current s) {m : Machine} (hs : s.insertLock m = some s') : Current s' := by
  unfold State.insertLock at hs
  split at hs
  · split at hs
    · cases hs
      exact h.begin fun _ ht => nomatch ht
    · cases hs
  · split at hs
    · cases hs
    · split at hs
      · cases hs
        exact h.begin fun _ ht => nomatch ht
      · cases hs

theorem of_insertCommit (h : Current s) {m : Machine} (hs : s.insertCommit m = some s') : Current s' := by
  unfold State.insertCommit at hs
  split at hs
  · cases hs
    have hadd : Current (s.addMachines [m]) := h.of_eq rfl rfl rfl
    exact hadd.finish _
  · cases hs

theorem of_reserveAssign (h : Current s) (hs : s.reserveAssign r candidateTemplate hostId = some s') : Current s' := by
  unfold State.reserveAssign at hs
  split at hs
  · cases hs
  · split at hs
    · next hc =>
      cases hs
      exact (h.finish _).begin fun t ht => h.reads _ hc.1 t ht
    · cases hs

theorem of_forkLock (h : Current s) (hs : s.forkLock sourceId children = some s') : Current s' := by
  unfold State.forkLock at hs
  split at hs
  · cases hs
  · split at hs
    · cases hs
      exact h.begin fun _ ht => nomatch ht
    · cases hs

theorem of_forkInsert (h : Current s) (hs : s.forkInsert sourceId children = some s') : Current s' := by
  unfold State.forkInsert at hs
  split at hs
  · cases hs
    exact (h.finish _).begin fun _ ht => nomatch ht
  · cases hs

theorem of_moveMachine (h : Current s) {id : String} {state : MachineState}
    (hs : s.moveMachine id state = some s') : Current s' := by
  unfold State.moveMachine at hs
  split at hs
  · cases hs
    exact h.of_eq rfl rfl rfl
  · cases hs

theorem next (h : Current s) (hi : Inv s) {a : Action} (hs : TemplateUse.step s a = some s') (hg : Unread s a s') :
    Current s' := by
  cases a with
  | publish t => exact h.of_publish hi hs
  | removeLock id organizationId projectId =>
    exact h.of_removeLock hs
  | removeCheck t => exact h.of_removeCheck hs
  | removeCommit t => exact h.of_removeCommit hg hs
  | rollback tx =>
    cases hs
    exact h.finish tx
  | insertLock m => exact h.of_insertLock hs
  | insertCommit m => exact h.of_insertCommit hs
  | reserveSelect r hostId => exact h.of_reserveSelect hi hs
  | reserveAssign r candidateTemplate hostId => exact h.of_reserveAssign hs
  | reserveCommit r candidateTemplate hostId => exact h.of_reserveCommit hi hs
  | forkLock sourceId children => exact h.of_forkLock hs
  | forkInsert sourceId children => exact h.of_forkInsert hs
  | forkCommit sourceId children => exact h.of_forkCommit hi hs
  | enqueueRead =>
    cases hs
    exact h.of_enqueueRead hi
  | enqueueCommit pairs => exact h.of_enqueueCommit hs
  | claim t hostId => exact h.of_updateReplica hi hs
  | markReady t hostId => exact h.of_updateReplica hi hs
  | markFailed t hostId =>
    cases hs
    exact h.of_eq rfl rfl rfl
  | setHost host =>
    cases hs
    exact h.of_eq rfl rfl rfl
  | moveMachine id state => exact h.of_moveMachine hs

end Current

/-! ### Deleted templates -/

section Runs

variable {as : List Action} {s : State}

/-- **A deleted template is not in use.**  In every run in which no removal commits between the read and the commit of
a transaction that reads the template under no lock, no active machine refers to a deleted template and no reservation
or replica was committed for one. -/
theorem deleted_template_unused
    (h : RunIn (fun s a t => step s a = some t) Unread initial as s) : Safe s := by
  have hboth : Inv s ∧ Current s := by
    refine h.invariant (I := fun s => Inv s ∧ Current s) ?_ ⟨Inv.initial, List.forall_mem_nil _, List.forall_mem_nil _⟩
    intro s a t hi hs hg
    exact ⟨hi.1.next hs, hi.2.next hi.1 hs hg⟩
  exact ⟨hboth.1.machines, hboth.2.uses⟩

end Runs

def sampleHost : Host := ⟨"h_1", "x86_64", true, true⟩

def sampleTemplate : Template := ⟨"t_1", "org_1", "p_1", "x86_64", false⟩

def sampleMachine (id : String) (state : MachineState) : Machine := ⟨id, "org_1", "p_1", some "t_1", state⟩

def sampleRequest : Request := ⟨"x86_64", some "t_1", some "m_1"⟩

/-- A machine is placed from a replica and forked; a first removal finds it in use, a second one does not. -/
def sampleRun : List Action :=
  [.setHost sampleHost, .publish sampleTemplate, .insertLock (sampleMachine "m_1" .requested),
    .insertCommit (sampleMachine "m_1" .requested), .claim "t_1" "h_1", .markReady "t_1" "h_1",
    .reserveSelect sampleRequest "h_1", .reserveAssign sampleRequest (some "t_1") "h_1", .removeLock "t_1" "org_1" none,
    .reserveCommit sampleRequest (some "t_1") "h_1", .removeCheck "t_1", .moveMachine "m_1" .running,
    .forkLock "m_1" [sampleMachine "m_2" .starting], .forkInsert "m_1" [sampleMachine "m_2" .starting],
    .forkCommit "m_1" [sampleMachine "m_2" .starting], .moveMachine "m_1" .stopped, .moveMachine "m_2" .failed,
    .removeLock "t_1" "org_1" none, .removeCheck "t_1", .removeCommit "t_1", .enqueueRead, .enqueueCommit []]

theorem deleted_template_unused_sample :
    ∃ s, Safe s ∧ s.deleted "t_1" = true ∧ s.machines.length = 2 ∧ s.uses.length = 6 := by
  have hrun : ∃ s, RunIn (fun s a t => step s a = some t) Unread (initial) sampleRun s ∧
      (s.deleted "t_1" = true ∧ s.machines.length = 2 ∧ s.uses.length = 6) := RunIn.of_test (by decide +kernel)
  obtain ⟨s, h, htest⟩ := hrun
  exact ⟨s, deleted_template_unused h, htest⟩

/-- `enqueueMissing` reads the live templates in its snapshot and waits in its insert for the removal of one of them; the
row of the template is still there afterwards, so that the replica of a deleted template is committed. -/
theorem replica_of_deleted_template :
    ∃ as s, Run (fun s a t => step s a = some t) initial as s ∧ ¬ Safe s := by
  have hrun : ∃ s, Run (fun s a t => step s a = some t) initial
      [.publish sampleTemplate, .setHost sampleHost, .removeLock "t_1" "org_1" none, .removeCheck "t_1", .enqueueRead,
        .removeCommit "t_1", .enqueueCommit [("t_1", "h_1")]] s ∧ ⟨"t_1", true⟩ ∈ s.uses := Run.of_test (by decide +kernel)
  obtain ⟨s, h, huse⟩ := hrun
  exact ⟨_, s, h, fun hsafe => nomatch hsafe.uses _ huse⟩

end Nehemiah.TemplateUse
