import Nehemiah.Host.Reconcile
import Nehemiah.Lib.Run

/-!
# The daemon

The manager together with its calls in flight.  A step is one section under the manager's lock, so every
interleaving of creates, forks, replays, destroys, expiries, readiness probes, checkpoints and
acknowledgements is a run of `DaemonStep`; a crash may come between any two steps, and the next process
starts over the file.

A crash inside a section adds nothing: no section saves again after a save that succeeded, so the file is
as if the remaining saves had failed.
-/

namespace Nehemiah.Host

open Billing Manager Lib

/-! ### Calls in flight -/

/-- Where a managed create stands. -/
inductive CreatePc
  | keyed
  | booting (r : ℕ)
  | published (r : ℕ) (ok : Bool)
  | refused
  | returned

structure CreateTask where
  req : CreateRequest
  pc : CreatePc

/-- Where a fork, or a replay of one, stands. -/
inductive ForkPc
  | checking (source : ℕ) (driver : Option Driver) (children : List ℕ)
  | booting (children : List ℕ) (next : ℕ)
  | awaiting (children : List ℕ)
  | rolling (children : List ℕ)
  | ending (failed : Bool)
  | closing (succeeded : Bool)
  | resolving
  | cleaning
  | returned (result : Except HostError (List ℕ))
  deriving DecidableEq

structure ForkTask where
  res : ℕ
  pc : ForkPc

/-- Where the process stands. -/
inductive Phase
  | down
  | reconciling (loaded : List PersistedMachine) (doc : MachineStateSnapshot)
      (operations : List PersistedForkOperation) (index : ℕ) (now : Time)
  | committing
  | settling
  | serving

structure Daemon where
  manager : Manager
  phase : Phase
  creates : List CreateTask
  forks : List ForkTask
  /-- Removed machines whose runtime is being torn down. -/
  teardowns : List ℕ

/-! ### Steps -/

/-- A step, with what it reads from its surroundings. -/
inductive Act
  | boot (bootId : Option String) (available : JailerIdentity → Bool) (now : Time) (fault : SaveFault)
  | reconcileNext (probe : RuntimeProbe) (reading : Reading) (updatedAt : String) (now : Time)
      (fault : SaveFault)
  | reconcileForks (readings : ℕ → Reading)
  | reconcileCommit (now : Time) (fault : SaveFault)
  | releaseHeld (id : String) (verified : Bool) (now : Time) (fault : SaveFault)
  | serve
  | crash
  | createBegin (req : CreateRequest)
  | createReserve (i : ℕ) (draw : Draw) (refusal : Option HostError) (memory : Bool) (now : Time)
      (fault : SaveFault)
  | createAbandon (i : ℕ) (reason : String) (now : Time) (fault : SaveFault)
  | createPublish (i : ℕ) (driver : Driver) (overlayMb : ℕ) (reading : Reading) (now : Time)
      (fault fault' : SaveFault)
  | createEnd (i : ℕ)
  | forkBegin (req : ForkRequest) (probe : ForkProbe) (now : Time) (fault fault' : SaveFault)
  | forkCheck (i : ℕ) (snapshotTaken : Bool)
  | forkBootFailed (i : ℕ)
  | forkPublish (i : ℕ) (driver : Driver) (reading : Reading) (now : Time) (fault : SaveFault)
  | forkAwaited (i : ℕ) (ready : Bool)
  | forkRollback (i : ℕ) (readings : ℕ → Reading) (now : Time) (fault : SaveFault)
  | forkFinish (i : ℕ) (readings : ℕ → Reading) (now : Time) (fault fault' : SaveFault)
  | forkClose (i : ℕ)
  | forkResult (i : ℕ) (readings : ℕ → Reading) (now : Time) (fault : SaveFault)
  | forkCleaned (i : ℕ)
  | ready (id : String) (now : Time) (fault : SaveFault)
  | extend (id leaseId key : String) (target now : Time) (fault : SaveFault)
  | destroy (id : String) (reading : Reading) (now : Time) (fault : SaveFault)
  | reap (id : String) (reading : Reading) (now : Time) (fault : SaveFault)
  | teardown (i : ℕ) (verified : Bool) (now : Time) (fault : SaveFault)
  | checkpoint (order : List ℕ) (readings : ℕ → Reading) (now : Time) (fault : SaveFault)
  | acknowledge (sent : List HostUsageObservation) (receipts : List Receipt) (now : Time)
      (fault : SaveFault)
  | persist (now : Time) (fault : SaveFault)
  | health (network cohort : Bool)

variable (cfg : Config)

/-- The process ends; the file stays. -/
def Daemon.exit (d : Daemon) : Daemon :=
  { manager := fresh d.manager.store d.manager.saves none
    phase := .down
    creates := []
    forks := []
    teardowns := [] }

def Daemon.withManager (d : Daemon) (m : Manager) : Daemon := { d with manager := m }

def Daemon.setCreate (d : Daemon) (i : ℕ) (task : CreateTask) (pc : CreatePc) : Daemon :=
  { d with creates := d.creates.set i { task with pc := pc } }

def Daemon.setFork (d : Daemon) (i : ℕ) (task : ForkTask) (pc : ForkPc) : Daemon :=
  { d with forks := d.forks.set i { task with pc := pc } }

def Daemon.tearDown (d : Daemon) (rs : List ℕ) : Daemon := { d with teardowns := d.teardowns ++ rs }

/-- `NewManager` and the first part of `Reconcile`. -/
def Daemon.start (d : Daemon) (bootId : Option String) (available : JailerIdentity → Bool) (now : Time)
    (fault : SaveFault) : Daemon :=
  let mgr := fresh d.manager.store d.manager.saves bootId
  let (store, doc) := mgr.store.load
  let loaded := { mgr with store := store }
  match validSnapshot cfg doc available now, retainedForkOperations cfg doc now with
  | true, some operations =>
    { d with manager := loaded.adopt doc, phase := .reconciling doc.machines doc operations 0 now }
  | _, _ =>
    let held := if identitiesAccepted cfg doc available then doc.jailerIdentities else []
    match recoverInvalid { loaded with stateHealthy := false, jailerIdentities := held } cfg now fault with
    | (x, true) => { d with manager := x, phase := .serving }
    | (x, false) => (d.withManager x).exit

/-- The next machine of the document. -/
def Daemon.reconcileMachine (d : Daemon) (loaded : List PersistedMachine) (doc : MachineStateSnapshot)
    (operations : List PersistedForkOperation) (index : ℕ) (started : Time) (p : PersistedMachine)
    (probe : RuntimeProbe) (reading : Reading) (updatedAt : String) (now : Time) (fault : SaveFault) :
    Daemon :=
  let p := upgraded p
  let doc := { doc with machines := doc.machines.set index p }
  match d.manager.lostReason cfg p probe started with
  | some reason =>
    match d.manager.finalizePersistedMachine doc index p reason updatedAt now fault with
    | (x, doc', true) =>
      { d with
        manager := x.logTransition p.id p.leaseId (some p.status) .lost (reasonText reason)
        phase := .reconciling loaded doc' operations (index + 1) started }
    | (x, _, false) => (d.withManager x).exit
  | none =>
    match d.manager.reattach p reading with
    | (x, true) => { d with manager := x, phase := .reconciling loaded doc operations (index + 1) started }
    | (x, false) => (d.withManager x).exit

/-- The steps of a create. -/
def Daemon.createStep (d : Daemon) : Act → Option Daemon
  | .createBegin req =>
    (d.manager.beginCreate req).map fun m => { d with manager := m, creates := d.creates ++ [⟨req, .keyed⟩] }
  | .createReserve i draw refusal memory now fault => do
    let task ← d.creates[i]?
    match task.pc with
    | .keyed =>
      if !d.manager.newIdFree draw.id then none
      else
        match d.manager.reserveCreate cfg task.req draw refusal memory now fault with
        | (m, .ok r) => some ((d.withManager m).setCreate i task (.booting r))
        | (m, .error _) => some ((d.withManager m).setCreate i task .refused)
    | _ => none
  | .createAbandon i reason now fault => do
    let task ← d.creates[i]?
    match task.pc with
    | .booting r =>
      some (((d.withManager (d.manager.abandonCreate cfg r reason now fault)).setCreate i task
        (.published r false)).tearDown [r])
    | _ => none
  | .createPublish i driver overlayMb reading now fault fault' => do
    let task ← d.creates[i]?
    match task.pc with
    | .booting r =>
      match d.manager.publishCreate cfg r driver overlayMb reading now fault fault' with
      | (m, true) => some ((d.withManager m).setCreate i task (.published r true))
      | (m, false) => some (((d.withManager m).setCreate i task (.published r false)).tearDown [r])
    | _ => none
  | .createEnd i => do
    let task ← d.creates[i]?
    match task.pc with
    | .published r ok =>
      let id := if ok then some (d.manager.objects r).id else none
      some ((d.withManager (d.manager.endCreate task.req.idempotencyKey id)).setCreate i task .returned)
    | .refused =>
      some ((d.withManager (d.manager.endCreate task.req.idempotencyKey none)).setCreate i task .returned)
    | _ => none
  | _ => none

/-- The first section of a fork. -/
def Daemon.beginFork (d : Daemon) (req : ForkRequest) (probe : ForkProbe) (now : Time)
    (fault fault' : SaveFault) : Option Daemon :=
  let ids := probe.draws.map (·.id)
  if !(validForkRequest req && probe.draws.length == req.children.length
      && ids.all d.manager.newIdFree && decide ids.Nodup) then none
  else
    match d.manager.beginFork cfg req probe now fault fault' with
    | (m, .refused _) => some (d.withManager m)
    | (m, .replay res) => some { d with manager := m, forks := d.forks ++ [⟨res, .resolving⟩] }
    | (m, .started res source children) =>
      some { d with
        manager := m
        forks := d.forks ++ [⟨res, .checking source (m.objects source).driver children⟩] }
    | (m, .cleaned res removed) =>
      some (Daemon.tearDown { d with
        manager := m
        forks := d.forks ++ [⟨res, .returned (.error .forkBatchCleaned)⟩] } removed)

/-- The later sections of a fork. -/
def Daemon.forkStep (d : Daemon) : Act → Option Daemon
  | .forkBegin req probe now fault fault' => d.beginFork cfg req probe now fault fault'
  | .forkCheck i snapshotTaken => do
    let task ← d.forks[i]?
    match task.pc with
    | .checking source driver children =>
      if d.manager.sourceCurrent source driver && snapshotTaken then
        some (d.setFork i task (.booting children 0))
      else some (d.setFork i task (.rolling children))
    | _ => none
  | .forkBootFailed i => do
    let task ← d.forks[i]?
    match task.pc with
    | .booting children _ => some (d.setFork i task (.rolling children))
    | _ => none
  | .forkPublish i driver reading now fault => do
    let task ← d.forks[i]?
    match task.pc with
    | .booting children next =>
      let r ← children[next]?
      match d.manager.publishChild cfg r driver reading now fault with
      | (m, true) =>
        some ((d.withManager m).setFork i task
          (if next + 1 < children.length then .booting children (next + 1) else .awaiting children))
      | (m, false) => some ((d.withManager m).setFork i task (.rolling children))
    | _ => none
  | .forkAwaited i ready => do
    let task ← d.forks[i]?
    match task.pc with
    | .awaiting children =>
      if ready && d.manager.childrenReady children then some (d.setFork i task (.ending false))
      else some (d.setFork i task (.rolling children))
    | _ => none
  | .forkRollback i readings now fault => do
    let task ← d.forks[i]?
    match task.pc with
    | .rolling children =>
      match d.manager.rollbackForkChildren cfg children readings now fault with
      | (m, removed) => some (((d.withManager m).setFork i task (.ending true)).tearDown removed)
    | _ => none
  | .forkFinish i readings now fault fault' => do
    let task ← d.forks[i]?
    match task.pc with
    | .ending failed =>
      match d.manager.finishFork cfg task.res failed readings now fault fault' with
      | (m, e) => some (((d.withManager m).setFork i task (.closing e.succeeded)).tearDown e.removed)
    | _ => none
  | .forkClose i => do
    let task ← d.forks[i]?
    match task.pc with
    | .closing succeeded =>
      some ((d.withManager (d.manager.closeReservation task.res)).setFork i task
        (if succeeded then .resolving else .returned (.error .forkBatchCleaned)))
    | _ => none
  | .forkResult i readings now fault => do
    let task ← d.forks[i]?
    match task.pc with
    | .resolving =>
      if !(d.manager.reservations task.res).done then none
      else
        match d.manager.forkReservationResult cfg task.res readings now fault with
        | (_, .wait) => none
        | (m, .answer result) => some ((d.withManager m).setFork i task (.returned result))
        | (m, .cleaned removed) => some (((d.withManager m).setFork i task .cleaning).tearDown removed)
    | _ => none
  | .forkCleaned i => do
    let task ← d.forks[i]?
    match task.pc with
    | .cleaning =>
      some ((d.withManager (d.manager.endCleanup task.res)).setFork i task
        (.returned (.error .forkBatchCleaned)))
    | _ => none
  | _ => none

def Daemon.stopped (d : Daemon) (x : Manager × Stop) : Daemon :=
  match x with
  | (m, .done r) => (d.withManager m).tearDown [r]
  | (m, _) => d.withManager m

/-- The steps that may come while the process runs, also during a restart: readiness and expiry of the
machines that are already there, and teardowns. -/
def Daemon.machineStep (d : Daemon) : Act → Option Daemon
  | .ready id now fault => some (d.withManager (d.manager.becomeReady cfg id now fault))
  | .reap id reading now fault => some (d.stopped (d.manager.reap cfg id reading now fault))
  | .teardown i verified now fault => do
    let r ← d.teardowns[i]?
    let m := d.manager.objects r
    some { d with
      manager := d.manager.releaseAfterTeardown cfg m.id m.jailerIdentity verified now fault
      teardowns := d.teardowns.eraseIdx i }
  | _ => none

/-- The other steps of a process that serves. -/
def Daemon.serveStep (d : Daemon) : Act → Option Daemon
  | .destroy id reading now fault => some (d.stopped (d.manager.destroy cfg id reading now fault))
  | .extend id leaseId key target now fault =>
    some (d.withManager (d.manager.extend cfg id leaseId key target now fault).1)
  | .checkpoint order readings now fault =>
    if order.Perm (d.manager.machines.filter d.manager.eligible) then
      some (d.withManager (d.manager.checkpoint cfg order readings now fault).1)
    else none
  | .acknowledge sent receipts now fault =>
    some (d.withManager (d.manager.acknowledge cfg sent receipts now fault).1)
  | .persist now fault => some (d.withManager (d.manager.persist cfg now fault).1)
  | .health network cohort =>
    some (d.withManager { d.manager with networkHealthy := network, runtimeCohortHealthy := cohort })
  | a => (d.createStep cfg a).orElse fun _ => d.forkStep cfg a

/-- The steps of a restart. -/
def Daemon.restartStep (d : Daemon) : Act → Option Daemon
  | .reconcileNext probe reading updatedAt now fault =>
    match d.phase with
    | .reconciling loaded doc operations index started => do
      let p ← doc.machines[index]?
      some (d.reconcileMachine cfg loaded doc operations index started p probe reading updatedAt now fault)
    | _ => none
  | .reconcileForks readings =>
    match d.phase with
    | .reconciling loaded doc operations index _ =>
      if index < doc.machines.length then none
      else
        let (m, removed) := settleOperations loaded readings d.manager operations
        some (Daemon.tearDown { d with manager := m, phase := .committing } removed)
    | _ => none
  | .reconcileCommit now fault =>
    match d.phase with
    | .committing =>
      match d.manager.persist cfg now fault with
      | (m, true) => some { d with manager := m, phase := .settling }
      | (m, false) => some (d.withManager m).exit
    | _ => none
  | .releaseHeld id verified now fault =>
    match d.phase with
    | .settling =>
      if d.manager.registered id then none
      else
        some (d.withManager (d.manager.releaseAfterTeardown cfg id (d.manager.jailerIdentities.lookup id)
          verified now fault))
    | _ => none
  | .serve =>
    match d.phase with
    | .settling => some { d with phase := .serving }
    | _ => none
  | _ => none

/-- One step of the daemon, `none` when it is not enabled. -/
def Daemon.step (d : Daemon) (a : Act) : Option Daemon :=
  match d.phase, a with
  | .down, .boot bootId available now fault => some (d.start cfg bootId available now fault)
  | .down, _ => none
  | _, .boot .. => none
  | _, .crash => some d.exit
  | phase, a =>
    (d.machineStep cfg a).orElse fun _ =>
      match phase with
      | .serving => d.serveStep cfg a
      | _ => d.restartStep cfg a

def DaemonStep (d : Daemon) (a : Act) (d' : Daemon) : Prop := d.step cfg a = some d'

/-! ### What a step is -/

/-- The process is running. -/
def Daemon.up (d : Daemon) : Prop := d.phase ≠ .down

/-- A fork request is well formed, and `newID` has drawn a free id for each child. -/
structure ForkDraws (mgr : Manager) (req : ForkRequest) (probe : ForkProbe) : Prop where
  valid : validForkRequest req = true
  length : probe.draws.length = req.children.length
  free : ∀ id ∈ probe.draws.map (·.id), mgr.newIdFree id = true
  nodup : (probe.draws.map (·.id)).Nodup

/-- Every step, by the section it runs. -/
inductive Stepped (d : Daemon) : Act → Daemon → Prop
  | boot (bootId : Option String) (available : JailerIdentity → Bool) (now : Time) (fault : SaveFault)
      (hp : d.phase = .down) :
      Stepped d (.boot bootId available now fault) (d.start cfg bootId available now fault)
  | crash (hp : d.up) : Stepped d .crash d.exit
  | ready (id : String) (now : Time) (fault : SaveFault) (hp : d.up) :
      Stepped d (.ready id now fault) (d.withManager (d.manager.becomeReady cfg id now fault))
  | reap (id : String) (reading : Reading) (now : Time) (fault : SaveFault) (hp : d.up) :
      Stepped d (.reap id reading now fault) (d.stopped (d.manager.reap cfg id reading now fault))
  | teardown (i r : ℕ) (verified : Bool) (now : Time) (fault : SaveFault) (hp : d.up)
      (hr : d.teardowns[i]? = some r) :
      Stepped d (.teardown i verified now fault) { d with
        manager := d.manager.releaseAfterTeardown cfg (d.manager.objects r).id
          (d.manager.objects r).jailerIdentity verified now fault
        teardowns := d.teardowns.eraseIdx i }
  | destroy (id : String) (reading : Reading) (now : Time) (fault : SaveFault) (hp : d.phase = .serving) :
      Stepped d (.destroy id reading now fault) (d.stopped (d.manager.destroy cfg id reading now fault))
  | extend (id leaseId key : String) (target now : Time) (fault : SaveFault) (hp : d.phase = .serving) :
      Stepped d (.extend id leaseId key target now fault)
        (d.withManager (d.manager.extend cfg id leaseId key target now fault).1)
  | checkpoint (order : List ℕ) (readings : ℕ → Reading) (now : Time) (fault : SaveFault)
      (hp : d.phase = .serving) (hperm : order.Perm (d.manager.machines.filter d.manager.eligible)) :
      Stepped d (.checkpoint order readings now fault)
        (d.withManager (d.manager.checkpoint cfg order readings now fault).1)
  | acknowledge (sent : List HostUsageObservation) (receipts : List Receipt) (now : Time)
      (fault : SaveFault) (hp : d.phase = .serving) :
      Stepped d (.acknowledge sent receipts now fault)
        (d.withManager (d.manager.acknowledge cfg sent receipts now fault).1)
  | persist (now : Time) (fault : SaveFault) (hp : d.phase = .serving) :
      Stepped d (.persist now fault) (d.withManager (d.manager.persist cfg now fault).1)
  | health (network cohort : Bool) (hp : d.phase = .serving) :
      Stepped d (.health network cohort)
        (d.withManager { d.manager with networkHealthy := network, runtimeCohortHealthy := cohort })
  | createBegin (req : CreateRequest) (m : Manager) (hp : d.phase = .serving)
      (hm : d.manager.beginCreate req = some m) :
      Stepped d (.createBegin req) { d with manager := m, creates := d.creates ++ [⟨req, .keyed⟩] }
  | createReserved (i : ℕ) (draw : Draw) (refusal : Option HostError) (memory : Bool) (now : Time)
      (fault : SaveFault) (task : CreateTask) (m : Manager) (r : ℕ) (hp : d.phase = .serving)
      (hi : d.creates[i]? = some task) (hpc : task.pc = .keyed) (hid : d.manager.newIdFree draw.id = true)
      (hm : d.manager.reserveCreate cfg task.req draw refusal memory now fault = (m, .ok r)) :
      Stepped d (.createReserve i draw refusal memory now fault)
        ((d.withManager m).setCreate i task (.booting r))
  | createRefused (i : ℕ) (draw : Draw) (refusal : Option HostError) (memory : Bool) (now : Time)
      (fault : SaveFault) (task : CreateTask) (m : Manager) (e : HostError) (hp : d.phase = .serving)
      (hi : d.creates[i]? = some task) (hpc : task.pc = .keyed) (hid : d.manager.newIdFree draw.id = true)
      (hm : d.manager.reserveCreate cfg task.req draw refusal memory now fault = (m, .error e)) :
      Stepped d (.createReserve i draw refusal memory now fault)
        ((d.withManager m).setCreate i task .refused)
  | createAbandon (i : ℕ) (reason : String) (now : Time) (fault : SaveFault) (task : CreateTask) (r : ℕ)
      (hp : d.phase = .serving) (hi : d.creates[i]? = some task) (hpc : task.pc = .booting r) :
      Stepped d (.createAbandon i reason now fault)
        (((d.withManager (d.manager.abandonCreate cfg r reason now fault)).setCreate i task
          (.published r false)).tearDown [r])
  | createPublish (i : ℕ) (driver : Driver) (overlayMb : ℕ) (reading : Reading) (now : Time)
      (fault fault' : SaveFault) (task : CreateTask) (r : ℕ) (m : Manager) (ok : Bool)
      (hp : d.phase = .serving) (hi : d.creates[i]? = some task) (hpc : task.pc = .booting r)
      (hm : d.manager.publishCreate cfg r driver overlayMb reading now fault fault' = (m, ok)) :
      Stepped d (.createPublish i driver overlayMb reading now fault fault')
        (((d.withManager m).setCreate i task (.published r ok)).tearDown (if ok then [] else [r]))
  | createEnd (i : ℕ) (task : CreateTask) (id : Option String) (hp : d.phase = .serving)
      (hi : d.creates[i]? = some task) :
      Stepped d (.createEnd i)
        ((d.withManager (d.manager.endCreate task.req.idempotencyKey id)).setCreate i task .returned)
  | forkRefused (req : ForkRequest) (probe : ForkProbe) (now : Time) (fault fault' : SaveFault)
      (m : Manager) (e : HostError) (hp : d.phase = .serving) (hdraws : ForkDraws d.manager req probe)
      (hm : d.manager.beginFork cfg req probe now fault fault' = (m, .refused e)) :
      Stepped d (.forkBegin req probe now fault fault') (d.withManager m)
  | forkReplay (req : ForkRequest) (probe : ForkProbe) (now : Time) (fault fault' : SaveFault)
      (m : Manager) (res : ℕ) (hp : d.phase = .serving) (hdraws : ForkDraws d.manager req probe)
      (hm : d.manager.beginFork cfg req probe now fault fault' = (m, .replay res)) :
      Stepped d (.forkBegin req probe now fault fault')
        { d with manager := m, forks := d.forks ++ [⟨res, .resolving⟩] }
  | forkStarted (req : ForkRequest) (probe : ForkProbe) (now : Time) (fault fault' : SaveFault)
      (m : Manager) (res source : ℕ) (children : List ℕ) (hp : d.phase = .serving)
      (hdraws : ForkDraws d.manager req probe)
      (hm : d.manager.beginFork cfg req probe now fault fault' = (m, .started res source children)) :
      Stepped d (.forkBegin req probe now fault fault') { d with
        manager := m
        forks := d.forks ++ [⟨res, .checking source (m.objects source).driver children⟩] }
  | forkUnsaved (req : ForkRequest) (probe : ForkProbe) (now : Time) (fault fault' : SaveFault)
      (m : Manager) (res : ℕ) (removed : List ℕ) (hp : d.phase = .serving)
      (hdraws : ForkDraws d.manager req probe)
      (hm : d.manager.beginFork cfg req probe now fault fault' = (m, .cleaned res removed)) :
      Stepped d (.forkBegin req probe now fault fault') (Daemon.tearDown { d with
        manager := m
        forks := d.forks ++ [⟨res, .returned (.error .forkBatchCleaned)⟩] } removed)
  | forkMoved (a : Act) (i : ℕ) (task : ForkTask) (pc : ForkPc) (hp : d.phase = .serving)
      (hi : d.forks[i]? = some task)
      (hpc : (∃ source driver children, task.pc = .checking source driver children ∧
          (pc = .rolling children ∨ pc = .booting children 0)) ∨
        (∃ children next, task.pc = .booting children next ∧ pc = .rolling children) ∨
        (∃ children, task.pc = .awaiting children ∧
          (pc = .rolling children ∨ pc = .ending false ∧ d.manager.childrenReady children = true)))
      (ha : (∃ taken, a = .forkCheck i taken) ∨ a = .forkBootFailed i ∨ ∃ ready, a = .forkAwaited i ready) :
      Stepped d a (d.setFork i task pc)
  | forkPublish (i : ℕ) (driver : Driver) (reading : Reading) (now : Time) (fault : SaveFault)
      (task : ForkTask) (children : List ℕ) (next r : ℕ) (m : Manager) (ok : Bool)
      (hp : d.phase = .serving) (hi : d.forks[i]? = some task) (hpc : task.pc = .booting children next)
      (hr : children[next]? = some r)
      (hm : d.manager.publishChild cfg r driver reading now fault = (m, ok)) :
      Stepped d (.forkPublish i driver reading now fault) ((d.withManager m).setFork i task
        (if ok then
          if next + 1 < children.length then .booting children (next + 1) else .awaiting children
        else .rolling children))
  | forkRollback (i : ℕ) (readings : ℕ → Reading) (now : Time) (fault : SaveFault) (task : ForkTask)
      (children : List ℕ) (hp : d.phase = .serving) (hi : d.forks[i]? = some task)
      (hpc : task.pc = .rolling children) :
      Stepped d (.forkRollback i readings now fault)
        (((d.withManager (d.manager.rollbackForkChildren cfg children readings now fault).1).setFork i task
          (.ending true)).tearDown (d.manager.rollbackForkChildren cfg children readings now fault).2)
  | forkFinish (i : ℕ) (readings : ℕ → Reading) (now : Time) (fault fault' : SaveFault) (task : ForkTask)
      (failed : Bool) (m : Manager) (e : ForkEnd) (hp : d.phase = .serving)
      (hi : d.forks[i]? = some task) (hpc : task.pc = .ending failed)
      (hm : d.manager.finishFork cfg task.res failed readings now fault fault' = (m, e)) :
      Stepped d (.forkFinish i readings now fault fault')
        (((d.withManager m).setFork i task (.closing e.succeeded)).tearDown e.removed)
  | forkClose (i : ℕ) (task : ForkTask) (succeeded : Bool) (hp : d.phase = .serving)
      (hi : d.forks[i]? = some task) (hpc : task.pc = .closing succeeded) :
      Stepped d (.forkClose i) ((d.withManager (d.manager.closeReservation task.res)).setFork i task
        (if succeeded then .resolving else .returned (.error .forkBatchCleaned)))
  | forkAnswered (i : ℕ) (readings : ℕ → Reading) (now : Time) (fault : SaveFault) (task : ForkTask)
      (m : Manager) (result : Except HostError (List ℕ)) (hp : d.phase = .serving)
      (hi : d.forks[i]? = some task) (hpc : task.pc = .resolving)
      (hdone : (d.manager.reservations task.res).done = true)
      (hm : d.manager.forkReservationResult cfg task.res readings now fault = (m, .answer result)) :
      Stepped d (.forkResult i readings now fault) ((d.withManager m).setFork i task (.returned result))
  | forkCleaning (i : ℕ) (readings : ℕ → Reading) (now : Time) (fault : SaveFault) (task : ForkTask)
      (m : Manager) (removed : List ℕ) (hp : d.phase = .serving)
      (hi : d.forks[i]? = some task) (hpc : task.pc = .resolving)
      (hdone : (d.manager.reservations task.res).done = true)
      (hm : d.manager.forkReservationResult cfg task.res readings now fault = (m, .cleaned removed)) :
      Stepped d (.forkResult i readings now fault)
        (((d.withManager m).setFork i task .cleaning).tearDown removed)
  | forkCleaned (i : ℕ) (task : ForkTask) (hp : d.phase = .serving) (hi : d.forks[i]? = some task)
      (hpc : task.pc = .cleaning) :
      Stepped d (.forkCleaned i) ((d.withManager (d.manager.endCleanup task.res)).setFork i task
        (.returned (.error .forkBatchCleaned)))
  | reconcileNext (loaded : List PersistedMachine) (doc : MachineStateSnapshot)
      (operations : List PersistedForkOperation) (index : ℕ) (started : Time) (p : PersistedMachine)
      (probe : RuntimeProbe) (reading : Reading) (updatedAt : String) (now : Time) (fault : SaveFault)
      (hp : d.phase = .reconciling loaded doc operations index started)
      (hi : doc.machines[index]? = some p) :
      Stepped d (.reconcileNext probe reading updatedAt now fault)
        (d.reconcileMachine cfg loaded doc operations index started p probe reading updatedAt now fault)
  | reconcileForks (loaded : List PersistedMachine) (doc : MachineStateSnapshot)
      (operations : List PersistedForkOperation) (index : ℕ) (started : Time) (readings : ℕ → Reading)
      (hp : d.phase = .reconciling loaded doc operations index started)
      (hi : doc.machines.length ≤ index) :
      Stepped d (.reconcileForks readings) (Daemon.tearDown { d with
        manager := (settleOperations loaded readings d.manager operations).1
        phase := .committing } (settleOperations loaded readings d.manager operations).2)
  | reconcileCommit (now : Time) (fault : SaveFault) (m : Manager) (ok : Bool)
      (hp : d.phase = .committing) (hm : d.manager.persist cfg now fault = (m, ok)) :
      Stepped d (.reconcileCommit now fault)
        (if ok then { d with manager := m, phase := .settling } else (d.withManager m).exit)
  | releaseHeld (id : String) (verified : Bool) (now : Time) (fault : SaveFault)
      (hp : d.phase = .settling) (hid : d.manager.registered id = false) :
      Stepped d (.releaseHeld id verified now fault) (d.withManager (d.manager.releaseAfterTeardown cfg id
        (d.manager.jailerIdentities.lookup id) verified now fault))
  | serve (hp : d.phase = .settling) : Stepped d .serve { d with phase := .serving }

section Inversion

variable {cfg} {d d' : Daemon} {a : Act}

theorem machineStep_stepped (hp : d.up) (h : d.machineStep cfg a = some d') : Stepped cfg d a d' := by
  cases a <;> simp only [Daemon.machineStep, Option.some.injEq, reduceCtorEq] at h
  case ready id now fault => exact h ▸ .ready id now fault hp
  case reap id reading now fault => exact h ▸ .reap id reading now fault hp
  case teardown i verified now fault =>
    obtain ⟨r, hr, h⟩ := Option.bind_eq_some_iff.mp h
    cases h
    exact .teardown i r verified now fault hp hr

theorem createStep_stepped (hp : d.phase = .serving) (h : d.createStep cfg a = some d') :
    Stepped cfg d a d' := by
  cases a <;> simp only [Daemon.createStep, reduceCtorEq] at h
  case createBegin req =>
    obtain ⟨m, hm, h⟩ := Option.map_eq_some_iff.mp h
    exact h ▸ .createBegin req m hp hm
  case createReserve i draw refusal memory now fault =>
    obtain ⟨task, hi, h⟩ := Option.bind_eq_some_iff.mp h
    split at h
    · next hpc =>
      split at h
      · cases h
      · next hid =>
        have hid : d.manager.newIdFree draw.id = true := by simpa using hid
        split at h
        · next m r hm =>
          cases h
          exact .createReserved i draw refusal memory now fault task m r hp hi hpc hid hm
        · next m e hm =>
          cases h
          exact .createRefused i draw refusal memory now fault task m e hp hi hpc hid hm
    · cases h
  case createAbandon i reason now fault =>
    obtain ⟨task, hi, h⟩ := Option.bind_eq_some_iff.mp h
    split at h
    · next r hpc =>
      cases h
      exact .createAbandon i reason now fault task r hp hi hpc
    · cases h
  case createPublish i driver overlayMb reading now fault fault' =>
    obtain ⟨task, hi, h⟩ := Option.bind_eq_some_iff.mp h
    split at h
    · next r hpc =>
      split at h
      · next m hm =>
        cases h
        have hs := @Stepped.createPublish cfg d i driver overlayMb reading now fault fault' task r m
          true hp hi hpc hm
        simpa [Daemon.tearDown] using hs
      · next m hm =>
        cases h
        exact .createPublish i driver overlayMb reading now fault fault' task r m false hp hi hpc hm
    · cases h
  case createEnd i =>
    obtain ⟨task, hi, h⟩ := Option.bind_eq_some_iff.mp h
    split at h
    · cases h
      exact .createEnd i task _ hp hi
    · cases h
      exact .createEnd i task none hp hi
    · cases h

theorem beginFork_stepped {req : ForkRequest} {probe : ForkProbe} {now : Time} {fault fault' : SaveFault}
    (hp : d.phase = .serving) (h : d.beginFork cfg req probe now fault fault' = some d') :
    Stepped cfg d (.forkBegin req probe now fault fault') d' := by
  simp only [Daemon.beginFork] at h
  split at h
  · cases h
  · next hguard =>
    simp only [Bool.not_eq_true, Bool.not_eq_false', Bool.and_eq_true, beq_iff_eq, List.all_eq_true,
      decide_eq_true_eq] at hguard
    have hdraws : ForkDraws d.manager req probe := ⟨hguard.1.1.1, hguard.1.1.2, hguard.1.2, hguard.2⟩
    split at h
    · next m e hm =>
      cases h
      exact .forkRefused req probe now fault fault' m e hp hdraws hm
    · next m res hm =>
      cases h
      exact .forkReplay req probe now fault fault' m res hp hdraws hm
    · next m res source children hm =>
      cases h
      exact .forkStarted req probe now fault fault' m res source children hp hdraws hm
    · next m res removed hm =>
      cases h
      exact .forkUnsaved req probe now fault fault' m res removed hp hdraws hm

theorem forkStep_stepped (hp : d.phase = .serving) (h : d.forkStep cfg a = some d') :
    Stepped cfg d a d' := by
  cases a <;> simp only [Daemon.forkStep, reduceCtorEq] at h
  case forkBegin req probe now fault fault' => exact beginFork_stepped hp h
  case forkCheck i snapshotTaken =>
    obtain ⟨task, hi, h⟩ := Option.bind_eq_some_iff.mp h
    split at h
    · next source driver children hpc =>
      split at h <;> cases h
      · exact .forkMoved _ i task _ hp hi (Or.inl ⟨source, driver, children, hpc, Or.inr rfl⟩)
          (Or.inl ⟨snapshotTaken, rfl⟩)
      · exact .forkMoved _ i task _ hp hi (Or.inl ⟨source, driver, children, hpc, Or.inl rfl⟩)
          (Or.inl ⟨snapshotTaken, rfl⟩)
    · cases h
  case forkBootFailed i =>
    obtain ⟨task, hi, h⟩ := Option.bind_eq_some_iff.mp h
    split at h
    · next children next hpc =>
      cases h
      exact .forkMoved _ i task _ hp hi (Or.inr (Or.inl ⟨children, next, hpc, rfl⟩)) (Or.inr (Or.inl rfl))
    · cases h
  case forkPublish i driver reading now fault =>
    obtain ⟨task, hi, h⟩ := Option.bind_eq_some_iff.mp h
    split at h
    · next children next hpc =>
      obtain ⟨r, hr, h⟩ := Option.bind_eq_some_iff.mp h
      split at h
      · next m hm =>
        cases h
        exact .forkPublish i driver reading now fault task children next r m true hp hi hpc hr hm
      · next m hm =>
        cases h
        exact .forkPublish i driver reading now fault task children next r m false hp hi hpc hr hm
    · cases h
  case forkAwaited i ready =>
    obtain ⟨task, hi, h⟩ := Option.bind_eq_some_iff.mp h
    split at h
    · next children hpc =>
      split at h
      · next hready =>
        cases h
        rw [Bool.and_eq_true] at hready
        exact .forkMoved _ i task _ hp hi
          (Or.inr (Or.inr ⟨children, hpc, Or.inr ⟨rfl, hready.2⟩⟩)) (Or.inr (Or.inr ⟨ready, rfl⟩))
      · cases h
        exact .forkMoved _ i task _ hp hi (Or.inr (Or.inr ⟨children, hpc, Or.inl rfl⟩))
          (Or.inr (Or.inr ⟨ready, rfl⟩))
    · cases h
  case forkRollback i readings now fault =>
    obtain ⟨task, hi, h⟩ := Option.bind_eq_some_iff.mp h
    split at h
    · next children hpc =>
      cases h
      exact .forkRollback i readings now fault task children hp hi hpc
    · cases h
  case forkFinish i readings now fault fault' =>
    obtain ⟨task, hi, h⟩ := Option.bind_eq_some_iff.mp h
    split at h
    · next failed hpc =>
      cases h
      exact .forkFinish i readings now fault fault' task failed _ _ hp hi hpc rfl
    · cases h
  case forkClose i =>
    obtain ⟨task, hi, h⟩ := Option.bind_eq_some_iff.mp h
    split at h
    · next succeeded hpc =>
      cases h
      exact .forkClose i task succeeded hp hi hpc
    · cases h
  case forkResult i readings now fault =>
    obtain ⟨task, hi, h⟩ := Option.bind_eq_some_iff.mp h
    split at h
    · next hpc =>
      split at h
      · cases h
      · next hdone =>
        have hdone : (d.manager.reservations task.res).done = true := by simpa using hdone
        split at h
        · cases h
        · next m result hm =>
          cases h
          exact .forkAnswered i readings now fault task m result hp hi hpc hdone hm
        · next m removed hm =>
          cases h
          exact .forkCleaning i readings now fault task m removed hp hi hpc hdone hm
    · cases h
  case forkCleaned i =>
    obtain ⟨task, hi, h⟩ := Option.bind_eq_some_iff.mp h
    split at h
    · next hpc =>
      cases h
      exact .forkCleaned i task hp hi hpc
    · cases h

theorem serveStep_stepped (hp : d.phase = .serving) (h : d.serveStep cfg a = some d') :
    Stepped cfg d a d' := by
  have htask : ∀ b, (d.createStep cfg b).orElse (fun _ => d.forkStep cfg b) = some d' →
      Stepped cfg d b d' := by
    intro b hb
    cases hc : d.createStep cfg b with
    | some x =>
      rw [hc] at hb
      cases hb
      exact createStep_stepped hp hc
    | none =>
      rw [hc] at hb
      exact forkStep_stepped hp hb
  cases a <;> simp only [Daemon.serveStep, Option.some.injEq] at h
  case destroy id reading now fault => exact h ▸ .destroy id reading now fault hp
  case extend id leaseId key target now fault => exact h ▸ .extend id leaseId key target now fault hp
  case checkpoint order readings now fault =>
    split at h
    · next hperm => exact Option.some.inj h ▸ .checkpoint order readings now fault hp hperm
    · cases h
  case acknowledge sent receipts now fault => exact h ▸ .acknowledge sent receipts now fault hp
  case persist now fault => exact h ▸ .persist now fault hp
  case health network cohort => exact h ▸ .health network cohort hp
  all_goals exact htask _ h

theorem restartStep_stepped (h : d.restartStep cfg a = some d') : Stepped cfg d a d' := by
  cases a <;> simp only [Daemon.restartStep, reduceCtorEq] at h
  case reconcileNext probe reading updatedAt now fault =>
    split at h
    · next loaded doc operations index started hp =>
      obtain ⟨p, hi, h⟩ := Option.bind_eq_some_iff.mp h
      cases h
      exact .reconcileNext loaded doc operations index started p probe reading updatedAt now fault hp hi
    · cases h
  case reconcileForks readings =>
    split at h
    · next loaded doc operations index started hp =>
      split at h
      · cases h
      · next hi =>
        cases h
        exact .reconcileForks loaded doc operations index started readings hp (not_lt.mp hi)
    · cases h
  case reconcileCommit now fault =>
    split at h
    · next hp =>
      split at h
      · next m hm =>
        cases h
        exact .reconcileCommit now fault m true hp hm
      · next m hm =>
        cases h
        exact .reconcileCommit now fault m false hp hm
    · cases h
  case releaseHeld id verified now fault =>
    split at h
    · next hp =>
      split at h
      · cases h
      · next hid =>
        cases h
        exact .releaseHeld id verified now fault hp (by simpa using hid)
    · cases h
  case serve =>
    split at h
    · next hp =>
      cases h
      exact .serve hp
    · cases h

/-- **Every step of the daemon is one of these sections.** -/
theorem Daemon.stepped (h : DaemonStep cfg d a d') : Stepped cfg d a d' := by
  have hlive : d.up → ∀ b, ((d.machineStep cfg b).orElse fun _ =>
      match d.phase with
      | .serving => d.serveStep cfg b
      | _ => d.restartStep cfg b) = some d' → Stepped cfg d b d' := by
    intro hup b hb
    cases hm : d.machineStep cfg b with
    | some x =>
      rw [hm] at hb
      cases hb
      exact machineStep_stepped hup hm
    | none =>
      rw [hm] at hb
      simp only [Option.orElse_none] at hb
      split at hb
      · next hp => exact serveStep_stepped hp hb
      · exact restartStep_stepped hb
  simp only [DaemonStep, Daemon.step] at h
  by_cases hp : d.phase = .down
  · rw [hp] at h
    cases a <;> simp only [Option.some.injEq, reduceCtorEq] at h
    case boot bootId available now fault => exact h ▸ .boot bootId available now fault hp
  · split at h
    · next heq => exact absurd heq hp
    · next heq _ => exact absurd heq hp
    · cases h
    · cases h
      exact .crash hp
    · exact hlive hp _ h

end Inversion

/-- A host before its first boot, over the document that it finds, if any. -/
def Daemon.found (doc : Option MachineStateSnapshot) : Daemon :=
  { manager := fresh ⟨doc, 0⟩ [] none
    phase := .down
    creates := []
    forks := []
    teardowns := [] }

/-- The state after a list of steps that all meet `guard`, for runs on fixed inputs. -/
def Daemon.runsIn (guard : Daemon → Act → Daemon → Prop) [∀ d a d', Decidable (guard d a d')] (d : Daemon) :
    List Act → Option Daemon
  | [] => some d
  | a :: rest =>
    match d.step cfg a with
    | none => none
    | some d' => if guard d a d' then d'.runsIn guard rest else none

theorem Daemon.runsIn_run (guard : Daemon → Act → Daemon → Prop) [∀ d a d', Decidable (guard d a d')]
    (acts : List Act) : ∀ (d d' : Daemon), d.runsIn cfg guard acts = some d' →
    RunIn (DaemonStep cfg) guard d acts d' := by
  induction acts with
  | nil =>
    intro d d' hr
    cases hr
    exact .nil _
  | cons a rest ih =>
    intro d d' hr
    simp only [Daemon.runsIn] at hr
    split at hr
    · cases hr
    · next x hx =>
      split at hr
      · next hg => exact .cons hx hg (ih x d' hr)
      · cases hr

/-- A run whose steps meet `guard` and whose last state passes a test. -/
theorem Daemon.runsIn_test {guard : Daemon → Act → Daemon → Prop} [∀ d a d', Decidable (guard d a d')]
    {d : Daemon} {acts : List Act} {test : Daemon → Prop} [DecidablePred test]
    (h : (d.runsIn cfg guard acts).any (fun d' => decide (test d')) = true) :
    ∃ d', RunIn (DaemonStep cfg) guard d acts d' ∧ test d' := by
  cases hr : d.runsIn cfg guard acts with
  | none =>
    rw [hr] at h
    cases h
  | some d' =>
    rw [hr] at h
    exact ⟨d', Daemon.runsIn_run cfg guard acts d d' hr, of_decide_eq_true h⟩

/-- A step without a condition. -/
def Unguarded (_ : Daemon) (_ : Act) (_ : Daemon) : Prop := True

instance (d : Daemon) (a : Act) (d' : Daemon) : Decidable (Unguarded d a d') := .isTrue trivial

/-! ### A small host, for runs on fixed inputs -/

namespace Sample

def config : Config :=
  { hostId := "host-a"
    runtimeCohort := "cohort-a"
    maxMachines := 8
    maxForks := 4
    maxForkOperations := 64
    defaultTtl := 3600
    maxTtl := 86400
    jailerUid := 100000
    jailerGid := 100000
    netEnable := false }

/-- The host's id of machine `n`. -/
def hostMachineId : ℕ → String
  | 0 => "m-0000000a"
  | 1 => "m-0000000b"
  | _ => "m-0000000c"

def publicId : ℕ → String
  | 0 => "m_aaaaaaaaaaaa"
  | 1 => "m_bbbbbbbbbbbb"
  | _ => "m_cccccccccccc"

def leaseId : ℕ → String
  | 0 => "11111111-1111-4111-8111-11111111111a"
  | 1 => "11111111-1111-4111-8111-11111111111b"
  | _ => "11111111-1111-4111-8111-11111111111c"

def bootId : String := "22222222-2222-4222-8222-222222222222"

/-- A reading `t` seconds after the boot. -/
def reading (t : ℕ) : Reading := ⟨some (t * 1000000000), some 0, "2026-01-01T00:00:00Z"⟩

def driver (n : ℕ) : Driver := ⟨1000 + n, "", "", false⟩

def draw (n : ℕ) : Draw := ⟨hostMachineId n, fun _ => true, "reservation"⟩

def createRequest (n : ℕ) : CreateRequest :=
  { idempotencyKey := leaseId n
    fingerprint := ""
    leaseId := leaseId n
    leaseGeneration := 1
    metadata := [("public_machine_id", publicId n)]
    template := "base"
    expiresAt := 1000
    persistent := false
    vcpus := 1
    memoryMb := 512
    diskMb := 1024
    runtimeRootfsSha256 := "" }

/-- The start of the process. -/
def boot : Act := .boot (some bootId) (fun _ => true) 0 .none

/-- The steps of the process on an empty file until it serves. -/
def firstBoot : List Act := [boot, .reconcileForks fun _ => reading 0, .reconcileCommit 0 .none, .serve]

/-- The create of machine `n`, the `n`-th create of the process, until the machine is ready. -/
def create (n : ℕ) : List Act :=
  [.createBegin (createRequest n),
   .createReserve n (draw n) none true 0 .none,
   .createPublish n (driver n) 0 (reading 1) 0 .none .none,
   .createEnd n,
   .ready (hostMachineId n) 0 .none]

/-- A fork of machine `0` with machine `1` as its only child. -/
def forkRequest : ForkRequest :=
  { sourceId := hostMachineId 0
    sourceLeaseId := leaseId 0
    idempotencyKey := "fork-a"
    fingerprint := ""
    expectation := {}
    children := [{
      leaseId := leaseId 1
      leaseGeneration := 1
      expiresAt := 1000
      metadata := [("public_machine_id", publicId 1), ("parent_machine_id", publicId 0),
        ("fork_operation_id", "fork-a")]
      vcpus := 1
      memoryMb := 512
      diskMb := 1024 }] }

/-- The fork up to the end of its boots, the first fork of the process. -/
def fork : List Act :=
  [.forkBegin forkRequest ⟨none, true, "", [draw 1]⟩ 0 .none .none,
   .forkCheck 0 true,
   .forkPublish 0 (driver 1) (reading 2) 0 .none]

/-- The next machine of the document is re-attached. -/
def recovered : Act := .reconcileNext ⟨true, true, true⟩ (reading 2) "2026-01-01T00:00:00Z" 0 .none

/-- The next machine of the document is lost. -/
def lost : Act := .reconcileNext ⟨true, false, true⟩ (reading 2) "2026-01-01T00:00:00Z" 0 .none

end Sample

end Nehemiah.Host
