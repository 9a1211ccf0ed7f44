import Nehemiah.Host.Flights

/-!
# Re-adoption

A restart over a document whose runtimes are all intact: which machines are in the registry when the
daemon serves again.  Every machine of the document is re-attached as it was recorded; the section over
the fork operations then removes the batches that failed, and also the batches that succeeded and of which
a child is missing, or was not ready yet (`machines_readopted`).
-/

namespace Nehemiah.Host

open Billing Manager Lib

/-- The document that a restart would load. -/
def Daemon.document (d : Daemon) : MachineStateSnapshot := d.manager.store.load.2

/-- The machine was running and ready, and it belongs to no fork operation recorded as pending or failed. -/
def MachineStateSnapshot.due (doc : MachineStateSnapshot) (p : PersistedMachine) : Bool :=
  p.status == .running && p.ready
    && doc.forks.all fun op => op.state == .succeeded || !op.childIds.contains p.id

/-- A machine as the document records it, with its runtime. -/
def PersistedMachine.recorded (p : PersistedMachine) : Machine :=
  { p.toMachineRecord with driver := p.runtime }

/-- All children of the operation are in the document and due, and together they are a sound batch. -/
def MachineStateSnapshot.whole (doc : MachineStateSnapshot) (op : PersistedForkOperation) : Bool :=
  op.childIds.all (fun id => (doc.machines.find? (·.id == id)).any fun p =>
      doc.due p && validSucceededForkChild op.key.sourceId p.recorded p)
    && validManagedForkBatch op.key.sourceId
      ((op.childIds.filterMap fun id => doc.machines.find? (·.id == id)).map (·.recorded))

/-- An operation that succeeded, is still retained, and has a child that is due is whole. -/
def MachineStateSnapshot.BatchesWhole (cfg : Config) (doc : MachineStateSnapshot) (now : Time) : Prop :=
  ∀ op ∈ (retainedForkOperations cfg doc now).getD [], op.state = .succeeded →
    (∃ p ∈ doc.machines, doc.due p = true ∧ p.id ∈ op.childIds) → doc.whole op = true

instance (cfg : Config) (doc : MachineStateSnapshot) (now : Time) : Decidable (doc.BatchesWhole cfg now) := by
  unfold MachineStateSnapshot.BatchesWhole
  infer_instance

/-- The runtime of the machine is intact: it is valid and responds, its network identity can be reasserted,
it has not expired, and the host has not been booted since. -/
def Manager.intact (mgr : Manager) (p : PersistedMachine) (probe : RuntimeProbe) (now : Time) : Bool :=
  probe.valid && probe.responding && probe.network && validHostMachineId p.id
    && p.runtime.any (1 < ·.pid) && (p.persistent || decide (now < p.expiresAt))
    && (p.metering.sequence == 0 || p.metering.hostBootId == mgr.hostBootId)

/-- The next machine of the document, if there is one, has an intact runtime. -/
def Daemon.readsIntact (d : Daemon) (probe : RuntimeProbe) : Bool :=
  match d.phase with
  | .reconciling _ doc _ index started => (doc.machines[index]?).all fun p => d.manager.intact p probe started
  | _ => true

/-- The steps of a restart over intact runtimes.  A machine may become ready at any time; none expires, and
the process does not crash. -/
def RestartIntact (d : Daemon) (a : Act) (_ : Daemon) : Prop :=
  match a with
  | .reconcileNext probe _ _ _ _ => d.readsIntact probe = true
  | .reconcileForks _ | .reconcileCommit _ _ | .releaseHeld _ _ _ _ | .serve => True
  | .ready _ _ _ | .teardown _ _ _ _ => True
  | _ => False

instance (d : Daemon) (a : Act) (d' : Daemon) : Decidable (RestartIntact d a d') := by
  apply Act.casesOn (motive := fun a => Decidable (RestartIntact d a d')) a <;> intros
    <;> dsimp only [RestartIntact] <;> infer_instance

/-- The machine has the record of the document: its lease, expiry, extensions and resources, with its
metering as it was, unless the metering had not begun. -/
structure Machine.Resumes (m : Machine) (p : PersistedMachine) : Prop where
  record : m.toMachineRecord = { p.toMachineRecord with
    status := m.status
    ready := m.ready
    leaseGeneration := (upgraded p).leaseGeneration
    metering := m.metering }
  metering : 0 < p.metering.sequence ∨ metered p.toMachineRecord = false → m.metering = p.metering
  driver : m.driver = p.runtime
  live : m.status = .starting ∨ m.status = .running

/-- The machine of the document is registered again. -/
def Manager.Readopted (mgr : Manager) (p : PersistedMachine) : Prop :=
  ∃ r, mgr.find p.id = some r ∧ (mgr.objects r).Resumes p

section Registry

variable {mgr x : Manager} {p : PersistedMachine}

theorem Machine.Resumes.id {m : Machine} (h : m.Resumes p) : m.id = p.id := by
  have hr := congrArg MachineRecord.id h.record
  exact hr

theorem Machine.Resumes.ready {m : Machine} (h : m.Resumes p) :
    ({ m with ready := true, status := .running } : Machine).Resumes p := by
  refine ⟨?_, h.metering, h.driver, Or.inr rfl⟩
  show ({ m.toMachineRecord with ready := true, status := .running } : MachineRecord) = _
  rw [h.record]

/-- The registry is as before, and the machines of the document that were back are back. -/
structure Manager.Rests (mgr x : Manager) : Prop extends SameRegistry mgr x where
  next : x.nextObject = mgr.nextObject
  back : ∀ p, mgr.Readopted p → x.Readopted p

theorem Manager.Rests.of_same (hm : x.machines = mgr.machines) (ho : x.objects = mgr.objects)
    (hn : x.nextObject = mgr.nextObject) : mgr.Rests x := by
  refine ⟨⟨hm, fun r => by rw [ho]⟩, hn, fun p ⟨r, hr, hs⟩ => ⟨r, ?_, by rwa [ho]⟩⟩
  rwa [find, hm, ho]

theorem Manager.Rests.keyed (h : mgr.Rests x) (hk : mgr.Keyed) : x.Keyed := by
  rw [Keyed, h.machines, List.map_congr_left fun r _ => h.ids r]
  exact hk

/-- A machine that becomes ready is still the machine of the document. -/
theorem becomeReady_rests (mgr : Manager) (cfg : Config) (id : String) (now : Time) (fault : SaveFault) :
    mgr.Rests (mgr.becomeReady cfg id now fault) := by
  simp only [Manager.becomeReady]
  split
  · exact .of_same rfl rfl rfl
  · next r _ =>
    split
    · exact .of_same rfl rfl rfl
    · set x := mgr.modifyMachine r fun m => { m with ready := true, status := .running } with hx
      have hsame : mgr.SameRegistry x := modifyMachine_registry mgr r _ fun _ => rfl
      have hback : ∀ p, mgr.Readopted p → x.Readopted p := by
        rintro p ⟨r', hr', hs⟩
        refine ⟨r', (find_congr hsame.machines hsame.ids p.id).trans hr', ?_⟩
        by_cases hne : r' = r
        · have hobj : x.objects r' = { mgr.objects r' with ready := true, status := .running } := by
            rw [hx, hne]
            simp [Manager.modifyMachine]
          rw [hobj]
          exact hs.ready
        · have hobj : x.objects r' = mgr.objects r' := by
            rw [hx]
            simp [Manager.modifyMachine, hne]
          rwa [hobj]
      exact ⟨⟨rfl, hsame.ids⟩, rfl, hback⟩

theorem releaseAfterTeardown_rests (mgr : Manager) (cfg : Config) (id : String) (expected : Option JailerIdentity)
    (verified : Bool) (now : Time) (fault : SaveFault) :
    mgr.Rests (mgr.releaseAfterTeardown cfg id expected verified now fault) := by
  simp only [releaseAfterTeardown]
  split
  · exact .of_same rfl rfl rfl
  · split
    · exact .of_same rfl rfl rfl
    · split
      · next y hy =>
        obtain rfl : _ = y := congrArg Prod.fst hy
        exact .of_same rfl rfl rfl
      · next y hy =>
        obtain rfl : _ = y := congrArg Prod.fst hy
        exact .of_same rfl rfl rfl

theorem upgraded_eq (p : PersistedMachine) :
    upgraded p = { p with leaseGeneration := (upgraded p).leaseGeneration } := by
  simp only [upgraded]
  split <;> rfl

theorem intact_reason {probe : RuntimeProbe} {now : Time} {cfg : Config}
    (h : mgr.intact p probe now = true) : mgr.lostReason cfg (upgraded p) probe now = none := by
  simp only [intact, Bool.and_eq_true, Bool.or_eq_true, beq_iff_eq, decide_eq_true_eq] at h
  obtain ⟨⟨⟨⟨⟨⟨hvalid, hresponding⟩, hnetwork⟩, hmachine⟩, hpid⟩, hexpiry⟩, hboot⟩ := h
  rw [upgraded_eq]
  have hlive : (!p.persistent && decide (p.expiresAt ≤ now)) = false := by
    rcases hexpiry with hkeep | hlater
    · rw [hkeep]
      rfl
    · rw [decide_eq_false (not_le.mpr hlater), Bool.and_false]
  have hsame : (decide (0 < p.metering.sequence) && p.metering.hostBootId != mgr.hostBootId) = false := by
    rcases hboot with hzero | hhost
    · rw [hzero]
      rfl
    · rw [hhost, bne_self_eq_false, Bool.and_false]
  simp [lostReason, hvalid, hresponding, hnetwork, hmachine, hpid, hlive, hsame]

end Registry

/-! ### The machines -/

/-- The machines of the document up to `index` are back. -/
structure Readopting (doc : MachineStateSnapshot) (mgr : Manager) (index : ℕ) : Prop where
  placed : mgr.Placed
  keyed : mgr.Keyed
  known : ∀ r ∈ mgr.machines, (mgr.objects r).id ∈ (doc.machines.take index).map (·.id)
  back : ∀ p ∈ doc.machines.take index, mgr.Readopted p

section Machines

variable {mgr x : Manager} {doc : MachineStateSnapshot} {index : ℕ}

theorem Readopting.rests (h : Readopting doc mgr index) (hx : mgr.Rests x) : Readopting doc x index := by
  refine ⟨fun r hr => ?_, hx.keyed h.keyed, fun r hr => ?_, fun p hp => hx.back p (h.back p hp)⟩
  · rw [hx.next]
    exact h.placed r (hx.machines ▸ hr)
  · rw [hx.ids]
    exact h.known r (hx.machines ▸ hr)

/-- The next machine of the document rejoins. -/
theorem Readopting.next (h : Readopting doc mgr index) (hids : (doc.machines.map (·.id)).Nodup)
    {p : PersistedMachine} (hp : doc.machines[index]? = some p) {reading : Reading}
    (hx : mgr.reattach (upgraded p) reading = (x, true)) : Readopting doc x (index + 1) := by
  have hid : (upgraded p).id = p.id := by rw [upgraded_eq]
  have htake : doc.machines.take (index + 1) = doc.machines.take index ++ [p] := by
    rw [List.take_add_one, hp]
    rfl
  have hnew : p.id ∉ (doc.machines.take index).map (·.id) := by
    have hn := hids.sublist ((List.take_sublist (index + 1) doc.machines).map (·.id))
    rw [htake, List.map_append] at hn
    exact fun hmem => (List.nodup_append.mp hn).2.2 _ hmem _ (List.mem_singleton_self _) rfl
  have hfree : mgr.registered (upgraded p).id = false := by
    rw [← Bool.not_eq_true, registered_iff, hid]
    rintro ⟨r, hr, hrid⟩
    exact hnew (hrid ▸ h.known r hr)
  have hrejoined := reattach_rejoined mgr h.placed hfree hx
  obtain ⟨s, reserved, hmachine, hs⟩ := hrejoined.machine
  have hold : ∀ r ∈ mgr.machines, x.objects r = mgr.objects r := fun r hr =>
    hrejoined.others r (h.placed r hr).ne
  have hnewid : (x.objects mgr.nextObject).id = p.id := by
    rw [hmachine]
    exact hid
  have hkeyed : x.Keyed := by
    rw [Keyed, hrejoined.machines, List.map_append, List.map_congr_left fun r hr => by rw [hold r hr]]
    refine List.nodup_append.mpr ⟨h.keyed, List.nodup_singleton _, fun id hmem id' hmem' heq => ?_⟩
    obtain ⟨r, hr, rfl⟩ := List.mem_map.mp hmem
    have hrid : (mgr.objects r).id = p.id := (heq.trans (List.mem_singleton.mp hmem')).trans hnewid
    exact hnew (hrid ▸ h.known r hr)
  refine ⟨fun r hr => ?_, hkeyed, fun r hr => ?_, fun q hq => ?_⟩
  · rw [hrejoined.next]
    rcases List.mem_append.mp (hrejoined.machines ▸ hr) with hr | hr
    · exact Nat.lt_succ_of_lt (h.placed r hr)
    · exact List.mem_singleton.mp hr ▸ Nat.lt_succ_self _
  · rw [htake, List.map_append]
    rcases List.mem_append.mp (hrejoined.machines ▸ hr) with hr | hr
    · exact List.mem_append_left _ (hold r hr ▸ h.known r hr)
    · rw [List.mem_singleton.mp hr, hnewid]
      exact List.mem_append_right _ (List.mem_singleton_self _)
  · rw [htake] at hq
    rcases List.mem_append.mp hq with hq | hq
    · obtain ⟨r, hr, hresumes⟩ := h.back q hq
      have hmem := (find_some hr).1
      refine ⟨r, ?_, by rwa [hold r hmem]⟩
      have hxr : r ∈ x.machines := hrejoined.machines ▸ List.mem_append_left _ hmem
      have hfind := find_of_mem hkeyed hxr
      rwa [hold r hmem, hresumes.id] at hfind
    · rw [List.mem_singleton.mp hq]
      have hxr : mgr.nextObject ∈ x.machines :=
        hrejoined.machines ▸ List.mem_append_right _ (List.mem_singleton_self _)
      have hfind := find_of_mem hkeyed hxr
      rw [hnewid] at hfind
      refine ⟨_, hfind, ?_⟩
      rw [hmachine]
      refine ⟨?_, fun hq => ?_, ?_, Or.inl rfl⟩
      · show ({ (upgraded p).toMachineRecord with status := .starting, ready := false, metering := s } :
          MachineRecord) = _
        rw [upgraded_eq]
        rfl
      · have hmetering : (upgraded p).metering = p.metering := by rw [upgraded_eq]
        have hmetered : metered (upgraded p).toMachineRecord = metered p.toMachineRecord := by
          rw [upgraded_eq]
          rfl
        rw [hmetering, hmetered] at hs
        rcases hs with rfl | ⟨hzero, _, hstart⟩
        · rfl
        · rcases hq with hq | hq
          · omega
          · rw [hstart] at hq
            cases hq
      · show (upgraded p).runtime = p.runtime
        rw [upgraded_eq]

end Machines

/-! ### The fork operations -/

/-- Every machine that is due is back. -/
structure Settling (doc : MachineStateSnapshot) (mgr : Manager) : Prop where
  keyed : mgr.Keyed
  back : ∀ p ∈ doc.machines, doc.due p = true → mgr.Readopted p

section Operations

variable {mgr x : Manager} {doc : MachineStateSnapshot} {op : PersistedForkOperation}

theorem Settling.rests (h : Settling doc mgr) (hx : mgr.Rests x) : Settling doc x :=
  ⟨hx.keyed h.keyed, fun p hp hd => hx.back p (h.back p hp hd)⟩

/-- What `validManagedForkBatch` reads of a machine. -/
def Machine.bare (m : Machine) : Machine :=
  { m with
    status := .running
    ready := false
    leaseGeneration := 0
    metering := {}
    meteringReserved := false
    jailerIdentity := none }

theorem validManagedForkBatch_bare (sourceId : String) (children : List Machine) :
    validManagedForkBatch sourceId (children.map (·.bare)) = validManagedForkBatch sourceId children := by
  cases children with
  | nil => rfl
  | cons first rest =>
    simp only [validManagedForkBatch, List.map_cons, List.all_cons, List.all_map, List.map_map]
    rfl

theorem Machine.Resumes.bare {m : Machine} {p : PersistedMachine} (h : m.Resumes p) :
    m.bare = p.recorded.bare := by
  have hm : m.bare = ({ m.toMachineRecord with driver := m.driver } : Machine).bare := rfl
  rw [hm, h.record, h.driver]
  rfl

/-- A machine of the document that has rejoined passes the checks that its record passes. -/
theorem Machine.Resumes.valid {m : Machine} {p : PersistedMachine} (h : m.Resumes p) {sourceId : String}
    (hp : validSucceededForkChild sourceId p.recorded p = true) : validSucceededForkChild sourceId m p = true := by
  have hbare : ∀ m : Machine, validSucceededForkChild sourceId m p = validSucceededForkChild sourceId m.bare p :=
    fun _ => rfl
  rw [hbare, h.bare, ← hbare]
  exact hp

/-- A batch that is whole in the document is recovered. -/
theorem Settling.recovered (h : Settling doc mgr) (hwhole : doc.whole op = true) :
    mgr.batchRecovered doc.machines op = true := by
  simp only [MachineStateSnapshot.whole, Bool.and_eq_true, List.all_eq_true] at hwhole
  obtain ⟨hchildren, hbatch⟩ := hwhole
  have hchild : ∀ id ∈ op.childIds, ∃ p r, doc.machines.find? (·.id == id) = some p ∧ mgr.find id = some r ∧
      (mgr.objects r).Resumes p ∧ validSucceededForkChild op.key.sourceId p.recorded p = true := by
    intro id hid
    obtain ⟨p, hp, hdue⟩ := (Option.any_eq_true _ _).mp (hchildren id hid)
    rw [Bool.and_eq_true] at hdue
    have hpid : p.id = id := by simpa using List.find?_some hp
    obtain ⟨r, hr, hresumes⟩ := h.back p (List.mem_of_find?_eq_some hp) hdue.1
    exact ⟨p, r, hp, hpid ▸ hr, hresumes, hdue.2⟩
  have hsame : ∀ ids : List String, (∀ id ∈ ids, id ∈ op.childIds) →
      ((ids.filterMap mgr.find).map mgr.objects).map (·.bare)
        = ((ids.filterMap fun id => doc.machines.find? (·.id == id)).map (·.recorded)).map (·.bare) := by
    intro ids
    induction ids with
    | nil => exact fun _ => rfl
    | cons id rest ih =>
      intro hall
      obtain ⟨p, r, hp, hr, hresumes, _⟩ := hchild id (hall id List.mem_cons_self)
      have hrest := ih fun id hid => hall id (List.mem_cons_of_mem _ hid)
      simp only [List.filterMap_cons, hp, hr, List.map_cons, hresumes.bare]
      exact congrArg _ hrest
  rw [batchRecovered, Bool.and_eq_true]
  constructor
  · rw [List.all_eq_true]
    intro id hid
    obtain ⟨p, r, hp, hr, hresumes, hvalid⟩ := hchild id hid
    simp only [hp, hr, hresumes.valid hvalid, Bool.true_and]
    rcases hresumes.live with hs | hs <;> rw [hs] <;> rfl
  · rw [← validManagedForkBatch_bare, hsame _ fun _ hid => hid, validManagedForkBatch_bare]
    exact hbatch

/-- Removing the children of an operation leaves the other machines of the document alone. -/
theorem Settling.remove (h : Settling doc mgr) {ids : List String}
    (hdue : ∀ p ∈ doc.machines, doc.due p = true → p.id ∉ ids) (reason : String) (readings : ℕ → Reading) :
    Settling doc (mgr.removeForkChildren ids reason readings).1 := by
  have hx := removeForkChildren_prunes h.keyed (.refl h.keyed ids) reason readings
  set x := (mgr.removeForkChildren ids reason readings).1
  have hid : ∀ r, (x.objects r).id = (mgr.objects r).id := fun r => by rw [hx.objects r]
  have hkeyed : x.Keyed := by
    refine hx.nodup.map_on fun r hr r' hr' heq => ?_
    rw [hid, hid] at heq
    exact List.inj_on_of_nodup_map h.keyed (hx.machines r hr) (hx.machines r' hr') heq
  refine ⟨hkeyed, fun p hp hd => ?_⟩
  obtain ⟨r, hr, hresumes⟩ := h.back p hp hd
  have hother : ∀ id ∈ ids, mgr.find id ≠ some r := by
    intro id hmem hfind
    have heq : p.id = id := hresumes.id.symm.trans (find_some hfind).2
    exact hdue p hp hd (heq ▸ hmem)
  have hmem : r ∈ x.machines := by
    rcases hx.kept r (find_some hr).1 with hkept | ⟨id, hmem, hfind⟩
    · exact hkept
    · exact absurd hfind (hother id hmem)
  refine ⟨r, ?_, by rwa [hx.others r hother]⟩
  have hfind := find_of_mem hkeyed hmem
  rwa [hid, hresumes.id] at hfind

theorem Settling.enter (h : Settling doc mgr) (key : ForkKey) (v : ForkReservation) :
    Settling doc (mgr.enterReservation key v) :=
  h.rests (.of_same rfl rfl rfl)

/-- One operation of the history is settled. -/
theorem Settling.operation (h : Settling doc mgr) (readings : ℕ → Reading)
    (hrecorded : op.state ≠ .succeeded → ∀ p ∈ doc.machines, doc.due p = true → p.id ∉ op.childIds)
    (hwhole : op.state = .succeeded → (∃ p ∈ doc.machines, doc.due p = true ∧ p.id ∈ op.childIds) →
      doc.whole op = true) : Settling doc (mgr.settleOperation doc.machines readings op).1 := by
  simp only [settleOperation]
  cases hstate : op.state with
  | succeeded =>
    simp only
    split
    · exact h.enter _ _
    · next hlost =>
      refine (h.remove (fun p hp hd hmem => hlost ?_) _ readings).enter _ _
      exact h.recovered (hwhole hstate ⟨p, hp, hd, hmem⟩)
  | failed =>
    have hne : op.state ≠ .succeeded := by
      rw [hstate]
      exact ForkState.noConfusion
    exact (h.remove (hrecorded hne) _ readings).enter _ _
  | pending =>
    have hne : op.state ≠ .succeeded := by
      rw [hstate]
      exact ForkState.noConfusion
    exact (h.remove (hrecorded hne) _ readings).enter _ _

theorem Settling.operations (readings : ℕ → Reading) (operations : List PersistedForkOperation)
    (hrecorded : ∀ op ∈ operations, op.state ≠ .succeeded →
      ∀ p ∈ doc.machines, doc.due p = true → p.id ∉ op.childIds)
    (hwhole : ∀ op ∈ operations, op.state = .succeeded →
      (∃ p ∈ doc.machines, doc.due p = true ∧ p.id ∈ op.childIds) → doc.whole op = true) :
    ∀ mgr : Manager, Settling doc mgr → Settling doc (settleOperations doc.machines readings mgr operations).1 := by
  induction operations with
  | nil => exact fun mgr h => h
  | cons op rest ih =>
    intro mgr h
    have hop := h.operation readings (hrecorded op List.mem_cons_self) (hwhole op List.mem_cons_self)
    exact ih (fun op hop => hrecorded op (List.mem_cons_of_mem _ hop))
      (fun op hop => hwhole op (List.mem_cons_of_mem _ hop)) _ hop

/-- What is retained of the history is recorded in the document. -/
theorem retained_recorded {cfg : Config} {now : Time} {operations : List PersistedForkOperation}
    (h : retainedForkOperations cfg doc now = some operations) {op : PersistedForkOperation}
    (hop : op ∈ operations) (hstate : op.state ≠ .succeeded) :
    ∀ p ∈ doc.machines, doc.due p = true → p.id ∉ op.childIds := by
  simp only [retainedForkOperations] at h
  split at h
  · cases h
    obtain ⟨recorded, hrecorded, rfl⟩ := List.mem_map.mp (List.mem_of_mem_filter hop)
    intro p _ hdue hmem
    simp only [MachineStateSnapshot.due, Bool.and_eq_true, List.all_eq_true, Bool.or_eq_true, beq_iff_eq,
      Bool.not_eq_true', List.contains_eq_mem, decide_eq_false_iff_not] at hdue
    exact (hdue.2 recorded hrecorded).elim hstate fun hnot => hnot hmem
  · cases h

end Operations

/-! ### The restart -/

/-- A restart over `doc`, with the history `operations`. -/
structure Daemon.Restarting (doc : MachineStateSnapshot) (operations : List PersistedForkOperation)
    (d : Daemon) : Prop where
  reading : ∀ {loaded doc' ops index started}, d.phase = .reconciling loaded doc' ops index started →
    loaded = doc.machines ∧ ops = operations ∧ (∀ j, index ≤ j → doc'.machines[j]? = doc.machines[j]?) ∧
      Readopting doc d.manager index
  settled : d.phase.past → Settling doc d.manager

section Restart

variable {cfg : Config} {d d' : Daemon} {a : Act} {doc : MachineStateSnapshot}
  {operations : List PersistedForkOperation}

/-- A step that lets the registry rest, or ends the process. -/
theorem Daemon.Restarting.rests (h : d.Restarting doc operations) (hm : d.manager.Rests d'.manager)
    (hp : d'.phase = d.phase) : d'.Restarting doc operations := by
  refine ⟨fun hread => ?_, fun hpast => ?_⟩
  · obtain ⟨hloaded, hops, hsame, hback⟩ := h.reading (hp ▸ hread)
    exact ⟨hloaded, hops, hsame, hback.rests hm⟩
  · exact (h.settled (hp ▸ hpast)).rests hm

theorem Daemon.Restarting.past (hs : Settling doc d'.manager) (hp : d'.phase.past) :
    d'.Restarting doc operations := by
  refine ⟨fun hread => ?_, fun _ => hs⟩
  rw [hread] at hp
  cases hp

theorem Daemon.Restarting.exit (d : Daemon) : d.exit.Restarting doc operations :=
  ⟨fun hread => Phase.noConfusion hread, fun hpast => hpast.elim⟩

/-- **One step of a restart over intact runtimes.** -/
theorem Daemon.Restarting.step (h : d.Restarting doc operations) (hs : Stepped cfg d a d')
    (hg : RestartIntact d a d') (hids : (doc.machines.map (·.id)).Nodup) {now : Time}
    (hops : retainedForkOperations cfg doc now = some operations) (hwhole : doc.BatchesWhole cfg now) :
    d'.Restarting doc operations := by
  cases hs with
  | ready id now fault _ => exact h.rests (becomeReady_rests d.manager cfg id now fault) rfl
  | teardown i r verified now fault _ _ =>
    exact h.rests (releaseAfterTeardown_rests d.manager cfg _ _ verified now fault) rfl
  | releaseHeld id verified now fault _ _ =>
    exact h.rests (releaseAfterTeardown_rests d.manager cfg id _ verified now fault) rfl
  | serve hp =>
    refine .past (h.settled ?_) trivial
    rw [hp]
    trivial
  | reconcileCommit now fault m ok hp hm =>
    cases ok with
    | false => exact .exit _
    | true =>
      obtain rfl : _ = m := congrArg Prod.fst hm
      have hsettled : Settling doc d.manager := by
        refine h.settled ?_
        rw [hp]
        trivial
      exact .past (hsettled.rests (.of_same rfl rfl rfl)) trivial
  | reconcileForks loaded doc' ops index started readings hp hi =>
    obtain ⟨rfl, rfl, hsame, hback⟩ := h.reading hp
    have hlength : doc.machines.length ≤ index := by
      rw [← List.getElem?_eq_none_iff, ← hsame index (le_refl index), List.getElem?_eq_none_iff]
      exact hi
    have hsettling : Settling doc d.manager := by
      refine ⟨hback.keyed, fun p hp _ => hback.back p ?_⟩
      rwa [List.take_of_length_le hlength]
    refine .past (hsettling.operations readings ops ?_ ?_ d.manager) trivial
    · exact fun op hop => retained_recorded hops hop
    · intro op hop
      refine hwhole op ?_
      rwa [hops]
  | reconcileNext loaded doc' ops index started p probe reading updatedAt now fault hp hi =>
    obtain ⟨rfl, rfl, hsame, hback⟩ := h.reading hp
    have hintact : d.manager.intact p probe started = true := by
      have hg : d.readsIntact probe = true := hg
      rw [Daemon.readsIntact, hp] at hg
      simp only [hi, Option.all_some] at hg
      exact hg
    have hset : ∀ j, index + 1 ≤ j → (doc'.machines.set index (upgraded p))[j]? = doc.machines[j]? := by
      intro j hj
      rw [List.getElem?_set_ne (by omega), hsame j (by omega)]
    simp only [Daemon.reconcileMachine, intact_reason hintact]
    split
    · next x hx =>
      refine ⟨fun hread => ?_, fun hpast => hpast.elim⟩
      cases hread
      exact ⟨rfl, rfl, hset, hback.next hids (hsame index (le_refl index) ▸ hi) hx⟩
    · exact .exit _
  | forkMoved _ i task pc hp hi hpc ha =>
    rcases ha with ⟨taken, rfl⟩ | rfl | ⟨ready, rfl⟩ <;> exact hg.elim
  | _ => exact hg.elim

/-- The process has taken over its document. -/
theorem start_restarting {bootId : Option String} {available : JailerIdentity → Bool} {now : Time}
    {fault : SaveFault} (hvalid : validSnapshot cfg d.document available now = true)
    (hops : retainedForkOperations cfg d.document now = some operations) :
    (d.start cfg bootId available now fault).Restarting d.document operations := by
  have hdoc : d.document = ((fresh d.manager.store d.manager.saves bootId).store.load).2 := by
    rw [Daemon.document]
    cases hdisk : d.manager.store.disk <;> simp [StateStore.load, fresh, hdisk]
  rw [hdoc] at hvalid hops ⊢
  simp only [Daemon.start, hvalid, hops]
  refine ⟨fun hread => ?_, fun hpast => hpast.elim⟩
  cases hread
  refine ⟨rfl, rfl, fun _ _ => rfl, fun r hr => ?_, List.nodup_nil, fun r hr => ?_, fun p hp => ?_⟩
  · cases hr
  · cases hr
  · cases hp

end Restart

/-- **A restart over intact runtimes re-adopts every machine that was serving.**  When every batch of the
document that succeeded, is retained and has a child that is due is whole: from the boot on, once the
document is read, every machine that was running and ready, outside a failed or interrupted fork, is in the
registry as it was recorded. -/
theorem machines_readopted (cfg : Config) (d : Daemon) (bootId : Option String)
    (available : JailerIdentity → Bool) (now : Time) (fault : SaveFault) (started d' : Daemon)
    (acts : List Act) (hboot : DaemonStep cfg d (.boot bootId available now fault) started)
    (hvalid : validSnapshot cfg d.document available now = true)
    (hwhole : d.document.BatchesWhole cfg now) (hrun : RunIn (DaemonStep cfg) RestartIntact started acts d')
    (hpast : d'.phase.past) :
    ∀ p ∈ d.document.machines, d.document.due p = true → d'.manager.Readopted p := by
  have hparts : (d.document.machines.map (·.id)).Nodup ∧
      (retainedForkOperations cfg d.document now).isSome = true := by
    simp only [validSnapshot, Bool.and_eq_true, decide_eq_true_eq] at hvalid
    exact ⟨hvalid.1.1.2, hvalid.1.2⟩
  obtain ⟨operations, hops⟩ := Option.isSome_iff_exists.mp hparts.2
  have hstart : started.Restarting d.document operations := by
    have hs := Daemon.stepped hboot
    cases hs with
    | boot => exact start_restarting hvalid hops
    | forkMoved _ _ _ _ _ _ _ ha => rcases ha with ⟨_, ha⟩ | ha | ⟨_, ha⟩ <;> cases ha
  have hall : d'.Restarting d.document operations := hrun.invariant
    (fun _ _ _ h hs hg => h.step (Daemon.stepped hs) hg hparts.1 hops hwhole) hstart
  exact (hall.settled hpast).back

namespace Sample

/-- A fork of machine `0` into machines `1` and `2`. -/
def forkPairRequest : ForkRequest :=
  { forkRequest with
    fingerprint := "0123456789abcdef0123456789abcdef0123456789abcdef0123456789abcdef"
    children := forkRequest.children ++ forkRequest.children.map fun c => { c with
      leaseId := leaseId 2
      metadata := [("public_machine_id", publicId 2), ("parent_machine_id", publicId 0),
        ("fork_operation_id", "fork-a")] } }

/-- The fork up to its answer. -/
def forkPair : List Act :=
  [.forkBegin forkPairRequest ⟨none, true, "", [draw 1, draw 2]⟩ 0 .none .none,
   .forkCheck 0 true,
   .forkPublish 0 (driver 1) (reading 2) 0 .none,
   .forkPublish 0 (driver 2) (reading 2) 0 .none,
   .ready (hostMachineId 1) 0 .none,
   .ready (hostMachineId 2) 0 .none,
   .forkAwaited 0 true,
   .forkFinish 0 (fun _ => reading 3) 0 .none .none,
   .forkClose 0,
   .forkResult 0 (fun _ => reading 3) 0 .none]

/-- Both children are there at the crash. -/
def pairCrashed : List Act := firstBoot ++ create 0 ++ forkPair ++ [.crash]

/-- The first child is destroyed before the crash. -/
def siblingDestroyed : List Act :=
  firstBoot ++ create 0 ++ forkPair ++ [.destroy (hostMachineId 1) (reading 4) 0 .none, .crash]

/-- The rest of a restart over `n` machines. -/
def restart (n : ℕ) : List Act :=
  List.replicate n recovered ++ [.reconcileForks fun _ => reading 5, .reconcileCommit 0 .none, .serve]

end Sample

instance : (phase : Phase) → Decidable phase.past
  | .down => .isFalse id
  | .reconciling .. => .isFalse id
  | .committing => .isTrue trivial
  | .settling => .isTrue trivial
  | .serving => .isTrue trivial

/-- After a whole batch all three machines are back. -/
theorem machines_readopted_pair : ∃ d started d' acts, Run (DaemonStep Sample.config) (Daemon.found none)
    Sample.pairCrashed d ∧ DaemonStep Sample.config d Sample.boot started ∧
      RunIn (DaemonStep Sample.config) RestartIntact started acts d' ∧
      d.document.machines.map d.document.due = [true, true, true] ∧
      ∀ p ∈ d.document.machines, d.document.due p = true → d'.manager.Readopted p := by
  have h : (exec (Daemon.step Sample.config) (Daemon.found none) Sample.pairCrashed).any (fun d =>
      (d.step Sample.config Sample.boot).any fun started =>
        (execIn (Daemon.step Sample.config) RestartIntact started (Sample.restart 3)).any fun d' =>
          decide (validSnapshot Sample.config d.document (fun _ => true) 0 = true ∧
            d.document.BatchesWhole Sample.config 0 ∧ d'.phase.past ∧
            d.document.machines.map d.document.due = [true, true, true])) = true := by
    decide +kernel
  obtain ⟨d, hd, h⟩ := (Option.any_eq_true _ _).mp h
  obtain ⟨started, hstarted, h⟩ := (Option.any_eq_true _ _).mp h
  obtain ⟨d', hd', h⟩ := (Option.any_eq_true _ _).mp h
  obtain ⟨hvalid, hwhole, hpast, hdue⟩ := of_decide_eq_true h
  have hrun : RunIn (DaemonStep Sample.config) RestartIntact started (Sample.restart 3) d' := .of_execIn hd'
  exact ⟨d, started, d', _, .of_exec hd, hstarted, hrun, hdue,
    machines_readopted Sample.config d _ _ 0 .none started d' _ hstarted hvalid hwhole hrun hpast⟩

/-- The second child was running and ready, its runtime is intact, and the restart removes it. -/
theorem sibling_removed : ∃ d started d' acts, Run (DaemonStep Sample.config) (Daemon.found none)
    Sample.siblingDestroyed d ∧ DaemonStep Sample.config d Sample.boot started ∧
      validSnapshot Sample.config d.document (fun _ => true) 0 = true ∧
      RunIn (DaemonStep Sample.config) RestartIntact started acts d' ∧ d'.phase.past ∧
      ∃ p ∈ d.document.machines, p.id = Sample.hostMachineId 2 ∧ d.document.due p = true ∧
        d'.manager.registered p.id = false := by
  have h : (exec (Daemon.step Sample.config) (Daemon.found none) Sample.siblingDestroyed).any (fun d =>
      (d.step Sample.config Sample.boot).any fun started =>
        (execIn (Daemon.step Sample.config) RestartIntact started (Sample.restart 2)).any fun d' =>
          decide (validSnapshot Sample.config d.document (fun _ => true) 0 = true ∧ d'.phase.past ∧
            ∃ p ∈ d.document.machines, p.id = Sample.hostMachineId 2 ∧ d.document.due p = true ∧
              d'.manager.registered p.id = false)) = true := by
    decide +kernel
  obtain ⟨d, hd, h⟩ := (Option.any_eq_true _ _).mp h
  obtain ⟨started, hstarted, h⟩ := (Option.any_eq_true _ _).mp h
  obtain ⟨d', hd', h⟩ := (Option.any_eq_true _ _).mp h
  obtain ⟨hvalid, hpast, hlost⟩ := of_decide_eq_true h
  exact ⟨d, started, d', _, .of_exec hd, hstarted, hvalid, .of_execIn hd', hpast, hlost⟩

end Nehemiah.Host
