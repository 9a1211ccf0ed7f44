import Nehemiah.Host.Flights

/-!
# Running VMMs

Every VMM that a create, a fork or a restart has brought up belongs to somebody: its machine is registered,
or a call has taken the machine out of the registry and is about to tear it down.  The same holds of every
lease whose start is recorded and whose final is not.

A create boots without the lock, while its placeholder may expire or be deleted, and does not look at the
registry again (a fork does).  `vmms_owned` is about the runs in which the placeholder is still there, or in
which the create gives its VMM up.
-/

namespace Nehemiah.Host

open Billing Manager Lib

/-! ### The daemon and its VMMs -/

/-- The daemon, with the machines whose VMM runs. -/
structure Watched where
  daemon : Daemon
  vmms : List ℕ

/-- The machine whose VMM has come up when a call takes this step, unless the call closes the VMM itself
(as a fork does when its child is not current any more). -/
def Daemon.booted (cfg : Config) (d : Daemon) : Act → Option ℕ
  | .createPublish i .. => d.placeholder i
  | .forkPublish i .. =>
    match d.forks[i]? with
    | some ⟨_, .booting children next⟩ =>
      children[next]?.filter fun r => d.manager.current r && d.manager.admissionHealthy
    | _ => none
  | .reconcileNext probe .. =>
    match d.phase with
    | .reconciling _ doc _ index started =>
      doc.machines[index]?.bind fun p =>
        if (d.manager.lostReason cfg (upgraded p) probe started).isNone then some d.manager.nextObject else none
    | _ => none
  | _ => none

/-- The machine whose VMM a teardown closes. -/
def Daemon.closes (d : Daemon) : Act → Option ℕ
  | .teardown i .. => d.teardowns[i]?.filter fun r => (d.manager.objects r).driver.isSome
  | _ => none

/-- A process that ends leaves its VMMs to the next restart. -/
def Watched.step (cfg : Config) (w : Watched) (a : Act) : Option Watched :=
  (w.daemon.step cfg a).map fun d =>
    { daemon := d
      vmms :=
        match d.phase with
        | .down => []
        | _ => (w.vmms ++ (w.daemon.booted cfg a).toList).filter fun r => w.daemon.closes a ≠ some r }

def WatchStep (cfg : Config) (w : Watched) (a : Act) (w' : Watched) : Prop := w.step cfg a = some w'

/-- The create gives the VMM of `r` up by itself: the host is not healthy, or the start of the lease
cannot be recorded or saved. -/
def Manager.givesUp (mgr : Manager) (r : ℕ) (driver : Driver) (reading : Reading) (fault : SaveFault) : Bool :=
  let m := mgr.objects r
  !mgr.admissionHealthy ||
    metered m.toMachineRecord &&
      (decide (driver.pid ≤ 1)
        || (if m.meteringReserved then
            mgr.hostBootId == "" || decide (maxMeteringOutbox ≤ mgr.meteringOutbox.length)
          else !mgr.meteringCanReserve 1)
        || reading.monotonic.isNone
        || fault != .none && decide (mgr.store.lastSaved ≤ nextGeneration mgr.stateGeneration))

/-- When a create comes back from its boot, the registry still holds its placeholder; or nothing is held
under its id, and the create gives its VMM up. -/
def PlaceholderKept (w : Watched) (a : Act) (_ : Watched) : Prop :=
  let mgr := w.daemon.manager
  match a with
  | .createAbandon i _ _ _ => (w.daemon.placeholder i).all fun r =>
      mgr.current r || !mgr.registered (mgr.objects r).id
  | .createPublish i driver _ reading _ fault _ => (w.daemon.placeholder i).all fun r =>
      mgr.current r || !mgr.registered (mgr.objects r).id && mgr.givesUp r driver reading fault
  | _ => True

instance (w : Watched) (a : Act) (w' : Watched) : Decidable (PlaceholderKept w a w') := by
  apply Act.casesOn (motive := fun a => Decidable (PlaceholderKept w a w')) a <;> intros
    <;> dsimp only [PlaceholderKept] <;> infer_instance

/-! ### A create that gives its VMM up -/

section GivingUp

variable {cfg : Config} {mgr x : Manager} {r : ℕ} {driver : Driver} {reading : Reading}

theorem recordMeterStart_refused (hm : metered (mgr.objects r).toMachineRecord = true)
    (h : (mgr.objects r).driver.all (·.pid ≤ 1) = true ∨
      (if (mgr.objects r).meteringReserved then
        mgr.hostBootId == "" || decide (maxMeteringOutbox ≤ mgr.meteringOutbox.length)
      else !mgr.meteringCanReserve 1) = true ∨ reading.monotonic = none) :
    (mgr.recordMeterStart r reading).2 = false := by
  simp only [recordMeterStart, hm, Bool.not_true, Bool.false_eq_true, if_false]
  split
  · rfl
  · next hpid =>
    split
    · rfl
    · next hfree =>
      split
      · rfl
      · next hreserved =>
        rcases h with h | h | h
        · exact absurd h hpid
        · cases hr : (mgr.objects r).meteringReserved with
          | true =>
            rw [hr] at h hreserved
            exact absurd h hreserved
          | false =>
            rw [hr] at h hfree
            exact absurd h hfree
        · rw [h]

theorem persist_fails (mgr : Manager) (cfg : Config) (now : Time) {fault : SaveFault} (hfault : fault ≠ .none)
    (hgen : mgr.store.lastSaved ≤ nextGeneration mgr.stateGeneration) :
    (mgr.persist cfg now fault).2 = false := by
  show (mgr.store.save (mgr.snapshot cfg (nextGeneration mgr.stateGeneration) now) fault).2 = false
  have hkept : ¬ (mgr.snapshot cfg (nextGeneration mgr.stateGeneration) now).generation
      < mgr.store.lastSaved := not_lt.mpr hgen
  unfold StateStore.save
  rw [if_neg hkept]
  cases fault with
  | none => exact absurd rfl hfault
  | beforeRename => rfl
  | afterRename => rfl

/-- What `givesUp` says of the start is what the start refuses. -/
theorem started_refuses (hm : metered (mgr.objects r).toMachineRecord = true) (overlayMb : ℕ)
    (h : (driver.pid ≤ 1 ∨ (if (mgr.objects r).meteringReserved then
        mgr.hostBootId == "" || decide (maxMeteringOutbox ≤ mgr.meteringOutbox.length)
      else !mgr.meteringCanReserve 1) = true) ∨ reading.monotonic = none) :
    (((mgr.started r driver overlayMb).transition r (some .booting) .starting "vmm_started").recordMeterStart r
      reading).2 = false := by
  set running := (mgr.started r driver overlayMb).transition r (some .booting) .starting "vmm_started"
    with hrunning
  have hobj : running.objects r = { mgr.objects r with
      driver := some driver
      diskMb := if (mgr.objects r).diskMb = 0 then overlayMb else (mgr.objects r).diskMb
      status := .starting } := by
    show Function.update mgr.objects r _ r = _
    rw [Function.update_self]
  have hm' : metered (running.objects r).toMachineRecord = true := by
    rw [hobj]
    exact hm
  have hreserved : (running.objects r).meteringReserved = (mgr.objects r).meteringReserved := by rw [hobj]
  have hcount : running.meteringCanReserve 1 = mgr.meteringCanReserve 1 := by
    have hsame : ∀ r', (running.objects r').meteringReserved = (mgr.objects r').meteringReserved := by
      intro r'
      by_cases hr : r' = r
      · rw [hr, hreserved]
      · rw [show running.objects r' = mgr.objects r' from Function.update_of_ne hr _ _]
    simp only [meteringCanReserve, hsame]
    rfl
  apply recordMeterStart_refused hm'
  rcases h with (h | h) | h
  · refine Or.inl ?_
    rw [hobj]
    simpa using h
  · refine Or.inr (Or.inl ?_)
    rw [hreserved, hcount]
    exact h
  · exact Or.inr (Or.inr h)

theorem publishCreate_givesUp (cfg : Config) (overlayMb : ℕ) (now : Time) (fault fault' : SaveFault)
    (h : mgr.givesUp r driver reading fault = true) :
    (mgr.publishCreate cfg r driver overlayMb reading now fault fault').2 = false := by
  simp only [publishCreate]
  split
  · rfl
  · next hhealthy =>
    simp only [givesUp, Bool.not_eq_true, Bool.not_eq_false'] at h hhealthy
    rw [hhealthy, Bool.not_true, Bool.false_or, Bool.and_eq_true] at h
    obtain ⟨hm, h⟩ := h
    set running := (mgr.started r driver overlayMb).transition r (some .booting) .starting "vmm_started"
      with hrunning
    simp only [Bool.or_eq_true, Bool.and_eq_true, decide_eq_true_eq, Option.isNone_iff_eq_none, bne_iff_ne] at h
    split
    · rfl
    · next x heq =>
      rcases h with h | h
      · have hrefused := started_refuses hm overlayMb (h.imp_left (Or.imp_right fun h => by simpa using h))
        rw [heq] at hrefused
        cases hrefused
      · -- the start is recorded, and the save fails
        have hm' : metered (running.objects r).toMachineRecord = true := by
          rw [show running.objects r = _ from Function.update_self ..]
          exact hm
        have hs := recordMeterStart_started running r reading
        rw [heq] at hs
        cases hs with
        | unmetered hu =>
          rw [hm'] at hu
          cases hu
        | emitted t healthy _ _ _ _ =>
          split
          · next y hy =>
            have hfail := persist_fails (running.emit r
              (running.startState (running.objects r) t reading) false
              [observation { (running.objects r).toMachineRecord with
                  metering := running.startState (running.objects r) t reading }
                (processId (running.objects r).driver) .start exact reading.observedAt] healthy) cfg now
              h.1 h.2
            rw [hy] at hfail
            cases hfail
          · rw [emit_object]
            exact if_pos Nat.one_pos ▸ rfl

/-- The VMM of a create is the driver of its machine. -/
theorem publishCreate_driver {overlayMb : ℕ} {now : Time} {fault fault' : SaveFault} {ok : Bool}
    (heq : mgr.publishCreate cfg r driver overlayMb reading now fault fault' = (x, ok)) :
    (x.objects r).driver.isSome := by
  simp only [publishCreate] at heq
  split at heq
  · cases heq
    show (Function.update mgr.objects r { mgr.objects r with driver := some driver } r).driver.isSome
    rw [Function.update_self]
    rfl
  · have hrun : ((((mgr.started r driver overlayMb).transition r (some .booting) .starting
        "vmm_started").objects r).driver).isSome := by
      show (Function.update mgr.objects r _ r).driver.isSome
      rw [Function.update_self]
      rfl
    split at heq
    · next y hy =>
      cases heq
      show (y.objects r).driver.isSome
      rwa [(meter_other hy r).2]
    · next y hy =>
      rw [← (meter_other hy r).2] at hrun
      split at heq
      · next z hz =>
        cases heq
        rwa [show x.objects = y.objects from congrArg Books.objects (persist_books hz).1]
      · next z hz =>
        have hz' : z.objects = y.objects := congrArg Books.objects (persist_books hz).1
        split at heq <;> cases heq
        · show ((z.setMetering r {}).objects r).driver.isSome
          exact modifyMachine_driver z r r _ (fun _ hd => hd) (hz' ▸ hrun)
        · rwa [hz']

/-- The VMM of a fork child that is current is its driver. -/
theorem publishChild_driver {now : Time} {fault : SaveFault} {ok : Bool}
    (hcurrent : mgr.current r = true) (hhealthy : mgr.admissionHealthy = true)
    (heq : mgr.publishChild cfg r driver reading now fault = (x, ok)) : (x.objects r).driver.isSome := by
  simp only [publishChild] at heq
  split at heq
  · next h =>
    rw [Bool.or_eq_true, hhealthy, bne_iff_ne] at h
    rcases h with h | h
    · exact absurd (beq_iff_eq.mp hcurrent) h
    · cases h
  · have hrun : ((((mgr.modifyMachine r fun m => { m with driver := some driver, status := .starting }).transition
        r (some .booting) .starting "managed_fork_vmm_started").objects r).driver).isSome := by
      show (Function.update mgr.objects r _ r).driver.isSome
      rw [Function.update_self]
      rfl
    split at heq
    · next y hy =>
      cases heq
      rwa [(meter_other hy r).2]
    · next y hy =>
      rw [← (meter_other hy r).2] at hrun
      rwa [show x.objects = y.objects from congrArg Books.objects (persist_books heq).1]

end GivingUp

/-! ### The invariant -/

/-- What the sections keep: a live lease is registered, and a running VMM is the driver of a machine that
is registered or about to be torn down. -/
structure Watched.Housed (w : Watched) : Prop where
  flights : w.daemon.Flights
  live : ∀ r, w.daemon.manager.eligible r = true → r ∈ w.daemon.manager.machines
  vmms : ∀ r ∈ w.vmms, r < w.daemon.manager.nextObject ∧ (w.daemon.manager.objects r).driver.isSome ∧
    (r ∈ w.daemon.manager.machines ∨ r ∈ w.daemon.teardowns)
  down : w.daemon.phase = .down → w.vmms = []

/-- A process without machines. -/
theorem empty_housed {d : Daemon} (hflights : d.Flights) (ho : d.manager.objects = fun _ => default) :
    Watched.Housed ⟨d, []⟩ := by
  refine ⟨hflights, fun r he => ?_, fun _ hr => (List.not_mem_nil hr).elim, fun _ => rfl⟩
  rw [show Watched.daemon ⟨d, []⟩ = d from rfl, eligible, ho] at he
  cases he

theorem exit_housed (d : Daemon) : Watched.Housed ⟨d.exit, []⟩ := empty_housed (exit_flights d) rfl

section Steps

variable {cfg : Config} {w w' : Watched} {scope : Scope} {removed : List ℕ} {a : Act} {d : Daemon}
  {vmms : List ℕ}

theorem watchStep_cases (hs : WatchStep cfg w a w') : ∃ d vmms, w' = ⟨d, vmms⟩ ∧
    Stepped cfg w.daemon a d ∧ (d.phase = .down → vmms = []) ∧
    ∀ r ∈ vmms, (r ∈ w.vmms ∨ w.daemon.booted cfg a = some r) ∧ w.daemon.closes a ≠ some r := by
  obtain ⟨d, hd, rfl⟩ := Option.map_eq_some_iff.mp hs
  refine ⟨d, _, rfl, Daemon.stepped hd, fun hdown => by simp only [hdown], fun r hr => ?_⟩
  split at hr
  · cases hr
  · simp only [List.mem_filter, List.mem_append, Option.mem_toList, decide_eq_true_eq] at hr
    exact hr

theorem booted_child (d : Daemon) (i : ℕ) (driver : Driver) (reading : Reading) (now : Time) (fault : SaveFault) :
    d.booted cfg (.forkPublish i driver reading now fault)
      = (d.child i).filter fun r => d.manager.current r && d.manager.admissionHealthy := by
  simp only [Daemon.booted, Daemon.child]
  cases d.forks[i]? with
  | none => rfl
  | some task =>
    obtain ⟨res, pc⟩ := task
    cases pc <;> rfl

/-- A VMM comes up only for the machine of the step. -/
theorem booted_starting {r : ℕ} (h : d.booted cfg a = some r) : d.starting a = some r := by
  cases a with
  | createPublish i driver overlayMb reading now fault fault' => exact h
  | forkPublish i driver reading now fault =>
    rw [booted_child] at h
    exact (Option.filter_eq_some_iff.mp h).1
  | reconcileNext probe reading updatedAt now fault =>
    simp only [Daemon.booted] at h
    split at h
    · obtain ⟨p, _, hp⟩ := Option.bind_eq_some_iff.mp h
      split at hp
      · exact hp
      · cases hp
    · cases h
  | _ => cases h

/-- What was up stays up with its owner: the teardown that closes a VMM is the one that takes it off. -/
theorem Watched.Housed.held (h : w.Housed) (hmoves : w.daemon.Moves a removed d) {r : ℕ} (hr : r ∈ w.vmms)
    (hopen : w.daemon.closes a ≠ some r) (hmem : r ∈ w.daemon.teardowns ++ removed) : r ∈ d.teardowns := by
  obtain ⟨hlt, hdriver, _⟩ := h.vmms r hr
  rcases hmoves.teardowns r hmem with ht | hnew | ⟨i, verified, now, fault, rfl, hi⟩
  · exact ht
  · exact absurd hlt (not_lt.mpr hnew)
  · refine absurd ?_ hopen
    simp only [Daemon.closes, hi, Option.filter_some, hdriver, if_true]

/-- **A section keeps the invariant**, when it starts and gives up machines of its own only. -/
theorem Watched.Housed.section (h : w.Housed) (hflights : d.Flights)
    (hdoes : w.daemon.manager.Does cfg scope removed d.manager) (hsole : w.daemon.manager.Sole scope.boots)
    (hidle : ∀ r ∈ scope.boots, w.daemon.manager.eligible r = false)
    (hboots : ∀ r ∈ scope.boots, d.manager.eligible r = true → r ∈ d.manager.machines)
    (hmoves : w.daemon.Moves a removed d)
    (hvmms : ∀ r ∈ vmms, w.daemon.closes a ≠ some r ∧ (r ∈ w.vmms ∨ r < d.manager.nextObject ∧
      (d.manager.objects r).driver.isSome ∧ (r ∈ d.manager.machines ∨ r ∈ d.teardowns))) :
    Watched.Housed ⟨d, vmms⟩ := by
  have hhouses := does_houses hdoes h.flights.placed h.flights.keyed
  refine ⟨hflights, fun r he => ?_, fun r hr => ?_, fun hdown => absurd hdown hmoves.up⟩
  · by_cases hb : r ∈ scope.boots
    · exact hboots r hb he
    · rcases hhouses.kept hsole r (h.live r (hhouses.still r hb he)) with hx | hx
      · exact hx
      · have hgone := hhouses.gone hidle r hx
        rw [show d.manager.eligible r = true from he] at hgone
        cases hgone
  · obtain ⟨hopen, hw | hnew⟩ := hvmms r hr
    · obtain ⟨hlt, hdriver, hhold⟩ := h.vmms r hw
      refine ⟨lt_of_lt_of_le hlt (hdoes.tidy h.flights.placed h.flights.keyed).objects,
        hhouses.drivers r hlt hdriver, ?_⟩
      rcases hhold with hm | ht
      · exact (hhouses.kept hsole r hm).imp_right fun hx => h.held hmoves hw hopen (List.mem_append_right _ hx)
      · exact Or.inr (h.held hmoves hw hopen (List.mem_append_left _ ht))
    · exact hnew

/-- Drivers and metering states are all that the invariant asks of the machines. -/
theorem Watched.Housed.frame (h : w.Housed) (hflights : d.Flights) (hup : d.up)
    (hm : d.manager.machines = w.daemon.manager.machines) (hn : d.manager.nextObject = w.daemon.manager.nextObject)
    (hsame : ∀ r, (d.manager.objects r).driver = (w.daemon.manager.objects r).driver ∧
      (d.manager.objects r).metering = (w.daemon.manager.objects r).metering)
    (hteardowns : ∀ r ∈ vmms, r ∈ w.daemon.teardowns → r ∈ d.teardowns) (hvmms : ∀ r ∈ vmms, r ∈ w.vmms) :
    Watched.Housed ⟨d, vmms⟩ := by
  refine ⟨hflights, fun r he => ?_, fun r hr => ?_, fun hdown => absurd hdown hup⟩
  · show r ∈ d.manager.machines
    rw [hm]
    exact h.live r ((eligible_congr (hsame r).2).symm.trans he)
  · obtain ⟨hlt, hdriver, hhold⟩ := h.vmms r (hvmms r hr)
    show r < d.manager.nextObject ∧ (d.manager.objects r).driver.isSome ∧ (r ∈ d.manager.machines ∨ _)
    rw [hn, (hsame r).1, hm]
    exact ⟨hlt, hdriver, hhold.imp_right (hteardowns r hr)⟩

/-- A machine of the document is back: it is registered, and its VMM is its driver. -/
theorem Watched.Housed.rejoin {p : PersistedMachine} (h : w.Housed) (hflights : d.Flights) (hup : d.up)
    (hm : Rejoined w.daemon.manager p d.manager) (hruntime : p.runtime.isSome)
    (hteardowns : d.teardowns = w.daemon.teardowns)
    (hvmms : ∀ r ∈ vmms, r ∈ w.vmms ∨ r = w.daemon.manager.nextObject) : Watched.Housed ⟨d, vmms⟩ := by
  obtain ⟨s, reserved, hmachine, _⟩ := hm.machine
  have hnew : w.daemon.manager.nextObject ∈ d.manager.machines :=
    hm.machines ▸ List.mem_append_right _ (List.mem_singleton_self _)
  refine ⟨hflights, fun r he => ?_, fun r hr => ?_, fun hdown => absurd hdown hup⟩
  · by_cases hr : r = w.daemon.manager.nextObject
    · exact hr ▸ hnew
    · have hlive := h.live r ((eligible_congr (by rw [hm.others r hr])).symm.trans he)
      exact hm.machines ▸ List.mem_append_left _ hlive
  · rcases hvmms r hr with hw | rfl
    · obtain ⟨hlt, hdriver, hheld⟩ := h.vmms r hw
      refine ⟨hm.next ▸ Nat.lt_succ_of_lt hlt, ?_, ?_⟩
      · show (d.manager.objects r).driver.isSome
        rwa [hm.others r hlt.ne]
      · exact hheld.imp (fun hmem => hm.machines ▸ List.mem_append_left _ hmem) fun ht => hteardowns ▸ ht
    · refine ⟨hm.next ▸ Nat.lt_succ_self _, ?_, Or.inl hnew⟩
      show (d.manager.objects _).driver.isSome
      rw [hmachine]
      exact hruntime

/-- A machine that is not lost has its runtime recorded. -/
theorem runtime_of_found {mgr : Manager} {p : PersistedMachine} {probe : RuntimeProbe} {started : Time}
    (h : mgr.lostReason cfg p probe started = none) : p.runtime.isSome := by
  simp only [lostReason] at h
  split at h
  · cases h
  · next hvalid =>
    simp only [Bool.or_eq_true, Bool.not_eq_true', Bool.and_eq_false_iff, not_or, Bool.not_eq_false] at hvalid
    cases hr : p.runtime with
    | some _ => rfl
    | none =>
      rw [hr] at hvalid
      simp at hvalid

/-- **Every step keeps the invariant.** -/
theorem housed_step (h : w.Housed) (hs : WatchStep cfg w a w') (hg : PlaceholderKept w a w') :
    w'.Housed := by
  obtain ⟨d, vmms, rfl, hstep, hdown, hmem⟩ := watchStep_cases hs
  obtain ⟨hcourse, hflights⟩ := flights_step h.flights hstep
  have hold : w.daemon.starting a = none → ∀ r ∈ vmms, r ∈ w.vmms := fun hnone r hr =>
    (hmem r hr).1.resolve_right fun hb => by
      rw [booted_starting hb] at hnone
      cases hnone
  have hmine : ∀ {r}, w.daemon.starting a = some r → ∀ r' ∈ vmms, r' ∈ w.vmms ∨ r' = r := fun hr r' hr' =>
    (hmem r' hr').1.imp_right fun hb => Option.some.inj ((booted_starting hb).symm.trans hr)
  have hexit : ∀ x : Daemon, d = x.exit → Watched.Housed ⟨d, vmms⟩ := by
    rintro x rfl
    rw [hdown rfl]
    exact exit_housed x
  have hlt : ∀ {i r}, w.daemon.placeholder i = some r → r < w.daemon.manager.nextObject := by
    intro i r hi
    obtain ⟨task, ht, hpc⟩ := placeholder_some.mp hi
    refine (h.flights.idle r (List.mem_append_left _ (List.mem_flatMap.mpr
      ⟨task, List.mem_of_getElem? ht, ?_⟩))).1
    rw [hpc]
    exact List.mem_singleton_self r
  cases hcourse with
  | «section» scope removed hstart hboots hback hdoes hmoves =>
    have hnone : ∀ r, r ∉ scope.boots := fun r hr => by
      rw [hboots] at hr
      cases hr
    exact h.section hflights hdoes (fun r hr => absurd hr (hnone r)) (fun r hr => absurd hr (hnone r))
      (fun r hr => absurd hr (hnone r)) hmoves fun r hr => ⟨(hmem r hr).2, Or.inl (hold hstart r hr)⟩
  | refused i driver reading now fault task children r ha hr hrefused hmoves =>
    refine h.frame hflights hmoves.up rfl rfl (fun _ => ⟨rfl, rfl⟩) (fun _ _ hr => hr) fun r' hr' => ?_
    refine (hmem r' hr').1.resolve_right fun hb => ?_
    rw [ha, booted_child, hr, Option.filter_some, hrefused] at hb
    cases hb
  | child i driver reading now fault r ok ha hp hr hcurrent hhealthy hidle hm hmoves =>
    have hdoes := publishChild_does w.daemon.manager cfg r driver reading now fault
    rw [hm] at hdoes
    have hsole := sole_of_current h.flights.keyed hcurrent
    have hin : r ∈ d.manager.machines := ((does_houses hdoes h.flights.placed h.flights.keyed).kept hsole r
      (find_some (beq_iff_eq.mp hcurrent)).1).resolve_right List.not_mem_nil
    refine h.section hflights hdoes hsole (fun r' hr' => List.mem_singleton.mp hr' ▸ hidle)
      (fun r' hr' _ => List.mem_singleton.mp hr' ▸ hin) hmoves fun r' hr' => ⟨(hmem r' hr').2, ?_⟩
    refine (hmine (by rw [ha]; exact hr) r' hr').imp_right ?_
    rintro rfl
    exact ⟨hflights.placed r' hin, publishChild_driver hcurrent hhealthy hm, Or.inl hin⟩
  | abandoned i reason now fault r ha hp hr hidle hm hmoves =>
    subst ha
    have hdoes := abandonCreate_does w.daemon.manager cfg r reason now fault
    rw [hm] at hdoes
    have hkept : (w.daemon.placeholder i).all fun r => w.daemon.manager.current r
        || !w.daemon.manager.registered (w.daemon.manager.objects r).id := hg
    rw [hr, Option.all_some, Bool.or_eq_true, Bool.not_eq_true'] at hkept
    have hgone := (does_houses hdoes h.flights.placed h.flights.keyed).gone
      (fun r' hr' => List.mem_singleton.mp hr' ▸ hidle) r (List.mem_singleton_self r)
    refine h.section hflights hdoes (hkept.elim (sole_of_current h.flights.keyed) sole_of_vacant)
      (fun r' hr' => List.mem_singleton.mp hr' ▸ hidle) (fun r' hr' he => ?_) hmoves
      fun r' hr' => ⟨(hmem r' hr').2, (hmem r' hr').1.imp_right fun hb => by cases hb⟩
    rw [List.mem_singleton.mp hr', hgone] at he
    cases he
  | published i driver overlayMb reading now fault fault' r ok ha hp hr hidle hm hmoves =>
    subst ha
    have hdoes := publishCreate_does w.daemon.manager cfg r driver overlayMb reading now fault fault'
    rw [hm] at hdoes
    have hkept : (w.daemon.placeholder i).all fun r => w.daemon.manager.current r
        || !w.daemon.manager.registered (w.daemon.manager.objects r).id
          && w.daemon.manager.givesUp r driver reading fault := hg
    rw [hr, Option.all_some, Bool.or_eq_true, Bool.and_eq_true, Bool.not_eq_true'] at hkept
    have hsole := hkept.elim (sole_of_current h.flights.keyed) fun hk => sole_of_vacant hk.1
    have hhouses := does_houses hdoes h.flights.placed h.flights.keyed
    have hidle' : ∀ r' ∈ [r], w.daemon.manager.eligible r' = false := fun r' hr' =>
      List.mem_singleton.mp hr' ▸ hidle
    have hcurrent : ok = true → w.daemon.manager.current r = true := fun hok =>
      hkept.resolve_right fun hk => by
        have hfail := publishCreate_givesUp cfg overlayMb now fault fault' hk.2
        rw [hm, hok] at hfail
        cases hfail
    have hin : ok = true → r ∈ d.manager.machines := fun hok =>
      (hhouses.kept hsole r (find_some (beq_iff_eq.mp (hcurrent hok))).1).resolve_right (by rw [hok]; exact List.not_mem_nil)
    refine h.section hflights hdoes hsole hidle' (fun r' hr' he => ?_) hmoves
      fun r' hr' => ⟨(hmem r' hr').2, (hmine hr r' hr').imp_right ?_⟩
    · rw [List.mem_singleton.mp hr'] at he ⊢
      cases ok with
      | true => exact hin rfl
      | false =>
        rw [hhouses.gone hidle' r (List.mem_singleton_self r)] at he
        cases he
    · rintro rfl
      refine ⟨lt_of_lt_of_le (hlt hr) (hdoes.tidy h.flights.placed h.flights.keyed).objects,
        publishCreate_driver hm, ?_⟩
      cases ok with
      | true => exact Or.inl (hin rfl)
      | false =>
        refine Or.inr ((hmoves.teardowns r' (List.mem_append_right _ (List.mem_singleton_self r'))).elim id ?_)
        rintro (hge | ⟨_, _, _, _, ha, _⟩)
        · exact absurd (hlt hr) (not_lt.mpr hge)
        · cases ha
  | undone order readings now fault ha hp hne x y hdoes hfiled hy hbooks hfiled' hmoves =>
    have ho : d.manager.objects = w.daemon.manager.objects := congrArg Books.objects hbooks
    have hvmms := hold (by rw [ha]; rfl)
    exact h.frame hflights hmoves.up (congrArg Books.machines hbooks) (congrArg Books.nextObject hbooks)
      (fun r => by rw [ho]; exact ⟨rfl, rfl⟩)
      (fun r hr ht => h.held hmoves (hvmms r hr) (hmem r hr).2 (List.mem_append_left _ ht)) hvmms
  | extended id leaseId key target now fault r ha hp hr hm hmoves =>
    have hvmms := hold (by rw [ha]; rfl)
    refine h.frame hflights hmoves.up (by rw [hm]; rfl) (by rw [hm]; rfl) (fun r' => ?_)
      (fun r' hr' ht => h.held hmoves (hvmms r' hr') (hmem r' hr').2 (List.mem_append_left _ ht)) hvmms
    have ho : d.manager.objects = Function.update w.daemon.manager.objects r
        ((w.daemon.manager.objects r).extended key target) := by
      rw [hm]
      rfl
    rw [ho]
    by_cases hne : r' = r
    · rw [hne, Function.update_self]
      exact ⟨rfl, rfl⟩
    · rw [Function.update_of_ne hne]
      exact ⟨rfl, rfl⟩
  | boot bootId available now fault ha hp =>
    have hnil : vmms = [] := List.eq_nil_iff_forall_not_mem.mpr fun r hr => by
      have hr' := hold (by rw [ha]; rfl) r hr
      rw [h.down hp] at hr'
      cases hr'
    rw [hnil]
    refine empty_housed hflights ?_
    simp only [Daemon.start]
    split
    · rfl
    · split
      · next x hx =>
        obtain rfl : _ = x := congrArg Prod.fst hx
        rfl
      · rfl
  | crash hp => exact hexit _ rfl
  | lost loaded doc operations index started p probe reading updatedAt now fault reason x doc' ok ha hp hi hreason
      hx =>
    cases ok with
    | false => exact hexit _ rfl
    | true =>
      have hbooks := finalizePersistedMachine_books w.daemon.manager
        { doc with machines := doc.machines.set index (upgraded p) } index (upgraded p) reason updatedAt now fault
      rw [hx] at hbooks
      have ho : x.objects = w.daemon.manager.objects := congrArg Books.objects hbooks
      refine h.frame hflights Phase.noConfusion (congrArg Books.machines hbooks) (congrArg Books.nextObject hbooks)
        (fun r => ?_) (fun _ _ ht => ht) fun r hr => (hmem r hr).1.resolve_right fun hb => ?_
      · show (x.objects r).driver = _ ∧ (x.objects r).metering = _
        rw [ho]
        exact ⟨rfl, rfl⟩
      · rw [ha] at hb
        simp only [Daemon.booted, hp, hi, Option.bind_some, hreason, Option.isNone_some, Bool.false_eq_true,
          if_false, reduceCtorEq] at hb
  | rejoined loaded doc operations index started p probe reading updatedAt now fault x ok ha hp hi hreason hfree
      hx =>
    cases ok with
    | false => exact hexit _ rfl
    | true =>
      have hpid : (upgraded p).id = p.id := by
        simp only [upgraded]
        split <;> rfl
      exact h.rejoin hflights Phase.noConfusion (reattach_rejoined w.daemon.manager h.flights.placed
        (hpid ▸ hfree) hx) (runtime_of_found hreason) rfl (hmine (by rw [ha]; rfl))
  | uncommitted now fault m ha hp hm => exact hexit _ rfl

end Steps

/-- **No VMM without an owner.**  From a host that finds any document, or none, along every run in which a
create comes back to its own placeholder or gives its VMM up: every VMM that is up is the driver of a
machine that is registered under its id, or of one that a teardown is about to close, and every lease with
a recorded start and no final is registered. -/
theorem vmms_owned (cfg : Config) (doc : Option MachineStateSnapshot) (acts : List Act) (w : Watched)
    (hrun : RunIn (WatchStep cfg) PlaceholderKept ⟨Daemon.found doc, []⟩ acts w) :
    (∀ r ∈ w.vmms, (w.daemon.manager.objects r).driver.isSome ∧
      (w.daemon.manager.current r = true ∨ r ∈ w.daemon.teardowns)) ∧
    ∀ r, w.daemon.manager.eligible r = true → w.daemon.manager.current r = true := by
  have h : w.Housed := hrun.invariant (fun _ _ _ h hs hg => housed_step h hs hg) (exit_housed (Daemon.found doc))
  have hcurrent : ∀ r ∈ w.daemon.manager.machines, w.daemon.manager.current r = true := fun r hr =>
    beq_iff_eq.mpr (find_of_mem h.flights.keyed hr)
  refine ⟨fun r hr => ?_, fun r he => hcurrent r (h.live r he)⟩
  obtain ⟨_, hdriver, hheld⟩ := h.vmms r hr
  exact ⟨hdriver, hheld.imp_left (hcurrent r)⟩

namespace Sample

/-- A fork whose child does not become ready, up to the teardown of the child. -/
def rolledBack : List Act :=
  firstBoot ++ create 0 ++ fork ++
    [.forkAwaited 0 false,
     .forkRollback 0 (fun _ => reading 3) 0 .none,
     .teardown 0 true 0 .none,
     .forkFinish 0 (fun _ => reading 3) 0 .none .none,
     .forkClose 0]

/-- A placeholder that expires during its boot. -/
def expiredPlaceholder : List Act :=
  firstBoot ++
    [.createBegin (createRequest 0),
     .createReserve 0 (draw 0) none true 0 .none,
     .reap (hostMachineId 0) (reading 1) 2000 .none,
     .teardown 0 true 2000 .none,
     .createPublish 0 (driver 0) 0 (reading 2) 2000 .none .none,
     .createEnd 0]

end Sample

/-- The VMM of the child is closed, that of the source is registered. -/
theorem vmms_owned_fork : ∃ w, RunIn (WatchStep Sample.config) PlaceholderKept ⟨Daemon.found none, []⟩
    Sample.rolledBack w ∧ w.vmms = [0] ∧
      ((∀ r ∈ w.vmms, (w.daemon.manager.objects r).driver.isSome ∧
        (w.daemon.manager.current r = true ∨ r ∈ w.daemon.teardowns)) ∧
      ∀ r, w.daemon.manager.eligible r = true → w.daemon.manager.current r = true) := by
  have h : (execIn (Watched.step Sample.config) PlaceholderKept ⟨Daemon.found none, []⟩ Sample.rolledBack).any
      (fun w => decide (w.vmms = [0])) = true := by
    decide +kernel
  obtain ⟨w, hrun, hw⟩ := RunIn.of_test h
  exact ⟨w, hrun, hw, vmms_owned Sample.config none _ w hrun⟩

/-- The create answers with the machine, its VMM runs and its meter has started, and nothing holds it. -/
theorem expired_placeholder_leaks : ∃ w, Run (WatchStep Sample.config) ⟨Daemon.found none, []⟩
    Sample.expiredPlaceholder w ∧
      (w.daemon.manager.createKeys.lookup (Sample.leaseId 0)).bind (·.machineId) = some (Sample.hostMachineId 0) ∧
      ∃ r ∈ w.vmms, w.daemon.manager.eligible r = true ∧ w.daemon.manager.current r = false ∧
        r ∉ w.daemon.teardowns := by
  have h : (exec (Watched.step Sample.config) ⟨Daemon.found none, []⟩ Sample.expiredPlaceholder).any
      (fun w => decide (
        (w.daemon.manager.createKeys.lookup (Sample.leaseId 0)).bind (·.machineId)
          = some (Sample.hostMachineId 0) ∧
        ∃ r ∈ w.vmms, w.daemon.manager.eligible r = true ∧ w.daemon.manager.current r = false ∧
          r ∉ w.daemon.teardowns)) = true := by
    decide +kernel
  exact Run.of_test h

end Nehemiah.Host
