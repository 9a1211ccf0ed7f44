import Nehemiah.Host.Courses

/-!
# Calls in flight

The machines that creates and forks have reserved and not started yet belong to one call each, and none of
them is metered.  With this every step of the daemon is one of a few courses (`Coursed`): a section that
starts no machine, the start of one machine, the undoing of a checkpoint, an extension, or a step of a
restart.
-/

namespace Nehemiah.Host

open Billing Manager

/-! ### What a section leaves behind -/

/-- No other machine holds the id of one of these. -/
def Manager.Sole (mgr : Manager) (rs : List ℕ) : Prop :=
  ∀ r ∈ rs, ∀ r' ∈ mgr.machines, (mgr.objects r').id = (mgr.objects r).id → r' = r

/-- The machines of `mgr` are still there or are among the removed ones, no machine but those that the
section starts becomes a live lease, and no driver is lost. -/
structure Manager.Houses (scope : Scope) (mgr : Manager) (removed : List ℕ) (x : Manager) : Prop where
  kept : mgr.Sole scope.boots → ∀ r ∈ mgr.machines, r ∈ x.machines ∨ r ∈ removed
  still : ∀ r, r ∉ scope.boots → x.eligible r = true → mgr.eligible r = true
  gone : (∀ r ∈ scope.boots, mgr.eligible r = false) → ∀ r ∈ removed, x.eligible r = false
  drivers : ∀ r < mgr.nextObject, (mgr.objects r).driver.isSome → (x.objects r).driver.isSome

section Contract

variable {cfg : Config} {scope : Scope} {mgr x y : Manager} {removed : List ℕ} {r : ℕ} {reading : Reading}

theorem eligible_congr (h : (y.objects r).metering = (x.objects r).metering) : y.eligible r = x.eligible r := by
  rw [eligible, eligible, h]

theorem modifyMachine_metering (mgr : Manager) (r r' : ℕ) (f : Machine → Machine)
    (hf : ∀ m, (f m).metering = m.metering) :
    ((mgr.modifyMachine r f).objects r').metering = (mgr.objects r').metering := by
  by_cases hr : r' = r
  · subst hr
    simp [modifyMachine, hf]
  · simp [modifyMachine, hr]

theorem modifyMachine_driver (mgr : Manager) (r r' : ℕ) (f : Machine → Machine)
    (hf : ∀ m, m.driver.isSome → (f m).driver.isSome) (h : (mgr.objects r').driver.isSome) :
    ((mgr.modifyMachine r f).objects r').driver.isSome := by
  by_cases hr : r' = r
  · subst hr
    simpa [modifyMachine] using hf _ h
  · simpa [modifyMachine, hr] using h

/-- A sample starts no lease. -/
theorem sample_eligible_of {r' : ℕ} {terminal ok : Bool} (heq : x.sample r terminal reading = (y, ok))
    (h : y.eligible r' = true) : x.eligible r' = true := by
  by_cases hr : r' = r
  · subst hr
    have hs := sample_sampled x r' terminal reading
    rw [heq] at hs
    cases hs with
    | skipped _ => exact h
    | failed _ _ hlive => exact eligible_of_live hlive
    | emitted _ _ _ _ _ hlive _ _ _ => exact eligible_of_live hlive
  · rwa [eligible, sample_other hr heq] at h

theorem sample_driver {terminal ok : Bool} (heq : x.sample r terminal reading = (y, ok)) (r' : ℕ) :
    (y.objects r').driver = (x.objects r').driver := by
  rw [(sample_visits x heq).objects r']

/-- A start changes one machine, and no driver. -/
theorem meter_other {ok : Bool} (heq : x.recordMeterStart r reading = (y, ok)) (r' : ℕ) :
    (r' ≠ r → y.objects r' = x.objects r') ∧ (y.objects r').driver = (x.objects r').driver := by
  have hs := recordMeterStart_started x r reading
  rw [heq] at hs
  cases hs with
  | unmetered _ => exact ⟨fun _ => rfl, rfl⟩
  | failed _ => exact ⟨fun _ => rfl, rfl⟩
  | emitted now healthy _ _ _ _ =>
    refine ⟨fun hr => emit_object_of_ne x hr _ _ _ _, ?_⟩
    by_cases hr : r' = r
    · rw [hr, emit_object]
    · rw [emit_object_of_ne x hr]

theorem Manager.Houses.booked (h : mgr.Houses scope removed x) (ho : y.objects = x.objects)
    (hm : y.machines = x.machines) :
    mgr.Houses scope removed y := by
  have he : y.eligible = x.eligible := funext fun r => eligible_congr (by rw [ho])
  exact ⟨hm ▸ h.kept, he ▸ h.still, he ▸ h.gone, ho ▸ h.drivers⟩

theorem Manager.Houses.sampled {terminal ok : Bool} (h : mgr.Houses scope removed x)
    (heq : x.sample r terminal reading = (y, ok)) : mgr.Houses scope removed y := by
  have hm : y.machines = x.machines := congrArg Books.machines (sample_metered heq).frame
  exact ⟨hm ▸ h.kept, fun r' hr' he => h.still r' hr' (sample_eligible_of heq he),
    fun hi r' hr' => Bool.eq_false_iff.mpr fun he =>
      Bool.eq_false_iff.mp (h.gone hi r' hr') (sample_eligible_of heq he),
    fun r' hr' hd => (sample_driver heq r').symm ▸ h.drivers r' hr' hd⟩

/-- **What every section leaves behind.** -/
theorem does_houses (h : mgr.Does cfg scope removed x) (hp : mgr.Placed) (hk : mgr.Keyed) :
    mgr.Houses scope removed x := by
  induction h with
  | start => exact ⟨fun _ _ hr => Or.inl hr, fun _ _ he => he, fun _ _ hr => (List.not_mem_nil hr).elim,
      fun _ _ hd => hd⟩
  | note _ hbooks _ ih => exact ih.booked (congrArg Books.objects hbooks) (congrArg Books.machines hbooks)
  | @mark removed x _ r status ready diskMb ih =>
    have he : (x.modifyMachine r fun m => { m with
        status := status, ready := ready, diskMb := diskMb }).eligible = x.eligible :=
      funext fun r' => eligible_congr (modifyMachine_metering x r r' _ fun _ => rfl)
    exact ⟨ih.kept, he ▸ ih.still, he ▸ ih.gone,
      fun r' hr' hd => modifyMachine_driver x r r' _ (fun _ h => h) (ih.drivers r' hr' hd)⟩
  | @drive removed x _ r driver _ ih =>
    have he : (x.modifyMachine r fun m => { m with driver := some driver }).eligible = x.eligible :=
      funext fun r' => eligible_congr (modifyMachine_metering x r r' _ fun _ => rfl)
    exact ⟨ih.kept, he ▸ ih.still, he ▸ ih.gone,
      fun r' hr' hd => modifyMachine_driver x r r' _ (fun _ _ => rfl) (ih.drivers r' hr' hd)⟩
  | @meter x y _ r reading hr heq ih =>
    have hsame := (meter_registry x heq).1
    refine ⟨hsame.machines ▸ ih.kept, fun r' hr' he => ih.still r' hr' ?_,
      fun _ _ hr' => (List.not_mem_nil hr').elim, fun r' hr' hd => ?_⟩
    · have hne : r' ≠ r := fun h => hr' (h ▸ hr)
      rwa [eligible, (meter_other heq r').1 hne] at he
    · rw [(meter_other heq r').2]
      exact ih.drivers r' hr' hd
  | checkpoint _ _ r reading heq ih => exact ih.sampled heq
  | final _ r reading heq _ ih => exact ih.sampled heq
  | @drop removed x h id r hr hdone ih =>
    refine ⟨fun hs r' hr' => ?_, ih.still, fun hi r' hr' => ?_, ih.drivers⟩
    · rcases ih.kept hs r' hr' with hx | hx
      · by_cases hid : (x.objects r').id = id
        · have hf := find_of_mem (h.tidy hp hk).keyed hx
          rw [hid, hr] at hf
          cases hf
          exact Or.inr (List.mem_append_right _ (List.mem_singleton_self _))
        · exact Or.inl (List.mem_filter.mpr ⟨hx, by simpa using hid⟩)
      · exact Or.inr (List.mem_append_left _ hx)
    · rcases List.mem_append.mp hr' with hr' | hr'
      · exact ih.gone hi r' hr'
      · exact List.mem_singleton.mp hr' ▸ hdone
  | @evict x h r hr hmachines hids hmetering ih =>
    refine ⟨fun hs r' hr' => ?_, ih.still, fun hi r' hr' => ?_, ih.drivers⟩
    · by_cases hid : (x.objects r').id = (x.objects r).id
      · rw [hids, hids] at hid
        exact Or.inr (List.mem_singleton.mpr (hs r hr r' hr' hid))
      · exact Or.inl (List.mem_filter.mpr ⟨hmachines ▸ hr', by simpa using hid⟩)
    · cases List.mem_singleton.mp hr'
      rcases hmetering with hm | hm
      · exact (eligible_congr (y := x.unregister (x.objects r).id) hm).trans (hi r hr)
      · rw [eligible, show (x.unregister (x.objects r).id).objects = x.objects from rfl, hm]
        rfl
  | @place removed x h m _ hfree hnew hdriver ih =>
    have htidy := h.tidy hp hk
    have hmach := allocate_machines htidy.placed hfree
    have hother : ∀ r', r' ≠ x.nextObject → (x.allocate m).1.objects r' = x.objects r' :=
      fun r' hr' => Function.update_of_ne hr' _ _
    have hfresh : (x.allocate m).1.eligible x.nextObject = false := by
      rw [eligible, allocate_new, hnew]
      rfl
    have hback : ∀ r', (x.allocate m).1.eligible r' = true → x.eligible r' = true := by
      intro r' he
      by_cases hr' : r' = x.nextObject
      · rw [hr', hfresh] at he
        cases he
      · rwa [eligible, hother r' hr'] at he
    refine ⟨fun hs r' hr' => ?_, fun r' hr' he => ih.still r' hr' (hback r' he), fun hi r' hr' => ?_,
      fun r' hr' hd => ?_⟩
    · rw [hmach]
      exact (ih.kept hs r' hr').imp_left fun hx => List.mem_append_left _ hx
    · exact Bool.eq_false_iff.mpr fun he => Bool.eq_false_iff.mp (ih.gone hi r' hr') (hback r' he)
    · rw [hother r' (lt_of_lt_of_le hr' htidy.objects).ne]
      exact ih.drivers r' hr' hd
  | reserve _ _ _ hbooks _ ih => exact ih.booked (congrArg Books.objects hbooks) (congrArg Books.machines hbooks)
  | deliver _ n ih => exact ⟨ih.kept, ih.still, ih.gone, ih.drivers⟩
  | commit _ now fault ih => exact ⟨ih.kept, ih.still, ih.gone, ih.drivers⟩
  | @unmeter x y _ _ _ r hr hbooks _ ih =>
    have ho : y.objects = Function.update x.objects r { x.objects r with metering := {} } :=
      congrArg Books.objects hbooks
    have hm : y.machines = x.machines := congrArg Books.machines hbooks
    have hobj : ∀ r', r' ≠ r → y.objects r' = x.objects r' := fun r' hr' => by
      rw [ho, Function.update_of_ne hr']
    refine ⟨hm ▸ ih.kept, fun r' hr' he => ih.still r' hr' ?_, fun _ _ hr' => (List.not_mem_nil hr').elim,
      fun r' hr' hd => ?_⟩
    · have hne : r' ≠ r := fun h => hr' (h ▸ hr)
      rwa [eligible, hobj r' hne] at he
    · have hx := ih.drivers r' hr' hd
      by_cases hne : r' = r
      · subst hne
        rwa [ho, Function.update_self]
      · rwa [hobj r' hne]
  | @undo removed x y _ _ _ machines hperm hbooks _ _ =>
    have ho : y.objects = mgr.objects := congrArg Books.objects hbooks
    have hm : y.machines = machines := congrArg Books.machines hbooks
    have he : y.eligible = mgr.eligible := funext fun r => eligible_congr (by rw [ho])
    refine ⟨fun _ r' hr' => Or.inl ?_, fun r' _ h => he ▸ h, fun _ _ hr' => (List.not_mem_nil hr').elim,
      fun r' _ hd => by rwa [ho]⟩
    rw [hm]
    exact hperm.mem_iff.mpr hr'

end Contract

/-! ### Machines that wait for their start -/

/-- The machine that a create has reserved and boots. -/
def Daemon.placeholder (d : Daemon) (i : ℕ) : Option ℕ :=
  match d.creates[i]? with
  | some ⟨_, .booting r⟩ => some r
  | _ => none

/-- The child that a fork boots. -/
def Daemon.child (d : Daemon) (i : ℕ) : Option ℕ :=
  match d.forks[i]? with
  | some ⟨_, .booting children next⟩ => children[next]?
  | _ => none

/-- The registry holds this machine under its id. -/
def Manager.current (mgr : Manager) (r : ℕ) : Bool := mgr.find (mgr.objects r).id == some r

def CreatePc.pending : CreatePc → List ℕ
  | .booting r => [r]
  | _ => []

def ForkPc.pending : ForkPc → List ℕ
  | .checking _ _ children => children
  | .booting children next => children.drop next
  | _ => []

/-- The machines that are reserved and not started yet. -/
def Daemon.unborn (d : Daemon) : List ℕ :=
  d.creates.flatMap (·.pc.pending) ++ d.forks.flatMap (·.pc.pending)

variable {d : Daemon} {i : ℕ} {mgr : Manager}

theorem placeholder_some {r : ℕ} : d.placeholder i = some r ↔
    ∃ task, d.creates[i]? = some task ∧ task.pc = .booting r := by
  simp only [Daemon.placeholder]
  constructor
  · intro h
    split at h
    · next req r' hi =>
      cases h
      exact ⟨_, hi, rfl⟩
    · cases h
  · rintro ⟨⟨req, pc⟩, hi, rfl⟩
    rw [hi]

theorem sole_of_current (hk : mgr.Keyed) {r : ℕ} (h : mgr.current r = true) : mgr.Sole [r] := by
  intro r'' hr'' r' hr' hid
  rw [List.mem_singleton.mp hr''] at hid ⊢
  have hf := find_of_mem hk hr'
  rw [hid, beq_iff_eq.mp h] at hf
  exact (Option.some.inj hf).symm

theorem sole_of_vacant {r : ℕ} (h : mgr.registered (mgr.objects r).id = false) : mgr.Sole [r] := by
  intro r'' hr'' r' hr' hid
  rw [List.mem_singleton.mp hr''] at hid
  rw [← Bool.not_eq_true, registered_iff] at h
  exact absurd ⟨r', hr', hid⟩ h

/-! ### New children -/

theorem reserveChildren_refs (cfg : Config) (source : Machine) (cs : List (ManagedForkChild × String × Draw)) :
    ∀ (mgr : Manager) (refs : List ℕ), (reserveChildren cfg source mgr cs).2 = some refs →
      (∀ r ∈ refs, mgr.nextObject ≤ r) ∧ refs.Nodup := by
  induction cs with
  | nil =>
    intro mgr refs h
    cases h
    exact ⟨fun _ hr => (List.not_mem_nil hr).elim, List.nodup_nil⟩
  | cons c rest ih =>
    intro mgr refs h
    obtain ⟨c, ip, draw⟩ := c
    simp only [reserveChildren] at h
    split at h
    · cases h
    · next held identity heq =>
      obtain ⟨identities, rfl⟩ := reserveJailerIdentity_same mgr cfg heq
      split at h
      · next y refs' hy =>
        cases h
        obtain ⟨hge, hnodup⟩ := ih _ refs' (by rw [hy])
        have hgt : ∀ r ∈ refs', mgr.nextObject + 1 ≤ r := hge
        refine ⟨fun r hr => ?_, List.nodup_cons.mpr ⟨fun hr => absurd (hgt _ hr) (Nat.not_succ_le_self _), hnodup⟩⟩
        rcases List.mem_cons.mp hr with rfl | hr
        · exact le_refl mgr.nextObject
        · exact Nat.le_of_succ_le (hgt r hr)
      · cases h

/-- The children of a fork that starts are new machines. -/
theorem beginFork_children {cfg : Config} {m : Manager} {req : ForkRequest} {probe : ForkProbe} {now : Time}
    {fault fault' : SaveFault} {res source : ℕ} {children : List ℕ}
    (hm : mgr.beginFork cfg req probe now fault fault' = (m, .started res source children)) :
    (∀ r ∈ children, mgr.nextObject ≤ r ∧ r < m.nextObject) ∧ children.Nodup := by
  obtain ⟨e, x, _, heq⟩ | ⟨res', _, heq⟩ | ⟨source', ips, _, _, _, _, _, _, heq⟩ :=
    beginFork_cases mgr cfg req probe now fault fault'
  · rw [heq] at hm
    cases hm
  · rw [heq] at hm
    cases hm
  · rw [heq] at hm
    set pruned := mgr.pruneForkReservations now with hpruned
    have hrefs := reserveChildren_refs cfg (pruned.objects source')
      (req.children.zip (ips.zip probe.draws)) pruned
    have hres := reserveChildren_reserved cfg (pruned.objects source')
      (req.children.zip (ips.zip probe.draws)) pruned
    simp only [reserveFork] at hm
    split at hm
    · cases hm
    · next x refs hx =>
      rw [hx] at hrefs hres
      split at hm
      · next y hy =>
        cases hm
        obtain rfl : _ = m := congrArg Prod.fst hy
        exact ⟨fun r hr => ⟨(hrefs children rfl).1 r hr, (hres.children r hr).1⟩, (hrefs children rfl).2⟩
      · cases hm

/-! ### The invariant -/

/-- During a restart the registry holds machines that the document names, as far as it is read. -/
def Phase.Reads (mgr : Manager) : Phase → Prop
  | .reconciling _ doc _ index _ => (doc.machines.map (·.id)).Nodup ∧
      ∀ r ∈ mgr.machines, (mgr.objects r).id ∈ (doc.machines.take index).map (·.id)
  | _ => True

/-- Registered machines of a restart stay machines of the document. -/
theorem Phase.Reads.keeps {x : Manager} {phase : Phase} (h : phase.Reads mgr) (hp : mgr.Placed) (hk : mgr.Keeps x) :
    phase.Reads x := by
  cases phase with
  | reconciling loaded doc operations index started =>
    refine ⟨h.1, fun r hr => ?_⟩
    rcases hk.refs r hr with hold | ⟨_, _, hid⟩
    · rw [hk.ids r (hp r hold)]
      exact h.2 r hold
    · cases hid
  | down => trivial
  | committing => trivial
  | settling => trivial
  | serving => trivial

/-- What is left of the document of a restart. -/
def Phase.remaining : Phase → List PersistedMachine
  | .reconciling _ doc _ index _ => doc.machines.drop index
  | _ => []

/-- The document is read. -/
def Phase.past : Phase → Prop
  | .committing => True
  | .settling => True
  | .serving => True
  | _ => False

/-- **The calls in flight hold machines of their own**, and none of them is metered yet. -/
structure Daemon.Flights (d : Daemon) : Prop where
  placed : d.manager.Placed
  keyed : d.manager.Keyed
  beyond : ∀ r, d.manager.nextObject ≤ r → d.manager.eligible r = false
  unborn : d.unborn.Nodup
  idle : ∀ r ∈ d.unborn, r < d.manager.nextObject ∧ d.manager.eligible r = false
  reads : d.phase.Reads d.manager
  down : d.phase = .down → d.creates = [] ∧ d.forks = []

/-- A process without machines. -/
theorem empty_flights (hm : d.manager.machines = []) (ho : d.manager.objects = fun _ => default) (hc : d.creates = [])
    (hf : d.forks = []) (hreads : d.phase.Reads d.manager) : d.Flights := by
  have hidle : ∀ r, d.manager.eligible r = false := fun r => by
    rw [eligible, ho]
    rfl
  have hunborn : d.unborn = [] := by
    rw [Daemon.unborn, hc, hf]
    rfl
  refine ⟨fun r hr => ?_, ?_, fun r _ => hidle r, ?_, fun r hr => ?_, hreads, fun _ => ⟨hc, hf⟩⟩
  · rw [hm] at hr
    cases hr
  · rw [Manager.Keyed, hm]
    exact List.nodup_nil
  · rw [hunborn]
    exact List.nodup_nil
  · rw [hunborn] at hr
    cases hr

theorem exit_flights (d : Daemon) : d.exit.Flights := empty_flights rfl rfl rfl rfl trivial

section Invariant

variable {cfg : Config} {d d' : Daemon} {scope : Scope} {removed : List ℕ}

/-- **A section keeps the invariant**, when what waits after it has waited before and is not started by the
section, or is new. -/
theorem Daemon.Flights.section (h : d.Flights) (hdoes : d.manager.Does cfg scope removed d'.manager)
    (hboots : ∀ r ∈ scope.boots, r ∈ d.unborn) (hnodup : d'.unborn.Nodup)
    (hunborn : ∀ r ∈ d'.unborn, r ∈ d.unborn ∧ r ∉ scope.boots ∨
      d.manager.nextObject ≤ r ∧ r < d'.manager.nextObject)
    (hup : d'.up) (hreads : d'.phase.Reads d'.manager) : d'.Flights := by
  have htidy := hdoes.tidy h.placed h.keyed
  have hhouses := does_houses hdoes h.placed h.keyed
  have hnew : ∀ r, d.manager.nextObject ≤ r → d'.manager.eligible r = false := by
    intro r hr
    have hb : r ∉ scope.boots := fun hb => absurd (h.idle r (hboots r hb)).1 (not_lt.mpr hr)
    exact Bool.eq_false_iff.mpr fun he => Bool.eq_false_iff.mp (h.beyond r hr) (hhouses.still r hb he)
  refine ⟨htidy.placed, htidy.keyed, fun r hr => hnew r (htidy.objects.trans hr), hnodup, fun r hr => ?_,
    hreads, fun hdown => absurd hdown hup⟩
  rcases hunborn r hr with ⟨hold, hb⟩ | ⟨hge, hlt⟩
  · obtain ⟨hlt, hidle⟩ := h.idle r hold
    exact ⟨lt_of_lt_of_le hlt htidy.objects,
      Bool.eq_false_iff.mpr fun he => Bool.eq_false_iff.mp hidle (hhouses.still r hb he)⟩
  · exact ⟨hlt, hnew r hge⟩

/-- Ids and metering states are all that the invariant asks of the machines. -/
theorem Daemon.Flights.frame (h : d.Flights) (hm : d'.manager.machines = d.manager.machines)
    (hn : d'.manager.nextObject = d.manager.nextObject)
    (hsame : ∀ r, (d'.manager.objects r).id = (d.manager.objects r).id ∧
      (d'.manager.objects r).metering = (d.manager.objects r).metering)
    (hunborn : d'.unborn = d.unborn) (hup : d'.up) (hreads : d'.phase.Reads d'.manager) : d'.Flights := by
  have he : d'.manager.eligible = d.manager.eligible := funext fun r => eligible_congr (hsame r).2
  refine ⟨fun r hr => ?_, ?_, fun r hr => ?_, hunborn ▸ h.unborn, fun r hr => ?_, hreads,
    fun hdown => absurd hdown hup⟩
  · rw [hn]
    exact h.placed r (hm ▸ hr)
  · rw [Manager.Keyed, hm, List.map_congr_left fun r _ => (hsame r).1]
    exact h.keyed
  · rw [he]
    exact h.beyond r (hn ▸ hr)
  · rw [hn, he]
    exact h.idle r (hunborn ▸ hr)

/-- A machine of the document is registered again. -/
theorem Daemon.Flights.rejoin {p q : PersistedMachine} (h : d.Flights)
    (hfree : d.manager.registered q.id = false) (hid : p.id = q.id) (hm : Rejoined d.manager p d'.manager)
    (hc : d'.creates = d.creates) (hf : d'.forks = d.forks) (hup : d'.up)
    (hreads : d'.phase.Reads d'.manager) : d'.Flights := by
  obtain ⟨s, reserved, hmachine, _⟩ := hm.machine
  have hold : ∀ r, r ≠ d.manager.nextObject → d'.manager.eligible r = d.manager.eligible r := fun r hr =>
    eligible_congr (by rw [hm.others r hr])
  have hunborn : d'.unborn = d.unborn := by
    rw [Daemon.unborn, hc, hf]
    rfl
  refine ⟨fun r hr => ?_, ?_, fun r hr => ?_, hunborn ▸ h.unborn, fun r hr => ?_, hreads,
    fun hdown => absurd hdown hup⟩
  · rw [hm.next]
    rcases List.mem_append.mp (hm.machines ▸ hr) with hr | hr
    · exact Nat.lt_succ_of_lt (h.placed r hr)
    · exact List.mem_singleton.mp hr ▸ Nat.lt_succ_self _
  · rw [Manager.Keyed, hm.machines, List.map_append, List.map_singleton, hmachine,
      List.map_congr_left fun r hr => congrArg (·.id) (hm.others r (h.placed r hr).ne), List.nodup_append]
    refine ⟨h.keyed, List.nodup_singleton _, ?_⟩
    rintro a ha b hb rfl
    obtain ⟨r, hr, hrid⟩ := List.mem_map.mp ha
    rw [← Bool.not_eq_true, registered_iff] at hfree
    exact hfree ⟨r, hr, hrid.trans ((List.mem_singleton.mp hb).trans hid)⟩
  · rw [hm.next] at hr
    rw [hold r (Nat.lt_of_succ_le hr).ne']
    exact h.beyond r (Nat.le_of_succ_le hr)
  · obtain ⟨hlt, hidle⟩ := h.idle r (hunborn ▸ hr)
    rw [hm.next, hold r hlt.ne]
    exact ⟨Nat.lt_succ_of_lt hlt, hidle⟩

theorem unborn_of_perm {gone : List ℕ} (h : d.Flights) (hperm : d.unborn.Perm (gone ++ d'.unborn)) :
    d'.unborn.Nodup ∧ ∀ r ∈ d'.unborn, r ∈ d.unborn ∧ r ∉ gone := by
  have hnodup := hperm.nodup_iff.mp h.unborn
  rw [List.nodup_append] at hnodup
  exact ⟨hnodup.2.1, fun r hr => ⟨hperm.mem_iff.mpr (List.mem_append_right _ hr),
    fun hg => hnodup.2.2 r hg r hr rfl⟩⟩

/-- The same when machines have been taken from those that wait. -/
theorem Daemon.Flights.taking {gone : List ℕ} (h : d.Flights)
    (hdoes : d.manager.Does cfg scope removed d'.manager) (hperm : d.unborn.Perm (gone ++ d'.unborn))
    (hboots : ∀ r ∈ scope.boots, r ∈ gone) (hup : d'.up) (hreads : d'.phase.Reads d'.manager) : d'.Flights := by
  obtain ⟨hnodup, hmem⟩ := unborn_of_perm h hperm
  exact h.section hdoes (fun r hr => hperm.mem_iff.mpr (List.mem_append_left _ (hboots r hr))) hnodup
    (fun r hr => Or.inl ⟨(hmem r hr).1, fun hb => (hmem r hr).2 (hboots r hb)⟩) hup hreads

/-- The same when nothing that waits is touched. -/
theorem Daemon.Flights.plain (h : d.Flights) (hdoes : d.manager.Does cfg scope removed d'.manager)
    (hboots : scope.boots = []) (hunborn : d'.unborn = d.unborn) (hup : d'.up)
    (hreads : d'.phase.Reads d'.manager) : d'.Flights :=
  h.taking hdoes (show d.unborn.Perm ([] ++ d'.unborn) by rw [hunborn]; exact .refl _)
    (fun r hr => by rw [hboots] at hr; cases hr) hup hreads

end Invariant

/-! ### Changing one call -/

theorem flatMap_set {α β : Type} {l : List α} {a : α} (g : α → List β) (b : α) (hi : l[i]? = some a) :
    (g b ++ l.flatMap g).Perm (g a ++ (l.set i b).flatMap g) := by
  induction l generalizing i with
  | nil => cases hi
  | cons x xs ih =>
    cases i with
    | zero =>
      cases hi
      exact List.perm_append_comm_assoc _ _ _
    | succ i =>
      have hrest := (ih hi).append_left (g x)
      exact (List.perm_append_comm_assoc _ _ _).trans (hrest.trans (List.perm_append_comm_assoc _ _ _))

theorem unborn_setCreate {d' : Daemon} {task : CreateTask} {pc : CreatePc} (hi : d.creates[i]? = some task)
    (hc : d'.creates = d.creates.set i { task with pc := pc }) (hf : d'.forks = d.forks) :
    (pc.pending ++ d.unborn).Perm (task.pc.pending ++ d'.unborn) := by
  have h := flatMap_set (fun t : CreateTask => t.pc.pending) { task with pc := pc } hi
  rw [Daemon.unborn, Daemon.unborn, hc, hf, ← List.append_assoc, ← List.append_assoc]
  exact h.append_right _

theorem unborn_setFork {d' : Daemon} {task : ForkTask} {pc : ForkPc} (hi : d.forks[i]? = some task)
    (hc : d'.creates = d.creates) (hf : d'.forks = d.forks.set i { task with pc := pc }) :
    (pc.pending ++ d.unborn).Perm (task.pc.pending ++ d'.unborn) := by
  have h := flatMap_set (fun t : ForkTask => t.pc.pending) { task with pc := pc } hi
  rw [Daemon.unborn, Daemon.unborn, hc, hf]
  have hrest := h.append_left (d.creates.flatMap fun t => t.pc.pending)
  exact (List.perm_append_comm_assoc _ _ _).trans (hrest.trans (List.perm_append_comm_assoc _ _ _))

/-! ### The course of a step -/

/-- The machine that this step starts, gives up before its start, or registers again. -/
def Daemon.starting (d : Daemon) : Act → Option ℕ
  | .createAbandon i .. => d.placeholder i
  | .createPublish i .. => d.placeholder i
  | .forkPublish i .. => d.child i
  | .reconcileNext .. => some d.manager.nextObject
  | _ => none

/-- The process goes on, and the machines that the section removed go to their teardown. -/
structure Daemon.Moves (d : Daemon) (a : Act) (removed : List ℕ) (d' : Daemon) : Prop where
  up : d'.up
  phase : d'.phase = d.phase ∨ d.up ∧ d.phase.remaining = [] ∧ d'.phase.past
  teardowns : ∀ r ∈ d.teardowns ++ removed, r ∈ d'.teardowns ∨ d.manager.nextObject ≤ r ∨
    ∃ i verified now fault, a = .teardown i verified now fault ∧ d.teardowns[i]? = some r

/-- Every step, by its course. -/
inductive Coursed (cfg : Config) (d : Daemon) (a : Act) : Daemon → Prop
  | section {d' : Daemon} (scope : Scope) (removed : List ℕ) (hstart : d.starting a = none)
      (hboots : scope.boots = []) (hback : scope.undoes → ¬ scope.checkpoints)
      (hdoes : d.manager.Does cfg scope removed d'.manager) (hmoves : d.Moves a removed d') : Coursed cfg d a d'
  | refused (i : ℕ) (driver : Driver) (reading : Reading) (now : Time) (fault : SaveFault) (task : ForkTask)
      (children : List ℕ) (r : ℕ) (ha : a = .forkPublish i driver reading now fault) (hr : d.child i = some r)
      (hrefused : (d.manager.current r && d.manager.admissionHealthy) = false)
      (hmoves : d.Moves a [] (d.setFork i task (.rolling children))) :
      Coursed cfg d a (d.setFork i task (.rolling children))
  | child {d' : Daemon} (i : ℕ) (driver : Driver) (reading : Reading) (now : Time) (fault : SaveFault) (r : ℕ)
      (ok : Bool) (ha : a = .forkPublish i driver reading now fault) (hp : d.phase = .serving)
      (hr : d.child i = some r) (hcurrent : d.manager.current r = true) (hhealthy : d.manager.admissionHealthy = true)
      (hidle : d.manager.eligible r = false)
      (hm : d.manager.publishChild cfg r driver reading now fault = (d'.manager, ok))
      (hmoves : d.Moves a [] d') : Coursed cfg d a d'
  | abandoned {d' : Daemon} (i : ℕ) (reason : String) (now : Time) (fault : SaveFault) (r : ℕ)
      (ha : a = .createAbandon i reason now fault) (hp : d.phase = .serving) (hr : d.placeholder i = some r)
      (hidle : d.manager.eligible r = false) (hm : d.manager.abandonCreate cfg r reason now fault = d'.manager)
      (hmoves : d.Moves a [r] d') : Coursed cfg d a d'
  | published {d' : Daemon} (i : ℕ) (driver : Driver) (overlayMb : ℕ) (reading : Reading) (now : Time)
      (fault fault' : SaveFault) (r : ℕ) (ok : Bool)
      (ha : a = .createPublish i driver overlayMb reading now fault fault') (hp : d.phase = .serving)
      (hr : d.placeholder i = some r)
      (hidle : d.manager.eligible r = false)
      (hm : d.manager.publishCreate cfg r driver overlayMb reading now fault fault' = (d'.manager, ok))
      (hmoves : d.Moves a (if ok then [] else [r]) d') : Coursed cfg d a d'
  | undone {d' : Daemon} (order : List ℕ) (readings : ℕ → Reading) (now : Time) (fault : SaveFault)
      (ha : a = .checkpoint order readings now fault) (hp : d.phase = .serving) (hne : order ≠ []) (x y : Manager)
      (hdoes : d.manager.Does cfg { checkpoints := True } [] x) (hfiled : x.filed = d.manager.filed)
      (hy : x.persist cfg now fault = (y, false)) (hbooks : d'.manager.books = d.manager.books)
      (hfiled' : d'.manager.filed = y.filed) (hmoves : d.Moves a [] d') : Coursed cfg d a d'
  | extended {d' : Daemon} (id leaseId key : String) (target now : Time) (fault : SaveFault) (r : ℕ)
      (ha : a = .extend id leaseId key target now fault) (hp : d.phase = .serving) (hr : d.manager.find id = some r)
      (hm : d'.manager
        = ((d.manager.modifyMachine r fun m => m.extended key target).persist cfg now fault).1)
      (hmoves : d.Moves a [] d') : Coursed cfg d a d'
  | boot (bootId : Option String) (available : JailerIdentity → Bool) (now : Time) (fault : SaveFault)
      (ha : a = .boot bootId available now fault) (hp : d.phase = .down) :
      Coursed cfg d a (d.start cfg bootId available now fault)
  | crash (hp : d.up) : Coursed cfg d a d.exit
  | lost (loaded : List PersistedMachine) (doc : MachineStateSnapshot) (operations : List PersistedForkOperation)
      (index : ℕ) (started : Time) (p : PersistedMachine) (probe : RuntimeProbe) (reading : Reading)
      (updatedAt : String) (now : Time) (fault : SaveFault) (reason : HostUsageObservationQualityReason)
      (x : Manager) (doc' : MachineStateSnapshot) (ok : Bool)
      (ha : a = .reconcileNext probe reading updatedAt now fault)
      (hp : d.phase = .reconciling loaded doc operations index started) (hi : doc.machines[index]? = some p)
      (hreason : d.manager.lostReason cfg (upgraded p) probe started = some reason)
      (hx : d.manager.finalizePersistedMachine { doc with machines := doc.machines.set index (upgraded p) } index
        (upgraded p) reason updatedAt now fault = (x, doc', ok)) :
      Coursed cfg d a (if ok then { d with
        manager := x.logTransition (upgraded p).id (upgraded p).leaseId (some (upgraded p).status) .lost
          (reasonText reason)
        phase := .reconciling loaded doc' operations (index + 1) started } else (d.withManager x).exit)
  | rejoined (loaded : List PersistedMachine) (doc : MachineStateSnapshot)
      (operations : List PersistedForkOperation) (index : ℕ) (started : Time) (p : PersistedMachine)
      (probe : RuntimeProbe) (reading : Reading) (updatedAt : String) (now : Time) (fault : SaveFault)
      (x : Manager) (ok : Bool) (ha : a = .reconcileNext probe reading updatedAt now fault)
      (hp : d.phase = .reconciling loaded doc operations index started) (hi : doc.machines[index]? = some p)
      (hreason : d.manager.lostReason cfg (upgraded p) probe started = none)
      (hfree : d.manager.registered p.id = false)
      (hx : d.manager.reattach (upgraded p) reading = (x, ok)) :
      Coursed cfg d a (if ok then { d with
        manager := x
        phase := .reconciling loaded { doc with machines := doc.machines.set index (upgraded p) } operations
          (index + 1) started } else (d.withManager x).exit)
  | uncommitted (now : Time) (fault : SaveFault) (m : Manager) (ha : a = .reconcileCommit now fault)
      (hp : d.phase = .committing) (hm : d.manager.persist cfg now fault = (m, false)) :
      Coursed cfg d a (d.withManager m).exit

theorem tearDown_nil (d : Daemon) : d.tearDown [] = d := by
  rw [Daemon.tearDown, List.append_nil]

theorem stopped_eq (d : Daemon) (x : Manager × Stop) :
    d.stopped x = (d.withManager x.1).tearDown x.2.removed := by
  obtain ⟨m, stop⟩ := x
  cases stop with
  | absent => exact (tearDown_nil _).symm
  | failed => exact (tearDown_nil _).symm
  | done r => rfl

section Steps

variable {cfg : Config} {d : Daemon} {scope : Scope} {removed : List ℕ} {a : Act} {m : Manager}

/-- A step that has run its course, and the invariant after it. -/
structure Courses (cfg : Config) (d : Daemon) (a : Act) (d' : Daemon) : Prop where
  coursed : Coursed cfg d a d'
  flights : d'.Flights

variable {d' : Daemon} {i : ℕ} {task : CreateTask}

/-- A section that touches no create and no fork. -/
theorem Daemon.Flights.other (h : d.Flights) (hstart : d.starting a = none) (hboots : scope.boots = [])
    (hback : scope.undoes → ¬ scope.checkpoints) (hdoes : d.manager.Does cfg scope removed d'.manager)
    (hunborn : d'.unborn = d.unborn) (hphase : d'.phase = d.phase ∨ d.up ∧ d.phase.remaining = [] ∧ d'.phase.past)
    (hup : d'.up) (hteardowns : ∀ r ∈ d.teardowns ++ removed, r ∈ d'.teardowns) (hreads : d'.phase.Reads d'.manager) :
    Courses cfg d a d' :=
  ⟨.section scope removed hstart hboots hback hdoes ⟨hup, hphase, fun r hr => Or.inl (hteardowns r hr)⟩,
    h.plain hdoes hboots hunborn hup hreads⟩

/-- A section while the process runs, also during a restart. -/
theorem Daemon.Flights.running (h : d.Flights) (hp : d.up) (hstart : d.starting a = none)
    (hboots : scope.boots = []) (hback : scope.undoes → ¬ scope.checkpoints)
    (hdoes : d.manager.Does cfg scope removed m) (hkeeps : d.manager.Keeps m) :
    Courses cfg d a ((d.withManager m).tearDown removed) :=
  h.other hstart hboots hback hdoes rfl (Or.inl rfl) hp
    (fun _ hr => hr) (h.reads.keeps h.placed hkeeps)

/-- A section of a create that starts no machine. -/
theorem Daemon.Flights.createStep (h : d.Flights) {pc : CreatePc} (hp : d.phase = .serving)
    (hi : d.creates[i]? = some task) (hstart : d.starting a = none) (hboots : scope.boots = [])
    (hback : scope.undoes → ¬ scope.checkpoints) (hdoes : d.manager.Does cfg scope removed m) (hpc : pc.pending = [])
    (hremoved : ∀ r ∈ removed, d.manager.nextObject ≤ r) :
    Courses cfg d a ((d.withManager m).setCreate i task pc) := by
  set d' := (d.withManager m).setCreate i task pc with hd
  have hphase : d'.phase = .serving := hp
  have hup : d'.up := by
    rw [Daemon.up, hphase]
    exact Phase.noConfusion
  have hperm : (pc.pending ++ d.unborn).Perm (task.pc.pending ++ d'.unborn) := unborn_setCreate hi rfl rfl
  rw [hpc, List.nil_append] at hperm
  refine ⟨.section scope removed hstart hboots hback hdoes ⟨hup, Or.inl rfl, fun r hr => ?_⟩,
    h.taking hdoes hperm (fun r hr => by rw [hboots] at hr; cases hr) hup (by rw [hphase]; trivial)⟩
  rcases List.mem_append.mp hr with hr | hr
  · exact Or.inl hr
  · exact Or.inr (Or.inl (hremoved r hr))

/-- A section of a fork that starts no machine. -/
theorem Daemon.Flights.forkStep (h : d.Flights) {task : ForkTask} {pc : ForkPc} (hp : d.phase = .serving)
    (hi : d.forks[i]? = some task) (hstart : d.starting a = none) (hboots : scope.boots = [])
    (hback : scope.undoes → ¬ scope.checkpoints) (hdoes : d.manager.Does cfg scope removed m)
    (hpc : pc.pending = [] ∨ pc.pending = task.pc.pending) :
    Courses cfg d a (((d.withManager m).setFork i task pc).tearDown removed) := by
  set d' := ((d.withManager m).setFork i task pc).tearDown removed with hd
  have hphase : d'.phase = .serving := hp
  have hup : d'.up := by
    rw [Daemon.up, hphase]
    exact Phase.noConfusion
  have hperm : (pc.pending ++ d.unborn).Perm (task.pc.pending ++ d'.unborn) := unborn_setFork hi rfl rfl
  have hnone : ∀ gone : List ℕ, ∀ r ∈ scope.boots, r ∈ gone := fun gone r hr => by
    rw [hboots] at hr
    cases hr
  refine ⟨.section scope removed hstart hboots hback hdoes ⟨hup, Or.inl rfl, fun r hr => Or.inl hr⟩, ?_⟩
  rcases hpc with hpc | hpc
  · rw [hpc, List.nil_append] at hperm
    exact h.taking hdoes hperm (hnone _) hup (by rw [hphase]; trivial)
  · rw [hpc, List.perm_append_left_iff] at hperm
    exact h.taking hdoes (show d.unborn.Perm ([] ++ d'.unborn) from hperm) (hnone _) hup (by rw [hphase]; trivial)

theorem placeholder_idle (h : d.Flights) {r : ℕ} (hi : d.creates[i]? = some task) (hpc : task.pc = .booting r) :
    d.placeholder i = some r ∧ d.manager.eligible r = false := by
  refine ⟨placeholder_some.mpr ⟨task, hi, hpc⟩, (h.idle r (List.mem_append_left _ ?_)).2⟩
  refine List.mem_flatMap.mpr ⟨task, List.mem_of_getElem? hi, ?_⟩
  rw [hpc]
  exact List.mem_singleton_self r

/-- A create that has come back from its boot leaves those that wait. -/
theorem Daemon.Flights.published (h : d.Flights) {r : ℕ} {ok : Bool} (hp : d.phase = .serving)
    (hi : d.creates[i]? = some task) (hpc : task.pc = .booting r) (hboots : scope.boots = [r])
    (hdoes : d.manager.Does cfg scope removed d'.manager)
    (hc : d'.creates = d.creates.set i { task with pc := .published r ok }) (hf : d'.forks = d.forks)
    (hphase : d'.phase = d.phase) : d'.Flights := by
  have hperm : d.unborn.Perm ([r] ++ d'.unborn) := by
    have hset := unborn_setCreate hi hc hf
    rw [hpc] at hset
    exact hset
  refine h.taking hdoes hperm (fun r' hr' => by rwa [hboots] at hr') ?_ ?_
  · rw [Daemon.up, hphase, hp]
    exact Phase.noConfusion
  · rw [hphase, hp]
    trivial

/-- A fork begins; the machines that it gives up again are new. -/
theorem Daemon.Flights.begun (h : d.Flights) {dropped : List ℕ} (hp : d.phase = .serving) (hstart : d.starting a = none)
    (hdoes : d.manager.Does cfg { places := True, forks := True } (dropped ++ removed) d'.manager)
    (hdropped : ∀ r ∈ dropped, d.manager.nextObject ≤ r) (hphase : d'.phase = d.phase)
    (hteardowns : d'.teardowns = d.teardowns ++ removed) (hcreates : d'.creates = d.creates)
    (hforks : d'.forks.flatMap (·.pc.pending) = d.forks.flatMap (·.pc.pending)) : Courses cfg d a d' := by
  have hphase' : d'.phase = .serving := hphase.trans hp
  have hup : d'.up := by
    rw [Daemon.up, hphase']
    exact Phase.noConfusion
  refine ⟨.section _ _ hstart rfl False.elim hdoes ⟨hup, Or.inl hphase, fun r hr => ?_⟩,
    h.plain hdoes rfl (by rw [Daemon.unborn, Daemon.unborn, hcreates, hforks]) hup (by rw [hphase']; trivial)⟩
  rw [hteardowns]
  rcases List.mem_append.mp hr with hr | hr
  · exact Or.inl (List.mem_append_left _ hr)
  · rcases List.mem_append.mp hr with hr | hr
    · exact Or.inr (Or.inl (hdropped r hr))
    · exact Or.inl (List.mem_append_right _ hr)

theorem pending_append {forks : List ForkTask} {t : ForkTask} (ht : t.pc.pending = []) :
    (forks ++ [t]).flatMap (·.pc.pending) = forks.flatMap (·.pc.pending) := by
  rw [List.flatMap_append, List.flatMap_singleton, ht, List.append_nil]

/-- A fork has booted a child. -/
theorem Daemon.Flights.boots (h : d.Flights) {r : ℕ} {driver : Driver} {reading : Reading} {now : Time}
    {fault : SaveFault} {task : ForkTask} {children : List ℕ} {next : ℕ} {ok : Bool} (hp : d.phase = .serving)
    (hi : d.forks[i]? = some task) (hpc : task.pc = .booting children next) (hr : children[next]? = some r)
    (hm : d.manager.publishChild cfg r driver reading now fault = (m, ok)) :
    Courses cfg d (.forkPublish i driver reading now fault) ((d.withManager m).setFork i task
      (if ok then if next + 1 < children.length then .booting children (next + 1) else .awaiting children
        else .rolling children)) := by
  set pc : ForkPc := if ok then
    if next + 1 < children.length then .booting children (next + 1) else .awaiting children
    else .rolling children with hpc'
  have hchild : d.child i = some r := by
    obtain ⟨res, pc⟩ := task
    cases hpc
    simp only [Daemon.child, hi, hr]
  have hdrop : task.pc.pending = r :: children.drop (next + 1) := by
    obtain ⟨hlt, heq⟩ := List.getElem?_eq_some_iff.mp hr
    rw [hpc]
    show children.drop next = _
    rw [← heq]
    exact List.drop_eq_getElem_cons hlt
  have hidle : d.manager.eligible r = false := by
    refine (h.idle r (List.mem_append_right _ (List.mem_flatMap.mpr ⟨task, List.mem_of_getElem? hi, ?_⟩))).2
    rw [hdrop]
    exact List.mem_cons_self
  have hup : d.up := by
    rw [Daemon.up, hp]
    exact Phase.noConfusion
  have hmoves : ∀ m' pc', d.Moves (.forkPublish i driver reading now fault) [] ((d.withManager m').setFork i task pc') :=
    fun m' pc' => ⟨hup, Or.inl rfl, fun r hr => Or.inl (by rwa [List.append_nil] at hr)⟩
  by_cases hkept : (d.manager.current r && d.manager.admissionHealthy) = true
  · rw [Bool.and_eq_true] at hkept
    refine ⟨.child i driver reading now fault r ok rfl hp hchild hkept.1 hkept.2 hidle hm (hmoves m pc), ?_⟩
    have hdoes := publishChild_does d.manager cfg r driver reading now fault
    rw [hm] at hdoes
    set d' := (d.withManager m).setFork i task pc with hd
    have hphase : d'.phase = .serving := hp
    have hperm : (pc.pending ++ d.unborn).Perm (task.pc.pending ++ d'.unborn) := unborn_setFork hi rfl rfl
    rw [hdrop] at hperm
    -- the child leaves those that wait, and when the fork rolls back, so do the rest
    have hgone : ∃ gone, r ∈ gone ∧ d.unborn.Perm (gone ++ d'.unborn) := by
      cases ok with
      | false => exact ⟨_, List.mem_cons_self, hperm⟩
      | true =>
        have hpending : pc.pending = children.drop (next + 1) := by
          rw [hpc']
          simp only [if_true]
          split
          · rfl
          · next hlt => exact (List.drop_eq_nil_of_le (not_lt.mp hlt)).symm
        rw [hpending] at hperm
        refine ⟨[r], List.mem_singleton_self r, (List.perm_append_left_iff (children.drop (next + 1))).mp ?_⟩
        exact hperm.trans (List.perm_append_comm_assoc [r] (children.drop (next + 1)) d'.unborn)
    obtain ⟨gone, hr', hperm'⟩ := hgone
    exact h.taking hdoes hperm' (fun r' hr'' => List.mem_singleton.mp hr'' ▸ hr') hup
      (by rw [hphase]; trivial)
  · have hfalse : (d.manager.current r && d.manager.admissionHealthy) = false := by simpa using hkept
    have hsame : (m, ok) = (d.manager, false) := by
      have hrefused : (d.manager.find (d.manager.objects r).id != some r || !d.manager.admissionHealthy) = true := by
        rw [Bool.and_eq_false_iff] at hfalse
        rcases hfalse with hc | hc
        · exact Bool.or_eq_true_iff.mpr (Or.inl (by simpa [Manager.current, bne] using hc))
        · rw [hc, Bool.not_false, Bool.or_true]
      rw [publishChild, if_pos hrefused] at hm
      exact hm.symm
    cases hsame
    have hf : Courses cfg d (.persist now fault)
        (((d.withManager d.manager).setFork i task (.rolling children)).tearDown []) :=
      h.forkStep hp hi rfl rfl False.elim (.refl cfg {} d.manager) (Or.inl rfl)
    rw [tearDown_nil] at hf
    exact ⟨.refused i driver reading now fault task children r rfl hchild hfalse (hmoves d.manager _), hf.flights⟩

/-- A restart reads one machine of its document: it gives up its lease, or registers it again. -/
theorem Daemon.Flights.reconciled (h : d.Flights) {loaded : List PersistedMachine} {doc : MachineStateSnapshot}
    {operations : List PersistedForkOperation} {index : ℕ} {started : Time} {p : PersistedMachine}
    {probe : RuntimeProbe} {reading : Reading} {updatedAt : String} {now : Time} {fault : SaveFault}
    (hp : d.phase = .reconciling loaded doc operations index started) (hi : doc.machines[index]? = some p) :
    Courses cfg d (.reconcileNext probe reading updatedAt now fault)
      (d.reconcileMachine cfg loaded doc operations index started p probe reading updatedAt now fault) := by
  have hreads := h.reads
  rw [hp] at hreads
  obtain ⟨hnodup, hseen⟩ := hreads
  have hpid : (upgraded p).id = p.id := by
    simp only [upgraded]
    split <;> rfl
  have hids : (doc.machines.set index (upgraded p)).map (·.id) = doc.machines.map (·.id) :=
    map_set_same hi hpid
  have hnext : ∀ {x : Manager} (doc' : MachineStateSnapshot), doc'.machines.map (·.id) = doc.machines.map (·.id) →
      (∀ r ∈ x.machines, (x.objects r).id ∈ (doc.machines.take (index + 1)).map (·.id)) →
      (Phase.reconciling loaded doc' operations (index + 1) started).Reads x := by
    intro x doc' hdoc hx
    refine ⟨hdoc ▸ hnodup, fun r hr => ?_⟩
    rw [List.map_take, hdoc, ← List.map_take]
    exact hx r hr
  have hstep : ∀ id ∈ (doc.machines.take index).map (·.id), id ∈ (doc.machines.take (index + 1)).map (·.id) :=
    fun id hid => List.map_subset _ (List.take_subset_take_left _ (Nat.le_succ _)) hid
  simp only [Daemon.reconcileMachine]
  split
  · next reason hreason =>
    have hcourse := fun x doc' ok => @Coursed.lost cfg d _ loaded doc operations index started p probe reading
      updatedAt now fault reason x doc' ok rfl hp hi hreason
    have hbooks := finalizePersistedMachine_books d.manager
      { doc with machines := doc.machines.set index (upgraded p) } index (upgraded p) reason updatedAt now fault
    have hset : (doc.machines.set index (upgraded p))[index]? = some (upgraded p) :=
      List.getElem?_set_self (List.getElem?_eq_some_iff.mp hi).1
    have hdoc := finalizePersistedMachine_ids d.manager
      { doc with machines := doc.machines.set index (upgraded p) } hset reason updatedAt now fault
    split
    · next x doc' heq =>
      rw [heq] at hbooks hdoc
      have ho : x.objects = d.manager.objects := congrArg Books.objects hbooks
      have hm : x.machines = d.manager.machines := congrArg Books.machines hbooks
      refine ⟨hcourse x doc' true heq, h.frame hm (congrArg Books.nextObject hbooks) (fun r => ?_) rfl
        Phase.noConfusion (hnext doc' (hdoc.trans hids) fun r hr => ?_)⟩
      · show (x.objects r).id = _ ∧ (x.objects r).metering = _
        rw [ho]
        exact ⟨rfl, rfl⟩
      · show (x.objects r).id ∈ _
        rw [ho]
        exact hstep _ (hseen r (hm ▸ hr))
    · next x doc' heq => exact ⟨hcourse x doc' false heq, exit_flights _⟩
  · next hreason =>
    have hfree : d.manager.registered p.id = false := by
      rw [← Bool.not_eq_true, registered_iff]
      rintro ⟨r, hr, hid⟩
      have hbefore := hseen r hr
      rw [hid] at hbefore
      have hsub : ((doc.machines.take (index + 1)).map (·.id)).Nodup :=
        (List.Sublist.map _ (List.take_sublist _ _)).nodup hnodup
      rw [List.take_add_one, hi, Option.toList_some, List.map_append, List.nodup_append] at hsub
      exact hsub.2.2 p.id hbefore p.id (List.mem_singleton_self _) rfl
    have hcourse := fun x ok => @Coursed.rejoined cfg d _ loaded doc operations index started p probe reading
      updatedAt now fault x ok rfl hp hi hreason hfree
    split
    · next x heq =>
      refine ⟨hcourse x true heq, ?_⟩
      have hrejoined := reattach_rejoined d.manager h.placed (hpid ▸ hfree) heq
      refine h.rejoin hfree hpid hrejoined rfl rfl Phase.noConfusion (hnext _ hids fun r hr => ?_)
      rcases List.mem_append.mp (hrejoined.machines ▸ hr) with hr | hr
      · rw [hrejoined.others r (h.placed r hr).ne]
        exact hstep _ (hseen r hr)
      · obtain ⟨s, reserved, hmachine, _⟩ := hrejoined.machine
        rw [List.mem_singleton.mp hr, hmachine]
        show (upgraded p).id ∈ _
        rw [hpid]
        obtain ⟨hlt, heqp⟩ := List.getElem?_eq_some_iff.mp hi
        refine List.mem_map.mpr ⟨p, ?_, rfl⟩
        rw [← heqp]
        exact List.mem_take_iff_getElem.mpr ⟨index, by omega, rfl⟩
    · next x heq => exact ⟨hcourse x false heq, exit_flights _⟩

/-- **Every step runs one of the courses and keeps the invariant.** -/
theorem flights_step (h : d.Flights) (hs : Stepped cfg d a d') : Courses cfg d a d' := by
  have hup : d.phase = .serving → d.up := fun hp => by
    rw [Daemon.up, hp]
    exact Phase.noConfusion
  have hreads : d.phase = .serving → ∀ {x}, d.phase.Reads x := fun hp => by
    rw [hp]
    exact trivial
  cases hs with
  | boot bootId available now fault hp =>
    obtain ⟨hc, hf⟩ := h.down hp
    refine ⟨.boot bootId available now fault rfl hp, ?_⟩
    simp only [Daemon.start]
    split
    · next operations hvalid hops =>
      refine empty_flights rfl rfl hc hf ⟨?_, fun _ hr => (List.not_mem_nil hr).elim⟩
      simp only [validSnapshot, Bool.and_eq_true, decide_eq_true_eq] at hvalid
      exact hvalid.1.1.2
    · split
      · next x hx =>
        obtain rfl : _ = x := congrArg Prod.fst hx
        exact empty_flights rfl rfl hc hf trivial
      · exact exit_flights _
  | crash hp => exact ⟨.crash hp, exit_flights d⟩
  | ready id now fault hp =>
    have hr := h.running (a := .ready id now fault) hp rfl rfl False.elim
      (becomeReady_does d.manager cfg id now fault) (becomeReady_keeps d.manager cfg id now fault)
    rwa [tearDown_nil] at hr
  | reap id reading now fault hp =>
    rw [stopped_eq]
    exact h.running hp rfl rfl (fun _ => not_false) (reap_does d.manager cfg h.keyed id reading now fault)
      (reap_keeps d.manager cfg id reading now fault)
  | teardown i r verified now fault hp hr =>
    have hdoes := releaseAfterTeardown_does d.manager cfg (d.manager.objects r).id
      (d.manager.objects r).jailerIdentity verified now fault
    refine ⟨.section {} [] rfl rfl False.elim hdoes ⟨hp, Or.inl rfl, fun r' hr' => ?_⟩,
      h.plain hdoes rfl rfl hp (h.reads.keeps h.placed
        (releaseAfterTeardown_keeps d.manager cfg _ _ verified now fault))⟩
    rw [List.append_nil] at hr'
    by_cases hne : r' = r
    · exact Or.inr (Or.inr ⟨i, verified, now, fault, rfl, hne ▸ hr⟩)
    · obtain ⟨j, hj⟩ := List.mem_iff_getElem?.mp hr'
      refine Or.inl (List.mem_eraseIdx_iff_getElem?.mpr ⟨j, fun hji => hne ?_, hj⟩)
      rw [hji, hr] at hj
      exact (Option.some.inj hj).symm
  | destroy id reading now fault hp =>
    rw [stopped_eq]
    exact h.running (hup hp) rfl rfl (fun _ => not_false)
      (destroy_does d.manager cfg h.keyed id reading now fault)
      (destroy_keeps d.manager cfg id reading now fault)
  | extend id leaseId key target now fault hp =>
    obtain ⟨e, heq⟩ | ⟨r, _, _, _, heq⟩ | ⟨r, hr, _, _, heq⟩ := extend_cases d.manager cfg id leaseId key target
      now fault
    · rw [heq]
      exact h.other rfl rfl False.elim (.refl cfg {} d.manager) rfl (Or.inl rfl) (hup hp)
        (fun r hr => by rwa [List.append_nil] at hr) (hreads hp)
    · rw [heq]
      exact h.other rfl rfl False.elim (.refl cfg {} d.manager) rfl (Or.inl rfl) (hup hp)
        (fun r hr => by rwa [List.append_nil] at hr) (hreads hp)
    · rw [heq]
      refine ⟨.extended id leaseId key target now fault r rfl hp hr rfl ⟨hup hp, Or.inl rfl, fun r' hr' => Or.inl ?_⟩,
        h.frame rfl rfl (fun r' => ?_) rfl (hup hp) (hreads hp)⟩
      · rwa [List.append_nil] at hr'
      · show (Function.update d.manager.objects r ((d.manager.objects r).extended key target) r').id = _ ∧
          (Function.update d.manager.objects r ((d.manager.objects r).extended key target) r').metering = _
        by_cases hne : r' = r
        · rw [hne, Function.update_self]
          exact ⟨rfl, rfl⟩
        · rw [Function.update_of_ne hne]
          exact ⟨rfl, rfl⟩
  | checkpoint order readings now fault hp _ =>
    rcases checkpoint_cases d.manager cfg order readings now fault with
      hdoes | ⟨hne, x, y, hdoes, hfiled, hy, hbooks, hfiled'⟩
    · exact h.other rfl rfl False.elim hdoes rfl (Or.inl rfl) (hup hp)
        (fun r hr => by rwa [List.append_nil] at hr) (hreads hp)
    · refine ⟨.undone order readings now fault rfl hp hne x y hdoes hfiled hy hbooks hfiled'
        ⟨hup hp, Or.inl rfl, fun r hr => Or.inl (by rwa [List.append_nil] at hr)⟩,
        h.frame (congrArg Books.machines hbooks) (congrArg Books.nextObject hbooks) (fun r => ?_) rfl (hup hp)
        (hreads hp)⟩
      have ho : (d.manager.checkpoint cfg order readings now fault).1.objects = d.manager.objects :=
        congrArg Books.objects hbooks
      show ((d.manager.checkpoint cfg order readings now fault).1.objects r).id = _ ∧ _
      rw [ho]
      exact ⟨rfl, congrArg (fun o => (o r).metering) ho⟩
  | acknowledge sent receipts now fault hp =>
    exact h.other rfl rfl (fun _ => not_false) (acknowledge_does d.manager cfg sent receipts now fault) rfl
      (Or.inl rfl) (hup hp) (fun r hr => by rwa [List.append_nil] at hr) (hreads hp)
  | persist now fault hp =>
    exact h.other rfl rfl False.elim ((Does.refl cfg {} d.manager).commit now fault) rfl (Or.inl rfl) (hup hp)
      (fun r hr => by rwa [List.append_nil] at hr) (hreads hp)
  | health network cohort hp =>
    exact h.other rfl rfl False.elim ((Does.refl cfg {} d.manager).note rfl rfl) rfl (Or.inl rfl) (hup hp)
      (fun r hr => by rwa [List.append_nil] at hr) (hreads hp)
  | createBegin req m hp hm =>
    refine h.other rfl rfl False.elim (beginCreate_does d.manager cfg hm) ?_ (Or.inl rfl) (hup hp)
      (fun r hr => by rwa [List.append_nil] at hr) (hreads hp)
    rw [Daemon.unborn, Daemon.unborn, List.flatMap_append]
    exact congrArg (· ++ _) (List.append_nil _)
  | createReserved i draw refusal memory now fault task m r hp hi hpc hid hm =>
    obtain ⟨removed, hdoes, _, hplaced⟩ := reserveCreate_does d.manager cfg task.req draw refusal memory now
      fault hid
    rw [hm] at hdoes hplaced
    obtain ⟨rfl, rfl, hfind⟩ := hplaced r rfl
    set d' := (d.withManager m).setCreate i task (.booting d.manager.nextObject) with hd
    have hphase : d'.phase = .serving := hp
    have hperm : (d.manager.nextObject :: d.unborn).Perm d'.unborn := by
      have hset := unborn_setCreate hi (show d'.creates = d.creates.set i { task with pc := .booting d.manager.nextObject }
        from rfl) rfl
      rw [hpc] at hset
      exact hset
    have hplace := (hdoes.tidy h.placed h.keyed).placed _ (find_some hfind).1
    have hnew : d.manager.nextObject ∉ d.unborn := fun hmem => absurd (h.idle _ hmem).1 (lt_irrefl _)
    refine ⟨.section { places := True } [] rfl rfl False.elim hdoes ⟨hup hp, Or.inl rfl, fun r hr => Or.inl ?_⟩,
      h.section hdoes (fun _ hr => (List.not_mem_nil hr).elim)
        (hperm.nodup_iff.mp (List.nodup_cons.mpr ⟨hnew, h.unborn⟩)) (fun r hr => ?_) (hup hp)
        (by rw [hphase]; trivial)⟩
    · rwa [List.append_nil] at hr
    · rcases List.mem_cons.mp (hperm.mem_iff.mpr hr) with rfl | hr
      · exact Or.inr ⟨le_refl _, hplace⟩
      · exact Or.inl ⟨hr, List.not_mem_nil⟩
  | createRefused i draw refusal memory now fault task m e hp hi hpc hid hm =>
    obtain ⟨removed, hdoes, hremoved, _⟩ := reserveCreate_does d.manager cfg task.req draw refusal memory now
      fault hid
    rw [hm] at hdoes
    exact h.createStep hp hi rfl rfl False.elim hdoes rfl fun r hr => (hremoved r hr).ge
  | createAbandon i reason now fault task r hp hi hpc =>
    obtain ⟨hmine, hidle⟩ := placeholder_idle h hi hpc
    exact ⟨.abandoned i reason now fault r rfl hp hmine hidle rfl ⟨hup hp, Or.inl rfl, fun r' hr' => Or.inl hr'⟩,
      h.published hp hi hpc rfl (abandonCreate_does d.manager cfg r reason now fault) rfl rfl rfl⟩
  | createPublish i driver overlayMb reading now fault fault' task r m ok hp hi hpc hm =>
    obtain ⟨hmine, hidle⟩ := placeholder_idle h hi hpc
    have hdoes := publishCreate_does d.manager cfg r driver overlayMb reading now fault fault'
    rw [hm] at hdoes
    exact ⟨.published i driver overlayMb reading now fault fault' r ok rfl hp hmine hidle hm
      ⟨hup hp, Or.inl rfl, fun r' hr' => Or.inl hr'⟩, h.published hp hi hpc rfl hdoes rfl rfl rfl⟩
  | createEnd i task id hp hi =>
    exact h.createStep hp hi rfl rfl False.elim (endCreate_does d.manager cfg _ id) rfl
      fun _ hr => (List.not_mem_nil hr).elim
  | forkRefused req probe now fault fault' m e hp hdraws hm =>
    obtain ⟨dropped, hdoes, hdropped⟩ := beginFork_does d.manager cfg h.placed h.keyed hdraws now fault fault'
    rw [hm] at hdoes
    exact h.begun hp rfl hdoes hdropped rfl (List.append_nil _).symm rfl rfl
  | forkReplay req probe now fault fault' m res hp hdraws hm =>
    obtain ⟨dropped, hdoes, hdropped⟩ := beginFork_does d.manager cfg h.placed h.keyed hdraws now fault fault'
    rw [hm] at hdoes
    exact h.begun hp rfl hdoes hdropped rfl (List.append_nil _).symm rfl (pending_append rfl)
  | forkStarted req probe now fault fault' m res source children hp hdraws hm =>
    obtain ⟨dropped, hdoes, hdropped⟩ := beginFork_does d.manager cfg h.placed h.keyed hdraws now fault fault'
    obtain ⟨hnew, hnodup⟩ := beginFork_children hm
    rw [hm] at hdoes
    set d' : Daemon := { d with
      manager := m
      forks := d.forks ++ [⟨res, .checking source (m.objects source).driver children⟩] } with hd
    have hunborn : d'.unborn = d.unborn ++ children := by
      rw [Daemon.unborn, Daemon.unborn, List.append_assoc, List.flatMap_append, List.flatMap_singleton]
      rfl
    refine ⟨.section _ _ rfl rfl False.elim hdoes ⟨hup hp, Or.inl rfl, fun r hr => ?_⟩,
      h.section hdoes (fun _ hr => (List.not_mem_nil hr).elim) ?_ (fun r hr => ?_) (hup hp) (hreads hp)⟩
    · rcases List.mem_append.mp hr with hr | hr
      · exact Or.inl hr
      · exact Or.inr (Or.inl (hdropped r (by simpa [ForkBegin.removed] using hr)))
    · rw [hunborn, List.nodup_append]
      refine ⟨h.unborn, hnodup, fun r hr r' hr' hrr' => ?_⟩
      exact absurd (h.idle r hr).1 (not_lt.mpr (hrr' ▸ (hnew r' hr').1))
    · rw [hunborn] at hr
      rcases List.mem_append.mp hr with hr | hr
      · exact Or.inl ⟨hr, List.not_mem_nil⟩
      · exact Or.inr (hnew r hr)
  | forkUnsaved req probe now fault fault' m res removed hp hdraws hm =>
    obtain ⟨dropped, hdoes, hdropped⟩ := beginFork_does d.manager cfg h.placed h.keyed hdraws now fault fault'
    rw [hm] at hdoes
    exact h.begun hp rfl hdoes hdropped rfl rfl rfl (pending_append rfl)
  | forkMoved a i task pc hp hi hpc ha =>
    have hstart : d.starting a = none := by
      rcases ha with ⟨taken, rfl⟩ | rfl | ⟨ready, rfl⟩ <;> rfl
    have hf : Courses cfg d a (((d.withManager d.manager).setFork i task pc).tearDown []) :=
      h.forkStep hp hi hstart rfl False.elim (.refl cfg {} d.manager) ?_
    · rwa [tearDown_nil] at hf
    · rcases hpc with ⟨source, driver, children, hpc, rfl | rfl⟩ | ⟨children, next, hpc, rfl⟩ |
        ⟨children, hpc, rfl | ⟨rfl, _⟩⟩
      · exact Or.inl rfl
      · exact Or.inr (by rw [hpc]; rfl)
      · exact Or.inl rfl
      · exact Or.inl rfl
      · exact Or.inl rfl
  | forkPublish i driver reading now fault task children next r m ok hp hi hpc hr hm =>
    exact h.boots hp hi hpc hr hm
  | forkRollback i readings now fault task children hp hi hpc =>
    exact h.forkStep hp hi rfl rfl (fun _ => not_false)
      (rollbackForkChildren_does d.manager cfg h.keyed children readings now fault) (Or.inl rfl)
  | forkFinish i readings now fault fault' task failed m e hp hi hpc hm =>
    have hdoes := finishFork_does d.manager cfg h.keyed task.res failed readings now fault fault'
    rw [hm] at hdoes
    exact h.forkStep hp hi rfl rfl (fun _ => not_false) hdoes (Or.inl rfl)
  | forkClose i task succeeded hp hi hpc =>
    rw [← tearDown_nil (Daemon.setFork _ _ _ _)]
    exact h.forkStep hp hi rfl rfl False.elim (closeReservation_does d.manager cfg task.res)
      (Or.inl (by cases succeeded <;> rfl))
  | forkAnswered i readings now fault task m result hp hi hpc hdone hm =>
    have hdoes := forkReservationResult_does d.manager cfg h.keyed task.res readings now fault
    rw [hm] at hdoes
    rw [← tearDown_nil (Daemon.setFork _ _ _ _)]
    exact h.forkStep hp hi rfl rfl (fun _ => not_false) hdoes (Or.inl rfl)
  | forkCleaning i readings now fault task m removed hp hi hpc hdone hm =>
    have hdoes := forkReservationResult_does d.manager cfg h.keyed task.res readings now fault
    rw [hm] at hdoes
    exact h.forkStep hp hi rfl rfl (fun _ => not_false) hdoes (Or.inl rfl)
  | forkCleaned i task hp hi hpc =>
    rw [← tearDown_nil (Daemon.setFork _ _ _ _)]
    exact h.forkStep hp hi rfl rfl False.elim (endCleanup_does d.manager cfg task.res) (Or.inl rfl)
  | reconcileForks loaded doc operations index started readings hp hi =>
    refine h.other rfl rfl False.elim (settleOperations_does d.manager cfg loaded readings operations _ []
      (.refl cfg _ _)) rfl (Or.inr ⟨by rw [Daemon.up, hp]; exact Phase.noConfusion, ?_, trivial⟩)
      Phase.noConfusion (fun _ hr => hr) trivial
    rw [hp]
    exact List.drop_eq_nil_of_le hi
  | reconcileCommit now fault m ok hp hm =>
    cases ok with
    | true =>
      exact h.other rfl rfl False.elim ((Does.refl cfg {} _).commit_eq hm) rfl
        (Or.inr ⟨by rw [Daemon.up, hp]; exact Phase.noConfusion, by rw [hp]; rfl, trivial⟩) Phase.noConfusion
        (fun r hr => by rwa [List.append_nil] at hr) trivial
    | false => exact ⟨.uncommitted now fault m rfl hp hm, exit_flights _⟩
  | releaseHeld id verified now fault hp hid =>
    have hu : d.up := by
      rw [Daemon.up, hp]
      exact Phase.noConfusion
    exact h.other rfl rfl False.elim (releaseAfterTeardown_does d.manager cfg id _ verified now fault) rfl
      (Or.inl rfl) hu (fun r hr => by rwa [List.append_nil] at hr)
      (show d.phase.Reads _ by rw [hp]; trivial)
  | serve hp =>
    exact h.other rfl rfl False.elim (.refl cfg {} d.manager) rfl
      (Or.inr ⟨by rw [Daemon.up, hp]; exact Phase.noConfusion, by rw [hp]; rfl, trivial⟩) Phase.noConfusion
      (fun r hr => by rwa [List.append_nil] at hr) trivial
  | reconcileNext loaded doc operations index started p probe reading updatedAt now fault hp hi =>
    exact h.reconciled hp hi

end Steps

end Nehemiah.Host
