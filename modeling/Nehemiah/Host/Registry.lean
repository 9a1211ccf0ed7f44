import Nehemiah.Host.Effects

/-!
# What the sections do to the registry

A section may remove machines, and it may put back machines that it has just removed; only a create, a
fork and a restart bring new ids into the registry.  `Manager.Admits` says so for a section and composes;
`Manager.Keeps` adds that the table of fork reservations is as before.
-/

namespace Nehemiah.Host

open Billing Manager

/-! ### Registered ids -/

variable {mgr x : Manager} {new : List String} {id : String}

theorem registered_iff : mgr.registered id = true ↔ ∃ r ∈ mgr.machines, (mgr.objects r).id = id := by
  simp [registered, find, List.find?_isSome]

theorem find_some {r : ℕ} (h : mgr.find id = some r) : r ∈ mgr.machines ∧ (mgr.objects r).id = id :=
  ⟨List.mem_of_find?_eq_some h, by simpa using List.find?_some h⟩

theorem find_none (h : mgr.find id = none) : mgr.registered id = false := by
  rw [registered, h]
  rfl

theorem find_congr (hm : x.machines = mgr.machines) (hid : ∀ r, (x.objects r).id = (mgr.objects r).id) (id : String) :
    x.find id = mgr.find id := by
  have hp : (fun r => (x.objects r).id == id) = fun r => (mgr.objects r).id == id := by
    funext r
    rw [hid]
  rw [find, find, hm, hp]

theorem find_unregister (mgr : Manager) (id id' : String) :
    (mgr.unregister id).find id' = if id' = id then none else mgr.find id' := by
  show List.find? (fun r => (mgr.objects r).id == id') (mgr.machines.filter _) = _
  rw [List.find?_filter]
  split_ifs with h
  · subst h
    rw [List.find?_eq_none]
    intro r _ hr
    simp at hr
  · refine congrArg (fun p => mgr.machines.find? p) ?_
    funext r
    by_cases hr : (mgr.objects r).id = id'
    · simp [hr, h]
    · simp [hr]

theorem find_register (mgr : Manager) (r : ℕ) (id : String) :
    (mgr.register r).find id = if id = (mgr.objects r).id then some r else mgr.find id := by
  have hold := find_unregister mgr (mgr.objects r).id id
  show List.find? (fun r => (mgr.objects r).id == id) ((mgr.unregister _).machines ++ [r]) = _
  rw [List.find?_append]
  show ((mgr.unregister _).find id).or _ = _
  rw [hold]
  split_ifs with h
  · simp [h]
  · cases hf : mgr.find id with
    | some r' => rfl
    | none => simp [Ne.symm h]

/-- Every registered reference is an allocated object. -/
def Manager.Placed (mgr : Manager) : Prop := ∀ r ∈ mgr.machines, r < mgr.nextObject

/-- From `mgr` to `x`: ids stay, and what is registered was registered before or is a new object with an
id of `new`. -/
structure Manager.Admits (new : List String) (mgr x : Manager) : Prop where
  objects : mgr.nextObject ≤ x.nextObject
  ids : ∀ r < mgr.nextObject, (x.objects r).id = (mgr.objects r).id
  refs : ∀ r ∈ x.machines,
    r ∈ mgr.machines ∨ mgr.nextObject ≤ r ∧ r < x.nextObject ∧ (x.objects r).id ∈ new

theorem Manager.Admits.refl (new : List String) (mgr : Manager) : Admits new mgr mgr :=
  ⟨le_refl _, fun _ _ => rfl, fun _ hr => Or.inl hr⟩

theorem Manager.Admits.trans {y : Manager} (h : Admits new mgr x) (h' : Admits new x y) : Admits new mgr y := by
  refine ⟨h.objects.trans h'.objects, fun r hr => ?_, fun r hr => ?_⟩
  · rw [h'.ids r (lt_of_lt_of_le hr h.objects), h.ids r hr]
  · rcases h'.refs r hr with hx | ⟨hle, hlt, hid⟩
    · rcases h.refs r hx with hm | ⟨hle, hlt, hid⟩
      · exact Or.inl hm
      · exact Or.inr ⟨hle, lt_of_lt_of_le hlt h'.objects, by rwa [h'.ids r hlt]⟩
    · exact Or.inr ⟨h.objects.trans hle, hlt, hid⟩

theorem Manager.Admits.mono {new' : List String} (h : Admits new mgr x) (hsub : ∀ id ∈ new, id ∈ new') :
    Admits new' mgr x :=
  ⟨h.objects, h.ids, fun r hr => (h.refs r hr).imp_right fun hn => ⟨hn.1, hn.2.1, hsub _ hn.2.2⟩⟩

theorem Manager.Admits.placed (h : Admits new mgr x) (hp : mgr.Placed) : x.Placed := by
  intro r hr
  rcases h.refs r hr with hm | ⟨_, hlt, _⟩
  · exact lt_of_lt_of_le (hp r hm) h.objects
  · exact hlt

theorem Manager.Admits.registered (h : Admits new mgr x) (hp : mgr.Placed) (hid : mgr.registered id = false)
    (hnew : id ∉ new) :
    x.registered id = false := by
  rw [← Bool.not_eq_true, registered_iff] at hid ⊢
  rintro ⟨r, hr, rfl⟩
  rcases h.refs r hr with hm | ⟨_, _, hn⟩
  · exact hid ⟨r, hm, (h.ids r (hp r hm)).symm⟩
  · exact hnew hn

theorem Manager.Admits.modifyMachine (h : Admits new mgr x) (r : ℕ) (f : Machine → Machine)
    (hf : ∀ m, (f m).id = m.id) : Admits new mgr (x.modifyMachine r f) := by
  have hid : ∀ r', ((x.modifyMachine r f).objects r').id = (x.objects r').id := by
    intro r'
    by_cases hr : r' = r
    · subst hr
      simp [Manager.modifyMachine, hf]
    · simp [Manager.modifyMachine, hr]
  refine ⟨h.objects, fun r' hr' => (hid r').trans (h.ids r' hr'), fun r' hr' => ?_⟩
  rw [hid r']
  exact h.refs r' hr'

/-- A machine that was there at the start is put back. -/
theorem Manager.Admits.register (h : Admits new mgr x) {r : ℕ} (hr : r ∈ mgr.machines) :
    Admits new mgr (x.register r) := by
  refine ⟨h.objects, h.ids, fun r' hr' => ?_⟩
  rcases List.mem_append.mp hr' with hr' | hr'
  · exact h.refs r' (List.mem_of_mem_filter hr')
  · cases List.mem_singleton.mp hr'
    exact Or.inl hr

/-! ### Sections that keep the table of forks -/

structure ForkTable where
  reservations : ℕ → ForkReservation
  nextReservation : ℕ
  forkKeys : List (ForkKey × ℕ)

def Manager.forkTable (mgr : Manager) : ForkTable := ⟨mgr.reservations, mgr.nextReservation, mgr.forkKeys⟩

/-- No new machine, and the reservations are as before. -/
structure Manager.Keeps (mgr x : Manager) : Prop extends Admits [] mgr x where
  table : x.forkTable = mgr.forkTable

namespace Manager.Keeps

variable {mgr x y : Manager}

theorem refl (mgr : Manager) : mgr.Keeps mgr := ⟨.refl [] mgr, rfl⟩

theorem trans (h : mgr.Keeps x) (h' : x.Keeps y) : mgr.Keeps y :=
  ⟨h.toAdmits.trans h'.toAdmits, h'.table.trans h.table⟩

/-- A step that touches neither the registry nor an id. -/
theorem of_same (hobj : x.nextObject = mgr.nextObject) (hmach : x.machines = mgr.machines)
    (hids : ∀ r, (x.objects r).id = (mgr.objects r).id) (htab : x.forkTable = mgr.forkTable) :
    mgr.Keeps x :=
  ⟨⟨hobj.ge, fun r _ => hids r, fun _ hr => Or.inl (hmach ▸ hr)⟩, htab⟩

theorem modifyMachine (h : mgr.Keeps x) (r : ℕ) (f : Machine → Machine) (hf : ∀ m, (f m).id = m.id) :
    mgr.Keeps (x.modifyMachine r f) :=
  ⟨h.toAdmits.modifyMachine r f hf, h.table⟩

theorem setMetering (h : mgr.Keeps x) (r : ℕ) (s : MachineMeteringState) :
    mgr.Keeps (x.setMetering r s) :=
  .modifyMachine h r _ fun _ => rfl

theorem withOutbox (h : mgr.Keeps x) (os : List HostUsageObservation) :
    mgr.Keeps { x with meteringOutbox := os } :=
  h.trans (of_same rfl rfl (fun _ => rfl) rfl)

theorem logTransition (h : mgr.Keeps x) (id leaseId : String) (source : Option MachineStatus)
    (target : MachineStatus) (reason : String) :
    mgr.Keeps (x.logTransition id leaseId source target reason) :=
  h.trans (of_same rfl rfl (fun _ => rfl) rfl)

theorem transition (h : mgr.Keeps x) (r : ℕ) (source : Option MachineStatus) (target : MachineStatus)
    (reason : String) : mgr.Keeps (x.transition r source target reason) :=
  h.logTransition _ _ source target reason

theorem unregister (h : mgr.Keeps x) (id : String) : mgr.Keeps (x.unregister id) :=
  h.trans ⟨⟨le_refl _, fun _ _ => rfl, fun _ hr => Or.inl (List.mem_of_mem_filter hr)⟩, rfl⟩

theorem register (h : mgr.Keeps x) {r : ℕ} (hr : r ∈ mgr.machines) : mgr.Keeps (x.register r) :=
  ⟨h.toAdmits.register hr, h.table⟩

theorem releaseIdentity (h : mgr.Keeps x) (id : String) : mgr.Keeps (x.releaseIdentity id) :=
  h.trans (of_same rfl rfl (fun _ => rfl) rfl)

theorem persist (h : mgr.Keeps x) (cfg : Config) (now : Time) (fault : SaveFault) :
    mgr.Keeps (x.persist cfg now fault).1 :=
  h.trans (of_same rfl rfl (fun _ => rfl) rfl)

theorem persist_eq {cfg : Config} {now : Time} {fault : SaveFault} {ok : Bool} (h : mgr.Keeps x)
    (heq : x.persist cfg now fault = (y, ok)) : mgr.Keeps y := by
  have hp := h.persist cfg now fault
  rwa [heq] at hp

theorem emit (h : mgr.Keeps x) (r : ℕ) (s : MachineMeteringState) (reserved : Bool)
    (os : List HostUsageObservation) (healthy : Bool) : mgr.Keeps (x.emit r s reserved os healthy) :=
  h.trans (of_same rfl rfl (fun r' => emit_id x r r' s reserved os healthy) rfl)

theorem sample (h : mgr.Keeps x) (r : ℕ) (terminal : Bool) (reading : Reading) :
    mgr.Keeps (x.sample r terminal reading).1 := by
  have hs := sample_sampled x r terminal reading
  generalize x.sample r terminal reading = z at hs ⊢
  cases hs with
  | skipped _ => exact h
  | failed s healthy _ => exact h.emit r s _ [] healthy
  | emitted _ _ _ s healthy _ _ _ _ => exact h.emit r _ _ _ healthy

theorem sample_eq {r : ℕ} {terminal : Bool} {reading : Reading} {ok : Bool} (h : mgr.Keeps x)
    (heq : x.sample r terminal reading = (y, ok)) : mgr.Keeps y := by
  have hp := h.sample r terminal reading
  rwa [heq] at hp

theorem recordMeterStart (h : mgr.Keeps x) (r : ℕ) (reading : Reading) :
    mgr.Keeps (x.recordMeterStart r reading).1 := by
  have hs := recordMeterStart_started x r reading
  generalize x.recordMeterStart r reading = z at hs ⊢
  cases hs with
  | unmetered _ => exact h
  | failed healthy => exact h.trans (of_same rfl rfl (fun _ => rfl) rfl)
  | emitted now healthy _ _ _ _ => exact h.emit r _ _ _ healthy

theorem recordMeterStart_eq {r : ℕ} {reading : Reading} {ok : Bool} (h : mgr.Keeps x)
    (heq : x.recordMeterStart r reading = (y, ok)) : mgr.Keeps y := by
  have hp := h.recordMeterStart r reading
  rwa [heq] at hp

end Manager.Keeps

section Sections

variable (mgr : Manager) (cfg : Config)

theorem sampleAll_keeps (readings : ℕ → Reading) (order : List ℕ) : ∀ mgr : Manager,
    mgr.Keeps (sampleAll readings mgr order).1 := by
  induction order with
  | nil => exact fun mgr => .refl mgr
  | cons r rest ih =>
    intro mgr
    simp only [sampleAll]
    split
    · next x heq => exact (Keeps.refl mgr).sample_eq heq
    · next x heq => exact ((Keeps.refl mgr).sample_eq heq).trans (ih x)

variable {x : Manager}

theorem rollback_keeps {mgr : Manager} (h : mgr.Keeps x) (prior : Manager) (visited : List ℕ) :
    mgr.Keeps (x.rollback prior visited) := by
  refine h.trans (.of_same rfl rfl (fun r => ?_) rfl)
  simp only [rollback]
  split <;> rfl

theorem checkpoint_keeps (order : List ℕ) (readings : ℕ → Reading) (now : Time) (fault : SaveFault) :
    mgr.Keeps (mgr.checkpoint cfg order readings now fault).1 := by
  simp only [checkpoint]
  split
  · exact .of_same rfl rfl (fun _ => rfl) rfl
  · split
    · exact .refl mgr
    · have hs := sampleAll_keeps readings order mgr
      split
      · next x visited heq =>
        rw [heq] at hs
        exact rollback_keeps hs mgr visited
      · next x visited heq =>
        rw [heq] at hs
        split
        · next y hy => exact hs.persist_eq hy
        · next y hy => exact rollback_keeps (hs.persist_eq hy) mgr visited

theorem acknowledge_keeps (sent : List HostUsageObservation) (receipts : List Receipt) (now : Time)
    (fault : SaveFault) : mgr.Keeps (mgr.acknowledge cfg sent receipts now fault).1 := by
  simp only [acknowledge]
  split
  · exact .refl mgr
  · split
    · exact .refl mgr
    · split
      · exact .refl mgr
      · have hremoved : mgr.Keeps { mgr with
            meteringOutbox := mgr.meteringOutbox.drop sent.length
            acknowledged := mgr.acknowledged ++ mgr.meteringOutbox.take sent.length } :=
          .of_same rfl rfl (fun _ => rfl) rfl
        split
        · next y hy => exact (hremoved.persist_eq hy).trans (.of_same rfl rfl (fun _ => rfl) rfl)
        · next y hy => exact (hremoved.persist_eq hy).trans (.of_same rfl rfl (fun _ => rfl) rfl)

theorem becomeReady_keeps (id : String) (now : Time) (fault : SaveFault) :
    mgr.Keeps (mgr.becomeReady cfg id now fault) := by
  simp only [becomeReady]
  split
  · exact .refl mgr
  · next r _ =>
    split
    · exact .refl mgr
    · exact .persist (.transition (.modifyMachine (.refl mgr) r _ (by intro _; rfl)) r _ _ _) cfg now fault

theorem extend_keeps (id leaseId key : String) (target now : Time) (fault : SaveFault) :
    mgr.Keeps (mgr.extend cfg id leaseId key target now fault).1 := by
  simp only [extend]
  split
  · exact .refl mgr
  · next r _ =>
    split
    · exact .refl mgr
    · split
      · split <;> exact .refl mgr
      · exact .persist (.modifyMachine (.refl mgr) r _ (by intro _; rfl)) cfg now fault

theorem destroy_keeps (id : String) (reading : Reading) (now : Time) (fault : SaveFault) :
    mgr.Keeps (mgr.destroy cfg id reading now fault).1 := by
  simp only [destroy]
  split
  · exact .refl mgr
  · next r hr =>
    have hstop : mgr.Keeps ((mgr.setStatus r .stopping).transition r (some (mgr.objects r).status)
        .stopping "delete_requested") := .transition (.modifyMachine (.refl mgr) r _ (by intro _; rfl)) r _ _ _
    have hundo : ∀ x : Manager, mgr.Keeps x → mgr.Keeps { (x.modifyMachine r fun o =>
        { o with status := (mgr.objects r).status, metering := (mgr.objects r).metering }) with
        meteringOutbox := x.meteringOutbox.take mgr.meteringOutbox.length } :=
      fun x hx => .withOutbox (.modifyMachine hx r _ (by intro _; rfl)) _
    split
    · next x heq => exact hundo x (hstop.sample_eq heq)
    · next x heq =>
      have hx : mgr.Keeps ((x.unregister id).transition r (some .stopping) .stopped "deleted") :=
        ((hstop.sample_eq heq).unregister id).transition r _ _ _
      split
      · next y hy => exact hx.persist_eq hy
      · next y hy =>
        split
        · exact hundo _ ((hx.persist_eq hy).register (find_some hr).1)
        · exact hx.persist_eq hy

theorem reap_keeps (id : String) (reading : Reading) (now : Time) (fault : SaveFault) :
    mgr.Keeps (mgr.reap cfg id reading now fault).1 := by
  simp only [reap]
  split
  · exact .refl mgr
  · next r hr =>
    have hundo : ∀ x : Manager, mgr.Keeps x → mgr.Keeps { x.setMetering r (mgr.objects r).metering with
        meteringOutbox := x.meteringOutbox.take mgr.meteringOutbox.length } :=
      fun x hx => (hx.setMetering r _).withOutbox _
    split
    · next x heq => exact hundo x ((Keeps.refl mgr).sample_eq heq)
    · next x heq =>
      have hx : mgr.Keeps ((x.unregister id).transition r (some (mgr.objects r).status) .stopped
          "ttl_expired") := (((Keeps.refl mgr).sample_eq heq).unregister id).transition r _ _ _
      split
      · next y hy => exact hx.persist_eq hy
      · next y hy => exact hundo _ ((hx.persist_eq hy).register (find_some hr).1)

theorem releaseAfterTeardown_keeps (id : String) (expected : Option JailerIdentity) (verified : Bool)
    (now : Time) (fault : SaveFault) :
    mgr.Keeps (mgr.releaseAfterTeardown cfg id expected verified now fault) := by
  simp only [releaseAfterTeardown]
  split
  · exact .refl mgr
  · split
    · exact .of_same rfl rfl (fun _ => rfl) rfl
    · split
      · next x hx => exact ((Keeps.refl mgr).releaseIdentity id).persist_eq hx
      · next x hx =>
        exact (((Keeps.refl mgr).releaseIdentity id).persist_eq hx).trans (.of_same rfl rfl (fun _ => rfl) rfl)

theorem abandonCreate_keeps (r : ℕ) (reason : String) (now : Time) (fault : SaveFault) :
    mgr.Keeps (mgr.abandonCreate cfg r reason now fault) :=
  (((Keeps.refl mgr).unregister _).transition r _ _ _).persist cfg now fault

theorem publishCreate_keeps (r : ℕ) (driver : Driver) (overlayMb : ℕ) (reading : Reading) (now : Time)
    (fault fault' : SaveFault) :
    mgr.Keeps (mgr.publishCreate cfg r driver overlayMb reading now fault fault').1 := by
  simp only [publishCreate]
  split
  · exact .persist (.transition (.unregister (.modifyMachine (.refl mgr) r _ (by intro _; rfl)) _) r _ _ _)
      cfg now fault
  · have hrun : mgr.Keeps ((mgr.started r driver overlayMb).transition r (some .booting) .starting
        "vmm_started") := .transition (.modifyMachine (.refl mgr) r _ (by intro _; rfl)) r _ _ _
    split
    · next x heq =>
      exact (((hrun.recordMeterStart_eq heq).unregister _).transition r _ _ _).persist cfg now fault
    · next x heq =>
      have hx := hrun.recordMeterStart_eq heq
      split
      · next y hy => exact hx.persist_eq hy
      · next y hy =>
        split
        · have hundo : mgr.Keeps { y.setMetering r {} with
              meteringOutbox := y.meteringOutbox.take mgr.meteringOutbox.length } :=
            ((hx.persist_eq hy).setMetering r {}).withOutbox _
          exact ((hundo.unregister _).transition r _ _ _).persist cfg now fault'
        · exact hx.persist_eq hy

theorem publishChild_keeps (r : ℕ) (driver : Driver) (reading : Reading) (now : Time)
    (fault : SaveFault) : mgr.Keeps (mgr.publishChild cfg r driver reading now fault).1 := by
  simp only [publishChild]
  split
  · exact .refl mgr
  · have hrun : mgr.Keeps ((mgr.modifyMachine r fun m =>
        { m with driver := some driver, status := .starting }).transition r (some .booting) .starting
        "managed_fork_vmm_started") := .transition (.modifyMachine (.refl mgr) r _ (by intro _; rfl)) r _ _ _
    split
    · next x heq => exact hrun.recordMeterStart_eq heq
    · next x heq => exact (hrun.recordMeterStart_eq heq).persist cfg now fault

theorem beginCreate_keeps {req : CreateRequest} (h : mgr.beginCreate req = some x) : mgr.Keeps x := by
  simp only [beginCreate] at h
  split at h
  · cases h
    exact .of_same rfl rfl (fun _ => rfl) rfl
  · cases h

theorem endCreate_keeps (key : String) (machineId : Option String) :
    mgr.Keeps (mgr.endCreate key machineId) := by
  cases machineId <;> exact .of_same rfl rfl (fun _ => rfl) rfl

/-! ### Cleanup -/

theorem removeChildren_keeps (reason : String) (readings : ℕ → Reading) (ids : List String) :
    ∀ mgr : Manager, mgr.Keeps (removeChildren reason readings mgr ids).1 := by
  induction ids with
  | nil => exact fun mgr => .refl mgr
  | cons id rest ih =>
    intro mgr
    simp only [removeChildren]
    split
    · exact ih mgr
    · next r _ =>
      split
      · next x heq =>
        have hx : mgr.Keeps { x with meteringHealthy := false } :=
          ((Keeps.refl mgr).sample_eq heq).trans (.of_same rfl rfl (fun _ => rfl) rfl)
        exact hx.trans (ih _)
      · next x heq =>
        exact ((((Keeps.refl mgr).sample_eq heq).unregister id).transition r _ _ _).trans (ih _)

theorem removeForkChildren_keeps (ids : List String) (reason : String) (readings : ℕ → Reading) :
    mgr.Keeps (mgr.removeForkChildren ids reason readings).1 := by
  simp only [removeForkChildren]
  split
  · exact .of_same rfl rfl (fun _ => rfl) rfl
  · exact removeChildren_keeps reason readings _ mgr

/-- What a cleanup puts back was there when the checkpoint was taken. -/
theorem restoreForkCleanup_admits {mgr : Manager} (h : Admits [] mgr x) (ids : List String) :
    Admits [] mgr (x.restoreForkCleanup (mgr.captureForkCleanup ids)) := by
  have hfold : ∀ (es : List (ℕ × MachineStatus × MachineMeteringState)) (y : Manager),
      (∀ e ∈ es, e.1 ∈ mgr.machines) → Admits [] mgr y → Admits [] mgr (es.foldl restoreMachine y) := by
    intro es
    induction es with
    | nil => exact fun y _ hy => hy
    | cons e es ih =>
      intro y he hy
      refine ih _ (fun e' he' => he e' (List.mem_cons_of_mem _ he')) ?_
      exact .register (.modifyMachine hy e.1 _ (by intro _; rfl)) (he e List.mem_cons_self)
  have hmem : ∀ e ∈ (mgr.captureForkCleanup ids).machines, e.1 ∈ mgr.machines := by
    intro e he
    obtain ⟨r, hr, rfl⟩ := List.mem_map.mp he
    obtain ⟨id, _, hid⟩ := List.mem_filterMap.mp hr
    exact (find_some hid).1
  have hall := hfold _ x hmem h
  exact ⟨hall.objects, hall.ids, hall.refs⟩

theorem restoreForkCleanup_table (x : Manager) (c : ForkCleanupCheckpoint) :
    (x.restoreForkCleanup c).forkTable = x.forkTable := by
  have hfold : ∀ (es : List (ℕ × MachineStatus × MachineMeteringState)) (y : Manager),
      (es.foldl restoreMachine y).forkTable = y.forkTable := by
    intro es
    induction es with
    | nil => exact fun _ => rfl
    | cons e es ih => exact fun y => ih (y.restoreMachine e)
  exact hfold c.machines x

theorem restoreForkCleanup_keeps {mgr : Manager} (h : mgr.Keeps x) (ids : List String) :
    mgr.Keeps (x.restoreForkCleanup (mgr.captureForkCleanup ids)) :=
  ⟨restoreForkCleanup_admits h.toAdmits ids, (restoreForkCleanup_table x _).trans h.table⟩

theorem rollbackForkChildren_keeps (children : List ℕ) (readings : ℕ → Reading) (now : Time)
    (fault : SaveFault) : mgr.Keeps (mgr.rollbackForkChildren cfg children readings now fault).1 := by
  simp only [rollbackForkChildren]
  have hs := removeForkChildren_keeps mgr (children.map fun r => (mgr.objects r).id)
    "managed_fork_rollback" readings
  split
  · next y hy => exact hs.persist_eq hy
  · next y hy => exact restoreForkCleanup_keeps (hs.persist_eq hy) _

/-! ### New machines -/

variable {reservationId : String} {identity : JailerIdentity} {ids : List String} {refs : List ℕ}

theorem reserveJailerIdentity_keeps {id : String} {free : ℕ → Bool}
    (h : mgr.reserveJailerIdentity cfg id free reservationId = some (x, identity)) : mgr.Keeps x := by
  simp only [reserveJailerIdentity] at h
  split at h
  · cases h
    exact .refl mgr
  · obtain ⟨slot, _, heq⟩ := Option.map_eq_some_iff.mp h
    cases heq
    exact .of_same rfl rfl (fun _ => rfl) rfl

theorem allocate_admits (m : Machine) : Admits [m.id] mgr (mgr.allocate m).1 := by
  refine ⟨Nat.le_succ _, fun r hr => ?_, fun r hr => ?_⟩
  · show (Function.update mgr.objects mgr.nextObject m r).id = (mgr.objects r).id
    rw [Function.update_of_ne hr.ne]
  · rcases List.mem_append.mp hr with hr | hr
    · exact Or.inl (List.mem_of_mem_filter hr)
    · cases List.mem_singleton.mp hr
      refine Or.inr ⟨le_refl _, Nat.lt_succ_self _, ?_⟩
      show (Function.update mgr.objects mgr.nextObject m mgr.nextObject).id ∈ [m.id]
      rw [Function.update_self]
      exact List.mem_singleton_self _

theorem reserveCreate_admits (req : CreateRequest) (draw : Draw) (refusal : Option HostError)
    (memory : Bool) (now : Time) (fault : SaveFault) :
    Admits [draw.id] mgr (mgr.reserveCreate cfg req draw refusal memory now fault).1 ∧
      (mgr.reserveCreate cfg req draw refusal memory now fault).1.forkTable = mgr.forkTable := by
  simp only [reserveCreate]
  split
  · exact ⟨.refl _ mgr, rfl⟩
  · split
    · exact ⟨.refl _ mgr, rfl⟩
    · split
      · exact ⟨.refl _ mgr, rfl⟩
      · split
        · exact ⟨.refl _ mgr, rfl⟩
        · split
          · exact ⟨.refl _ mgr, rfl⟩
          · split
            · exact ⟨.refl _ mgr, rfl⟩
            · next held identity heq =>
              have hheld := reserveJailerIdentity_keeps mgr cfg heq
              set placed := held.allocate (createdMachine req draw.id identity) with hplaced
              have hadmits : Admits [draw.id] mgr placed.1 :=
                (hheld.toAdmits.mono (by simp)).trans
                  (allocate_admits held (createdMachine req draw.id identity))
              have htable : placed.1.forkTable = mgr.forkTable := hheld.table
              split
              · next y hy =>
                have hk : placed.1.Keeps y := ((Keeps.refl placed.1).transition _ _ _ _).persist_eq hy
                exact ⟨hadmits.trans (hk.toAdmits.mono (by simp)), hk.table.trans htable⟩
              · next y hy =>
                have hk : placed.1.Keeps y := ((Keeps.refl placed.1).transition _ _ _ _).persist_eq hy
                have hundo := (hk.unregister draw.id).releaseIdentity draw.id
                exact ⟨hadmits.trans (hundo.toAdmits.mono (by simp)), hundo.table.trans htable⟩

/-- What the loop over the children leaves: at most new machines, with ids that were drawn and without
metering. -/
structure ReservedChildren (mgr : Manager) (ids : List String) (x : Manager) (refs : List ℕ) : Prop where
  admits : Admits ids mgr x
  table : x.forkTable = mgr.forkTable
  outbox : x.meteringOutbox = mgr.meteringOutbox
  same : ∀ r < mgr.nextObject, x.objects r = mgr.objects r
  unmetered : ∀ r, mgr.nextObject ≤ r → r < x.nextObject → (x.objects r).metering = {}
  children : ∀ r ∈ refs, r < x.nextObject ∧ (x.objects r).id ∈ ids

theorem reserveJailerIdentity_same {id : String} {free : ℕ → Bool}
    (h : mgr.reserveJailerIdentity cfg id free reservationId = some (x, identity)) :
    ∃ identities, x = { mgr with jailerIdentities := identities } := by
  simp only [reserveJailerIdentity] at h
  split at h
  · cases h
    exact ⟨_, rfl⟩
  · obtain ⟨slot, _, heq⟩ := Option.map_eq_some_iff.mp h
    cases heq
    exact ⟨_, rfl⟩

/-- A child is placed before the rest. -/
theorem ReservedChildren.cons {mgr : Manager} (m : Machine) (hm : m.metering = {})
    (h : ReservedChildren ((mgr.allocate m).1.transition (mgr.allocate m).2 none .booting
      "managed_fork_reserved") ids x refs) :
    ReservedChildren mgr (m.id :: ids) x ((mgr.allocate m).2 :: refs) := by
  have hat : x.objects mgr.nextObject = m := by
    rw [h.same mgr.nextObject (Nat.lt_succ_self _)]
    exact Function.update_self ..
  have hplaced : Admits (m.id :: ids) mgr ((mgr.allocate m).1.transition (mgr.allocate m).2 none .booting
      "managed_fork_reserved") :=
    ((allocate_admits mgr m).mono fun id hid => List.mem_cons.mpr (Or.inl (List.mem_singleton.mp hid))).trans
      (((Keeps.refl _).transition _ _ _ _).toAdmits.mono (by simp))
  have hlt : mgr.nextObject < x.nextObject := lt_of_lt_of_le (Nat.lt_succ_self _) h.admits.objects
  refine ⟨hplaced.trans (h.admits.mono fun id hid => List.mem_cons_of_mem _ hid), h.table, h.outbox,
    fun r hr => ?_, fun r hle hr => ?_, fun r hr => ?_⟩
  · rw [h.same r (Nat.lt_succ_of_lt hr)]
    exact Function.update_of_ne hr.ne _ _
  · rcases Nat.eq_or_lt_of_le hle with rfl | hgt
    · rw [hat, hm]
    · exact h.unmetered r hgt hr
  · rcases List.mem_cons.mp hr with rfl | hr
    · exact ⟨hlt, List.mem_cons.mpr (Or.inl (congrArg (·.id) hat))⟩
    · exact ⟨(h.children r hr).1, List.mem_cons_of_mem _ (h.children r hr).2⟩

/-- The identities do not matter. -/
theorem ReservedChildren.of_identities {mgr held : Manager}
    (hheld : ∃ identities, held = { mgr with jailerIdentities := identities }) (h : ReservedChildren held ids x refs) :
    ReservedChildren mgr ids x refs := by
  obtain ⟨identities, rfl⟩ := hheld
  exact ⟨⟨h.admits.objects, h.admits.ids, h.admits.refs⟩, h.table, h.outbox, h.same, h.unmetered,
    h.children⟩

/-- Removals after the loop. -/
theorem ReservedChildren.undo {mgr : Manager} (h : ReservedChildren mgr ids x refs) (id : String) :
    ReservedChildren mgr ids ((x.unregister id).releaseIdentity id) [] :=
  ⟨h.admits.trans ((((Keeps.refl x).unregister id).releaseIdentity id).toAdmits.mono (by simp)), h.table,
    h.outbox, h.same, h.unmetered, fun _ hr => (List.not_mem_nil hr).elim⟩

theorem reserveChildren_reserved (source : Machine) (cs : List (ManagedForkChild × String × Draw)) :
    ∀ mgr : Manager, ReservedChildren mgr (cs.map (·.2.2.id)) (reserveChildren cfg source mgr cs).1
      ((reserveChildren cfg source mgr cs).2.getD []) := by
  have hnone : ∀ (mgr : Manager) (ids : List String), ReservedChildren mgr ids mgr [] := fun mgr ids =>
    ⟨.refl _ mgr, rfl, rfl, fun _ _ => rfl, fun _ hle hr => absurd hr (not_lt.mpr hle),
      fun _ hr => (List.not_mem_nil hr).elim⟩
  induction cs with
  | nil => exact fun mgr => hnone mgr _
  | cons c rest ih =>
    intro mgr
    obtain ⟨c, ip, draw⟩ := c
    simp only [reserveChildren, List.map_cons]
    split
    · exact hnone mgr _
    · next held identity heq =>
      have hplaced := ih ((held.allocate (forkChild source c draw.id ip identity)).1.transition
        (held.allocate (forkChild source c draw.id ip identity)).2 none .booting "managed_fork_reserved")
      have h := (hplaced.cons (forkChild source c draw.id ip identity) rfl).of_identities
        (reserveJailerIdentity_same mgr cfg heq)
      split
      · next x refs hx =>
        rw [hx] at h
        exact h
      · next x hx =>
        rw [hx] at h
        exact h.undo draw.id

end Sections

end Nehemiah.Host
