import Nehemiah.Host.Expiry
import Nehemiah.Host.Sections

/-!
# The course of each section

Every section of the daemon that saves in the ordinary way follows a course of small changes, with the
machines it removes: an expiry, a destroy, a create and a fork from their first section to their last, and
the settling of the fork operations at a restart.  Two sections have more than one shape, and say so: a
checkpoint that cannot be saved is undone (`checkpoint_cases`), and a create whose start cannot be saved is
given up with a second save (`Published`).
-/

namespace Nehemiah.Host

open Billing Manager

/-- The machine that a destroy or an expiry has removed. -/
def Manager.Stop.removed : Stop → List ℕ
  | .done r => [r]
  | _ => []

section Sections

variable (mgr : Manager) (cfg : Config)

theorem becomeReady_does (id : String) (now : Time) (fault : SaveFault) :
    mgr.Does cfg {} [] (mgr.becomeReady cfg id now fault) := by
  simp only [becomeReady]
  split
  · exact .start
  · next r _ =>
    split
    · exact .start
    · exact ((Does.start.mark r .running true (mgr.objects r).diskMb).transition r _ _ _).commit now fault

theorem reap_does (hk : mgr.Keyed) (id : String) (reading : Reading) (now : Time) (fault : SaveFault) :
    mgr.Does cfg { undoes := True } (mgr.reap cfg id reading now fault).2.removed
      (mgr.reap cfg id reading now fault).1 := by
  simp only [reap]
  split
  · exact .start
  · next r hr =>
    -- an expiry leaves the status alone
    have hback : ∀ x ok, mgr.sample r true reading = (x, ok) → { x.objects r with
        metering := (mgr.objects r).metering } = mgr.objects r := by
      intro x ok heq
      have hs := sample_sampled mgr r true reading
      rw [heq] at hs
      cases hs with
      | skipped _ => rfl
      | failed s healthy _ => rw [emit_object]
      | emitted _ _ _ s healthy _ _ _ _ => rw [emit_object]
    split
    · next x heq =>
      have hx := sample_metered heq
      refine Does.start.note ?_ hx.filed
      exact hx.untouched (congrArg (Function.update x.objects r) (hback x false heq)) rfl rfl
    · next x heq =>
      have hx := sample_metered heq
      have hdoes : mgr.Does cfg { undoes := True } [r] ((x.unregister id).transition r
          (some (mgr.objects r).status) .stopped "ttl_expired") :=
        (((Does.start.final r reading heq (Or.inl rfl)).drop id r ((sample_find heq id).trans hr)
          (sample_done heq)).transition r _ _ _)
      split
      · next y hy => exact hdoes.commit_eq hy
      · next y hy =>
        obtain rfl : _ = y := congrArg Prod.fst hy
        have hmachines : x.machines = mgr.machines := congrArg Books.machines hx.frame
        have hleft : (x.unregister id).machines = mgr.machines.filter fun r => (mgr.objects r).id != id := by
          rw [← hmachines]
          exact List.filter_congr fun r' _ => by rw [hx.ids r']
        exact (hdoes.commit now fault).undo trivial (persist_books hy).2 _
          (back_perm (x := x.unregister id) hk hr hx.ids hleft)
          (hx.undone rfl (congrArg (Function.update x.objects r) (hback x true heq)) rfl rfl) rfl

theorem destroy_does (hk : mgr.Keyed) (id : String) (reading : Reading) (now : Time) (fault : SaveFault) :
    mgr.Does cfg { undoes := True } (mgr.destroy cfg id reading now fault).2.removed
      (mgr.destroy cfg id reading now fault).1 := by
  simp only [destroy]
  split
  · exact .start
  · next r hr =>
    have hstop : mgr.Does cfg { undoes := True } [] ((mgr.setStatus r .stopping).transition r
        (some (mgr.objects r).status) .stopping "delete_requested") :=
      (Does.start.mark r .stopping (mgr.objects r).ready (mgr.objects r).diskMb).transition r _ _ _
    split
    · next x heq =>
      have hx := (sample_metered heq).of_status
      refine Does.start.note ?_ hx.filed
      exact hx.untouched (congrArg (Function.update x.objects r) hx.back) rfl rfl
    · next x heq =>
      have hx := (sample_metered heq).of_status
      have hdoes : mgr.Does cfg { undoes := True } [r] ((x.unregister id).transition r (some .stopping)
          .stopped "deleted") :=
        ((hstop.final r reading heq (Or.inl rfl)).drop id r ((hx.find id).trans hr)
          (sample_done heq)).transition r _ _ _
      split
      · next y hy => exact hdoes.commit_eq hy
      · next y hy =>
        split
        · obtain rfl : _ = y := congrArg Prod.fst hy
          have hmachines : x.machines = mgr.machines := congrArg Books.machines hx.frame
          have hleft : (x.unregister id).machines
              = mgr.machines.filter fun r => (mgr.objects r).id != id := by
            rw [← hmachines]
            exact List.filter_congr fun r' _ => by rw [hx.ids r']
          exact (hdoes.commit now fault).undo trivial (persist_books hy).2 _
            (back_perm (x := x.unregister id) hk hr hx.ids hleft)
            (hx.undone rfl (congrArg (Function.update x.objects r) hx.back) rfl rfl) rfl
        · exact hdoes.commit_eq hy

theorem releaseAfterTeardown_does (id : String) (expected : Option JailerIdentity) (verified : Bool)
    (now : Time) (fault : SaveFault) :
    mgr.Does cfg {} [] (mgr.releaseAfterTeardown cfg id expected verified now fault) := by
  simp only [releaseAfterTeardown]
  split
  · exact .start
  · split
    · exact Does.start.note rfl rfl
    · have hreleased : mgr.Does cfg {} [] (mgr.releaseIdentity id) := Does.start.note rfl rfl
      split
      · next x hx => exact hreleased.commit_eq hx
      · next x hx => exact (hreleased.commit_eq hx).note rfl rfl

theorem acknowledge_does (sent : List HostUsageObservation) (receipts : List Receipt) (now : Time)
    (fault : SaveFault) :
    mgr.Does cfg { undoes := True } [] (mgr.acknowledge cfg sent receipts now fault).1 := by
  simp only [acknowledge]
  split
  · exact .start
  · split
    · exact .start
    · split
      · exact .start
      · have hremoved := (Does.refl cfg { undoes := True } mgr).deliver
          sent.length
        split
        · next x hx => exact (hremoved.commit_eq hx).note rfl rfl
        · next x hx =>
          obtain rfl : _ = x := congrArg Prod.fst hx
          exact (hremoved.commit now fault).undo trivial (persist_books hx).2 mgr.machines (.refl _) rfl rfl

/-! #### Checkpoints -/

/-- Machines of `visited` have another metering state, and the outbox is longer. -/
structure Manager.Visits (visited : List ℕ) (mgr x : Manager) : Prop where
  objects : ∀ r, x.objects r = { mgr.objects r with metering := (x.objects r).metering }
  others : ∀ r, r ∉ visited → x.objects r = mgr.objects r
  outbox : mgr.meteringOutbox <+: x.meteringOutbox
  frame : { x.books with objects := mgr.objects, meteringOutbox := mgr.meteringOutbox } = mgr.books
  filed : x.filed = mgr.filed

variable {x y : Manager} {reading : Reading}

theorem sample_visits {r : ℕ} {terminal ok : Bool} (heq : mgr.sample r terminal reading = (x, ok)) :
    mgr.Visits [r] x := by
  have hx := sample_metered heq
  refine ⟨fun r' => ?_, fun r' hr' => sample_other (fun h => hr' (List.mem_singleton.mpr h)) heq,
    hx.outbox, hx.frame, hx.filed⟩
  have hs := sample_sampled mgr r terminal reading
  rw [heq] at hs
  by_cases hr : r' = r
  · subst hr
    cases hs with
    | skipped _ => rfl
    | failed s healthy _ => rw [emit_object]
    | emitted _ _ _ s healthy _ _ _ _ => rw [emit_object]
  · rw [sample_other hr heq]

theorem Manager.Visits.trans {mgr : Manager} {visited visited' : List ℕ} (h : mgr.Visits visited x)
    (h' : x.Visits visited' y) : mgr.Visits (visited ++ visited') y := by
  refine ⟨fun r => ?_, fun r hr => ?_, h.outbox.trans h'.outbox, ?_, h'.filed.trans h.filed⟩
  · rw [h'.objects r, h.objects r]
  · rw [List.mem_append, not_or] at hr
    rw [h'.others r hr.2, h.others r hr.1]
  · have hf := congrArg (fun b : Books => { b with
      objects := mgr.objects, meteringOutbox := mgr.meteringOutbox }) h'.frame
    exact hf.trans h.frame

theorem sampleAll_visits (readings : ℕ → Reading) (order : List ℕ) : ∀ mgr : Manager,
    mgr.Visits (sampleAll readings mgr order).2.1 (sampleAll readings mgr order).1 := by
  induction order with
  | nil => exact fun mgr => ⟨fun _ => rfl, fun _ _ => rfl, List.prefix_refl _, rfl, rfl⟩
  | cons r rest ih =>
    intro mgr
    simp only [sampleAll]
    split
    · next x heq => exact sample_visits mgr heq
    · next x heq => exact (sample_visits mgr heq).trans (ih x)

theorem sampleAll_does {scope : Scope} (hscope : scope.checkpoints) (readings : ℕ → Reading)
    (order : List ℕ) : ∀ (x : Manager) (removed : List ℕ), mgr.Does cfg scope removed x →
    (sampleAll readings x order).2.2 = true → mgr.Does cfg scope removed (sampleAll readings x order).1 := by
  induction order with
  | nil => exact fun x removed h _ => h
  | cons r rest ih =>
    intro x removed h hok
    simp only [sampleAll] at hok ⊢
    split at hok
    · cases hok
    · next y heq => exact ih y removed (h.checkpoint hscope r (readings r) heq) hok

/-- **The metering states and the outbox are as they were.** -/
theorem rollback_books {visited : List ℕ} (h : mgr.Visits visited x) (hy : y.books = x.books) :
    (y.rollback mgr visited).books = mgr.books := by
  have hz : ∀ {α : Type} (f : Books → α), f y.books = f x.books := fun f => congrArg f hy
  have hx : ∀ {α : Type} (f : Books → α), f { x.books with
      objects := mgr.objects, meteringOutbox := mgr.meteringOutbox } = f mgr.books :=
    fun f => congrArg f h.frame
  refine Books.ext (funext fun r => ?_) ((hz Books.nextObject).trans (hx Books.nextObject))
    ((hz Books.machines).trans (hx Books.machines)) ((hz Books.forkTable).trans (hx Books.forkTable)) ?_
    ((hz Books.acknowledged).trans (hx Books.acknowledged)) ((hz Books.hostBootId).trans (hx Books.hostBootId))
  · have hobj : y.objects = x.objects := hz Books.objects
    show (if r ∈ visited then { y.objects r with metering := (mgr.objects r).metering } else y.objects r) = _
    rw [hobj]
    split
    · rw [h.objects r]
      rfl
    · next hr => exact h.others r hr
  · obtain ⟨os, hos⟩ := h.outbox
    show y.meteringOutbox.take mgr.meteringOutbox.length = mgr.meteringOutbox
    rw [show y.meteringOutbox = x.meteringOutbox from hz Books.meteringOutbox, ← hos, List.take_left]

/-- A checkpoint is committed, or nothing has changed, or its commit fails and is undone. -/
theorem checkpoint_cases (order : List ℕ) (readings : ℕ → Reading) (now : Time) (fault : SaveFault) :
    (mgr.Does cfg { checkpoints := True } [] (mgr.checkpoint cfg order readings now fault).1) ∨
    order ≠ [] ∧ ∃ x y, mgr.Does cfg { checkpoints := True } [] x ∧ x.filed = mgr.filed ∧
      x.persist cfg now fault = (y, false) ∧
      (mgr.checkpoint cfg order readings now fault).1.books = mgr.books ∧
      (mgr.checkpoint cfg order readings now fault).1.filed = y.filed := by
  simp only [checkpoint]
  split
  · exact Or.inl (Does.start.note rfl rfl)
  · split
    · exact Or.inl .start
    · next hne =>
      have hv := sampleAll_visits readings order mgr
      have hd := sampleAll_does mgr cfg trivial readings order mgr [] (.refl cfg { checkpoints := True } mgr)
      split
      · next x visited heq =>
        rw [heq] at hv
        exact Or.inl (Does.start.note (rollback_books mgr hv rfl) hv.filed)
      · next x visited heq =>
        rw [heq] at hv hd
        split
        · next y hy => exact Or.inl ((hd rfl).commit_eq hy)
        · next y hy =>
          exact Or.inr ⟨hne, x, y, hd rfl, hv.filed, hy, rollback_books mgr hv (persist_books hy).1, rfl⟩

/-! #### Creates -/

theorem abandonCreate_does (r : ℕ) (reason : String) (now : Time) (fault : SaveFault) :
    mgr.Does cfg { boots := [r] } [r] (mgr.abandonCreate cfg r reason now fault) := by
  have hevict : mgr.Does cfg { boots := [r] } [r] (mgr.unregister (mgr.objects r).id) :=
    Does.start.evict r (List.mem_singleton_self r) rfl (fun _ => rfl) (Or.inl rfl)
  exact (hevict.transition r _ _ _).commit now fault

/-- The registry and the ids are as at the start of the section. -/
structure Manager.SameRegistry (mgr x : Manager) : Prop where
  machines : x.machines = mgr.machines
  ids : ∀ r, (x.objects r).id = (mgr.objects r).id

theorem modifyMachine_registry (r : ℕ) (f : Machine → Machine) (hf : ∀ m, (f m).id = m.id) :
    mgr.SameRegistry (mgr.modifyMachine r f) := by
  refine ⟨rfl, fun r' => ?_⟩
  by_cases hr : r' = r
  · subst hr
    simp [modifyMachine, hf]
  · simp [modifyMachine, hr]

theorem started_eq (r : ℕ) (driver : Driver) (overlayMb : ℕ) : mgr.started r driver overlayMb
    = (mgr.modifyMachine r fun m => { m with driver := some driver }).modifyMachine r fun m => { m with
      status := .starting
      ready := (mgr.objects r).ready
      diskMb := if (mgr.objects r).diskMb = 0 then overlayMb else (mgr.objects r).diskMb } := by
  simp only [started, modifyMachine, Function.update_idem, Function.update_self]

/-- What a start changes, when it succeeds. -/
theorem meter_registry {r : ℕ} {ok : Bool} (heq : mgr.recordMeterStart r reading = (x, ok)) :
    mgr.SameRegistry x ∧ mgr.meteringOutbox <+: x.meteringOutbox ∧ x.filed = mgr.filed ∧
      (ok = false → x.books = mgr.books) := by
  have hs := recordMeterStart_started mgr r reading
  rw [heq] at hs
  cases hs with
  | unmetered _ => exact ⟨⟨rfl, fun _ => rfl⟩, List.prefix_refl _, rfl, fun h => Bool.noConfusion h⟩
  | failed healthy => exact ⟨⟨rfl, fun _ => rfl⟩, List.prefix_refl _, rfl, fun _ => rfl⟩
  | emitted now healthy _ _ _ _ =>
    exact ⟨⟨rfl, fun r' => emit_id mgr r r' _ _ _ healthy⟩, List.prefix_append _ _, rfl,
      fun h => Bool.noConfusion h⟩

/-- What a create does after its start could not be saved. -/
def Manager.unpublished (prior : Manager) (r : ℕ) : Manager :=
  { mgr.setMetering r {} with meteringOutbox := mgr.meteringOutbox.take prior.meteringOutbox.length }

/-- A create that publishes is given up, stands, or has recorded a start that it could not save. -/
inductive Published (r : ℕ) (now : Time) (fault fault' : SaveFault) : Manager × Bool → Prop
  | givenUp (x : Manager) (h : mgr.Does cfg { boots := [r] } [r] x) : Published r now fault fault' (x, false)
  | stands (x : Manager) (h : mgr.Does cfg { boots := [r] } [] x) : Published r now fault fault' (x, true)
  | unsaved (x y : Manager) (h : mgr.Does cfg { boots := [r] } [] x) (hsame : mgr.SameRegistry x)
      (hout : mgr.meteringOutbox <+: x.meteringOutbox) (hfiled : x.filed = mgr.filed)
      (hy : x.persist cfg now fault = (y, false)) :
      Published r now fault fault'
        (((((y.unpublished mgr r).unregister (mgr.objects r).id).transition r (some .starting) .failed
          "metering_persistence").persist cfg now fault').1, false)

theorem publishCreate_published (r : ℕ) (driver : Driver) (overlayMb : ℕ) (reading : Reading)
    (now : Time) (fault fault' : SaveFault) :
    Published mgr cfg r now fault fault'
      (mgr.publishCreate cfg r driver overlayMb reading now fault fault') := by
  have hmem : r ∈ ({ boots := [r] } : Scope).boots := List.mem_singleton_self r
  have hdrive : mgr.Does cfg { boots := [r] } [] (mgr.modifyMachine r fun m =>
      { m with driver := some driver }) := Does.start.drive r driver hmem
  simp only [publishCreate]
  split
  · have hsame := modifyMachine_registry mgr r (fun m => { m with driver := some driver }) fun _ => rfl
    have hevict := hdrive.evict r hmem rfl hsame.ids (Or.inl (by simp [modifyMachine]))
    rw [hsame.ids r] at hevict
    exact .givenUp _ ((hevict.transition r _ _ _).commit now fault)
  · set running := (mgr.started r driver overlayMb).transition r (some .booting) .starting "vmm_started"
      with hrunning
    have hrun : mgr.Does cfg { boots := [r] } [] running := by
      rw [hrunning, started_eq]
      exact (hdrive.mark r .starting _ _).transition r _ _ _
    have hsame : mgr.SameRegistry running := by
      have hmod := modifyMachine_registry mgr r (fun m => { m with
        driver := some driver
        diskMb := if m.diskMb = 0 then overlayMb else m.diskMb
        status := .starting }) fun _ => rfl
      exact ⟨hmod.machines, hmod.ids⟩
    have hrmetering : (running.objects r).metering = (mgr.objects r).metering := by
      simp [hrunning, started, modifyMachine, transition, Manager.logTransition]
    split
    · next x heq =>
      obtain ⟨hx, _, hfiled, hfailed⟩ := meter_registry running heq
      have hbooks := hfailed rfl
      have hobj : x.objects = running.objects := congrArg Books.objects hbooks
      have hevict := (hrun.note hbooks hfiled).evict r hmem (hx.machines.trans hsame.machines)
        (fun r' => (hx.ids r').trans (hsame.ids r')) (Or.inl (by rw [hobj, hrmetering]))
      rw [hx.ids, hsame.ids] at hevict
      exact .givenUp _ ((hevict.transition r _ _ _).commit now fault)
    · next x heq =>
      obtain ⟨hx, hout, hfiled, _⟩ := meter_registry running heq
      have hmeter : mgr.Does cfg { boots := [r] } [] x := hrun.meter r reading hmem heq
      split
      · next y hy => exact .stands y (hmeter.commit_eq hy)
      · next y hy =>
        split
        · exact .unsaved x y hmeter ⟨hx.machines.trans hsame.machines,
            fun r' => (hx.ids r').trans (hsame.ids r')⟩ hout hfiled hy
        · exact .stands y (hmeter.commit_eq hy)

theorem unpublished_books (r : ℕ) (hout : mgr.meteringOutbox <+: x.meteringOutbox) (hy : y.books = x.books) :
    (y.unpublished mgr r).books = { y.books with
      objects := Function.update y.objects r { y.objects r with metering := {} }
      meteringOutbox := mgr.meteringOutbox } := by
  obtain ⟨os, hos⟩ := hout
  have htake : y.meteringOutbox.take mgr.meteringOutbox.length = mgr.meteringOutbox := by
    rw [show y.meteringOutbox = x.meteringOutbox from congrArg Books.meteringOutbox hy, ← hos, List.take_left]
  exact congrArg (fun o => { y.books with
    objects := Function.update y.objects r { y.objects r with metering := {} }
    meteringOutbox := o }) htake

theorem publishCreate_does (r : ℕ) (driver : Driver) (overlayMb : ℕ) (reading : Reading) (now : Time)
    (fault fault' : SaveFault) :
    mgr.Does cfg { boots := [r], undoes := True }
      (if (mgr.publishCreate cfg r driver overlayMb reading now fault fault').2 then [] else [r])
      (mgr.publishCreate cfg r driver overlayMb reading now fault fault').1 := by
  have hp := publishCreate_published mgr cfg r driver overlayMb reading now fault fault'
  have hwide : ∀ removed x, mgr.Does cfg { boots := [r] } removed x →
      mgr.Does cfg { boots := [r], undoes := True } removed x := fun removed x h =>
    h.mono id id id (fun _ => trivial) fun _ hr => hr
  generalize mgr.publishCreate cfg r driver overlayMb reading now fault fault' = z at hp ⊢
  cases hp with
  | givenUp x h => exact hwide [r] x h
  | stands x h => exact hwide [] x h
  | unsaved x y h hsame hout _ hy =>
    obtain ⟨hbooks, hfailed⟩ := persist_books hy
    have hmachines : y.machines = mgr.machines := (congrArg Books.machines hbooks).trans hsame.machines
    have hobjects : y.objects = x.objects := congrArg Books.objects hbooks
    have hids : ∀ r', ((y.unpublished mgr r).objects r').id = (mgr.objects r').id := by
      intro r'
      refine Eq.trans ?_ (hsame.ids r')
      rw [← hobjects]
      by_cases hr : r' = r
      · subst hr
        simp [unpublished, setMetering, modifyMachine]
      · simp [unpublished, setMetering, modifyMachine, hr]
    have hun := ((hwide [] x h).commit_eq hy).unmeter trivial hfailed r (List.mem_singleton_self r)
      (unpublished_books mgr r hout hbooks) rfl
    have hevict := hun.evict r (List.mem_singleton_self r) hmachines hids
      (Or.inr (by simp [unpublished, setMetering, modifyMachine]))
    rw [hids] at hevict
    exact (hevict.transition r _ _ _).commit now fault'

theorem publishChild_does (r : ℕ) (driver : Driver) (reading : Reading) (now : Time)
    (fault : SaveFault) :
    mgr.Does cfg { boots := [r] } [] (mgr.publishChild cfg r driver reading now fault).1 := by
  have hmem : r ∈ ({ boots := [r] } : Scope).boots := List.mem_singleton_self r
  simp only [publishChild]
  split
  · exact .start
  · set running := (mgr.modifyMachine r fun m =>
      { m with driver := some driver, status := .starting }).transition r (some .booting) .starting
      "managed_fork_vmm_started" with hrunning
    have hrun : mgr.Does cfg { boots := [r] } [] running := by
      have h := (((Does.refl cfg { boots := [r] } mgr).drive r driver hmem).mark
        r .starting (mgr.objects r).ready (mgr.objects r).diskMb).transition r (some .booting) .starting
        "managed_fork_vmm_started"
      simp only [modifyMachine, Function.update_idem, Function.update_self] at h
      exact h
    split
    · next x heq =>
      obtain ⟨_, _, hfiled, hfailed⟩ := meter_registry running heq
      exact hrun.note (hfailed rfl) hfiled
    · next x heq => exact (hrun.meter r reading hmem heq).commit now fault

theorem beginCreate_does {req : CreateRequest} (h : mgr.beginCreate req = some x) : mgr.Does cfg {} [] x := by
  simp only [beginCreate] at h
  split at h
  · cases h
    exact Does.start.note rfl rfl
  · cases h

theorem endCreate_does (key : String) (machineId : Option String) :
    mgr.Does cfg {} [] (mgr.endCreate key machineId) := by
  cases machineId <;> exact Does.start.note rfl rfl

/-- A create that reserves: refused, or a placeholder that is registered, or one that is gone again. -/
theorem reserveCreate_does (req : CreateRequest) (draw : Draw) (refusal : Option HostError)
    (memory : Bool) (now : Time) (fault : SaveFault) (hid : mgr.newIdFree draw.id = true) :
    ∃ removed, mgr.Does cfg { places := True } removed
      (mgr.reserveCreate cfg req draw refusal memory now fault).1 ∧
      (∀ r ∈ removed, r = mgr.nextObject) ∧
      ∀ r, (mgr.reserveCreate cfg req draw refusal memory now fault).2 = .ok r →
        removed = [] ∧ r = mgr.nextObject ∧
          (mgr.reserveCreate cfg req draw refusal memory now fault).1.find draw.id = some r := by
  have hstart : mgr.Does cfg { places := True } [] mgr := .start
  have hnone : ∀ e : HostError, ∃ removed, mgr.Does cfg { places := True } removed mgr ∧
      (∀ r ∈ removed, r = mgr.nextObject) ∧ ∀ r, Except.error e = .ok r →
        removed = [] ∧ r = mgr.nextObject ∧ mgr.find draw.id = some r :=
    fun e => ⟨[], hstart, fun _ hr => (List.not_mem_nil hr).elim, fun r hr => nomatch hr⟩
  simp only [reserveCreate]
  split
  · exact hnone _
  · split
    · exact hnone _
    · split
      · exact hnone _
      · split
        · exact hnone _
        · split
          · exact hnone _
          · split
            · exact hnone _
            · next held identity heq =>
              obtain ⟨identities, rfl⟩ := reserveJailerIdentity_same mgr cfg heq
              have hheld : mgr.Does cfg { places := True } [] { mgr with jailerIdentities := identities } :=
                hstart.note rfl rfl
              have hfree : mgr.registered draw.id = false := newIdFree_registered hid
              have hplaced := (hheld.place (createdMachine req draw.id identity) trivial hfree rfl
                rfl).transition mgr.nextObject none .booting "create"
              have hfind := allocate_find { mgr with jailerIdentities := identities }
                (createdMachine req draw.id identity)
              split
              · next y hy =>
                refine ⟨[], hplaced.commit_eq hy, fun _ hr => (List.not_mem_nil hr).elim, fun r hr => ?_⟩
                cases hr
                obtain rfl : _ = y := congrArg Prod.fst hy
                exact ⟨rfl, rfl, hfind⟩
              · next y hy =>
                obtain rfl : _ = y := congrArg Prod.fst hy
                refine ⟨[mgr.nextObject], ?_, fun _ hr => List.mem_singleton.mp hr, fun r hr => nomatch hr⟩
                refine ((hplaced.commit now fault).drop draw.id mgr.nextObject hfind ?_).note rfl rfl
                show (decide (0 < (Function.update mgr.objects mgr.nextObject _ mgr.nextObject).metering.sequence)
                  && _) = false
                rw [Function.update_self]
                rfl

/-! #### Forks -/

/-- The loop over the children of a fork has placed them all, or has taken back those that it placed. -/
structure Placing (scope : Scope) (removed : List ℕ) (x : Manager) (res : Manager × Option (List ℕ)) :
    Prop where
  does : ∃ dropped, mgr.Does cfg scope (removed ++ dropped) res.1 ∧ (∀ r ∈ dropped, x.nextObject ≤ r) ∧
    (res.2.isSome → dropped = [])
  stays : ∀ r ∈ x.machines, r ∈ res.1.machines

theorem reserveChildren_does {scope : Scope} (hscope : scope.places) (hp : mgr.Placed) (hk : mgr.Keyed)
    (source : Machine) (cs : List (ManagedForkChild × String × Draw)) : ∀ (x : Manager) (removed : List ℕ),
    mgr.Does cfg scope removed x → (cs.map (·.2.2.id)).Nodup →
    (∀ id ∈ cs.map (·.2.2.id), x.registered id = false) →
    Placing mgr cfg scope removed x (reserveChildren cfg source x cs) := by
  induction cs with
  | nil =>
    intro x removed h _ _
    exact ⟨⟨[], by rwa [List.append_nil], fun _ hr => (List.not_mem_nil hr).elim, fun _ => rfl⟩,
      fun _ hr => hr⟩
  | cons c rest ih =>
    intro x removed h hnodup hfree
    obtain ⟨c, ip, draw⟩ := c
    rw [List.map_cons, List.nodup_cons] at hnodup
    simp only [reserveChildren]
    split
    · exact ⟨⟨[], by rwa [List.append_nil], fun _ hr => (List.not_mem_nil hr).elim, fun _ => rfl⟩,
        fun _ hr => hr⟩
    · next held identity heq =>
      obtain ⟨identities, rfl⟩ := reserveJailerIdentity_same x cfg heq
      set held : Manager := { x with jailerIdentities := identities } with hheld
      have hdrawn : held.registered draw.id = false := hfree _ List.mem_cons_self
      have hxplaced : held.Placed := (h.tidy hp hk).placed
      set m := forkChild source c draw.id ip identity with hm
      set placed := (held.allocate m).1.transition (held.allocate m).2 none .booting
        "managed_fork_reserved" with hplaced
      have hmachines : placed.machines = x.machines ++ [x.nextObject] := allocate_machines hxplaced hdrawn
      have hdoes : mgr.Does cfg scope removed placed :=
        ((h.note (y := held) rfl rfl).place m hscope hdrawn rfl rfl).note rfl rfl
      have hrestfree : ∀ id ∈ rest.map (·.2.2.id), placed.registered id = false := by
        intro id hid
        rw [← Bool.not_eq_true, registered_iff, hmachines]
        rintro ⟨r, hr, hrid⟩
        rcases List.mem_append.mp hr with hr | hr
        · have hold : placed.objects r = x.objects r := allocate_old held m (hxplaced r hr)
          have hxfree := hfree id (List.mem_cons_of_mem _ hid)
          rw [← Bool.not_eq_true, registered_iff] at hxfree
          exact hxfree ⟨r, hr, hold ▸ hrid⟩
        · have hnew : placed.objects x.nextObject = m := allocate_new held m
          rw [List.mem_singleton.mp hr, hnew] at hrid
          have hdraw : draw.id = id := hrid
          exact hnodup.1 (hdraw ▸ hid)
      obtain ⟨⟨dropped, hrest, hdropped, hnone⟩, hstays⟩ := ih placed removed hdoes hnodup.2 hrestfree
      have hres := reserveChildren_reserved cfg source rest placed
      have hstay : ∀ r ∈ x.machines, r ∈ (reserveChildren cfg source placed rest).1.machines := fun r hr =>
        hstays r (hmachines ▸ List.mem_append_left _ hr)
      split
      · next y refs hy =>
        rw [hy] at hrest hnone hstay
        exact ⟨⟨dropped, hrest, fun r hr => Nat.le_of_succ_le (hdropped r hr), fun _ => hnone rfl⟩, hstay⟩
      · next y hy =>
        rw [hy] at hrest hstay hstays hres
        have hytidy := hrest.tidy hp hk
        have hnew : y.objects x.nextObject = m :=
          (hres.same x.nextObject (Nat.lt_succ_self _)).trans (allocate_new held m)
        have hmem : x.nextObject ∈ y.machines :=
          hstays _ (hmachines ▸ List.mem_append_right _ (List.mem_singleton_self _))
        have hfind : y.find draw.id = some x.nextObject := by
          have hf := find_of_mem hytidy.keyed hmem
          rwa [hnew] at hf
        have hdrop := (hrest.drop draw.id x.nextObject hfind (by simp [eligible, hnew, hm, forkChild])).note
          (y := (y.unregister draw.id).releaseIdentity draw.id) rfl rfl
        refine ⟨⟨dropped ++ [x.nextObject], by rwa [← List.append_assoc], fun r hr => ?_,
          fun h => Bool.noConfusion h⟩, fun r hr => ?_⟩
        · rcases List.mem_append.mp hr with hr | hr
          · exact Nat.le_of_succ_le (hdropped r hr)
          · exact (List.mem_singleton.mp hr).ge
        · refine List.mem_filter.mpr ⟨hstay r hr, ?_⟩
          have hold : y.objects r = x.objects r :=
            (hres.same r (Nat.lt_succ_of_lt (hxplaced r hr))).trans (allocate_old held m (hxplaced r hr))
          rw [← Bool.not_eq_true, registered_iff] at hdrawn
          rw [hold]
          exact bne_iff_ne.mpr fun hid => hdrawn ⟨r, hr, hid⟩

/-- The children that a fork which could not be saved has removed. -/
def Manager.ForkBegin.removed : ForkBegin → List ℕ
  | .cleaned _ removed => removed
  | _ => []

theorem reserveFork_does (hp : mgr.Placed) (hk : mgr.Keyed) (h : mgr.Does cfg { places := True, forks := True } [] x)
    (req : ForkRequest) (source : ℕ) (ips : List String) (probe : ForkProbe) (now : Time) (fault fault' : SaveFault)
    (hnodup : ((req.children.zip (ips.zip probe.draws)).map (·.2.2.id)).Nodup)
    (hfree : ∀ id ∈ (req.children.zip (ips.zip probe.draws)).map (·.2.2.id), x.registered id = false) :
    ∃ dropped, mgr.Does cfg { places := True, forks := True }
        (dropped ++ (x.reserveFork cfg req source ips probe now fault fault').2.removed)
        (x.reserveFork cfg req source ips probe now fault fault').1 ∧
      ∀ r ∈ dropped, x.nextObject ≤ r := by
  obtain ⟨⟨dropped, hdoes, hdropped, hnone⟩, _⟩ := reserveChildren_does mgr cfg trivial hp hk
    (x.objects source) _ x [] h hnodup hfree
  simp only [reserveFork]
  split
  · next y hy =>
    rw [hy] at hdoes
    refine ⟨dropped, ?_, hdropped⟩
    show mgr.Does cfg _ (dropped ++ []) y
    rwa [List.append_nil]
  · next y children hy =>
    rw [hy] at hdoes hnone
    cases hnone rfl
    refine ⟨[], ?_, fun _ hr => (List.not_mem_nil hr).elim⟩
    have hentered : ∀ v, mgr.Does cfg { places := True, forks := True } [] { y with
        reservations := Function.update y.reservations y.nextReservation v
        nextReservation := y.nextReservation + 1
        forkKeys := y.forkKeys ++ [(req.key, y.nextReservation)] } := fun _ => hdoes.reserve trivial _ rfl rfl
    split
    · next z hz => exact (hentered _).commit_eq hz
    · next z hz =>
      have hremoved := removeForkChildren_does ((hentered _).commit_eq hz) (children.map fun r => (y.objects r).id)
        "managed_fork_reservation_persist_failed" fun _ => ⟨none, none, ""⟩
      exact ((hremoved.failReservation trivial y.nextReservation).modifyReservation trivial y.nextReservation
        fun v => { v with done := true }).commit now fault'

theorem beginFork_does (hp : mgr.Placed) (hk : mgr.Keyed) {req : ForkRequest} {probe : ForkProbe}
    (hdraws : ForkDraws mgr req probe) (now : Time) (fault fault' : SaveFault) :
    ∃ dropped, mgr.Does cfg { places := True, forks := True }
        (dropped ++ (mgr.beginFork cfg req probe now fault fault').2.removed)
        (mgr.beginFork cfg req probe now fault fault').1 ∧
      ∀ r ∈ dropped, mgr.nextObject ≤ r := by
  have hstart : mgr.Does cfg { places := True, forks := True } [] mgr := .start
  have hpruned : mgr.Does cfg { places := True, forks := True } [] (mgr.pruneForkReservations now) :=
    hstart.reserve trivial _ rfl rfl
  obtain ⟨e, x, hx, heq⟩ | ⟨res, _, heq⟩ | ⟨source, ips, _, _, _, _, _, hips, heq⟩ :=
    beginFork_cases mgr cfg req probe now fault fault'
  · rw [heq]
    refine ⟨[], ?_, fun _ hr => (List.not_mem_nil hr).elim⟩
    rcases hx with rfl | rfl
    · exact hstart
    · exact hpruned
  · rw [heq]
    exact ⟨[], hstart, fun _ hr => (List.not_mem_nil hr).elim⟩
  · have hids : (req.children.zip (ips.zip probe.draws)).map (·.2.2.id) = probe.draws.map (·.id) := by
      have hlen := hdraws.length
      calc (req.children.zip (ips.zip probe.draws)).map (·.2.2.id)
          = (((req.children.zip (ips.zip probe.draws)).map Prod.snd).map Prod.snd).map (·.id) := by
            rw [List.map_map, List.map_map]
            rfl
        _ = probe.draws.map (·.id) := by
            rw [List.map_snd_zip (by rw [List.length_zip]; omega), List.map_snd_zip (by omega)]
    rw [heq]
    refine reserveFork_does mgr cfg hp hk hpruned req source ips probe now fault fault' ?_ ?_
    · rw [hids]
      exact hdraws.nodup
    · rw [hids]
      exact fun id hid => newIdFree_registered (hdraws.free id hid)

theorem rollbackForkChildren_does (hk : mgr.Keyed) (children : List ℕ) (readings : ℕ → Reading)
    (now : Time) (fault : SaveFault) :
    mgr.Does cfg { undoes := True } (mgr.rollbackForkChildren cfg children readings now fault).2
      (mgr.rollbackForkChildren cfg children readings now fault).1 := by
  simp only [rollbackForkChildren]
  have hremoved := removeForkChildren_does (Does.refl cfg { undoes := True } mgr)
    (children.map fun r => (mgr.objects r).id) "managed_fork_rollback" readings
  have hprunes := removeForkChildren_prunes hk (.refl hk (children.map fun r => (mgr.objects r).id))
    "managed_fork_rollback" readings
  split
  · next y hy => exact hremoved.commit_eq hy
  · next y hy =>
    obtain rfl : _ = y := congrArg Prod.fst hy
    obtain ⟨machines, hperm, hbooks, hfiled⟩ := restoreForkCleanup_undoes hk
      (hprunes.persist cfg now fault)
    exact (hremoved.commit now fault).undo trivial (persist_books hy).2 machines hperm hbooks hfiled

theorem finishFork_does (hk : mgr.Keyed) (res : ℕ) (failed : Bool) (readings : ℕ → Reading)
    (now : Time) (fault fault' : SaveFault) :
    mgr.Does cfg { undoes := True, forks := True }
      (mgr.finishFork cfg res failed readings now fault fault').2.removed
      (mgr.finishFork cfg res failed readings now fault fault').1 := by
  have hstart : mgr.Does cfg { undoes := True, forks := True } [] mgr := .start
  simp only [finishFork]
  split
  · have hremoved := (removeForkChildren_does hstart (mgr.reservations res).childIds
      "managed_fork_terminal_cleanup" readings).failReservation trivial res
    have hprunes := (removeForkChildren_prunes hk (.refl hk (mgr.reservations res).childIds)
      "managed_fork_terminal_cleanup" readings).failReservation res
    split
    · next y hy => exact hremoved.commit_eq hy
    · next y hy =>
      obtain rfl : _ = y := congrArg Prod.fst hy
      split
      · next z hz => exact (hremoved.commit now fault).commit_eq hz
      · next z hz =>
        obtain rfl : _ = z := congrArg Prod.fst hz
        obtain ⟨machines, hperm, hbooks, hfiled⟩ := restoreForkCleanup_undoes hk
          ((hprunes.persist cfg now fault).persist cfg now fault')
        exact ((hremoved.commit now fault).commit now fault').undo trivial (persist_books hz).2 machines
          hperm hbooks hfiled
  · have hsucceeded := hstart.modifyReservation trivial res fun v => { v with state := .succeeded, err := none }
    split
    · next y hy => exact hsucceeded.commit_eq hy
    · next y hy =>
      obtain rfl : _ = y := congrArg Prod.fst hy
      have hremoved := (removeForkChildren_does (hsucceeded.commit now fault) (mgr.reservations res).childIds
        "managed_fork_terminal_persist_failed" readings).failReservation trivial res
      have hrefl := Prunes.refl hk (mgr.reservations res).childIds
      have hprunes := (removeForkChildren_prunes hk (x := ((mgr.modifyReservation res fun v =>
          { v with state := .succeeded, err := none }).persist cfg now fault).1)
        ⟨hrefl.objects, hrefl.others, hrefl.machines, hrefl.kept, hrefl.nodup, hrefl.outbox, hrefl.frame⟩
        "managed_fork_terminal_persist_failed" readings).failReservation res
      split
      · next z hz => exact hremoved.commit_eq hz
      · next z hz =>
        obtain rfl : _ = z := congrArg Prod.fst hz
        obtain ⟨machines, hperm, hbooks, hfiled⟩ := restoreForkCleanup_undoes hk
          (hprunes.persist cfg now fault')
        exact (hremoved.commit now fault').undo trivial (persist_books hz).2 machines hperm hbooks hfiled

/-- The children that the cleanup of a replay has removed. -/
def Manager.ForkAnswer.removed : ForkAnswer → List ℕ
  | .cleaned removed => removed
  | _ => []

theorem forkReservationResult_does (hk : mgr.Keyed) (res : ℕ) (readings : ℕ → Reading) (now : Time)
    (fault : SaveFault) :
    mgr.Does cfg { undoes := True, forks := True }
      (mgr.forkReservationResult cfg res readings now fault).2.removed
      (mgr.forkReservationResult cfg res readings now fault).1 := by
  have hstart : mgr.Does cfg { undoes := True, forks := True } [] mgr := .start
  simp only [forkReservationResult]
  split
  · exact hstart
  · split
    · exact hstart
    · split
      · exact hstart
      · split
        · split
          · exact hstart
          · exact hstart
        · have hremoved := ((removeForkChildren_does hstart (mgr.reservations res).childIds
            "managed_fork_incomplete_replay_cleanup" readings).failReservation trivial res).modifyReservation
            trivial res fun v => { v with cleaning := true }
          have hpruned := (removeForkChildren_prunes hk (.refl hk (mgr.reservations res).childIds)
            "managed_fork_incomplete_replay_cleanup" readings).failReservation res
          split
          · next y hy => exact hremoved.commit_eq hy
          · next y hy =>
            obtain rfl : _ = y := congrArg Prod.fst hy
            have hprunes := hpruned.persist cfg now fault
            obtain ⟨machines, hperm, hbooks, hfiled⟩ := restoreForkCleanup_undoes hk (x := (((mgr.removeForkChildren
                (mgr.reservations res).childIds "managed_fork_incomplete_replay_cleanup" readings).1.failReservation
                res).modifyReservation res fun v => { v with cleaning := true }).persist cfg now fault |>.1)
              ⟨hprunes.objects, hprunes.others, hprunes.machines, hprunes.kept, hprunes.nodup, hprunes.outbox,
                hprunes.frame⟩
            exact (hremoved.commit now fault).undo trivial (persist_books hy).2 machines hperm hbooks hfiled

theorem closeReservation_does (res : ℕ) : mgr.Does cfg { forks := True } [] (mgr.closeReservation res) :=
  Does.start.modifyReservation trivial res _

theorem endCleanup_does (res : ℕ) : mgr.Does cfg { forks := True } [] (mgr.endCleanup res) :=
  Does.start.modifyReservation trivial res _

theorem settleOperations_does (loaded : List PersistedMachine) (readings : ℕ → Reading)
    (ops : List PersistedForkOperation) : ∀ (x : Manager) (removed : List ℕ),
    mgr.Does cfg { forks := True } removed x →
    mgr.Does cfg { forks := True } (removed ++ (settleOperations loaded readings x ops).2)
      (settleOperations loaded readings x ops).1 := by
  have hone : ∀ (x : Manager) (removed : List ℕ) (op : PersistedForkOperation),
      mgr.Does cfg { forks := True } removed x →
      mgr.Does cfg { forks := True } (removed ++ (x.settleOperation loaded readings op).2)
        (x.settleOperation loaded readings op).1 := by
    intro x removed op h
    simp only [settleOperation]
    split
    · split
      · rw [List.append_nil]
        exact h.reserve trivial _ rfl rfl
      · exact (removeForkChildren_does h op.childIds _ readings).reserve trivial _ rfl rfl
    · exact (removeForkChildren_does h op.childIds _ readings).reserve trivial _ rfl rfl
    · exact (removeForkChildren_does h op.childIds _ readings).reserve trivial _ rfl rfl
  induction ops with
  | nil =>
    intro x removed h
    rw [settleOperations, List.append_nil]
    exact h
  | cons op rest ih =>
    intro x removed h
    simp only [settleOperations]
    rw [← List.append_assoc]
    exact ih _ _ (hone x removed op h)

/-! #### Extensions -/

/-- An extension is refused, answered from the table of the machine, or taken. -/
theorem extend_cases (id leaseId key : String) (target now : Time) (fault : SaveFault) :
    (∃ e, mgr.extend cfg id leaseId key target now fault = (mgr, .error e)) ∨
    (∃ r, mgr.find id = some r ∧ leaseId = (mgr.objects r).leaseId ∧
      (mgr.objects r).extendOperations.lookup key = some target ∧
      mgr.extend cfg id leaseId key target now fault = (mgr, .ok true)) ∨
    ∃ r, mgr.find id = some r ∧ leaseId = (mgr.objects r).leaseId ∧
      (mgr.objects r).extendOperations.lookup key = none ∧
      mgr.extend cfg id leaseId key target now fault
        = (((mgr.modifyMachine r fun m => m.extended key target).persist cfg now fault).1, .ok false) := by
  simp only [extend]
  split
  · exact Or.inl ⟨_, rfl⟩
  · next r hr =>
    split
    · exact Or.inl ⟨_, rfl⟩
    · next hlease =>
      rw [not_or, not_not] at hlease
      split
      · next prior hprior =>
        split
        · next htarget =>
          subst htarget
          exact Or.inr (Or.inl ⟨r, hr, hlease.2, hprior, rfl⟩)
        · exact Or.inl ⟨_, rfl⟩
      · next hnone => exact Or.inr (Or.inr ⟨r, hr, hlease.2, hnone, rfl⟩)

/-! #### A restart -/

/-- A recovered final changes the outbox alone. -/
theorem finalizePersistedMachine_books (doc : MachineStateSnapshot) (index : ℕ) (p : PersistedMachine)
    (reason : HostUsageObservationQualityReason) (updatedAt : String) (now : Time) (fault : SaveFault) :
    { (mgr.finalizePersistedMachine doc index p reason updatedAt now fault).1.books with
      meteringOutbox := mgr.meteringOutbox } = mgr.books := by
  have hsave : ∀ doc' : MachineStateSnapshot, (mgr.saveRecoverySnapshot doc' now fault).1.books = mgr.books := by
    intro doc'
    simp only [saveRecoverySnapshot]
    split <;> next x heq =>
      obtain rfl : _ = x := congrArg Prod.fst heq
      rfl
  simp only [finalizePersistedMachine]
  split
  · rfl
  · split
    · rfl
    · split
      · rfl
      · split <;> next x doc' heq =>
          obtain rfl : _ = x := congrArg Prod.fst heq
          show { (mgr.saveRecoverySnapshot _ now fault).1.books with meteringOutbox := mgr.meteringOutbox } = mgr.books
          rw [hsave]
          rfl

theorem map_set_same {α β : Type} {f : α → β} {l : List α} {i : ℕ} {a b : α} (hi : l[i]? = some a)
    (hab : f b = f a) : (l.set i b).map f = l.map f := by
  have hlt : i < l.length := (List.getElem?_eq_some_iff.mp hi).1
  refine List.ext_getElem? fun j => ?_
  rw [List.map_set, List.getElem?_set]
  split
  · next h =>
    subst h
    rw [List.length_map, if_pos hlt, hab, List.getElem?_map, hi]
    rfl
  · rfl

/-- The ids of the document stay. -/
theorem finalizePersistedMachine_ids (doc : MachineStateSnapshot) {index : ℕ} {p : PersistedMachine}
    (hi : doc.machines[index]? = some p) (reason : HostUsageObservationQualityReason)
    (updatedAt : String) (now : Time) (fault : SaveFault) :
    (mgr.finalizePersistedMachine doc index p reason updatedAt now fault).2.1.machines.map (·.id)
      = doc.machines.map (·.id) := by
  have hset : (doc.machines.set index (finalized p)).map (·.id) = doc.machines.map (·.id) :=
    map_set_same hi rfl
  simp only [finalizePersistedMachine]
  split
  · rfl
  · split
    · rfl
    · split
      · rfl
      · split
        · next x doc' heq =>
          simp only [saveRecoverySnapshot] at heq
          split at heq <;> cases heq
          exact hset
        · rfl

/-- A machine of the document is back in the registry, where its id was free. -/
structure Rejoined (p : PersistedMachine) (x : Manager) : Prop where
  machines : x.machines = mgr.machines ++ [mgr.nextObject]
  next : x.nextObject = mgr.nextObject + 1
  others : ∀ r, r ≠ mgr.nextObject → x.objects r = mgr.objects r
  machine : ∃ s reserved, x.objects mgr.nextObject
    = { mgr.reattached p with metering := s, meteringReserved := reserved } ∧
      (s = p.metering ∨ p.metering.sequence = 0 ∧ s.sequence = 1 ∧ metered p.toMachineRecord = true)
  outbox : ∃ os, x.meteringOutbox = mgr.meteringOutbox ++ os ∧ ∀ o ∈ os, o.kind = .start
  acknowledged : x.acknowledged = mgr.acknowledged
  table : x.forkTable = mgr.forkTable
  filed : x.filed = mgr.filed

theorem reattach_rejoined (hp : mgr.Placed) {p : PersistedMachine} (hfree : mgr.registered p.id = false)
    (heq : mgr.reattach p reading = (x, true)) : Rejoined mgr p x := by
  set placed := (mgr.allocate (mgr.reattached p)).1.transition mgr.nextObject (some p.status) .starting
    "daemon_reattached" with hplaced
  have hobj : placed.objects mgr.nextObject = mgr.reattached p := allocate_new mgr (mgr.reattached p)
  have hmach : placed.machines = mgr.machines ++ [mgr.nextObject] :=
    allocate_machines (m := mgr.reattached p) hp hfree
  have hothers : ∀ r, r ≠ mgr.nextObject → placed.objects r = mgr.objects r := fun r hr =>
    Function.update_of_ne hr _ _
  have h0 : Rejoined mgr p placed :=
    ⟨hmach, rfl, hothers, ⟨p.metering, false, by rw [hobj]; rfl, Or.inl rfl⟩,
      ⟨[], (List.append_nil _).symm, fun _ ho => (List.not_mem_nil ho).elim⟩, rfl, rfl, rfl⟩
  have hkeys : ∀ (y : Manager) (keys : List (String × CreateReservation)), Rejoined mgr p y →
      Rejoined mgr p { y with createKeys := keys } := fun y keys h =>
    ⟨h.machines, h.next, h.others, h.machine, h.outbox, h.acknowledged, h.table, h.filed⟩
  have hmeter : ∀ y, p.metering.sequence = 0 → placed.recordMeterStart mgr.nextObject reading = (y, true) →
      Rejoined mgr p y := by
    intro y hseq hy
    have hs := recordMeterStart_started placed mgr.nextObject reading
    rw [hy] at hs
    cases hs with
    | unmetered _ => exact h0
    | emitted now healthy hmetered _ _ _ =>
      have hlease : metered p.toMachineRecord = true := by
        rw [hobj] at hmetered
        exact hmetered
      refine ⟨hmach, rfl, fun r hr => ?_,
        ⟨placed.startState (placed.objects mgr.nextObject) now reading, false, ?_, Or.inr ⟨hseq, rfl, hlease⟩⟩,
        ⟨_, rfl, fun o ho => ?_⟩, rfl, rfl, rfl⟩
      · rw [emit_object_of_ne placed hr]
        exact hothers r hr
      · rw [emit_object, hobj]
      · rw [List.mem_singleton.mp ho]
        rfl
  simp only [reattach] at heq
  by_cases hstart : p.metering.sequence = 0 ∧ p.leaseId ≠ ""
  · simp only [if_pos hstart] at heq
    split at heq
    · cases heq
    · next hok =>
      have hy := hmeter (placed.recordMeterStart mgr.nextObject reading).1 hstart.1
        (Prod.ext rfl (Bool.not_eq_false _ ▸ (Bool.not_eq_true' _ ▸ hok)))
      split at heq <;> cases heq
      · exact hy
      · exact hkeys _ _ hy
  · simp only [if_neg hstart, Bool.not_true, Bool.false_eq_true, if_false] at heq
    split at heq <;> cases heq
    · exact h0
    · exact hkeys _ _ h0

end Sections

end Nehemiah.Host
