import Nehemiah.Host.Registry

/-!
# Fork-cleaned means cleaned

`ErrForkBatchCleaned` tells the control plane that no child of the batch is left on the host.  The
children are removed under the lock and the removal is committed; a removal that does not fit the outbox
leaves children registered, and so does a commit that fails, since it puts them back.  The answer is the
same in both cases.

* `forks_cleaned`: in every run in which each cleanup finds room for the final observations and one of its
  commits succeeds (or finds nothing to remove), and in which no new machine draws the id of a cleaned
  child, no child of a fork that answered `ErrForkBatchCleaned` is registered.
* `cleaned_fork_survives`: both commits fail, and the child is registered after the answer.
-/

namespace Nehemiah.Host

open Billing Manager Lib

/-! ### Removing children -/

theorem nodup_eraseDups (l : List String) : l.eraseDups.Nodup := by
  induction hn : l.length using Nat.strong_induction_on generalizing l with
  | _ n ih =>
    cases l with
    | nil => exact List.nodup_nil
    | cons b rest =>
      have hlt : (rest.filter fun c => !c == b).length < n := by
        rw [← hn]
        exact lt_of_le_of_lt (List.length_filter_le _ _) (Nat.lt_succ_self _)
      rw [List.eraseDups_cons, List.nodup_cons]
      refine ⟨fun hb => ?_, ih _ hlt _ rfl⟩
      have hmem := List.mem_filter.mp (List.mem_eraseDups.mp hb)
      simp at hmem

variable {id : String} {d : Daemon}

theorem unregister_find_of_ne (mgr : Manager) {id' : String} (h : id' ≠ id) :
    (mgr.unregister id).find id' = mgr.find id' := by
  rw [find_unregister, if_neg h]

theorem unregister_registered (mgr : Manager) (id : String) : (mgr.unregister id).registered id = false := by
  rw [← Bool.not_eq_true, registered_iff]
  rintro ⟨r, hr, hid⟩
  have hne := (List.mem_filter.mp hr).2
  simp only [bne_iff_ne, ne_eq] at hne
  exact hne hid

theorem emit_find (mgr : Manager) (r : ℕ) (s : MachineMeteringState) (reserved : Bool)
    (os : List HostUsageObservation) (healthy : Bool) (id : String) :
    (mgr.emit r s reserved os healthy).find id = mgr.find id := by
  have hmachines : (mgr.emit r s reserved os healthy).machines = mgr.machines := rfl
  exact find_congr hmachines (fun r' => emit_id mgr r r' s reserved os healthy) id

variable {mgr x : Manager} {v : ForkReservation} {res : ℕ}

theorem eligible_of_live {r : ℕ}
    (h : ¬ ((mgr.objects r).metering.sequence = 0 ∨ (mgr.objects r).metering.final = true)) :
    mgr.eligible r = true := by
  rw [not_or] at h
  simp only [eligible, Bool.and_eq_true, decide_eq_true_eq, Bool.not_eq_true']
  exact ⟨Nat.pos_of_ne_zero h.1, by simpa using h.2⟩

/-- A final sample needs a public id and room in the outbox, and nothing of the host. -/
theorem sample_final (mgr : Manager) (r : ℕ) (reading : Reading)
    (h : mgr.eligible r = true →
      (mgr.objects r).publicId ≠ "" ∧ mgr.meteringOutbox.length < maxMeteringOutbox) :
    (mgr.sample r true reading).2 = true := by
  simp only [sample]
  split
  · rfl
  · next hlive =>
    obtain ⟨hpublic, hroom⟩ := h (eligible_of_live hlive)
    split
    · next hclock =>
      simp only [sampleClock, if_true] at hclock
      split at hclock
      · cases hclock
      · split at hclock <;> cases hclock
    · next monotonic q hclock =>
      split
      · next hegress =>
        simp only [sampleEgress] at hegress
        split at hegress
        · cases hegress
        · split at hegress
          · cases hegress
          · simp only [Bool.not_true, Bool.false_eq_true, if_false] at hegress
            split at hegress <;> cases hegress
      · next s quality hegress =>
        have hobj : ∀ s', ((mgr.setMetering r s').objects r) = { mgr.objects r with metering := s' } := by
          intro s'
          simp [setMetering, modifyMachine]
        obtain ⟨healthy, heq⟩ := appendMachineObservation_ok (mgr.setMetering r (sampledState s true reading))
          r .final true quality (by rw [hobj]; exact Nat.succ_ne_zero _) (by rw [hobj]; exact hpublic) hroom
        exact congrArg Prod.snd heq

/-- The children can be removed: their final observations fit, and each that is metered has a public id. -/
def Manager.removable (mgr : Manager) (ids : List String) : Prop :=
  mgr.meteringOutbox.length + mgr.terminalNeeded ids ≤ maxMeteringOutbox ∧
    ∀ id ∈ ids, ∀ r ∈ mgr.find id, mgr.eligible r = true → (mgr.objects r).publicId ≠ ""

instance (mgr : Manager) (ids : List String) : Decidable (mgr.removable ids) :=
  inferInstanceAs (Decidable (_ ∧ _))

/-- One child is gone: the others are as before, and its final took at most one place. -/
theorem removed_frame {r : ℕ} {reading : Reading} (reason : String) (hid : (mgr.objects r).id = id)
    (heq : mgr.sample r true reading = (x, true)) :
    x.meteringOutbox.length ≤ mgr.meteringOutbox.length + (if mgr.eligible r then 1 else 0) ∧
      ∀ id' ≠ id, (((x.unregister id).transition r (some (x.objects r).status) .failed reason).find id'
          = mgr.find id') ∧
        ∀ r' ∈ mgr.find id', x.objects r' = mgr.objects r' := by
  have hs := sample_sampled mgr r true reading
  rw [heq] at hs
  have hne : ∀ id' ≠ id, ∀ r' ∈ mgr.find id', r' ≠ r := by
    rintro id' hid' r' hr' rfl
    exact hid' ((find_some hr').2.symm.trans hid)
  cases hs with
  | skipped _ =>
    refine ⟨Nat.le_add_right _ _, fun id' hid' => ⟨unregister_find_of_ne mgr hid', fun _ _ => rfl⟩⟩
  | emitted _ _ _ s healthy hlive _ _ _ =>
    refine ⟨?_, fun id' hid' => ⟨?_, fun r' hr' => emit_object_of_ne mgr (hne id' hid' r' hr') _ _ _ _⟩⟩
    · rw [if_pos (eligible_of_live hlive)]
      exact (List.length_append ..).le
    · exact (unregister_find_of_ne _ hid').trans (emit_find mgr r _ _ _ _ id')

/-- The loop removes every child it is given. -/
theorem removeChildren_removed (reason : String) (readings : ℕ → Reading) (ids : List String)
    (hnodup : ids.Nodup) : ∀ mgr : Manager, mgr.Placed →
    mgr.meteringOutbox.length + ids.countP (fun id => (mgr.find id).any mgr.eligible) ≤ maxMeteringOutbox →
    (∀ id ∈ ids, ∀ r ∈ mgr.find id, mgr.eligible r = true → (mgr.objects r).publicId ≠ "") →
    ∀ id ∈ ids, (removeChildren reason readings mgr ids).1.registered id = false := by
  induction ids with
  | nil => exact fun _ _ _ _ id hid => (List.not_mem_nil hid).elim
  | cons id rest ih =>
    intro mgr hplaced hroom hpublic
    obtain ⟨hid, hrest⟩ := List.nodup_cons.mp hnodup
    -- what is not registered before the rest of the loop is not registered after it
    have hgone : ∀ x : Manager, x.Placed → x.registered id = false →
        (removeChildren reason readings x rest).1.registered id = false := fun x hx h =>
      (removeChildren_keeps reason readings rest x).registered hx h List.not_mem_nil
    rw [List.countP_cons] at hroom
    simp only [removeChildren]
    split
    · next hnone =>
      intro id' hid'
      rcases List.mem_cons.mp hid' with rfl | hid'
      · exact hgone mgr hplaced (find_none hnone)
      · exact ih hrest mgr hplaced (by omega) (fun id hid => hpublic id (List.mem_cons_of_mem _ hid)) id' hid'
    · next r hr =>
      have hok := sample_final mgr r (readings r) fun helig =>
        ⟨hpublic id List.mem_cons_self r hr helig, by
          rw [hr, Option.any_some, helig, if_pos rfl] at hroom
          omega⟩
      split
      · next x heq =>
        rw [heq] at hok
        cases hok
      · next x heq =>
        obtain ⟨hlen, hframe⟩ := removed_frame reason (find_some hr).2 heq
        set y := (x.unregister id).transition r (some (x.objects r).status) .failed reason with hy
        have hplaced' : y.Placed :=
          ((((Keeps.refl mgr).sample_eq heq).unregister id).transition r _ _ _).placed hplaced
        have hne : ∀ id' ∈ rest, id' ≠ id := fun id' hid' h => hid (h ▸ hid')
        have helig : ∀ id' ∈ rest, (y.find id').any y.eligible = (mgr.find id').any mgr.eligible := by
          intro id' hid'
          obtain ⟨hfind, hobj⟩ := hframe id' (hne id' hid')
          rw [hfind]
          cases hr' : mgr.find id' with
          | none => rfl
          | some r' =>
            have hsame : y.objects r' = mgr.objects r' := hobj r' hr'
            simp only [Option.any_some, eligible, hsame]
        intro id' hid'
        rcases List.mem_cons.mp hid' with rfl | hid'
        · exact hgone y hplaced' (unregister_registered x _)
        · refine ih hrest y hplaced' ?_ (fun id'' hid'' r' hr' he => ?_) id' hid'
          · rw [List.countP_congr (fun id' hid' => by rw [helig id' hid'])]
            rw [hr, Option.any_some] at hroom
            exact le_trans (Nat.add_le_add_right hlen _) (by omega)
          · obtain ⟨hfind, hobj⟩ := hframe id'' (hne id'' hid'')
            rw [hfind] at hr'
            have hsame : y.objects r' = mgr.objects r' := hobj r' hr'
            rw [hsame]
            refine hpublic id'' (List.mem_cons_of_mem _ hid'') r' hr' ?_
            simp only [eligible, hsame] at he ⊢
            exact he

/-- **Removable children are removed.** -/
theorem removeForkChildren_removed (hplaced : mgr.Placed) {ids : List String} (h : mgr.removable ids) (reason : String)
    (readings : ℕ → Reading) :
    ∀ id ∈ ids, (mgr.removeForkChildren ids reason readings).1.registered id = false := by
  intro id hid
  simp only [removeForkChildren]
  rw [if_neg (not_lt.mpr h.1)]
  exact removeChildren_removed reason readings ids.eraseDups (nodup_eraseDups ids) mgr hplaced h.1
    (fun id hid => h.2 id (List.mem_eraseDups.mp hid)) id (List.mem_eraseDups.mpr hid)

/-! ### Swept reservations -/

/-- The reservation answers `ErrForkBatchCleaned`. -/
def ForkReservation.cleaned (v : ForkReservation) : Prop := v.err = some .forkBatchCleaned

instance (v : ForkReservation) : Decidable v.cleaned := inferInstanceAs (Decidable (_ = _))

/-- No child of the reservation is registered. -/
def Manager.gone (mgr : Manager) (v : ForkReservation) : Prop := ∀ id ∈ v.childIds, mgr.registered id = false

instance (mgr : Manager) (v : ForkReservation) : Decidable (mgr.gone v) :=
  inferInstanceAs (Decidable (∀ id ∈ _, _))

/-- The cleaned reservations have no child left. -/
structure Manager.Swept (mgr : Manager) : Prop where
  placed : mgr.Placed
  keys : ∀ e ∈ mgr.forkKeys, e.2 < mgr.nextReservation
  swept : ∀ res < mgr.nextReservation, (mgr.reservations res).cleaned → mgr.gone (mgr.reservations res)

/-- The id is not that of a child of a cleaned fork. -/
def Manager.idUnused (mgr : Manager) (id : String) : Prop :=
  ∀ res < mgr.nextReservation, (mgr.reservations res).cleaned → id ∉ (mgr.reservations res).childIds

instance (mgr : Manager) (id : String) : Decidable (mgr.idUnused id) :=
  inferInstanceAs (Decidable (∀ res < _, _))

theorem Manager.Admits.gone (h : Admits [] mgr x) (hp : mgr.Placed) (hv : mgr.gone v) : x.gone v :=
  fun id hid => h.registered hp (hv id hid) List.not_mem_nil

theorem Manager.Swept.admits {new : List String} (hs : mgr.Swept) (h : Admits new mgr x)
    (htable : x.forkTable = mgr.forkTable) (hnew : ∀ id ∈ new, mgr.idUnused id) : x.Swept := by
  have hres : x.reservations = mgr.reservations := congrArg ForkTable.reservations htable
  have hnext : x.nextReservation = mgr.nextReservation := congrArg ForkTable.nextReservation htable
  have hkeys : x.forkKeys = mgr.forkKeys := congrArg ForkTable.forkKeys htable
  refine ⟨h.placed hs.placed, ?_, ?_⟩
  · rw [hkeys, hnext]
    exact hs.keys
  · rw [hres, hnext]
    intro res hlt hc id hid
    exact h.registered hs.placed (hs.swept res hlt hc id hid) fun hn => hnew id hn res hlt hc hid

theorem Manager.Swept.keeps (hs : mgr.Swept) (h : mgr.Keeps x) : x.Swept :=
  hs.admits h.toAdmits h.table fun _ hid => (List.not_mem_nil hid).elim

/-- A reservation changes, and is swept if it is cleaned. -/
theorem Manager.Swept.update (hs : mgr.Swept) (h : Admits [] mgr x)
    (hres : x.reservations = Function.update mgr.reservations res v) (hnext : x.nextReservation = mgr.nextReservation)
    (hkeys : x.forkKeys = mgr.forkKeys) (hv : v.cleaned → x.gone v) : x.Swept := by
  refine ⟨h.placed hs.placed, ?_, fun res' hlt hc => ?_⟩
  · rw [hkeys, hnext]
    exact hs.keys
  · rw [hres] at hc ⊢
    by_cases heq : res' = res
    · subst heq
      rw [Function.update_self] at hc ⊢
      exact hv hc
    · rw [Function.update_of_ne heq] at hc ⊢
      intro id hid
      exact h.registered hs.placed (hs.swept res' (hnext ▸ hlt) hc id hid) List.not_mem_nil

/-- A new reservation, with new machines or none, and is swept if it is cleaned. -/
theorem Manager.Swept.enter {new : List String} (hs : mgr.Swept) (h : Admits new mgr x)
    (hnew : ∀ id ∈ new, mgr.idUnused id)
    (hres : x.reservations = Function.update mgr.reservations mgr.nextReservation v)
    (hnext : x.nextReservation = mgr.nextReservation + 1)
    (hkeys : ∀ e ∈ x.forkKeys, e ∈ mgr.forkKeys ∨ e.2 = mgr.nextReservation) (hv : v.cleaned → x.gone v) : x.Swept := by
  refine ⟨h.placed hs.placed, fun e he => ?_, fun res' hlt hc => ?_⟩
  · rw [hnext]
    rcases hkeys e he with hk | hk
    · exact Nat.lt_succ_of_lt (hs.keys e hk)
    · exact hk ▸ Nat.lt_succ_self _
  · rw [hres] at hc ⊢
    by_cases heq : res' = mgr.nextReservation
    · subst heq
      rw [Function.update_self] at hc ⊢
      exact hv hc
    · have hlt' : res' < mgr.nextReservation := by omega
      rw [Function.update_of_ne heq] at hc ⊢
      intro id hid
      exact h.registered hs.placed (hs.swept res' hlt' hc id hid) fun hn => hnew id hn res' hlt' hc hid

/-! ### The sections that settle a reservation -/

/-- From `mgr` to `x` the reservation `res` becomes `v`, and no machine is new. -/
structure Manager.Settles (mgr : Manager) (res : ℕ) (v : ForkReservation) (x : Manager) : Prop where
  admits : Admits [] mgr x
  table : x.forkTable = ⟨Function.update mgr.reservations res v, mgr.nextReservation, mgr.forkKeys⟩

theorem Manager.Settles.keeps {y : Manager} (h : mgr.Settles res v x) (h' : x.Keeps y) : mgr.Settles res v y :=
  ⟨h.admits.trans h'.toAdmits, h'.table.trans h.table⟩

theorem Manager.Settles.restore (h : mgr.Settles res v x) (ids : List String) :
    mgr.Settles res v (x.restoreForkCleanup (mgr.captureForkCleanup ids)) :=
  ⟨restoreForkCleanup_admits h.admits ids, (restoreForkCleanup_table x _).trans h.table⟩

theorem Manager.Settles.modify (h : mgr.Settles res v x) (f : ForkReservation → ForkReservation) :
    mgr.Settles res (f v) (x.modifyReservation res f) := by
  have hres : x.reservations = Function.update mgr.reservations res v :=
    congrArg ForkTable.reservations h.table
  have hnext : x.nextReservation = mgr.nextReservation := congrArg ForkTable.nextReservation h.table
  have hkeys : x.forkKeys = mgr.forkKeys := congrArg ForkTable.forkKeys h.table
  refine ⟨⟨h.admits.objects, h.admits.ids, h.admits.refs⟩, ?_⟩
  show (⟨Function.update x.reservations res (f (x.reservations res)), x.nextReservation, x.forkKeys⟩
    : ForkTable) = _
  rw [hres, hnext, hkeys, Function.update_self, Function.update_idem]

theorem Manager.Keeps.settles (h : mgr.Keeps x) (res : ℕ) : mgr.Settles res (mgr.reservations res) x :=
  ⟨h.toAdmits, by rw [Function.update_eq_self]; exact h.table⟩

theorem Manager.Swept.settles (hs : mgr.Swept) (h : mgr.Settles res v x) (hv : v.cleaned → x.gone v) : x.Swept :=
  hs.update h.admits (congrArg ForkTable.reservations h.table)
    (congrArg ForkTable.nextReservation h.table) (congrArg ForkTable.forkKeys h.table) hv

/-- The reservation as a cleanup leaves it. -/
def ForkReservation.failed (v : ForkReservation) : ForkReservation :=
  { v with state := .failed, err := some .forkBatchCleaned }

/-- A commit that fails had a fault. -/
theorem fault_of_persist {cfg : Config} {now : Time} {fault : SaveFault} (h : mgr.persist cfg now fault = (x, false)) :
    fault ≠ .none := by
  rintro rfl
  simp only [persist, saved, StateStore.save] at h
  split at h <;> simp at h

/-- The condition on the section after the run of a fork. -/
def Manager.finishes (mgr : Manager) (res : ℕ) (failed : Bool) (fault fault' : SaveFault) : Prop :=
  failed = false ∧ fault = .none ∨ mgr.gone (mgr.reservations res) ∨
    mgr.removable (mgr.reservations res).childIds ∧ (fault = .none ∨ fault' = .none)

instance (mgr : Manager) (res : ℕ) (failed : Bool) (fault fault' : SaveFault) :
    Decidable (mgr.finishes res failed fault fault') :=
  inferInstanceAs (Decidable (_ ∨ _ ∨ _))

/-- **A fork that ends without success leaves no child**, when its cleanup can be committed. -/
theorem finishFork_settles (hp : mgr.Placed) (cfg : Config) (res : ℕ) (failed : Bool) (readings : ℕ → Reading)
    (now : Time) (fault fault' : SaveFault) (hg : mgr.finishes res failed fault fault') :
    ∃ v, mgr.Settles res v (mgr.finishFork cfg res failed readings now fault fault').1 ∧
      v.childIds = (mgr.reservations res).childIds ∧ v.done = (mgr.reservations res).done ∧
      (v.cleaned → (mgr.finishFork cfg res failed readings now fault fault').1.gone v) ∧
      ((mgr.finishFork cfg res failed readings now fault fault').2.succeeded = false → v.cleaned) := by
  set v := mgr.reservations res with hv
  -- the children are gone once a removal is committed, or were gone before
  have hgone : ∀ x y : Manager, mgr.Keeps x ∨ mgr.Settles res { v with state := .succeeded, err := none } x →
      x.Placed → (mgr.removable v.childIds → x.removable v.childIds) → ∀ reason,
      Admits [] (x.removeForkChildren v.childIds reason readings).1 y →
      mgr.gone v ∨ mgr.removable v.childIds → y.gone v := by
    intro x y hx hxp hrem reason hy hcase
    have hkeep := removeForkChildren_keeps x v.childIds reason readings
    rcases hcase with hcase | hcase
    · have hadm : Admits [] mgr x := hx.elim (fun h => h.toAdmits) fun h => h.admits
      exact hy.gone (hkeep.placed hxp) (hkeep.toAdmits.gone hxp (hadm.gone hp hcase))
    · exact hy.gone (hkeep.placed hxp) (removeForkChildren_removed hxp (hrem hcase) reason readings)
  simp only [finishFork]
  cases failed with
  | true =>
    rw [if_pos rfl]
    have hcase : mgr.gone v ∨ mgr.removable v.childIds := by
      rcases hg with ⟨hf, _⟩ | hg | hg
      · cases hf
      · exact Or.inl hg
      · exact Or.inr hg.1
    have hx := removeForkChildren_keeps mgr v.childIds "managed_fork_terminal_cleanup" readings
    have hfail : mgr.Settles res v.failed _ := (hx.settles res).modify ForkReservation.failed
    have hadm : ∀ x : Manager, Admits [] x (x.failReservation res) := fun x =>
      ⟨le_refl _, fun _ _ => rfl, fun _ hr => Or.inl hr⟩
    split
    · next y hy =>
      have hk := (Keeps.refl _).persist_eq hy
      exact ⟨v.failed, hfail.keeps hk, rfl, rfl, fun _ => hgone mgr y (Or.inl (.refl mgr)) hp id _
        ((hadm _).trans hk.toAdmits) hcase, fun _ => rfl⟩
    · next y hy =>
      have hk := (Keeps.refl _).persist_eq hy
      split
      · next z hz =>
        have hk' := hk.persist_eq hz
        exact ⟨v.failed, hfail.keeps hk', rfl, rfl, fun _ => hgone mgr z (Or.inl (.refl mgr)) hp id _
          ((hadm _).trans hk'.toAdmits) hcase, fun _ => rfl⟩
      · next z hz =>
        have hk' := hk.persist_eq hz
        have hrest := (hfail.keeps hk').restore v.childIds
        refine ⟨v.failed, hrest, rfl, rfl, fun _ => ?_, fun _ => rfl⟩
        -- both commits failed, so there was nothing to remove
        rcases hg with ⟨hf, _⟩ | hg | ⟨_, hf | hf⟩
        · cases hf
        · exact hrest.admits.gone hp hg
        · exact absurd hf (fault_of_persist hy)
        · exact absurd hf (fault_of_persist hz)
  | false =>
    rw [if_neg Bool.false_ne_true]
    have hsucc : mgr.Settles res { v with state := .succeeded, err := none } _ :=
      ((Keeps.refl mgr).settles res).modify fun v => { v with state := .succeeded, err := none }
    split
    · next y hy =>
      have hk := (Keeps.refl _).persist_eq hy
      exact ⟨_, hsucc.keeps hk, rfl, rfl, fun hc => (by cases hc), fun hf => (by cases hf)⟩
    · next y hy =>
      have hk := (Keeps.refl _).persist_eq hy
      have hcase : mgr.gone v ∨ mgr.removable v.childIds := by
        rcases hg with ⟨_, hf⟩ | hg | hg
        · exact absurd hf (fault_of_persist hy)
        · exact Or.inl hg
        · exact Or.inr hg.1
      have hyset := hsucc.keeps hk
      have hx := removeForkChildren_keeps y v.childIds "managed_fork_terminal_persist_failed" readings
      have hfail : mgr.Settles res v.failed _ := (hyset.keeps hx).modify ForkReservation.failed
      have hadm : ∀ x : Manager, Admits [] x (x.failReservation res) := fun x =>
        ⟨le_refl _, fun _ _ => rfl, fun _ hr => Or.inl hr⟩
      have hrem : mgr.removable v.childIds → y.removable v.childIds := by
        intro h
        have hy' : y = ((mgr.modifyReservation res fun v =>
          { v with state := .succeeded, err := none }).persist cfg now fault).1 := by rw [hy]
        rw [hy']
        exact h
      split
      · next z hz =>
        have hk' := (Keeps.refl _).persist_eq hz
        exact ⟨v.failed, hfail.keeps hk', rfl, rfl, fun _ => hgone y z (Or.inr hyset)
          (hyset.admits.placed hp) hrem _ ((hadm _).trans hk'.toAdmits) hcase, fun _ => rfl⟩
      · next z hz =>
        have hk' := (Keeps.refl _).persist_eq hz
        have hrest := (hfail.keeps hk').restore v.childIds
        refine ⟨v.failed, hrest, rfl, rfl, fun _ => ?_, fun _ => rfl⟩
        rcases hg with ⟨_, hf⟩ | hg | ⟨_, hf | hf⟩
        · exact absurd hf (fault_of_persist hy)
        · exact hrest.admits.gone hp hg
        · exact absurd hf (fault_of_persist hy)
        · exact absurd hf (fault_of_persist hz)

/-- The condition on a replay: if it has to clean up, the cleanup can be committed. -/
def Manager.resolves (mgr : Manager) (res : ℕ) (fault : SaveFault) : Prop :=
  (mgr.reservations res).err ≠ none ∨ mgr.batchSound (mgr.reservations res) = true ∨
    mgr.gone (mgr.reservations res) ∨ mgr.removable (mgr.reservations res).childIds ∧ fault = .none

instance (mgr : Manager) (res : ℕ) (fault : SaveFault) : Decidable (mgr.resolves res fault) :=
  inferInstanceAs (Decidable (_ ∨ _ ∨ _ ∨ _))

/-- What a replay answers: something else, the error that is on record, or the end of a cleanup that left
no child. -/
inductive Resolved (mgr : Manager) (res : ℕ) : Manager × ForkAnswer → Prop
  | wait : Resolved mgr res (mgr, .wait)
  | answer (result : Except HostError (List ℕ))
      (h : result = .error .forkBatchCleaned → (mgr.reservations res).cleaned) :
      Resolved mgr res (mgr, .answer result)
  | cleaned (x : Manager) (removed : List ℕ)
      (h : mgr.Settles res { (mgr.reservations res).failed with cleaning := true } x)
      (hgone : x.gone (mgr.reservations res)) : Resolved mgr res (x, .cleaned removed)

theorem forkReservationResult_resolved (hp : mgr.Placed) (cfg : Config) (res : ℕ) (readings : ℕ → Reading) (now : Time)
    (fault : SaveFault) (hg : mgr.resolves res fault) :
    Resolved mgr res (mgr.forkReservationResult cfg res readings now fault) := by
  simp only [forkReservationResult]
  split
  · exact .wait
  · split
    · exact .answer _ fun h => (by cases h)
    · split
      · next e he =>
        refine .answer _ fun h => ?_
        cases h
        exact he
      · next hnone =>
        split
        · split
          · exact .answer _ fun h => (by cases h)
          · exact .answer _ fun h => (by cases h)
        · next hsound =>
          set v := mgr.reservations res with hv
          have hcase : mgr.gone v ∨ mgr.removable v.childIds ∧ fault = .none := by
            rcases hg with hg | hg | hg | hg
            · exact absurd hnone hg
            · exact absurd hg hsound
            · exact Or.inl hg
            · exact Or.inr hg
          have hx := removeForkChildren_keeps mgr v.childIds "managed_fork_incomplete_replay_cleanup"
            readings
          have hset : mgr.Settles res { v.failed with cleaning := true } _ :=
            (((hx.settles res).modify ForkReservation.failed).modify fun v => { v with cleaning := true })
          split
          · next y hy =>
            have hk := (Keeps.refl _).persist_eq hy
            refine .cleaned y _ (hset.keeps hk) ?_
            rcases hcase with hcase | hcase
            · exact (hset.keeps hk).admits.gone hp hcase
            · have hadm : Admits [] (mgr.removeForkChildren v.childIds
                  "managed_fork_incomplete_replay_cleanup" readings).1 y :=
                ⟨hk.objects, hk.ids, hk.refs⟩
              exact hadm.gone (hx.placed hp) (removeForkChildren_removed hp hcase.1 _ readings)
          · next y hy =>
            have hk := (Keeps.refl _).persist_eq hy
            have hrest := (hset.keeps hk).restore v.childIds
            refine .cleaned _ _ hrest ?_
            rcases hcase with hcase | ⟨_, hcase⟩
            · exact hrest.admits.gone hp hcase
            · exact absurd hcase (fault_of_persist hy)

/-- How a fork begins, once it is admitted. -/
inductive Reserved (mgr : Manager) (ids : List String) : Manager × ForkBegin → Prop
  | refused (x : Manager) (e : HostError) (h : Admits ids mgr x) (htable : x.forkTable = mgr.forkTable) :
      Reserved mgr ids (x, .refused e)
  | started (x : Manager) (key : ForkKey) (v : ForkReservation) (source : ℕ) (children : List ℕ)
      (h : Admits ids mgr x)
      (htable : x.forkTable = ⟨Function.update mgr.reservations mgr.nextReservation v,
        mgr.nextReservation + 1, mgr.forkKeys ++ [(key, mgr.nextReservation)]⟩)
      (herr : v.err = none) (hdone : v.done = false) :
      Reserved mgr ids (x, .started mgr.nextReservation source children)
  | cleaned (x : Manager) (key : ForkKey) (v : ForkReservation) (removed : List ℕ) (h : Admits ids mgr x)
      (htable : x.forkTable = ⟨Function.update mgr.reservations mgr.nextReservation v,
        mgr.nextReservation + 1, mgr.forkKeys ++ [(key, mgr.nextReservation)]⟩)
      (hv : v.cleaned) (hdone : v.done = true) (hgone : x.gone v) :
      Reserved mgr ids (x, .cleaned mgr.nextReservation removed)

theorem reserveFork_reserved (hp : mgr.Placed) (hroom : mgr.meteringOutbox.length ≤ maxMeteringOutbox) (cfg : Config)
    (req : ForkRequest) (source : ℕ) (ips : List String) (probe : ForkProbe) (now : Time) (fault fault' : SaveFault)
    (hfree : ∀ id ∈ probe.draws.map (·.id), mgr.registered id = false) :
    Reserved mgr (probe.draws.map (·.id)) (mgr.reserveFork cfg req source ips probe now fault fault') := by
  have hsub : ∀ id ∈ (req.children.zip (ips.zip probe.draws)).map (·.2.2.id),
      id ∈ probe.draws.map (·.id) := by
    intro id hid
    obtain ⟨e, he, rfl⟩ := List.mem_map.mp hid
    exact List.mem_map.mpr ⟨_, (List.of_mem_zip (List.of_mem_zip he).2).2, rfl⟩
  have hc := reserveChildren_reserved cfg (mgr.objects source) (req.children.zip (ips.zip probe.draws)) mgr
  simp only [reserveFork]
  split
  · next x hx =>
    rw [hx] at hc
    exact .refused x _ (hc.admits.mono hsub) hc.table
  · next x children hx =>
    rw [hx] at hc
    have hadm : Admits (probe.draws.map (·.id)) mgr x := hc.admits.mono hsub
    have hnext : x.nextReservation = mgr.nextReservation := congrArg ForkTable.nextReservation hc.table
    have hres : x.reservations = mgr.reservations := congrArg ForkTable.reservations hc.table
    have hkeys : x.forkKeys = mgr.forkKeys := congrArg ForkTable.forkKeys hc.table
    set v : ForkReservation :=
      { sourceId := req.sourceId
        fingerprint := req.fingerprint
        childIds := children.map fun r => (x.objects r).id
        state := .pending
        createdAt := now
        retainUntil := forkRetentionUntil cfg now (req.children.map (·.expiresAt))
        runtimeExpectation := req.expectation } with hv
    rw [hnext]
    set entered : Manager := { x with
      reservations := Function.update x.reservations mgr.nextReservation v
      nextReservation := mgr.nextReservation + 1
      forkKeys := x.forkKeys ++ [(req.key, mgr.nextReservation)] } with hentered
    have henter : Admits (probe.draws.map (·.id)) mgr entered := ⟨hadm.objects, hadm.ids, hadm.refs⟩
    have htable : entered.forkTable = ⟨Function.update mgr.reservations mgr.nextReservation v,
        mgr.nextReservation + 1, mgr.forkKeys ++ [(req.key, mgr.nextReservation)]⟩ := by
      rw [← hres, ← hkeys]
      rfl
    split
    · next y hy =>
      have hk := (Keeps.refl entered).persist_eq hy
      exact .started y req.key v source children (henter.trans (hk.toAdmits.mono (by simp)))
        (hk.table.trans htable) rfl rfl
    · next y hy =>
      have hk := (Keeps.refl entered).persist_eq hy
      have hyp : y.Placed := hk.placed (henter.placed hp)
      -- a child is a new object, and no new object is metered
      have hfresh : ∀ id ∈ v.childIds, ∀ r ∈ y.find id, y.eligible r = false := by
        intro id hid r hr
        obtain ⟨hmem, hrid⟩ := find_some hr
        obtain ⟨c, hcmem, hcid⟩ := List.mem_map.mp hid
        have hdrawn : id ∈ probe.draws.map (·.id) := by
          rw [← hcid]
          exact hsub _ (hc.children c hcmem).2
        have hyx : y.objects = x.objects ∧ y.machines = x.machines := by
          have : y = (entered.persist cfg now fault).1 := by rw [hy]
          rw [this]
          exact ⟨rfl, rfl⟩
        rw [hyx.1] at hrid
        rw [hyx.2] at hmem
        have hmeter : (x.objects r).metering = {} := by
          rcases hadm.refs r hmem with hold | ⟨hle, hlt, _⟩
          · have hnot := hfree id hdrawn
            rw [← Bool.not_eq_true, registered_iff] at hnot
            exact absurd ⟨r, hold, (hadm.ids r (hp r hold)).symm.trans hrid⟩ hnot
          · exact hc.unmetered r hle hlt
        simp only [eligible, hyx.1, hmeter]
        rfl
      have hout : y.meteringOutbox = mgr.meteringOutbox := by
        have : y = (entered.persist cfg now fault).1 := by rw [hy]
        rw [this]
        exact hc.outbox
      have hrem : y.removable v.childIds := by
        refine ⟨?_, fun id hid r hr he => ?_⟩
        · have hzero : y.terminalNeeded v.childIds = 0 := by
            rw [terminalNeeded, List.countP_eq_zero]
            intro id hid
            rw [List.mem_eraseDups] at hid
            cases hf : y.find id with
            | none => simp
            | some r => simp [hfresh id hid r hf]
          rw [hzero, hout]
          exact hroom
        · rw [hfresh id hid r hr] at he
          cases he
      have hkeep := removeForkChildren_keeps y v.childIds "managed_fork_reservation_persist_failed"
        fun _ => ⟨none, none, ""⟩
      set z := (y.removeForkChildren v.childIds "managed_fork_reservation_persist_failed"
        fun _ => ⟨none, none, ""⟩) with hz
      have hzgone : z.1.gone v := removeForkChildren_removed hyp hrem _ _
      set closed := ((z.1.failReservation mgr.nextReservation).modifyReservation mgr.nextReservation
        fun v => { v with done := true }) with hclosed
      have hzt : z.1.forkTable = ⟨Function.update mgr.reservations mgr.nextReservation v,
          mgr.nextReservation + 1, mgr.forkKeys ++ [(req.key, mgr.nextReservation)]⟩ :=
        (hkeep.table.trans hk.table).trans htable
      have hzr : z.1.reservations = Function.update mgr.reservations mgr.nextReservation v :=
        congrArg ForkTable.reservations hzt
      have hct : closed.forkTable = ⟨Function.update mgr.reservations mgr.nextReservation
          { v.failed with done := true }, mgr.nextReservation + 1,
          mgr.forkKeys ++ [(req.key, mgr.nextReservation)]⟩ := by
        have hzn : z.1.nextReservation = mgr.nextReservation + 1 := congrArg ForkTable.nextReservation hzt
        have hzk : z.1.forkKeys = mgr.forkKeys ++ [(req.key, mgr.nextReservation)] :=
          congrArg ForkTable.forkKeys hzt
        rw [hclosed]
        simp only [failReservation, modifyReservation, forkTable, hzr, hzn, hzk, Function.update_self,
          Function.update_idem]
        rfl
      have hclosedAdm : Admits [] z.1 closed := ⟨le_refl _, fun _ _ => rfl, fun _ hr => Or.inl hr⟩
      have hlast := (Keeps.refl closed).persist cfg now fault'
      have hzAdm : Admits (probe.draws.map (·.id)) mgr z.1 :=
        (henter.trans (hk.toAdmits.mono (by simp))).trans (hkeep.toAdmits.mono (by simp))
      refine .cleaned _ req.key { v.failed with done := true } z.2
        (hzAdm.trans ((hclosedAdm.trans hlast.toAdmits).mono (by simp))) (hlast.table.trans hct) rfl rfl ?_
      exact (hclosedAdm.trans hlast.toAdmits).gone (hkeep.placed hyp) hzgone

/-! ### Restart -/

/-- The operation is restored as a cleaned one. -/
def Manager.restoresCleaned (mgr : Manager) (loaded : List PersistedMachine) (op : PersistedForkOperation) :
    Bool :=
  match op.state with
  | .succeeded => !mgr.batchRecovered loaded op
  | .failed => forkFailureFromCode op.failureCode == .forkBatchCleaned
  | .pending => true

/-- The condition on the operations of the document: the children of those that are restored as cleaned
can be removed when their turn comes. -/
def Manager.settles (loaded : List PersistedMachine) (readings : ℕ → Reading) :
    Manager → List PersistedForkOperation → Prop
  | _, [] => True
  | mgr, op :: rest =>
    (mgr.restoresCleaned loaded op = true →
      (∀ id ∈ op.childIds, mgr.registered id = false) ∨ mgr.removable op.childIds) ∧
    settles loaded readings (mgr.settleOperation loaded readings op).1 rest

instance Manager.settlesDecidable (loaded : List PersistedMachine) (readings : ℕ → Reading) :
    (mgr : Manager) → (ops : List PersistedForkOperation) → Decidable (settles loaded readings mgr ops)
  | _, [] => .isTrue trivial
  | mgr, op :: rest =>
    have := settlesDecidable loaded readings (mgr.settleOperation loaded readings op).1 rest
    inferInstanceAs (Decidable ((_ → _ ∨ _) ∧ _))

theorem enterReservation_swept (hs : mgr.Swept) (h : mgr.Keeps x) (key : ForkKey) (v : ForkReservation)
    (hv : v.cleaned → x.gone v) : (x.enterReservation key v).Swept := by
  have hx := hs.keeps h
  have hadm : Admits [] x (x.enterReservation key v) := ⟨le_refl _, fun _ _ => rfl, fun _ hr => Or.inl hr⟩
  refine hx.enter hadm (fun _ hid => (List.not_mem_nil hid).elim) (v := v) rfl rfl (fun e he => ?_) hv
  rcases List.mem_append.mp he with he | he
  · exact Or.inl (List.mem_of_mem_filter he)
  · exact Or.inr (by rw [List.mem_singleton.mp he])

theorem settleOperation_swept (hs : mgr.Swept) (loaded : List PersistedMachine) (readings : ℕ → Reading)
    (op : PersistedForkOperation)
    (hg : mgr.restoresCleaned loaded op = true →
      (∀ id ∈ op.childIds, mgr.registered id = false) ∨ mgr.removable op.childIds) :
    (mgr.settleOperation loaded readings op).1.Swept := by
  have hremoved : ∀ reason, (∀ id ∈ op.childIds, mgr.registered id = false) ∨ mgr.removable op.childIds →
      ∀ id ∈ op.childIds, (mgr.removeForkChildren op.childIds reason readings).1.registered id = false := by
    intro reason hcase id hid
    rcases hcase with hcase | hcase
    · exact (removeForkChildren_keeps mgr op.childIds reason readings).registered hs.placed (hcase id hid)
        List.not_mem_nil
    · exact removeForkChildren_removed hs.placed hcase reason readings id hid
  simp only [settleOperation]
  cases hstate : op.state with
  | succeeded =>
    simp only [restoresCleaned, hstate] at hg
    by_cases hb : mgr.batchRecovered loaded op = true
    · simp only [hb, if_true]
      exact enterReservation_swept hs (.refl mgr) op.key _ fun hc => (by cases hc)
    · simp only [hb, Bool.false_eq_true, if_false]
      refine enterReservation_swept hs (removeForkChildren_keeps mgr _ _ _) op.key _ fun _ => ?_
      exact hremoved _ (hg (by simpa using hb))
  | failed =>
    refine enterReservation_swept hs (removeForkChildren_keeps mgr _ _ _) op.key _ fun hc => ?_
    refine hremoved _ (hg ?_)
    have hcode : forkFailureFromCode op.failureCode = .forkBatchCleaned := Option.some.inj hc
    simp only [restoresCleaned, hstate, hcode, beq_self_eq_true]
  | pending =>
    refine enterReservation_swept hs (removeForkChildren_keeps mgr _ _ _) op.key _ fun _ => ?_
    exact hremoved _ (hg (by simp only [restoresCleaned, hstate]))

theorem settleOperations_swept (loaded : List PersistedMachine) (readings : ℕ → Reading)
    (ops : List PersistedForkOperation) : ∀ mgr : Manager, mgr.Swept → settles loaded readings mgr ops →
    (settleOperations loaded readings mgr ops).1.Swept := by
  induction ops with
  | nil => exact fun _ hs _ => hs
  | cons op rest ih =>
    intro mgr hs hg
    exact ih _ (settleOperation_swept hs loaded readings op hg.1) hg.2

/-! ### Tasks -/

/-- The call still works on its reservation. -/
def ForkPc.working : ForkPc → Bool
  | .checking .. | .booting .. | .awaiting .. | .rolling .. | .ending .. | .closing .. => true
  | .resolving | .cleaning | .returned .. => false

/-- The call answers `ErrForkBatchCleaned`, or is about to. -/
def ForkPc.answersCleaned : ForkPc → Bool
  | .closing false | .cleaning | .returned (.error .forkBatchCleaned) => true
  | _ => false

/-- A task agrees with its reservation: `done` is closed after the work and before a cleaned answer, and
that answer is on record. -/
structure ForkPc.Agrees (pc : ForkPc) (v : ForkReservation) : Prop where
  working : pc.working = true → v.done = false
  closed : pc.answersCleaned = true → pc.working = false → v.done = true
  cleaned : pc.answersCleaned = true → v.cleaned

/-- The process has no reservation yet. -/
def Phase.early : Phase → Bool
  | .down | .reconciling .. => true
  | _ => false

/-- The invariant. -/
structure Daemon.Cleaned (d : Daemon) : Prop where
  swept : d.manager.Swept
  tasks : ∀ t ∈ d.forks, t.res < d.manager.nextReservation
  agrees : ∀ t ∈ d.forks, t.pc.Agrees (d.manager.reservations t.res)
  apart : ∀ (i j : ℕ) (ti tj : ForkTask), d.forks[i]? = some ti → d.forks[j]? = some tj → i ≠ j →
    ti.pc.working = true → tj.pc.working = true → ti.res ≠ tj.res
  early : d.phase.early = true → d.manager.nextReservation = 0

/-- The condition on a task that ends its run. -/
def ForkTask.finishes (t : ForkTask) (mgr : Manager) (fault fault' : SaveFault) : Prop :=
  match t.pc with
  | .ending failed => mgr.finishes t.res failed fault fault'
  | _ => True

instance (t : ForkTask) (mgr : Manager) (fault fault' : SaveFault) :
    Decidable (t.finishes mgr fault fault') := by
  unfold ForkTask.finishes
  split <;> infer_instance

/-- The condition on a step: a cleanup finds room for the final observations and one of its commits
succeeds, or it has nothing to remove, and no new machine draws the id of a cleaned child. -/
def CleanupCommits (d : Daemon) (a : Act) (_ : Daemon) : Prop :=
  match a with
  | .createReserve _ draw .. => d.manager.idUnused draw.id
  | .forkBegin _ probe .. => ∀ id ∈ probe.draws.map (·.id), d.manager.idUnused id
  | .forkFinish i _ _ fault fault' => ∀ t ∈ d.forks[i]?, t.finishes d.manager fault fault'
  | .forkResult i _ _ fault => ∀ t ∈ d.forks[i]?, d.manager.resolves t.res fault
  | .reconcileForks readings =>
    match d.phase with
    | .reconciling loaded _ operations _ _ => settles loaded readings d.manager operations
    | _ => True
  | _ => True

instance (d : Daemon) (a : Act) (d' : Daemon) : Decidable (CleanupCommits d a d') := by
  apply Act.casesOn (motive := fun a => Decidable (CleanupCommits d a d')) a <;> intros
    <;> dsimp only [CleanupCommits] <;> try infer_instance
  apply Phase.casesOn (motive := fun phase => Decidable (match phase with
    | .reconciling loaded _ operations _ _ => settles loaded _ d.manager operations
    | _ => True)) d.phase <;> intros <;> dsimp only <;> infer_instance

/-! ### Steps -/

theorem getElem?_concat {l : List ForkTask} {t t' : ForkTask} {j : ℕ} (h : (l ++ [t])[j]? = some t') :
    l[j]? = some t' ∨ j = l.length ∧ t' = t := by
  rcases lt_or_ge j l.length with hlt | hge
  · rw [List.getElem?_append_left hlt] at h
    exact Or.inl h
  · rw [List.getElem?_append_right hge, List.getElem?_singleton] at h
    split at h
    · next hz => exact Or.inr ⟨by omega, (Option.some.inj h).symm⟩
    · cases h

section Steps

variable {d d' : Daemon} (h : d.Cleaned)

include h

/-- A section that admits new machines. -/
theorem cleaned_admits {new : List String} (hm : Admits new d.manager d'.manager)
    (htable : d'.manager.forkTable = d.manager.forkTable) (hnew : ∀ id ∈ new, d.manager.idUnused id)
    (hforks : d'.forks = d.forks) (hphase : d'.phase.early = true → d.phase.early = true) : d'.Cleaned := by
  have hres : d'.manager.reservations = d.manager.reservations := congrArg ForkTable.reservations htable
  have hnext : d'.manager.nextReservation = d.manager.nextReservation :=
    congrArg ForkTable.nextReservation htable
  refine ⟨h.swept.admits hm htable hnew, ?_, ?_, ?_, fun hp => hnext.trans (h.early (hphase hp))⟩
  · rw [hforks, hnext]
    exact h.tasks
  · rw [hforks, hres]
    exact h.agrees
  · rw [hforks]
    exact h.apart

/-- A section that keeps the registry and the reservations. -/
theorem cleaned_keeps (hm : d.manager.Keeps d'.manager) (hforks : d'.forks = d.forks)
    (hphase : d'.phase.early = true → d.phase.early = true) : d'.Cleaned :=
  cleaned_admits h hm.toAdmits hm.table (fun _ hid => (List.not_mem_nil hid).elim) hforks hphase

variable {t : ForkTask}

/-- A section of one task: its reservation may change, in a way that agrees with its next state, and the
other tasks do not see the change. -/
theorem cleaned_task {i : ℕ} {pc : ForkPc} {v : ForkReservation} (hi : d.forks[i]? = some t)
    (hm : d.manager.Settles t.res v d'.manager) (hforks : d'.forks = d.forks.set i { t with pc := pc })
    (hphase : d'.phase = d.phase) (hgone : v.cleaned → d'.manager.gone v) (hpc : pc.Agrees v)
    (hwork : pc.working = true → t.pc.working = true)
    (hothers : ∀ (j : ℕ) (t' : ForkTask), d.forks[j]? = some t' → j ≠ i → t'.res = t.res →
      t'.pc.Agrees v) :
    d'.Cleaned := by
  have hnext : d'.manager.nextReservation = d.manager.nextReservation :=
    congrArg ForkTable.nextReservation hm.table
  have hres : d'.manager.reservations = Function.update d.manager.reservations t.res v :=
    congrArg ForkTable.reservations hm.table
  -- a task of the new list is the changed one, or an old one at another place
  have hget : ∀ (j : ℕ) (t' : ForkTask), d'.forks[j]? = some t' →
      j = i ∧ t' = { t with pc := pc } ∨ j ≠ i ∧ d.forks[j]? = some t' := by
    intro j t' hj
    rw [hforks, List.getElem?_set] at hj
    by_cases hij : i = j
    · subst hij
      rw [if_pos rfl] at hj
      split at hj
      · exact Or.inl ⟨rfl, (Option.some.inj hj).symm⟩
      · cases hj
    · rw [if_neg hij] at hj
      exact Or.inr ⟨fun h => hij h.symm, hj⟩
  refine ⟨h.swept.settles hm hgone, fun t' ht' => ?_, fun t' ht' => ?_, ?_, fun hp => ?_⟩
  · obtain ⟨j, hj⟩ := List.mem_iff_getElem?.mp ht'
    rw [hnext]
    rcases hget j t' hj with ⟨_, rfl⟩ | ⟨_, hj⟩
    · exact h.tasks t (List.mem_of_getElem? hi)
    · exact h.tasks t' (List.mem_of_getElem? hj)
  · obtain ⟨j, hj⟩ := List.mem_iff_getElem?.mp ht'
    rw [hres]
    rcases hget j t' hj with ⟨_, rfl⟩ | ⟨hne, hj⟩
    · rw [Function.update_self]
      exact hpc
    · by_cases hsame : t'.res = t.res
      · rw [hsame, Function.update_self]
        exact hothers j t' hj hne hsame
      · rw [Function.update_of_ne hsame]
        exact h.agrees t' (List.mem_of_getElem? hj)
  · intro j k tj tk hj hk hjk hwj hwk
    rcases hget j tj hj with ⟨hji, rfl⟩ | ⟨hji, hj⟩ <;> rcases hget k tk hk with ⟨hki, rfl⟩ | ⟨hki, hk⟩
    · exact absurd (hji.trans hki.symm) hjk
    · exact h.apart i k t tk hi hk (fun h => hki h.symm) (hwork hwj) hwk
    · exact h.apart j i tj t hj hi hji hwj (hwork hwk)
    · exact h.apart j k tj tk hj hk hjk hwj hwk
  · rw [hphase] at hp
    exact hnext.trans (h.early hp)

/-- A task moves on and its reservation stays. -/
theorem cleaned_moved {i : ℕ} {pc : ForkPc} (hi : d.forks[i]? = some t) (hm : d.manager.Keeps d'.manager)
    (hforks : d'.forks = d.forks.set i { t with pc := pc }) (hphase : d'.phase = d.phase)
    (hpc : pc.Agrees (d.manager.reservations t.res)) (hwork : pc.working = true → t.pc.working = true) :
    d'.Cleaned := by
  have hlt := h.tasks t (List.mem_of_getElem? hi)
  refine cleaned_task h hi (hm.settles t.res) hforks hphase (fun hc => ?_) hpc hwork fun j t' hj _ hsame => ?_
  · exact hm.toAdmits.gone h.swept.placed (h.swept.swept t.res hlt hc)
  · rw [← hsame]
    exact h.agrees t' (List.mem_of_getElem? hj)

/-- A task that works does not share its reservation with another that works, or with one that has
answered. -/
theorem others_idle {i j : ℕ} {t' : ForkTask} (hi : d.forks[i]? = some t) (hj : d.forks[j]? = some t') (hne : j ≠ i)
    (hsame : t'.res = t.res) (hwork : t.pc.working = true) :
    t'.pc.working = false ∧ t'.pc.answersCleaned = false := by
  have hdone := (h.agrees t (List.mem_of_getElem? hi)).working hwork
  have hidle : t'.pc.working = false := by
    rw [← Bool.not_eq_true]
    exact fun hw => h.apart j i t' t hj hi hne hw hwork hsame
  refine ⟨hidle, ?_⟩
  rw [← Bool.not_eq_true]
  intro ha
  have hclosed := (h.agrees t' (List.mem_of_getElem? hj)).closed ha hidle
  rw [hsame, hdone] at hclosed
  cases hclosed

/-- A new task on a reservation that is already there. -/
theorem cleaned_joined (hm : d.manager.Keeps d'.manager) (hforks : d'.forks = d.forks ++ [t])
    (hphase : d'.phase = d.phase) (hlt : t.res < d.manager.nextReservation) (hwork : t.pc.working = false)
    (hans : t.pc.answersCleaned = false) : d'.Cleaned := by
  have hnext : d'.manager.nextReservation = d.manager.nextReservation :=
    congrArg ForkTable.nextReservation hm.table
  have hres : d'.manager.reservations = d.manager.reservations := congrArg ForkTable.reservations hm.table
  have hpc : ∀ v, t.pc.Agrees v := fun v =>
    ⟨fun hw => absurd hw (by simp [hwork]), fun ha => absurd ha (by simp [hans]),
      fun ha => absurd ha (by simp [hans])⟩
  refine ⟨h.swept.keeps hm, fun t' ht' => ?_, fun t' ht' => ?_, ?_, fun hp => ?_⟩
  · rw [hnext]
    rw [hforks] at ht'
    rcases List.mem_append.mp ht' with ht' | ht'
    · exact h.tasks t' ht'
    · exact (List.mem_singleton.mp ht') ▸ hlt
  · rw [hres]
    rw [hforks] at ht'
    rcases List.mem_append.mp ht' with ht' | ht'
    · exact h.agrees t' ht'
    · exact (List.mem_singleton.mp ht') ▸ hpc _
  · intro j k tj tk hj hk hjk hwj hwk
    have hold : ∀ (j : ℕ) (tj : ForkTask), d'.forks[j]? = some tj → tj.pc.working = true →
        d.forks[j]? = some tj := by
      intro j tj hj hw
      rw [hforks] at hj
      rcases getElem?_concat hj with hj | ⟨_, rfl⟩
      · exact hj
      · rw [hwork] at hw
        cases hw
    exact h.apart j k tj tk (hold j tj hj hwj) (hold k tk hk hwk) hjk hwj hwk
  · rw [hphase] at hp
    exact hnext.trans (h.early hp)

/-- A new task on a new reservation. -/
theorem cleaned_entered {v : ForkReservation} {new : List String} {key : ForkKey} (hm : Admits new d.manager d'.manager)
    (hnew : ∀ id ∈ new, d.manager.idUnused id)
    (hkeys : d'.manager.forkKeys = d.manager.forkKeys ++ [(key, d.manager.nextReservation)])
    (hres : d'.manager.reservations = Function.update d.manager.reservations d.manager.nextReservation v)
    (hnext : d'.manager.nextReservation = d.manager.nextReservation + 1) (hforks : d'.forks = d.forks ++ [t])
    (hphase : d'.phase.early = false) (ht : t.res = d.manager.nextReservation) (hgone : v.cleaned → d'.manager.gone v)
    (hpc : t.pc.Agrees v) : d'.Cleaned := by
  refine ⟨h.swept.enter hm hnew hres hnext (fun e he => ?_) hgone, fun t' ht' => ?_, fun t' ht' => ?_, ?_,
    fun hp => ?_⟩
  · rw [hkeys] at he
    rcases List.mem_append.mp he with he | he
    · exact Or.inl he
    · exact Or.inr (by rw [List.mem_singleton.mp he])
  · rw [hforks] at ht'
    rw [hnext]
    rcases List.mem_append.mp ht' with ht' | ht'
    · exact Nat.lt_succ_of_lt (h.tasks t' ht')
    · rw [List.mem_singleton.mp ht', ht]
      exact Nat.lt_succ_self _
  · rw [hforks] at ht'
    rw [hres]
    rcases List.mem_append.mp ht' with ht' | ht'
    · rw [Function.update_of_ne (h.tasks t' ht').ne]
      exact h.agrees t' ht'
    · rw [List.mem_singleton.mp ht', ht, Function.update_self]
      exact hpc
  · intro j k tj tk hj hk hjk hwj hwk
    rw [hforks] at hj hk
    rcases getElem?_concat hj with hj' | ⟨hjl, hjt⟩ <;> rcases getElem?_concat hk with hk' | ⟨hkl, hkt⟩
    · exact h.apart j k tj tk hj' hk' hjk hwj hwk
    · rw [hkt, ht]
      exact (h.tasks tj (List.mem_of_getElem? hj')).ne
    · rw [hjt, ht]
      exact (h.tasks tk (List.mem_of_getElem? hk')).ne'
    · exact absurd (hjl.trans hkl.symm) hjk
  · rw [hphase] at hp
    cases hp

end Steps

/-! ### Every step -/

theorem prune_swept (hs : mgr.Swept) (now : Time) : (mgr.pruneForkReservations now).Swept :=
  ⟨hs.placed, fun e he => hs.keys e (List.mem_of_mem_filter he), hs.swept⟩

/-- The process is over. -/
theorem exit_cleaned (d : Daemon) : d.exit.Cleaned := by
  refine ⟨⟨fun r hr => (List.not_mem_nil hr).elim, fun e he => (List.not_mem_nil he).elim,
    fun res hlt => absurd hlt (Nat.not_lt_zero res)⟩, fun t ht => (List.not_mem_nil ht).elim,
    fun t ht => (List.not_mem_nil ht).elim, fun i j ti tj hi => ?_, fun _ => rfl⟩
  cases hi

theorem forks_nil_of_early (h : d.Cleaned) (hp : d.phase.early = true) : d.forks = [] := by
  rw [List.eq_nil_iff_forall_not_mem]
  intro t ht
  have hlt := h.tasks t ht
  rw [h.early hp] at hlt
  exact Nat.not_lt_zero _ hlt

theorem start_cleaned (h : d.Cleaned) (hp : d.phase = .down) (cfg : Config) (bootId : Option String)
    (available : JailerIdentity → Bool) (now : Time) (fault : SaveFault) :
    (d.start cfg bootId available now fault).Cleaned := by
  have hnone : d.forks = [] := forks_nil_of_early h (by rw [hp]; rfl)
  have hfresh : ∀ d' : Daemon, d'.forks = [] → d'.manager.machines = [] → d'.manager.forkKeys = [] →
      d'.manager.nextReservation = 0 → d'.Cleaned := by
    intro d' hforks hmach hkeys hnext
    refine ⟨⟨fun r hr => ?_, fun e he => ?_, fun res hlt => ?_⟩, fun t ht => ?_, fun t ht => ?_,
      fun i j ti tj hi => ?_, fun _ => hnext⟩
    · rw [hmach] at hr
      exact (List.not_mem_nil hr).elim
    · rw [hkeys] at he
      exact (List.not_mem_nil he).elim
    · rw [hnext] at hlt
      exact absurd hlt (Nat.not_lt_zero res)
    · rw [hforks] at ht
      exact (List.not_mem_nil ht).elim
    · rw [hforks] at ht
      exact (List.not_mem_nil ht).elim
    · rw [hforks] at hi
      cases hi
  simp only [Daemon.start]
  split
  · exact hfresh _ hnone rfl rfl rfl
  · split
    · next x hx =>
      exact hfresh _ hnone (congrArg (fun y => y.1.machines) hx).symm
        (congrArg (fun y => y.1.forkKeys) hx).symm (congrArg (fun y => y.1.nextReservation) hx).symm
    · exact exit_cleaned _

theorem finalizePersistedMachine_keeps (mgr : Manager) (doc : MachineStateSnapshot) (index : ℕ)
    (p : PersistedMachine) (reason : HostUsageObservationQualityReason) (updatedAt : String) (now : Time)
    (fault : SaveFault) :
    mgr.Keeps (mgr.finalizePersistedMachine doc index p reason updatedAt now fault).1 := by
  simp only [finalizePersistedMachine]
  split
  · exact .refl mgr
  · split
    · exact .of_same rfl rfl (fun _ => rfl) rfl
    · split
      · exact .refl mgr
      · have hsave : ∀ doc' : MachineStateSnapshot,
            mgr.Keeps (mgr.saveRecoverySnapshot doc' now fault).1 := by
          intro doc'
          simp only [saveRecoverySnapshot, saved]
          split <;> next x hx =>
            obtain ⟨rfl, -⟩ := Prod.mk.inj hx
            exact .of_same rfl rfl (fun _ => rfl) rfl
        split
        · next x doc'' hx =>
          obtain rfl : _ = x := congrArg Prod.fst hx
          exact (hsave _).withOutbox _
        · next x doc'' hx =>
          obtain rfl : _ = x := congrArg Prod.fst hx
          exact hsave _

/-- A machine of the document enters the registry. -/
theorem reattach_admits (mgr : Manager) (p : PersistedMachine) (reading : Reading) :
    Admits [p.id] mgr (mgr.reattach p reading).1 ∧ (mgr.reattach p reading).1.forkTable = mgr.forkTable := by
  set placed := mgr.allocate (mgr.reattached p) with hplaced
  have hadm : Admits [p.id] mgr placed.1 := allocate_admits mgr (mgr.reattached p)
  have hlog : placed.1.Keeps (placed.1.transition placed.2 (some p.status) .starting "daemon_reattached") :=
    (Keeps.refl _).transition _ _ _ _
  have hdone : ∀ x : Manager, placed.1.Keeps x → Admits [p.id] mgr x ∧ x.forkTable = mgr.forkTable :=
    fun x hx => ⟨hadm.trans (hx.toAdmits.mono (by simp)), hx.table⟩
  simp only [reattach]
  by_cases hstart : p.metering.sequence = 0 ∧ p.leaseId ≠ ""
  · have hmeter := hlog.recordMeterStart placed.2 reading
    simp only [if_pos hstart]
    split
    · exact hdone _ (hmeter.unregister p.id)
    · split
      · exact hdone _ hmeter
      · exact hdone _ (hmeter.trans (.of_same rfl rfl (fun _ => rfl) rfl))
  · simp only [if_neg hstart, Bool.not_true, Bool.false_eq_true, if_false]
    split
    · exact hdone _ hlog
    · exact hdone _ (hlog.trans (.of_same rfl rfl (fun _ => rfl) rfl))

/-- The old reservations are pruned. -/
theorem pruned_cleaned (h : d.Cleaned) (now : Time) : (d.withManager (d.manager.pruneForkReservations now)).Cleaned :=
  ⟨prune_swept h.swept now, h.tasks, h.agrees, h.apart, h.early⟩

theorem newIdFree_registered (h : mgr.newIdFree id = true) : mgr.registered id = false := by
  simp only [newIdFree, Bool.and_eq_true, Bool.not_eq_true'] at h
  exact h.1.2

/-- How a fork begins. -/
theorem beginFork_reserved (hp : mgr.Placed) (cfg : Config) {req : ForkRequest} {probe : ForkProbe}
    (hdraws : ForkDraws mgr req probe) (now : Time) (fault fault' : SaveFault) :
    (∃ e x, (x = mgr ∨ x = mgr.pruneForkReservations now) ∧
      mgr.beginFork cfg req probe now fault fault' = (x, .refused e)) ∨
    (∃ res, mgr.forkKeys.lookup req.key = some res ∧
      mgr.beginFork cfg req probe now fault fault' = (mgr, .replay res)) ∨
    Reserved (mgr.pruneForkReservations now) (probe.draws.map (·.id))
      (mgr.beginFork cfg req probe now fault fault') := by
  obtain hr | hr | ⟨source, ips, _, _, hcan, _, _, _, heq⟩ :=
    beginFork_cases mgr cfg req probe now fault fault'
  · exact Or.inl hr
  · exact Or.inr (Or.inl hr)
  · refine Or.inr (Or.inr ?_)
    rw [heq]
    have hroom : mgr.meteringOutbox.length ≤ maxMeteringOutbox := by
      simp only [meteringCanReserve, Bool.and_eq_true, decide_eq_true_eq] at hcan
      have : meteringAdmissionLimit ≤ maxMeteringOutbox := Nat.sub_le _ _
      omega
    have hpruned : (mgr.pruneForkReservations now).Placed := hp
    exact reserveFork_reserved hpruned hroom cfg req source ips probe now fault fault' fun id hid =>
      newIdFree_registered (hdraws.free id hid)

theorem lookup_mem {keys : List (ForkKey × ℕ)} {key : ForkKey} (h : keys.lookup key = some res) :
    ∃ e ∈ keys, e.2 = res := by
  induction keys with
  | nil => cases h
  | cons e rest ih =>
    rw [List.lookup_cons] at h
    split at h
    · exact ⟨e, List.mem_cons_self, Option.some.inj h⟩
    · obtain ⟨e', he', hres⟩ := ih h
      exact ⟨e', List.mem_cons_of_mem _ he', hres⟩

/-- A task that works goes on to work. -/
theorem agrees_working {pc : ForkPc} (hdone : v.done = false) (hans : pc.answersCleaned = false) : pc.Agrees v :=
  ⟨fun _ => hdone, fun ha => absurd ha (by simp [hans]), fun ha => absurd ha (by simp [hans])⟩

/-- A task that neither works nor has answered agrees with anything. -/
theorem agrees_idle {pc : ForkPc} (v : ForkReservation) (hwork : pc.working = false)
    (hans : pc.answersCleaned = false) : pc.Agrees v :=
  ⟨fun hw => absurd hw (by simp [hwork]), fun ha => absurd ha (by simp [hans]),
    fun ha => absurd ha (by simp [hans])⟩

theorem cleaned_step {cfg : Config} {d' : Daemon} {a : Act} (h : d.Cleaned) (hstep : DaemonStep cfg d a d')
    (hg : CleanupCommits d a d') : d'.Cleaned := by
  cases Daemon.stepped hstep with
  | boot bootId available now fault hp => exact start_cleaned h hp cfg bootId available now fault
  | crash hp => exact exit_cleaned d
  | ready id now fault hp => exact cleaned_keeps h (becomeReady_keeps _ cfg id now fault) rfl fun h => h
  | reap id reading now fault hp =>
    have hk := reap_keeps d.manager cfg id reading now fault
    generalize d.manager.reap cfg id reading now fault = x at hk
    obtain ⟨m, stop⟩ := x
    cases stop <;> exact cleaned_keeps h hk rfl fun h => h
  | teardown i r verified now fault hp hr =>
    exact cleaned_keeps h (releaseAfterTeardown_keeps _ cfg _ _ verified now fault) rfl fun h => h
  | destroy id reading now fault hp =>
    have hk := destroy_keeps d.manager cfg id reading now fault
    generalize d.manager.destroy cfg id reading now fault = x at hk
    obtain ⟨m, stop⟩ := x
    cases stop <;> exact cleaned_keeps h hk rfl fun h => h
  | extend id leaseId key target now fault hp =>
    exact cleaned_keeps h (extend_keeps _ cfg id leaseId key target now fault) rfl fun h => h
  | checkpoint order readings now fault hp hperm =>
    exact cleaned_keeps h (checkpoint_keeps _ cfg order readings now fault) rfl fun h => h
  | acknowledge sent receipts now fault hp =>
    exact cleaned_keeps h (acknowledge_keeps _ cfg sent receipts now fault) rfl fun h => h
  | persist now fault hp => exact cleaned_keeps h ((Keeps.refl _).persist cfg now fault) rfl fun h => h
  | health network cohort hp => exact cleaned_keeps h (.of_same rfl rfl (fun _ => rfl) rfl) rfl fun h => h
  | createBegin req m hp hm => exact cleaned_keeps h (beginCreate_keeps _ hm) rfl fun h => h
  | createReserved i draw refusal memory now fault task m r hp hi hpc hid hm =>
    have hr := reserveCreate_admits d.manager cfg task.req draw refusal memory now fault
    rw [hm] at hr
    exact cleaned_admits h hr.1 hr.2 (fun id hid => List.mem_singleton.mp hid ▸ hg) rfl fun h => h
  | createRefused i draw refusal memory now fault task m e hp hi hpc hid hm =>
    have hr := reserveCreate_admits d.manager cfg task.req draw refusal memory now fault
    rw [hm] at hr
    exact cleaned_admits h hr.1 hr.2 (fun id hid => List.mem_singleton.mp hid ▸ hg) rfl fun h => h
  | createAbandon i reason now fault task r hp hi hpc =>
    exact cleaned_keeps h (abandonCreate_keeps _ cfg r reason now fault) rfl fun h => h
  | createPublish i driver overlayMb reading now fault fault' task r m ok hp hi hpc hm =>
    have hk := publishCreate_keeps d.manager cfg r driver overlayMb reading now fault fault'
    rw [hm] at hk
    exact cleaned_keeps h hk rfl fun h => h
  | createEnd i task id hp hi => exact cleaned_keeps h (endCreate_keeps _ _ id) rfl fun h => h
  | forkRefused req probe now fault fault' m e hp hdraws hm =>
    obtain ⟨_, x, hx, heq⟩ | ⟨_, _, heq⟩ | hr :=
      beginFork_reserved h.swept.placed cfg hdraws now fault fault'
    · rw [hm] at heq
      cases heq
      rcases hx with rfl | rfl
      · exact h
      · exact pruned_cleaned h now
    · rw [hm] at heq
      cases heq
    · rw [hm] at hr
      cases hr with
      | refused _ _ hadm htable => exact cleaned_admits (pruned_cleaned h now) hadm htable hg rfl fun h => h
  | forkReplay req probe now fault fault' m res hp hdraws hm =>
    obtain ⟨_, x, hx, heq⟩ | ⟨res', hkey, heq⟩ | hr :=
      beginFork_reserved h.swept.placed cfg hdraws now fault fault'
    · rw [hm] at heq
      cases heq
    · rw [hm] at heq
      cases heq
      obtain ⟨e, he, hres⟩ := lookup_mem hkey
      exact cleaned_joined h (.refl _) rfl rfl (hres ▸ h.swept.keys e he) rfl rfl
    · rw [hm] at hr
      cases hr
  | forkStarted req probe now fault fault' m res source children hp hdraws hm =>
    obtain ⟨_, x, hx, heq⟩ | ⟨_, _, heq⟩ | hr :=
      beginFork_reserved h.swept.placed cfg hdraws now fault fault'
    · rw [hm] at heq
      cases heq
    · rw [hm] at heq
      cases heq
    · rw [hm] at hr
      cases hr with
      | started _ key v _ _ hadm htable herr hdone =>
        refine cleaned_entered (pruned_cleaned h now) hadm hg (congrArg ForkTable.forkKeys htable)
          (congrArg ForkTable.reservations htable) (congrArg ForkTable.nextReservation htable) rfl ?_ rfl
          (fun hc => ?_) (agrees_working hdone rfl)
        · show d.phase.early = false
          rw [hp]
          rfl
        · rw [ForkReservation.cleaned, herr] at hc
          cases hc
  | forkUnsaved req probe now fault fault' m res removed hp hdraws hm =>
    obtain ⟨_, x, hx, heq⟩ | ⟨_, _, heq⟩ | hr :=
      beginFork_reserved h.swept.placed cfg hdraws now fault fault'
    · rw [hm] at heq
      cases heq
    · rw [hm] at heq
      cases heq
    · rw [hm] at hr
      cases hr with
      | cleaned _ key v _ hadm htable hv hdone hgone =>
        refine cleaned_entered (pruned_cleaned h now) hadm hg (congrArg ForkTable.forkKeys htable)
          (congrArg ForkTable.reservations htable) (congrArg ForkTable.nextReservation htable) rfl ?_ rfl
          (fun _ => hgone) ⟨fun hw => (by cases hw), fun _ _ => hdone, fun _ => hv⟩
        · show d.phase.early = false
          rw [hp]
          rfl
  | forkMoved _ i task pc hp hi hpc =>
    have hshape : task.pc.working = true ∧ pc.working = true ∧ pc.answersCleaned = false := by
      rcases hpc with ⟨_, _, _, ht, rfl | rfl⟩ | ⟨_, _, ht, rfl⟩ | ⟨_, ht, rfl | ⟨rfl, _⟩⟩ <;>
        exact ⟨by rw [ht]; rfl, rfl, rfl⟩
    exact cleaned_moved h hi (.refl _) rfl rfl (agrees_working
      ((h.agrees task (List.mem_of_getElem? hi)).working hshape.1) hshape.2.2) fun _ => hshape.1
  | forkPublish i driver reading now fault task children next r m ok hp hi hpc hr hm =>
    have hk := publishChild_keeps d.manager cfg r driver reading now fault
    rw [hm] at hk
    have hwork : task.pc.working = true := by
      rw [hpc]
      rfl
    refine cleaned_moved h hi hk rfl rfl (agrees_working
      ((h.agrees task (List.mem_of_getElem? hi)).working hwork) ?_) fun _ => hwork
    split
    · split <;> rfl
    · rfl
  | forkRollback i readings now fault task children hp hi hpc =>
    have hk := rollbackForkChildren_keeps d.manager cfg children readings now fault
    have hwork : task.pc.working = true := by
      rw [hpc]
      rfl
    exact cleaned_moved h hi hk rfl rfl (agrees_working
      ((h.agrees task (List.mem_of_getElem? hi)).working hwork) rfl) fun _ => hwork
  | forkFinish i readings now fault fault' task failed m e hp hi hpc hm =>
    have hwork : task.pc.working = true := by
      rw [hpc]
      rfl
    have hfin : d.manager.finishes task.res failed fault fault' := by
      have hf := hg task hi
      simp only [ForkTask.finishes, hpc] at hf
      exact hf
    obtain ⟨v, hset, _, hdone, hgone, hclean⟩ :=
      finishFork_settles h.swept.placed cfg task.res failed readings now fault fault' hfin
    rw [hm] at hset hgone hclean
    have hopen := (h.agrees task (List.mem_of_getElem? hi)).working hwork
    refine cleaned_task h hi hset rfl rfl hgone ⟨fun _ => hdone.trans hopen, fun _ hw => (by cases hw),
      fun ha => hclean ?_⟩ (fun _ => hwork) fun j t' hj hne hsame => ?_
    · cases hs : e.succeeded with
      | true =>
        rw [hs] at ha
        cases ha
      | false => rfl
    · obtain ⟨hw, ha⟩ := others_idle h hi hj hne hsame hwork
      exact agrees_idle v hw ha
  | forkClose i task succeeded hp hi hpc =>
    have hwork : task.pc.working = true := by
      rw [hpc]
      rfl
    have hset := ((Keeps.refl d.manager).settles task.res).modify fun v => { v with done := true }
    have hlt := h.tasks task (List.mem_of_getElem? hi)
    refine cleaned_task h hi hset rfl rfl (fun hc => ?_) ?_ (fun hw => ?_) fun j t' hj hne hsame => ?_
    · exact hset.admits.gone h.swept.placed (h.swept.swept task.res hlt hc)
    · cases succeeded with
      | true => exact agrees_idle _ rfl rfl
      | false =>
        refine ⟨fun hw => (by cases hw), fun _ _ => rfl, fun _ => ?_⟩
        exact (h.agrees task (List.mem_of_getElem? hi)).cleaned (by rw [hpc]; rfl)
    · exact hwork
    · obtain ⟨hw, ha⟩ := others_idle h hi hj hne hsame hwork
      exact agrees_idle _ hw ha
  | forkAnswered i readings now fault task m result hp hi hpc hdone hm =>
    have hr := forkReservationResult_resolved h.swept.placed cfg task.res readings now fault (hg task hi)
    rw [hm] at hr
    cases hr with
    | answer _ hclean =>
      refine cleaned_moved h hi (.refl _) rfl rfl ⟨fun hw => (by cases hw), fun _ _ => hdone, fun ha =>
        hclean ?_⟩ fun hw => (by cases hw)
      cases result with
      | ok _ => cases ha
      | error e =>
        cases e <;> first
          | rfl
          | cases ha
  | forkCleaning i readings now fault task m removed hp hi hpc hdone hm =>
    have hr := forkReservationResult_resolved h.swept.placed cfg task.res readings now fault (hg task hi)
    rw [hm] at hr
    cases hr with
    | cleaned _ _ hset hgone =>
      refine cleaned_task h hi hset rfl rfl (fun _ => hgone) ⟨fun hw => (by cases hw), fun _ _ => hdone,
        fun _ => rfl⟩ (fun hw => (by cases hw)) fun j t' hj _ hsame => ?_
      have ha := h.agrees t' (List.mem_of_getElem? hj)
      rw [hsame] at ha
      exact ⟨ha.working, ha.closed, fun _ => rfl⟩
  | forkCleaned i task hp hi hpc =>
    have hset := ((Keeps.refl d.manager).settles task.res).modify fun v => { v with cleaning := false }
    have hlt := h.tasks task (List.mem_of_getElem? hi)
    have ha := h.agrees task (List.mem_of_getElem? hi)
    refine cleaned_task h hi hset rfl rfl (fun hc => ?_) ⟨fun hw => (by cases hw), fun _ _ => ?_,
      fun _ => ?_⟩ (fun hw => (by cases hw)) fun j t' hj _ hsame => ?_
    · exact hset.admits.gone h.swept.placed (h.swept.swept task.res hlt hc)
    · exact ha.closed (by rw [hpc]; rfl) (by rw [hpc]; rfl)
    · exact ha.cleaned (by rw [hpc]; rfl)
    · have ha' := h.agrees t' (List.mem_of_getElem? hj)
      rw [hsame] at ha'
      exact ⟨ha'.working, ha'.closed, ha'.cleaned⟩
  | reconcileNext loaded doc operations index started p probe reading updatedAt now fault hp hi =>
    have hnone : ∀ id, d.manager.idUnused id := by
      intro id res hlt
      rw [h.early (by rw [hp]; rfl)] at hlt
      exact absurd hlt (Nat.not_lt_zero res)
    have hearly : d.phase.early = true := by
      rw [hp]
      rfl
    simp only [Daemon.reconcileMachine]
    split
    · next reason _ =>
      have hk := finalizePersistedMachine_keeps d.manager
        { doc with machines := doc.machines.set index (upgraded p) } index (upgraded p) reason updatedAt now
        fault
      split
      · next x doc' heq =>
        rw [heq] at hk
        exact cleaned_keeps h (hk.logTransition _ _ _ _ _) rfl fun _ => hearly
      · exact exit_cleaned _
    · have hr := reattach_admits d.manager (upgraded p) reading
      split
      · next x heq =>
        rw [heq] at hr
        exact cleaned_admits h hr.1 hr.2 (fun id _ => hnone id) rfl fun _ => hearly
      · exact exit_cleaned _
  | reconcileForks loaded doc operations index started readings hp hi =>
    have hnil := forks_nil_of_early h (by rw [hp]; rfl)
    have hsettles : settles loaded readings d.manager operations := by
      simp only [CleanupCommits, hp] at hg
      exact hg
    refine ⟨settleOperations_swept loaded readings operations d.manager h.swept hsettles,
      fun t ht => ?_, fun t ht => ?_, fun i j ti tj hi => ?_, fun he => (by cases he)⟩
    · exact (List.not_mem_nil (hnil ▸ ht)).elim
    · exact (List.not_mem_nil (hnil ▸ ht)).elim
    · have hi' : d.forks[i]? = some ti := hi
      rw [hnil] at hi'
      cases hi'
  | reconcileCommit now fault m ok hp hm =>
    cases ok with
    | true => exact cleaned_keeps h ((Keeps.refl _).persist_eq hm) rfl fun he => (by cases he)
    | false => exact exit_cleaned _
  | releaseHeld id verified now fault hp hid =>
    exact cleaned_keeps h (releaseAfterTeardown_keeps _ cfg id _ verified now fault) rfl fun h => h
  | serve hp => exact cleaned_keeps h (.refl _) rfl fun h => (by cases h)

/-- **Fork-cleaned means cleaned.**  From a host that finds any document, or none, along every run whose
cleanups can be committed: no child of a fork that returned `ErrForkBatchCleaned` is registered. -/
theorem forks_cleaned (cfg : Config) (doc : Option MachineStateSnapshot) (acts : List Act) (d : Daemon)
    (hrun : RunIn (DaemonStep cfg) CleanupCommits (Daemon.found doc) acts d) :
    ∀ t ∈ d.forks, t.pc = .returned (.error .forkBatchCleaned) →
      ∀ id ∈ (d.manager.reservations t.res).childIds, d.manager.registered id = false := by
  have h0 : (Daemon.found doc).Cleaned := exit_cleaned (Daemon.found doc)
  have h := hrun.invariant (fun _ _ _ h hs hg => cleaned_step h hs hg) h0
  intro t ht hpc
  have hclean := (h.agrees t ht).cleaned (by rw [hpc]; rfl)
  exact h.swept.swept t.res (h.tasks t ht) hclean

namespace Sample

/-- The child of a fork does not become ready, and the fork ends. -/
def failedFork (fault fault' : SaveFault) : List Act :=
  firstBoot ++ create 0 ++ fork ++
    [.forkAwaited 0 false,
     .forkRollback 0 (fun _ => reading 3) 0 fault,
     .forkFinish 0 (fun _ => reading 3) 0 fault fault',
     .forkClose 0]

/-- The fork answered `ErrForkBatchCleaned` and its child has this place in the registry. -/
def answered (d : Daemon) (present : Bool) : Prop :=
  d.forks.map (·.pc) = [.returned (.error .forkBatchCleaned)] ∧
    (d.manager.reservations 0).childIds = [hostMachineId 1] ∧
    d.manager.registered (hostMachineId 1) = present

instance (d : Daemon) (present : Bool) : Decidable (answered d present) :=
  inferInstanceAs (Decidable (_ ∧ _ ∧ _))

end Sample

/-- The retry of the terminal commit succeeds. -/
theorem forks_cleaned_retry : ∃ d, Run (DaemonStep Sample.config) (Daemon.found none)
    (Sample.failedFork .beforeRename .none) d ∧ Sample.answered d false ∧
      ∀ t ∈ d.forks, t.pc = .returned (.error .forkBatchCleaned) →
        ∀ id ∈ (d.manager.reservations t.res).childIds, d.manager.registered id = false := by
  have h : ((Daemon.found none).runsIn Sample.config CleanupCommits
      (Sample.failedFork .beforeRename .none)).any (fun d => decide (Sample.answered d false)) = true := by
    decide +kernel
  obtain ⟨d, hrun, hd⟩ := Daemon.runsIn_test Sample.config h
  exact ⟨d, hrun.run, hd, forks_cleaned Sample.config none _ d hrun⟩

/-- Both terminal commits fail: the child is registered after the answer. -/
theorem cleaned_fork_survives : ∃ d, Run (DaemonStep Sample.config) (Daemon.found none)
    (Sample.failedFork .beforeRename .beforeRename) d ∧
      ∃ t ∈ d.forks, t.pc = .returned (.error .forkBatchCleaned) ∧
        ∃ id ∈ (d.manager.reservations t.res).childIds, d.manager.registered id = true := by
  have h : ((Daemon.found none).runsIn Sample.config Unguarded
      (Sample.failedFork .beforeRename .beforeRename)).any (fun d => decide
        (∃ t ∈ d.forks, t.pc = .returned (.error .forkBatchCleaned) ∧
          ∃ id ∈ (d.manager.reservations t.res).childIds, d.manager.registered id = true)) = true := by
    decide +kernel
  obtain ⟨d, hrun, hd⟩ := Daemon.runsIn_test Sample.config h
  exact ⟨d, hrun.run, hd⟩

end Nehemiah.Host
