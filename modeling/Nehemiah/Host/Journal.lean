import Nehemiah.Lib.Cursor
import Nehemiah.Host.Outbox

/-!
# The log of transitions

Every operation records the transitions of its machines in a log that keeps the last 1024, under numbers that
count up; `EventsAfter` serves the entries after a cursor.  When the cleanup of a fork cannot be saved,
`restoreForkCleanup` cuts the log back to its old length and puts the counter back.  That is an undo as long as
nothing was trimmed meanwhile: after a trim the old length no longer names the old position.

* `transitions_cursor`: in every run whose rollbacks trim nothing, the numbers in the log increase, a number
  belongs to one transition, and a client that polls with the last number it saw receives each transition at
  most once and, while it stays within the log, every one.
* `rollback_reuses_number`: a rollback over a full log leaves a transition that did not happen, and the next
  one gets its number.
-/

namespace Nehemiah.Host

open Billing Manager Lib

/-- `EventsAfter`. -/
def Manager.eventsAfter (mgr : Manager) (sequence : ℕ) : List Transition :=
  mgr.transitions.filter fun event => decide (sequence < event.sequence)

/-! ### The log with its counter -/

structure Journal where
  events : List Transition
  next : ℕ

def Manager.journal (mgr : Manager) : Journal := ⟨mgr.transitions, mgr.nextTransition⟩

/-- Transitions are recorded, one after the other. -/
inductive Journal.Grows (j : Journal) : ℕ → Journal → Prop
  | none : Grows j 0 j
  | record {k : ℕ} {x : Journal} (h : Grows j k x) (e : Transition) (he : e.sequence = x.next + 1) :
      Grows j (k + 1) ⟨trimmed (x.events ++ [e]), x.next + 1⟩

/-- The numbers increase, up to the counter. -/
structure Journal.Ordered (j : Journal) : Prop where
  increasing : Increasing Transition.sequence j.events
  bound : ∀ e ∈ j.events, e.sequence ≤ j.next

theorem trimmed_suffix (l : List Transition) : trimmed l <:+ l := by
  unfold trimmed
  exact List.drop_suffix _ l

theorem trimmed_of_le {l : List Transition} (h : l.length ≤ 1024) : trimmed l = l := by
  unfold trimmed
  rw [Nat.sub_eq_zero_of_le h, List.drop_zero]

theorem trimmed_ne_nil {l : List Transition} (h : l ≠ []) : trimmed l ≠ [] := by
  have hpos : 0 < l.length := List.length_pos_iff.mpr h
  unfold trimmed
  intro hnil
  have hlen := congrArg List.length hnil
  rw [List.length_drop, List.length_nil] at hlen
  omega

namespace Journal.Grows

variable {j x y : Journal} {k k' : ℕ}

theorem ordered (h : j.Grows k x) (hj : j.Ordered) : x.Ordered := by
  induction h with
  | none => exact hj
  | @record k x _ e he ih =>
    have hinc : Increasing Transition.sequence (x.events ++ [e]) :=
      increasing_concat.mpr ⟨ih.increasing, fun a ha => by have := ih.bound a ha; omega⟩
    refine ⟨hinc.sublist (trimmed_suffix _).sublist, fun a ha => ?_⟩
    rcases List.mem_append.mp ((trimmed_suffix _).mem ha) with ha | ha
    · exact (ih.bound a ha).trans (Nat.le_succ _)
    · rw [List.mem_singleton.mp ha]
      exact he.le

/-- **While the log has room it only grows at its end.** -/
theorem untrimmed (h : j.Grows k x) (hfits : j.events.length + k ≤ 1024) :
    j.events <+: x.events ∧ x.events.length = j.events.length + k := by
  induction h with
  | none => exact ⟨List.prefix_refl _, rfl⟩
  | @record k x _ e _ ih =>
    obtain ⟨hbegins, hlength⟩ := ih (by omega)
    have hroom : (x.events ++ [e]).length ≤ 1024 := by
      rw [List.length_append, List.length_singleton]
      omega
    refine ⟨?_, ?_⟩
    · show j.events <+: trimmed (x.events ++ [e])
      rw [trimmed_of_le hroom]
      exact hbegins.trans (List.prefix_append _ _)
    · show (trimmed (x.events ++ [e])).length = _
      rw [trimmed_of_le hroom, List.length_append, List.length_singleton]
      omega

/-- The log stays the last part of all that was recorded. -/
theorem retained (h : j.Grows k x) {full : List Transition}
    (hr : Retained Transition.sequence full j.events) (hle : ∀ e ∈ full, e.sequence ≤ j.next) :
    ∃ new, Retained Transition.sequence (full ++ new) x.events ∧ (∀ e ∈ full ++ new, e.sequence ≤ x.next) ∧
      ∀ e ∈ new, j.next < e.sequence := by
  have hnext : ∀ {k : ℕ} {x : Journal}, j.Grows k x → j.next ≤ x.next := by
    intro k x h
    induction h with
    | none => exact le_refl _
    | record _ _ _ ih => exact ih.trans (Nat.le_succ _)
  induction h with
  | none =>
    refine ⟨[], ?_, ?_, fun _ he => (List.not_mem_nil he).elim⟩
    · rwa [List.append_nil]
    · rwa [List.append_nil]
  | @record k x hx e he ih =>
    obtain ⟨new, hr', hle', hnew⟩ := ih
    refine ⟨new ++ [e], ?_, fun a ha => ?_, fun a ha => ?_⟩
    · rw [← List.append_assoc]
      refine hr'.push (fun a ha => ?_) (trimmed_suffix _) (trimmed_ne_nil (List.concat_ne_nil _ _))
      have := hle' a ha
      omega
    · rw [← List.append_assoc] at ha
      rcases List.mem_append.mp ha with ha | ha
      · exact (hle' a ha).trans (Nat.le_succ _)
      · rw [List.mem_singleton.mp ha]
        exact he.le
    · rcases List.mem_append.mp ha with ha | ha
      · exact hnew a ha
      · rw [List.mem_singleton.mp ha, he]
        exact Nat.lt_succ_of_le (hnext hx)

end Journal.Grows

/-! ### What a section records -/

/-- From `mgr` a section has recorded `k` transitions; the file is as before, or it holds the log of some
point of the section. -/
structure Manager.Logs (mgr : Manager) (k : ℕ) (x : Manager) : Prop where
  journal : mgr.journal.Grows k x.journal
  disk : ∀ s, x.store.disk = some s →
    mgr.store.disk = some s ∨ ∃ i j, mgr.journal.Grows i j ∧ s.transitions = j.events

section Frames

variable (mgr : Manager)

theorem sample_journal (r : ℕ) (terminal : Bool) (reading : Reading) :
    (mgr.sample r terminal reading).1.journal = mgr.journal := by
  have h := sample_sampled mgr r terminal reading
  generalize mgr.sample r terminal reading = x at h ⊢
  cases h <;> rfl

theorem recordMeterStart_journal (r : ℕ) (reading : Reading) :
    (mgr.recordMeterStart r reading).1.journal = mgr.journal := by
  have h := recordMeterStart_started mgr r reading
  generalize mgr.recordMeterStart r reading = x at h ⊢
  cases h <;> rfl

theorem sampleAll_journal (readings : ℕ → Reading) (order : List ℕ) : ∀ mgr : Manager,
    (sampleAll readings mgr order).1.journal = mgr.journal := by
  induction order with
  | nil => exact fun _ => rfl
  | cons r rest ih =>
    intro mgr
    have hs := sample_journal mgr r false (readings r)
    simp only [sampleAll]
    split
    · next x heq =>
      rw [heq] at hs
      exact hs
    · next x heq =>
      rw [heq] at hs
      exact (ih x).trans hs

theorem save_disk (s : StateStore) (snapshot : MachineStateSnapshot) (fault : SaveFault) :
    (s.save snapshot fault).1.disk = s.disk ∨ (s.save snapshot fault).1.disk = some snapshot := by
  unfold StateStore.save
  split
  · exact Or.inl rfl
  · cases fault with
    | none => exact Or.inr rfl
    | beforeRename => exact Or.inl rfl
    | afterRename => exact Or.inr rfl

end Frames

namespace Manager.Logs

variable {mgr x y : Manager} {k : ℕ} {cfg : Config} {now : Time} {fault : SaveFault}

theorem refl (mgr : Manager) : mgr.Logs 0 mgr := ⟨.none, fun _ hs => Or.inl hs⟩

theorem frame (h : mgr.Logs k x) (hj : y.journal = x.journal) (hs : y.store = x.store) : mgr.Logs k y :=
  ⟨hj ▸ h.journal, fun s hd => h.disk s (hs ▸ hd)⟩

theorem logTransition (h : mgr.Logs k x) (id leaseId : String) (source : Option MachineStatus)
    (target : MachineStatus) (reason : String) :
    mgr.Logs (k + 1) (x.logTransition id leaseId source target reason) :=
  ⟨h.journal.record _ rfl, h.disk⟩

theorem transition (h : mgr.Logs k x) (r : ℕ) (source : Option MachineStatus) (target : MachineStatus)
    (reason : String) : mgr.Logs (k + 1) (x.transition r source target reason) :=
  h.logTransition _ _ _ _ _

theorem commit (h : mgr.Logs k x) (cfg : Config) (now : Time) (fault : SaveFault) :
    mgr.Logs k (x.persist cfg now fault).1 := by
  refine ⟨h.journal, fun s hs => ?_⟩
  rcases save_disk x.store (x.snapshot cfg (nextGeneration x.stateGeneration) now) fault with hd | hd
  · exact h.disk s (hd ▸ hs)
  · have heq : some (x.snapshot cfg (nextGeneration x.stateGeneration) now) = some s := hd ▸ hs
    refine Or.inr ⟨k, x.journal, h.journal, ?_⟩
    rw [← Option.some.inj heq]
    rfl

theorem commit_eq {ok : Bool} (h : mgr.Logs k x) (heq : x.persist cfg now fault = (y, ok)) : mgr.Logs k y := by
  have hc := h.commit cfg now fault
  rwa [heq] at hc

theorem sample {r : ℕ} {terminal ok : Bool} {reading : Reading} (h : mgr.Logs k x)
    (heq : x.sample r terminal reading = (y, ok)) : mgr.Logs k y := by
  have hj := sample_journal x r terminal reading
  have hc := sample_commits x r terminal reading
  rw [heq] at hj hc
  exact h.frame hj (congrArg Commits.store hc)

theorem meter {r : ℕ} {ok : Bool} {reading : Reading} (h : mgr.Logs k x)
    (heq : x.recordMeterStart r reading = (y, ok)) : mgr.Logs k y := by
  have hj := recordMeterStart_journal x r reading
  have hc := recordMeterStart_commits x r reading
  rw [heq] at hj hc
  exact h.frame hj (congrArg Commits.store hc)

theorem sampleAll (h : mgr.Logs k x) (readings : ℕ → Reading) (order : List ℕ) :
    mgr.Logs k (sampleAll readings x order).1 :=
  h.frame (sampleAll_journal readings order x) (congrArg Commits.store (sampleAll_commits readings order x))

/-- **A rollback that trims nothing puts the log back.** -/
theorem restored (h : mgr.Logs k x) (hfits : mgr.transitions.length + k ≤ 1024) (ids : List String) :
    mgr.Logs 0 (x.restoreForkCleanup (mgr.captureForkCleanup ids)) := by
  have hfold : ∀ (es : List (ℕ × MachineStatus × MachineMeteringState)) (y : Manager),
      (es.foldl restoreMachine y).transitions = y.transitions := by
    intro es
    induction es with
    | nil => exact fun _ => rfl
    | cons e es ih => exact fun y => ih (y.restoreMachine e)
  have hstore : (x.restoreForkCleanup (mgr.captureForkCleanup ids)).store = x.store :=
    congrArg Commits.store (restoreForkCleanup_commits x _)
  have hjournal : (x.restoreForkCleanup (mgr.captureForkCleanup ids)).journal = mgr.journal := by
    have hbegins : mgr.transitions <+: x.transitions := (h.journal.untrimmed hfits).1
    have htake : ((mgr.captureForkCleanup ids).machines.foldl restoreMachine x).transitions.take
        mgr.transitions.length = mgr.transitions := by
      rw [hfold]
      exact (List.prefix_iff_eq_take.mp hbegins).symm
    exact congrArg (fun l => (⟨l, mgr.nextTransition⟩ : Journal)) htake
  exact ⟨hjournal ▸ .none, fun s hs => h.disk s (hstore ▸ hs)⟩

end Manager.Logs

/-! ### Cleanups -/

/-- The transitions that a cleanup of these children records: one for each that is registered, when the outbox
has room for their final observations. -/
def Manager.cleanupRecords (mgr : Manager) (ids : List String) : ℕ :=
  if maxMeteringOutbox < mgr.meteringOutbox.length + mgr.terminalNeeded ids then 0
  else ids.eraseDups.countP mgr.registered

/-- The log has room for the transitions of a cleanup, so that none is trimmed. -/
def Manager.cleanupFits (mgr : Manager) (ids : List String) : Bool :=
  decide (mgr.transitions.length + mgr.cleanupRecords ids ≤ 1024)

section Cleanup

variable {mgr x : Manager} {k : ℕ}

theorem removeChildren_logs (reason : String) (readings : ℕ → Reading) (ids : List String) :
    ∀ (x : Manager) (k : ℕ), mgr.Logs k x →
      mgr.Logs (k + (removeChildren reason readings x ids).2.length) (removeChildren reason readings x ids).1 := by
  induction ids with
  | nil => exact fun _ _ h => h
  | cons id rest ih =>
    intro x k h
    simp only [removeChildren]
    split
    · exact ih x k h
    · next r _ =>
      split
      · next y heq => exact ih _ k ((h.sample heq).frame rfl rfl)
      · next y heq =>
        have hy : mgr.Logs (k + 1) ((y.unregister id).transition r (some (y.objects r).status) .failed reason) :=
          ((h.sample heq).frame (y := y.unregister id) rfl rfl).transition r _ _ _
        have hrest := ih _ (k + 1) hy
        rw [List.length_cons]
        rwa [Nat.add_right_comm] at hrest

/-- Each removal takes a machine that was registered at the start. -/
theorem removeChildren_count (reason : String) (readings : ℕ → Reading) (ids : List String) :
    ∀ x : Manager, (removeChildren reason readings x ids).2.length ≤ ids.countP x.registered := by
  induction ids with
  | nil => exact fun _ => le_refl 0
  | cons id rest ih =>
    intro x
    simp only [removeChildren]
    split
    · next hnone =>
      rw [List.countP_cons_of_neg (by rw [find_none hnone]; exact Bool.false_ne_true)]
      exact ih x
    · next r hr =>
      have hreg : x.registered id = true := by rw [registered, hr]; rfl
      rw [List.countP_cons_of_pos hreg]
      split
      · next y heq =>
        refine (ih _).trans ((List.countP_mono_left fun id' _ hid' => ?_).trans (Nat.le_succ _))
        have hfind := sample_find heq id'
        simp only [registered] at hid' ⊢
        rw [← hfind]
        exact hid'
      · next y heq =>
        refine Nat.succ_le_succ ((ih _).trans (List.countP_mono_left fun id' _ hid' => ?_))
        have hgone : (y.unregister id).registered id' = true := hid'
        rw [registered, find_unregister] at hgone
        split at hgone
        · cases hgone
        · rw [registered, ← sample_find heq id']
          exact hgone

theorem Manager.Logs.removeForkChildren (h : mgr.Logs k x) (ids : List String) (reason : String)
    (readings : ℕ → Reading) :
    ∃ i ≤ x.cleanupRecords ids, mgr.Logs (k + i) (x.removeForkChildren ids reason readings).1 := by
  simp only [Manager.removeForkChildren, Manager.cleanupRecords]
  split
  · exact ⟨0, le_refl 0, h.frame rfl rfl⟩
  · exact ⟨_, removeChildren_count reason readings _ x, removeChildren_logs reason readings _ x k h⟩

end Cleanup

/-! ### Sections -/

section Sections

variable {mgr : Manager} (cfg : Config)

theorem becomeReady_logs (id : String) (now : Time) (fault : SaveFault) :
    ∃ k, mgr.Logs k (mgr.becomeReady cfg id now fault) := by
  simp only [becomeReady]
  split
  · exact ⟨0, .refl mgr⟩
  · next r _ =>
    split
    · exact ⟨0, .refl mgr⟩
    · have hmarked : mgr.Logs 0 (mgr.modifyMachine r fun m => { m with ready := true, status := .running }) :=
        (Logs.refl mgr).frame rfl rfl
      exact ⟨1, (hmarked.transition r _ _ _).commit cfg now fault⟩

theorem extend_logs (id leaseId key : String) (target now : Time) (fault : SaveFault) :
    ∃ k, mgr.Logs k (mgr.extend cfg id leaseId key target now fault).1 := by
  obtain ⟨e, heq⟩ | ⟨r, _, _, _, heq⟩ | ⟨r, _, _, _, heq⟩ := extend_cases mgr cfg id leaseId key target now fault
  · rw [heq]
    exact ⟨0, .refl mgr⟩
  · rw [heq]
    exact ⟨0, .refl mgr⟩
  · rw [heq]
    have hextended : mgr.Logs 0 (mgr.modifyMachine r fun m => m.extended key target) :=
      (Logs.refl mgr).frame rfl rfl
    exact ⟨0, hextended.commit cfg now fault⟩

/-- A destroy that is undone leaves its transitions in the log. -/
theorem destroy_logs (id : String) (reading : Reading) (now : Time) (fault : SaveFault) :
    ∃ k, mgr.Logs k (mgr.destroy cfg id reading now fault).1 := by
  simp only [destroy]
  split
  · exact ⟨0, .refl mgr⟩
  · next r _ =>
    have hmarked : mgr.Logs 0 (mgr.setStatus r .stopping) := (Logs.refl mgr).frame rfl rfl
    have hstop := hmarked.transition r (some (mgr.objects r).status) .stopping "delete_requested"
    split
    · next x heq => exact ⟨1, (hstop.sample heq).frame rfl rfl⟩
    · next x heq =>
      have hgone : mgr.Logs 1 (x.unregister id) := (hstop.sample heq).frame rfl rfl
      have hx := hgone.transition r (some .stopping) .stopped "deleted"
      split
      · next y hy => exact ⟨2, hx.commit_eq hy⟩
      · next y hy =>
        split
        · exact ⟨2, (hx.commit_eq hy).frame rfl rfl⟩
        · exact ⟨2, hx.commit_eq hy⟩

theorem reap_logs (id : String) (reading : Reading) (now : Time) (fault : SaveFault) :
    ∃ k, mgr.Logs k (mgr.reap cfg id reading now fault).1 := by
  simp only [reap]
  split
  · exact ⟨0, .refl mgr⟩
  · next r _ =>
    split
    · next x heq => exact ⟨0, ((Logs.refl mgr).sample heq).frame rfl rfl⟩
    · next x heq =>
      have hgone : mgr.Logs 0 (x.unregister id) := ((Logs.refl mgr).sample heq).frame rfl rfl
      have hx := hgone.transition r (some (mgr.objects r).status) .stopped "ttl_expired"
      split
      · next y hy => exact ⟨1, hx.commit_eq hy⟩
      · next y hy => exact ⟨1, (hx.commit_eq hy).frame rfl rfl⟩

theorem releaseAfterTeardown_logs (id : String) (expected : Option JailerIdentity) (verified : Bool)
    (now : Time) (fault : SaveFault) : ∃ k, mgr.Logs k (mgr.releaseAfterTeardown cfg id expected verified now fault) := by
  simp only [releaseAfterTeardown]
  split
  · exact ⟨0, .refl mgr⟩
  · split
    · exact ⟨0, (Logs.refl mgr).frame rfl rfl⟩
    · have hreleased : mgr.Logs 0 (mgr.releaseIdentity id) := (Logs.refl mgr).frame rfl rfl
      split
      · next y hy => exact ⟨0, hreleased.commit_eq hy⟩
      · next y hy => exact ⟨0, (hreleased.commit_eq hy).frame rfl rfl⟩

theorem checkpoint_logs (order : List ℕ) (readings : ℕ → Reading) (now : Time) (fault : SaveFault) :
    ∃ k, mgr.Logs k (mgr.checkpoint cfg order readings now fault).1 := by
  simp only [checkpoint]
  split
  · exact ⟨0, (Logs.refl mgr).frame rfl rfl⟩
  · split
    · exact ⟨0, .refl mgr⟩
    · have hall := (Logs.refl mgr).sampleAll readings order
      split
      · next x visited heq =>
        rw [heq] at hall
        exact ⟨0, hall.frame rfl rfl⟩
      · next x visited heq =>
        rw [heq] at hall
        split
        · next y hy => exact ⟨0, hall.commit_eq hy⟩
        · next y hy => exact ⟨0, (hall.commit_eq hy).frame rfl rfl⟩

theorem acknowledge_logs (sent : List HostUsageObservation) (receipts : List Receipt) (now : Time)
    (fault : SaveFault) : ∃ k, mgr.Logs k (mgr.acknowledge cfg sent receipts now fault).1 := by
  simp only [acknowledge]
  split
  · exact ⟨0, .refl mgr⟩
  · split
    · exact ⟨0, .refl mgr⟩
    · split
      · exact ⟨0, .refl mgr⟩
      · have hremoved : mgr.Logs 0 { mgr with
            meteringOutbox := mgr.meteringOutbox.drop sent.length
            acknowledged := mgr.acknowledged ++ mgr.meteringOutbox.take sent.length } :=
          (Logs.refl mgr).frame rfl rfl
        split
        · next y hy => exact ⟨0, (hremoved.commit_eq hy).frame rfl rfl⟩
        · next y hy => exact ⟨0, (hremoved.commit_eq hy).frame rfl rfl⟩

theorem reserveCreate_logs (req : CreateRequest) (draw : Draw) (refusal : Option HostError)
    (memory : Bool) (now : Time) (fault : SaveFault) :
    ∃ k, mgr.Logs k (mgr.reserveCreate cfg req draw refusal memory now fault).1 := by
  simp only [reserveCreate]
  split
  · exact ⟨0, .refl mgr⟩
  · split
    · exact ⟨0, .refl mgr⟩
    · split
      · exact ⟨0, .refl mgr⟩
      · split
        · exact ⟨0, .refl mgr⟩
        · split
          · exact ⟨0, .refl mgr⟩
          · split
            · exact ⟨0, .refl mgr⟩
            · next held identity heq =>
              obtain ⟨identities, rfl⟩ := reserveJailerIdentity_same mgr cfg heq
              set placed := Manager.allocate { mgr with jailerIdentities := identities }
                (createdMachine req draw.id identity) with hplaced
              have hlogs : mgr.Logs 0 placed.1 := (Logs.refl mgr).frame rfl rfl
              have hbooting := hlogs.transition placed.2 none .booting "create"
              split
              · next y hy => exact ⟨1, hbooting.commit_eq hy⟩
              · next y hy => exact ⟨1, (hbooting.commit_eq hy).frame rfl rfl⟩

theorem abandonCreate_logs (r : ℕ) (reason : String) (now : Time) (fault : SaveFault) :
    ∃ k, mgr.Logs k (mgr.abandonCreate cfg r reason now fault) := by
  have hgone : mgr.Logs 0 (mgr.unregister (mgr.objects r).id) := (Logs.refl mgr).frame rfl rfl
  exact ⟨1, (hgone.transition r _ _ _).commit cfg now fault⟩

theorem publishCreate_logs (r : ℕ) (driver : Driver) (overlayMb : ℕ) (reading : Reading) (now : Time)
    (fault fault' : SaveFault) :
    ∃ k, mgr.Logs k (mgr.publishCreate cfg r driver overlayMb reading now fault fault').1 := by
  simp only [publishCreate]
  split
  · have hgone : mgr.Logs 0 ((mgr.modifyMachine r fun m => { m with driver := some driver }).unregister
        (mgr.objects r).id) := (Logs.refl mgr).frame rfl rfl
    exact ⟨1, (hgone.transition r _ _ _).commit cfg now fault⟩
  · have hstarted : mgr.Logs 0 (mgr.started r driver overlayMb) := (Logs.refl mgr).frame rfl rfl
    have hrun := hstarted.transition r (some .booting) .starting "vmm_started"
    split
    · next x heq =>
      have hgone : mgr.Logs 1 (x.unregister (mgr.objects r).id) := (hrun.meter heq).frame rfl rfl
      exact ⟨2, (hgone.transition r _ _ _).commit cfg now fault⟩
    · next x heq =>
      have hx := hrun.meter heq
      split
      · next y hy => exact ⟨1, hx.commit_eq hy⟩
      · next y hy =>
        split
        · have hgone : mgr.Logs 1 (Manager.unregister { y.setMetering r {} with
              meteringOutbox := y.meteringOutbox.take mgr.meteringOutbox.length } (mgr.objects r).id) :=
            (hx.commit_eq hy).frame rfl rfl
          exact ⟨2, (hgone.transition r _ _ _).commit cfg now fault'⟩
        · exact ⟨1, hx.commit_eq hy⟩

theorem publishChild_logs (r : ℕ) (driver : Driver) (reading : Reading) (now : Time) (fault : SaveFault) :
    ∃ k, mgr.Logs k (mgr.publishChild cfg r driver reading now fault).1 := by
  simp only [publishChild]
  split
  · exact ⟨0, .refl mgr⟩
  · have hstarted : mgr.Logs 0 (mgr.modifyMachine r fun m =>
        { m with driver := some driver, status := .starting }) := (Logs.refl mgr).frame rfl rfl
    have hrun := hstarted.transition r (some .booting) .starting "managed_fork_vmm_started"
    split
    · next x heq => exact ⟨1, hrun.meter heq⟩
    · next x heq => exact ⟨1, (hrun.meter heq).commit cfg now fault⟩

theorem reserveChildren_logs (source : Machine) (cs : List (ManagedForkChild × String × Draw)) :
    ∀ (x : Manager) (k : ℕ), mgr.Logs k x → ∃ k', mgr.Logs k' (reserveChildren cfg source x cs).1 := by
  induction cs with
  | nil => exact fun x k h => ⟨k, h⟩
  | cons c rest ih =>
    intro x k h
    obtain ⟨c, ip, draw⟩ := c
    simp only [reserveChildren]
    split
    · exact ⟨k, h⟩
    · next held identity heq =>
      obtain ⟨identities, rfl⟩ := reserveJailerIdentity_same x cfg heq
      set placed := Manager.allocate { x with jailerIdentities := identities }
        (forkChild source c draw.id ip identity) with hplaced
      have hlogs : mgr.Logs k placed.1 := h.frame rfl rfl
      obtain ⟨k', hrest⟩ := ih _ (k + 1) (hlogs.transition placed.2 none .booting "managed_fork_reserved")
      split
      · next y refs hy =>
        rw [hy] at hrest
        exact ⟨k', hrest⟩
      · next y hy =>
        rw [hy] at hrest
        exact ⟨k', hrest.frame rfl rfl⟩

theorem reserveFork_logs {x : Manager} (h : mgr.Logs 0 x) (req : ForkRequest) (source : ℕ) (ips : List String)
    (probe : ForkProbe) (now : Time) (fault fault' : SaveFault) :
    ∃ k, mgr.Logs k (x.reserveFork cfg req source ips probe now fault fault').1 := by
  obtain ⟨k, hreserved⟩ := reserveChildren_logs cfg (x.objects source) (req.children.zip (ips.zip probe.draws)) x 0 h
  simp only [reserveFork]
  split
  · next y hy =>
    rw [hy] at hreserved
    exact ⟨k, hreserved⟩
  · next y children hy =>
    rw [hy] at hreserved
    have hentered : ∀ v, mgr.Logs k { y with
        reservations := Function.update y.reservations y.nextReservation v
        nextReservation := y.nextReservation + 1
        forkKeys := y.forkKeys ++ [(req.key, y.nextReservation)] } := fun _ => hreserved.frame rfl rfl
    split
    · next z hz => exact ⟨k, (hentered _).commit_eq hz⟩
    · next z hz =>
      obtain ⟨i, _, hremoved⟩ := ((hentered _).commit_eq hz).removeForkChildren
        (children.map fun r => (y.objects r).id) "managed_fork_reservation_persist_failed" fun _ => ⟨none, none, ""⟩
      have hclosed : mgr.Logs (k + i) (((z.removeForkChildren (children.map fun r => (y.objects r).id)
          "managed_fork_reservation_persist_failed" fun _ => ⟨none, none, ""⟩).1.failReservation
          y.nextReservation).modifyReservation y.nextReservation fun v => { v with done := true }) :=
        hremoved.frame rfl rfl
      exact ⟨k + i, hclosed.commit cfg now fault'⟩

theorem beginFork_logs (req : ForkRequest) (probe : ForkProbe) (now : Time) (fault fault' : SaveFault) :
    ∃ k, mgr.Logs k (mgr.beginFork cfg req probe now fault fault').1 := by
  have hpruned : mgr.Logs 0 (mgr.pruneForkReservations now) := (Logs.refl mgr).frame rfl rfl
  obtain ⟨e, x, hx, heq⟩ | ⟨res, _, heq⟩ | ⟨source, ips, _, _, _, _, _, _, heq⟩ :=
    beginFork_cases mgr cfg req probe now fault fault'
  · rw [heq]
    rcases hx with rfl | rfl
    · exact ⟨0, .refl _⟩
    · exact ⟨0, hpruned⟩
  · rw [heq]
    exact ⟨0, .refl mgr⟩
  · rw [heq]
    exact reserveFork_logs cfg hpruned req source ips probe now fault fault'

theorem settleOperations_logs (loaded : List PersistedMachine) (readings : ℕ → Reading)
    (ops : List PersistedForkOperation) :
    ∀ (x : Manager) (k : ℕ), mgr.Logs k x → ∃ k', mgr.Logs k' (settleOperations loaded readings x ops).1 := by
  have hone : ∀ (x : Manager) (k : ℕ) (op : PersistedForkOperation), mgr.Logs k x →
      ∃ k', mgr.Logs k' (x.settleOperation loaded readings op).1 := by
    intro x k op h
    have hremoved : ∀ reason, ∃ k', mgr.Logs k' (x.removeForkChildren op.childIds reason readings).1 := by
      intro reason
      obtain ⟨i, _, hi⟩ := h.removeForkChildren op.childIds reason readings
      exact ⟨k + i, hi⟩
    simp only [settleOperation]
    split
    · split
      · exact ⟨k, h.frame rfl rfl⟩
      · obtain ⟨k', hk⟩ := hremoved "managed_fork_incomplete_restart_cleanup"
        exact ⟨k', hk.frame rfl rfl⟩
    · obtain ⟨k', hk⟩ := hremoved "managed_fork_failed_restart_cleanup"
      exact ⟨k', hk.frame rfl rfl⟩
    · obtain ⟨k', hk⟩ := hremoved "managed_fork_restart_cleanup"
      exact ⟨k', hk.frame rfl rfl⟩
  induction ops with
  | nil => exact fun x k h => ⟨k, h⟩
  | cons op rest ih =>
    intro x k h
    obtain ⟨k', hk⟩ := hone x k op h
    exact ih _ k' hk

theorem reattach_logs (p : PersistedMachine) (reading : Reading) :
    ∃ k, mgr.Logs k (mgr.reattach p reading).1 := by
  set placed := mgr.allocate (mgr.reattached p) with hplaced
  have hlogs : mgr.Logs 0 placed.1 := (Logs.refl mgr).frame rfl rfl
  have hlogged := hlogs.transition placed.2 (some p.status) .starting "daemon_reattached"
  have hmetered : ∀ x ok, (if p.metering.sequence = 0 ∧ p.leaseId ≠ "" then
      (placed.1.transition placed.2 (some p.status) .starting "daemon_reattached").recordMeterStart placed.2 reading
      else (placed.1.transition placed.2 (some p.status) .starting "daemon_reattached", true)) = (x, ok) →
      mgr.Logs 1 x := by
    intro x ok heq
    split at heq
    · exact hlogged.meter heq
    · cases heq
      exact hlogged
  simp only [reattach]
  rw [← hplaced]
  generalize hm : (if p.metering.sequence = 0 ∧ p.leaseId ≠ "" then
      (placed.1.transition placed.2 (some p.status) .starting "daemon_reattached").recordMeterStart placed.2 reading
      else (placed.1.transition placed.2 (some p.status) .starting "daemon_reattached", true)) = metered
  obtain ⟨x, ok⟩ := metered
  have hx := hmetered x ok hm
  dsimp only
  split
  · exact ⟨1, hx.frame rfl rfl⟩
  · split
    · exact ⟨1, hx⟩
    · exact ⟨1, hx.frame rfl rfl⟩

end Sections

/-! ### Rollbacks -/

/-- The `n`-th save of a section answers `nil`, when those before it have failed. -/
def Manager.commitSucceeds (mgr : Manager) (n : ℕ) (fault : SaveFault) : Bool :=
  mgr.store.answersNil (nextGeneration^[n] mgr.stateGeneration) fault

theorem commitSucceeds_congr {x y : Manager} (h : y.commits = x.commits) (n : ℕ) (fault : SaveFault) :
    y.commitSucceeds n fault = x.commitSucceeds n fault := by
  have hstore : y.store = x.store := congrArg Commits.store h
  have hgen : y.stateGeneration = x.stateGeneration := congrArg Commits.stateGeneration h
  rw [commitSucceeds, commitSucceeds, hstore, hgen]

theorem save_failed {s : StateStore} {snapshot : MachineStateSnapshot} {fault : SaveFault}
    (h : (s.save snapshot fault).2 = false) : (s.save snapshot fault).1.lastSaved = s.lastSaved := by
  unfold StateStore.save at h ⊢
  split
  · rfl
  · cases fault with
    | none =>
      rw [if_neg ‹_›] at h
      cases h
    | beforeRename => rfl
    | afterRename => rfl

/-- A save that fails, and what it leaves for the next one. -/
theorem persist_failed {x y : Manager} {cfg : Config} {now : Time} {fault : SaveFault}
    (heq : x.persist cfg now fault = (y, false)) :
    x.commitSucceeds 1 fault = false ∧ ∀ fault', y.commitSucceeds 1 fault' = x.commitSucceeds 2 fault' := by
  have hsave : (x.store.save (x.snapshot cfg (nextGeneration x.stateGeneration) now) fault).2 = false :=
    congrArg Prod.snd heq
  have hy : y.store = (x.store.save (x.snapshot cfg (nextGeneration x.stateGeneration) now) fault).1 :=
    congrArg (fun p : Manager × Bool => p.1.store) heq.symm
  have hgen : y.stateGeneration = nextGeneration x.stateGeneration :=
    congrArg (fun p : Manager × Bool => p.1.stateGeneration) heq.symm
  refine ⟨?_, fun fault' => ?_⟩
  · rw [save_answersNil] at hsave
    exact hsave
  · have hlast : y.store.lastSaved = x.store.lastSaved := hy ▸ save_failed hsave
    rw [commitSucceeds, commitSucceeds, StateStore.answersNil, StateStore.answersNil, hlast, hgen]
    rfl

/-- A result cleans up the children of an incomplete batch. -/
def Manager.cleansUp (mgr : Manager) (res : ℕ) : Bool :=
  let v := mgr.reservations res
  !v.cleaning && v.state != .pending && v.err.isNone && !mgr.batchSound v

section Rollbacks

variable {mgr : Manager} (cfg : Config)

theorem rollbackForkChildren_logs (children : List ℕ) (readings : ℕ → Reading) (now : Time) (fault : SaveFault)
    (hfits : mgr.commitSucceeds 1 fault = true ∨ mgr.cleanupFits (children.map fun r => (mgr.objects r).id) = true) :
    ∃ k, mgr.Logs k (mgr.rollbackForkChildren cfg children readings now fault).1 := by
  obtain ⟨i, hi, hremoved⟩ := (Logs.refl mgr).removeForkChildren (children.map fun r => (mgr.objects r).id)
    "managed_fork_rollback" readings
  simp only [rollbackForkChildren]
  split
  · next y hy => exact ⟨0 + i, hremoved.commit_eq hy⟩
  · next y hy =>
    have hfailed := (persist_failed hy).1
    rw [commitSucceeds_congr (removeForkChildren_commits mgr _ _ _)] at hfailed
    have hroom := of_decide_eq_true (hfits.resolve_left (by rw [hfailed]; exact Bool.false_ne_true))
    exact ⟨0, (hremoved.commit_eq hy).restored (by omega) _⟩

theorem finishFork_logs (res : ℕ) (failed : Bool) (readings : ℕ → Reading) (now : Time)
    (fault fault' : SaveFault)
    (hfits : mgr.commitSucceeds 1 fault = true ∨ mgr.commitSucceeds 2 fault' = true ∨
      mgr.cleanupFits (mgr.reservations res).childIds = true) :
    ∃ k, mgr.Logs k (mgr.finishFork cfg res failed readings now fault fault').1 := by
  have hlast : mgr.commitSucceeds 1 fault = false → mgr.commitSucceeds 2 fault' = false →
      mgr.transitions.length + mgr.cleanupRecords (mgr.reservations res).childIds ≤ 1024 := by
    intro h1 h2
    rw [h1, h2] at hfits
    exact of_decide_eq_true ((hfits.resolve_left Bool.false_ne_true).resolve_left Bool.false_ne_true)
  simp only [finishFork]
  split
  · obtain ⟨i, hi, hremoved⟩ := (Logs.refl mgr).removeForkChildren (mgr.reservations res).childIds
      "managed_fork_terminal_cleanup" readings
    have hclosed : mgr.Logs (0 + i) ((mgr.removeForkChildren (mgr.reservations res).childIds
        "managed_fork_terminal_cleanup" readings).1.failReservation res) := hremoved.frame rfl rfl
    have hcommits : ((mgr.removeForkChildren (mgr.reservations res).childIds "managed_fork_terminal_cleanup"
        readings).1.failReservation res).commits = mgr.commits := removeForkChildren_commits mgr _ _ _
    split
    · next y hy => exact ⟨0 + i, hclosed.commit_eq hy⟩
    · next y hy =>
      obtain ⟨h1, hsecond⟩ := persist_failed hy
      split
      · next z hz => exact ⟨0 + i, (hclosed.commit_eq hy).commit_eq hz⟩
      · next z hz =>
        have h2 := (persist_failed hz).1
        rw [hsecond, commitSucceeds_congr hcommits] at h2
        rw [commitSucceeds_congr hcommits] at h1
        have hroom := hlast h1 h2
        exact ⟨0, ((hclosed.commit_eq hy).commit_eq hz).restored (by omega) _⟩
  · have hsucceeded : mgr.Logs 0 (mgr.modifyReservation res fun v => { v with state := .succeeded, err := none }) :=
      (Logs.refl mgr).frame rfl rfl
    split
    · next y hy => exact ⟨0, hsucceeded.commit_eq hy⟩
    · next y hy =>
      obtain ⟨h1, hsecond⟩ := persist_failed hy
      obtain ⟨i, hi, hremoved⟩ := (hsucceeded.commit_eq hy).removeForkChildren (mgr.reservations res).childIds
        "managed_fork_terminal_persist_failed" readings
      have hbooks := (persist_books hy).1
      -- the failed save has changed neither the registry nor the outbox
      have hrecords : y.cleanupRecords (mgr.reservations res).childIds
          = mgr.cleanupRecords (mgr.reservations res).childIds := by
        have hmachines : y.machines = mgr.machines := congrArg Books.machines hbooks
        have hobjects : y.objects = mgr.objects := congrArg Books.objects hbooks
        have houtbox : y.meteringOutbox = mgr.meteringOutbox := congrArg Books.meteringOutbox hbooks
        have hfind : y.find = mgr.find := funext fun id => find_congr hmachines (fun r => by rw [hobjects]) id
        have heligible : y.eligible = mgr.eligible := funext fun r => by rw [eligible, eligible, hobjects]
        have hregistered : y.registered = mgr.registered := funext fun id => by rw [registered, registered, hfind]
        simp only [Manager.cleanupRecords, terminalNeeded, hfind, heligible, hregistered, houtbox]
        rfl
      have hclosed : mgr.Logs (0 + i) ((y.removeForkChildren (mgr.reservations res).childIds
          "managed_fork_terminal_persist_failed" readings).1.failReservation res) := hremoved.frame rfl rfl
      split
      · next z hz => exact ⟨0 + i, hclosed.commit_eq hz⟩
      · next z hz =>
        have h2 := (persist_failed hz).1
        have hcommits : ((y.removeForkChildren (mgr.reservations res).childIds
            "managed_fork_terminal_persist_failed" readings).1.failReservation res).commits = y.commits :=
          removeForkChildren_commits y _ _ _
        rw [commitSucceeds_congr hcommits, hsecond] at h2
        have hroom := hlast h1 h2
        exact ⟨0, (hclosed.commit_eq hz).restored (by omega) _⟩

theorem forkReservationResult_logs (res : ℕ) (readings : ℕ → Reading) (now : Time) (fault : SaveFault)
    (hfits : mgr.cleansUp res = true → mgr.commitSucceeds 1 fault = true ∨
      mgr.cleanupFits (mgr.reservations res).childIds = true) :
    ∃ k, mgr.Logs k (mgr.forkReservationResult cfg res readings now fault).1 := by
  simp only [forkReservationResult]
  split
  · exact ⟨0, .refl mgr⟩
  · next hcleaning =>
    split
    · exact ⟨0, .refl mgr⟩
    · next hpending =>
      split
      · exact ⟨0, .refl mgr⟩
      · next herr =>
        split
        · split <;> exact ⟨0, .refl mgr⟩
        · next hsound =>
          have hcleans : mgr.cleansUp res = true := by
            simp only [Manager.cleansUp, herr, Bool.and_eq_true, Bool.not_eq_true', bne_iff_ne]
            exact ⟨⟨⟨Bool.not_eq_true _ |>.mp hcleaning, hpending⟩, rfl⟩, Bool.not_eq_true _ |>.mp hsound⟩
          obtain ⟨i, hi, hremoved⟩ := (Logs.refl mgr).removeForkChildren (mgr.reservations res).childIds
            "managed_fork_incomplete_replay_cleanup" readings
          have hclosed : mgr.Logs (0 + i) (((mgr.removeForkChildren (mgr.reservations res).childIds
              "managed_fork_incomplete_replay_cleanup" readings).1.failReservation res).modifyReservation res
              fun v => { v with cleaning := true }) := hremoved.frame rfl rfl
          split
          · next y hy => exact ⟨0 + i, hclosed.commit_eq hy⟩
          · next y hy =>
            have hfailed := (persist_failed hy).1
            have hcommits : (((mgr.removeForkChildren (mgr.reservations res).childIds
                "managed_fork_incomplete_replay_cleanup" readings).1.failReservation res).modifyReservation res
                fun v => { v with cleaning := true }).commits = mgr.commits := removeForkChildren_commits mgr _ _ _
            rw [commitSucceeds_congr hcommits] at hfailed
            have hroom := of_decide_eq_true
              ((hfits hcleans).resolve_left (by rw [hfailed]; exact Bool.false_ne_true))
            exact ⟨0, (hclosed.commit_eq hy).restored (by omega) _⟩

end Rollbacks

/-! ### Steps -/

/-- The cleanup that a step rolls back, if it does, finds room for its transitions in the log. -/
def rollbackFits (d : Daemon) : Act → Bool
  | .forkRollback i _ _ fault =>
    match d.forks[i]? with
    | some ⟨_, .rolling children⟩ => d.manager.commitSucceeds 1 fault
        || d.manager.cleanupFits (children.map fun r => (d.manager.objects r).id)
    | _ => true
  | .forkFinish i _ _ fault fault' =>
    match d.forks[i]? with
    | some ⟨res, .ending _⟩ => d.manager.commitSucceeds 1 fault || d.manager.commitSucceeds 2 fault'
        || d.manager.cleanupFits (d.manager.reservations res).childIds
    | _ => true
  | .forkResult i _ _ fault =>
    match d.forks[i]? with
    | some ⟨res, .resolving⟩ => !d.manager.cleansUp res || d.manager.commitSucceeds 1 fault
        || d.manager.cleanupFits (d.manager.reservations res).childIds
    | _ => true
  | _ => true

/-- The condition on a step: a cleanup that is rolled back has trimmed nothing. -/
def RollbackFits (d : Daemon) (a : Act) (_ : Daemon) : Prop := rollbackFits d a = true

instance (d : Daemon) (a : Act) (d' : Daemon) : Decidable (RollbackFits d a d') :=
  inferInstanceAs (Decidable (_ = true))

/-- The invariant: the numbers increase, in the log and in the document. -/
structure Daemon.Logged (d : Daemon) : Prop where
  journal : d.manager.journal.Ordered
  disk : ∀ s, d.manager.store.disk = some s → Increasing Transition.sequence s.transitions
  doc : ∀ loaded doc operations index now, d.phase = .reconciling loaded doc operations index now →
    Increasing Transition.sequence doc.transitions

/-- A step keeps the invariant, and while the process runs it only records transitions. -/
structure Daemon.Journals (d d' : Daemon) : Prop where
  logged : d'.Logged
  grows : d.up → d'.up → ∃ k, d.manager.journal.Grows k d'.manager.journal

section Steps

variable {cfg : Config} {d d' : Daemon} {a : Act}

theorem Manager.Logs.disk_increasing {mgr x : Manager} {k : ℕ} (h : mgr.Logs k x) (hj : mgr.journal.Ordered)
    (hd : ∀ s, mgr.store.disk = some s → Increasing Transition.sequence s.transitions) :
    ∀ s, x.store.disk = some s → Increasing Transition.sequence s.transitions := by
  intro s hs
  rcases h.disk s hs with hold | ⟨i, j, hgrows, heq⟩
  · exact hd s hold
  · rw [heq]
    exact (hgrows.ordered hj).increasing

/-- A section of the running process. -/
theorem Daemon.Logged.section (h : d.Logged) (hlogs : ∃ k, d.manager.Logs k d'.manager)
    (hdoc : ∀ loaded doc operations index now, d'.phase = .reconciling loaded doc operations index now →
      Increasing Transition.sequence doc.transitions) : d.Journals d' := by
  obtain ⟨k, hk⟩ := hlogs
  exact ⟨⟨hk.journal.ordered h.journal, hk.disk_increasing h.journal h.disk, hdoc⟩, fun _ _ => ⟨k, hk.journal⟩⟩

/-- The process ends, over a file with an increasing log. -/
theorem exit_journals {x : Daemon}
    (hdisk : ∀ s, x.manager.store.disk = some s → Increasing Transition.sequence s.transitions) :
    d.Journals x.exit := by
  refine ⟨⟨⟨List.Pairwise.nil, fun _ he => (List.not_mem_nil he).elim⟩, hdisk, ?_⟩, fun _ hup => absurd rfl hup⟩
  intro _ _ _ _ _ hp
  cases hp

theorem le_foldl_max (l : List ℕ) : ∀ a, a ≤ l.foldl max a ∧ ∀ n ∈ l, n ≤ l.foldl max a := by
  induction l with
  | nil => exact fun a => ⟨le_refl a, fun _ hn => (List.not_mem_nil hn).elim⟩
  | cons b rest ih =>
    intro a
    obtain ⟨hmax, hrest⟩ := ih (max a b)
    refine ⟨(le_max_left a b).trans hmax, fun n hn => ?_⟩
    rcases List.mem_cons.mp hn with rfl | hn
    · exact (le_max_right a n).trans hmax
    · exact hrest n hn

/-- The counter of a document that is taken over has passed every number in its log. -/
theorem adopt_ordered (mgr : Manager) {doc : MachineStateSnapshot}
    (h : Increasing Transition.sequence doc.transitions) : (mgr.adopt doc).journal.Ordered :=
  ⟨h, fun _ he => (le_foldl_max _ mgr.nextTransition).2 _ (List.mem_map_of_mem he)⟩

theorem start_journals (h : d.Logged) (hp : d.phase = .down) (cfg : Config) (bootId : Option String)
    (available : JailerIdentity → Bool) (now : Time) (fault : SaveFault) :
    d.Journals (d.start cfg bootId available now fault) := by
  have hdown : ∀ {p : Prop}, d.up → p := fun hup => absurd hp hup
  have hload : Increasing Transition.sequence
      (fresh d.manager.store d.manager.saves bootId).store.load.2.transitions := by
    unfold StateStore.load
    split
    · exact List.Pairwise.nil
    · next s hs => exact h.disk s hs
  have hstore : ∀ s, (fresh d.manager.store d.manager.saves bootId).store.load.1.disk = some s →
      Increasing Transition.sequence s.transitions := by
    intro s hs
    refine h.disk s ?_
    unfold StateStore.load at hs
    split at hs <;> exact hs
  simp only [Daemon.start]
  split
  · refine ⟨⟨adopt_ordered _ hload, hstore, ?_⟩, hdown⟩
    intro _ _ _ _ _ hphase
    cases hphase
    exact hload
  · -- an empty document replaces the invalid one
    have hempty : ∀ mgr : Manager, ∀ x ok, recoverInvalid mgr cfg now fault = (x, ok) →
        x.journal.Ordered ∧ ∀ s, x.store.disk = some s → Increasing Transition.sequence s.transitions := by
      intro mgr x ok hx
      have hnil : Journal.Ordered ⟨[], 0⟩ := ⟨List.Pairwise.nil, fun _ he => (List.not_mem_nil he).elim⟩
      have hlogs := (Logs.refl _).commit_eq hx
      exact ⟨hlogs.journal.ordered hnil, hlogs.disk_increasing hnil fun s hs => by cases hs⟩
    split
    · next x hx =>
      obtain ⟨hjournal, hdisk⟩ := hempty _ x true hx
      refine ⟨⟨hjournal, hdisk, ?_⟩, hdown⟩
      intro _ _ _ _ _ hphase
      cases hphase
    · next x hx => exact exit_journals (hempty _ x false hx).2

/-- The recovered final of a machine goes to a document with the log that was loaded. -/
theorem finalizePersistedMachine_logs (mgr : Manager) (doc : MachineStateSnapshot) (index : ℕ) (p : PersistedMachine)
    (reason : HostUsageObservationQualityReason) (updatedAt : String) (now : Time) (fault : SaveFault) :
    let z := mgr.finalizePersistedMachine doc index p reason updatedAt now fault
    z.1.journal = mgr.journal ∧ z.2.1.transitions = doc.transitions ∧
      ∀ s, z.1.store.disk = some s → mgr.store.disk = some s ∨ s.transitions = doc.transitions := by
  simp only [finalizePersistedMachine]
  split
  · exact ⟨rfl, rfl, fun s hs => Or.inl hs⟩
  · split
    · exact ⟨rfl, rfl, fun s hs => Or.inl hs⟩
    · split
      · exact ⟨rfl, rfl, fun s hs => Or.inl hs⟩
      · set doc' : MachineStateSnapshot := { doc with
          machines := doc.machines.set index (finalized p)
          meteringOutbox := doc.meteringOutbox ++ [recoveredFinal p reason updatedAt]
          generation := nextGeneration doc.generation
          updatedAt := now } with hdoc
        have hdisk : ∀ s, (mgr.store.save doc' fault).1.disk = some s →
            mgr.store.disk = some s ∨ s.transitions = doc.transitions := by
          intro s hs
          rcases save_disk mgr.store doc' fault with hd | hd
          · exact Or.inl (hd ▸ hs)
          · have heq : some doc' = some s := hd ▸ hs
            refine Or.inr ?_
            rw [← Option.some.inj heq]
        simp only [saveRecoverySnapshot, saved, ← hdoc]
        cases (mgr.store.save doc' fault).2 with
        | true => exact ⟨rfl, rfl, hdisk⟩
        | false => exact ⟨rfl, rfl, hdisk⟩

/-- **What one step does to the log.** -/
theorem journals_step (h : d.Logged) (hs : Stepped cfg d a d') (hg : RollbackFits d a d') : d.Journals d' := by
  have hserving : ∀ x : Daemon, x.phase = .serving → ∀ loaded doc operations index now,
      x.phase = .reconciling loaded doc operations index now → Increasing Transition.sequence doc.transitions := by
    intro x hx _ _ _ _ _ hp
    rw [hx] at hp
    cases hp
  have hsame : ∃ k, d.manager.Logs k d.manager := ⟨0, .refl _⟩
  cases hs with
  | boot bootId available now fault hp => exact start_journals h hp cfg bootId available now fault
  | crash hp => exact exit_journals h.disk
  | ready id now fault hp => exact h.section (becomeReady_logs cfg id now fault) h.doc
  | reap id reading now fault hp =>
    rw [stopped_eq]
    exact h.section (reap_logs cfg id reading now fault) h.doc
  | teardown i r verified now fault hp hr => exact h.section (releaseAfterTeardown_logs cfg _ _ verified now fault) h.doc
  | destroy id reading now fault hp =>
    rw [stopped_eq]
    exact h.section (destroy_logs cfg id reading now fault) h.doc
  | extend id leaseId key target now fault hp =>
    exact h.section (extend_logs cfg id leaseId key target now fault) h.doc
  | checkpoint order readings now fault hp _ =>
    exact h.section (checkpoint_logs cfg order readings now fault) h.doc
  | acknowledge sent receipts now fault hp => exact h.section (acknowledge_logs cfg sent receipts now fault) h.doc
  | persist now fault hp => exact h.section ⟨0, (Logs.refl d.manager).commit cfg now fault⟩ h.doc
  | health network cohort hp => exact h.section ⟨0, (Logs.refl d.manager).frame rfl rfl⟩ h.doc
  | createBegin req m hp hm =>
    simp only [beginCreate] at hm
    split at hm
    · cases hm
      exact h.section ⟨0, (Logs.refl d.manager).frame rfl rfl⟩ h.doc
    · cases hm
  | createReserved i draw refusal memory now fault task m r hp hi hpc hid hm =>
    have hr := @reserveCreate_logs d.manager cfg task.req draw refusal memory now fault
    rw [hm] at hr
    exact h.section hr h.doc
  | createRefused i draw refusal memory now fault task m e hp hi hpc hid hm =>
    have hr := @reserveCreate_logs d.manager cfg task.req draw refusal memory now fault
    rw [hm] at hr
    exact h.section hr h.doc
  | createAbandon i reason now fault task r hp hi hpc => exact h.section (abandonCreate_logs cfg r reason now fault) h.doc
  | createPublish i driver overlayMb reading now fault fault' task r m ok hp hi hpc hm =>
    have hr := @publishCreate_logs d.manager cfg r driver overlayMb reading now fault fault'
    rw [hm] at hr
    exact h.section hr h.doc
  | createEnd i task id hp hi =>
    cases id <;> exact h.section ⟨0, (Logs.refl d.manager).frame rfl rfl⟩ h.doc
  | forkRefused req probe now fault fault' m e hp _ hm =>
    have hr := @beginFork_logs d.manager cfg req probe now fault fault'
    rw [hm] at hr
    exact h.section hr h.doc
  | forkReplay req probe now fault fault' m res hp _ hm =>
    have hr := @beginFork_logs d.manager cfg req probe now fault fault'
    rw [hm] at hr
    exact h.section hr h.doc
  | forkStarted req probe now fault fault' m res source children hp _ hm =>
    have hr := @beginFork_logs d.manager cfg req probe now fault fault'
    rw [hm] at hr
    exact h.section hr h.doc
  | forkUnsaved req probe now fault fault' m res removed hp _ hm =>
    have hr := @beginFork_logs d.manager cfg req probe now fault fault'
    rw [hm] at hr
    exact h.section hr h.doc
  | forkMoved _ i task pc hp hi hpc ha => exact h.section hsame h.doc
  | forkPublish i driver reading now fault task children next r m ok hp hi hpc hr hm =>
    have hl := @publishChild_logs d.manager cfg r driver reading now fault
    rw [hm] at hl
    exact h.section hl h.doc
  | forkRollback i readings now fault task children hp hi hpc =>
    obtain ⟨res, pc⟩ := task
    cases hpc
    simp only [RollbackFits, rollbackFits, hi, Bool.or_eq_true] at hg
    exact h.section (rollbackForkChildren_logs cfg children readings now fault hg) h.doc
  | forkFinish i readings now fault fault' task failed m e hp hi hpc hm =>
    obtain ⟨res, pc⟩ := task
    cases hpc
    simp only [RollbackFits, rollbackFits, hi, Bool.or_eq_true, or_assoc] at hg
    have hl := finishFork_logs cfg res failed readings now fault fault' hg
    rw [hm] at hl
    exact h.section hl h.doc
  | forkClose i task succeeded hp hi hpc => exact h.section ⟨0, (Logs.refl d.manager).frame rfl rfl⟩ h.doc
  | forkAnswered i readings now fault task m result hp hi hpc hdone hm =>
    obtain ⟨res, pc⟩ := task
    cases hpc
    simp only [RollbackFits, rollbackFits, hi, Bool.or_eq_true, or_assoc, Bool.not_eq_true'] at hg
    have hl := forkReservationResult_logs cfg res readings now fault fun hcleans =>
      hg.resolve_left (by rw [hcleans]; exact Bool.noConfusion)
    rw [hm] at hl
    exact h.section hl h.doc
  | forkCleaning i readings now fault task m removed hp hi hpc hdone hm =>
    obtain ⟨res, pc⟩ := task
    cases hpc
    simp only [RollbackFits, rollbackFits, hi, Bool.or_eq_true, or_assoc, Bool.not_eq_true'] at hg
    have hl := forkReservationResult_logs cfg res readings now fault fun hcleans =>
      hg.resolve_left (by rw [hcleans]; exact Bool.noConfusion)
    rw [hm] at hl
    exact h.section hl h.doc
  | forkCleaned i task hp hi hpc => exact h.section ⟨0, (Logs.refl d.manager).frame rfl rfl⟩ h.doc
  | reconcileNext loaded doc operations index started p probe reading updatedAt now fault hp hi =>
    have hdoc := h.doc loaded doc operations index started hp
    simp only [Daemon.reconcileMachine]
    split
    · next reason _ =>
      obtain ⟨hjournal, htransitions, hdisk⟩ := finalizePersistedMachine_logs d.manager
        { doc with machines := doc.machines.set index (upgraded p) } index (upgraded p) reason updatedAt now fault
      have hdisk' : ∀ s, (d.manager.finalizePersistedMachine
          { doc with machines := doc.machines.set index (upgraded p) } index (upgraded p) reason updatedAt now
          fault).1.store.disk = some s → Increasing Transition.sequence s.transitions := by
        intro s hs
        rcases hdisk s hs with hold | heq
        · exact h.disk s hold
        · rw [heq]
          exact hdoc
      split
      · next x doc' heq =>
        rw [heq] at hjournal htransitions hdisk'
        have hgrows : d.manager.journal.Grows 1 (x.logTransition (upgraded p).id (upgraded p).leaseId
            (some (upgraded p).status) .lost (reasonText reason)).journal := by
          have hone : x.journal.Grows 1 (x.logTransition (upgraded p).id (upgraded p).leaseId
              (some (upgraded p).status) .lost (reasonText reason)).journal := Journal.Grows.none.record _ rfl
          rwa [show x.journal = d.manager.journal from hjournal] at hone
        refine ⟨⟨hgrows.ordered h.journal, hdisk', ?_⟩, fun _ _ => ⟨1, hgrows⟩⟩
        intro _ _ _ _ _ hphase
        cases hphase
        rw [show doc'.transitions = doc.transitions from htransitions]
        exact hdoc
      · next x doc' heq =>
        rw [heq] at hdisk'
        exact exit_journals hdisk'
    · have hr := @reattach_logs d.manager (upgraded p) reading
      split
      · next x heq =>
        rw [heq] at hr
        refine h.section hr ?_
        intro _ _ _ _ _ hphase
        cases hphase
        exact hdoc
      · next x heq =>
        rw [heq] at hr
        obtain ⟨k, hk⟩ := hr
        exact exit_journals (hk.disk_increasing h.journal h.disk)
  | reconcileForks loaded doc operations index started readings hp hi =>
    refine h.section (settleOperations_logs loaded readings operations d.manager 0 (.refl _)) ?_
    intro _ _ _ _ _ hphase
    cases hphase
  | reconcileCommit now fault m ok hp hm =>
    have hl := (Logs.refl d.manager).commit_eq hm
    cases ok with
    | true =>
      refine h.section ⟨0, hl⟩ ?_
      intro _ _ _ _ _ hphase
      cases hphase
    | false => exact exit_journals (hl.disk_increasing h.journal h.disk)
  | releaseHeld id verified now fault hp hid =>
    exact h.section (releaseAfterTeardown_logs cfg id _ verified now fault) h.doc
  | serve hp =>
    refine h.section hsame ?_
    intro _ _ _ _ _ hphase
    cases hphase

end Steps

/-! ### Watching the log -/

/-- A running process and a client that polls it with the last number it saw.  `issued` are the transitions
that were in the log at some point since the client connected, `known` those of them at its last poll. -/
structure Watch where
  daemon : Daemon
  reader : Reader Transition
  issued : List Transition
  known : List Transition

inductive WatchAct
  | act (a : Act)
  | poll

def Phase.runs : Phase → Bool
  | .down => false
  | _ => true

/-- The client connects with a cursor. -/
def Watch.connect (d : Daemon) (start : ℕ) : Watch := ⟨d, .connect start, d.manager.transitions, []⟩

/-- The client asks for the events after its cursor. -/
def Watch.polled (w : Watch) : Watch :=
  let events := w.daemon.manager.eventsAfter w.reader.cursor
  { w with
    reader :=
      { cursor := (events.getLast?.map (·.sequence)).getD w.reader.cursor
        received := w.reader.received ++ events
        kept := w.reader.kept && reaches Transition.sequence w.daemon.manager.transitions w.reader.cursor }
    known := w.issued }

/-- A step of the process, or a poll. -/
def Watch.next (cfg : Config) (w : Watch) : WatchAct → Option Watch
  | .act a => (w.daemon.step cfg a).bind fun d =>
    if d.phase.runs then some { w with daemon := d, issued := w.issued ++ d.manager.transitions } else none
  | .poll => some w.polled

def WatchMoves (cfg : Config) (w : Watch) (a : WatchAct) (w' : Watch) : Prop := w.next cfg a = some w'

/-- The condition on a step of the process. -/
def watchFits (w : Watch) : WatchAct → Bool
  | .act a => rollbackFits w.daemon a
  | .poll => true

def WatchFits (w : Watch) (a : WatchAct) (_ : Watch) : Prop := watchFits w a = true

instance (w : Watch) (a : WatchAct) (w' : Watch) : Decidable (WatchFits w a w') :=
  inferInstanceAs (Decidable (_ = true))

/-- What the log is to a client that connected with the cursor `start`. -/
structure Watch.Proper (start : ℕ) (w : Watch) : Prop where
  /-- The numbers in the log increase. -/
  increasing : w.daemon.manager.transitions.Pairwise fun a b => a.sequence < b.sequence
  /-- A number belongs to one transition. -/
  unique : ∀ a ∈ w.issued, ∀ b ∈ w.issued, a.sequence = b.sequence → a = b
  /-- The client has received no transition twice. -/
  once : w.reader.received.Pairwise fun a b => a.sequence < b.sequence
  /-- While it stayed within the log, the client has missed nothing up to its last poll. -/
  complete : w.reader.kept = true → ∀ e ∈ w.known, start < e.sequence → e ∈ w.reader.received

/-- The invariant: the log is the last part of an append-only one, to which the client is faithful. -/
structure Watch.Sound (start : ℕ) (w : Watch) (full : List Transition) : Prop where
  up : w.daemon.up
  logged : w.daemon.Logged
  retained : Retained Transition.sequence full w.daemon.manager.transitions
  bound : ∀ e ∈ full, e.sequence ≤ w.daemon.manager.nextTransition
  issued : ∀ e ∈ w.issued, e ∈ full
  reader : Reader.Faithful Transition.sequence start full w.reader
  known : ∀ e ∈ w.known, e ∈ full ∧ e.sequence ≤ w.reader.cursor

section Watches

variable {cfg : Config} {start : ℕ} {w w' : Watch} {full : List Transition}

theorem runs_up {d : Daemon} (h : d.phase.runs = true) : d.up := by
  intro hp
  rw [hp] at h
  cases h

theorem connect_sound {d : Daemon} (hup : d.up) (h : d.Logged) (start : ℕ) :
    (Watch.connect d start).Sound start d.manager.transitions :=
  ⟨hup, h, ⟨h.journal.increasing, List.suffix_refl _, fun hne => hne⟩, h.journal.bound, fun _ he => he,
    .connect _ _ _, fun _ he => (List.not_mem_nil he).elim⟩

theorem Watch.Sound.polled (h : w.Sound start full) : w.polled.Sound start full := by
  have hpolled : w.polled.reader = w.reader.poll Transition.sequence w.daemon.manager.transitions := rfl
  refine ⟨h.up, h.logged, h.retained, h.bound, h.issued, ?_, fun e he => ?_⟩
  · rw [hpolled]
    exact h.reader.poll h.retained
  · rw [hpolled]
    exact ⟨h.issued e he, Reader.Faithful.poll_passes h.retained (h.issued e he)⟩

theorem Watch.Sound.act {d : Daemon} {a : Act} (h : w.Sound start full) (hstep : DaemonStep cfg w.daemon a d)
    (hup : d.up) (hg : rollbackFits w.daemon a = true) :
    ∃ full', Watch.Sound start { w with daemon := d, issued := w.issued ++ d.manager.transitions } full' := by
  have hj := journals_step h.logged (Daemon.stepped hstep) hg
  obtain ⟨k, hgrows⟩ := hj.grows h.up hup
  obtain ⟨new, hretained, hbound, hnew⟩ := hgrows.retained h.retained h.bound
  refine ⟨full ++ new, hup, hj.logged, hretained, hbound, fun e he => ?_, ?_, fun e he => ?_⟩
  · rcases List.mem_append.mp he with he | he
    · exact List.mem_append_left _ (h.issued e he)
    · exact hretained.mem he
  · exact h.reader.grow fun a ha b hb => lt_of_le_of_lt (h.bound a ha) (hnew b hb)
  · obtain ⟨hmem, hle⟩ := h.known e he
    exact ⟨List.mem_append_left _ hmem, hle⟩

theorem watch_step (h : ∃ full, w.Sound start full) {a : WatchAct} (hstep : WatchMoves cfg w a w')
    (hg : WatchFits w a w') : ∃ full, w'.Sound start full := by
  obtain ⟨full, h⟩ := h
  cases a with
  | act a =>
    obtain ⟨d, hd, hnext⟩ := Option.bind_eq_some_iff.mp hstep
    split at hnext
    · next hruns =>
      cases hnext
      exact h.act hd (runs_up hruns) hg
    · cases hnext
  | poll =>
    cases hstep
    exact ⟨full, h.polled⟩

theorem Watch.Sound.proper (h : w.Sound start full) : w.Proper start :=
  ⟨h.retained.window_increasing,
    fun a ha b hb heq => h.retained.increasing.inj (h.issued a ha) (h.issued b hb) heq,
    h.reader.once,
    fun hkept e he hlt => h.reader.complete hkept e (h.known e he).1 hlt (h.known e he).2⟩

end Watches

/-- **The log is a cursor.**  A host finds a document whose log has increasing numbers, or none, and goes
along a run whose rollbacks trim nothing, through any number of restarts.  A client connects to the process at
any point, with any cursor, and polls as the process goes on: the numbers in the log increase, a number belongs
to one transition, and the client receives every transition once while it stays within the log. -/
theorem transitions_cursor (cfg : Config) (doc : Option MachineStateSnapshot)
    (hdoc : ∀ s, doc = some s → Increasing Transition.sequence s.transitions) (acts : List Act) (d : Daemon)
    (hrun : RunIn (DaemonStep cfg) RollbackFits (Daemon.found doc) acts d) (hup : d.up) (start : ℕ)
    (watch : List WatchAct) (w : Watch) (hwatch : RunIn (WatchMoves cfg) WatchFits (Watch.connect d start) watch w) :
    w.Proper start := by
  have h0 : (Daemon.found doc).Logged := by
    refine ⟨⟨List.Pairwise.nil, fun _ he => (List.not_mem_nil he).elim⟩, hdoc, ?_⟩
    intro _ _ _ _ _ hp
    cases hp
  have hd : d.Logged := hrun.invariant (I := Daemon.Logged)
    (fun _ _ _ h hs hg => (journals_step h (Daemon.stepped hs) hg).logged) h0
  obtain ⟨full, hsound⟩ := hwatch.invariant (I := fun w => ∃ full, w.Sound start full)
    (fun _ _ _ h hs hg => watch_step h hs hg) ⟨_, connect_sound hup hd start⟩
  exact hsound.proper

/-! ### Two runs -/

/-- A fork whose child does not boot, and whose rollback cannot be saved. -/
def Sample.brokenFork : List Act :=
  [.forkBegin Sample.forkRequest ⟨none, true, "", [Sample.draw 1]⟩ 0 .none .none,
   .forkCheck 0 true,
   .forkBootFailed 0,
   .forkRollback 0 (fun _ => Sample.reading 3) 0 .beforeRename]

/-- The end of the fork, which is saved. -/
def Sample.endedFork : Act := .forkFinish 0 (fun _ => Sample.reading 3) 0 .none .none

/-- A client polls after the create, after the rollback and after the end of the fork. -/
def Sample.watched : List WatchAct :=
  (Sample.create 0).map .act ++ [.poll] ++ Sample.brokenFork.map .act ++ [.poll, .act Sample.endedFork, .poll]

/-- A document with a full log. -/
def Sample.fullLog : MachineStateSnapshot :=
  { emptySnapshot with
    generation := 1
    hostId := Sample.config.hostId
    runtimeCohort := Sample.config.runtimeCohort
    transitions := (List.range 1024).map fun i =>
      ⟨i + 1, Sample.hostMachineId 2, Sample.leaseId 2, none, .booting, "create"⟩ }

theorem fullLog_increasing : Increasing Transition.sequence Sample.fullLog.transitions := by
  simp only [Increasing, Sample.fullLog, List.pairwise_map]
  apply List.pairwise_lt_range.imp
  intro i j hij
  omega

/-- A rollback that trims nothing: the client receives each of the five transitions once. -/
theorem transitions_cursor_rollback : ∃ d, RunIn (DaemonStep Sample.config) RollbackFits (Daemon.found none)
    Sample.firstBoot d ∧ ∃ w, RunIn (WatchMoves Sample.config) WatchFits (Watch.connect d 0) Sample.watched w ∧
      w.reader.received.length = 5 ∧ w.reader.kept = true ∧ w.Proper 0 := by
  have h : ((Daemon.found none).runsIn Sample.config RollbackFits Sample.firstBoot).any (fun d =>
      decide (d.phase.runs = true ∧ (execIn (Watch.next Sample.config) WatchFits (Watch.connect d 0)
        Sample.watched).any (fun w => decide (w.reader.received.length = 5 ∧ w.reader.kept = true)) = true)) = true := by
    decide +kernel
  obtain ⟨d, hrun, hruns, hwatched⟩ := Daemon.runsIn_test Sample.config h
  obtain ⟨w, hwatch, hlength, hkept⟩ := RunIn.of_test hwatched
  refine ⟨d, hrun, w, hwatch, hlength, hkept, ?_⟩
  refine transitions_cursor Sample.config none (fun s hs => ?_) Sample.firstBoot d hrun (runs_up hruns) 0
    Sample.watched w hwatch
  cases hs

/-- The same run over a full log: the rollback leaves a transition that did not happen, the next one gets its
number, and the client, always within the log, does not receive it. -/
theorem rollback_reuses_number : Increasing Transition.sequence Sample.fullLog.transitions ∧
    ∃ d, Run (DaemonStep Sample.config) (Daemon.found (some Sample.fullLog)) Sample.firstBoot d ∧ d.up ∧
      ∃ w, Run (WatchMoves Sample.config) (Watch.connect d 1020) Sample.watched w ∧
      (∃ a ∈ w.daemon.manager.transitions, ∃ b ∈ w.daemon.manager.transitions, a.sequence = b.sequence ∧ a ≠ b) ∧
      w.reader.kept = true ∧ ∃ e ∈ w.daemon.manager.transitions, 1020 < e.sequence ∧ e ∉ w.reader.received := by
  have h : ((Daemon.found (some Sample.fullLog)).runsIn Sample.config Unguarded Sample.firstBoot).any (fun d =>
      decide (d.phase.runs = true ∧ (exec (Watch.next Sample.config) (Watch.connect d 1020) Sample.watched).any
        (fun w => decide ((w.daemon.manager.transitions.drop 1022).map (fun e => (e.sequence, e.reason))
            = [(1029, "managed_fork_rollback"), (1029, "managed_fork_terminal_cleanup")] ∧ w.reader.kept = true ∧
          ∀ e ∈ w.reader.received, e.reason ≠ "managed_fork_terminal_cleanup")) = true)) = true := by
    decide +kernel
  obtain ⟨d, hrun, hruns, hwatched⟩ := Daemon.runsIn_test Sample.config h
  obtain ⟨w, hwatch, hlast, hkept, hmissed⟩ := Run.of_test hwatched
  obtain ⟨a, rest, hrest, ha, hb⟩ := List.map_eq_cons_iff.mp hlast
  obtain ⟨b, _, rfl, hb, _⟩ := List.map_eq_cons_iff.mp hb
  obtain ⟨hanum, hareason⟩ := Prod.mk.inj ha
  obtain ⟨hbnum, hbreason⟩ := Prod.mk.inj hb
  have hmem : ∀ e ∈ w.daemon.manager.transitions.drop 1022, e ∈ w.daemon.manager.transitions := fun e he =>
    List.mem_of_mem_drop he
  rw [hrest] at hmem
  have hbmem : b ∈ w.daemon.manager.transitions := hmem b (List.mem_cons_of_mem _ List.mem_cons_self)
  refine ⟨fullLog_increasing, d, hrun.run, runs_up hruns, w, hwatch,
    ⟨a, hmem a List.mem_cons_self, b, hbmem, hanum.trans hbnum.symm, ?_⟩, hkept, b, hbmem, by omega,
    fun hin => hmissed b hin hbreason⟩
  intro heq
  rw [heq, hbreason] at hareason
  exact absurd hareason (by decide)

end Nehemiah.Host
