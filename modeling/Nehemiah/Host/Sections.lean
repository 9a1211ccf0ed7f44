import Nehemiah.Host.Cleanup
import Nehemiah.Host.Durable

/-!
# Sections as courses of changes

A section under the lock is a course of small changes: a machine is sampled, a machine that has nothing
left to report leaves the registry, the document is committed, and after a commit that fails everything is
put back.  `Does` is the relation of these courses, with the machines that a section has removed.  What the
small changes keep, every section keeps, so an invariant of the daemon is proved once for each kind of
change.
-/

namespace Nehemiah.Host

open Billing Manager

/-! ### What a section works on -/

/-- The state apart from the log, the health of the host, the keys of the creates, the jailer identities
and the state document. -/
@[ext]
structure Books where
  objects : ℕ → Machine
  nextObject : ℕ
  machines : List ℕ
  forkTable : ForkTable
  meteringOutbox : List HostUsageObservation
  acknowledged : List HostUsageObservation
  hostBootId : String

def Manager.books (mgr : Manager) : Books :=
  ⟨mgr.objects, mgr.nextObject, mgr.machines, mgr.forkTable, mgr.meteringOutbox, mgr.acknowledged,
    mgr.hostBootId⟩

/-- The state document, and whether the last save succeeded. -/
structure Filed where
  commits : Commits
  stateHealthy : Bool

def Manager.filed (mgr : Manager) : Filed := ⟨mgr.commits, mgr.stateHealthy⟩

/-- No two registered machines have one id. -/
def Manager.Keyed (mgr : Manager) : Prop := (mgr.machines.map fun r => (mgr.objects r).id).Nodup

theorem find_of_mem {mgr : Manager} (hk : mgr.Keyed) {r : ℕ} (hr : r ∈ mgr.machines) :
    mgr.find (mgr.objects r).id = some r := by
  cases hf : mgr.find (mgr.objects r).id with
  | none =>
    have hreg := find_none hf
    rw [← Bool.not_eq_true, registered_iff] at hreg
    exact absurd ⟨r, hr, rfl⟩ hreg
  | some r' =>
    obtain ⟨hr', hid⟩ := find_some hf
    rw [List.inj_on_of_nodup_map hk hr' hr hid]

section Allocate

variable (mgr : Manager) (m : Machine)

theorem allocate_old {r : ℕ} (hr : r < mgr.nextObject) :
    (mgr.allocate m).1.objects r = mgr.objects r := by
  show Function.update mgr.objects mgr.nextObject m r = mgr.objects r
  rw [Function.update_of_ne hr.ne]

theorem allocate_new : (mgr.allocate m).1.objects mgr.nextObject = m := by
  show Function.update mgr.objects mgr.nextObject m mgr.nextObject = m
  rw [Function.update_self]

theorem allocate_find : (mgr.allocate m).1.find m.id = some mgr.nextObject := by
  have hnew : (Function.update mgr.objects mgr.nextObject m mgr.nextObject).id = m.id := by
    rw [Function.update_self]
  simp only [allocate]
  rw [find_register]
  exact if_pos hnew.symm

variable {mgr m}

/-- Under a free id nothing leaves the registry. -/
theorem allocate_machines (hp : mgr.Placed) (hfree : mgr.registered m.id = false) :
    (mgr.allocate m).1.machines = mgr.machines ++ [mgr.nextObject] := by
  have hkeep : ∀ r ∈ mgr.machines, ((mgr.allocate m).1.objects r).id ≠ m.id := by
    intro r hr hid
    rw [allocate_old mgr m (hp r hr)] at hid
    rw [← Bool.not_eq_true, registered_iff] at hfree
    exact hfree ⟨r, hr, hid⟩
  have hnew := allocate_new mgr m
  show mgr.machines.filter (fun r => ((mgr.allocate m).1.objects r).id
    != ((mgr.allocate m).1.objects mgr.nextObject).id) ++ [mgr.nextObject] = _
  rw [hnew, List.filter_eq_self.mpr fun r hr => bne_iff_ne.mpr (hkeep r hr)]

end Allocate

/-- What a kind of section may do besides sampling and removing machines. -/
structure Scope where
  /-- It places new machines. -/
  places : Prop := False
  /-- It changes the table of forks. -/
  forks : Prop := False
  /-- It takes samples that are not final. -/
  checkpoints : Prop := False
  /-- It puts everything back when a commit fails. -/
  undoes : Prop := False
  /-- The machines that it starts, or gives up before their start. -/
  boots : List ℕ := []

/-- From `mgr`, a section within `scope` has come to the last argument and has removed the machines of
the list. -/
inductive Manager.Does (cfg : Config) (scope : Scope) (mgr : Manager) : List ℕ → Manager → Prop
  | start : Does cfg scope mgr [] mgr
  | note {removed : List ℕ} {x y : Manager} (h : Does cfg scope mgr removed x) (hbooks : y.books = x.books)
      (hfiled : y.filed = x.filed) : Does cfg scope mgr removed y
  | mark {removed : List ℕ} {x : Manager} (h : Does cfg scope mgr removed x) (r : ℕ)
      (status : MachineStatus) (ready : Bool) (diskMb : ℕ) :
      Does cfg scope mgr removed
        (x.modifyMachine r fun m => { m with status := status, ready := ready, diskMb := diskMb })
  | drive {removed : List ℕ} {x : Manager} (h : Does cfg scope mgr removed x) (r : ℕ) (driver : Driver)
      (hr : r ∈ scope.boots) :
      Does cfg scope mgr removed (x.modifyMachine r fun m => { m with driver := some driver })
  | meter {x y : Manager} (h : Does cfg scope mgr [] x) (r : ℕ) (reading : Reading)
      (hr : r ∈ scope.boots) (heq : x.recordMeterStart r reading = (y, true)) : Does cfg scope mgr [] y
  | checkpoint {removed : List ℕ} {x y : Manager} (h : Does cfg scope mgr removed x)
      (hscope : scope.checkpoints) (r : ℕ) (reading : Reading) (heq : x.sample r false reading = (y, true)) :
      Does cfg scope mgr removed y
  | final {removed : List ℕ} {x y : Manager} {ok : Bool} (h : Does cfg scope mgr removed x) (r : ℕ)
      (reading : Reading) (heq : x.sample r true reading = (y, ok))
      (hok : ok = true ∨ x.meteringOutbox.length < maxMeteringOutbox) : Does cfg scope mgr removed y
  | drop {removed : List ℕ} {x : Manager} (h : Does cfg scope mgr removed x) (id : String) (r : ℕ)
      (hr : x.find id = some r) (hdone : x.eligible r = false) :
      Does cfg scope mgr (removed ++ [r]) (x.unregister id)
  | evict {x : Manager} (h : Does cfg scope mgr [] x) (r : ℕ) (hr : r ∈ scope.boots)
      (hmachines : x.machines = mgr.machines) (hids : ∀ r', (x.objects r').id = (mgr.objects r').id)
      (hmetering : (x.objects r).metering = (mgr.objects r).metering ∨ (x.objects r).metering = {}) :
      Does cfg scope mgr [r] (x.unregister (x.objects r).id)
  | place {removed : List ℕ} {x : Manager} (h : Does cfg scope mgr removed x) (m : Machine)
      (hscope : scope.places) (hfree : x.registered m.id = false) (hnew : m.metering = {})
      (hdriver : m.driver = none) : Does cfg scope mgr removed (x.allocate m).1
  | reserve {removed : List ℕ} {x y : Manager} (h : Does cfg scope mgr removed x) (hscope : scope.forks)
      (table : ForkTable) (hbooks : y.books = { x.books with forkTable := table })
      (hfiled : y.filed = x.filed) : Does cfg scope mgr removed y
  | deliver {removed : List ℕ} {x : Manager} (h : Does cfg scope mgr removed x) (n : ℕ) :
      Does cfg scope mgr removed { x with
        meteringOutbox := x.meteringOutbox.drop n
        acknowledged := x.acknowledged ++ x.meteringOutbox.take n }
  | commit {removed : List ℕ} {x : Manager} (h : Does cfg scope mgr removed x) (now : Time)
      (fault : SaveFault) : Does cfg scope mgr removed (x.persist cfg now fault).1
  | unmeter {x y : Manager} (h : Does cfg scope mgr [] x) (hscope : scope.undoes)
      (hfailed : x.stateHealthy = false) (r : ℕ) (hr : r ∈ scope.boots)
      (hbooks : y.books = { x.books with
        objects := Function.update x.objects r { x.objects r with metering := {} }
        meteringOutbox := mgr.meteringOutbox }) (hfiled : y.filed = x.filed) : Does cfg scope mgr [] y
  | undo {removed : List ℕ} {x y : Manager} (h : Does cfg scope mgr removed x) (hscope : scope.undoes)
      (hfailed : x.stateHealthy = false) (machines : List ℕ) (hperm : machines.Perm mgr.machines)
      (hbooks : y.books = { mgr.books with machines := machines, forkTable := x.forkTable })
      (hfiled : y.filed = x.filed) : Does cfg scope mgr [] y

namespace Manager.Does

theorem refl (cfg : Config) (scope : Scope) (mgr : Manager) : Does cfg scope mgr [] mgr := .start

variable {cfg : Config} {scope : Scope} {mgr x y : Manager} {removed : List ℕ}

theorem transition (h : Does cfg scope mgr removed x) (r : ℕ) (source : Option MachineStatus)
    (target : MachineStatus) (reason : String) :
    Does cfg scope mgr removed (x.transition r source target reason) :=
  h.note rfl rfl

theorem modifyReservation (h : Does cfg scope mgr removed x) (hscope : scope.forks) (res : ℕ)
    (f : ForkReservation → ForkReservation) : Does cfg scope mgr removed (x.modifyReservation res f) :=
  h.reserve hscope _ rfl rfl

theorem failReservation (h : Does cfg scope mgr removed x) (hscope : scope.forks) (res : ℕ) :
    Does cfg scope mgr removed (x.failReservation res) :=
  h.modifyReservation hscope res _

theorem commit_eq {now : Time} {fault : SaveFault} {ok : Bool} (h : Does cfg scope mgr removed x)
    (heq : x.persist cfg now fault = (y, ok)) : Does cfg scope mgr removed y := by
  have hc := h.commit now fault
  rwa [heq] at hc

/-- A wider scope allows the same course. -/
theorem mono {scope' : Scope} (h : Does cfg scope mgr removed x) (hplaces : scope.places → scope'.places)
    (hforks : scope.forks → scope'.forks) (hcheckpoints : scope.checkpoints → scope'.checkpoints)
    (hundoes : scope.undoes → scope'.undoes) (hboots : ∀ r ∈ scope.boots, r ∈ scope'.boots) :
    Does cfg scope' mgr removed x := by
  induction h with
  | start => exact .start
  | note _ hbooks hfiled ih => exact ih.note hbooks hfiled
  | mark _ r status ready diskMb ih => exact ih.mark r status ready diskMb
  | drive _ r driver hr ih => exact ih.drive r driver (hboots r hr)
  | meter _ r reading hr heq ih => exact ih.meter r reading (hboots r hr) heq
  | checkpoint _ hscope r reading heq ih => exact ih.checkpoint (hcheckpoints hscope) r reading heq
  | final _ r reading heq hok ih => exact ih.final r reading heq hok
  | drop _ id r hr hdone ih => exact ih.drop id r hr hdone
  | evict _ r hr hmachines hids hmetering ih => exact ih.evict r (hboots r hr) hmachines hids hmetering
  | place _ m hscope hfree hnew hdriver ih => exact ih.place m (hplaces hscope) hfree hnew hdriver
  | reserve _ hscope table hbooks hfiled ih => exact ih.reserve (hforks hscope) table hbooks hfiled
  | deliver _ n ih => exact ih.deliver n
  | commit _ now fault ih => exact ih.commit now fault
  | unmeter _ hscope hfailed r hr hbooks hfiled ih =>
    exact ih.unmeter (hundoes hscope) hfailed r (hboots r hr) hbooks hfiled
  | undo _ hscope hfailed machines hperm hbooks hfiled ih =>
    exact ih.undo (hundoes hscope) hfailed machines hperm hbooks hfiled

/-! ### Ids -/

/-- The ids of the machines that are there at the start stay, and the registry has no id twice. -/
structure Tidy (mgr x : Manager) : Prop where
  keyed : x.Keyed
  placed : x.Placed
  objects : mgr.nextObject ≤ x.nextObject
  ids : ∀ r < mgr.nextObject, (x.objects r).id = (mgr.objects r).id

theorem Tidy.of_same (h : Tidy mgr x) (hm : y.machines = x.machines)
    (hi : ∀ r, (y.objects r).id = (x.objects r).id) (hn : y.nextObject = x.nextObject) : Tidy mgr y := by
  refine ⟨?_, fun r hr => ?_, hn.symm ▸ h.objects, fun r hr => (hi r).trans (h.ids r hr)⟩
  · rw [Manager.Keyed, hm, List.map_congr_left fun r _ => hi r]
    exact h.keyed
  · rw [hn]
    exact h.placed r (hm ▸ hr)

theorem Tidy.modify (h : Tidy mgr x) (r : ℕ) (f : Machine → Machine) (hf : ∀ m, (f m).id = m.id) :
    Tidy mgr (x.modifyMachine r f) := by
  refine h.of_same rfl (fun r' => ?_) rfl
  by_cases hr : r' = r
  · subst hr
    simp [Manager.modifyMachine, hf]
  · simp [Manager.modifyMachine, hr]

theorem Tidy.unregister (h : Tidy mgr x) (id : String) : Tidy mgr (x.unregister id) :=
  ⟨(List.Sublist.map _ List.filter_sublist).nodup h.keyed,
    fun r hr => h.placed r (List.mem_of_mem_filter hr), h.objects, h.ids⟩

theorem Tidy.sample {terminal ok : Bool} {r : ℕ} {reading : Reading} (h : Tidy mgr x)
    (heq : x.sample r terminal reading = (y, ok)) : Tidy mgr y := by
  have hs := sample_sampled x r terminal reading
  rw [heq] at hs
  cases hs with
  | skipped _ => exact h
  | failed s healthy _ => exact h.of_same rfl (fun r' => emit_id x r r' s _ _ healthy) rfl
  | emitted _ _ _ s healthy _ _ _ _ => exact h.of_same rfl (fun r' => emit_id x r r' _ _ _ healthy) rfl

theorem Tidy.meter {ok : Bool} {r : ℕ} {reading : Reading} (h : Tidy mgr x)
    (heq : x.recordMeterStart r reading = (y, ok)) : Tidy mgr y := by
  have hs := recordMeterStart_started x r reading
  rw [heq] at hs
  cases hs with
  | unmetered _ => exact h
  | failed healthy => exact h.of_same rfl (fun _ => rfl) rfl
  | emitted now healthy _ _ _ _ => exact h.of_same rfl (fun r' => emit_id x r r' _ _ _ healthy) rfl

theorem Tidy.allocate (h : Tidy mgr x) (m : Machine) (hfree : x.registered m.id = false) :
    Tidy mgr (x.allocate m).1 := by
  have hmachines := allocate_machines h.placed hfree
  refine ⟨?_, fun r hr => ?_, Nat.le_succ_of_le h.objects, fun r hr => ?_⟩
  · rw [Manager.Keyed, hmachines, List.map_append, List.nodup_append, List.map_congr_left
      (g := fun r => (x.objects r).id) fun r hr => congrArg (·.id) (allocate_old x m (h.placed r hr))]
    refine ⟨h.keyed, List.nodup_singleton _, ?_⟩
    rintro a ha b hb rfl
    obtain ⟨r, hr, hid⟩ := List.mem_map.mp ha
    rw [List.map_singleton, List.mem_singleton, allocate_new] at hb
    rw [← Bool.not_eq_true, registered_iff] at hfree
    exact hfree ⟨r, hr, hid.trans hb⟩
  · rw [hmachines, List.mem_append, List.mem_singleton] at hr
    rcases hr with hr | rfl
    · exact Nat.lt_succ_of_lt (h.placed r hr)
    · exact Nat.lt_succ_self _
  · rw [allocate_old x m (lt_of_lt_of_le hr h.objects)]
    exact h.ids r hr

theorem tidy (h : Does cfg scope mgr removed x) (hp : mgr.Placed) (hk : mgr.Keyed) : Tidy mgr x := by
  have h0 : Tidy mgr mgr := ⟨hk, hp, le_refl _, fun _ _ => rfl⟩
  induction h with
  | start => exact h0
  | note _ hbooks _ ih =>
    exact ih.of_same (congrArg Books.machines hbooks)
      (fun r => congrArg (fun b : Books => (b.objects r).id) hbooks) (congrArg Books.nextObject hbooks)
  | mark _ r _ _ _ ih => exact ih.modify r _ fun _ => rfl
  | drive _ r _ _ ih => exact ih.modify r _ fun _ => rfl
  | meter _ r _ _ heq ih => exact ih.meter heq
  | checkpoint _ _ r _ heq ih => exact ih.sample heq
  | final _ r _ heq _ ih => exact ih.sample heq
  | drop _ id r _ _ ih => exact ih.unregister id
  | evict _ r _ _ _ _ ih => exact ih.unregister _
  | place _ m _ hfree _ _ ih => exact ih.allocate m hfree
  | reserve _ _ table hbooks _ ih =>
    exact ih.of_same (congrArg Books.machines hbooks)
      (fun r => congrArg (fun b : Books => (b.objects r).id) hbooks) (congrArg Books.nextObject hbooks)
  | deliver _ n ih => exact ih.of_same rfl (fun _ => rfl) rfl
  | commit _ now fault ih => exact ih.of_same rfl (fun _ => rfl) rfl
  | @unmeter x y _ _ _ r _ hbooks _ ih =>
    have hy : Tidy mgr (x.modifyMachine r fun m => { m with metering := {} }) := ih.modify r _ fun _ => rfl
    exact hy.of_same (congrArg Books.machines hbooks)
      (fun r' => congrArg (fun b : Books => (b.objects r').id) hbooks) (congrArg Books.nextObject hbooks)
  | @undo removed x y _ _ _ machines hperm hbooks _ _ =>
    have hm : y.machines = machines := congrArg Books.machines hbooks
    have ho : y.objects = mgr.objects := congrArg Books.objects hbooks
    have hn : y.nextObject = mgr.nextObject := congrArg Books.nextObject hbooks
    refine ⟨?_, fun r hr => ?_, hn.ge, fun r _ => by rw [ho]⟩
    · rw [Manager.Keyed, hm, ho]
      exact (hperm.map _).nodup_iff.mpr hk
    · rw [hn]
      exact hp r (hperm.mem_iff.mp (hm ▸ hr))

end Manager.Does

/-! ### Samples -/

section Samples

variable {mgr x : Manager} {r : ℕ} {terminal ok : Bool} {reading : Reading}

theorem sample_find (heq : mgr.sample r terminal reading = (x, ok)) (id : String) :
    x.find id = mgr.find id := by
  have hs := sample_sampled mgr r terminal reading
  rw [heq] at hs
  cases hs with
  | skipped _ => rfl
  | failed s healthy _ => exact emit_find mgr r s _ _ healthy id
  | emitted _ _ _ s healthy _ _ _ _ => exact emit_find mgr r _ _ _ healthy id

theorem sample_other {r' : ℕ} (hr : r' ≠ r) (heq : mgr.sample r terminal reading = (x, ok)) :
    x.objects r' = mgr.objects r' := by
  have hs := sample_sampled mgr r terminal reading
  rw [heq] at hs
  cases hs with
  | skipped _ => rfl
  | failed s healthy _ => exact emit_object_of_ne mgr hr _ _ _ _
  | emitted _ _ _ s healthy _ _ _ _ => exact emit_object_of_ne mgr hr _ _ _ _

/-- A final sample leaves nothing to report. -/
theorem sample_done (heq : mgr.sample r true reading = (x, true)) : x.eligible r = false := by
  have hs := sample_sampled mgr r true reading
  rw [heq] at hs
  cases hs with
  | skipped h => rcases h with h | h <;> simp [eligible, h]
  | emitted _ _ _ s healthy _ _ _ _ =>
    simp only [eligible, emit_object, sampledState, Bool.or_true, Bool.not_true, Bool.and_false]

theorem sample_length (heq : mgr.sample r true reading = (x, ok)) :
    x.meteringOutbox.length ≤ mgr.meteringOutbox.length + if mgr.eligible r then 1 else 0 := by
  have hs := sample_sampled mgr r true reading
  rw [heq] at hs
  cases hs with
  | skipped _ => exact Nat.le_add_right _ _
  | failed s healthy _ => exact le_trans (List.length_append ..).le (Nat.le_add_right _ _)
  | emitted _ _ _ s healthy hlive _ _ _ =>
    rw [if_pos (eligible_of_live hlive)]
    exact (List.length_append ..).le

end Samples

/-! ### Removing children -/

section Removal

variable {cfg : Config} {scope : Scope} {mgr x : Manager}

/-- A sample changes nothing of the machines under other ids. -/
theorem sample_eligible {y : Manager} {r : ℕ} {ok : Bool} {reading : Reading} (heq : x.sample r true reading = (y, ok))
    {id : String} (hid : (x.objects r).id ≠ id) :
    (y.find id).any y.eligible = (x.find id).any x.eligible := by
  rw [sample_find heq]
  cases hr' : x.find id with
  | none => rfl
  | some r' =>
    have hne : r' ≠ r := fun h => hid (h ▸ (find_some hr').2)
    simp only [Option.any_some, eligible, sample_other hne heq]

theorem removeChildren_does (reason : String) (readings : ℕ → Reading) (ids : List String)
    (hnodup : ids.Nodup) : ∀ (x : Manager) (removed : List ℕ), mgr.Does cfg scope removed x →
    x.meteringOutbox.length + ids.countP (fun id => (x.find id).any x.eligible) ≤ maxMeteringOutbox →
    mgr.Does cfg scope (removed ++ (removeChildren reason readings x ids).2)
      (removeChildren reason readings x ids).1 := by
  induction ids with
  | nil =>
    intro x removed h _
    rw [removeChildren, List.append_nil]
    exact h
  | cons id rest ih =>
    obtain ⟨hid, hrest⟩ := List.nodup_cons.mp hnodup
    intro x removed h hroom
    rw [List.countP_cons] at hroom
    simp only [removeChildren]
    split
    · exact ih hrest x removed h (by omega)
    · next r hr =>
      rw [hr, Option.any_some] at hroom
      have hother : ∀ id' ∈ rest, (x.objects r).id ≠ id' := by
        rintro id' hid' rfl
        exact hid ((find_some hr).2 ▸ hid')
      -- the room that the rest needs is left, whether or not this child is removed
      have hleft : ∀ y ok, x.sample r true (readings r) = (y, ok) →
          y.meteringOutbox.length + rest.countP (fun id => (y.find id).any y.eligible)
            ≤ maxMeteringOutbox := by
        intro y ok heq
        have hlen := sample_length heq
        rw [List.countP_congr fun id' hid' => by rw [sample_eligible heq (hother id' hid')]]
        omega
      split
      · next y heq =>
        have hlive : x.eligible r = true := by
          have hs := sample_sampled x r true (readings r)
          rw [heq] at hs
          cases hs with
          | failed _ _ hlive => exact eligible_of_live hlive
        rw [if_pos hlive] at hroom
        have hfull : x.meteringOutbox.length < maxMeteringOutbox := by omega
        exact ih hrest _ removed ((h.final r (readings r) heq (Or.inr hfull)).note rfl rfl) (hleft y false heq)
      · next y heq =>
        have hy := (((h.final r (readings r) heq (Or.inl rfl)).drop id r ((sample_find heq id).trans hr)
          (sample_done heq)).transition r (some (y.objects r).status) .failed reason)
        have hz := ih hrest _ _ hy (by
          rw [List.countP_congr fun id' hid' => by
            rw [show ((y.unregister id).transition r (some (y.objects r).status) .failed reason).find id'
              = y.find id' from unregister_find_of_ne y fun h => hid (h ▸ hid')]]
          exact hleft y true heq)
        rwa [List.append_assoc] at hz

/-- **A cleanup is a course of final samples and removals.** -/
theorem removeForkChildren_does {removed : List ℕ} (h : mgr.Does cfg scope removed x) (ids : List String)
    (reason : String) (readings : ℕ → Reading) :
    mgr.Does cfg scope (removed ++ (x.removeForkChildren ids reason readings).2)
      (x.removeForkChildren ids reason readings).1 := by
  simp only [removeForkChildren]
  split
  · rw [List.append_nil]
    exact h.note rfl rfl
  · next hroom =>
    exact removeChildren_does reason readings _ (nodup_eraseDups ids) x removed h (not_lt.mp hroom)

/-- Only machines under `ids` have changed or left the registry since `mgr`, and those that changed
differ in their metering. -/
structure Manager.Prunes (mgr : Manager) (ids : List String) (x : Manager) : Prop where
  objects : ∀ r, x.objects r = { mgr.objects r with metering := (x.objects r).metering }
  others : ∀ r, (∀ id ∈ ids, mgr.find id ≠ some r) → x.objects r = mgr.objects r
  machines : ∀ r ∈ x.machines, r ∈ mgr.machines
  kept : ∀ r ∈ mgr.machines, r ∈ x.machines ∨ ∃ id ∈ ids, mgr.find id = some r
  nodup : x.machines.Nodup
  outbox : mgr.meteringOutbox <+: x.meteringOutbox
  frame : x.nextObject = mgr.nextObject ∧ x.acknowledged = mgr.acknowledged ∧ x.hostBootId = mgr.hostBootId

namespace Manager.Prunes

variable {ids : List String} {x y : Manager}

theorem refl (hk : mgr.Keyed) (ids : List String) : mgr.Prunes ids mgr :=
  ⟨fun _ => rfl, fun _ _ => rfl, fun _ hr => hr, fun _ hr => Or.inl hr, List.Nodup.of_map _ hk,
    List.prefix_refl _, rfl, rfl, rfl⟩

theorem persist (h : mgr.Prunes ids x) (cfg : Config) (now : Time) (fault : SaveFault) :
    mgr.Prunes ids (x.persist cfg now fault).1 :=
  ⟨h.objects, h.others, h.machines, h.kept, h.nodup, h.outbox, h.frame⟩

theorem failReservation (h : mgr.Prunes ids x) (res : ℕ) : mgr.Prunes ids (x.failReservation res) :=
  ⟨h.objects, h.others, h.machines, h.kept, h.nodup, h.outbox, h.frame⟩

theorem note (h : mgr.Prunes ids x) (hbooks : { y.books with forkTable := x.forkTable } = x.books) :
    mgr.Prunes ids y := by
  have ho : y.objects = x.objects := congrArg Books.objects hbooks
  have hm : y.machines = x.machines := congrArg Books.machines hbooks
  have hb : y.meteringOutbox = x.meteringOutbox := congrArg Books.meteringOutbox hbooks
  have hn : y.nextObject = x.nextObject := congrArg Books.nextObject hbooks
  have ha : y.acknowledged = x.acknowledged := congrArg Books.acknowledged hbooks
  have hh : y.hostBootId = x.hostBootId := congrArg Books.hostBootId hbooks
  refine ⟨?_, ?_, ?_, ?_, ?_, ?_, hn.trans h.frame.1, ha.trans h.frame.2.1, hh.trans h.frame.2.2⟩
  · rw [ho]
    exact h.objects
  · rw [ho]
    exact h.others
  · rw [hm]
    exact h.machines
  · rw [hm]
    exact h.kept
  · rw [hm]
    exact h.nodup
  · rw [hb]
    exact h.outbox

variable {id : String}

/-- The machines that are left are found where they were. -/
theorem find (h : mgr.Prunes ids x) (hk : mgr.Keyed) {r : ℕ} (hr : x.find id = some r) : mgr.find id = some r := by
  obtain ⟨hmem, hid⟩ := find_some hr
  have hsame : (mgr.objects r).id = id := by
    rw [h.objects r] at hid
    exact hid
  exact hsame ▸ find_of_mem hk (h.machines r hmem)

theorem sample {r : ℕ} {ok : Bool} {reading : Reading} (h : mgr.Prunes ids x) (hk : mgr.Keyed) (hid : id ∈ ids)
    (hr : x.find id = some r) (heq : x.sample r true reading = (y, ok)) :
    mgr.Prunes ids y := by
  have hs := sample_sampled x r true reading
  rw [heq] at hs
  have hemit : ∀ s os healthy, mgr.Prunes ids (x.emit r s (x.objects r).meteringReserved os healthy) := by
    intro s os healthy
    refine ⟨fun r' => ?_, fun r' hr' => ?_, h.machines, h.kept, h.nodup,
      h.outbox.trans (List.prefix_append _ _), h.frame⟩
    · by_cases hne : r' = r
      · subst hne
        rw [emit_object]
        show _ = { mgr.objects r' with metering := s }
        rw [h.objects r']
      · rw [emit_object_of_ne x hne]
        exact h.objects r'
    · have hne : r' ≠ r := fun hne => hr' id hid (hne.symm ▸ h.find hk hr)
      rw [emit_object_of_ne x hne]
      exact h.others r' hr'
  cases hs with
  | skipped _ => exact h
  | failed s healthy _ => exact hemit s [] healthy
  | emitted _ _ _ s healthy _ _ _ _ => exact hemit _ _ healthy

theorem unregister (h : mgr.Prunes ids x) (hk : mgr.Keyed) (hid : id ∈ ids) : mgr.Prunes ids (x.unregister id) := by
  refine ⟨h.objects, h.others, fun r' hr' => h.machines r' (List.mem_of_mem_filter hr'), fun r' hr' => ?_,
    h.nodup.filter _, h.outbox, h.frame⟩
  rcases h.kept r' hr' with hx | hx
  · by_cases hne : (x.objects r').id = id
    · refine Or.inr ⟨id, hid, ?_⟩
      have hsame : (mgr.objects r').id = id := by
        rw [h.objects r'] at hne
        exact hne
      exact hsame ▸ find_of_mem hk hr'
    · exact Or.inl (List.mem_filter.mpr ⟨hx, by simpa using hne⟩)
  · exact Or.inr hx

end Manager.Prunes

theorem removeChildren_prunes (hk : mgr.Keyed) (all : List String) (reason : String)
    (readings : ℕ → Reading) (ids : List String) : ∀ x : Manager, mgr.Prunes all x → (∀ id ∈ ids, id ∈ all) →
    mgr.Prunes all (removeChildren reason readings x ids).1 := by
  induction ids with
  | nil => exact fun x h _ => h
  | cons id rest ih =>
    intro x h hall
    have hrest : ∀ id ∈ rest, id ∈ all := fun id hid => hall id (List.mem_cons_of_mem _ hid)
    have hid : id ∈ all := hall id List.mem_cons_self
    simp only [removeChildren]
    split
    · exact ih x h hrest
    · next r hr =>
      split
      · next y heq => exact ih _ ((h.sample hk hid hr heq).note rfl) hrest
      · next y heq =>
        exact ih _ (((h.sample hk hid hr heq).unregister hk hid).note rfl) hrest

theorem removeForkChildren_prunes (hk : mgr.Keyed) {ids : List String} (h : mgr.Prunes ids x) (reason : String)
    (readings : ℕ → Reading) :
    mgr.Prunes ids (x.removeForkChildren ids reason readings).1 := by
  simp only [removeForkChildren]
  split
  · exact h.note rfl
  · exact removeChildren_prunes hk ids reason readings _ x h fun id hid => List.mem_eraseDups.mp hid

/-! ### Putting machines back -/

/-- A machine of the registry goes back into what is left of it. -/
theorem register_mem (hk : mgr.Keyed) (hids : ∀ r, (x.objects r).id = (mgr.objects r).id)
    (hsub : ∀ r ∈ x.machines, r ∈ mgr.machines) {r : ℕ} (hr : r ∈ mgr.machines) (r' : ℕ) :
    r' ∈ (x.register r).machines ↔ r' ∈ x.machines ∨ r' = r := by
  have hmem : r' ∈ (x.register r).machines ↔ (r' ∈ x.machines ∧ (x.objects r').id ≠ (x.objects r).id) ∨ r' = r := by
    simp [register, Manager.unregister, List.mem_append, List.mem_filter]
  rw [hmem]
  constructor
  · rintro (⟨h, _⟩ | h)
    exacts [Or.inl h, Or.inr h]
  · rintro (h | h)
    · by_cases hne : r' = r
      · exact Or.inr hne
      · refine Or.inl ⟨h, fun hid => hne ?_⟩
        rw [hids, hids] at hid
        exact List.inj_on_of_nodup_map hk (hsub r' h) hr hid
    · exact Or.inr h

theorem register_nodup (h : x.machines.Nodup) (r : ℕ) : (x.register r).machines.Nodup := by
  show (List.filter _ x.machines ++ [r]).Nodup
  rw [List.nodup_append]
  refine ⟨h.filter _, List.nodup_singleton r, ?_⟩
  rintro a ha b hb rfl
  cases List.mem_singleton.mp hb
  simp at ha

/-- The loop of `restoreForkCleanup`: the machines of `es` are as in `mgr`, the others as before. -/
theorem restoreMachines (hk : mgr.Keyed) (es : List (ℕ × MachineStatus × MachineMeteringState)) :
    ∀ y : Manager,
    (∀ e ∈ es, e.1 ∈ mgr.machines ∧ e.2 = ((mgr.objects e.1).status, (mgr.objects e.1).metering)) →
    (∀ r, y.objects r = { mgr.objects r with metering := (y.objects r).metering }) →
    (∀ r ∈ y.machines, r ∈ mgr.machines) → y.machines.Nodup →
    ∃ objects machines, es.foldl restoreMachine y = { y with objects := objects, machines := machines } ∧
      (∀ r, objects r = if r ∈ es.map (·.1) then mgr.objects r else y.objects r) ∧
      (∀ r, r ∈ machines ↔ r ∈ y.machines ∨ r ∈ es.map (·.1)) ∧ machines.Nodup := by
  induction es with
  | nil => exact fun y _ _ _ hn => ⟨y.objects, y.machines, rfl, by simp, by simp, hn⟩
  | cons e es ih =>
    intro y he hy hsub hn
    obtain ⟨hmem, hval⟩ := he e List.mem_cons_self
    set m := y.modifyMachine e.1 fun m => { m with status := e.2.1, metering := e.2.2 } with hm
    have hobj : ∀ r, m.objects r = if r = e.1 then mgr.objects r else y.objects r := by
      intro r
      by_cases hr : r = e.1
      · subst hr
        rw [if_pos rfl]
        show Function.update y.objects e.1 _ e.1 = _
        rw [Function.update_self, hval, hy e.1]
      · rw [if_neg hr]
        exact Function.update_of_ne (f := y.objects) hr _
    have hids : ∀ r, (m.objects r).id = (mgr.objects r).id := by
      intro r
      rw [hobj r]
      split
      · rfl
      · rw [hy r]
    have hreg := register_mem hk hids hsub hmem
    obtain ⟨objects, machines, heq, hobjects, hmachines, hnodup⟩ := ih (m.register e.1)
      (fun e' he' => he e' (List.mem_cons_of_mem _ he'))
      (fun r => by
        show m.objects r = { mgr.objects r with metering := (m.objects r).metering }
        rw [hobj r]
        split
        · rfl
        · exact hy r)
      (fun r hr => by
        rcases (hreg r).mp hr with hr | rfl
        · exact hsub r hr
        · exact hmem)
      (register_nodup (x := m) hn e.1)
    refine ⟨objects, machines, heq, fun r => ?_, fun r => ?_, hnodup⟩
    · rw [hobjects r, show (m.register e.1).objects r = m.objects r from rfl, hobj r, List.map_cons]
      by_cases h1 : r ∈ es.map (·.1)
      · rw [if_pos h1, if_pos (List.mem_cons_of_mem _ h1)]
      · rw [if_neg h1]
        by_cases h2 : r = e.1
        · rw [if_pos h2, if_pos (List.mem_cons.mpr (Or.inl h2))]
        · rw [if_neg h2, if_neg (List.not_mem_cons_of_ne_of_not_mem h2 h1)]
    · rw [hmachines r, hreg r, List.map_cons, List.mem_cons, or_assoc]
      rfl

/-- **Everything is put back.** -/
theorem restoreForkCleanup_undoes (hk : mgr.Keyed) {ids : List String} (h : mgr.Prunes ids x) :
    ∃ machines, machines.Perm mgr.machines ∧
      (x.restoreForkCleanup (mgr.captureForkCleanup ids)).books
        = { mgr.books with machines := machines, forkTable := x.forkTable } ∧
      (x.restoreForkCleanup (mgr.captureForkCleanup ids)).filed = x.filed := by
  have hcaptured : ∀ e ∈ (mgr.captureForkCleanup ids).machines, e.1 ∈ mgr.machines ∧
      e.2 = ((mgr.objects e.1).status, (mgr.objects e.1).metering) := by
    intro e he
    obtain ⟨r, hr, rfl⟩ := List.mem_map.mp he
    obtain ⟨id, _, hid⟩ := List.mem_filterMap.mp hr
    exact ⟨(find_some hid).1, rfl⟩
  have hrefs : ∀ r, r ∈ (mgr.captureForkCleanup ids).machines.map (·.1) ↔ ∃ id ∈ ids, mgr.find id = some r := by
    intro r
    simp [captureForkCleanup, List.mem_filterMap]
  obtain ⟨objects, machines, heq, hobjects, hmachines, hnodup⟩ := restoreMachines hk _ x hcaptured h.objects
    h.machines h.nodup
  obtain ⟨os, hos⟩ := h.outbox
  have hout : x.meteringOutbox.take (mgr.captureForkCleanup ids).outboxLength = mgr.meteringOutbox := by
    rw [← hos]
    exact List.take_left
  have hobj : objects = mgr.objects := by
    funext r
    rw [hobjects r]
    split
    · rfl
    · next hr => exact h.others r fun id hid hf => hr ((hrefs r).mpr ⟨id, hid, hf⟩)
  refine ⟨machines, (List.perm_ext_iff_of_nodup hnodup (List.Nodup.of_map _ hk)).mpr fun r => ?_, ?_, ?_⟩
  · rw [hmachines r, hrefs r]
    constructor
    · rintro (hr | ⟨id, _, hid⟩)
      · exact h.machines r hr
      · exact (find_some hid).1
    · exact h.kept r
  · simp only [restoreForkCleanup, heq, books, hobj, hout, h.frame.1, h.frame.2.1, h.frame.2.2, forkTable]
  · simp only [restoreForkCleanup, heq]
    rfl

end Removal

/-! ### Undoing -/

section Undoing

variable {cfg : Config} {mgr x y : Manager} {r : ℕ} {ok : Bool}

theorem persist_books {now : Time} {fault : SaveFault} (heq : x.persist cfg now fault = (y, ok)) :
    y.books = x.books ∧ y.stateHealthy = ok := by
  simp only [persist, Prod.mk.injEq] at heq
  obtain ⟨rfl, rfl⟩ := heq
  exact ⟨rfl, rfl⟩

/-- A machine of `mgr` has another status and metering state, and the outbox is longer. -/
structure Manager.Metered (mgr : Manager) (r : ℕ) (x : Manager) : Prop where
  objects : ∃ status s, x.objects
    = Function.update mgr.objects r { mgr.objects r with status := status, metering := s }
  outbox : mgr.meteringOutbox <+: x.meteringOutbox
  frame : { x.books with objects := mgr.objects, meteringOutbox := mgr.meteringOutbox } = mgr.books
  filed : x.filed = mgr.filed

theorem sample_metered {terminal : Bool} {reading : Reading}
    (heq : mgr.sample r terminal reading = (x, ok)) : mgr.Metered r x := by
  have hs := sample_sampled mgr r terminal reading
  rw [heq] at hs
  cases hs with
  | skipped _ =>
    refine ⟨⟨(mgr.objects r).status, (mgr.objects r).metering, ?_⟩, List.prefix_refl _, rfl, rfl⟩
    exact (Function.update_eq_self r mgr.objects).symm
  | failed s healthy _ => exact ⟨⟨(mgr.objects r).status, s, rfl⟩, List.prefix_append _ _, rfl, rfl⟩
  | emitted _ _ _ s healthy _ _ _ _ =>
    exact ⟨⟨(mgr.objects r).status, _, rfl⟩, List.prefix_append _ _, rfl, rfl⟩

/-- The machine was marked before. -/
theorem Manager.Metered.of_status {status : MachineStatus} {id leaseId reason : String}
    {source : Option MachineStatus} {target : MachineStatus}
    (h : Metered ((mgr.setStatus r status).logTransition id leaseId source target reason) r x) :
    mgr.Metered r x := by
  obtain ⟨status', s, hs⟩ := h.objects
  refine ⟨⟨status', s, ?_⟩, h.outbox, ?_, h.filed⟩
  · rw [hs]
    show Function.update (Function.update mgr.objects r _) r _ = _
    rw [Function.update_idem]
    simp only [logTransition, setStatus, modifyMachine, Function.update_self]
  · exact congrArg (fun b : Books => { b with objects := mgr.objects }) h.frame

/-- The machine as it was. -/
theorem Manager.Metered.back (h : mgr.Metered r x) :
    { x.objects r with status := (mgr.objects r).status, metering := (mgr.objects r).metering }
      = mgr.objects r := by
  obtain ⟨status, s, hs⟩ := h.objects
  rw [hs, Function.update_self]

theorem Manager.Metered.ids (h : mgr.Metered r x) (r' : ℕ) : (x.objects r').id = (mgr.objects r').id := by
  obtain ⟨status, s, hs⟩ := h.objects
  rw [hs]
  by_cases hr : r' = r
  · subst hr
    rw [Function.update_self]
  · rw [Function.update_of_ne hr]

theorem Manager.Metered.find (h : mgr.Metered r x) (id : String) : x.find id = mgr.find id :=
  find_congr (congrArg Books.machines h.frame) h.ids id

/-- The books are as before when the machine is and the outbox is cut to its length. -/
theorem Manager.Metered.undone {z : Manager} (h : mgr.Metered r x) {machines : List ℕ}
    (hmachines : z.machines = machines) (hobjects : z.objects = Function.update x.objects r (mgr.objects r))
    (hout : z.meteringOutbox = x.meteringOutbox.take mgr.meteringOutbox.length)
    (hframe : { z.books with objects := x.objects, machines := x.machines, meteringOutbox := x.meteringOutbox }
      = x.books) : z.books = { mgr.books with machines := machines, forkTable := x.forkTable } := by
  obtain ⟨status, s, hs⟩ := h.objects
  obtain ⟨os, hos⟩ := h.outbox
  have hz : ∀ {α : Type} (f : Books → α), f { z.books with
      objects := x.objects, machines := x.machines, meteringOutbox := x.meteringOutbox } = f x.books :=
    fun f => congrArg f hframe
  have hx : ∀ {α : Type} (f : Books → α), f { x.books with
      objects := mgr.objects, meteringOutbox := mgr.meteringOutbox } = f mgr.books :=
    fun f => congrArg f h.frame
  refine Books.ext ?_ ((hz Books.nextObject).trans (hx Books.nextObject)) hmachines
    (hz Books.forkTable) ?_
    ((hz Books.acknowledged).trans (hx Books.acknowledged)) ((hz Books.hostBootId).trans (hx Books.hostBootId))
  · show z.objects = mgr.objects
    rw [hobjects, hs, Function.update_idem, Function.update_eq_self]
  · show z.meteringOutbox = mgr.meteringOutbox
    rw [hout, ← hos, List.take_left]

/-- The same when the registry has not changed. -/
theorem Manager.Metered.untouched {z : Manager} (h : mgr.Metered r x)
    (hobjects : z.objects = Function.update x.objects r (mgr.objects r))
    (hout : z.meteringOutbox = x.meteringOutbox.take mgr.meteringOutbox.length)
    (hframe : { z.books with objects := x.objects, meteringOutbox := x.meteringOutbox } = x.books) :
    z.books = mgr.books := by
  have hmachines : x.machines = mgr.machines := congrArg Books.machines h.frame
  have htable : x.forkTable = mgr.forkTable := congrArg Books.forkTable h.frame
  have hz := h.undone ((congrArg Books.machines hframe).trans hmachines) hobjects hout
    (by
      rw [show x.machines = z.machines from (congrArg Books.machines hframe).symm]
      exact hframe)
  rw [hz, htable]
  rfl

/-- The registry is as before when the machine that was taken out goes back. -/
theorem back_perm (hk : mgr.Keyed) {id : String} (hr : mgr.find id = some r)
    (hids : ∀ r, (x.objects r).id = (mgr.objects r).id)
    (hm : x.machines = mgr.machines.filter fun r => (mgr.objects r).id != id) :
    (x.register r).machines.Perm mgr.machines := by
  obtain ⟨hmem, hid⟩ := find_some hr
  have hsub : ∀ r' ∈ x.machines, r' ∈ mgr.machines := fun r' hr' => List.mem_of_mem_filter (hm ▸ hr')
  have hnodup : mgr.machines.Nodup := List.Nodup.of_map _ hk
  have hnodup' : x.machines.Nodup := hm ▸ hnodup.filter _
  refine (List.perm_ext_iff_of_nodup (register_nodup hnodup' r) hnodup).mpr fun r' => ?_
  rw [register_mem hk hids hsub hmem, hm, List.mem_filter]
  constructor
  · rintro (h | rfl)
    · exact h.1
    · exact hmem
  · intro h
    by_cases hne : (mgr.objects r').id = id
    · exact Or.inr (List.inj_on_of_nodup_map hk h hmem (hne.trans hid.symm))
    · exact Or.inl ⟨h, by simpa using hne⟩

end Undoing

end Nehemiah.Host
