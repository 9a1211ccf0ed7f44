import Nehemiah.Host.Vmms

/-!
# Leases in the documents

A lease that one document on disk carries, started and not final, must be carried by every later one, or
have its final observation recorded.  What a document carries, and what the registry carries, is a roll of
records and observations; one roll passes on to another what it carries, and every section passes on the
roll of the registry.

A restart is different.  It rebuilds the registry machine by machine, and a machine that becomes ready or
expires in the meantime commits the registry as far as it is rebuilt, over the document that still has all
the leases.
-/

namespace Nehemiah.Host

open Billing Manager Lib

/-! ### Rolls -/

/-- The lease is started and not final. -/
def MachineRecord.live (p : MachineRecord) : Bool := 0 < p.metering.sequence && !p.metering.final

/-- `q` is the same lease, at the same observation or a later one. -/
structure Continues (p q : MachineRecord) : Prop where
  id : q.id = p.id
  lease : q.leaseId = p.leaseId
  generation : q.metering.leaseGeneration = p.metering.leaseGeneration
  boot : q.metering.hostBootId = p.metering.hostBootId
  sequence : p.metering.sequence ≤ q.metering.sequence

instance (p q : MachineRecord) : Decidable (Continues p q) :=
  decidable_of_iff (q.id = p.id ∧ q.leaseId = p.leaseId
    ∧ q.metering.leaseGeneration = p.metering.leaseGeneration
    ∧ q.metering.hostBootId = p.metering.hostBootId ∧ p.metering.sequence ≤ q.metering.sequence)
    ⟨fun ⟨a, b, c, d, e⟩ => ⟨a, b, c, d, e⟩, fun ⟨a, b, c, d, e⟩ => ⟨a, b, c, d, e⟩⟩

/-- The observation is the final of the lease, and later than the record. -/
structure Closes (o : HostUsageObservation) (p : MachineRecord) : Prop where
  kind : o.kind = .final
  id : o.hostMachineId = p.id
  lease : o.leaseId = p.leaseId
  generation : o.leaseGeneration = p.metering.leaseGeneration
  boot : o.hostBootId = p.metering.hostBootId
  sequence : p.metering.sequence < o.sequence

instance (o : HostUsageObservation) (p : MachineRecord) : Decidable (Closes o p) :=
  decidable_of_iff (o.kind = .final ∧ o.hostMachineId = p.id ∧ o.leaseId = p.leaseId
    ∧ o.leaseGeneration = p.metering.leaseGeneration ∧ o.hostBootId = p.metering.hostBootId
    ∧ p.metering.sequence < o.sequence)
    ⟨fun ⟨a, b, c, d, e, f⟩ => ⟨a, b, c, d, e, f⟩, fun ⟨a, b, c, d, e, f⟩ => ⟨a, b, c, d, e, f⟩⟩

theorem Continues.refl (p : MachineRecord) : Continues p p := ⟨rfl, rfl, rfl, rfl, le_refl _⟩

variable {p q : MachineRecord}

theorem Continues.trans {r : MachineRecord} (h : Continues p q) (h' : Continues q r) : Continues p r :=
  ⟨h'.id.trans h.id, h'.lease.trans h.lease, h'.generation.trans h.generation, h'.boot.trans h.boot,
    h.sequence.trans h'.sequence⟩

theorem Closes.earlier {o : HostUsageObservation} (h : Closes o q) (hpq : Continues p q) : Closes o p :=
  ⟨h.kind, h.id.trans hpq.id, h.lease.trans hpq.lease, h.generation.trans hpq.generation,
    h.boot.trans hpq.boot, lt_of_le_of_lt hpq.sequence h.sequence⟩

/-- The records and the observations that a document, or the registry, carries. -/
structure Roll where
  records : List MachineRecord
  observations : List HostUsageObservation

/-- The lease of the record is carried on, or its final is recorded. -/
def Roll.Holds (l : Roll) (p : MachineRecord) : Prop :=
  (∃ q ∈ l.records, q.live = true ∧ Continues p q) ∨ ∃ o ∈ l.observations, Closes o p

/-- Every live lease of `l` is held by `l'`. -/
def Roll.Covers (l' l : Roll) : Prop := ∀ p ∈ l.records, p.live = true → l'.Holds p

/-- What `l` holds, `l'` holds. -/
structure Roll.Passes (l l' : Roll) : Prop where
  covers : l'.Covers l
  finals : ∀ o ∈ l.observations, o.kind = .final → o ∈ l'.observations

/-- Every live lease of `l'` is one of `l`, at the same observation or a later one. -/
def Roll.Narrows (l' l : Roll) : Prop :=
  ∀ q ∈ l'.records, q.live = true → ∃ p ∈ l.records, p.live = true ∧ Continues q p

namespace Roll

variable {l l' l'' : Roll} {p q : MachineRecord}

theorem Holds.earlier (h : l.Holds q) (hpq : Continues p q) : l.Holds p := by
  rcases h with ⟨r, hr, hlive, hqr⟩ | ⟨o, ho, hcloses⟩
  · exact Or.inl ⟨r, hr, hlive, hpq.trans hqr⟩
  · exact Or.inr ⟨o, ho, hcloses.earlier hpq⟩

theorem Covers.refl (l : Roll) : l.Covers l := fun p hp hlive => Or.inl ⟨p, hp, hlive, .refl p⟩

theorem Passes.refl (l : Roll) : l.Passes l := ⟨.refl l, fun _ ho _ => ho⟩

theorem Passes.holds (h : l.Passes l') (hp : l.Holds p) : l'.Holds p := by
  rcases hp with ⟨q, hq, hlive, hpq⟩ | ⟨o, ho, hcloses⟩
  · exact (h.covers q hq hlive).earlier hpq
  · exact Or.inr ⟨o, h.finals o ho hcloses.kind, hcloses⟩

theorem Passes.trans (h : l.Passes l') (h' : l'.Passes l'') : l.Passes l'' :=
  ⟨fun p hp hlive => h'.holds (h.covers p hp hlive), fun o ho hk => h'.finals o (h.finals o ho hk) hk⟩

theorem Passes.covers_of (h : l'.Passes l'') (hc : l'.Covers l) : l''.Covers l :=
  fun p hp hlive => h.holds (hc p hp hlive)

theorem Narrows.refl (l : Roll) : l.Narrows l := fun q hq hlive => ⟨q, hq, hlive, .refl q⟩

theorem Narrows.trans (h : l''.Narrows l') (h' : l'.Narrows l) : l''.Narrows l := by
  intro q hq hlive
  obtain ⟨p, hp, hplive, hqp⟩ := h q hq hlive
  obtain ⟨r, hr, hrlive, hpr⟩ := h' p hp hplive
  exact ⟨r, hr, hrlive, hqp.trans hpr⟩

/-- What has only lost leases is covered by what it was before. -/
theorem Narrows.covers (h : l'.Narrows l) : l.Covers l' := fun q hq hlive => by
  obtain ⟨p, hp, hplive, hqp⟩ := h q hq hlive
  exact Or.inl ⟨p, hp, hplive, hqp⟩

end Roll

def MachineStateSnapshot.roll (s : MachineStateSnapshot) : Roll :=
  ⟨s.machines.map (·.toMachineRecord), s.acknowledged ++ s.meteringOutbox⟩

def Manager.roll (mgr : Manager) : Roll :=
  ⟨mgr.machines.map fun r => (mgr.objects r).toMachineRecord, mgr.acknowledged ++ mgr.meteringOutbox⟩

/-- **A later document.**  Every lease that `s` carries, started and not final, is in `t` at the same
observation or a later one, or its final is in the outbox of `t` or acknowledged. -/
def Follows (s t : MachineStateSnapshot) : Prop :=
  ∀ p ∈ s.machines, p.live = true → (∃ q ∈ t.machines, Continues p.toMachineRecord q.toMachineRecord) ∨
    ∃ o ∈ t.acknowledged ++ t.meteringOutbox, Closes o p.toMachineRecord

instance (s t : MachineStateSnapshot) : Decidable (Follows s t) := by
  unfold Follows
  infer_instance

theorem follows_of_covers {s t : MachineStateSnapshot} (h : t.roll.Covers s.roll) : Follows s t := by
  intro p hp hlive
  refine (h p.toMachineRecord (List.mem_map_of_mem hp) hlive).imp_left ?_
  rintro ⟨q, hq, _, hpq⟩
  obtain ⟨q', hq', rfl⟩ := List.mem_map.mp hq
  exact ⟨q', hq', hpq⟩

/-- What is on disk after each save. -/
def Manager.written (mgr : Manager) : List MachineStateSnapshot := mgr.saves.filterMap (·.disk)

theorem eligible_live (mgr : Manager) (r : ℕ) : mgr.eligible r = (mgr.objects r).live := rfl

/-! ### The documents of a manager -/

/-- Every document on disk covers the ones before it, and names its live leases; the last one is there. -/
structure Manager.Archived (mgr : Manager) : Prop where
  disk : mgr.store.disk = mgr.written.getLast?
  ordered : mgr.written.Pairwise fun s t => t.roll.Covers s.roll
  named : ∀ s ∈ mgr.written, ∀ p ∈ s.machines, p.live = true → p.publicId ≠ ""

/-- The manager holds every lease that any document carries. -/
structure Manager.Custody (mgr : Manager) : Prop extends mgr.Archived where
  kept : ∀ s ∈ mgr.written, mgr.roll.Covers s.roll
  labelled : ∀ r, mgr.eligible r = true → (mgr.objects r).publicId ≠ ""

section Archive

variable {mgr x y : Manager}

theorem written_of_filed (h : y.filed = x.filed) : y.written = x.written :=
  congrArg (fun f => f.commits.saves.filterMap (·.disk)) h

/-- The last document covers all. -/
theorem Manager.Archived.last (h : mgr.Archived) {c : MachineStateSnapshot} (hc : mgr.store.disk = some c) :
    c ∈ mgr.written ∧ ∀ s ∈ mgr.written, c.roll.Covers s.roll := by
  have hlast := h.disk.symm.trans hc
  obtain ⟨front, hfront⟩ := List.getLast?_eq_some_iff.mp hlast
  have hordered := h.ordered
  rw [hfront, List.pairwise_append] at hordered
  refine ⟨hfront ▸ List.mem_append_right _ (List.mem_singleton_self c), fun s hs => ?_⟩
  rw [hfront] at hs
  rcases List.mem_append.mp hs with hs | hs
  · exact hordered.2.2 s hs c (List.mem_singleton_self c)
  · rw [List.mem_singleton.mp hs]
    exact .refl _

theorem Manager.Archived.of_disk (h : x.Archived) (hdisk : y.store.disk = x.store.disk) (hsaves : y.saves = x.saves) :
    y.Archived := by
  have hwritten : y.written = x.written := by rw [written, hsaves, written]
  refine ⟨?_, ?_, ?_⟩
  · rw [hdisk, hwritten]
    exact h.disk
  · rw [hwritten]
    exact h.ordered
  · rw [hwritten]
    exact h.named

theorem Manager.Archived.of_filed (h : x.Archived) (hf : y.filed = x.filed) : y.Archived :=
  h.of_disk (congrArg (fun f => f.commits.store.disk) hf) (congrArg (fun f => f.commits.saves) hf)

/-- A save leaves the old document or the new one. -/
theorem saved_written (mgr : Manager) (doc : MachineStateSnapshot) (fault : SaveFault) :
    (mgr.saved doc fault).1.written = mgr.written ++ (mgr.saved doc fault).1.store.disk.toList ∧
      ((mgr.saved doc fault).1.store.disk = mgr.store.disk ∨
        (mgr.saved doc fault).1.store.disk = some doc) := by
  have hdisk : (mgr.saved doc fault).1.store = (mgr.store.save doc fault).1 := rfl
  refine ⟨?_, ?_⟩
  · have hsaves : (mgr.saved doc fault).1.saves
        = mgr.saves ++ [⟨doc, (mgr.store.save doc fault).2, (mgr.store.save doc fault).1.disk⟩] := rfl
    rw [written, hsaves, List.filterMap_append, hdisk]
    cases h : (mgr.store.save doc fault).1.disk <;> rfl
  · rw [hdisk]
    unfold StateStore.save
    split
    · exact Or.inl rfl
    · cases fault with
      | none => exact Or.inr rfl
      | beforeRename => exact Or.inl rfl
      | afterRename => exact Or.inr rfl

/-- A document that covers all the others, and names its live leases, may be saved. -/
theorem Manager.Archived.saved (h : mgr.Archived) {doc : MachineStateSnapshot}
    (hcovers : ∀ s ∈ mgr.written, doc.roll.Covers s.roll)
    (hnamed : ∀ p ∈ doc.machines, p.live = true → p.publicId ≠ "") (fault : SaveFault) :
    (mgr.saved doc fault).1.Archived ∧
      ∀ s ∈ (mgr.saved doc fault).1.written, s ∈ mgr.written ∨ s = doc := by
  obtain ⟨hwritten, hdisk⟩ := saved_written mgr doc fault
  cases hc : (mgr.saved doc fault).1.store.disk with
  | none =>
    rw [hc, Option.toList_none, List.append_nil] at hwritten
    have hnone : mgr.store.disk = none := by
      rw [hc] at hdisk
      exact (hdisk.resolve_right fun hd => by cases hd).symm
    refine ⟨⟨?_, hwritten ▸ h.ordered, hwritten ▸ h.named⟩, fun s hs => Or.inl (hwritten ▸ hs)⟩
    rw [hwritten, ← h.disk, hc, hnone]
  | some c =>
    rw [hc, Option.toList_some] at hwritten
    rw [hc] at hdisk
    have hold : (c ∈ mgr.written ∧ ∀ s ∈ mgr.written, c.roll.Covers s.roll) ∨ c = doc :=
      hdisk.imp (fun hd => h.last hd.symm) Option.some.inj
    refine ⟨⟨?_, ?_, ?_⟩, fun s hs => ?_⟩
    · rw [hwritten, hc, List.getLast?_append, List.getLast?_singleton]
      rfl
    · rw [hwritten, List.pairwise_append]
      refine ⟨h.ordered, List.pairwise_singleton _ _, fun s hs t ht => ?_⟩
      rw [List.mem_singleton.mp ht]
      rcases hold with hold | rfl
      · exact hold.2 s hs
      · exact hcovers s hs
    · intro s hs
      rw [hwritten] at hs
      rcases List.mem_append.mp hs with hs | hs
      · exact h.named s hs
      · rw [List.mem_singleton.mp hs]
        rcases hold with hold | rfl
        · exact h.named c hold.1
        · exact hnamed
    · rw [hwritten] at hs
      rcases List.mem_append.mp hs with hs | hs
      · exact Or.inl hs
      · rw [List.mem_singleton.mp hs]
        exact hold.imp_left And.left

/-- The document of a manager has the roll of the manager. -/
theorem snapshot_roll (mgr : Manager) (cfg : Config) (generation : ℕ) (now : Time) :
    (mgr.snapshot cfg generation now).roll.observations = mgr.roll.observations ∧
      ∀ p, p ∈ (mgr.snapshot cfg generation now).roll.records ↔ p ∈ mgr.roll.records := by
  refine ⟨rfl, fun p => ?_⟩
  have hperm : (mgr.snapshot cfg generation now).machines.Perm
      (mgr.machines.map fun r => (mgr.objects r).persisted) := List.perm_insertionSort _ _
  have hmap := (hperm.map (·.toMachineRecord)).mem_iff (a := p)
  rw [List.map_map] at hmap
  exact hmap

end Archive

/-! ### Sections -/

/-- The two records are of one lease at one observation. -/
structure SameLease (p q : MachineRecord) : Prop where
  id : q.id = p.id
  lease : q.leaseId = p.leaseId
  metering : q.metering = p.metering

theorem SameLease.refl (p : MachineRecord) : SameLease p p := ⟨rfl, rfl, rfl⟩

theorem SameLease.symm (h : SameLease p q) : SameLease q p :=
  ⟨h.id.symm, h.lease.symm, h.metering.symm⟩

theorem SameLease.continues (h : SameLease p q) : Continues p q :=
  ⟨h.id, h.lease, by rw [h.metering], by rw [h.metering], by rw [h.metering]⟩

theorem SameLease.live (h : SameLease p q) : q.live = p.live := by
  rw [MachineRecord.live, MachineRecord.live, h.metering]

section Steps

variable {mgr x y : Manager} {r : ℕ}

/-- The registry names the same machines, and each is the same lease as before. -/
theorem alike_passes (hm : ∀ r, r ∈ y.machines ↔ r ∈ x.machines)
    (hsame : ∀ r ∈ x.machines, SameLease (x.objects r).toMachineRecord (y.objects r).toMachineRecord)
    (ho : ∀ o ∈ x.roll.observations, o ∈ y.roll.observations) :
    x.roll.Passes y.roll ∧ y.roll.Narrows x.roll := by
  refine ⟨⟨fun p hp hlive => ?_, fun o hx _ => ho o hx⟩, fun q hq hlive => ?_⟩
  · obtain ⟨r, hr, rfl⟩ := List.mem_map.mp hp
    have h := hsame r hr
    exact Or.inl ⟨_, List.mem_map_of_mem ((hm r).mpr hr), h.live.trans hlive, h.continues⟩
  · obtain ⟨r, hr, rfl⟩ := List.mem_map.mp hq
    have h := hsame r ((hm r).mp hr)
    exact ⟨_, List.mem_map_of_mem ((hm r).mp hr), h.live.symm.trans hlive, h.symm.continues⟩

variable {reading : Reading} {scope : Scope}

/-- The egress part of a sample keeps the chain of the lease. -/
theorem sampleEgress_chain {s s' : MachineMeteringState} {monotonic : ℕ} {tap : String} {terminal : Bool}
    {q q' : Quality} (h : sampleEgress (clocked s monotonic) tap terminal reading q = some (s', q')) :
    s'.leaseGeneration = s.leaseGeneration ∧ s'.hostBootId = s.hostBootId ∧ s'.sequence = s.sequence ∧
      s'.final = s.final := by
  have hcounted : ∀ raw, (counted (clocked s monotonic) raw).leaseGeneration = s.leaseGeneration ∧
      (counted (clocked s monotonic) raw).hostBootId = s.hostBootId ∧
      (counted (clocked s monotonic) raw).sequence = s.sequence ∧
      (counted (clocked s monotonic) raw).final = s.final := by
    intro raw
    simp only [counted]
    split <;> exact ⟨rfl, rfl, rfl, rfl⟩
  simp only [sampleEgress] at h
  split at h
  · cases h
    exact ⟨rfl, rfl, rfl, rfl⟩
  · split at h
    · cases h
      exact hcounted _
    · split at h
      · cases h
      · split at h <;> cases h <;> exact ⟨rfl, rfl, rfl, rfl⟩

/-- A sample that is recorded carries the lease on, or closes it. -/
theorem sample_passes {terminal : Bool} (heq : x.sample r terminal reading = (y, true)) :
    x.roll.Passes y.roll ∧ (terminal = true → y.roll.Narrows x.roll) := by
  have hs := sample_sampled x r terminal reading
  rw [heq] at hs
  cases hs with
  | skipped _ => exact ⟨.refl _, fun _ => .refl _⟩
  | emitted monotonic q quality s healthy hlive _ hegress _ =>
    obtain ⟨hgen, hboot, hseq, hfinal⟩ := sampleEgress_chain hegress
    set o := observation { (x.objects r).toMachineRecord with metering := sampledState s terminal reading }
      (processId (x.objects r).driver) (if terminal then .final else .checkpoint) quality reading.observedAt with ho
    set y := x.emit r (sampledState s terminal reading) (x.objects r).meteringReserved [o] healthy with hy
    have hobs : y.roll.observations = x.roll.observations ++ [o] := (List.append_assoc _ _ _).symm
    have hown : y.objects r = { x.objects r with metering := sampledState s terminal reading } := emit_object x r _ _ _ _
    have hother : ∀ r', r' ≠ r → y.objects r' = x.objects r' := fun r' hr => emit_object_of_ne x hr _ _ _ _
    refine ⟨⟨fun p hp hplive => ?_, fun o' ho' _ => ?_⟩, fun hterminal => ?_⟩
    · obtain ⟨r', hr', rfl⟩ := List.mem_map.mp hp
      by_cases hr : r' = r
      · subst hr
        cases terminal with
        | true =>
          refine Or.inr ⟨o, hobs ▸ List.mem_append_right _ (List.mem_singleton_self o), rfl, rfl, rfl, hgen, hboot, ?_⟩
          show (x.objects r').metering.sequence < s.sequence + 1
          rw [hseq]
          exact Nat.lt_succ_self _
        | false =>
          have hcont : Continues (x.objects r').toMachineRecord (y.objects r').toMachineRecord := by
            rw [hown]
            exact ⟨rfl, rfl, hgen, hboot, hseq ▸ Nat.le_succ _⟩
          refine Or.inl ⟨_, List.mem_map_of_mem hr', ?_, hcont⟩
          rw [hown]
          simp only [MachineRecord.live, sampledState, hfinal, Bool.or_false, Bool.and_eq_true,
            decide_eq_true_eq] at hplive ⊢
          exact ⟨Nat.succ_pos _, hplive.2⟩
      · refine Or.inl ⟨_, List.mem_map_of_mem hr', ?_⟩
        rw [hother r' hr]
        exact ⟨hplive, .refl _⟩
    · rw [hobs]
      exact List.mem_append_left _ ho'
    · intro q' hq' hlive'
      obtain ⟨r', hr', rfl⟩ := List.mem_map.mp hq'
      have hne : r' ≠ r := by
        rintro rfl
        rw [hown, hterminal] at hlive'
        simp [MachineRecord.live, sampledState] at hlive'
      rw [hother r' hne] at hlive' ⊢
      exact ⟨_, List.mem_map_of_mem hr', hlive', .refl _⟩

/-- A machine without a live lease leaves the registry, and no other has its id. -/
theorem unregister_passes (hsole : ∀ r' ∈ x.machines, (x.objects r').id = (x.objects r).id → r' = r)
    (hidle : x.eligible r = false) :
    x.roll.Passes (x.unregister (x.objects r).id).roll ∧ (x.unregister (x.objects r).id).roll.Narrows x.roll := by
  refine ⟨⟨fun p hp hlive => ?_, fun _ ho _ => ho⟩, fun q hq hlive => ?_⟩
  · obtain ⟨r', hr', rfl⟩ := List.mem_map.mp hp
    refine Or.inl ⟨_, List.mem_map_of_mem (List.mem_filter.mpr ⟨hr', ?_⟩), hlive, .refl _⟩
    rw [bne_iff_ne]
    intro hid
    rw [← eligible_live, hsole r' hr' hid, hidle] at hlive
    cases hlive
  · obtain ⟨r', hr', rfl⟩ := List.mem_map.mp hq
    exact ⟨_, List.mem_map_of_mem (List.mem_of_mem_filter hr'), hlive, .refl _⟩

/-- A new machine that is not metered enters the registry. -/
theorem allocate_passes {m : Machine} (hp : x.Placed) (hfree : x.registered m.id = false) (hnew : m.metering = {}) :
    x.roll.Passes (x.allocate m).1.roll ∧ (x.allocate m).1.roll.Narrows x.roll := by
  have hmach := allocate_machines hp hfree
  have hold : ∀ r ∈ x.machines, (x.allocate m).1.objects r = x.objects r := fun r hr =>
    allocate_old x m (hp r hr)
  refine ⟨⟨fun p hp' hlive => ?_, fun _ ho _ => ho⟩, fun q hq hlive => ?_⟩
  · obtain ⟨r, hr, rfl⟩ := List.mem_map.mp hp'
    refine Or.inl ⟨_, List.mem_map_of_mem (hmach ▸ List.mem_append_left _ hr), ?_⟩
    rw [hold r hr]
    exact ⟨hlive, .refl _⟩
  · obtain ⟨r, hr, rfl⟩ := List.mem_map.mp hq
    rcases List.mem_append.mp (hmach ▸ hr) with hr | hr
    · rw [hold r hr] at hlive ⊢
      exact ⟨_, List.mem_map_of_mem hr, hlive, .refl _⟩
    · rw [List.mem_singleton.mp hr, allocate_new, MachineRecord.live, hnew] at hlive
      cases hlive

/-- **A commit keeps custody**: what it may put on disk is what the registry carries. -/
theorem Manager.Custody.persist (h : x.Custody) (cfg : Config) (now : Time) (fault : SaveFault) :
    (x.persist cfg now fault).1.Custody ∧
      ∀ s ∈ (x.persist cfg now fault).1.written, s ∈ x.written ∨ ∀ p ∈ s.roll.records, p ∈ x.roll.records := by
  set doc := x.snapshot cfg (nextGeneration x.stateGeneration) now with hdoc
  obtain ⟨hobs, hrec⟩ := snapshot_roll x cfg (nextGeneration x.stateGeneration) now
  have hpasses : x.roll.Passes doc.roll :=
    ⟨fun p hp hlive => Or.inl ⟨p, (hrec p).mpr hp, hlive, .refl p⟩, fun o ho _ => hobs ▸ ho⟩
  have hnamed : ∀ p ∈ doc.machines, p.live = true → p.publicId ≠ "" := by
    intro p hp hlive
    have hmem : p.toMachineRecord ∈ x.roll.records := (hrec _).mp (List.mem_map_of_mem hp)
    obtain ⟨r, hr, heq⟩ := List.mem_map.mp hmem
    have hlabel := h.labelled r
    rw [eligible_live, heq] at hlabel
    exact hlabel hlive
  obtain ⟨harch, hmem⟩ := h.toArchived.saved (fun s hs => hpasses.covers_of (h.kept s hs)) hnamed fault
  have hfiled : (x.persist cfg now fault).1.saves = (x.saved doc fault).1.saves := rfl
  have hwritten : (x.persist cfg now fault).1.written = (x.saved doc fault).1.written := rfl
  refine ⟨⟨⟨harch.disk, harch.ordered, harch.named⟩, fun s hs => ?_, h.labelled⟩, fun s hs => ?_⟩
  · rcases hmem s hs with hs | rfl
    · exact h.kept s hs
    · exact fun p hp hlive => Or.inl ⟨p, (hrec p).mp hp, hlive, .refl p⟩
  · rcases hmem s hs with hs | rfl
    · exact Or.inl hs
    · exact Or.inr fun p hp => (hrec p).mp hp

/-- What a section has done so far: it holds the documents and passes on the roll; and a section that may
put everything back has put nothing on disk that the roll at its start does not cover. -/
structure Manager.Hands (scope : Scope) (mgr x : Manager) : Prop where
  custody : x.Custody
  passes : mgr.roll.Passes x.roll
  back : scope.undoes → x.roll.Narrows mgr.roll ∧ ∀ s ∈ x.written, mgr.roll.Covers s.roll

theorem Manager.Hands.next (h : mgr.Hands scope x) (hpasses : x.roll.Passes y.roll)
    (hnarrows : scope.undoes → y.roll.Narrows x.roll) (hfiled : y.filed = x.filed)
    (hlabelled : ∀ r, y.eligible r = true → (y.objects r).publicId ≠ "") : mgr.Hands scope y := by
  have hwritten : y.written = x.written := written_of_filed hfiled
  refine ⟨⟨h.custody.toArchived.of_filed hfiled, fun s hs => ?_, hlabelled⟩, h.passes.trans hpasses,
    fun hscope => ⟨(hnarrows hscope).trans (h.back hscope).1, fun s hs => (h.back hscope).2 s (hwritten ▸ hs)⟩⟩
  exact hpasses.covers_of (h.custody.kept s (hwritten ▸ hs))

theorem Manager.Hands.booked (h : mgr.Hands scope x) (ho : y.objects = x.objects) (hm : y.machines = x.machines)
    (ha : y.acknowledged = x.acknowledged) (hout : y.meteringOutbox = x.meteringOutbox) (hfiled : y.filed = x.filed) :
    mgr.Hands scope y := by
  have hroll : y.roll = x.roll := by rw [roll, roll, ho, hm, ha, hout]
  refine h.next (hroll ▸ .refl _) (fun _ => hroll ▸ .refl _) hfiled fun r he => ?_
  rw [eligible, ho] at he
  rw [ho]
  exact h.custody.labelled r he

theorem Manager.Hands.persist (h : mgr.Hands scope x) (cfg : Config) (now : Time) (fault : SaveFault) :
    mgr.Hands scope (x.persist cfg now fault).1 := by
  obtain ⟨hcustody, hmem⟩ := h.custody.persist cfg now fault
  refine ⟨hcustody, h.passes, fun hscope => ⟨(h.back hscope).1, fun s hs => ?_⟩⟩
  rcases hmem s hs with hs | hs
  · exact (h.back hscope).2 s hs
  · exact fun p hp hlive => (h.back hscope).1.covers p (hs p hp) hlive

/-- **Every section that starts no machine keeps custody and passes on the roll**, unless it could undo a
checkpoint. -/
theorem does_hands {cfg : Config} {removed : List ℕ} (h : mgr.Does cfg scope removed x) (hboots : scope.boots = [])
    (hback : scope.undoes → ¬ scope.checkpoints) (hp : mgr.Placed) (hk : mgr.Keyed) (hm : mgr.Custody) :
    mgr.Hands scope x := by
  have hnone : ∀ r, r ∉ scope.boots := fun r hr => by
    rw [hboots] at hr
    cases hr
  induction h with
  | start =>
    refine ⟨hm, .refl _, fun _ => ⟨.refl _, hm.kept⟩⟩
  | note _ hbooks hfiled ih =>
    exact ih.booked (congrArg Books.objects hbooks) (congrArg Books.machines hbooks)
      (congrArg Books.acknowledged hbooks) (congrArg Books.meteringOutbox hbooks) hfiled
  | @mark removed x _ r status ready diskMb ih =>
    have hsame : ∀ r', SameLease (x.objects r').toMachineRecord
        ((x.modifyMachine r fun m => { m with status := status, ready := ready, diskMb := diskMb }).objects
          r').toMachineRecord := by
      intro r'
      by_cases hr : r' = r
      · subst hr
        simp only [modifyMachine, Function.update_self]
        exact ⟨rfl, rfl, rfl⟩
      · simp only [modifyMachine, Function.update_of_ne hr]
        exact .refl _
    obtain ⟨hpasses, hnarrows⟩ := alike_passes (x := x) (y := x.modifyMachine r fun m => { m with
      status := status, ready := ready, diskMb := diskMb }) (fun _ => Iff.rfl) (fun r' _ => hsame r') fun _ ho => ho
    refine ih.next hpasses (fun _ => hnarrows) rfl fun r' he => ?_
    rw [eligible_live, (hsame r').live] at he
    have hlabel := ih.custody.labelled r' he
    by_cases hr : r' = r
    · subst hr
      simp only [modifyMachine, Function.update_self]
      exact hlabel
    · simp only [modifyMachine, Function.update_of_ne hr]
      exact hlabel
  | drive _ r _ hr _ => exact absurd hr (hnone r)
  | meter _ r _ hr _ _ => exact absurd hr (hnone r)
  | @checkpoint removed x y _ hscope r reading heq ih =>
    have hv := sample_visits x heq
    refine ih.next (sample_passes heq).1 (fun hu => absurd hscope (hback hu)) hv.filed fun r' he => ?_
    rw [hv.objects r']
    exact ih.custody.labelled r' (sample_eligible_of heq he)
  | @final removed x y ok _ r reading heq hok ih =>
    have htrue : ok = true := hok.elim (fun h => h) fun hroom => by
      have hfinal := sample_final x r reading fun he => ⟨ih.custody.labelled r he, hroom⟩
      rwa [heq] at hfinal
    subst htrue
    have hv := sample_visits x heq
    refine ih.next (sample_passes heq).1 (fun _ => (sample_passes heq).2 rfl) hv.filed fun r' he => ?_
    rw [hv.objects r']
    exact ih.custody.labelled r' (sample_eligible_of heq he)
  | @drop removed x h id r hr hdone ih =>
    obtain ⟨hmem, rfl⟩ := find_some hr
    have hkeyed := (h.tidy hp hk).keyed
    obtain ⟨hpasses, hnarrows⟩ := unregister_passes (fun r' hr' hid => List.inj_on_of_nodup_map hkeyed hr' hmem hid)
      hdone
    exact ih.next hpasses (fun _ => hnarrows) rfl ih.custody.labelled
  | evict _ r hr _ _ _ _ => exact absurd hr (hnone r)
  | @place removed x h m _ hfree hnew _ ih =>
    have hplaced := (h.tidy hp hk).placed
    obtain ⟨hpasses, hnarrows⟩ := allocate_passes hplaced hfree hnew
    refine ih.next hpasses (fun _ => hnarrows) rfl fun r he => ?_
    by_cases hr : r = x.nextObject
    · rw [hr, eligible_live, allocate_new, MachineRecord.live, hnew] at he
      cases he
    · have ho : (x.allocate m).1.objects r = x.objects r := Function.update_of_ne hr _ _
      rw [ho]
      rw [eligible, ho] at he
      exact ih.custody.labelled r he
  | reserve _ _ _ hbooks hfiled ih =>
    exact ih.booked (congrArg Books.objects hbooks) (congrArg Books.machines hbooks)
      (congrArg Books.acknowledged hbooks) (congrArg Books.meteringOutbox hbooks) hfiled
  | @deliver removed x _ n ih =>
    set y : Manager := { x with
      meteringOutbox := x.meteringOutbox.drop n
      acknowledged := x.acknowledged ++ x.meteringOutbox.take n } with hy
    have hroll : y.roll = x.roll := by
      show (⟨_, (x.acknowledged ++ x.meteringOutbox.take n) ++ x.meteringOutbox.drop n⟩ : Roll) = _
      rw [List.append_assoc, List.take_append_drop]
      rfl
    exact ih.next (hroll ▸ .refl _) (fun _ => hroll ▸ .refl _) rfl ih.custody.labelled
  | commit _ now fault ih => exact ih.persist cfg now fault
  | unmeter _ _ _ r hr _ _ _ => exact absurd hr (hnone r)
  | @undo removed x y _ hscope _ machines hperm hbooks hfiled ih =>
    obtain ⟨_, hkept⟩ := ih.back hscope
    have ho : y.objects = mgr.objects := congrArg Books.objects hbooks
    have hwritten : y.written = x.written := written_of_filed hfiled
    have hmem : ∀ r, r ∈ y.machines ↔ r ∈ mgr.machines := fun r => by
      rw [show y.machines = machines from congrArg Books.machines hbooks]
      exact hperm.mem_iff
    obtain ⟨hpasses, hnarrows⟩ := alike_passes hmem (fun r _ => by rw [ho]; exact .refl _) fun o h => by
      rw [roll, show y.acknowledged = mgr.acknowledged from congrArg Books.acknowledged hbooks,
        show y.meteringOutbox = mgr.meteringOutbox from congrArg Books.meteringOutbox hbooks]
      exact h
    refine ⟨⟨ih.custody.toArchived.of_filed hfiled, fun s hs => ?_, fun r he => ?_⟩, hpasses,
      fun _ => ⟨hnarrows, fun s hs => hkept s (hwritten ▸ hs)⟩⟩
    · exact hpasses.covers_of (hkept s (hwritten ▸ hs))
    · rw [eligible, ho] at he
      rw [ho]
      exact hm.labelled r he

/-! ### Starts -/

theorem Manager.Custody.hands (h : mgr.Custody) : mgr.Hands {} mgr :=
  ⟨h, .refl _, fun hscope => hscope.elim⟩

/-- A change of a machine that is not about its lease. -/
theorem modifyMachine_passes (x : Manager) (r : ℕ) (f : Machine → Machine)
    (hf : ∀ m : Machine, SameLease m.toMachineRecord (f m).toMachineRecord ∧ (f m).publicId = m.publicId) :
    x.roll.Passes (x.modifyMachine r f).roll ∧ (x.modifyMachine r f).roll.Narrows x.roll ∧
      ((∀ r', x.eligible r' = true → (x.objects r').publicId ≠ "") →
        ∀ r', (x.modifyMachine r f).eligible r' = true → ((x.modifyMachine r f).objects r').publicId ≠ "") := by
  have hobj : ∀ r', SameLease (x.objects r').toMachineRecord ((x.modifyMachine r f).objects r').toMachineRecord ∧
      ((x.modifyMachine r f).objects r').publicId = (x.objects r').publicId := by
    intro r'
    by_cases hr : r' = r
    · subst hr
      simp only [modifyMachine, Function.update_self]
      exact hf _
    · rw [show (x.modifyMachine r f).objects r' = x.objects r' from Function.update_of_ne hr _ _]
      exact ⟨.refl _, rfl⟩
  obtain ⟨hpasses, hnarrows⟩ := alike_passes (x := x) (y := x.modifyMachine r f) (fun _ => Iff.rfl)
    (fun r' _ => (hobj r').1) fun _ ho => ho
  refine ⟨hpasses, hnarrows, fun hlabelled r' he => ?_⟩
  rw [eligible_live, (hobj r').1.live] at he
  rw [(hobj r').2]
  exact hlabelled r' he

/-- A start makes its own lease live and touches no other. -/
theorem start_passes {ok : Bool} (hidle : x.eligible r = false)
    (hlabelled : ∀ r', x.eligible r' = true → (x.objects r').publicId ≠ "")
    (heq : x.recordMeterStart r reading = (y, ok)) :
    x.roll.Passes y.roll ∧ (∀ r', y.eligible r' = true → (y.objects r').publicId ≠ "") ∧
      (r ∉ x.machines ∨ metered (x.objects r).toMachineRecord = false ∨ ok = false → y.roll.Narrows x.roll) := by
  have hs := recordMeterStart_started x r reading
  rw [heq] at hs
  cases hs with
  | unmetered _ => exact ⟨.refl _, hlabelled, fun _ => .refl _⟩
  | failed healthy => exact ⟨.refl _, hlabelled, fun _ => .refl _⟩
  | emitted now healthy hmetered _ _ _ =>
    set s := x.startState (x.objects r) now reading with hs
    set o := observation { (x.objects r).toMachineRecord with metering := s } (processId (x.objects r).driver)
      .start exact reading.observedAt with ho
    have hown : (x.emit r s false [o] healthy).objects r
        = { x.objects r with metering := s, meteringReserved := false } := emit_object x r _ _ _ _
    have hother : ∀ r', r' ≠ r → (x.emit r s false [o] healthy).objects r' = x.objects r' :=
      fun r' hr => emit_object_of_ne x hr _ _ _ _
    refine ⟨⟨fun p hp hlive => ?_, fun o' ho' _ => ?_⟩, fun r' he => ?_, fun hnone q hq hlive => ?_⟩
    · obtain ⟨r', hr', rfl⟩ := List.mem_map.mp hp
      have hne : r' ≠ r := by
        rintro rfl
        rw [← eligible_live, hidle] at hlive
        cases hlive
      refine Or.inl ⟨_, List.mem_map_of_mem hr', ?_⟩
      rw [hother r' hne]
      exact ⟨hlive, .refl _⟩
    · show o' ∈ x.acknowledged ++ (x.meteringOutbox ++ [o])
      rw [← List.append_assoc]
      exact List.mem_append_left _ ho'
    · by_cases hr : r' = r
      · rw [hr, hown]
        exact publicId_of_metered hmetered
      · rw [hother r' hr]
        rw [eligible, hother r' hr] at he
        exact hlabelled r' he
    · obtain ⟨r', hr', rfl⟩ := List.mem_map.mp hq
      have hne : r' ≠ r := by
        rintro rfl
        rcases hnone with hnone | hnone | hnone
        · exact hnone hr'
        · rw [hmetered] at hnone
          cases hnone
        · cases hnone
      rw [hother r' hne] at hlive ⊢
      exact ⟨_, List.mem_map_of_mem hr', hlive, .refl _⟩

/-- A create that gives up takes its own machine out, which is not metered. -/
theorem Manager.Custody.give_up (h : x.Custody) (hsole : ∀ r' ∈ x.machines, (x.objects r').id = (x.objects r).id → r' = r)
    (hidle : x.eligible r = false) (cfg : Config) (source : Option MachineStatus) (target : MachineStatus)
    (reason : String) (now : Time) (fault : SaveFault) :
    (((x.unregister (x.objects r).id).transition r source target reason).persist cfg now fault).1.Custody := by
  have hgone : x.Hands {} ((x.unregister (x.objects r).id).transition r source target reason) :=
    h.hands.next (unregister_passes hsole hidle).1 False.elim rfl h.labelled
  exact (hgone.persist cfg now fault).custody

/-- A fork that has booted a child. -/
theorem publishChild_custody (h : mgr.Custody) (hidle : mgr.eligible r = false) (cfg : Config) (driver : Driver)
    (reading : Reading) (now : Time) (fault : SaveFault) :
    (mgr.publishChild cfg r driver reading now fault).1.Custody := by
  simp only [publishChild]
  split
  · exact h
  · set running := (mgr.modifyMachine r fun m => { m with driver := some driver, status := .starting }).transition r
      (some .booting) .starting "managed_fork_vmm_started" with hrunning
    obtain ⟨hpasses, _, hlabel⟩ := modifyMachine_passes mgr r
      (fun m => { m with driver := some driver, status := .starting }) fun _ => ⟨⟨rfl, rfl, rfl⟩, rfl⟩
    have hrun : mgr.Hands {} running := h.hands.next hpasses False.elim rfl (hlabel h.labelled)
    have hidle' : running.eligible r = false := by
      refine (eligible_congr ?_).trans hidle
      exact modifyMachine_metering mgr r r (fun m => { m with driver := some driver, status := .starting }) fun _ => rfl
    split
    · next x heq =>
      obtain ⟨hstart, hlabelled, _⟩ := start_passes hidle' hrun.custody.labelled heq
      exact (hrun.next hstart False.elim (meter_registry running heq).2.2.1 hlabelled).custody
    · next x heq =>
      obtain ⟨hstart, hlabelled, _⟩ := start_passes hidle' hrun.custody.labelled heq
      exact ((hrun.next hstart False.elim (meter_registry running heq).2.2.1 hlabelled).persist cfg now fault).custody

/-- A save that fails before the rename leaves the documents as they are. -/
theorem Manager.Archived.unsaved (h : x.Archived) (cfg : Config) (now : Time) :
    ∀ s ∈ (x.persist cfg now .beforeRename).1.written, s ∈ x.written := by
  intro s hs
  set doc := x.snapshot cfg (nextGeneration x.stateGeneration) now with hdoc
  have hsame : (x.saved doc .beforeRename).1.store = x.store := by
    show (x.store.save doc .beforeRename).1 = x.store
    unfold StateStore.save
    split <;> rfl
  have hwritten : (x.persist cfg now .beforeRename).1.written = (x.saved doc .beforeRename).1.written := rfl
  rw [hwritten, (saved_written x doc .beforeRename).1, hsame] at hs
  rcases List.mem_append.mp hs with hs | hs
  · exact hs
  · exact (h.last (Option.mem_toList.mp hs)).1

/-- What a commit that fails may have put on disk, when what it would commit has only lost leases or it
fails before the rename. -/
theorem Manager.Custody.failed (h : x.Custody) {base : Roll} (hbase : ∀ s ∈ x.written, base.Covers s.roll)
    {cfg : Config} {now : Time} {fault : SaveFault} (hy : x.persist cfg now fault = (y, false))
    (hfault : fault = .afterRename → x.roll.Narrows base) : ∀ s ∈ y.written, base.Covers s.roll := by
  intro s hs
  obtain rfl : _ = y := congrArg Prod.fst hy
  cases fault with
  | none =>
    have hok := congrArg Prod.snd hy
    simp only [Manager.persist, saved, StateStore.save] at hok
    split at hok <;> cases hok
  | beforeRename => exact hbase s (h.toArchived.unsaved cfg now s hs)
  | afterRename =>
    rcases (h.persist cfg now .afterRename).2 s hs with hs | hs
    · exact hbase s hs
    · exact fun p hp hlive => (hfault rfl).covers p (hs p hp) hlive

/-- **A create that publishes**, unless its start is on disk when the create takes it back. -/
theorem publishCreate_custody (h : mgr.Custody) (hidle : mgr.eligible r = false) (hsole : mgr.Sole [r])
    (cfg : Config) (driver : Driver) (overlayMb : ℕ) (reading : Reading) (now : Time) (fault fault' : SaveFault)
    (hfault : fault = .afterRename → r ∉ mgr.machines ∨ metered (mgr.objects r).toMachineRecord = false ∨
      mgr.givesUp r driver reading .none = true) :
    (mgr.publishCreate cfg r driver overlayMb reading now fault fault').1.Custody := by
  have hown : ∀ r' ∈ mgr.machines, (mgr.objects r').id = (mgr.objects r).id → r' = r :=
    hsole r (List.mem_singleton_self r)
  simp only [publishCreate]
  split
  · set f : Machine → Machine := fun m => { m with driver := some driver } with hf
    obtain ⟨hpasses, _, hlabel⟩ := modifyMachine_passes mgr r f fun _ => ⟨⟨rfl, rfl, rfl⟩, rfl⟩
    have hsame := modifyMachine_registry mgr r f fun _ => rfl
    have hidle' : (mgr.modifyMachine r f).eligible r = false := by
      rw [eligible, modifyMachine_metering mgr r r f fun _ => rfl]
      exact hidle
    have hdriven : mgr.Hands {} (mgr.modifyMachine r f) := h.hands.next hpasses False.elim rfl (hlabel h.labelled)
    rw [← hsame.ids r]
    exact hdriven.custody.give_up (fun r' hr' hid => hown r' hr' (by rwa [← hsame.ids r', ← hsame.ids r])) hidle'
      cfg _ _ _ now fault
  · next hhealthy =>
    set f : Machine → Machine := fun m => { m with
      driver := some driver
      diskMb := if m.diskMb = 0 then overlayMb else m.diskMb
      status := .starting } with hf
    set running := (mgr.started r driver overlayMb).transition r (some .booting) .starting "vmm_started"
      with hrunning
    obtain ⟨hpasses, hnarrows, hlabel⟩ := modifyMachine_passes mgr r f fun _ => ⟨⟨rfl, rfl, rfl⟩, rfl⟩
    have hsame := modifyMachine_registry mgr r f fun _ => rfl
    have hrun : mgr.Hands {} running := h.hands.next hpasses False.elim rfl (hlabel h.labelled)
    have hidle' : running.eligible r = false := by
      rw [eligible, show (running.objects r).metering = _ from modifyMachine_metering mgr r r f fun _ => rfl]
      exact hidle
    have hmetered : metered (running.objects r).toMachineRecord = metered (mgr.objects r).toMachineRecord := by
      rw [show running.objects r = f (mgr.objects r) from Function.update_self ..]
      rfl
    cases hstart : running.recordMeterStart r reading with
    | mk x ok =>
    obtain ⟨hstarted, hlabelled, hstill⟩ := start_passes hidle' hrun.custody.labelled hstart
    obtain ⟨hx, hout, hfiled, hfailed⟩ := meter_registry running hstart
    have hhands : mgr.Hands {} x := hrun.next hstarted False.elim hfiled hlabelled
    have hids : ∀ r', (x.objects r').id = (mgr.objects r').id := fun r' => (hx.ids r').trans (hsame.ids r')
    have hmach : x.machines = mgr.machines := hx.machines.trans hsame.machines
    have hxown : ∀ r' ∈ x.machines, (x.objects r').id = (x.objects r).id → r' = r := fun r' hr' hid =>
      hown r' (hmach ▸ hr') (by rwa [hids, hids] at hid)
    cases ok with
    | false =>
      have hxidle : x.eligible r = false := by
        rw [eligible, show x.objects = running.objects from congrArg Books.objects (hfailed rfl)]
        exact hidle'
      simp only
      rw [← hids r]
      exact hhands.custody.give_up hxown hxidle cfg _ _ _ now fault
    | true =>
      simp only
      have hpersist := hhands.persist cfg now fault
      split
      · next y hy =>
        rw [hy] at hpersist
        exact hpersist.custody
      · next y hy =>
        rw [hy] at hpersist
        split
        · -- the start could not be saved: the create takes it back, and what is on disk is as before
          have hobj : ∀ r', r' ≠ r → y.objects r' = mgr.objects r' := fun r' hr' => by
            rw [show y.objects = x.objects from congrArg Books.objects (persist_books hy).1,
              (meter_other hstart r').1 hr']
            exact Function.update_of_ne hr' _ _
          have hwritten : x.written = mgr.written :=
            written_of_filed hfiled
          have hdisk : ∀ s ∈ y.written, mgr.roll.Covers s.roll := by
            refine hhands.custody.failed (fun s hs => h.kept s (hwritten ▸ hs)) hy fun hafter => ?_
            refine (hstill ?_).trans hnarrows
            rcases hfault hafter with hr | hu | hgives
            · exact Or.inl hr
            · exact Or.inr (Or.inl (hmetered.trans hu))
            · by_cases hm : metered (mgr.objects r).toMachineRecord = true
              · simp only [givesUp, Bool.not_eq_true, Bool.not_eq_false'] at hgives hhealthy
                rw [hhealthy, hm] at hgives
                have hrefused : (running.recordMeterStart r reading).2 = false :=
                  started_refuses hm overlayMb (by simpa using hgives)
                rw [hstart] at hrefused
                cases hrefused
              · exact Or.inr (Or.inl (hmetered.trans (Bool.eq_false_iff.mpr hm)))
          set z : Manager := { y.setMetering r {} with
            meteringOutbox := y.meteringOutbox.take mgr.meteringOutbox.length } with hz
          have hother : ∀ r', r' ≠ r → z.objects r' = mgr.objects r' := fun r' hr' =>
            (Function.update_of_ne hr' _ _).trans (hobj r' hr')
          have hown' : z.eligible r = false := by
            rw [eligible_live, show z.objects r = { y.objects r with metering := {} } from Function.update_self ..]
            rfl
          have hzid : ∀ r', (z.objects r').id = (mgr.objects r').id := by
            intro r'
            refine Eq.trans ?_ (hids r')
            rw [← show y.objects = x.objects from congrArg Books.objects (persist_books hy).1]
            by_cases hr' : r' = r
            · rw [hr', show z.objects r = { y.objects r with metering := {} } from Function.update_self ..]
            · rw [show z.objects r' = y.objects r' from Function.update_of_ne hr' _ _]
          have hzm : z.machines = mgr.machines :=
            (congrArg Books.machines (persist_books hy).1).trans hmach
          have hpasses' : mgr.roll.Passes z.roll := by
            refine ⟨fun p hp hlive => ?_, fun o ho _ => ?_⟩
            · obtain ⟨r', hr', rfl⟩ := List.mem_map.mp hp
              have hne : r' ≠ r := by
                rintro rfl
                rw [← eligible_live, hidle] at hlive
                cases hlive
              refine Or.inl ⟨_, List.mem_map_of_mem (hzm ▸ hr'), ?_⟩
              rw [hother r' hne]
              exact ⟨hlive, .refl _⟩
            · have hack : x.acknowledged = mgr.acknowledged := by
                have hs := recordMeterStart_started running r reading
                rw [hstart] at hs
                cases hs <;> rfl
              obtain ⟨os, hos⟩ := hout
              show o ∈ y.acknowledged ++ y.meteringOutbox.take mgr.meteringOutbox.length
              rw [show y.acknowledged = x.acknowledged from congrArg Books.acknowledged (persist_books hy).1,
                show y.meteringOutbox = x.meteringOutbox from congrArg Books.meteringOutbox (persist_books hy).1,
                hack, ← hos, show running.meteringOutbox = mgr.meteringOutbox from rfl, List.take_left]
              exact ho
          have hcustody : z.Custody := by
            refine ⟨hpersist.custody.toArchived.of_filed rfl, fun s hs => hpasses'.covers_of (hdisk s hs),
              fun r' he => ?_⟩
            have hne : r' ≠ r := by
              rintro rfl
              rw [hown'] at he
              cases he
            rw [eligible, hother r' hne] at he
            rw [hother r' hne]
            exact h.labelled r' he
          rw [← hzid r]
          exact hcustody.give_up (fun r' hr' hid => hown r' (hzm ▸ hr') (by rwa [hzid, hzid] at hid)) hown' cfg _ _ _
            now fault'
        · exact hpersist.custody

/-- The same books as in `mgr`, and documents that its roll covers. -/
theorem Manager.Custody.undone (h : mgr.Custody) (hbooks : y.books = mgr.books) (harch : y.Archived)
    (hdisk : ∀ s ∈ y.written, mgr.roll.Covers s.roll) : y.Custody := by
  have ho : y.objects = mgr.objects := congrArg Books.objects hbooks
  have hroll : y.roll = mgr.roll := by
    rw [roll, roll, ho, show y.machines = mgr.machines from congrArg Books.machines hbooks,
      show y.acknowledged = mgr.acknowledged from congrArg Books.acknowledged hbooks,
      show y.meteringOutbox = mgr.meteringOutbox from congrArg Books.meteringOutbox hbooks]
  refine ⟨harch, fun s hs => hroll ▸ hdisk s hs, fun r he => ?_⟩
  rw [eligible, ho] at he
  rw [ho]
  exact h.labelled r he

/-! ### A restart -/

/-- The documents stay as they are, and only the log and the health of the manager change. -/
theorem Manager.Custody.note (h : x.Custody) (hbooks : y.books = x.books) (hfiled : y.filed = x.filed) : y.Custody :=
  h.undone hbooks (h.toArchived.of_filed hfiled) fun s hs =>
    h.kept s (written_of_filed hfiled ▸ hs)

/-- While a restart rebuilds the registry, the document in hand holds every lease of the documents, and
the registry those of the machines read so far. -/
structure Rebuilding (mgr : Manager) (doc : MachineStateSnapshot) (index : ℕ) : Prop extends mgr.Archived where
  behind : ∀ s ∈ mgr.written, doc.roll.Covers s.roll
  joined : ∀ p ∈ doc.machines.take index, p.live = true → mgr.roll.Holds p.toMachineRecord
  acknowledged : mgr.acknowledged = doc.acknowledged
  outbox : ∃ starts, mgr.meteringOutbox = doc.meteringOutbox ++ starts ∧ ∀ o ∈ starts, o.kind = .start
  labelled : ∀ r, mgr.eligible r = true → (mgr.objects r).publicId ≠ ""
  labels : ∀ p ∈ doc.machines, p.live = true → p.publicId ≠ ""

variable {doc : MachineStateSnapshot} {index : ℕ} {p : PersistedMachine}

/-- When no live lease is left to be read, the registry holds them all. -/
theorem Rebuilding.custody (h : Rebuilding mgr doc index) (hdone : ∀ p ∈ doc.machines.drop index, p.live = false) :
    mgr.Custody := by
  refine ⟨h.toArchived, fun s hs p hp hlive => ?_, h.labelled⟩
  rcases h.behind s hs p hp hlive with ⟨q, hq, hqlive, hpq⟩ | ⟨o, ho, hcloses⟩
  · obtain ⟨q', hq', rfl⟩ := List.mem_map.mp hq
    rw [← List.take_append_drop index doc.machines] at hq'
    rcases List.mem_append.mp hq' with hq' | hq'
    · exact (h.joined q' hq' hqlive).earlier hpq
    · exact absurd hqlive (Bool.eq_false_iff.mp (hdone q' hq'))
  · obtain ⟨starts, hstarts, _⟩ := h.outbox
    refine Or.inr ⟨o, ?_, hcloses⟩
    show o ∈ mgr.acknowledged ++ mgr.meteringOutbox
    rw [h.acknowledged, hstarts, ← List.append_assoc]
    exact List.mem_append_left _ ho

/-- Another element of a list is still there when one is replaced. -/
theorem mem_set_or {α : Type} {l : List α} {i : ℕ} {a b x : α} (hi : l[i]? = some a) (hx : x ∈ l) :
    x = a ∨ x ∈ l.set i b := by
  obtain ⟨j, hj⟩ := List.mem_iff_getElem?.mp hx
  by_cases hij : i = j
  · subst hij
    exact Or.inl (Option.some.inj (hj.symm.trans hi))
  · refine Or.inr (List.mem_iff_getElem?.mpr ⟨j, ?_⟩)
    rw [List.getElem?_set_ne hij]
    exact hj

/-- The record that takes the place of the one at `index` holds its lease. -/
theorem set_passes {q : PersistedMachine} {os : List HostUsageObservation} (hi : doc.machines[index]? = some p)
    (hq : p.live = true → q.live = true ∧ Continues p.toMachineRecord q.toMachineRecord ∨
      ∃ o ∈ os, Closes o p.toMachineRecord) :
    doc.roll.Passes (MachineStateSnapshot.roll { doc with
      machines := doc.machines.set index q, meteringOutbox := doc.meteringOutbox ++ os }) := by
  refine ⟨fun p' hp' hlive => ?_, fun o ho _ => ?_⟩
  · obtain ⟨p', hin, rfl⟩ := List.mem_map.mp hp'
    rcases mem_set_or hi hin with rfl | hmem
    · rcases hq hlive with ⟨hqlive, hcont⟩ | ⟨o, ho, hcloses⟩
      · have hmem : q ∈ doc.machines.set index q :=
          List.mem_set (List.getElem?_eq_some_iff.mp hi).1 q
        exact Or.inl ⟨_, List.mem_map_of_mem hmem, hqlive, hcont⟩
      · exact Or.inr ⟨o, List.mem_append_right _ (List.mem_append_right _ ho), hcloses⟩
    · exact Or.inl ⟨_, List.mem_map_of_mem hmem, hlive, .refl _⟩
  · show o ∈ doc.acknowledged ++ (doc.meteringOutbox ++ os)
    rw [← List.append_assoc]
    exact List.mem_append_left _ ho

theorem upgraded_same (p : PersistedMachine) :
    SameLease p.toMachineRecord (upgraded p).toMachineRecord ∧ (upgraded p).publicId = p.publicId := by
  simp only [upgraded]
  split <;> exact ⟨⟨rfl, rfl, rfl⟩, rfl⟩

/-- The generation of a record is brought up to date. -/
theorem Rebuilding.upgrade (h : Rebuilding mgr doc index) (hi : doc.machines[index]? = some p) :
    Rebuilding mgr { doc with machines := doc.machines.set index (upgraded p) } index := by
  obtain ⟨hsame, hpublic⟩ := upgraded_same p
  have hpasses : doc.roll.Passes (MachineStateSnapshot.roll { doc with
      machines := doc.machines.set index (upgraded p), meteringOutbox := doc.meteringOutbox ++ [] }) :=
    set_passes hi fun hlive => Or.inl ⟨hsame.live.trans hlive, hsame.continues⟩
  rw [List.append_nil] at hpasses
  refine ⟨h.toArchived, fun s hs => hpasses.covers_of (h.behind s hs), ?_, h.acknowledged, h.outbox, h.labelled,
    fun q hq hlive => ?_⟩
  · rw [List.take_set_of_le (le_refl index)]
    exact h.joined
  · rcases List.mem_or_eq_of_mem_set hq with hq | rfl
    · exact h.labels q hq hlive
    · rw [hpublic]
      exact h.labels p (List.mem_of_getElem? hi) (hsame.live.symm.trans hlive)

/-- There is nothing to wait for in the next machine. -/
theorem Rebuilding.next (h : Rebuilding mgr doc index) (hi : doc.machines[index]? = some p) (hdead : p.live = false) :
    Rebuilding mgr doc (index + 1) := by
  refine ⟨h.toArchived, h.behind, fun q hq hlive => ?_, h.acknowledged, h.outbox, h.labelled, h.labels⟩
  rw [List.take_add_one, hi, Option.toList_some] at hq
  rcases List.mem_append.mp hq with hq | hq
  · exact h.joined q hq hlive
  · rw [List.mem_singleton.mp hq, hdead] at hlive
    cases hlive

theorem Rebuilding.note (h : Rebuilding mgr doc index) (hbooks : y.books = mgr.books) (hfiled : y.filed = mgr.filed) :
    Rebuilding y doc index := by
  have ho : y.objects = mgr.objects := congrArg Books.objects hbooks
  have hack : y.acknowledged = mgr.acknowledged := congrArg Books.acknowledged hbooks
  have hout : y.meteringOutbox = mgr.meteringOutbox := congrArg Books.meteringOutbox hbooks
  have hroll : y.roll = mgr.roll := by
    rw [roll, roll, ho, show y.machines = mgr.machines from congrArg Books.machines hbooks, hack, hout]
  refine ⟨h.toArchived.of_filed hfiled, fun s hs => h.behind s (written_of_filed hfiled ▸ hs),
    fun p hp hlive => hroll ▸ h.joined p hp hlive, hack.trans h.acknowledged, ?_, fun r he => ?_, h.labels⟩
  · rw [hout]
    exact h.outbox
  · rw [eligible, ho] at he
    rw [ho]
    exact h.labelled r he

/-- The document that a recovered final is saved with. -/
def finalizedDoc (doc : MachineStateSnapshot) (index : ℕ) (p : PersistedMachine)
    (reason : HostUsageObservationQualityReason) (updatedAt : String) (now : Time) : MachineStateSnapshot :=
  { doc with
    generation := nextGeneration doc.generation
    updatedAt := now
    machines := doc.machines.set index (finalized p)
    meteringOutbox := doc.meteringOutbox ++ [recoveredFinal p reason updatedAt] }

/-- A machine is given up: there is nothing to report, the restart fails before a save, or the document is
saved with the final. -/
theorem finalizePersistedMachine_cases (mgr : Manager) (doc : MachineStateSnapshot) (index : ℕ)
    (p : PersistedMachine) (reason : HostUsageObservationQualityReason) (updatedAt : String) (now : Time)
    (fault : SaveFault) :
    (p.live = false ∧ mgr.finalizePersistedMachine doc index p reason updatedAt now fault = (mgr, doc, true)) ∨
    (∃ x, x.filed = mgr.filed ∧
      mgr.finalizePersistedMachine doc index p reason updatedAt now fault = (x, doc, false)) ∨
    (p.live = true ∧ ∃ x doc' ok,
      mgr.finalizePersistedMachine doc index p reason updatedAt now fault = (x, doc', ok) ∧
      x.commits.saves = (mgr.saved (finalizedDoc doc index p reason updatedAt now) fault).1.saves ∧
      x.store = (mgr.saved (finalizedDoc doc index p reason updatedAt now) fault).1.store ∧
      (ok = true → doc' = finalizedDoc doc index p reason updatedAt now ∧
        x.books = { mgr.books with meteringOutbox := doc'.meteringOutbox })) := by
  simp only [finalizePersistedMachine]
  split
  · next h =>
    refine Or.inl ⟨?_, rfl⟩
    simp only [MachineRecord.live]
    rcases h with h | h
    · rw [h]
      rfl
    · rw [h]
      exact Bool.and_false _
  · next hlive =>
    split
    · exact Or.inr (Or.inl ⟨{ mgr with meteringHealthy := false }, rfl, rfl⟩)
    · split
      · exact Or.inr (Or.inl ⟨mgr, rfl, rfl⟩)
      · refine Or.inr (Or.inr ⟨?_, ?_⟩)
        · rw [not_or] at hlive
          simp only [MachineRecord.live, Bool.and_eq_true, decide_eq_true_eq, Bool.not_eq_true']
          exact ⟨Nat.pos_of_ne_zero hlive.1, Bool.eq_false_iff.mpr hlive.2⟩
        · have hdoc : ({ doc with
              machines := doc.machines.set index (finalized p)
              meteringOutbox := doc.meteringOutbox ++ [recoveredFinal p reason updatedAt]
              generation := nextGeneration doc.generation
              updatedAt := now } : MachineStateSnapshot) = finalizedDoc doc index p reason updatedAt now := rfl
          simp only [saveRecoverySnapshot]
          rw [hdoc]
          cases hs : mgr.saved (finalizedDoc doc index p reason updatedAt now) fault with
          | mk y ok =>
            have hbooks : y.books = mgr.books := by
              obtain rfl : _ = y := congrArg Prod.fst hs
              rfl
            cases ok with
            | true =>
              refine ⟨_, _, true, rfl, rfl, rfl, fun _ => ⟨rfl, ?_⟩⟩
              rw [← hbooks]
              rfl
            | false => exact ⟨_, _, false, rfl, rfl, rfl, fun h => Bool.noConfusion h⟩

/-- The recovered final closes the lease. -/
theorem recoveredFinal_closes (p : PersistedMachine) (reason : HostUsageObservationQualityReason)
    (updatedAt : String) : Closes (recoveredFinal p reason updatedAt) p.toMachineRecord :=
  ⟨rfl, rfl, rfl, rfl, rfl, Nat.lt_succ_self _⟩

theorem finalized_live (p : PersistedMachine) : (finalized p).live = false := Bool.and_false _

/-- The machines read so far, after one more. -/
theorem mem_take_succ {q : PersistedMachine} (hi : doc.machines[index]? = some p)
    (hq : q ∈ doc.machines.take (index + 1)) :
    q ∈ doc.machines.take index ∨ q = p := by
  rw [List.take_add_one, hi, Option.toList_some] at hq
  exact (List.mem_append.mp hq).imp_right List.mem_singleton.mp

/-- A restart gives up a machine and saves its final. -/
theorem Rebuilding.finalize (h : Rebuilding mgr doc index) (hi : doc.machines[index]? = some p)
    (reason : HostUsageObservationQualityReason) (updatedAt : String) (now : Time) (fault : SaveFault)
    (hsaves : x.saves = (mgr.saved (finalizedDoc doc index p reason updatedAt now) fault).1.saves)
    (hstore : x.store = (mgr.saved (finalizedDoc doc index p reason updatedAt now) fault).1.store) :
    x.Archived ∧ (x.books = { mgr.books with
        meteringOutbox := (finalizedDoc doc index p reason updatedAt now).meteringOutbox } →
      Rebuilding x (finalizedDoc doc index p reason updatedAt now) (index + 1)) := by
  set doc' := finalizedDoc doc index p reason updatedAt now with hdoc
  have hpasses : doc.roll.Passes doc'.roll := set_passes hi fun _ =>
    Or.inr ⟨_, List.mem_singleton_self _, recoveredFinal_closes p reason updatedAt⟩
  have hlabels : ∀ q ∈ doc'.machines, q.live = true → q.publicId ≠ "" := by
    intro q hq hlive
    rcases List.mem_or_eq_of_mem_set hq with hq | rfl
    · exact h.labels q hq hlive
    · rw [finalized_live] at hlive
      cases hlive
  obtain ⟨harch, hmem⟩ := h.toArchived.saved (fun s hs => hpasses.covers_of (h.behind s hs)) hlabels fault
  have hwritten : x.written = (mgr.saved doc' fault).1.written := by rw [written, hsaves, written]
  have hx : x.Archived := harch.of_disk (by rw [hstore]) hsaves
  refine ⟨hx, fun hbooks => ?_⟩
  have ho : x.objects = mgr.objects := congrArg Books.objects hbooks
  have hm : x.machines = mgr.machines := congrArg Books.machines hbooks
  have hack : x.acknowledged = mgr.acknowledged := congrArg Books.acknowledged hbooks
  have hout : x.meteringOutbox = doc'.meteringOutbox := congrArg Books.meteringOutbox hbooks
  -- the outbox of the manager is now that of the document: what it loses are starts
  have hregistry : mgr.roll.Passes x.roll := by
    refine ⟨fun q hq hlive => Or.inl ⟨q, ?_, hlive, .refl q⟩, fun o ho' hkind => ?_⟩
    · rw [roll, hm, ho]
      exact hq
    · obtain ⟨starts, hstarts, hnone⟩ := h.outbox
      rw [roll, hack, hout]
      rcases List.mem_append.mp ho' with ho' | ho'
      · exact List.mem_append_left _ ho'
      · rw [hstarts] at ho'
        rcases List.mem_append.mp ho' with ho' | ho'
        · exact List.mem_append_right _ (List.mem_append_left _ ho')
        · rw [hnone o ho'] at hkind
          cases hkind
  have hset : doc'.machines[index]? = some (finalized p) :=
    List.getElem?_set_self (List.getElem?_eq_some_iff.mp hi).1
  refine ⟨hx, fun s hs => ?_, fun q hq hlive => ?_, hack.trans h.acknowledged,
    ⟨[], hout.trans (List.append_nil _).symm, fun _ ho => (List.not_mem_nil ho).elim⟩, ?_, hlabels⟩
  · rcases hmem s (hwritten ▸ hs) with hs | rfl
    · exact hpasses.covers_of (h.behind s hs)
    · exact .refl _
  · rcases mem_take_succ hset hq with hq | rfl
    · rw [show doc'.machines = doc.machines.set index (finalized p) from rfl, List.take_set_of_le (le_refl index)] at hq
      exact hregistry.holds (h.joined q hq hlive)
    · rw [finalized_live] at hlive
      cases hlive
  · intro r he
    rw [eligible, ho] at he
    rw [ho]
    exact h.labelled r he

/-- A machine of the document is back in the registry. -/
theorem Rejoined.passes (h : Rejoined mgr p x) (hp : mgr.Placed)
    (hlabelled : ∀ r, mgr.eligible r = true → (mgr.objects r).publicId ≠ "")
    (hlabel : p.live = true → p.publicId ≠ "") :
    mgr.roll.Passes x.roll ∧ (p.live = true → x.roll.Holds p.toMachineRecord) ∧
      ∀ r, x.eligible r = true → (x.objects r).publicId ≠ "" := by
  obtain ⟨os, hos, _⟩ := h.outbox
  obtain ⟨s, reserved, hmachine, hs⟩ := h.machine
  refine ⟨⟨fun q hq hlive => ?_, fun o ho _ => ?_⟩, fun hlive => ?_, fun r he => ?_⟩
  · obtain ⟨r, hr, rfl⟩ := List.mem_map.mp hq
    refine Or.inl ⟨_, List.mem_map_of_mem (h.machines ▸ List.mem_append_left _ hr), ?_⟩
    rw [h.others r (hp r hr).ne]
    exact ⟨hlive, .refl _⟩
  · rw [roll, h.acknowledged, hos, ← List.append_assoc]
    exact List.mem_append_left _ ho
  · have hsame : s = p.metering := hs.resolve_right fun hstart => by
      rw [MachineRecord.live, hstart.1] at hlive
      cases hlive
    have hnew : (x.objects mgr.nextObject).toMachineRecord.metering = p.metering := by rw [hmachine, hsame]
    have hrecord : SameLease p.toMachineRecord (x.objects mgr.nextObject).toMachineRecord :=
      ⟨by rw [hmachine]; rfl, by rw [hmachine]; rfl, hnew⟩
    exact Or.inl ⟨_, List.mem_map_of_mem (h.machines ▸ List.mem_append_right _ (List.mem_singleton_self _)),
      hrecord.live.trans hlive, hrecord.continues⟩
  · by_cases hr : r = mgr.nextObject
    · rw [hr] at he ⊢
      have hpublic : (x.objects mgr.nextObject).publicId = p.publicId := by
        rw [hmachine]
        rfl
      rw [hpublic]
      rcases hs with rfl | hstart
      · refine hlabel ?_
        rw [eligible_live, hmachine] at he
        exact he
      · exact publicId_of_metered hstart.2.2
    · rw [eligible, h.others r hr] at he
      rw [h.others r hr]
      exact hlabelled r he

theorem Rebuilding.rejoin (h : Rebuilding mgr doc index) (hi : doc.machines[index]? = some p) (hp : mgr.Placed)
    (hx : Rejoined mgr p x) : Rebuilding x doc (index + 1) := by
  obtain ⟨hpasses, hholds, hlabelled⟩ := hx.passes hp h.labelled (h.labels p (List.mem_of_getElem? hi))
  refine ⟨h.toArchived.of_filed hx.filed, fun s hs => h.behind s (written_of_filed hx.filed ▸ hs),
    fun q hq hlive => ?_, hx.acknowledged.trans h.acknowledged, ?_, hlabelled, h.labels⟩
  · rcases mem_take_succ hi hq with hq | rfl
    · exact hpasses.holds (h.joined q hq hlive)
    · exact hholds hlive
  · obtain ⟨starts, hstarts, hkinds⟩ := h.outbox
    obtain ⟨os, hos, hkinds'⟩ := hx.outbox
    refine ⟨starts ++ os, by rw [hos, hstarts, List.append_assoc], fun o ho => ?_⟩
    exact (List.mem_append.mp ho).elim (hkinds o) (hkinds' o)

end Steps

end Nehemiah.Host
