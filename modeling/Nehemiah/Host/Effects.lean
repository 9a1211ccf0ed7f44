import Nehemiah.Host.System

/-!
# What the sections do

One inversion lemma for each operation that the sections are made of.  Metering a machine changes its
metering state and appends at most one observation (`Manager.emit`); a commit changes the store and
nothing that a document is made of; a cleanup is a series of final samples and removals.
-/

namespace Nehemiah.Host

open Billing Manager

variable (mgr : Manager)

/-! ### Metering -/

/-- A machine gets a new metering state and observations go to the outbox. -/
def Manager.emit (r : ℕ) (s : MachineMeteringState) (reserved : Bool) (os : List HostUsageObservation)
    (healthy : Bool) : Manager :=
  { mgr.modifyMachine r fun m => { m with metering := s, meteringReserved := reserved } with
    meteringOutbox := mgr.meteringOutbox ++ os
    meteringHealthy := healthy }

theorem emit_object (r : ℕ) (s : MachineMeteringState) (reserved : Bool)
    (os : List HostUsageObservation) (healthy : Bool) :
    (mgr.emit r s reserved os healthy).objects r
      = { mgr.objects r with metering := s, meteringReserved := reserved } := by
  simp [emit, modifyMachine]

theorem emit_object_of_ne {r r' : ℕ} (hr : r' ≠ r) (s : MachineMeteringState) (reserved : Bool)
    (os : List HostUsageObservation) (healthy : Bool) :
    (mgr.emit r s reserved os healthy).objects r' = mgr.objects r' := by
  simp [emit, modifyMachine, hr]

/-- Metering changes no identity. -/
theorem emit_id (r r' : ℕ) (s : MachineMeteringState) (reserved : Bool)
    (os : List HostUsageObservation) (healthy : Bool) :
    ((mgr.emit r s reserved os healthy).objects r').id = (mgr.objects r').id := by
  by_cases h : r' = r
  · subst h
    rw [emit_object]
  · rw [emit_object_of_ne mgr h]

/-- The metering state after a sample. -/
def sampledState (s : MachineMeteringState) (terminal : Bool) (reading : Reading) :
    MachineMeteringState :=
  { s with
    sequence := s.sequence + 1
    lastObservedAt := reading.observedAt
    final := s.final || terminal }

/-- What a sample answers: nothing to do, an error, or an observation. -/
inductive Sampled (r : ℕ) (terminal : Bool) (reading : Reading) : Manager × Bool → Prop
  | skipped (h : (mgr.objects r).metering.sequence = 0 ∨ (mgr.objects r).metering.final = true) :
      Sampled r terminal reading (mgr, true)
  | failed (s : MachineMeteringState) (healthy : Bool)
      (hlive : ¬ ((mgr.objects r).metering.sequence = 0 ∨ (mgr.objects r).metering.final = true)) :
      Sampled r terminal reading (mgr.emit r s (mgr.objects r).meteringReserved [] healthy, false)
  | emitted (monotonic : ℕ) (q quality : Quality) (s : MachineMeteringState) (healthy : Bool)
      (hlive : ¬ ((mgr.objects r).metering.sequence = 0 ∨ (mgr.objects r).metering.final = true))
      (hclock : sampleClock (mgr.objects r).metering terminal reading = some (monotonic, q))
      (hegress : sampleEgress (clocked (mgr.objects r).metering monotonic) (tapOf (mgr.objects r)) terminal
        reading q = some (s, quality))
      (hroom : mgr.meteringOutbox.length < meteringLimit terminal) :
      Sampled r terminal reading
        (mgr.emit r (sampledState s terminal reading) (mgr.objects r).meteringReserved
          [observation
            { (mgr.objects r).toMachineRecord with metering := sampledState s terminal reading }
            (processId (mgr.objects r).driver) (if terminal then .final else .checkpoint) quality
            reading.observedAt] healthy, true)

theorem appendMachineObservation_cases (r : ℕ) (kind : HostUsageObservationKind) (terminal : Bool)
    (quality : Quality) :
    (∃ healthy, mgr.appendMachineObservation r kind terminal quality
      = ({ mgr with meteringHealthy := healthy }, false)) ∨
    (mgr.meteringOutbox.length < meteringLimit terminal ∧
      ∃ healthy, mgr.appendMachineObservation r kind terminal quality
        = ({ mgr with
            meteringOutbox := mgr.meteringOutbox ++ [observation (mgr.objects r).toMachineRecord
              (processId (mgr.objects r).driver) kind quality (mgr.objects r).metering.lastObservedAt]
            meteringHealthy := healthy }, true)) := by
  simp only [appendMachineObservation]
  split
  · exact Or.inl ⟨mgr.meteringHealthy, rfl⟩
  · simp only [appendMetering]
    split
    · exact Or.inl ⟨false, rfl⟩
    · next h => exact Or.inr ⟨not_le.mp h, _, rfl⟩

theorem appendMachineObservation_ok (r : ℕ) (kind : HostUsageObservationKind) (terminal : Bool)
    (quality : Quality) (hseq : (mgr.objects r).metering.sequence ≠ 0)
    (hpublic : (mgr.objects r).publicId ≠ "")
    (hroom : mgr.meteringOutbox.length < meteringLimit terminal) :
    ∃ healthy, mgr.appendMachineObservation r kind terminal quality
      = ({ mgr with
          meteringOutbox := mgr.meteringOutbox ++ [observation (mgr.objects r).toMachineRecord
            (processId (mgr.objects r).driver) kind quality (mgr.objects r).metering.lastObservedAt]
          meteringHealthy := healthy }, true) := by
  simp only [appendMachineObservation, appendMetering]
  rw [if_neg (not_or.mpr ⟨hseq, hpublic⟩), if_neg (not_le.mpr hroom)]
  exact ⟨_, rfl⟩

theorem setMetering_emit (r : ℕ) (s : MachineMeteringState) (os : List HostUsageObservation)
    (healthy : Bool) :
    { mgr.setMetering r s with
      meteringOutbox := mgr.meteringOutbox ++ os
      meteringHealthy := healthy } = mgr.emit r s (mgr.objects r).meteringReserved os healthy := rfl

theorem sample_sampled (r : ℕ) (terminal : Bool) (reading : Reading) :
    Sampled mgr r terminal reading (mgr.sample r terminal reading) := by
  simp only [sample]
  split
  · next h => exact .skipped h
  · next hlive =>
    split
    · have h := @Sampled.failed mgr r terminal reading
        (mgr.objects r).metering false hlive
      rwa [← setMetering_emit, List.append_nil, show mgr.setMetering r (mgr.objects r).metering = mgr by
        simp [setMetering, modifyMachine]] at h
    · next monotonic q hclock =>
      split
      · have h := @Sampled.failed mgr r terminal reading
          (clocked (mgr.objects r).metering monotonic) mgr.meteringHealthy hlive
        rwa [← setMetering_emit, List.append_nil] at h
      · next s quality hegress =>
        obtain ⟨healthy, h⟩ | ⟨hroom, healthy, h⟩ := appendMachineObservation_cases
          (mgr.setMetering r (sampledState s terminal reading)) r (if terminal then .final else .checkpoint)
          terminal quality
        · have h' := @Sampled.failed mgr r terminal reading
            (sampledState s terminal reading) healthy hlive
          rw [← setMetering_emit, List.append_nil] at h'
          exact h ▸ h'
        · have h' := @Sampled.emitted mgr r terminal reading
            monotonic q quality s healthy hlive hclock hegress hroom
          rw [← setMetering_emit] at h'
          have hobj : (mgr.setMetering r (sampledState s terminal reading)).objects r
              = { mgr.objects r with metering := sampledState s terminal reading } := by
            simp [setMetering, modifyMachine]
          rw [hobj] at h
          exact h ▸ h'

/-- A metered lease carries the public id of the control plane. -/
theorem publicId_of_metered {m : MachineRecord} (h : metered m = true) : m.publicId ≠ "" := by
  intro hpublic
  rw [metered, hpublic] at h
  simp [show validMachineId "" = false from rfl] at h

/-- What a start answers: the lease is not metered, an error that changes no machine, or the start
observation. -/
inductive MeterStarted (r : ℕ) (reading : Reading) : Manager × Bool → Prop
  | unmetered (h : metered (mgr.objects r).toMachineRecord = false) : MeterStarted r reading (mgr, true)
  | failed (healthy : Bool) : MeterStarted r reading ({ mgr with meteringHealthy := healthy }, false)
  | emitted (now : ℕ) (healthy : Bool) (h : metered (mgr.objects r).toMachineRecord = true)
      (hclock : reading.monotonic = some now) (hboot : mgr.hostBootId ≠ "")
      (hroom : mgr.meteringOutbox.length < maxMeteringOutbox) :
      MeterStarted r reading (mgr.emit r (mgr.startState (mgr.objects r) now reading) false
        [observation
          { (mgr.objects r).toMachineRecord with metering := mgr.startState (mgr.objects r) now reading }
          (processId (mgr.objects r).driver) .start exact reading.observedAt] healthy, true)

theorem recordMeterStart_started (r : ℕ) (reading : Reading) :
    MeterStarted mgr r reading (mgr.recordMeterStart r reading) := by
  simp only [recordMeterStart]
  split
  · next h => exact .unmetered (by simpa using h)
  · next hmetered =>
    have hmetered : metered (mgr.objects r).toMachineRecord = true := by simpa using hmetered
    split
    · exact .failed mgr.meteringHealthy
    · split
      · exact .failed mgr.meteringHealthy
      · next hfree =>
        split
        · exact .failed mgr.meteringHealthy
        · next hreserved =>
          split
          · exact .failed false
          · next now hclock =>
            -- the checks above leave room for the observation, so the append cannot fail
            have hroom : mgr.hostBootId ≠ "" ∧
                mgr.meteringOutbox.length < meteringLimit (mgr.objects r).meteringReserved := by
              cases hr : (mgr.objects r).meteringReserved with
              | true =>
                simp only [hr, Bool.true_and, Bool.or_eq_true, beq_iff_eq, decide_eq_true_eq, not_or,
                  not_le] at hreserved
                exact ⟨hreserved.1, hreserved.2⟩
              | false =>
                simp only [hr, meteringCanReserve, Bool.not_false, Bool.true_and, Bool.not_eq_true',
                  Bool.not_eq_false, Bool.and_eq_true, decide_eq_true_eq, bne_iff_ne, ne_eq] at hfree
                exact ⟨hfree.1.1.2, by simp only [meteringLimit, Bool.false_eq_true, if_false]; omega⟩
            have hlimit : meteringLimit (mgr.objects r).meteringReserved ≤ maxMeteringOutbox := by
              simp only [meteringLimit, meteringAdmissionLimit]
              split <;> omega
            have hpublic : (mgr.objects r).publicId ≠ "" := publicId_of_metered hmetered
            set s := mgr.startState (mgr.objects r) now reading with hs
            have hobj : (mgr.setMetering r s).objects r = { mgr.objects r with metering := s } := by
              simp [setMetering, modifyMachine]
            obtain ⟨healthy, happ⟩ := appendMachineObservation_ok (mgr.setMetering r s) r .start
              (mgr.objects r).meteringReserved exact (by rw [hobj]; exact one_ne_zero)
              (by rw [hobj]; exact hpublic) hroom.2
            rw [hobj] at happ
            rw [happ]
            have h := @MeterStarted.emitted mgr r reading now healthy hmetered hclock hroom.1
              (lt_of_lt_of_le hroom.2 hlimit)
            rw [← hs] at h
            have heq : (modifyMachine { mgr.setMetering r s with
                meteringOutbox := mgr.meteringOutbox ++ [observation
                  { (mgr.objects r).toMachineRecord with metering := s }
                  (processId (mgr.objects r).driver) .start exact reading.observedAt]
                meteringHealthy := healthy } r fun m => { m with meteringReserved := false })
              = mgr.emit r s false [observation
                  { (mgr.objects r).toMachineRecord with metering := s }
                  (processId (mgr.objects r).driver) .start exact reading.observedAt] healthy := by
              simp only [emit, modifyMachine, setMetering, Function.update_self, Function.update_idem]
            rw [← heq] at h
            exact h

/-! ### The first section of a fork -/

/-- How a fork begins: refused, before or after the old reservations are pruned, a replay, or a new
reservation that passed the admission. -/
theorem beginFork_cases (cfg : Config) (req : ForkRequest) (probe : ForkProbe) (now : Time)
    (fault fault' : SaveFault) :
    (∃ e x, (x = mgr ∨ x = mgr.pruneForkReservations now) ∧
      mgr.beginFork cfg req probe now fault fault' = (x, .refused e)) ∨
    (∃ res, mgr.forkKeys.lookup req.key = some res ∧
      mgr.beginFork cfg req probe now fault fault' = (mgr, .replay res)) ∨
    (∃ source ips, mgr.forkKeys.lookup req.key = none ∧
      mgr.admissionHealthy = true ∧ mgr.meteringCanReserve req.children.length = true ∧
      (mgr.pruneForkReservations now).find req.sourceId = some source ∧
      (mgr.pruneForkReservations now).admitFork cfg req probe (mgr.objects source) now = none ∧
      ips.length = req.children.length ∧
      mgr.beginFork cfg req probe now fault fault'
        = (mgr.pruneForkReservations now).reserveFork cfg req source ips probe now fault fault') := by
  simp only [beginFork]
  split
  · next res hres =>
    split
    · exact Or.inl ⟨_, mgr, Or.inl rfl, rfl⟩
    · exact Or.inr (Or.inl ⟨res, hres, rfl⟩)
  · next hnone =>
    split
    · exact Or.inl ⟨_, mgr, Or.inl rfl, rfl⟩
    · next hhealthy =>
      simp only [Bool.or_eq_true, Bool.not_eq_true', not_or, Bool.not_eq_false] at hhealthy
      split
      · exact Or.inl ⟨_, mgr, Or.inl rfl, rfl⟩
      · split
        · exact Or.inl ⟨_, _, Or.inr rfl, rfl⟩
        · split
          · exact Or.inl ⟨_, _, Or.inr rfl, rfl⟩
          · next source hsource =>
            split
            · exact Or.inl ⟨_, _, Or.inr rfl, rfl⟩
            · next hadmit =>
              split
              · exact Or.inl ⟨_, _, Or.inr rfl, rfl⟩
              · next hips =>
                exact Or.inr (Or.inr ⟨source, _, hnone, hhealthy.1, hhealthy.2, hsource, hadmit,
                  not_not.mp hips, rfl⟩)

end Nehemiah.Host
