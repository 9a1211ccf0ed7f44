import Nehemiah.Host.Effects

/-!
# A terminal operation that fails

`destroy` and `reap` change the machine, the outbox, the registry and the transition log before their save,
and undo by hand what they changed.  Neither takes its transition back.  So a failure leaves everything as it
was exactly when it comes before the first transition: in a `reap` whose final observation cannot be recorded
(`failed_terminal_iff`).
-/

namespace Nehemiah.Host

open Lib Billing Manager

inductive TerminalOp
  | destroy | reap

/-- The operation, in managed mode. -/
def TerminalOp.run (op : TerminalOp) (mgr : Manager) (cfg : Config) (id : String) (reading : Reading)
    (now : Time) (fault : SaveFault) : Manager × Stop :=
  match op with
  | .destroy => mgr.destroy cfg id reading now fault
  | .reap => mgr.reap cfg id reading now fault

/-- The registry, the machines with their status, metering and reserved addresses, the outbox, the identity
reservations and the transition log are as before. -/
structure Manager.Untouched (mgr x : Manager) : Prop where
  registry : ∀ id, x.find id = mgr.find id
  machines : x.objects = mgr.objects
  outbox : x.meteringOutbox = mgr.meteringOutbox
  identities : x.jailerIdentities = mgr.jailerIdentities
  transitions : x.transitions = mgr.transitions
  nextTransition : x.nextTransition = mgr.nextTransition

/-- Equal but for the health of metering. -/
def Manager.Alike (x y : Manager) : Prop := ∃ healthy, x = { y with meteringHealthy := healthy }

/-- A retry from `x` answers as the operation would have from `mgr`, and leaves the same state. -/
def TerminalOp.RetriesAs (op : TerminalOp) (cfg : Config) (id : String) (mgr x : Manager) : Prop :=
  ∀ (reading : Reading) (now : Time) (fault : SaveFault),
    (op.run x cfg id reading now fault).2 = (op.run mgr cfg id reading now fault).2 ∧
      (op.run x cfg id reading now fault).1.Alike (op.run mgr cfg id reading now fault).1

/-- The final observation of a metered machine cannot be recorded: the machine has no public id, or the
outbox is full. -/
def Manager.unrecordable (mgr : Manager) (r : ℕ) : Bool :=
  decide ((mgr.objects r).metering.sequence ≠ 0) && !(mgr.objects r).metering.final
    && ((mgr.objects r).publicId == "" || decide (maxMeteringOutbox ≤ mgr.meteringOutbox.length))

variable (mgr : Manager)

/-! ### The final sample -/

theorem terminal_clock (s : MachineMeteringState) (reading : Reading) :
    ∃ monotonic quality, sampleClock s true reading = some (monotonic, quality) := by
  unfold sampleClock
  split
  · exact ⟨_, _, rfl⟩
  · split
    · exact ⟨_, _, rfl⟩
    · exact ⟨_, _, rfl⟩

theorem terminal_egress (s : MachineMeteringState) (tap : String) (reading : Reading) (quality : Quality) :
    ∃ s' quality', sampleEgress s tap true reading quality = some (s', quality') := by
  unfold sampleEgress
  split
  · exact ⟨_, _, rfl⟩
  · split
    · exact ⟨_, _, rfl⟩
    · split
      · contradiction
      · split
        · exact ⟨_, _, rfl⟩
        · exact ⟨_, _, rfl⟩

/-- A final sample fails just when its observation cannot be recorded; then it appends nothing. -/
theorem terminal_sample (r : ℕ) (reading : Reading) :
    ((mgr.sample r true reading).2 = false ↔ mgr.unrecordable r = true) ∧
      ((mgr.sample r true reading).2 = false → ∃ s healthy,
        (mgr.sample r true reading).1 = mgr.emit r s (mgr.objects r).meteringReserved [] healthy) := by
  constructor
  · by_cases hlive : (mgr.objects r).metering.sequence = 0 ∨ (mgr.objects r).metering.final = true
    · have hno : mgr.unrecordable r = false := by
        rcases hlive with h | h <;> simp [unrecordable, h]
      simp [sample, hlive, hno]
    · obtain ⟨monotonic, quality, hclock⟩ := terminal_clock (mgr.objects r).metering reading
      obtain ⟨s', quality', hegress⟩ := terminal_egress (clocked (mgr.objects r).metering monotonic)
        (tapOf (mgr.objects r)) reading quality
      have hpublic : ((mgr.setMetering r (sampledState s' true reading)).objects r).publicId
          = (mgr.objects r).publicId := by
        simp only [setMetering, modifyMachine, Function.update_self]
        rfl
      have hseq : ((mgr.setMetering r (sampledState s' true reading)).objects r).metering.sequence ≠ 0 := by
        simp only [setMetering, modifyMachine, Function.update_self]
        exact Nat.succ_ne_zero _
      have hsample : mgr.sample r true reading
          = (mgr.setMetering r (sampledState s' true reading)).appendMachineObservation r .final true
            quality' := by
        simp only [sample, if_neg hlive, hclock, hegress, if_true]
        rfl
      have hrec : mgr.unrecordable r
          = ((mgr.objects r).publicId == "" || decide (maxMeteringOutbox ≤ mgr.meteringOutbox.length)) := by
        rw [not_or] at hlive
        simp [unrecordable, hlive.1, hlive.2]
      rw [hsample, hrec, appendMachineObservation]
      simp only [hpublic, hseq, false_or]
      by_cases hid : (mgr.objects r).publicId = ""
      · simp [hid]
      · have hout : (mgr.setMetering r (sampledState s' true reading)).meteringOutbox = mgr.meteringOutbox :=
          rfl
        by_cases hfull : maxMeteringOutbox ≤ mgr.meteringOutbox.length
        · simp [hid, appendMetering, meteringLimit, hout, hfull]
        · simp [hid, appendMetering, meteringLimit, hout, hfull]
  · intro hfail
    have hs := sample_sampled mgr r true reading
    generalize mgr.sample r true reading = x at hs hfail
    cases hs with
    | skipped _ => cases hfail
    | failed s healthy _ => exact ⟨s, healthy, rfl⟩
    | emitted => cases hfail

/-! ### The health of metering decides nothing -/

theorem sample_alike (healthy : Bool) (r : ℕ) (reading : Reading) :
    ∃ healthy', ({ mgr with meteringHealthy := healthy }.sample r true reading)
      = ({ (mgr.sample r true reading).1 with meteringHealthy := healthy' },
        (mgr.sample r true reading).2) := by
  simp only [sample]
  by_cases hlive : (mgr.objects r).metering.sequence = 0 ∨ (mgr.objects r).metering.final = true
  · simp only [if_pos hlive]
    exact ⟨healthy, rfl⟩
  · obtain ⟨monotonic, quality, hclock⟩ := terminal_clock (mgr.objects r).metering reading
    obtain ⟨s', quality', hegress⟩ := terminal_egress (clocked (mgr.objects r).metering monotonic)
      (tapOf (mgr.objects r)) reading quality
    simp only [if_neg hlive, hclock, hegress, appendMachineObservation, appendMetering]
    have hsame : ({ mgr with meteringHealthy := healthy }.setMetering r (sampledState s' true reading)).objects
        = (mgr.setMetering r (sampledState s' true reading)).objects := rfl
    have hout : ({ mgr with meteringHealthy := healthy }.setMetering r
        (sampledState s' true reading)).meteringOutbox = mgr.meteringOutbox := rfl
    have hout' : (mgr.setMetering r (sampledState s' true reading)).meteringOutbox = mgr.meteringOutbox := rfl
    simp only [sampledState] at hsame hout hout'
    simp only [hsame, hout, hout']
    split
    · exact ⟨healthy, rfl⟩
    · split
      · exact ⟨false, rfl⟩
      · exact ⟨_, rfl⟩

theorem persist_alike (healthy : Bool) (cfg : Config) (now : Time) (fault : SaveFault) :
    ({ mgr with meteringHealthy := healthy }.persist cfg now fault)
      = ({ (mgr.persist cfg now fault).1 with meteringHealthy := healthy }, (mgr.persist cfg now fault).2) :=
  rfl

theorem destroy_alike (healthy : Bool) (cfg : Config) (id : String) (reading : Reading) (now : Time)
    (fault : SaveFault) :
    ({ mgr with meteringHealthy := healthy }.destroy cfg id reading now fault).2
        = (mgr.destroy cfg id reading now fault).2 ∧
      ({ mgr with meteringHealthy := healthy }.destroy cfg id reading now fault).1.Alike
        (mgr.destroy cfg id reading now fault).1 := by
  have hfind : { mgr with meteringHealthy := healthy }.find id = mgr.find id := rfl
  simp only [destroy, hfind]
  cases mgr.find id with
  | none => exact ⟨rfl, healthy, rfl⟩
  | some r =>
    obtain ⟨healthy', hsample⟩ := sample_alike ((mgr.setStatus r .stopping).transition r
      (some (mgr.objects r).status) .stopping "delete_requested") healthy r reading
    have hstopping : ({ mgr with meteringHealthy := healthy }.setStatus r .stopping).transition r
        (some (mgr.objects r).status) .stopping "delete_requested"
      = { (mgr.setStatus r .stopping).transition r (some (mgr.objects r).status) .stopping
          "delete_requested" with meteringHealthy := healthy } := rfl
    simp only [hstopping, hsample]
    generalize ((mgr.setStatus r .stopping).transition r (some (mgr.objects r).status) .stopping
      "delete_requested").sample r true reading = y
    obtain ⟨x, ok⟩ := y
    cases ok with
    | false => exact ⟨rfl, healthy', rfl⟩
    | true =>
      have hstopped : ({ x with meteringHealthy := healthy' }.unregister id).transition r (some .stopping)
          .stopped "deleted"
        = { (x.unregister id).transition r (some .stopping) .stopped "deleted" with
            meteringHealthy := healthy' } := rfl
      simp only [hstopped, persist_alike]
      generalize ((x.unregister id).transition r (some .stopping) .stopped "deleted").persist cfg now fault = z
      obtain ⟨y, ok⟩ := z
      cases ok with
      | true => exact ⟨rfl, healthy', rfl⟩
      | false =>
        dsimp only
        split
        · exact ⟨rfl, healthy', rfl⟩
        · exact ⟨rfl, healthy', rfl⟩

theorem reap_alike (healthy : Bool) (cfg : Config) (id : String) (reading : Reading) (now : Time)
    (fault : SaveFault) :
    ({ mgr with meteringHealthy := healthy }.reap cfg id reading now fault).2
        = (mgr.reap cfg id reading now fault).2 ∧
      ({ mgr with meteringHealthy := healthy }.reap cfg id reading now fault).1.Alike
        (mgr.reap cfg id reading now fault).1 := by
  have hfind : { mgr with meteringHealthy := healthy }.find id = mgr.find id := rfl
  simp only [reap, hfind]
  cases mgr.find id with
  | none => exact ⟨rfl, healthy, rfl⟩
  | some r =>
    obtain ⟨healthy', hsample⟩ := sample_alike mgr healthy r reading
    simp only [hsample]
    generalize mgr.sample r true reading = y
    obtain ⟨x, ok⟩ := y
    cases ok with
    | false => exact ⟨rfl, healthy', rfl⟩
    | true =>
      have hstopped : ({ x with meteringHealthy := healthy' }.unregister id).transition r
          (some (mgr.objects r).status) .stopped "ttl_expired"
        = { (x.unregister id).transition r (some (mgr.objects r).status) .stopped "ttl_expired" with
            meteringHealthy := healthy' } := rfl
      simp only [hstopped, persist_alike]
      generalize ((x.unregister id).transition r (some (mgr.objects r).status) .stopped
        "ttl_expired").persist cfg now fault = z
      obtain ⟨y, ok⟩ := z
      cases ok with
      | true => exact ⟨rfl, healthy', rfl⟩
      | false => exact ⟨rfl, healthy', rfl⟩

theorem TerminalOp.retriesAs_alike (op : TerminalOp) (cfg : Config) (id : String) (healthy : Bool) :
    op.RetriesAs cfg id mgr { mgr with meteringHealthy := healthy } := by
  intro reading now fault
  cases op with
  | destroy => exact destroy_alike mgr healthy cfg id reading now fault
  | reap => exact reap_alike mgr healthy cfg id reading now fault

/-! ### The failures -/

/-- A `reap` whose final observation cannot be recorded changes at most the health of metering. -/
theorem reap_unrecordable (cfg : Config) {id : String} {r : ℕ} (reading : Reading) (now : Time)
    (fault : SaveFault) (hr : mgr.find id = some r) (h : mgr.unrecordable r = true) :
    ∃ healthy, mgr.reap cfg id reading now fault = ({ mgr with meteringHealthy := healthy }, .failed) := by
  obtain ⟨hiff, hemit⟩ := terminal_sample mgr r reading
  have hfail := hiff.mpr h
  obtain ⟨s, healthy, hx⟩ := hemit hfail
  have hsample : mgr.sample r true reading
      = (mgr.emit r s (mgr.objects r).meteringReserved [] healthy, false) := Prod.ext hx hfail
  refine ⟨healthy, ?_⟩
  simp only [reap, hr, hsample]
  have hobjects : (mgr.emit r s (mgr.objects r).meteringReserved [] healthy).setMetering r
      (mgr.objects r).metering = { mgr with
        meteringOutbox := mgr.meteringOutbox ++ []
        meteringHealthy := healthy } := by
    simp only [emit, setMetering, modifyMachine, Function.update_self, Function.update_idem]
    congr 1
    exact Function.update_eq_self r _
  rw [hobjects]
  simp only [emit, List.append_nil, List.take_length]

/-- A `reap` that fails at its save has recorded the end of the machine. -/
theorem reap_logged {cfg : Config} {id : String} {r : ℕ} {reading : Reading} {now : Time}
    {fault : SaveFault} (hr : mgr.find id = some r) (h : mgr.unrecordable r = false)
    (hfail : (mgr.reap cfg id reading now fault).2 = .failed) :
    (mgr.reap cfg id reading now fault).1.nextTransition = mgr.nextTransition + 1 := by
  have hs := sample_sampled mgr r true reading
  have hok : (mgr.sample r true reading).2 = true := by
    rw [← Bool.not_eq_false, (terminal_sample mgr r reading).1, h]
    decide
  have hnext : (mgr.sample r true reading).1.nextTransition = mgr.nextTransition := by
    generalize mgr.sample r true reading = x at hs
    cases hs <;> rfl
  simp only [reap, hr] at hfail ⊢
  generalize mgr.sample r true reading = y at hok hnext hfail ⊢
  obtain ⟨x, ok⟩ := y
  cases hok
  dsimp only at hfail hnext ⊢
  generalize hp : ((x.unregister id).transition r (some (mgr.objects r).status) .stopped
    "ttl_expired").persist cfg now fault = z at hfail ⊢
  obtain ⟨y, ok⟩ := z
  have hy : y.nextTransition = x.nextTransition + 1 := by
    have hy := congrArg (fun z => z.1.nextTransition) hp
    exact hy.symm
  cases ok with
  | true => cases hfail
  | false => exact hy.trans (by rw [hnext])

/-- A `destroy` that fails has recorded at least that the machine is stopping. -/
theorem destroy_logged {cfg : Config} {id : String} {reading : Reading} {now : Time} {fault : SaveFault}
    (hfail : (mgr.destroy cfg id reading now fault).2 = .failed) :
    mgr.nextTransition < (mgr.destroy cfg id reading now fault).1.nextTransition := by
  simp only [destroy] at hfail ⊢
  cases hr : mgr.find id with
  | none =>
    rw [hr] at hfail
    cases hfail
  | some r =>
    simp only [hr] at hfail ⊢
    have hs := sample_sampled ((mgr.setStatus r .stopping).transition r (some (mgr.objects r).status)
      .stopping "delete_requested") r true reading
    generalize ((mgr.setStatus r .stopping).transition r (some (mgr.objects r).status) .stopping
      "delete_requested").sample r true reading = y at hs hfail ⊢
    obtain ⟨x, ok⟩ := y
    have hnext : x.nextTransition = mgr.nextTransition + 1 := by cases hs <;> rfl
    cases ok with
    | false =>
      show mgr.nextTransition < x.nextTransition
      omega
    | true =>
      dsimp only at hfail ⊢
      generalize hp : ((x.unregister id).transition r (some .stopping) .stopped "deleted").persist cfg now
        fault = z at hfail ⊢
      obtain ⟨y, ok⟩ := z
      have hy : y.nextTransition = x.nextTransition + 1 := (congrArg (fun z => z.1.nextTransition) hp).symm
      cases ok with
      | true => cases hfail
      | false =>
        dsimp only at hfail ⊢
        split_ifs at hfail ⊢
        show mgr.nextTransition < y.nextTransition
        omega

/-- **A failed terminal operation leaves everything as it was, and can be retried, just when it is a `reap`
whose final observation cannot be recorded.** -/
theorem failed_terminal_iff (op : TerminalOp) (cfg : Config) (id : String) (reading : Reading) (now : Time)
    (fault : SaveFault) (h : (op.run mgr cfg id reading now fault).2 = .failed) :
    mgr.Untouched (op.run mgr cfg id reading now fault).1 ∧
        op.RetriesAs cfg id mgr (op.run mgr cfg id reading now fault).1 ↔
      op = .reap ∧ ∃ r, mgr.find id = some r ∧ mgr.unrecordable r = true := by
  constructor
  · rintro ⟨hsame, _⟩
    cases op with
    | destroy => exact absurd hsame.nextTransition (destroy_logged mgr h).ne'
    | reap =>
      refine ⟨rfl, ?_⟩
      cases hr : mgr.find id with
      | none =>
        simp only [TerminalOp.run, reap, hr] at h
        cases h
      | some r =>
        refine ⟨r, rfl, ?_⟩
        by_contra hrec
        have hlogged := reap_logged mgr hr (by simpa using hrec) h
        have hnext : (mgr.reap cfg id reading now fault).1.nextTransition = mgr.nextTransition :=
          hsame.nextTransition
        omega
  · rintro ⟨rfl, r, hr, hrec⟩
    obtain ⟨healthy, hx⟩ := reap_unrecordable mgr cfg reading now fault hr hrec
    show mgr.Untouched (mgr.reap cfg id reading now fault).1 ∧ _
    rw [TerminalOp.run, hx]
    exact ⟨⟨fun _ => rfl, rfl, rfl, rfl, rfl, rfl⟩, TerminalOp.retriesAs_alike mgr .reap cfg id healthy⟩

namespace Sample

/-- A metered machine, and an outbox without room. -/
def saturated : Manager :=
  { fresh ⟨none, 0⟩ [] (some bootId) with
    objects := fun _ =>
      { id := hostMachineId 0
        status := .running
        expiresAt := 1000
        vcpus := 1
        memoryMb := 512
        diskMb := 1024
        leaseId := leaseId 0
        leaseGeneration := 1
        metering := { sequence := 1 }
        metadata := [("public_machine_id", publicId 0)] }
    machines := [0]
    meteringOutbox := List.replicate maxMeteringOutbox
      (observation ⟨hostMachineId 1, .running, false, "", 1000, 1, 512, 1024, false, "", leaseId 1, 1, {}, [], "",
        "", "", [], ""⟩ 2 .checkpoint exact "") }

theorem saturated_unrecordable : saturated.unrecordable 0 = true := by
  have hfull : maxMeteringOutbox ≤ saturated.meteringOutbox.length := by
    simp only [saturated, List.length_replicate, le_refl]
  have hseq : (saturated.objects 0).metering.sequence ≠ 0 := by decide
  have hfinal : (saturated.objects 0).metering.final = false := by decide
  rw [unrecordable, decide_eq_true hseq, hfinal, decide_eq_true hfull, Bool.or_true]
  rfl

end Sample

/-- The theorem at a host without room for a final observation. -/
theorem failed_reap_saturated :
    Sample.saturated.Untouched
        (TerminalOp.reap.run Sample.saturated Sample.config (Sample.hostMachineId 0) (Sample.reading 9) 0
          .none).1 ∧
      TerminalOp.reap.RetriesAs Sample.config (Sample.hostMachineId 0) Sample.saturated
        (TerminalOp.reap.run Sample.saturated Sample.config (Sample.hostMachineId 0) (Sample.reading 9) 0
          .none).1 := by
  have hr : Sample.saturated.find (Sample.hostMachineId 0) = some 0 := by decide
  obtain ⟨healthy, hx⟩ := reap_unrecordable Sample.saturated Sample.config (Sample.reading 9) 0
    .none hr Sample.saturated_unrecordable
  exact (failed_terminal_iff Sample.saturated .reap Sample.config (Sample.hostMachineId 0)
    (Sample.reading 9) 0 .none (by rw [TerminalOp.run, hx])).mpr ⟨rfl, 0, hr, Sample.saturated_unrecordable⟩

/-- A destroy whose save fails leaves two transitions in the log. -/
theorem failed_destroy_logged :
    ¬ ∀ (cfg : Config) (acts : List Act) (d : Daemon) (op : TerminalOp) (id : String) (reading : Reading)
      (now : Time) (fault : SaveFault), Run (DaemonStep cfg) (Daemon.found none) acts d →
      (op.run d.manager cfg id reading now fault).2 = .failed →
      d.manager.Untouched (op.run d.manager cfg id reading now fault).1 ∧
        op.RetriesAs cfg id d.manager (op.run d.manager cfg id reading now fault).1 := by
  intro hall
  have h : ((Daemon.found none).runsIn Sample.config Unguarded (Sample.firstBoot ++ Sample.create 0)).any
      (fun d => decide ((d.manager.destroy Sample.config (Sample.hostMachineId 0) (Sample.reading 9) 0
        .beforeRename).2 = .failed)) = true := by decide +kernel
  obtain ⟨d, hrun, hfail⟩ := Daemon.runsIn_test Sample.config h
  have hsame := (hall Sample.config _ d .destroy _ _ 0 .beforeRename hrun.run hfail).1
  exact absurd hsame.nextTransition (destroy_logged d.manager hfail).ne'

end Nehemiah.Host
