import Nehemiah.Billing.Chain
import Nehemiah.Billing.Ledger

/-!
# How far the billed periods drift from the billed runtime

Every observation starts its period at the stored `last_period_end`, a whole millisecond, and stores the
next one truncated to a millisecond, so what is below a millisecond is dropped at each checkpoint and never
made up.  `offsetNs` adds up what is dropped.  The stored end is exact up to that sum (`periodEnd_offset`),
and so within a millisecond of the billed runtime just while the sum stays below one (`period_kept_iff`).
-/

namespace Nehemiah.Billing

open Nehemiah.Lib

/-- One observation, processed without anomaly against the stored row of its machine. -/
def CleanTurn (s : MeterState) (turn : MachineIdentity × StoredObservation) (s' : MeterState) : Prop :=
  ∃ (db : Db) (now : ℤ) (db' : Db) (v : Verdict), db.meterStates turn.1.id = some s ∧
    anomalyOf turn.1 s turn.2 = none ∧ processObservation db now turn.1 s turn.2 = .ok (db', v) ∧
    db'.meterStates turn.1.id = some s'

/-- The runtime that each observation adds to what is projected. -/
def increments (projected : ℕ) : List ℕ → List ℕ
  | [] => []
  | runtime :: runtimes => (runtime - projected) :: increments (max runtime projected) runtimes

/-- The parts below a millisecond that truncation drops, from the instant `t` in milliseconds on.  Before
the epoch `BigInt` division rounds up, and the parts count the other way. -/
def offsetNs (t : ℤ) : List ℕ → ℤ
  | [] => 0
  | delta :: deltas =>
    if t * nanosecondsPerMillisecond + delta < 0 then
      offsetNs (t - -(delta : ℤ) / nanosecondsPerMillisecond) deltas
        - -(delta : ℤ) % nanosecondsPerMillisecond
    else ((delta :: deltas).map fun d : ℕ => (d : ℤ) % nanosecondsPerMillisecond).sum

/-- The stored period end is less than a millisecond from the cut-over instant plus the runtime that is
projected but not covered by the legacy meter. -/
def PeriodKept (identity : MachineIdentity) (start : StoredObservation) (s : MeterState) : Prop :=
  ∃ periodEnd, s.lastPeriodEnd = some periodEnd ∧
    |periodEnd * nanosecondsPerMillisecond
      - (cutoverBoundary identity start.observedAt * nanosecondsPerMillisecond
        + ((s.projectedRuntimeNs : ℤ) - legacyCoveredRuntime identity start))| < nanosecondsPerMillisecond

/-! ### One observation -/

theorem offsetNs_epoch {t : ℤ} (ht : 0 ≤ t) (deltas : List ℕ) :
    offsetNs t deltas = (deltas.map fun d : ℕ => (d : ℤ) % nanosecondsPerMillisecond).sum := by
  cases deltas with
  | nil => rfl
  | cons delta deltas =>
    have h : ¬ t * nanosecondsPerMillisecond + delta < 0 := by
      unfold nanosecondsPerMillisecond
      omega
    rw [offsetNs, if_neg h]

/-- What one truncation drops goes into the sum. -/
theorem offsetNs_cons (t : ℤ) (delta : ℕ) (deltas : List ℕ) :
    timestampFromNanoseconds (t * nanosecondsPerMillisecond + delta) * nanosecondsPerMillisecond
        + offsetNs t (delta :: deltas)
      = t * nanosecondsPerMillisecond + delta
        + offsetNs (timestampFromNanoseconds (t * nanosecondsPerMillisecond + delta)) deltas := by
  by_cases h : t * nanosecondsPerMillisecond + delta < 0
  · have hend : timestampFromNanoseconds (t * nanosecondsPerMillisecond + delta)
        = t - -(delta : ℤ) / nanosecondsPerMillisecond := by
      obtain ⟨u, hu⟩ : ∃ u, t * nanosecondsPerMillisecond + delta = -u := ⟨_, (neg_neg _).symm⟩
      rw [timestampFromNanoseconds, hu, Int.neg_tdiv, Int.tdiv_eq_ediv_of_nonneg (by omega)]
      unfold nanosecondsPerMillisecond at *
      omega
    rw [offsetNs, if_pos h, hend]
    unfold nanosecondsPerMillisecond
    omega
  · have hend : timestampFromNanoseconds (t * nanosecondsPerMillisecond + delta)
        = (t * nanosecondsPerMillisecond + delta) / nanosecondsPerMillisecond := by
      rw [timestampFromNanoseconds, Int.tdiv_eq_ediv_of_nonneg (not_lt.mp h)]
    have hpos : 0 ≤ (t * nanosecondsPerMillisecond + delta) / nanosecondsPerMillisecond :=
      Int.ediv_nonneg (not_lt.mp h) (by decide)
    rw [offsetNs, if_neg h, hend, offsetNs_epoch hpos, List.map_cons, List.sum_cons]
    unfold nanosecondsPerMillisecond
    omega

variable {s s' : MeterState} {identity : MachineIdentity}

/-- The row after a clean turn: opened by a start, advanced by any other observation. -/
theorem CleanTurn.meter {turn : MachineIdentity × StoredObservation} (h : CleanTurn s turn s') :
    anomalyOf turn.1 s turn.2 = none ∧ ∃ now, s' = meterAfter now turn.1 s turn.2 := by
  obtain ⟨db, now, db', v, hs, ha, hp, hs'⟩ := h
  refine ⟨ha, now, ?_⟩
  rw [(processObservation_meter hs hp).2.1, Function.update_self] at hs'
  exact (Option.some.inj hs').symm

/-- A meter that has started, with its stored period end; a quarantined one has a reason. -/
structure Started (s : MeterState) (periodEnd : ℤ) : Prop where
  startSeen : s.startSeen = true
  lastPeriodEnd : s.lastPeriodEnd = some periodEnd
  reason : s.quarantinedAt.isSome → s.quarantineReason.isSome

theorem CleanTurn.start {identity₀ : MachineIdentity} {o₀ : HostUsageObservation} {o : StoredObservation}
    (h : CleanTurn (initialState identity₀ o₀) (identity, o) s) :
    Started s (cutoverBoundary identity o.observedAt) ∧
      s.projectedRuntimeNs = legacyCoveredRuntime identity o := by
  obtain ⟨ha, now, rfl⟩ := h.meter
  have hclean := clean_of_anomalyOf (by simp [initialState]) ha
  have hkind : o.kind = .start := (hclean.first rfl).2.1
  have hafter : meterAfter now identity (initialState identity₀ o₀) o
      = (initialState identity₀ o₀).started identity o := by
    simp only [meterAfter, ha, hkind, if_true]
  rw [hafter]
  exact ⟨⟨rfl, rfl, by simp [MeterState.started, initialState]⟩, rfl⟩

theorem CleanTurn.advance {o : StoredObservation} {periodEnd : ℤ} (hs : Started s periodEnd)
    (h : CleanTurn s (identity, o) s') :
    Started s' (timestampFromNanoseconds
      (periodEnd * nanosecondsPerMillisecond + ((o.runtimeNs - s.projectedRuntimeNs : ℕ) : ℤ))) ∧
      s'.projectedRuntimeNs = max o.runtimeNs s.projectedRuntimeNs := by
  obtain ⟨ha, now, rfl⟩ := h.meter
  have hclean := clean_of_anomalyOf hs.reason ha
  have hkind : o.kind ≠ .start := hclean.later hs.startSeen
  have hafter : meterAfter now identity s o = s.used now o periodEnd := by
    simp only [meterAfter, ha, if_neg hkind, MeterState.periodStart, hs.lastPeriodEnd, Option.orElse_some]
  rw [hafter, MeterState.used]
  split_ifs
  · exact ⟨⟨hs.startSeen, rfl, by simp [MeterState.quarantine]⟩, rfl⟩
  · exact ⟨⟨hs.startSeen, rfl, hs.reason⟩, rfl⟩

/-! ### Runs -/

/-- **The stored period end is exact up to what was dropped.** -/
theorem periodEnd_offset {turns : List (MachineIdentity × StoredObservation)} (h : Run CleanTurn s turns s') :
    ∀ {periodEnd : ℤ}, Started s periodEnd →
    ∃ periodEnd', Started s' periodEnd' ∧
      periodEnd' * nanosecondsPerMillisecond
          + offsetNs periodEnd (increments s.projectedRuntimeNs (turns.map fun turn => turn.2.runtimeNs))
        = periodEnd * nanosecondsPerMillisecond
          + ((s'.projectedRuntimeNs : ℤ) - s.projectedRuntimeNs) := by
  induction h with
  | nil s =>
    intro periodEnd hs
    exact ⟨periodEnd, hs, by simp [increments, offsetNs]⟩
  | @cons s t u turn turns hturn _ ih =>
    intro periodEnd hs
    obtain ⟨identity, o⟩ := turn
    obtain ⟨ht, hproj⟩ := hturn.advance hs
    obtain ⟨periodEnd', hu, hsum⟩ := ih ht
    refine ⟨periodEnd', hu, ?_⟩
    have hstep := offsetNs_cons periodEnd (o.runtimeNs - s.projectedRuntimeNs)
      (increments t.projectedRuntimeNs (turns.map fun turn => turn.2.runtimeNs))
    rw [List.map_cons, increments, ← hproj]
    have hmax : (t.projectedRuntimeNs : ℤ)
        = s.projectedRuntimeNs + ((o.runtimeNs - s.projectedRuntimeNs : ℕ) : ℤ) := by
      rw [hproj]
      omega
    linarith

/-- **The billed periods keep to the billed runtime while less than a millisecond has been dropped**, and
no longer. -/
theorem period_kept_iff (identity₀ : MachineIdentity) (o₀ : HostUsageObservation) (identity : MachineIdentity)
    (start : StoredObservation) (turns : List (MachineIdentity × StoredObservation)) (s : MeterState)
    (h : Run CleanTurn (initialState identity₀ o₀) ((identity, start) :: turns) s) :
    PeriodKept identity start s ↔
      |offsetNs (cutoverBoundary identity start.observedAt)
        (increments (legacyCoveredRuntime identity start) (turns.map fun turn => turn.2.runtimeNs))|
        < nanosecondsPerMillisecond := by
  cases h with
  | cons hstart hrest =>
    obtain ⟨hs, hproj⟩ := hstart.start
    obtain ⟨periodEnd, hend, hsum⟩ := periodEnd_offset hrest hs
    rw [hproj] at hsum
    set offset := offsetNs (cutoverBoundary identity start.observedAt)
      (increments (legacyCoveredRuntime identity start) (turns.map fun turn => turn.2.runtimeNs))
    have hdiff : periodEnd * nanosecondsPerMillisecond
        - (cutoverBoundary identity start.observedAt * nanosecondsPerMillisecond
          + ((s.projectedRuntimeNs : ℤ) - legacyCoveredRuntime identity start)) = -offset := by
      linarith
    constructor
    · rintro ⟨e, he, hlt⟩
      obtain rfl : periodEnd = e := Option.some.inj (hend.lastPeriodEnd.symm.trans he)
      rwa [hdiff, abs_neg] at hlt
    · intro hlt
      refine ⟨periodEnd, hend.lastPeriodEnd, ?_⟩
      rwa [hdiff, abs_neg]

/-! ### Turns that are taken -/

/-- The row after a turn that can be taken without anomaly. -/
def takeTurn (s : MeterState) (turn : MachineIdentity × StoredObservation) : Option MeterState :=
  if anomalyOf turn.1 s turn.2 = none ∧
      (turn.2.kind = .start → legacyCoveredRuntime turn.1 turn.2 ≤ maxUnsignedBigint) ∧
      (turn.2.kind ≠ .start → s.periodStart.isSome) then
    some (meterAfter 0 turn.1 s turn.2)
  else none

theorem takeTurn_clean (s : MeterState) (turn : MachineIdentity × StoredObservation) (s' : MeterState)
    (h : takeTurn s turn = some s') : CleanTurn s turn s' := by
  obtain ⟨identity, o⟩ := turn
  unfold takeTurn at h
  split_ifs at h with hturn
  cases h
  obtain ⟨ha, hcover, hstarted⟩ := hturn
  let db : Db :=
    { hosts := fun _ => none
      machines := fun _ => none
      meterStates := fun _ => some s
      observations := []
      nextObservationId := 0
      rawEvents := []
      usageEvents := []
      cutovers := []
      exceptions := []
      resolutions := []
      auditEvents := []
      startRecords := fun _ => none }
  have hrun : ∃ r, processObservation db 0 identity s o = .ok r := by
    by_cases hk : o.kind = .start
    · simp only [processObservation, ha, if_pos hk, processStart, if_neg (not_lt.mpr (hcover hk))]
      exact ⟨_, rfl⟩
    · obtain ⟨ps, hps⟩ := Option.isSome_iff_exists.mp (hstarted hk)
      have hps' : (s.lastPeriodEnd.orElse fun _ => s.lastObservedAt) = some ps := hps
      obtain ⟨db', hok, _⟩ := processUsage_ok db 0 identity s o ps rfl (by simp [db])
      simp only [processObservation, ha, if_neg hk, hps', hok]
      exact ⟨_, rfl⟩
  obtain ⟨⟨db', v⟩, hp⟩ := hrun
  refine ⟨db, 0, db', v, rfl, ha, hp, ?_⟩
  rw [(processObservation_meter rfl hp).2.1, Function.update_self]

namespace Sample

def meterIdentity : MachineIdentity := machine.identity machineId hostId "m-0000000a" 1700000060000

/-- A row of the sample lease, received twenty minutes later. -/
def storedTurn (o : HostUsageObservation) : MachineIdentity × StoredObservation :=
  (meterIdentity, storedObservation 0 hostId (arrival o 1700001220000))

/-- Checkpoints every ten seconds and six tenths of a millisecond. -/
def lateCheckpoint (k : ℕ) : HostUsageObservation :=
  observation (k + 1) .checkpoint (k * 10000600000) (100 + k) "2023-11-14T22:13:40Z"

end Sample

/-- One late checkpoint: six tenths of a millisecond are dropped, and the period end is kept. -/
theorem period_kept_one_checkpoint : ∃ s,
    Run CleanTurn (initialState Sample.meterIdentity Sample.start)
      [Sample.storedTurn Sample.start, Sample.storedTurn (Sample.lateCheckpoint 1)] s ∧
    PeriodKept Sample.meterIdentity (Sample.storedTurn Sample.start).2 s := by
  have htaken : (exec takeTurn (initialState Sample.meterIdentity Sample.start)
      [Sample.storedTurn Sample.start, Sample.storedTurn (Sample.lateCheckpoint 1)]).isSome = true := by decide +kernel
  obtain ⟨s, hs⟩ := Option.isSome_iff_exists.mp htaken
  have hrun := (Run.of_exec hs).imp takeTurn_clean
  exact ⟨s, hrun, (period_kept_iff _ _ _ _ _ s hrun).mpr (by decide +kernel)⟩

/-- After two late checkpoints the stored period end is more than a millisecond behind. -/
theorem two_checkpoints_drift :
    ¬ ∀ (identity₀ : MachineIdentity) (o₀ : HostUsageObservation) (identity : MachineIdentity)
      (start : StoredObservation) (turns : List (MachineIdentity × StoredObservation)) (s : MeterState),
      Run CleanTurn (initialState identity₀ o₀) ((identity, start) :: turns) s → PeriodKept identity start s := by
  intro hall
  have htaken : (exec takeTurn (initialState Sample.meterIdentity Sample.start)
      [Sample.storedTurn Sample.start, Sample.storedTurn (Sample.lateCheckpoint 1), Sample.storedTurn (Sample.lateCheckpoint 2)]).any
      (fun s => decide (s.lastPeriodEnd = some 1700000020000 ∧ s.projectedRuntimeNs = 20001200000))
      = true := by decide +kernel
  obtain ⟨s, hrun, hend, hproj⟩ := Run.of_test htaken
  obtain ⟨e, he, hlt⟩ := hall _ _ _ _ _ s (hrun.imp takeTurn_clean)
  rw [hend] at he
  cases he
  rw [hproj] at hlt
  revert hlt
  decide +kernel

end Nehemiah.Billing
