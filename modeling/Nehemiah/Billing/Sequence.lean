import Nehemiah.Billing.Chain
import Nehemiah.Billing.Ledger

/-!
# Observations in sequence

The meter processes the observations of a lease in sequence, whatever the order they arrive in.  For a
set of observations that ingestion in order accepts (`InOrder`) this module gives the meter state after
the first `k` of them (`meterAt`) and what they bill (`billsAt`), and shows that a drain that starts at
`meterAt c` and finds the observations up to `c'` ends at `meterAt c'` and appends the bills in between
(`InOrder.drain`).

The machine row is read again at every turn.  Processing the start moves its `usage_checkpoint_at`; only
a start ever reads that column, so later turns judge and bill as the first one would
(`MachineIdentity.Agrees`).
-/

namespace Nehemiah.Billing

open Nehemiah.Lib

/-! ### What an observation needs of the machine row -/

/-- The identity agrees with `base` but for the usage checkpoint and the admission time. -/
def MachineIdentity.Agrees (identity base : MachineIdentity) : Prop :=
  identity =
    { base with
      usageCheckpointAt := identity.usageCheckpointAt
      admissionReceivedAt := identity.admissionReceivedAt }

section Agrees

variable {identity base : MachineIdentity} (h : identity.Agrees base)

include h

theorem MachineIdentity.Agrees.anomalyOf (s : MeterState) (o : StoredObservation) :
    anomalyOf identity s o = anomalyOf base s o := by
  rw [h]
  rfl

theorem MachineIdentity.Agrees.integrity (s : MeterState) (c : Counters) (t : ℤ) :
    observationIntegrityReason identity s c t = observationIntegrityReason base s c t := by
  rw [h]
  rfl

theorem MachineIdentity.Agrees.projections (s : MeterState) (o : StoredObservation) (ps : ℤ) :
    projections identity s o ps = projections base s o ps := by
  rw [h]
  rfl

/-- A start also reads the usage checkpoint. -/
theorem MachineIdentity.Agrees.legacyCovered (hu : identity.usageCheckpointAt = base.usageCheckpointAt)
    (o : StoredObservation) : legacyCoveredRuntime identity o = legacyCoveredRuntime base o := by
  rw [h, hu]
  rfl

end Agrees

/-- What the integrity check requires of an observation that it passes. -/
theorem observationIntegrityReason_none_iff (identity : MachineIdentity) (s : MeterState)
    (c : Counters) (t : ℤ) :
    observationIntegrityReason identity s c t = none ↔
      c.runtimeNs ≤ defensibleElapsedNs identity t ∧
      c.egressBytes ≤ maximumEgress (defensibleElapsedNs identity t) ∧
      (s.startSeen = true → ¬ (c.runtimeNs < s.lastRuntimeNs ∨ c.egressBytes < s.lastEgressBytes) →
        ¬ (c.kind = .checkpoint ∧
          c.runtimeNs - s.lastRuntimeNs < minimumCheckpointRuntimeDeltaNs) ∧
        ¬ (c.egressCounterEpoch = s.egressCounterEpoch ∧
          (if c.runtimeNs - s.lastRuntimeNs = 0 then 0
            else maximumEgress (c.runtimeNs - s.lastRuntimeNs)) < c.egressBytes - s.lastEgressBytes) ∧
        prematureFinal identity c t = false) := by
  simp only [observationIntegrityReason]
  by_cases h1 : defensibleElapsedNs identity t < c.runtimeNs
  · simp [h1]
  by_cases h2 : maximumEgress (defensibleElapsedNs identity t) < c.egressBytes
  · simp [h1, h2]
  cases h3 : s.startSeen with
  | false => simp [h1, h2, not_lt.mp h1, not_lt.mp h2]
  | true =>
    by_cases h4 : c.runtimeNs < s.lastRuntimeNs ∨ c.egressBytes < s.lastEgressBytes
    · simp [h1, h2, h4, not_lt.mp h1, not_lt.mp h2]
    · simp only [if_neg h1, if_neg h2, not_lt.mp h1, not_lt.mp h2, true_and, h4]
      split_ifs <;> simp_all

/-- The integrity check only becomes more lenient with time. -/
theorem observationIntegrityReason_mono {identity : MachineIdentity} {s : MeterState} {c : Counters}
    {t t' : ℤ} (hle : t ≤ t') (h : observationIntegrityReason identity s c t = none) :
    observationIntegrityReason identity s c t' = none := by
  have helapsed : defensibleElapsedNs identity t ≤ defensibleElapsedNs identity t' := by
    unfold defensibleElapsedNs
    refine Nat.mul_le_mul_right _ ?_
    omega
  have hegress : maximumEgress (defensibleElapsedNs identity t)
      ≤ maximumEgress (defensibleElapsedNs identity t') := by
    unfold maximumEgress nanosecondsPerSecond managedEgressBytesPerSecond managedEgressBurstBytes
    omega
  have hfinal : prematureFinal identity c t = false → prematureFinal identity c t' = false := by
    unfold prematureFinal
    cases c.quality with
    | lastDefensible => exact id
    | exact =>
      simp only [Bool.and_eq_false_iff, decide_eq_false_iff_not]
      rintro (h | h)
      · exact Or.inl h
      · exact Or.inr (by omega)
  rw [observationIntegrityReason_none_iff] at h ⊢
  obtain ⟨h1, h2, h3⟩ := h
  refine ⟨le_trans h1 helapsed, le_trans h2 hegress, fun hs hr => ?_⟩
  obtain ⟨h4, h5, h6⟩ := h3 hs hr
  exact ⟨h4, h5, hfinal h6⟩

/-! ### In sequence -/

/-- What a raw event bills. -/
def bill (e : RawUsageEvent) : Dimension × ℕ × ℤ × ℤ :=
  (e.dimension, e.quantity, e.periodStart, e.periodEnd)

section Sequence

/-- The observations of one lease: the host, the machine row as the first turn finds it, the observation
of each sequence number and the time it is stored at. -/
structure Lease where
  hostId : String
  base : MachineIdentity
  obs : ℕ → HostUsageObservation
  received : ℕ → ℤ

variable (L : Lease)

/-- The stored row of observation `k`, under any id. -/
def Lease.row (id k : ℕ) : StoredObservation :=
  storedObservation id L.hostId ⟨L.obs k, L.received k, L.received k⟩

/-- The meter state after the first `k` observations. -/
def Lease.meterAt (L : Lease) : ℕ → MeterState
  | 0 => initialState L.base (L.obs 1)
  | k + 1 => meterAfter 0 L.base (L.meterAt k) (L.row 0 (k + 1))

/-- What observation `k + 1` bills after the first `k`. -/
def Lease.billsOf (k : ℕ) : List (Dimension × ℕ × ℤ × ℤ) :=
  let s := L.meterAt k
  let o := L.row 0 (k + 1)
  if o.kind = .start then []
  else (stored (projections L.base s o (s.periodStart.getD 0))).map bill

/-- What the first `k` observations bill. -/
def Lease.billsAt (k : ℕ) : List (Dimension × ℕ × ℤ × ℤ) :=
  (List.range k).flatMap L.billsOf

/-- The observations `1` to `n` of one lease, such that ingestion in order accepts every one of them:
each is valid and names the machine, the lease and the resources; judged in sequence none is anomalous,
neither at its admission at time `admitted k` nor when it is processed; and the database takes its
values. -/
structure Lease.InOrder (n : ℕ) (admitted : ℕ → ℤ) : Prop where
  sequence : ∀ k, 1 ≤ k → k ≤ n → (L.obs k).sequence = k
  valid : ∀ k, 1 ≤ k → k ≤ n → validateObservation (L.obs k) = .ok ()
  machineId : ∀ k, 1 ≤ k → k ≤ n → (L.obs k).machineId = L.base.id
  hostMachineId : ∀ k, 1 ≤ k → k ≤ n → (L.obs k).hostMachineId = L.base.hostMachineId
  leaseId : ∀ k, 1 ≤ k → k ≤ n → uuidText (L.obs k).leaseId = L.base.leaseId
  leaseGeneration : ∀ k, 1 ≤ k → k ≤ n → (L.obs k).leaseGeneration = L.base.leaseGeneration
  vcpus : ∀ k, 1 ≤ k → k ≤ n → (L.obs k).vcpus = L.base.vcpus
  memoryBytes : ∀ k, 1 ≤ k → k ≤ n → (L.obs k).memoryBytes = L.base.memoryBytes
  processId : ∀ k, 1 ≤ k → k ≤ n → (L.obs k).processId ≤ 2147483647
  bootId : ∀ k, k < n → (L.meterAt k).hostBootId = (L.obs (k + 1)).hostBootId
  admission : ∀ k, k < n → observationIntegrityReason L.base (L.meterAt k)
    (L.obs (k + 1)).counters (admitted (k + 1)) = none
  clean : ∀ k, k < n → verdictOf L.base (L.meterAt k) (L.row 0 (k + 1)) = .accepted
  cutover : legacyCoveredRuntime L.base (L.row 0 1) ≤ maxUnsignedBigint

variable {L} {identity : MachineIdentity}

theorem verdictOf_accepted {s : MeterState} {o : StoredObservation} (h : verdictOf identity s o = .accepted) :
    anomalyOf identity s o = none ∧ (o.kind ≠ .start → usedVerdict o = .accepted) := by
  unfold verdictOf at h
  split at h
  · cases h
  · next ha =>
    refine ⟨ha, fun hk => ?_⟩
    rwa [if_neg hk] at h

/-- The meter state after an accepted observation. -/
theorem meterAfter_accepted {s : MeterState} {o : StoredObservation} (h : verdictOf identity s o = .accepted)
    (now : ℤ) :
    meterAfter now identity s o =
      if o.kind = .start then s.started identity o
      else (s.periodStart.map fun ps => s.advanced o ps).getD s := by
  obtain ⟨ha, hu⟩ := verdictOf_accepted h
  simp only [meterAfter, ha]
  by_cases hk : o.kind = .start
  · simp only [if_pos hk]
  · simp only [if_neg hk]
    have hfinal : ¬ (o.kind = .final ∧ o.quality = .lastDefensible) := by
      intro hd
      have := hu hk
      simp [usedVerdict, hd] at this
    cases s.periodStart with
    | none => rfl
    | some ps => simp [MeterState.used, hfinal]

variable {n : ℕ} {admitted : ℕ → ℤ} (hin : L.InOrder n admitted)

include hin

/-- Facts about the meter state that hold all along a clean sequence. -/
theorem Lease.InOrder.meterAt_facts (k : ℕ) (hk : k ≤ n) :
    (L.meterAt k).quarantinedAt = none ∧
      (L.meterAt k).lastSequence = k ∧
      (L.meterAt k).hostBootId = uuidText (L.obs 1).hostBootId ∧
      (L.meterAt k).egressCounterEpoch = (L.obs 1).egressCounterEpoch ∧
      (L.meterAt k).leaseGeneration = L.base.leaseGeneration ∧
      ((L.meterAt k).startSeen = true ↔ 1 ≤ k) ∧
      (1 ≤ k → (L.meterAt k).periodStart.isSome) := by
  induction k with
  | zero => exact ⟨rfl, rfl, rfl, rfl, rfl, by simp [meterAt, initialState], by omega⟩
  | succ k ih =>
    obtain ⟨hq, hseq, hboot, hepoch, hgen, hstart, hps⟩ := ih (by omega)
    have hclean := hin.clean k (by omega)
    have hcl : Clean L.base (L.meterAt k) (L.row 0 (k + 1)) :=
      clean_of_anomalyOf (by rw [hq]; rintro ⟨⟩) (verdictOf_accepted hclean).1
    have hepoch' := (counterReset_false hcl.counters).2.2
    have hrowseq : (L.row 0 (k + 1)).sequence = k + 1 :=
      hin.sequence (k + 1) (by omega) hk
    rw [meterAt, meterAfter_accepted hclean]
    by_cases hkind : (L.row 0 (k + 1)).kind = .start
    · simp only [if_pos hkind]
      refine ⟨hq, hrowseq, hboot, hepoch'.trans hepoch, hgen, by simp [MeterState.started], fun _ => ?_⟩
      simp [MeterState.periodStart, MeterState.started]
    · have hseen : (L.meterAt k).startSeen = true := by
        by_contra hne
        exact hkind (hcl.first (by simpa using hne)).2.1
      obtain ⟨ps, hps'⟩ := Option.isSome_iff_exists.mp (hps (hstart.mp hseen))
      simp only [if_neg hkind, hps', Option.map_some, Option.getD_some]
      refine ⟨hq, hrowseq, hboot, hepoch, hgen, ?_, fun _ => ?_⟩
      · simp [MeterState.advanced, hseen]
      · simp [MeterState.periodStart, MeterState.advanced]

theorem Lease.InOrder.clean_row (k : ℕ) (hk : k < n) : Clean L.base (L.meterAt k)
    (L.row 0 (k + 1)) := by
  have hq := (hin.meterAt_facts k (by omega)).1
  exact clean_of_anomalyOf (by rw [hq]; exact fun h => nomatch h) (verdictOf_accepted (hin.clean k hk)).1

/-- Only the first observation is a start. -/
theorem Lease.InOrder.start_iff (k : ℕ) (hk : k < n) : (L.obs (k + 1)).kind = .start ↔ k = 0 := by
  have hcl := hin.clean_row k hk
  have hstart := (hin.meterAt_facts k (by omega)).2.2.2.2.2.1
  constructor
  · intro hkind
    by_contra hne
    exact hcl.later (hstart.mpr (by omega)) hkind
  · rintro rfl
    exact (hcl.first rfl).2.1

/-- All observations carry one boot id, in its stored form. -/
theorem Lease.InOrder.boot (k : ℕ) (h1 : 1 ≤ k) (hk : k ≤ n) :
    (L.obs k).hostBootId = uuidText (L.obs 1).hostBootId ∧
      uuidText (L.obs k).hostBootId = uuidText (L.obs 1).hostBootId := by
  obtain ⟨j, rfl⟩ : ∃ j, k = j + 1 := ⟨k - 1, by omega⟩
  have hboot := (hin.meterAt_facts j (by omega)).2.2.1
  exact ⟨(hin.bootId j (by omega)).symm.trans hboot,
    (hin.clean_row j (by omega)).hostBootId.symm.trans hboot⟩

theorem Lease.InOrder.epoch (k : ℕ) (h1 : 1 ≤ k) (hk : k ≤ n) :
    (L.obs k).egressCounterEpoch = (L.obs 1).egressCounterEpoch := by
  obtain ⟨j, rfl⟩ : ∃ j, k = j + 1 := ⟨k - 1, by omega⟩
  exact (counterReset_false (hin.clean_row j (by omega)).counters).2.2.trans
    (hin.meterAt_facts j (by omega)).2.2.2.1

/-- Whichever observation comes first, the meter state it inserts is the same. -/
theorem Lease.InOrder.initialState (identity : MachineIdentity) (hag : identity.Agrees L.base) (k : ℕ)
    (h1 : 1 ≤ k) (hk : k ≤ n) : initialState identity (L.obs k) = L.meterAt 0 := by
  rw [hag]
  simp only [Billing.initialState, meterAt, (hin.boot k h1 hk).2, hin.epoch k h1 hk]

/-! ### Processing in sequence -/

omit hin in
/-- The id of a row is not billed. -/
theorem bills_row (s : MeterState) (id k : ℕ) (ps : ℤ) :
    (stored (projections L.base s (L.row id k) ps)).map bill
      = (stored (projections L.base s (L.row 0 k) ps)).map bill := by
  have hseg : ∀ seg, (stored (segmentEvents L.base (L.row id k) seg)).map bill
      = (stored (segmentEvents L.base (L.row 0 k) seg)).map bill := by
    intro seg
    simp only [stored, segmentEvents, List.filter_cons, List.filter_nil]
    split_ifs <;> rfl
  have hflat : ∀ segs : List UsageSegment,
      (stored (segs.flatMap (segmentEvents L.base (L.row id k)))).map bill
        = (stored (segs.flatMap (segmentEvents L.base (L.row 0 k)))).map bill := by
    intro segs
    induction segs with
    | nil => rfl
    | cons seg segs ih =>
      have happ : ∀ es fs : List RawUsageEvent, (stored (es ++ fs)).map bill
          = (stored es).map bill ++ (stored fs).map bill := by simp [stored]
      rw [List.flatMap_cons, List.flatMap_cons, happ, happ, hseg, ih]
  have hegress : ∀ segs : List UsageSegment,
      (stored (egressEvents L.base s (L.row id k) ps segs)).map bill
        = (stored (egressEvents L.base s (L.row 0 k) ps segs)).map bill := by
    intro segs
    have hsame : (L.row id k).egressBytes
        = (L.row 0 k).egressBytes := rfl
    simp only [egressEvents, hsame]
    split_ifs
    · simp only [stored, List.filter_cons, List.filter_nil]
      split_ifs <;> rfl
    · rfl
  have happ : ∀ es fs : List RawUsageEvent, (stored (es ++ fs)).map bill
      = (stored es).map bill ++ (stored fs).map bill := by simp [stored]
  have hdelta : runtimeDelta s (L.row id k)
      = runtimeDelta s (L.row 0 k) := rfl
  rw [projections, projections, happ, happ, hdelta, hflat, hegress]

/-- What processing the next observation in sequence does. -/
structure Lease.Advanced (L : Lease) (db db' : Db) (k : ℕ) : Prop where
  hosts : db'.hosts = db.hosts
  observations : db'.observations = db.observations
  meterStates : db'.meterStates = Function.update db.meterStates L.base.id
    (some (L.meterAt k))
  machines : MachinesKept db.machines db'.machines

/-- **One observation in sequence.** -/
theorem Lease.InOrder.process (k : ℕ) (hk : k < n) {db : Db} (hb : Books db.tables) (hag : identity.Agrees L.base)
    (hu : k = 0 → identity.usageCheckpointAt = L.base.usageCheckpointAt)
    (hs : db.meterStates L.base.id = some (L.meterAt k)) (id : ℕ)
    (ho : nextPending db identity (L.meterAt k)
      = some (L.row id (k + 1))) (now : ℤ) :
    ∃ db' es, processObservation db now identity (L.meterAt k)
        (L.row id (k + 1)) = .ok (db', .accepted) ∧
      L.Advanced db db' (k + 1) ∧
      db'.rawEvents = db.rawEvents ++ es ∧ (∀ e ∈ es, e.leaseId = L.base.leaseId) ∧
      es.map bill = L.billsOf k := by
  have hid : identity.id = L.base.id := by rw [hag]
  have hs' : db.meterStates identity.id = some (L.meterAt k) := by
    rw [hid]
    exact hs
  have hverdict := hin.clean k hk
  obtain ⟨ha, hused⟩ := verdictOf_accepted hverdict
  have ha' : anomalyOf identity (L.meterAt k)
      (L.row id (k + 1)) = none := by
    rw [hag.anomalyOf]
    exact ha
  have hafter := meterAfter_accepted hverdict 0
  have hstart := hin.start_iff k hk
  by_cases hk0 : k = 0
  · -- the start opens the meter and bills nothing
    have hkind : (L.obs (k + 1)).kind = .start := hstart.mpr hk0
    have hcover : ¬ maxUnsignedBigint
        < legacyCoveredRuntime identity (L.row id (k + 1)) := by
      rw [hag.legacyCovered (hu hk0), not_lt, hk0]
      exact hin.cutover
    obtain ⟨db', hp⟩ : ∃ db', processStart db identity (L.meterAt k)
        (L.row id (k + 1)) = .ok db' :=
      ⟨_, by simp only [processStart, if_neg hcover]; rfl⟩
    have ht := processStart_tables hs' hp
    have hc := closeLegacyPrefix_tables db identity
      (L.row id (k + 1)).observedAt
    have hkept := closeLegacyPrefix_kept db identity
      (L.row id (k + 1)).observedAt
    refine ⟨db', [], ?_, ⟨?_, ?_, ?_, ?_⟩, ?_, ?_, ?_⟩
    · simp only [processObservation, ha', show (L.row id (k + 1)).kind = .start
        from hkind, if_true, hp]
      rfl
    · rw [hc] at ht
      exact congrArg Tables.hosts ht
    · rw [hc] at ht
      exact congrArg Tables.observations ht
    · have hm : db'.meterStates = _ := congrArg Tables.meterStates ht
      rw [hm, hid, meterAt, hafter, if_pos (show (L.row 0 (k + 1)).kind = .start
        from hkind)]
      have hsame : (L.meterAt k).started identity
          (L.row id (k + 1))
          = (L.meterAt k).started L.base (L.row 0 (k + 1)) := by
        rw [hag, hu hk0]
        rfl
      rw [hsame]
    · have hm : db'.machines = (closeLegacyPrefix db identity
          (L.row id (k + 1)).observedAt).1.machines :=
        congrArg Tables.machines ht
      rw [hm]
      exact hkept
    · rw [hc] at ht
      have hr : db'.rawEvents = db.rawEvents := congrArg Tables.rawEvents ht
      rw [hr, List.append_nil]
    · simp
    · simp only [billsOf, if_pos (show (L.row 0 (k + 1)).kind = .start from hkind),
        List.map_nil]
  · have hkind : (L.obs (k + 1)).kind ≠ .start := fun h => hk0 (hstart.mp h)
    obtain ⟨ps, hps⟩ := Option.isSome_iff_exists.mp
      ((hin.meterAt_facts k (by omega)).2.2.2.2.2.2 (by omega))
    obtain ⟨db', hrun, ht⟩ := processUsage_ok db now identity (L.meterAt k)
      (L.row id (k + 1)) ps hs' (hb.fresh hs' ho)
    have hverd : usedVerdict (L.row id (k + 1)) = .accepted := hused hkind
    have hplain : ¬ ((L.row id (k + 1)).kind = .final
        ∧ (L.row id (k + 1)).quality = .lastDefensible) := by
      intro hd
      simp [usedVerdict, hd] at hverd
    refine ⟨db', stored (projections identity (L.meterAt k)
      (L.row id (k + 1)) ps), ?_, ⟨congrArg Tables.hosts ht,
      congrArg Tables.observations ht, ?_, ?_⟩, congrArg Tables.rawEvents ht, ?_, ?_⟩
    · simp only [processObservation, ha', if_neg
        (show (L.row id (k + 1)).kind ≠ .start from hkind)]
      have hps' : ((L.meterAt k).lastPeriodEnd.orElse fun _ =>
          (L.meterAt k).lastObservedAt) = some ps := hps
      rw [hps']
      dsimp only
      rw [hrun, hverd]
    · have hm : db'.meterStates = _ := congrArg Tables.meterStates ht
      rw [hm, hid, meterAt, hafter, if_neg
        (show (L.row 0 (k + 1)).kind ≠ .start from hkind), hps]
      simp only [MeterState.used, if_neg hplain, Option.map_some, Option.getD_some]
      rfl
    · have hm : db'.machines = _ := congrArg Tables.machines ht
      rw [hm]
      exact usedMachines_kept _ _ _ _ _ _
    · intro e he
      rw [(projections_mem _ _ _ _ e (List.mem_filter.mp he).1).2.2.2.1, hag]
    · rw [hag.projections, bills_row, billsOf]
      simp only [if_neg (show (L.row 0 (k + 1)).kind ≠ .start from hkind), hps,
        Option.getD_some]

/-- The stored observation of the lease with sequence number `k`. -/
def Lease.lookup (L : Lease) (observations : List StoredObservation) (k : ℕ) :
    Option StoredObservation :=
  observations.find? fun o => o.machineId == L.base.id && o.leaseGeneration == L.base.leaseGeneration
    && o.hostBootId == uuidText (L.obs 1).hostBootId && o.sequence == k

theorem Lease.InOrder.nextPending (k : ℕ) (hk : k ≤ n) (hag : identity.Agrees L.base) (db : Db) :
    nextPending db identity (L.meterAt k) = L.lookup db.observations (k + 1) := by
  obtain ⟨_, hseq, hboot, _⟩ := hin.meterAt_facts k hk
  rw [Billing.nextPending, Lease.lookup, hseq, hboot, hag]

/-- **A drain in sequence.**  From `meterAt c`, with the observations `c + 1` to `c'` stored and the one
after them missing, the loop accepts them all and stops. -/
theorem Lease.InOrder.drain (now : ℤ) (hag : identity.Agrees L.base) (c' : ℕ) (hc' : c' ≤ n) (d : ℕ) :
    ∀ (c fuel : ℕ) (db : Db), c + d = c' → d < fuel →
    Books db.tables → Selected db.tables identity →
    db.meterStates L.base.id = some (L.meterAt c) →
    (c = 0 → identity.usageCheckpointAt = L.base.usageCheckpointAt) →
    (∀ k, c < k → k ≤ c' → ∃ id, L.lookup db.observations k = some (L.row id k)) →
    L.lookup db.observations (c' + 1) = none →
    ∃ db' judged es, Billing.drain now identity fuel db = .ok (db', judged) ∧
      (∀ j ∈ judged, j.2 = .accepted) ∧ L.Advanced db db' c' ∧
      (c' = c → db'.machines = db.machines) ∧ db'.rawEvents = db.rawEvents ++ es ∧
      (∀ e ∈ es, e.leaseId = L.base.leaseId) ∧ L.billsAt c ++ es.map bill = L.billsAt c' := by
  have hid : identity.id = L.base.id := by rw [hag]
  induction d with
  | zero =>
    intro c fuel db hcd hfuel hb hsel hs hu hstored hnone
    obtain ⟨fuel, rfl⟩ : ∃ f, fuel = f + 1 := ⟨fuel - 1, by omega⟩
    have hcc : c' = c := by omega
    subst hcc
    refine ⟨db, [], [], ?_, by simp, ⟨rfl, rfl, ?_, .refl _⟩, fun _ => rfl, by simp, by simp, by simp⟩
    · simp only [Billing.drain, stateForUpdate, hid, hs, hin.nextPending c' hc' hag, hnone]
    · rw [← hs, Function.update_eq_self]
  | succ d ih =>
    intro c fuel db hcd hfuel hb hsel hs hu hstored hnone
    obtain ⟨fuel, rfl⟩ : ∃ f, fuel = f + 1 := ⟨fuel - 1, by omega⟩
    have hc : c < n := by omega
    obtain ⟨id, hlook⟩ := hstored (c + 1) (by omega) (by omega)
    have ho : Billing.nextPending db identity (L.meterAt c) = some (L.row id (c + 1)) := by
      rw [hin.nextPending c (by omega) hag, hlook]
    have hs' : db.meterStates identity.id = some (L.meterAt c) := by
      rw [hid]
      exact hs
    obtain ⟨db₁, es₁, hp, hadv, hraw, hlease, hbills⟩ := hin.process c hc hb hag hu hs id ho now
    obtain ⟨db', judged, es, hdrain, hacc, hadv', _, hraw', hlease', hbills'⟩ :=
      ih (c + 1) fuel db₁ (by omega) (by omega) (books_process hsel hs' ho hp hb)
        (hsel.kept hadv.machines) (by rw [hadv.meterStates, Function.update_self]) (by omega)
        (by
          rw [hadv.observations]
          exact fun k h1 h2 => hstored k (by omega) h2)
        (by rw [hadv.observations, hnone])
    refine ⟨db', (L.row id (c + 1), .accepted) :: judged, es₁ ++ es, ?_, ?_, ?_, by omega, ?_, ?_, ?_⟩
    · simp only [Billing.drain, stateForUpdate, hs', ho]
      rw [bind_of_ok hp, bind_of_ok hdrain]
      rfl
    · intro j hj
      rcases List.mem_cons.mp hj with rfl | hj
      · rfl
      · exact hacc j hj
    · refine ⟨hadv'.hosts.trans hadv.hosts, hadv'.observations.trans hadv.observations, ?_,
        hadv.machines.trans hadv'.machines⟩
      rw [hadv'.meterStates, hadv.meterStates, Function.update_idem]
    · rw [hraw', hraw, List.append_assoc]
    · intro e he
      rcases List.mem_append.mp he with he | he
      · exact hlease e he
      · exact hlease' e he
    · rw [← hbills', List.map_append, hbills, ← List.append_assoc]
      congr 1
      simp [Lease.billsAt, List.range_succ]

end Sequence

end Nehemiah.Billing
