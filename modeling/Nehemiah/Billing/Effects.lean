import Nehemiah.Billing.Metering

/-!
# What ingestion does to the tables

The bill of a lease depends on a few tables only: machines, meter states, stored observations, raw
usage events.  `Tables` collects them with the hosts, and this module says once what each statement of
`Billing.Metering` does to them; exceptions, resolutions, cut-over rows and audit events drop out here.
Every later result about ingestion is derived from the lemmas of this module and does not unfold a
query again.

* `appendProjections_ok`: rows that collide with nothing are all inserted, the zero ones left out.
* `projections_fresh`: the rows of one observation do not collide with each other.
* `processObservation_processed`: the three things a call of `processObservation` can do.
-/

namespace Nehemiah.Billing

structure Tables where
  hosts : String → Option HostRow
  machines : String → Option MachineRow
  meterStates : String → Option MeterState
  observations : List StoredObservation
  nextObservationId : ℕ
  rawEvents : List RawUsageEvent
  startRecords : String → Option StartRecord

def Db.tables (db : Db) : Tables :=
  { hosts := db.hosts
    machines := db.machines
    meterStates := db.meterStates
    observations := db.observations
    nextObservationId := db.nextObservationId
    rawEvents := db.rawEvents
    startRecords := db.startRecords }

section Fields

variable (db : Db)

@[simp] theorem tables_hosts : db.tables.hosts = db.hosts := rfl
@[simp] theorem tables_machines : db.tables.machines = db.machines := rfl
@[simp] theorem tables_meterStates : db.tables.meterStates = db.meterStates := rfl
@[simp] theorem tables_observations : db.tables.observations = db.observations := rfl
@[simp] theorem tables_nextObservationId : db.tables.nextObservationId = db.nextObservationId := rfl
@[simp] theorem tables_rawEvents : db.tables.rawEvents = db.rawEvents := rfl
@[simp] theorem tables_startRecords : db.tables.startRecords = db.startRecords := rfl

end Fields

/-! ### Single statements -/

theorem exception_tables (db : Db) (e : MeteringException) : (exception db e).tables = db.tables := by
  unfold exception
  split_ifs <;> rfl

theorem resolveGaps_tables (db : Db) (identity : MachineIdentity) (n : ℕ) :
    (resolveGaps db identity n).tables = db.tables := rfl

theorem appendCutover_tables (db : Db) (e : CutoverEvent) :
    (appendCutover db e).tables = db.tables := by
  unfold appendCutover
  split_ifs <;> rfl

theorem updateState_tables (db : Db) (id : String) (f : MeterState → MeterState) :
    (updateState db id f).tables =
      { db.tables with
        meterStates := Function.update db.meterStates id ((db.meterStates id).map f) } := rfl

theorem updateMachine_tables (db : Db) (id leaseId : String) (g : ℕ) (f : MachineRow → MachineRow) :
    (updateMachine db id leaseId g f).tables =
      { db.tables with
        machines := Function.update db.machines id ((db.machines id).map fun m =>
          if m.leaseId = leaseId ∧ m.leaseGeneration = g then f m else m) } := rfl

/-- The machine row after the cut-over. -/
def MachineRow.cutover (m : MachineRow) (identity : MachineIdentity) (hostStart : ℤ) : MachineRow :=
  let boundary := cutoverBoundary identity hostStart
  { m with usageCheckpointAt := some (max (m.usageCheckpointAt.getD boundary) boundary) }

theorem closeLegacyPrefix_tables (db : Db) (identity : MachineIdentity) (hostStart : ℤ) :
    (closeLegacyPrefix db identity hostStart).1.tables =
      { db.tables with
        machines := Function.update db.machines identity.id ((db.machines identity.id).map fun m =>
          if m.leaseId = identity.leaseId ∧ m.leaseGeneration = identity.leaseGeneration then
            m.cutover identity hostStart
          else m) } := by
  have key : ∀ db' : Db, db'.tables = db.tables →
      (updateMachine db' identity.id identity.leaseId identity.leaseGeneration fun m =>
        m.cutover identity hostStart).tables =
      { db.tables with
        machines := Function.update db.machines identity.id ((db.machines identity.id).map fun m =>
          if m.leaseId = identity.leaseId ∧ m.leaseGeneration = identity.leaseGeneration then
            m.cutover identity hostStart
          else m) } := by
    intro db' h
    have hm : db'.machines = db.machines := congrArg Tables.machines h
    rw [updateMachine_tables, h, hm]
  dsimp only [closeLegacyPrefix]
  split
  · split_ifs
    · exact key _ (appendCutover_tables _ _)
    · exact key _ rfl
  · exact key _ rfl

/-! ### Raw usage events -/

/-- Two raw events that neither share a key nor break the unique constraint. -/
def RawUsageEvent.Distinct (r e : RawUsageEvent) : Prop :=
  r.eventKey ≠ e.eventKey ∧
    ¬ (r.observationId = e.observationId ∧ r.dimension = e.dimension ∧ r.periodStart = e.periodStart)

def stored (es : List RawUsageEvent) : List RawUsageEvent := es.filter fun e => e.quantity ≠ 0

theorem appendProjection_zero (db : Db) (e : RawUsageEvent) (h : e.quantity = 0) :
    appendProjection db e = .ok db := by
  simp only [appendProjection, if_pos h]

theorem appendProjection_ok (db : Db) (e : RawUsageEvent) (h : e.quantity ≠ 0)
    (hd : ∀ r ∈ db.rawEvents, r.Distinct e) :
    ∃ db', appendProjection db e = .ok db' ∧
      db'.tables = { db.tables with rawEvents := db.rawEvents ++ [e] } := by
  have hkey : ¬ (db.rawEvents.any (·.eventKey == e.eventKey)) = true := by
    simp only [List.any_eq_true, beq_iff_eq, not_exists, not_and]
    exact fun r hr => (hd r hr).1
  have huniq : ¬ (db.rawEvents.any (fun r => r.observationId == e.observationId
      && r.dimension == e.dimension && r.periodStart == e.periodStart)) = true := by
    simp only [List.any_eq_true, Bool.and_eq_true, beq_iff_eq, not_exists, not_and]
    intro r hr h1 h2
    exact (hd r hr).2 ⟨h1.1, h1.2, h2⟩
  refine ⟨_, by rw [appendProjection, if_neg h, if_neg hkey, if_neg huniq], rfl⟩

/-- Rows that collide with nothing are all inserted, the zero ones left out. -/
theorem appendProjections_ok (es : List RawUsageEvent) : ∀ db : Db,
    (∀ r ∈ db.rawEvents, ∀ e ∈ es, r.Distinct e) → es.Pairwise RawUsageEvent.Distinct →
    ∃ db', appendProjections db es = .ok db' ∧
      db'.tables = { db.tables with rawEvents := db.rawEvents ++ stored es } := by
  induction es with
  | nil =>
    intro db _ _
    exact ⟨db, rfl, by simp [stored, Db.tables]⟩
  | cons e es ih =>
    intro db hd hpw
    rw [List.pairwise_cons] at hpw
    by_cases hq : e.quantity = 0
    · obtain ⟨db', hrun, ht⟩ := ih db (fun r hr x hx => hd r hr x (List.mem_cons_of_mem e hx)) hpw.2
      refine ⟨db', ?_, ?_⟩
      · rw [appendProjections, appendProjection_zero db e hq]
        exact hrun
      · rw [ht]
        simp [stored, hq]
    · obtain ⟨db₁, h₁, ht₁⟩ := appendProjection_ok db e hq fun r hr => hd r hr e List.mem_cons_self
      have hraw : db₁.rawEvents = db.rawEvents ++ [e] := congrArg Tables.rawEvents ht₁
      have hd₁ : ∀ r ∈ db₁.rawEvents, ∀ x ∈ es, r.Distinct x := by
        intro r hr x hx
        rw [hraw, List.mem_append, List.mem_singleton] at hr
        rcases hr with hr | rfl
        · exact hd r hr x (List.mem_cons_of_mem e hx)
        · exact hpw.1 x hx
      obtain ⟨db', hrun, ht⟩ := ih db₁ hd₁ hpw.2
      refine ⟨db', ?_, ?_⟩
      · rw [appendProjections, h₁]
        exact hrun
      · rw [ht, ht₁, hraw]
        simp [stored, hq]

theorem segmentEvents_mem (identity : MachineIdentity) (o : StoredObservation) (seg : UsageSegment)
    (e : RawUsageEvent) (h : e ∈ segmentEvents identity o seg) :
    e.observationId = o.id ∧ e.eventKey.observationId = o.id ∧ e.machineId = identity.id ∧
      e.leaseId = identity.leaseId ∧ e.leaseGeneration = identity.leaseGeneration ∧
      e.periodStart = seg.start ∧
      (e.eventKey = .compute o.id seg.index ∧ e.dimension = .compute ∨
        e.eventKey = .memory o.id seg.index ∧ e.dimension = .memory) := by
  simp only [segmentEvents, List.mem_cons, List.not_mem_nil, or_false] at h
  rcases h with rfl | rfl <;> simp [RawEventKey.observationId]

theorem egressEvents_mem (identity : MachineIdentity) (s : MeterState) (o : StoredObservation)
    (ps : ℤ) (segs : List UsageSegment) (e : RawUsageEvent)
    (h : e ∈ egressEvents identity s o ps segs) :
    e.observationId = o.id ∧ e.eventKey.observationId = o.id ∧ e.machineId = identity.id ∧
      e.leaseId = identity.leaseId ∧ e.leaseGeneration = identity.leaseGeneration ∧
      e.eventKey = .egress o.id ∧ e.dimension = .egress := by
  simp only [egressEvents] at h
  split_ifs at h
  · simp only [List.mem_singleton] at h
    subst h
    simp [RawEventKey.observationId]
  · simp at h

/-- Every row of an observation carries the observation's id and the identity of its lease. -/
theorem projections_mem (identity : MachineIdentity) (s : MeterState) (o : StoredObservation)
    (ps : ℤ) (e : RawUsageEvent) (h : e ∈ projections identity s o ps) :
    e.observationId = o.id ∧ e.eventKey.observationId = o.id ∧ e.machineId = identity.id ∧
      e.leaseId = identity.leaseId ∧ e.leaseGeneration = identity.leaseGeneration := by
  rw [projections, List.mem_append, List.mem_flatMap] at h
  rcases h with ⟨seg, _, he⟩ | he
  · have := segmentEvents_mem identity o seg e he
    exact ⟨this.1, this.2.1, this.2.2.1, this.2.2.2.1, this.2.2.2.2.1⟩
  · have := egressEvents_mem identity s o ps _ e he
    exact ⟨this.1, this.2.1, this.2.2.1, this.2.2.2.1, this.2.2.2.2.1⟩

theorem segmentEvents_pairwise (identity : MachineIdentity) (o : StoredObservation)
    (seg : UsageSegment) : (segmentEvents identity o seg).Pairwise RawUsageEvent.Distinct := by
  simp [segmentEvents, RawUsageEvent.Distinct]

/-- Rows of different segments differ in the segment's index and in its start. -/
theorem segmentEvents_distinct (identity : MachineIdentity) (o : StoredObservation)
    (a b : UsageSegment) (hab : a.Before b) :
    ∀ x ∈ segmentEvents identity o a, ∀ y ∈ segmentEvents identity o b, x.Distinct y := by
  intro x hx y hy
  obtain ⟨_, _, _, _, _, hxs, hxk⟩ := segmentEvents_mem identity o a x hx
  obtain ⟨_, _, _, _, _, hys, hyk⟩ := segmentEvents_mem identity o b y hy
  obtain ⟨hstart, hindex⟩ := hab
  refine ⟨?_, ?_⟩
  · intro hk
    rcases hxk with ⟨hxk, _⟩ | ⟨hxk, _⟩ <;> rcases hyk with ⟨hyk, _⟩ | ⟨hyk, _⟩ <;>
      rw [hxk, hyk] at hk <;> simp at hk <;> omega
  · rintro ⟨_, _, hp⟩
    omega

/-- **The rows of one observation never collide**: segments start at different instants, and the egress
row is the only one of its dimension. -/
theorem projections_fresh (identity : MachineIdentity) (s : MeterState) (o : StoredObservation)
    (ps : ℤ) : (projections identity s o ps).Pairwise RawUsageEvent.Distinct := by
  rw [projections, List.pairwise_append]
  refine ⟨?_, ?_, ?_⟩
  · rw [List.pairwise_flatMap]
    refine ⟨fun seg _ => segmentEvents_pairwise identity o seg, ?_⟩
    exact (split_ordered ps (runtimeDelta s o)).imp
      fun {a b} hab => segmentEvents_distinct identity o a b hab
  · simp only [egressEvents]
    split_ifs <;> simp
  · intro x hx y hy
    obtain ⟨seg, _, hx⟩ := List.mem_flatMap.mp hx
    obtain ⟨_, _, _, _, _, _, hxk⟩ := segmentEvents_mem identity o seg x hx
    obtain ⟨_, _, _, _, _, hyk, hyd⟩ := egressEvents_mem identity s o ps _ y hy
    rcases hxk with ⟨hxk, hxd⟩ | ⟨hxk, hxd⟩ <;>
      exact ⟨by rw [hxk, hyk]; simp, by rw [hxd, hyd]; simp⟩

/-- An observation that has no rows yet gets all of its rows. -/
theorem appendProjections_fresh (db : Db) (identity : MachineIdentity) (s : MeterState)
    (o : StoredObservation) (ps : ℤ)
    (hnew : ∀ r ∈ db.rawEvents, r.observationId ≠ o.id ∧ r.eventKey.observationId ≠ o.id) :
    ∃ db', appendProjections db (projections identity s o ps) = .ok db' ∧
      db'.tables = { db.tables with
        rawEvents := db.rawEvents ++ stored (projections identity s o ps) } := by
  refine appendProjections_ok _ db ?_ (projections_fresh identity s o ps)
  intro r hr e he
  obtain ⟨heo, hek, _⟩ := projections_mem identity s o ps e he
  obtain ⟨hro, hrk⟩ := hnew r hr
  refine ⟨?_, ?_⟩
  · intro h
    exact hrk (by rw [h, hek])
  · rintro ⟨h, _, _⟩
    exact hro (by rw [h, heo])

/-! ### Processing -/

/-- What a call of `processObservation` can do: reject, open the meter, or project usage. -/
inductive Processed (db : Db) (now : ℤ) (identity : MachineIdentity) (state : MeterState)
    (o : StoredObservation) : Db → Verdict → Prop
  | rejected (anomaly : QuarantineReason) (h : anomalyOf identity state o = some anomaly) :
      Processed db now identity state o (rejectObservation db now identity state o anomaly)
        .quarantined
  | started (db' : Db) (h : anomalyOf identity state o = none) (hk : o.kind = .start)
      (hp : processStart db identity state o = .ok db') :
      Processed db now identity state o db' .accepted
  | used (ps : ℤ) (db' : Db) (v : Verdict) (h : anomalyOf identity state o = none)
      (hk : o.kind ≠ .start)
      (hps : (state.lastPeriodEnd.orElse fun _ => state.lastObservedAt) = some ps)
      (hp : processUsage db now identity state o ps = .ok (db', v)) :
      Processed db now identity state o db' v

theorem bind_ok {ε α β : Type} {x : Except ε α} {f : α → Except ε β} {b : β}
    (h : (x >>= f) = .ok b) : ∃ a, x = .ok a ∧ f a = .ok b := by
  cases x with
  | error e => cases h
  | ok a => exact ⟨a, rfl, h⟩

theorem bind_of_ok {ε α β : Type} {x : Except ε α} {f : α → Except ε β} {a : α} (h : x = .ok a) :
    (x >>= f) = f a := by
  rw [h]
  rfl

variable {identity : MachineIdentity} {state : MeterState} {o : StoredObservation}

theorem processObservation_processed {db db' : Db} {now : ℤ} {v : Verdict}
    (h : processObservation db now identity state o = .ok (db', v)) :
    Processed db now identity state o db' v := by
  unfold processObservation at h
  split at h
  · next anomaly ha =>
    cases h
    exact .rejected anomaly ha
  · next ha =>
    split_ifs at h with hk
    · obtain ⟨db₁, hp, h⟩ := bind_ok h
      cases h
      exact .started _ ha hk hp
    · split at h
      · next ps hps => exact .used ps db' v ha hk hps h
      · cases h

/-- The meter state after an anomaly. -/
def MeterState.rejected (s : MeterState) (now : ℤ) (o : StoredObservation)
    (anomaly : QuarantineReason) : MeterState :=
  (s.quarantine now anomaly).skipped o

theorem rejectObservation_tables (db : Db) (now : ℤ) (identity : MachineIdentity)
    (state : MeterState) (o : StoredObservation) (anomaly : QuarantineReason)
    (hs : db.meterStates identity.id = some state) :
    (rejectObservation db now identity state o anomaly).tables =
      { db.tables with
        meterStates := Function.update db.meterStates identity.id
          (some (state.rejected now o anomaly)) } := by
  have key : ∀ db' : Db, db'.tables = db.tables →
      (updateStateAt (setQuarantined db' now identity.id anomaly) identity.id state.lastSequence
        (·.skipped o)).tables =
      { db.tables with
        meterStates := Function.update db.meterStates identity.id
          (some (state.rejected now o anomaly)) } := by
    intro db' h
    have hm : db'.meterStates = db.meterStates := congrArg Tables.meterStates h
    simp only [updateStateAt, setQuarantined, updateState_tables, h]
    simp [updateState, hm, hs, MeterState.quarantine, MeterState.skipped, MeterState.rejected]
  exact key _ (exception_tables _ _)

theorem processStart_tables {db db' : Db} (hs : db.meterStates identity.id = some state)
    (h : processStart db identity state o = .ok db') :
    db'.tables =
      { (closeLegacyPrefix db identity o.observedAt).1.tables with
        meterStates := Function.update db.meterStates identity.id
          (some (state.started identity o))
        startRecords := Function.update db.startRecords identity.id
          (some ⟨legacyCoveredRuntime identity o, o.egressBytes⟩) } := by
  have hc := closeLegacyPrefix_tables db identity o.observedAt
  have hm : (closeLegacyPrefix db identity o.observedAt).1.meterStates = db.meterStates :=
    congrArg Tables.meterStates hc
  have hr : (closeLegacyPrefix db identity o.observedAt).1.startRecords = db.startRecords :=
    congrArg Tables.startRecords hc
  simp only [processStart] at h
  split_ifs at h
  cases h
  simp [Db.tables, updateStateAt, updateState, hm, hr, hs]

/-- The meter state after usage has been projected; a degraded final leaves it quarantined. -/
def MeterState.used (s : MeterState) (now : ℤ) (o : StoredObservation) (ps : ℤ) : MeterState :=
  if o.kind = .final ∧ o.quality = .lastDefensible then
    (s.advanced o ps).quarantine now .degradedTerminal
  else s.advanced o ps

def usedVerdict (o : StoredObservation) : Verdict :=
  if o.kind = .final ∧ o.quality = .lastDefensible then .quarantined else .accepted

/-- The machine row after a final. -/
def MachineRow.finalized (m : MachineRow) (now : ℤ) (periodEnd : ℤ) : MachineRow :=
  { m with
    usageCheckpointAt := some periodEnd
    usageFinalizedAt := some (m.usageFinalizedAt.getD now) }

/-- What a final does to the machine rows; a checkpoint leaves them alone. -/
def usedMachines (machines : String → Option MachineRow) (now : ℤ) (identity : MachineIdentity)
    (s : MeterState) (o : StoredObservation) (ps : ℤ) : String → Option MachineRow :=
  if o.kind = .final then
    Function.update machines identity.id ((machines identity.id).map fun m =>
      if m.leaseId = identity.leaseId ∧ m.leaseGeneration = identity.leaseGeneration then
        m.finalized now (advancedPeriodEnd s o ps)
      else m)
  else machines

theorem closeFinal_tables (db : Db) (now : ℤ) (identity : MachineIdentity) (o : StoredObservation)
    (periodEnd : ℤ) (s : MeterState) (hs : db.meterStates identity.id = some s) :
    (closeFinal db now identity o periodEnd).1.tables =
        { db.tables with
          machines := Function.update db.machines identity.id ((db.machines identity.id).map fun m =>
            if m.leaseId = identity.leaseId ∧ m.leaseGeneration = identity.leaseGeneration then
              m.finalized now periodEnd
            else m)
          meterStates := if o.quality = .lastDefensible then
              Function.update db.meterStates identity.id (some (s.quarantine now .degradedTerminal))
            else db.meterStates } ∧
      (closeFinal db now identity o periodEnd).2 =
        if o.quality = .lastDefensible then .quarantined else .accepted := by
  unfold closeFinal
  cases hq : o.quality with
  | exact => exact ⟨rfl, rfl⟩
  | lastDefensible =>
    refine ⟨?_, rfl⟩
    simp only [setQuarantined, updateState_tables, exception_tables, updateMachine_tables]
    have hm : ∀ d e, (exception d e).meterStates = d.meterStates := fun d e =>
      congrArg Tables.meterStates (exception_tables d e)
    simp [hm, updateMachine, hs, MachineRow.finalized]

/-- What `processUsage` does once the rows are in: the meter state moves on, a final closes it. -/
theorem processUsage_eq (db db₁ : Db) (now : ℤ) (identity : MachineIdentity) (state : MeterState)
    (o : StoredObservation) (ps : ℤ)
    (h₁ : appendProjections db (projections identity state o ps) = .ok db₁)
    (hs : db₁.meterStates identity.id = some state) :
    ∃ db', processUsage db now identity state o ps = .ok (db', usedVerdict o) ∧
      db'.tables = { db₁.tables with
        machines := usedMachines db₁.machines now identity state o ps
        meterStates := Function.update db₁.meterStates identity.id (some (state.used now o ps)) } := by
  -- the meter row moves from `state` to `state.advanced`
  have hadv : (updateStateAt db₁ identity.id state.lastSequence (·.advanced o ps)).tables =
      { db₁.tables with
        meterStates := Function.update db₁.meterStates identity.id
          (some (state.advanced o ps)) } := by
    simp only [updateStateAt, updateState_tables]
    simp [hs]
  set db₂ := updateStateAt db₁ identity.id state.lastSequence (·.advanced o ps)
  have hm₂ : db₂.meterStates = Function.update db₁.meterStates identity.id
      (some (state.advanced o ps)) := congrArg Tables.meterStates hadv
  have hmach₂ : db₂.machines = db₁.machines := congrArg Tables.machines hadv
  by_cases hk : o.kind = .final
  · obtain ⟨htab, hver⟩ := closeFinal_tables db₂ now identity o (advancedPeriodEnd state o ps)
      (state.advanced o ps) (by rw [hm₂]; simp)
    refine ⟨(closeFinal db₂ now identity o (advancedPeriodEnd state o ps)).1, ?_, ?_⟩
    · have : processUsage db now identity state o ps
          = .ok (closeFinal db₂ now identity o (advancedPeriodEnd state o ps)) := by
        simp only [processUsage, h₁, hk, if_true]
        rfl
      rw [this, usedVerdict]
      simp only [hk, true_and]
      rw [← hver]
    · rw [htab, hadv, hm₂, hmach₂]
      by_cases hq : o.quality = .lastDefensible <;>
        simp [usedMachines, MeterState.used, MeterState.advanced, hk, hq]
  · refine ⟨db₂, ?_, ?_⟩
    · simp only [processUsage, h₁, usedVerdict, hk, if_false, false_and]
      rfl
    · rw [hadv]
      simp [usedMachines, MeterState.used, hk]

/-- **Usage is projected in full**: with no row of the observation in place, `processUsage` inserts all
of them and moves the meter state on. -/
theorem processUsage_ok (db : Db) (now : ℤ) (identity : MachineIdentity) (state : MeterState)
    (o : StoredObservation) (ps : ℤ) (hs : db.meterStates identity.id = some state)
    (hnew : ∀ r ∈ db.rawEvents, r.observationId ≠ o.id ∧ r.eventKey.observationId ≠ o.id) :
    ∃ db', processUsage db now identity state o ps = .ok (db', usedVerdict o) ∧
      db'.tables = { db.tables with
        machines := usedMachines db.machines now identity state o ps
        meterStates := Function.update db.meterStates identity.id (some (state.used now o ps))
        rawEvents := db.rawEvents ++ stored (projections identity state o ps) } := by
  obtain ⟨db₁, h₁, ht₁⟩ := appendProjections_fresh db identity state o ps hnew
  have hm₁ : db₁.meterStates = db.meterStates := congrArg Tables.meterStates ht₁
  have hmach₁ : db₁.machines = db.machines := congrArg Tables.machines ht₁
  obtain ⟨db', hrun, ht⟩ := processUsage_eq db db₁ now identity state o ps h₁ (by rw [hm₁, hs])
  refine ⟨db', hrun, ?_⟩
  rw [ht, hm₁, hmach₁, ht₁]

/-- Inserting raw events touches no other table. -/
theorem appendProjections_frame (es : List RawUsageEvent) : ∀ db db' : Db,
    appendProjections db es = .ok db' →
    db'.tables = { db.tables with rawEvents := db'.rawEvents } := by
  induction es with
  | nil =>
    intro db db' h
    cases h
    rfl
  | cons e es ih =>
    intro db db' h
    obtain ⟨db₁, h₁, h⟩ := bind_ok h
    have hone : db₁.tables = { db.tables with rawEvents := db₁.rawEvents } := by
      unfold appendProjection at h₁
      split_ifs at h₁ <;> cases h₁ <;> rfl
    rw [ih db₁ db' h, hone]

theorem processUsage_frame {db db' : Db} {now : ℤ} {ps : ℤ} {v : Verdict} (hs : db.meterStates identity.id = some state)
    (h : processUsage db now identity state o ps = .ok (db', v)) :
    v = usedVerdict o ∧
      db'.tables = { db.tables with
        machines := usedMachines db.machines now identity state o ps
        meterStates := Function.update db.meterStates identity.id (some (state.used now o ps))
        rawEvents := db'.rawEvents } := by
  obtain ⟨db₁, h₁, _⟩ := bind_ok h
  have hf := appendProjections_frame _ db db₁ h₁
  have hm₁ : db₁.meterStates = db.meterStates := congrArg Tables.meterStates hf
  have hmach₁ : db₁.machines = db.machines := congrArg Tables.machines hf
  obtain ⟨db'', hrun, ht⟩ := processUsage_eq db db₁ now identity state o ps h₁ (by rw [hm₁, hs])
  rw [h] at hrun
  cases hrun
  have hraw : db'.rawEvents = db₁.rawEvents := congrArg Tables.rawEvents ht
  refine ⟨rfl, ?_⟩
  rw [ht, hm₁, hmach₁, hraw, hf]

end Nehemiah.Billing
