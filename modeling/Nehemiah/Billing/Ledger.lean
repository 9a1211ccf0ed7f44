import Nehemiah.Billing.System

/-!
# Ledger conservation

The raw usage events of a lease add up to what its meter says: compute and memory to the projected
runtime past the cut-over, egress to the counter past its value at the start (`ledger_conserved`).

The step is `processObservation`: the rows it inserts for one observation add up to the deltas it takes
against the meter state (`usageTotal_projections`), and the deltas telescope because the projected runtime
only moves by the delta that was billed.  The run is any sequence of ingest calls, host-loss closures and
other transactions (`balanced_run`).
-/

namespace Nehemiah.Billing

open Nehemiah.Lib

/-! ### A clean observation -/

/-- Everything `processObservation` requires of an observation it accepts. -/
structure Clean (identity : MachineIdentity) (state : MeterState) (o : StoredObservation) : Prop where
  quarantinedAt : state.quarantinedAt = none
  hostBootId : state.hostBootId = o.hostBootId
  lossClosedAt : state.lossClosedAt = none
  first : state.startSeen = false → o.sequence = 1 ∧ o.kind = .start ∧ o.runtimeNs = 0
  later : state.startSeen = true → o.kind ≠ .start
  finalSeen : state.finalSeen = false
  counters : counterReset state o = false
  integrity : observationIntegrityReason identity state o.counters o.receivedAt = none
  clock : clockSkew identity state o = false

variable {identity : MachineIdentity} {state : MeterState} {o : StoredObservation} {t : Tables}
    {metering : AuthoritativeMetering}

/-- An accepted observation is clean, once a quarantine always carries its reason. -/
theorem clean_of_anomalyOf (hq : state.quarantinedAt.isSome → state.quarantineReason.isSome)
    (h : anomalyOf identity state o = none) : Clean identity state o := by
  simp only [anomalyOf, Option.orElse_eq_or, Option.or_eq_none_iff] at h
  obtain ⟨h, hclock⟩ := h
  split_ifs at h with h1 h2 h3 h4 h5 h6 h7
  · exact absurd (hq h1) (by simp [h])
  · exact
      { quarantinedAt := by simpa using h1
        hostBootId := by simpa using h2
        lossClosedAt := by simpa using h3
        first := by
          intro hs
          simpa [hs, and_assoc] using h4
        later := by
          intro hs
          simpa [hs] using h5
        finalSeen := by simpa using h6
        counters := by simpa using h7
        integrity := h
        clock := by simpa using hclock }

theorem counterReset_false (h : counterReset state o = false) :
    state.lastRuntimeNs ≤ o.runtimeNs ∧ state.lastEgressBytes ≤ o.egressBytes ∧
      o.egressCounterEpoch = state.egressCounterEpoch := by
  simp only [counterReset, Bool.or_eq_false_iff, decide_eq_false_iff_not, bne_eq_false_iff_eq,
    not_lt] at h
  exact ⟨h.1.1.1, h.1.1.2, h.1.2⟩

/-! ### Totals -/

/-- The sum of the quantities of one dimension over the raw events of a lease. -/
def usageTotal (es : List RawUsageEvent) (leaseId : String) (d : Dimension) : ℕ :=
  ((es.filter fun e => e.leaseId == leaseId && e.dimension == d).map (·.quantity)).sum

theorem usageTotal_append (es fs : List RawUsageEvent) (leaseId : String) (d : Dimension) :
    usageTotal (es ++ fs) leaseId d = usageTotal es leaseId d + usageTotal fs leaseId d := by
  simp [usageTotal]

/-- Rows with quantity zero are not stored and do not count. -/
theorem usageTotal_stored (es : List RawUsageEvent) (leaseId : String) (d : Dimension) :
    usageTotal (stored es) leaseId d = usageTotal es leaseId d := by
  unfold usageTotal stored
  induction es with
  | nil => rfl
  | cons e es ih =>
    by_cases hq : e.quantity = 0
    · by_cases hc : (e.leaseId == leaseId && e.dimension == d) = true
      · simp only [List.filter_cons, hq, hc] at ih ⊢
        simpa [hq] using ih
      · simp only [List.filter_cons, hq, hc] at ih ⊢
        simpa using ih
    · by_cases hc : (e.leaseId == leaseId && e.dimension == d) = true
      · simp only [List.filter_cons, hq, hc, decide_true, ne_eq, not_false_eq_true, if_true,
          List.map_cons, List.sum_cons] at ih ⊢
        rw [ih]
      · simp only [List.filter_cons, hq, hc, decide_true, ne_eq, not_false_eq_true, if_true] at ih ⊢
        simpa using ih

theorem usageTotal_other_lease (es : List RawUsageEvent) (leaseId : String) (d : Dimension)
    (h : ∀ e ∈ es, e.leaseId ≠ leaseId) : usageTotal es leaseId d = 0 := by
  have : es.filter (fun e => e.leaseId == leaseId && e.dimension == d) = [] := by
    rw [List.filter_eq_nil_iff]
    intro e he
    simp [h e he]
  rw [usageTotal, this]
  rfl

/-- Segment rows add up to the runtime of the segments times the resource. -/
theorem usageTotal_segments (identity : MachineIdentity) (o : StoredObservation)
    (segs : List UsageSegment) :
    usageTotal (segs.flatMap (segmentEvents identity o)) identity.leaseId .compute
        = (segs.map (·.runtimeNs)).sum * identity.vcpus ∧
      usageTotal (segs.flatMap (segmentEvents identity o)) identity.leaseId .memory
        = (segs.map (·.runtimeNs)).sum * identity.memoryBytes ∧
      usageTotal (segs.flatMap (segmentEvents identity o)) identity.leaseId .egress = 0 := by
  induction segs with
  | nil => simp [usageTotal]
  | cons seg segs ih =>
    obtain ⟨hc, hm, he⟩ := ih
    simp only [List.flatMap_cons, usageTotal_append, hc, hm, he, List.map_cons, List.sum_cons]
    simp [usageTotal, segmentEvents, add_mul]

theorem usageTotal_egressEvents (identity : MachineIdentity) (s : MeterState) (o : StoredObservation)
    (ps : ℤ) (segs : List UsageSegment) :
    usageTotal (egressEvents identity s o ps segs) identity.leaseId .compute = 0 ∧
      usageTotal (egressEvents identity s o ps segs) identity.leaseId .memory = 0 ∧
      usageTotal (egressEvents identity s o ps segs) identity.leaseId .egress
        = o.egressBytes - s.lastEgressBytes := by
  simp only [egressEvents]
  split_ifs with h
  · simp [usageTotal]
  · simp [usageTotal]
    omega

/-- **One observation.**  Its rows add up to the deltas against the meter state. -/
theorem usageTotal_projections (identity : MachineIdentity) (s : MeterState) (o : StoredObservation)
    (ps : ℤ) :
    usageTotal (projections identity s o ps) identity.leaseId .compute
        = (o.runtimeNs - s.projectedRuntimeNs) * identity.vcpus ∧
      usageTotal (projections identity s o ps) identity.leaseId .memory
        = (o.runtimeNs - s.projectedRuntimeNs) * identity.memoryBytes ∧
      usageTotal (projections identity s o ps) identity.leaseId .egress
        = o.egressBytes - s.lastEgressBytes := by
  obtain ⟨hc, hm, he⟩ := usageTotal_segments identity o
    (splitRuntimeAtUtcMidnight ps (runtimeDelta s o))
  obtain ⟨hc', hm', he'⟩ := usageTotal_egressEvents identity s o ps
    (splitRuntimeAtUtcMidnight ps (runtimeDelta s o))
  simp only [projections, usageTotal_append, hc, hm, he, hc', hm', he', split_runtime_sum]
  simp [runtimeDelta]

/-! ### The balance -/

/-- The start record of a machine, zero before its start was processed. -/
def startOf (t : Tables) (machineId : String) : StartRecord := (t.startRecords machineId).getD ⟨0, 0⟩

/-- The three sums for one machine row and one meter state. -/
structure Sums (es : List RawUsageEvent) (r : StartRecord) (s : MeterState) (m : MachineRow) :
    Prop where
  compute : usageTotal es s.leaseId .compute + m.vcpus * r.legacyCoveredRuntime
    = m.vcpus * s.projectedRuntimeNs
  memory : usageTotal es s.leaseId .memory + m.memoryMb * 1048576 * r.legacyCoveredRuntime
    = m.memoryMb * 1048576 * s.projectedRuntimeNs
  egress : usageTotal es s.leaseId .egress + r.egressBytes = s.lastEgressBytes

structure Balanced (machineId : String) (t : Tables) : Prop where
  sums : ∀ s m, t.meterStates machineId = some s → t.machines machineId = some m →
    Sums t.rawEvents (startOf t machineId) s m
  unstarted : ∀ s, t.meterStates machineId = some s → s.startSeen = false →
    t.startRecords machineId = none ∧ s.projectedRuntimeNs = 0 ∧ s.lastEgressBytes = 0
  absent : t.meterStates machineId = none → t.startRecords machineId = none
  start_ref : ∀ r, t.startRecords machineId = some r → ∃ o ∈ t.observations,
    o.machineId = machineId ∧ o.kind = .start ∧ o.sequence = 1 ∧ o.egressBytes = r.egressBytes

/-- What happens to other machines and their leases does not touch the balance. -/
theorem Balanced.elsewhere {machineId : String} {t' : Tables} (h : Balanced machineId t)
    (hstate : t'.meterStates machineId = t.meterStates machineId)
    (hrec : t'.startRecords machineId = t.startRecords machineId) (hk : MachinesKept t.machines t'.machines)
    (hobs : ∀ o ∈ t.observations, o ∈ t'.observations)
    (htotal : ∀ s, t.meterStates machineId = some s → ∀ d,
      usageTotal t'.rawEvents s.leaseId d = usageTotal t.rawEvents s.leaseId d) :
    Balanced machineId t' := by
  refine ⟨?_, ?_, ?_, ?_⟩
  · intro s m hs hm
    rw [hstate] at hs
    obtain ⟨m₀, hm₀, hsame⟩ := hk.row_back hm
    obtain ⟨h1, h2, h3⟩ := h.sums s m₀ hs hm₀
    refine ⟨?_, ?_, ?_⟩ <;>
      simp only [startOf, hrec, htotal s hs, hsame.vcpus, hsame.memoryMb] at h1 h2 h3 ⊢ <;> assumption
  · intro s hs hstart
    rw [hrec]
    exact h.unstarted s (hstate ▸ hs) hstart
  · intro hnone
    rw [hrec]
    exact h.absent (hstate ▸ hnone)
  · intro r hr
    rw [hrec] at hr
    obtain ⟨o, ho, rest⟩ := h.start_ref r hr
    exact ⟨o, hobs o ho, rest⟩

/-- A change of the meter state that leaves the columns of the balance alone. -/
theorem Balanced.updateState {machineId : String} (h : Balanced machineId t) {id : String} {s : MeterState}
    (s' : MeterState) (hs : t.meterStates id = some s) (hl : s'.leaseId = s.leaseId)
    (hp : s'.projectedRuntimeNs = s.projectedRuntimeNs) (he : s'.lastEgressBytes = s.lastEgressBytes)
    (hst : s'.startSeen = s.startSeen) (machines : String → Option MachineRow) (hk : MachinesKept t.machines machines) :
    Balanced machineId { t with
      machines := machines
      meterStates := Function.update t.meterStates id (some s') } := by
  by_cases hx : machineId = id
  · subst hx
    refine ⟨?_, ?_, ?_, h.start_ref⟩
    · intro u m hu hm
      simp only [Function.update_self, Option.some.injEq] at hu
      subst hu
      obtain ⟨m₀, hm₀, hsame⟩ := hk.row_back hm
      obtain ⟨h1, h2, h3⟩ := h.sums s m₀ hs hm₀
      refine ⟨?_, ?_, ?_⟩ <;>
        simp only [startOf, hl, hp, he, hsame.vcpus, hsame.memoryMb] at h1 h2 h3 ⊢ <;> assumption
    · intro u hu hstart
      simp only [Function.update_self, Option.some.injEq] at hu
      subst hu
      rw [hp, he]
      exact h.unstarted s hs (by rw [← hst, hstart])
    · intro hnone
      simp at hnone
  · exact h.elsewhere (Function.update_of_ne hx _ _) rfl hk (fun _ ho => ho) fun _ _ _ => rfl

/-- An unstarted meter has no raw events in its sums. -/
theorem Balanced.unstarted_totals {machineId : String} (h : Balanced machineId t) {s : MeterState} {m : MachineRow}
    (hs : t.meterStates machineId = some s) (hm : t.machines machineId = some m) (hstart : s.startSeen = false)
    (d : Dimension) :
    usageTotal t.rawEvents s.leaseId d = 0 := by
  obtain ⟨hrec, hproj, hegress⟩ := h.unstarted s hs hstart
  obtain ⟨h1, h2, h3⟩ := h.sums s m hs hm
  simp only [startOf, hrec, Option.getD_none, mul_zero, add_zero, hproj, hegress] at h1 h2 h3
  cases d with
  | compute => exact h1
  | memory => exact h2
  | egress => exact h3

/-- The meter opens with the start observation: nothing is billed, and the cut-over is recorded. -/
theorem balanced_start {machineId : String} (h : Balanced machineId t) (hs : t.meterStates identity.id = some state)
    (ho : o ∈ t.observations) (hom : o.machineId = identity.id) (hclean : Clean identity state o) (hk : o.kind = .start)
    (machines : String → Option MachineRow) (hkept : MachinesKept t.machines machines) :
    Balanced machineId { t with
      machines := machines
      meterStates := Function.update t.meterStates identity.id (some (state.started identity o))
      startRecords := Function.update t.startRecords identity.id
        (some ⟨legacyCoveredRuntime identity o, o.egressBytes⟩) } := by
  have hstart : state.startSeen = false := by
    by_contra hne
    exact hclean.later (by simpa using hne) hk
  by_cases hx : machineId = identity.id
  · subst hx
    refine ⟨?_, ?_, ?_, ?_⟩
    · intro u m hu hm
      simp only [Function.update_self, Option.some.injEq] at hu
      subst hu
      obtain ⟨m₀, hm₀, hsame⟩ := hkept.row_back hm
      have hzero := h.unstarted_totals hs hm₀ hstart
      refine ⟨?_, ?_, ?_⟩ <;> simp [startOf, MeterState.started, hzero]
    · intro u hu hfalse
      simp only [Function.update_self, Option.some.injEq] at hu
      subst hu
      cases hfalse
    · intro hnone
      simp at hnone
    · intro r hr
      simp only [Function.update_self, Option.some.injEq] at hr
      subst hr
      exact ⟨o, ho, hom, hk, (hclean.first hstart).1, rfl⟩
  · exact h.elsewhere (Function.update_of_ne hx _ _) (Function.update_of_ne hx _ _) hkept
      (fun _ ho => ho) fun _ _ _ => rfl

/-- A checkpoint or final bills the deltas: the events grow by what the meter columns grow. -/
theorem balanced_used {machineId : String} (hbooks : Books t) (h : Balanced machineId t) (hsel : Selected t identity)
    (hs : t.meterStates identity.id = some state) (hclean : Clean identity state o) (hk : o.kind ≠ .start)
    (now ps : ℤ) :
    Balanced machineId { t with
      machines := usedMachines t.machines now identity state o ps
      meterStates := Function.update t.meterStates identity.id (some (state.used now o ps))
      rawEvents := t.rawEvents ++ stored (projections identity state o ps) } := by
  have hkept := usedMachines_kept t.machines now identity state o ps
  have hstart : state.startSeen = true := by
    by_contra hne
    exact hk (hclean.first (by simpa using hne)).2.1
  obtain ⟨m, hm, hd⟩ := hsel
  obtain ⟨m', hm', _, _, hlease, _⟩ := hbooks.state_ref identity.id state hs
  rw [hm] at hm'
  cases hm'
  have hl : state.leaseId = identity.leaseId := hlease ▸ hd.leaseId
  by_cases hx : machineId = identity.id
  · subst hx
    obtain ⟨_, _, e3, _, _, e6, e7, e8⟩ := used_fields state now o ps
    obtain ⟨p1, p2, p3⟩ := usageTotal_projections identity state o ps
    obtain ⟨_, hmono, _⟩ := counterReset_false hclean.counters
    refine ⟨?_, ?_, ?_, h.start_ref⟩
    · intro u m₁ hu hm₁
      simp only [Function.update_self, Option.some.injEq] at hu
      subst hu
      obtain ⟨m₀, hm₀, hsame⟩ := hkept.row_back hm₁
      obtain ⟨h1, h2, h3⟩ := h.sums state m₀ hs hm₀
      rw [hm] at hm₀
      cases hm₀
      -- the projected runtime grows by exactly the billed delta
      have hgrow : max o.runtimeNs state.projectedRuntimeNs
          = state.projectedRuntimeNs + (o.runtimeNs - state.projectedRuntimeNs) := by omega
      refine ⟨?_, ?_, ?_⟩
      · simp only [startOf, e3, e7, hsame.vcpus, usageTotal_append, usageTotal_stored] at h1 ⊢
        rw [hl] at h1 ⊢
        rw [p1, hgrow, mul_add, ← h1, ← hd.vcpus]
        ring
      · simp only [startOf, e3, e7, hsame.memoryMb, usageTotal_append, usageTotal_stored] at h2 ⊢
        rw [hl] at h2 ⊢
        rw [p2, hgrow, mul_add, ← h2, ← hd.memoryBytes]
        ring
      · simp only [startOf, e3, e8, usageTotal_append, usageTotal_stored] at h3 ⊢
        rw [hl] at h3 ⊢
        rw [p3]
        omega
    · intro u hu hfalse
      simp only [Function.update_self, Option.some.injEq] at hu
      subst hu
      rw [e6, hstart] at hfalse
      cases hfalse
    · intro hnone
      simp at hnone
  · refine h.elsewhere (Function.update_of_ne hx _ _) rfl hkept (fun _ ho => ho) ?_
    intro s hs' d
    -- another machine has another lease
    have hother : identity.leaseId ≠ s.leaseId := by
      intro heq
      obtain ⟨m₂, hm₂, _, _, hl₂, _⟩ := hbooks.state_ref machineId s hs'
      exact hx (hbooks.lease_unique machineId identity.id m₂ m hm₂ hm (by
        rw [hl₂, ← heq, hd.leaseId]))
    rw [usageTotal_append, usageTotal_stored, usageTotal_other_lease (projections identity state o ps)]
    · rfl
    · intro e he
      rw [(projections_mem identity state o ps e he).2.2.2.1]
      exact hother

/-- **The balance is an invariant of ingestion.** -/
theorem balanced_invariant (machineId : String) :
    StatementInvariant fun t => Books t ∧ Balanced machineId t where
  hosts t hosts h := ⟨books_invariant.hosts t hosts h.1,
    h.2.elsewhere rfl rfl (.refl _) (fun _ ho => ho) fun _ _ _ => rfl⟩
  skipId t h := ⟨books_invariant.skipId t h.1,
    h.2.elsewhere rfl rfl (.refl _) (fun _ ho => ho) fun _ _ _ => rfl⟩
  insertState t hostId a identity hsel hnone h := by
    refine ⟨books_invariant.insertState t hostId a identity hsel hnone h.1, ?_⟩
    by_cases hx : machineId = identity.id
    · subst hx
      have hrec := h.2.absent hnone
      -- no raw event belongs to the lease: its machine had no meter state
      have hzero : ∀ d, usageTotal t.rawEvents identity.leaseId d = 0 := by
        intro d
        refine usageTotal_other_lease _ _ _ fun e he hl => ?_
        obtain ⟨_, _, _, _, _, s, hs, hsl, _⟩ := h.1.event_ref e he
        obtain ⟨m, hm, _, _, hml, _⟩ := h.1.state_ref _ _ hs
        obtain ⟨m', hm', hd⟩ := hsel.selected
        have := h.1.lease_unique _ _ m m' hm hm' (by rw [hml, hsl, hl, hd.leaseId])
        rw [this, hnone] at hs
        cases hs
      refine ⟨?_, ?_, ?_, h.2.start_ref⟩
      · intro u m hu hm
        simp only [Function.update_self, Option.some.injEq] at hu
        subst hu
        refine ⟨?_, ?_, ?_⟩ <;> simp [startOf, hrec, initialState, hzero]
      · intro u hu _
        simp only [Function.update_self, Option.some.injEq] at hu
        subst hu
        exact ⟨hrec, rfl, rfl⟩
      · intro hn
        simp at hn
    · exact h.2.elsewhere (Function.update_of_ne hx _ _) rfl (.refl _) (fun _ ho => ho)
        fun _ _ _ => rfl
  quarantine t now id s reason hs h :=
    ⟨books_invariant.quarantine t now id s reason hs h.1,
      h.2.updateState (s.quarantine now reason) hs rfl rfl rfl rfl t.machines (.refl _)⟩
  insertObservation t hostId a identity hsel hs hnone h :=
    ⟨books_invariant.insertObservation t hostId a identity hsel hs hnone h.1,
      h.2.elsewhere rfl rfl (.refl _) (fun _ ho => List.mem_append_left _ ho) fun _ _ _ => rfl⟩
  process db db' now identity state o v hsel hs ho hp h := by
    refine ⟨books_process hsel hs ho hp h.1, ?_⟩
    obtain ⟨hmem, hom, _⟩ := nextPending_spec ho
    have hreason := h.1.quarantine_reason _ _ hs
    cases processObservation_processed hp with
    | rejected anomaly ha =>
      rw [rejectObservation_tables db now identity state o anomaly hs]
      exact h.2.updateState (state.rejected now o anomaly) hs rfl rfl rfl rfl db.machines
        (.refl _)
    | started _ ha hk hstart =>
      rw [processStart_tables hs hstart, closeLegacyPrefix_tables]
      have hkept := closeLegacyPrefix_kept db identity o.observedAt
      rw [← tables_machines (closeLegacyPrefix db identity o.observedAt).1,
        closeLegacyPrefix_tables] at hkept
      exact balanced_start h.2 hs hmem hom (clean_of_anomalyOf hreason ha) hk _ hkept
    | used ps _ _ ha hk hps hused =>
      obtain ⟨db₁, hok, ht⟩ := processUsage_ok db now identity state o ps hs (h.1.fresh hs ho)
      rw [hused] at hok
      cases hok
      rw [ht]
      exact balanced_used h.1 h.2 hsel hs (clean_of_anomalyOf hreason ha) hk now ps

/-! ### Runs -/

/-- The machine keeps its resources across a transaction of the rest of the control plane. -/
def KeepsResources (machineId : String) (db : Db) : MeteringAct → Db → Prop
  | .other _ _, db' => ∀ m m', db.machines machineId = some m → db'.machines machineId = some m' →
      m'.vcpus = m.vcpus ∧ m'.memoryMb = m.memoryMb
  | _, _ => True

theorem balanced_step {machineId : String} {db db' : Db} {a : MeteringAct} (hstep : MeteringStep metering db a db')
    (hkeep : KeepsResources machineId db a db') (h : Books db.tables ∧ Balanced machineId db.tables) :
    Books db'.tables ∧ Balanced machineId db'.tables := by
  refine ⟨books_step hstep h.1, ?_⟩
  cases hstep with
  | ingest call => exact (commit_invariant (balanced_invariant machineId) metering db call h).2
  | closeHostLoss now id leaseId =>
    obtain ⟨machines, states, ht, hkept, hstates⟩ := closeHostLoss_tables db now id leaseId
    rw [ht]
    rcases hstates with rfl | ⟨s, hs, rfl⟩
    · exact h.2.elsewhere rfl rfl hkept (fun _ ho => ho) fun _ _ _ => rfl
    · exact h.2.updateState (s.lossClosed now) hs rfl rfl rfl rfl machines hkept
  | other hosts machines hschema =>
    refine ⟨?_, h.2.unstarted, h.2.absent, h.2.start_ref⟩
    intro s m' hs hm'
    -- the foreign key of the meter state guarantees a row before the transaction
    obtain ⟨m, hm, _⟩ := h.1.state_ref machineId s hs
    obtain ⟨hv, hmem⟩ := hkeep m m' hm hm'
    obtain ⟨h1, h2, h3⟩ := h.2.sums s m hs hm
    refine ⟨?_, ?_, h3⟩
    · rw [hv]
      exact h1
    · rw [hmem]
      exact h2

theorem balanced_run {machineId : String} {db db' : Db} {acts : List MeteringAct}
    (hrun : RunIn (MeteringStep metering) (KeepsResources machineId) db acts db')
    (h : Books db.tables ∧ Balanced machineId db.tables) :
    Books db'.tables ∧ Balanced machineId db'.tables :=
  hrun.invariant (I := fun db => Books db.tables ∧ Balanced machineId db.tables)
    (fun _ _ _ h hs hk => balanced_step hs hk h) h

theorem balanced_empty (h : MeteringEmpty t) (machineId : String) : Balanced machineId t := by
  refine ⟨?_, ?_, ?_, ?_⟩ <;> simp [h.meterStates, h.startRecords]

/-- **Ledger conservation.**  From empty metering tables, after any sequence of ingest calls, host-loss
closures and other transactions that keep the machine's resources: the raw events of the lease add up
to `vcpus` and memory times the projected runtime past the legacy-covered runtime recorded at the
start, and to the egress counter past the start observation's. -/
theorem ledger_conserved (metering : AuthoritativeMetering) (machineId : String) (db₀ db : Db)
    (acts : List MeteringAct) (hempty : MeteringEmpty db₀.tables) (hschema : Schema db₀.tables)
    (hrun : RunIn (MeteringStep metering) (KeepsResources machineId) db₀ acts db)
    (s : MeterState) (hs : db.meterStates machineId = some s) :
    ∃ m, db.machines machineId = some m ∧ m.leaseId = s.leaseId ∧
      (usageTotal db.rawEvents s.leaseId .compute : ℤ) = m.vcpus *
        ((s.projectedRuntimeNs : ℤ) - (startOf db.tables machineId).legacyCoveredRuntime) ∧
      (usageTotal db.rawEvents s.leaseId .memory : ℤ) = (m.memoryMb * 1048576) *
        ((s.projectedRuntimeNs : ℤ) - (startOf db.tables machineId).legacyCoveredRuntime) ∧
      (usageTotal db.rawEvents s.leaseId .egress : ℤ) =
        (s.lastEgressBytes : ℤ) - (startOf db.tables machineId).egressBytes ∧
      (s.startSeen = false → db.startRecords machineId = none) ∧
      (∀ r, db.startRecords machineId = some r → ∃ o ∈ db.observations,
        o.machineId = machineId ∧ o.kind = .start ∧ o.sequence = 1 ∧
          o.egressBytes = r.egressBytes) := by
  obtain ⟨hb, hbal⟩ := balanced_run hrun
    ⟨books_empty hempty hschema.lease_unique, balanced_empty hempty machineId⟩
  obtain ⟨m, hm, _, _, hl, _⟩ := hb.state_ref machineId s hs
  obtain ⟨h1, h2, h3⟩ := hbal.sums s m hs hm
  refine ⟨m, hm, hl, ?_, ?_, ?_, fun hf => (hbal.unstarted s hs hf).1, hbal.start_ref⟩
  · have := congrArg (Nat.cast : ℕ → ℤ) h1
    push_cast at this
    rw [mul_sub, ← this]
    simp
  · have := congrArg (Nat.cast : ℕ → ℤ) h2
    push_cast at this
    rw [mul_sub, ← this]
    simp
  · have := congrArg (Nat.cast : ℕ → ℤ) h3
    push_cast at this
    rw [← this]
    simp

/-! ### A sample lease -/

namespace Sample

def hostId : String := "33333333-3333-4333-8333-333333333333"

def machineId : String := "m_abcdefghijkl"

def leaseId : String := "11111111-1111-4111-8111-111111111111"

def bootId : String := "22222222-2222-4222-8222-222222222222"

def host : HostRow :=
  { desiredState := .active
    state := .ready
    credentialStatus := .active
    credentialGeneration := 1
    lifecycleReason := none
    lastMeteringBatchAt := none
    meteringQuarantinedAt := none }

/-- Two virtual CPUs and 512 MiB, created at 2023-11-14T22:13:20Z. -/
def machine : MachineRow :=
  { organizationId := "org"
    projectId := "project"
    hostId := some hostId
    hostMachineId := some "m-0000000a"
    leaseId := leaseId
    leaseGeneration := 1
    vcpus := 2
    memoryMb := 512
    createdAt := 1700000000000
    startedAt := none
    usageCheckpointAt := none
    usageFinalizedAt := none
    state := .running
    expiresAt := 1700003600000 }

def db : Db :=
  { hosts := fun id => if id = hostId then some host else none
    machines := fun id => if id = machineId then some machine else none
    meterStates := fun _ => none
    observations := []
    nextObservationId := 1
    rawEvents := []
    usageEvents := []
    cutovers := []
    exceptions := []
    resolutions := []
    auditEvents := []
    startRecords := fun _ => none }

def observation (sequence : ℕ) (kind : HostUsageObservationKind) (runtimeNs egressBytes : ℕ)
    (observedAt : String) : HostUsageObservation :=
  { machineId := machineId
    hostMachineId := "m-0000000a"
    leaseId := leaseId
    leaseGeneration := 1
    hostBootId := bootId
    sequence := sequence
    kind := kind
    quality := .exact
    qualityReason := .none
    runtimeNs := runtimeNs
    egressBytes := egressBytes
    egressCounterEpoch := 1
    observedMonotonicNs := 5000000000 + runtimeNs
    observedAt := observedAt
    vcpus := 2
    memoryBytes := 536870912
    processId := 4242 }

def start : HostUsageObservation := observation 1 .start 0 100 "2023-11-14T22:13:20Z"

def checkpoint : HostUsageObservation :=
  observation 2 .checkpoint 10000000000 5100 "2023-11-14T22:13:30.5Z"

def arrival (o : HostUsageObservation) (received : ℤ) : Arrival :=
  { observation := o, admissionReceivedAt := received, receivedAt := received }

def call (now : ℤ) (batch : List Arrival) : IngestCall :=
  { hostId := hostId
    batch := batch
    credentialGeneration := some 1
    now := now
    admittedAt := now
    stampedAt := now }

theorem db_empty : MeteringEmpty db.tables := ⟨rfl, rfl, rfl, rfl⟩

theorem db_schema : Schema db.tables where
  state_ref id s hs := by cases hs
  lease_unique id id' m m' hm hm' _ := by
    simp only [db, tables_machines] at hm hm'
    split_ifs at hm hm' with h h'
    rw [h, h']

/-- The checkpoint is delivered before the start, in one batch. -/
def ingested : Db :=
  commit db (ingest {} db (call 1700000031000
    [arrival checkpoint 1700000031000, arrival start 1700000031000]))

end Sample

/-- The sample lease ran for ten seconds and sent 5000 bytes. -/
theorem ledger_conserved_sample : ∃ s m,
    Sample.ingested.meterStates Sample.machineId = some s ∧
      Sample.ingested.machines Sample.machineId = some m ∧
      usageTotal Sample.ingested.rawEvents s.leaseId .compute = 20000000000 ∧
      (usageTotal Sample.ingested.rawEvents s.leaseId .compute : ℤ) = m.vcpus *
        ((s.projectedRuntimeNs : ℤ)
          - (startOf Sample.ingested.tables Sample.machineId).legacyCoveredRuntime) ∧
      (usageTotal Sample.ingested.rawEvents s.leaseId .egress : ℤ) =
        (s.lastEgressBytes : ℤ) - (startOf Sample.ingested.tables Sample.machineId).egressBytes := by
  have hsome : (Sample.ingested.meterStates Sample.machineId).any
      (fun s => usageTotal Sample.ingested.rawEvents s.leaseId .compute = 20000000000) = true := by
    decide +kernel
  obtain ⟨s, hs, htotal⟩ := (Option.any_eq_true _ _).mp hsome
  obtain ⟨m, hm, _, hc, _, he, _⟩ := ledger_conserved {} Sample.machineId Sample.db Sample.ingested
    [.ingest _] Sample.db_empty Sample.db_schema (.cons (.ingest _ _) trivial (.nil _)) s hs
  exact ⟨s, m, hs, hm, of_decide_eq_true htotal, hc, he⟩

end Nehemiah.Billing
