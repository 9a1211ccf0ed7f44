import Nehemiah.Billing.Legacy

/-!
# The metering cut-over bills no instant twice

Legacy metering moves `usage_checkpoint_at` with every interval it writes, so its intervals lie end to end
and lead to the checkpoint (`CutAt.unstarted`).  The accepted start observation closes them at the
boundary of `closeLegacyPrefix` and opens the meter there; from then on the compute periods lead from the
boundary to `last_period_end` (`CutAt.started`).  Both halves are tilings, hence all periods are disjoint.

This rests on legacy metering leaving a machine alone once its start is accepted.  The reconciler's queries
test that on their snapshot and not again when they lock the row, so an interval can follow the start when
the start is committed between the two.  `StartNotOvertaken` excludes that and nothing else:

* `cutover_bills_once`: under it, in every run, all periods of a machine are disjoint and the legacy ones
  end where the first compute period starts.
* `start_overtakes_select`: without it, a run that bills ten seconds twice.
-/

namespace Nehemiah.Billing

open Nehemiah.Lib

/-! ### Periods -/

def outboxPeriods (rows : List OutboxRow) (id : String) : List (ℤ × ℤ) :=
  (rows.filter (·.machineId = id)).map fun r => (r.periodStart, r.periodEnd)

def cutoverPeriods (rows : List CutoverEvent) (id : String) : List (ℤ × ℤ) :=
  (rows.filter (·.machineId = id)).map fun r => (r.periodStart, r.periodEnd)

/-- The legacy periods of a machine in `usage_outbox`. -/
def legacyPeriods (l : LegacyDb) (id : String) : List (ℤ × ℤ) :=
  outboxPeriods l.outbox id ++ cutoverPeriods l.db.cutovers id

/-- The compute periods of a machine in `meter_raw_usage_events`. -/
def computePeriods (es : List RawUsageEvent) (id : String) : List (ℤ × ℤ) :=
  (es.filter fun e => e.machineId = id ∧ e.dimension = .compute).map fun e => (e.periodStart, e.periodEnd)

theorem outboxPeriods_append (rows : List OutboxRow) (r : OutboxRow) (id : String) :
    outboxPeriods (rows ++ [r]) id =
      outboxPeriods rows id ++ if r.machineId = id then [(r.periodStart, r.periodEnd)] else [] := by
  by_cases h : r.machineId = id <;> simp [outboxPeriods, h]

theorem cutoverPeriods_append (rows : List CutoverEvent) (r : CutoverEvent) (id : String) :
    cutoverPeriods (rows ++ [r]) id =
      cutoverPeriods rows id ++ if r.machineId = id then [(r.periodStart, r.periodEnd)] else [] := by
  by_cases h : r.machineId = id <;> simp [cutoverPeriods, h]

theorem computePeriods_append (es fs : List RawUsageEvent) (id : String) :
    computePeriods (es ++ fs) id = computePeriods es id ++ computePeriods fs id := by
  simp [computePeriods]

/-- The stored compute rows of one segment. -/
theorem computePeriods_segment (identity : MachineIdentity) (o : StoredObservation) (seg : UsageSegment)
    (hv : 0 < identity.vcpus) (hr : 0 < seg.runtimeNs) :
    computePeriods (stored (segmentEvents identity o seg)) identity.id = [(seg.start, seg.stop)] := by
  have hq : seg.runtimeNs * identity.vcpus ≠ 0 := (Nat.mul_pos hr hv).ne'
  by_cases hm : seg.runtimeNs * identity.memoryBytes = 0 <;>
    simp [computePeriods, stored, segmentEvents, hq, hm]

theorem computePeriods_segments (identity : MachineIdentity) (o : StoredObservation)
    (hv : 0 < identity.vcpus) (segs : List UsageSegment) (hr : ∀ seg ∈ segs, 0 < seg.runtimeNs) :
    computePeriods (stored (segs.flatMap (segmentEvents identity o))) identity.id =
      segs.map fun seg => (seg.start, seg.stop) := by
  induction segs with
  | nil => rfl
  | cons seg segs ih =>
    have hone := computePeriods_segment identity o seg hv (hr seg List.mem_cons_self)
    have hrest := ih fun s hs => hr s (List.mem_cons_of_mem seg hs)
    rw [List.flatMap_cons, stored, List.filter_append, computePeriods_append]
    show computePeriods (stored _) _ ++ computePeriods (stored _) _ = _
    rw [hone, hrest]
    rfl

/-- The compute rows an accepted observation projects are its segments, each with a row of its own. -/
theorem computePeriods_projections (identity : MachineIdentity) (s : MeterState)
    (o : StoredObservation) (ps : ℤ) (hv : 0 < identity.vcpus) :
    computePeriods (stored (projections identity s o ps)) identity.id =
      (splitRuntimeAtUtcMidnight ps (runtimeDelta s o)).map fun seg => (seg.start, seg.stop) := by
  have hegress : computePeriods (stored (egressEvents identity s o ps
      (splitRuntimeAtUtcMidnight ps (runtimeDelta s o)))) identity.id = [] := by
    rw [computePeriods, List.map_eq_nil_iff, List.filter_eq_nil_iff]
    intro e he
    obtain ⟨_, _, _, _, _, _, hd⟩ := egressEvents_mem identity s o ps _ e (List.mem_filter.mp he).1
    simp [hd]
  rw [projections, stored, List.filter_append, computePeriods_append]
  show computePeriods (stored _) _ ++ computePeriods (stored _) _ = _
  rw [computePeriods_segments identity o hv _ (split_runtime_pos _ _), hegress, List.append_nil]

variable {id : String} {ob : List (ℤ × ℤ)} {l : LegacyDb}

/-- Rows of another machine. -/
theorem computePeriods_other (identity : MachineIdentity) (s : MeterState) (o : StoredObservation) (ps : ℤ)
    (h : id ≠ identity.id) :
    computePeriods (stored (projections identity s o ps)) id = [] := by
  rw [computePeriods, List.map_eq_nil_iff, List.filter_eq_nil_iff]
  intro e he
  obtain ⟨_, _, hm, _⟩ := projections_mem identity s o ps e (List.mem_filter.mp he).1
  simp [hm, Ne.symm h]

/-! ### The cut -/

/-- `b` is the boundary `closeLegacyPrefix` computed when it accepted the start of the machine. -/
def ClosedAt (t : Tables) (id : String) (b : ℤ) : Prop :=
  ∃ identity o, o ∈ t.observations ∧ o.machineId = id ∧ o.kind = .start ∧ identity.id = id ∧
    b = cutoverBoundary identity o.observedAt ∧
    t.startRecords id = some ⟨legacyCoveredRuntime identity o, o.egressBytes⟩

/-- Where the periods of a machine stand; `ob` are those legacy metering has written. -/
structure CutAt (id : String) (ob : List (ℤ × ℤ)) (t : Tables) (cs : List CutoverEvent) : Prop where
  vcpus_pos : ∀ x m, t.machines x = some m → 0 < m.vcpus
  unstarted : (t.meterStates id).any (·.startSeen) = false →
    cutoverPeriods cs id = [] ∧ computePeriods t.rawEvents id = [] ∧
      (ob = [] ∨ ∃ a b m, t.machines id = some m ∧ m.usageCheckpointAt = some b ∧ Tiles a ob b)
  started : ∀ s, t.meterStates id = some s → s.startSeen = true →
    ∃ a b e, s.lastPeriodEnd = some e ∧ Tiles a (ob ++ cutoverPeriods cs id) b ∧
      Tiles b (computePeriods t.rawEvents id) e ∧ ClosedAt t id b

variable {t : Tables} {cs : List CutoverEvent} {s : CutoverState} {identity : MachineIdentity} {state : MeterState}
    {o : StoredObservation} {metering : AuthoritativeMetering}

/-- Statements that leave the periods of the machine and the row they start from alone. -/
theorem CutAt.frame {t' : Tables} {cs' : List CutoverEvent} (h : CutAt id ob t cs)
    (hv : ∀ x m, t'.machines x = some m → 0 < m.vcpus)
    (hm : (t.meterStates id).any (·.startSeen) = false → ∀ m, t.machines id = some m →
      ∃ m', t'.machines id = some m' ∧ m'.usageCheckpointAt = m.usageCheckpointAt)
    (hany : (t'.meterStates id).any (·.startSeen) = false →
      (t.meterStates id).any (·.startSeen) = false)
    (hs : ∀ s', t'.meterStates id = some s' → s'.startSeen = true →
      ∃ s, t.meterStates id = some s ∧ s.startSeen = true ∧ s'.lastPeriodEnd = s.lastPeriodEnd)
    (hraw : computePeriods t'.rawEvents id = computePeriods t.rawEvents id)
    (hcut : cutoverPeriods cs' id = cutoverPeriods cs id) (hobs : t.observations ⊆ t'.observations)
    (hrec : t'.startRecords id = t.startRecords id) :
    CutAt id ob t' cs' where
  vcpus_pos := hv
  unstarted hn := by
    obtain ⟨h1, h2, h3⟩ := h.unstarted (hany hn)
    refine ⟨hcut.trans h1, hraw.trans h2, h3.imp_right ?_⟩
    rintro ⟨a, b, m, hmt, hb, htiles⟩
    obtain ⟨m', hm', hc⟩ := hm (hany hn) m hmt
    exact ⟨a, b, m', hm', hc.trans hb, htiles⟩
  started s' hs' hstart := by
    obtain ⟨s, hst, hseen, hlast⟩ := hs s' hs' hstart
    obtain ⟨a, b, e, he, ht1, ht2, identity, o, ho, hclosed⟩ := h.started s hst hseen
    refine ⟨a, b, e, hlast.trans he, ?_, ?_, identity, o, hobs ho, ?_⟩
    · rw [hcut]
      exact ht1
    · rw [hraw]
      exact ht2
    · rw [hrec]
      exact hclosed

/-- A statement that rewrites one meter row within its figures. -/
theorem CutAt.updateState (h : CutAt id ob t cs) {x : String} {s : MeterState} (s' : MeterState)
    (hs : t.meterStates x = some s) (hseen : s'.startSeen = s.startSeen) (hlast : s'.lastPeriodEnd = s.lastPeriodEnd) :
    CutAt id ob { t with meterStates := Function.update t.meterStates x (some s') } cs := by
  refine h.frame h.vcpus_pos (fun _ m hm => ⟨m, hm, rfl⟩) ?_ ?_ rfl rfl (fun _ ho => ho) rfl
  · intro hn
    by_cases hx : id = x
    · subst hx
      simp only [Function.update_self, Option.any_some] at hn
      rw [hs, Option.any_some, ← hseen]
      exact hn
    · simpa only [Function.update_of_ne hx] using hn
  · intro u hu hstart
    by_cases hx : id = x
    · subst hx
      simp only [Function.update_self, Option.some.injEq] at hu
      subst hu
      exact ⟨s, hs, by rw [← hseen]; exact hstart, hlast⟩
    · simp only [Function.update_of_ne hx] at hu
      exact ⟨u, hu, hstart, rfl⟩

theorem vcpus_pos_kept {ms ms' : String → Option MachineRow} (hk : MachinesKept ms ms')
    (hv : ∀ x m, ms x = some m → 0 < m.vcpus) : ∀ x m, ms' x = some m → 0 < m.vcpus := by
  intro x m hm
  obtain ⟨m₀, hm₀, hs⟩ := hk.row_back hm
  rw [hs.vcpus]
  exact hv x m₀ hm₀

/-! ### Ingestion -/

theorem appendProjections_cutovers (es : List RawUsageEvent) : ∀ db db' : Db,
    appendProjections db es = .ok db' → db'.cutovers = db.cutovers := by
  induction es with
  | nil =>
    intro db db' h
    cases h
    rfl
  | cons e es ih =>
    intro db db' h
    obtain ⟨db₁, h₁, h⟩ := bind_ok h
    have hone : db₁.cutovers = db.cutovers := by
      unfold appendProjection at h₁
      split_ifs at h₁ <;> cases h₁ <;> rfl
    rw [ih db₁ db' h, hone]

theorem processUsage_cutovers {db db' : Db} {now : ℤ} {ps : ℤ} {v : Verdict}
    (h : processUsage db now identity state o ps = .ok (db', v)) : db'.cutovers = db.cutovers := by
  obtain ⟨db₁, h₁, h⟩ := bind_ok h
  have hc := appendProjections_cutovers _ db db₁ h₁
  dsimp only at h
  split_ifs at h
  · unfold closeFinal at h
    cases hq : o.quality <;> simp only [hq] at h <;> cases h
    · exact hc
    · exact (exception_cutovers _ _).trans hc
  · cases h
    exact hc

theorem rejectObservation_cutovers (db : Db) (now : ℤ) (identity : MachineIdentity)
    (state : MeterState) (o : StoredObservation) (anomaly : QuarantineReason) :
    (rejectObservation db now identity state o anomaly).cutovers = db.cutovers :=
  exception_cutovers db _

/-- A cut-over row is added for a machine that has none; other machines keep theirs. -/
theorem appendCutover_periods (db : Db) (e : CutoverEvent) :
    (∀ id, id ≠ e.machineId →
      cutoverPeriods (appendCutover db e).cutovers id = cutoverPeriods db.cutovers id) ∧
    (cutoverPeriods db.cutovers e.machineId = [] →
      cutoverPeriods (appendCutover db e).cutovers e.machineId = [(e.periodStart, e.periodEnd)]) := by
  unfold appendCutover
  split_ifs with hdup
  · refine ⟨fun _ _ => rfl, fun hnil => ?_⟩
    -- a row under the same key would be a row of this machine
    simp only [List.any_eq_true, Bool.and_eq_true, beq_iff_eq] at hdup
    obtain ⟨c, hc, ⟨hcm, _⟩, _⟩ := hdup
    rw [cutoverPeriods, List.map_eq_nil_iff, List.filter_eq_nil_iff] at hnil
    exact absurd (decide_eq_true hcm) (hnil c hc)
  · refine ⟨fun id hx => ?_, fun hnil => ?_⟩
    · rw [cutoverPeriods_append, if_neg (Ne.symm hx), List.append_nil]
    · rw [cutoverPeriods_append, hnil, if_pos rfl, List.nil_append]

theorem closeLegacyPrefix_cutovers_other (db : Db) (identity : MachineIdentity) (hostStart : ℤ)
    (hx : id ≠ identity.id) :
    cutoverPeriods (closeLegacyPrefix db identity hostStart).1.cutovers id
      = cutoverPeriods db.cutovers id := by
  dsimp only [closeLegacyPrefix, updateMachine]
  split
  · split_ifs
    · exact (appendCutover_periods db _).1 id hx
    · rfl
  · rfl

/-- **The legacy periods are led to the boundary.**  Where they ended at the checkpoint the turn read, or
there were none, they end at the boundary of `closeLegacyPrefix` afterwards. -/
theorem closeLegacyPrefix_tiles (db : Db) (identity : MachineIdentity) (hostStart : ℤ)
    (ob : List (ℤ × ℤ)) (hnil : cutoverPeriods db.cutovers identity.id = [])
    (hob : ob = [] ∨ ∃ a b, identity.usageCheckpointAt = some b ∧ Tiles a ob b) :
    ∃ a, Tiles a (ob ++ cutoverPeriods (closeLegacyPrefix db identity hostStart).1.cutovers identity.id)
      (cutoverBoundary identity hostStart) := by
  cases hls : identity.usageCheckpointAt.orElse fun _ => identity.startedAt with
  | none =>
    have hno : ob = [] := by
      rcases hob with rfl | ⟨a, b, hb, _⟩
      · rfl
      · rw [hb] at hls
        cases hls
    have hcut : (closeLegacyPrefix db identity hostStart).1.cutovers = db.cutovers := by
      simp only [closeLegacyPrefix, hls, updateMachine]
    rw [hno, hcut, hnil]
    exact ⟨_, rfl⟩
  | some ls =>
    have hlead : ∃ a, Tiles a ob ls := by
      rcases hob with rfl | ⟨a, b, hb, htiles⟩
      · exact ⟨ls, rfl⟩
      · rw [hb] at hls
        cases hls
        exact ⟨a, htiles⟩
    obtain ⟨a, htiles⟩ := hlead
    by_cases hlt : ls < cutoverBoundary identity hostStart
    · have hcut : (closeLegacyPrefix db identity hostStart).1.cutovers
          = (appendCutover db (cutoverEvent identity ls (cutoverBoundary identity hostStart))).cutovers := by
        simp only [closeLegacyPrefix, hls, if_pos hlt, updateMachine]
      have hper : cutoverPeriods (closeLegacyPrefix db identity hostStart).1.cutovers identity.id
          = [(ls, cutoverBoundary identity hostStart)] := by
        rw [hcut]
        exact (appendCutover_periods db (cutoverEvent identity ls _)).2 hnil
      rw [hper]
      exact ⟨a, htiles.snoc hlt.le⟩
    · have hcut : (closeLegacyPrefix db identity hostStart).1.cutovers = db.cutovers := by
        simp only [closeLegacyPrefix, hls, if_neg hlt, updateMachine]
      have heq : cutoverBoundary identity hostStart = ls := by
        simp only [cutoverBoundary, hls] at hlt ⊢
        split_ifs at hlt ⊢ <;> omega
      rw [hcut, hnil, List.append_nil, heq]
      exact ⟨a, htiles⟩

/-- The accepted start of the machine. -/
theorem cutAt_start {db db' : Db} (h : CutAt id ob db.tables db.cutovers)
    (hcur : state.lastSequence = 0 → Current db.machines identity) (hs : db.meterStates identity.id = some state)
    (ho : nextPending db identity state = some o) (hclean : Clean identity state o) (hk : o.kind = .start)
    (hp : processStart db identity state o = .ok db') :
    CutAt id ob db'.tables db'.cutovers := by
  have ht := processStart_tables hs hp
  have hkept := closeLegacyPrefix_kept db identity o.observedAt
  have hcuts : db'.cutovers = (closeLegacyPrefix db identity o.observedAt).1.cutovers := by
    simp only [processStart] at hp
    split_ifs at hp
    cases hp
    rfl
  have hc := closeLegacyPrefix_tables db identity o.observedAt
  have hmach : db'.machines = (closeLegacyPrefix db identity o.observedAt).1.machines :=
    congrArg Tables.machines ht
  have hstates : db'.meterStates = Function.update db.meterStates identity.id
      (some (state.started identity o)) := congrArg Tables.meterStates ht
  have hraw : db'.rawEvents = db.rawEvents :=
    (congrArg Tables.rawEvents ht).trans (congrArg Tables.rawEvents hc)
  have hobs : db'.observations = db.observations :=
    (congrArg Tables.observations ht).trans (congrArg Tables.observations hc)
  have hrecs : db'.startRecords = Function.update db.startRecords identity.id
      (some ⟨legacyCoveredRuntime identity o, o.egressBytes⟩) := congrArg Tables.startRecords ht
  have hv : ∀ x m, db'.machines x = some m → 0 < m.vcpus := by
    rw [hmach]
    exact vcpus_pos_kept hkept h.vcpus_pos
  by_cases hx : id = identity.id
  · subst hx
    -- the start is the first observation the meter accepts, so the turn's columns are current
    have hunseen : state.startSeen = false := by
      cases hseen : state.startSeen with
      | false => rfl
      | true => exact absurd hk (hclean.later hseen)
    obtain ⟨hmem, hom, _, _, hnext⟩ := nextPending_spec ho
    have hzero : state.lastSequence = 0 := by
      have := (hclean.first hunseen).1
      omega
    obtain ⟨m, hm, hcheck, _⟩ := hcur hzero
    obtain ⟨hnil, hcompute, hob⟩ := h.unstarted (by
      show (db.meterStates identity.id).any _ = false
      rw [hs]
      exact hunseen)
    have hob' : ob = [] ∨ ∃ a b, identity.usageCheckpointAt = some b ∧ Tiles a ob b := by
      refine hob.imp_right ?_
      rintro ⟨a, b, m', hm', hb, htiles⟩
      rw [tables_machines, hm] at hm'
      cases hm'
      exact ⟨a, b, hcheck.symm.trans hb, htiles⟩
    obtain ⟨a, htiles⟩ := closeLegacyPrefix_tiles db identity o.observedAt ob hnil hob'
    refine ⟨hv, ?_, ?_⟩
    · intro hn
      rw [tables_meterStates, hstates, Function.update_self] at hn
      cases hn
    · intro s hs' _
      rw [tables_meterStates, hstates, Function.update_self, Option.some.injEq] at hs'
      subst hs'
      refine ⟨a, cutoverBoundary identity o.observedAt, cutoverBoundary identity o.observedAt, rfl, ?_,
        ?_, identity, o, ?_, hom, hk, rfl, rfl, ?_⟩
      · rw [hcuts]
        exact htiles
      · rw [tables_rawEvents, hraw]
        rw [tables_rawEvents] at hcompute
        rw [hcompute]
        exact rfl
      · rw [tables_observations, hobs]
        exact hmem
      · rw [tables_startRecords, hrecs, Function.update_self]
  · refine h.frame hv ?_ ?_ ?_ ?_ ?_ ?_ ?_
    · intro _ m hm
      refine ⟨m, ?_, rfl⟩
      rw [tables_machines, hmach]
      show (closeLegacyPrefix db identity o.observedAt).1.tables.machines id = some m
      rw [hc]
      exact (Function.update_of_ne hx _ _).trans hm
    · intro hn
      rw [tables_meterStates, hstates, Function.update_of_ne hx] at hn
      exact hn
    · intro s' hs' hstart
      rw [tables_meterStates, hstates, Function.update_of_ne hx] at hs'
      exact ⟨s', hs', hstart, rfl⟩
    · rw [tables_rawEvents, hraw, tables_rawEvents]
    · rw [hcuts]
      exact closeLegacyPrefix_cutovers_other db identity o.observedAt hx
    · rw [tables_observations, tables_observations, hobs]
      exact fun _ h => h
    · rw [tables_startRecords, hrecs, Function.update_of_ne hx, tables_startRecords]

theorem used_lastPeriodEnd (s : MeterState) (now : ℤ) (o : StoredObservation) (ps : ℤ) :
    (s.used now o ps).lastPeriodEnd = some (advancedPeriodEnd s o ps) := by
  unfold MeterState.used
  split_ifs <;> rfl

/-- An accepted checkpoint or final adds its segments after the last compute period. -/
theorem cutAt_used {db db' : Db} {now : ℤ} {ps : ℤ} (h : CutAt id ob db.tables db.cutovers)
    (hsel : Selected db.tables identity) (hs : db.meterStates identity.id = some state)
    (hclean : Clean identity state o) (hk : o.kind ≠ .start)
    (hps : (state.lastPeriodEnd.orElse fun _ => state.lastObservedAt) = some ps)
    (ht : db'.tables = { db.tables with
        machines := usedMachines db.machines now identity state o ps
        meterStates := Function.update db.meterStates identity.id (some (state.used now o ps))
        rawEvents := db.rawEvents ++ stored (projections identity state o ps) }) (hcuts : db'.cutovers = db.cutovers) :
    CutAt id ob db'.tables db'.cutovers := by
  have hkept := usedMachines_kept db.machines now identity state o ps
  have hv : ∀ x m, db'.tables.machines x = some m → 0 < m.vcpus := by
    rw [ht]
    exact vcpus_pos_kept hkept h.vcpus_pos
  have hseen : state.startSeen = true := by
    cases hf : state.startSeen with
    | true => rfl
    | false => exact absurd (hclean.first hf).2.1 hk
  by_cases hx : id = identity.id
  · subst hx
    obtain ⟨a, b, e, he, ht1, ht2, hclosed⟩ := h.started state hs hseen
    have hpse : ps = e := by
      rw [he] at hps
      exact (Option.some.inj hps).symm
    have hvc : 0 < identity.vcpus := by
      obtain ⟨m, hm, hd⟩ := hsel
      rw [← hd.vcpus]
      exact h.vcpus_pos _ m hm
    refine ⟨hv, ?_, ?_⟩
    · intro hn
      rw [ht] at hn
      simp only [Function.update_self, Option.any_some] at hn
      rw [(used_fields state now o ps).2.2.2.2.2.1, hseen] at hn
      cases hn
    · intro s' hs' _
      rw [ht] at hs'
      simp only [Function.update_self, Option.some.injEq] at hs'
      subst hs'
      refine ⟨a, b, advancedPeriodEnd state o ps, used_lastPeriodEnd state now o ps, ?_, ?_, ?_⟩
      · rw [hcuts]
        exact ht1
      · rw [ht, computePeriods_append, computePeriods_projections identity state o ps hvc]
        refine ht2.append ?_
        rw [← hpse]
        exact split_tiles ps (runtimeDelta state o)
      · rw [ht]
        exact hclosed
  · refine h.frame hv ?_ ?_ ?_ ?_ ?_ ?_ ?_
    · intro _ m hm
      refine ⟨m, ?_, rfl⟩
      rw [ht]
      show usedMachines db.machines now identity state o ps id = some m
      unfold usedMachines
      split_ifs
      · exact (Function.update_of_ne hx _ _).trans hm
      · exact hm
    · intro hn
      rw [ht] at hn
      simp only [Function.update_of_ne hx] at hn
      exact hn
    · intro s' hs' hstart
      rw [ht] at hs'
      simp only [Function.update_of_ne hx] at hs'
      exact ⟨s', hs', hstart, rfl⟩
    · rw [ht, computePeriods_append, computePeriods_other identity state o ps hx, List.append_nil]
      rfl
    · rw [hcuts]
    · rw [ht]
      exact fun _ h => h
    · rw [ht]

/-- **Where the periods stand is an invariant of ingestion.** -/
theorem cutAt_invariant (id : String) (ob : List (ℤ × ℤ)) :
    TurnInvariant fun t cs => Books t ∧ CutAt id ob t cs where
  hosts t cs hosts h := ⟨books_invariant.hosts t hosts h.1,
    h.2.frame h.2.vcpus_pos (fun _ m hm => ⟨m, hm, rfl⟩) (fun hn => hn) (fun s hs hh => ⟨s, hs, hh, rfl⟩)
      rfl rfl (fun _ ho => ho) rfl⟩
  skipId t cs h := ⟨books_invariant.skipId t h.1,
    h.2.frame h.2.vcpus_pos (fun _ m hm => ⟨m, hm, rfl⟩) (fun hn => hn) (fun s hs hh => ⟨s, hs, hh, rfl⟩)
      rfl rfl (fun _ ho => ho) rfl⟩
  insertState t cs hostId a identity hsel hnone h := by
    refine ⟨books_invariant.insertState t hostId a identity hsel hnone h.1, ?_⟩
    refine h.2.frame h.2.vcpus_pos (fun _ m hm => ⟨m, hm, rfl⟩) ?_ ?_ rfl rfl (fun _ ho => ho) rfl
    · intro hn
      by_cases hx : id = identity.id
      · rw [hx, hnone]
        rfl
      · simpa only [Function.update_of_ne hx] using hn
    · intro s hs hstart
      by_cases hx : id = identity.id
      · subst hx
        simp only [Function.update_self, Option.some.injEq] at hs
        subst hs
        cases hstart
      · simp only [Function.update_of_ne hx] at hs
        exact ⟨s, hs, hstart, rfl⟩
  quarantine t cs now x s reason hs h :=
    ⟨books_invariant.quarantine t now x s reason hs h.1,
      h.2.updateState (s.quarantine now reason) hs rfl rfl⟩
  insertObservation t cs hostId a identity hsel hs hnone h :=
    ⟨books_invariant.insertObservation t hostId a identity hsel hs hnone h.1,
      h.2.frame h.2.vcpus_pos (fun _ m hm => ⟨m, hm, rfl⟩) (fun hn => hn)
        (fun s hs hh => ⟨s, hs, hh, rfl⟩) rfl rfl (List.subset_append_left _ _) rfl⟩
  process db db' now identity state o v hsel hcur hs ho hp h := by
    refine ⟨books_process hsel hs ho hp h.1, ?_⟩
    have hreason := h.1.quarantine_reason _ _ hs
    cases processObservation_processed hp with
    | rejected anomaly ha =>
      rw [rejectObservation_tables db now identity state o anomaly hs, rejectObservation_cutovers]
      exact h.2.updateState (state.rejected now o anomaly) hs rfl rfl
    | started _ ha hk hstart =>
      exact cutAt_start h.2 hcur hs ho (clean_of_anomalyOf hreason ha) hk hstart
    | used ps _ _ ha hk hps hused =>
      obtain ⟨db₁, hok, ht⟩ := processUsage_ok db now identity state o ps hs (h.1.fresh hs ho)
      rw [hused] at hok
      cases hok
      exact cutAt_used h.2 hsel hs (clean_of_anomalyOf hreason ha) hk hps ht
        (processUsage_cutovers hused)

/-! ### Legacy metering -/

/-- What a query does with a candidate: nothing, set the machine aside, write an interval and move the
checkpoint to its end, or, when the final interval is there already, only move the checkpoint. -/
inductive Enqueued (l : LegacyDb) (id : String) : LegacyDb → Prop
  | skipped : Enqueued l id l
  | quarantined (reason : String) :
      Enqueued l id
        { l with
          usageQuarantineReason := Function.update l.usageQuarantineReason id (some reason) }
  | written (m : MachineRow) (periodStart periodEnd : ℤ) (key : OutboxKey) (final : Bool)
      (hm : l.db.machines id = some m) (hstart : m.usageStart = some periodStart)
      (hle : periodStart ≤ periodEnd) (hkey : key = .final id periodEnd ∨ key = .checkpoint id periodEnd) :
      Enqueued l id
        (LegacyDb.checkpoint
          { l with outbox := l.outbox ++ [outboxRow id m key periodStart periodEnd final] } id periodEnd)
  | repeated (m : MachineRow) (periodStart periodEnd : ℤ) (r : OutboxRow)
      (hm : l.db.machines id = some m) (hstart : m.usageStart = some periodStart)
      (hle : periodStart ≤ periodEnd) (hr : r ∈ l.outbox) (hkey : r.eventKey = .final id periodEnd) :
      Enqueued l id (l.checkpoint id periodEnd)

theorem enqueue_enqueued (l : LegacyDb) (sel : Selection) : Enqueued l sel.machineId (l.enqueue sel) := by
  unfold LegacyDb.enqueue
  split_ifs with hrow
  · split
    · exact .skipped
    · next m hm =>
      split
      · next ps hps hterm =>
        split
        · next pe hpe =>
          simp only [LegacyDb.enqueueTerminal]
          split_ifs with h1 h2 h3
          · exact .quarantined _
          · exact .quarantined _
          · simp only [List.any_eq_true, beq_iff_eq] at h3
            obtain ⟨r, hr, hkey⟩ := h3
            exact .repeated m ps pe r hm hps (not_lt.mp h1) hr hkey
          · exact .written m ps pe _ true hm hps (not_lt.mp h1) (Or.inl rfl)
        · exact .skipped
      · next ps hps hact =>
        simp only [LegacyDb.enqueueActive]
        split_ifs with h1
        · exact .skipped
        · refine .written m ps sel.checkpointEnd _ false hm hps ?_ (Or.inr rfl)
          simp only [LegacyDb.rowMatches, hm, hact, hps, Option.any_some, Bool.and_eq_true,
            decide_eq_true_eq] at hrow
          omega
      · exact .skipped
  · exact .skipped

/-- A row of the reconciler is filed under its machine and its end. -/
def OutboxKeyed (rows : List OutboxRow) : Prop :=
  ∀ r ∈ rows, r.eventKey = .final r.machineId r.periodEnd ∨
    r.eventKey = .checkpoint r.machineId r.periodEnd

theorem checkpoint_kept (l : LegacyDb) (id : String) (t : ℤ) :
    MachinesKept l.db.machines (l.checkpoint id t).db.machines :=
  machinesKept_update l.db.machines id _ fun m => m.sameLease_usage _ _

/-- Moving the checkpoint of a machine whose start has not been accepted. -/
theorem cutAt_checkpoint {x : String} {ob' : List (ℤ × ℤ)} {e : ℤ} (h : CutAt id ob l.db.tables l.db.cutovers)
    (hun : l.startSeen x = false) (hsome : (l.db.machines x).isSome) (hother : id ≠ x → ob' = ob)
    (hob : id = x → ∃ a, Tiles a ob' e) :
    CutAt id ob' (l.checkpoint x e).db.tables (l.checkpoint x e).db.cutovers := by
  have hv : ∀ y m, (l.checkpoint x e).db.machines y = some m → 0 < m.vcpus :=
    vcpus_pos_kept (checkpoint_kept l x e) h.vcpus_pos
  by_cases hx : id = x
  · subst hx
    obtain ⟨m, hm⟩ := Option.isSome_iff_exists.mp hsome
    obtain ⟨h1, h2, _⟩ := h.unstarted hun
    obtain ⟨a, htiles⟩ := hob rfl
    refine ⟨hv, fun _ => ⟨h1, h2, Or.inr ⟨a, e, { m with usageCheckpointAt := some e }, ?_, rfl,
      htiles⟩⟩, ?_⟩
    · show Function.update l.db.machines id _ id = _
      rw [Function.update_self, hm, Option.map_some]
    · intro s hs hstart
      have hs : l.db.meterStates id = some s := hs
      simp only [LegacyDb.startSeen, hs, Option.any_some, hstart] at hun
      cases hun
  · rw [hother hx]
    refine h.frame hv ?_ (fun hn => hn) (fun s hs hh => ⟨s, hs, hh, rfl⟩) rfl rfl (fun _ ho => ho) rfl
    intro _ m hm
    exact ⟨m, (Function.update_of_ne hx _ _).trans hm, rfl⟩

/-- Everything that is known of the periods of a machine. -/
structure Billed (id : String) (l : LegacyDb) : Prop where
  books : Books l.db.tables
  cut : CutAt id (outboxPeriods l.outbox id) l.db.tables l.db.cutovers
  keyed : OutboxKeyed l.outbox

theorem books_checkpoint (h : Books l.db.tables) (id : String) (t : ℤ) : Books (l.checkpoint id t).db.tables :=
  { h with
    toSchema := h.toSchema.kept (checkpoint_kept l id t) fun _ s hs => ⟨s, hs, rfl, rfl, rfl, rfl⟩ }

/-- The checkpoint the next legacy interval starts from is where the last one ended. -/
theorem CutAt.leads (h : CutAt id ob t cs) (hun : (t.meterStates id).any (·.startSeen) = false) {m : MachineRow}
    {ps : ℤ} (hm : t.machines id = some m) (hps : m.usageStart = some ps) : ∃ a, Tiles a ob ps := by
  obtain ⟨_, _, rfl | ⟨a, b, m', hm', hb, htiles⟩⟩ := h.unstarted hun
  · exact ⟨ps, rfl⟩
  · rw [hm] at hm'
    cases hm'
    rw [MachineRow.usageStart, hb] at hps
    cases hps
    exact ⟨a, htiles⟩

/-- Legacy metering of a machine whose start has not been accepted. -/
theorem billed_enqueue {sel : Selection} (h : Billed id l) (hun : l.startSeen sel.machineId = false) :
    Billed id (l.enqueue sel) := by
  have henq := enqueue_enqueued l sel
  generalize l.enqueue sel = l' at henq
  cases henq with
  | skipped => exact h
  | quarantined reason => exact ⟨h.books, h.cut, h.keyed⟩
  | written m ps pe key final hm hstart hle hkey =>
    set row := outboxRow sel.machineId m key ps pe final
    have hrow : row.machineId = sel.machineId := rfl
    refine ⟨books_checkpoint (l := { l with outbox := l.outbox ++ [row] }) h.books _ _, ?_, ?_⟩
    · refine cutAt_checkpoint (l := { l with outbox := l.outbox ++ [row] }) h.cut hun
        (by rw [hm]; rfl) ?_ ?_
      · intro hx
        show outboxPeriods (l.outbox ++ [row]) id = _
        rw [outboxPeriods_append, hrow, if_neg (Ne.symm hx), List.append_nil]
      · rintro rfl
        obtain ⟨a, htiles⟩ := h.cut.leads hun hm hstart
        refine ⟨a, ?_⟩
        show Tiles a (outboxPeriods (l.outbox ++ [row]) _) pe
        rw [outboxPeriods_append, if_pos hrow]
        exact htiles.snoc hle
    · intro r hr
      rcases List.mem_append.mp hr with hr | hr
      · exact h.keyed r hr
      · rw [List.mem_singleton.mp hr]
        exact hkey
  | repeated m ps pe r hm hstart hle hr hkey =>
    refine ⟨books_checkpoint h.books _ _, ?_, h.keyed⟩
    refine cutAt_checkpoint h.cut hun (by rw [hm]; rfl) (fun _ => rfl) ?_
    rintro rfl
    obtain ⟨a, htiles⟩ := h.cut.leads hun hm hstart
    -- the final interval ends at `pe` and lies before the checkpoint: nothing is skipped
    have hmem : (r.periodStart, r.periodEnd) ∈ outboxPeriods l.outbox sel.machineId ∧ r.periodEnd = pe := by
      have hown : r.machineId = sel.machineId ∧ r.periodEnd = pe := by
        rcases h.keyed r hr with hk | hk
        · rw [hkey, OutboxKey.final.injEq] at hk
          exact ⟨hk.1.symm, hk.2.symm⟩
        · rw [hkey] at hk
          cases hk
      exact ⟨List.mem_map.mpr ⟨r, List.mem_filter.mpr ⟨hr, decide_eq_true hown.1⟩, rfl⟩, hown.2⟩
    have hend := (htiles.mem.2 _ hmem.1).2.2
    have heq : ps = pe := by
      dsimp only at hend
      omega
    rw [heq] at htiles
    exact ⟨a, htiles⟩

/-! ### Runs -/

/-- `closeHostLoss` leaves the row of a machine whose start has not been accepted alone. -/
theorem closeHostLoss_unstarted (db : Db) (now : ℤ) (machineId leaseId : String)
    (h : (db.meterStates id).any (·.startSeen) = false) :
    (closeHostLoss db now machineId leaseId).1.machines id = db.machines id := by
  have hx : ∀ e, (exception db e).machines = db.machines :=
    fun e => congrArg Tables.machines (exception_tables db e)
  unfold closeHostLoss
  split
  · next machine state hm hs =>
    split_ifs with hlease hstart
    · rfl
    · exact congrFun (hx _) id
    · have hne : id ≠ machineId := by
        rintro rfl
        rw [hs, Option.any_some] at h
        exact hstart (by rw [h]; rfl)
      refine (Function.update_of_ne hne _ _).trans ?_
      unfold closeMeter
      split_ifs
      · rfl
      · exact congrFun (hx _) id
  · rfl

theorem closeHostLoss_cutovers (db : Db) (now : ℤ) (machineId leaseId : String) :
    (closeHostLoss db now machineId leaseId).1.cutovers = db.cutovers := by
  unfold closeHostLoss
  split
  · split_ifs
    · rfl
    · exact exception_cutovers _ _
    · show (closeMeter _ _ _ _ _ _).cutovers = _
      unfold closeMeter
      split_ifs
      · rfl
      · exact exception_cutovers _ _
  · rfl

/-- **The condition.**  When a query comes to lock the row of a candidate, no start of the machine has been
accepted since its snapshot. -/
def StartNotOvertaken (s : CutoverState) : CutoverAct → CutoverState → Prop
  | .enqueue sel, _ => s.tables.startSeen sel.machineId = false
  | _, _ => True

theorem billed_step {s' : CutoverState} {a : CutoverAct} (hstep : CutoverStep metering s a s')
    (hg : StartNotOvertaken s a s') (h : Billed id s.tables) :
    Billed id s'.tables := by
  cases hstep with
  | ingest call =>
    dsimp only
    cases hr : ingest metering s.tables.db call with
    | error e => exact h
    | ok r =>
      obtain ⟨hb, hc⟩ := ingest_turn (cutAt_invariant id (outboxPeriods s.tables.outbox id)) hr
        ⟨h.books, h.cut⟩
      exact ⟨hb, hc, h.keyed⟩
  | closeHostLoss now machineId leaseId =>
    have hb : Books (closeHostLoss s.tables.db now machineId leaseId).1.tables :=
      have hstep : MeteringStep metering s.tables.db (.closeHostLoss now machineId leaseId)
          (closeHostLoss s.tables.db now machineId leaseId).1 := .closeHostLoss s.tables.db now machineId leaseId
      books_step hstep h.books
    obtain ⟨machines, states, ht, hkept, hstates⟩ :=
      closeHostLoss_tables s.tables.db now machineId leaseId
    have hmach : (closeHostLoss s.tables.db now machineId leaseId).1.machines = machines :=
      congrArg Tables.machines ht
    have hcut : CutAt id (outboxPeriods s.tables.outbox id)
        { s.tables.db.tables with machines := machines } s.tables.db.cutovers := by
      refine h.cut.frame (vcpus_pos_kept hkept h.cut.vcpus_pos) ?_ (fun hn => hn)
        (fun u hu hh => ⟨u, hu, hh, rfl⟩) rfl rfl (fun _ ho => ho) rfl
      intro hun m hm
      refine ⟨m, ?_, rfl⟩
      rw [← hmach]
      exact (closeHostLoss_unstarted s.tables.db now machineId leaseId hun).trans hm
    refine ⟨hb, ?_, h.keyed⟩
    show CutAt id _ (closeHostLoss s.tables.db now machineId leaseId).1.tables _
    rw [ht, closeHostLoss_cutovers]
    rcases hstates with rfl | ⟨u, hu, rfl⟩
    · exact hcut
    · exact hcut.updateState (u.lossClosed now) hu rfl rfl
  | other hosts machines stoppedAt hschema hevolve =>
    refine ⟨{ h.books with toSchema := hschema }, ?_, h.keyed⟩
    refine h.cut.frame hevolve.vcpus_pos ?_ (fun hn => hn) (fun u hu hh => ⟨u, hu, hh, rfl⟩) rfl rfl
      (fun _ ho => ho) rfl
    intro _ m hm
    exact hevolve.kept id m hm
  | select sel hsel => exact h
  | enqueue sel hsel => exact billed_enqueue h hg

theorem billed_run {s' : CutoverState} {acts : List CutoverAct}
    (hrun : RunIn (CutoverStep metering) StartNotOvertaken s acts s') (h : Billed id s.tables) : Billed id s'.tables :=
  hrun.invariant (I := fun s => Billed id s.tables) (fun _ _ _ h hs hg => billed_step hs hg h) h

/-- Nothing has been metered yet. -/
structure CutoverFresh (s : CutoverState) : Prop where
  empty : MeteringEmpty s.tables.db.tables
  schema : Schema s.tables.db.tables
  cutovers : s.tables.db.cutovers = []
  outbox : s.tables.outbox = []
  selected : s.selected = []
  vcpus_pos : ∀ id m, s.tables.db.machines id = some m → 0 < m.vcpus

theorem CutoverFresh.billed (h : CutoverFresh s) (id : String) :
    Billed id s.tables where
  books := books_empty h.empty h.schema.lease_unique
  cut := by
    rw [h.cutovers, h.outbox]
    refine ⟨h.vcpus_pos, fun _ => ⟨rfl, ?_, Or.inl rfl⟩, ?_⟩
    · rw [h.empty.rawEvents]
      rfl
    · intro st hst
      rw [h.empty.meterStates] at hst
      cases hst
  keyed := by
    rw [h.outbox]
    intro r hr
    cases hr

/-- No instant is billed twice: the legacy and the compute periods of the machine, taken together, are
pairwise disjoint. -/
def BilledOnce (l : LegacyDb) (id : String) : Prop :=
  (legacyPeriods l id ++ computePeriods l.db.rawEvents id).Pairwise
    fun p q => Disjoint (Set.Ico p.1 p.2) (Set.Ico q.1 q.2)

/-- The legacy periods end where the compute periods start, at the boundary of `closeLegacyPrefix`. -/
def CutCleanly (l : LegacyDb) (id : String) : Prop :=
  ∀ s, l.db.meterStates id = some s → s.startSeen = true →
    ∃ b, ClosedAt l.db.tables id b ∧
      (∀ p, (legacyPeriods l id).getLast? = some p → p.2 = b) ∧
      ∀ p, (computePeriods l.db.rawEvents id).head? = some p → p.1 = b

theorem Billed.billedOnce (h : Billed id l) : BilledOnce l id := by
  cases hstart : (l.db.meterStates id).any (·.startSeen) with
  | false =>
    obtain ⟨h1, h2, h3⟩ := h.cut.unstarted hstart
    rw [BilledOnce, legacyPeriods, h1]
    rw [tables_rawEvents] at h2
    rw [h2, List.append_nil, List.append_nil]
    rcases h3 with h3 | ⟨a, b, _, _, _, htiles⟩
    · rw [h3]
      exact List.Pairwise.nil
    · exact htiles.disjoint
  | true =>
    obtain ⟨s, hs, hseen⟩ := (Option.any_eq_true _ _).mp hstart
    obtain ⟨a, b, e, _, ht1, ht2, _⟩ := h.cut.started s hs hseen
    exact (ht1.append ht2).disjoint

theorem Billed.cutCleanly (h : Billed id l) : CutCleanly l id := by
  intro s hs hseen
  obtain ⟨a, b, e, _, ht1, ht2, hclosed⟩ := h.cut.started s hs hseen
  exact ⟨b, hclosed, ht1.end_eq, ht2.start_eq⟩

/-- **No instant is billed twice across the cut-over**, in every run whose legacy queries are not overtaken
by the start between their snapshot and their lock. -/
theorem cutover_bills_once (metering : AuthoritativeMetering) (s₀ s : CutoverState)
    (acts : List CutoverAct) (hfresh : CutoverFresh s₀)
    (hrun : RunIn (CutoverStep metering) StartNotOvertaken s₀ acts s) (id : String) :
    BilledOnce s.tables id ∧ CutCleanly s.tables id := by
  have hb := billed_run hrun (hfresh.billed id)
  exact ⟨hb.billedOnce, hb.cutCleanly⟩

/-! ### The sample lease, stopped before its observations arrive -/

namespace Sample

/-- The sample machine, started a second before its host says so and stopped twenty seconds later. -/
def stoppedMachine : MachineRow :=
  { machine with state := .stopped, startedAt := some 1699999999000 }

def stopped : CutoverState :=
  { tables :=
      { db := { db with machines := fun id => if id = machineId then some stoppedMachine else none }
        stoppedAt := fun id => if id = machineId then some 1700000020000 else none
        usageQuarantineReason := fun _ => none
        outbox := [] }
    selected := [] }

def selection : Selection := ⟨.terminal, machineId, 1700000031000⟩

def observed : IngestCall :=
  call 1700000031000 [arrival start 1700000031000, arrival checkpoint 1700000031000]

theorem stopped_fresh : CutoverFresh stopped where
  empty := ⟨rfl, rfl, rfl, rfl⟩
  schema :=
    { state_ref := fun id s hs => by cases hs
      lease_unique := by
        intro id id' m m' hm hm' _
        simp only [stopped, tables_machines] at hm hm'
        split_ifs at hm hm' with h h'
        rw [h, h'] }
  cutovers := rfl
  outbox := rfl
  selected := rfl
  vcpus_pos := by
    intro id m hm
    simp only [stopped] at hm
    split_ifs at hm
    cases hm
    decide

def selectedTerminal : CutoverState := { stopped with selected := [selection] }

/-- The legacy interval is written first, then the observations arrive. -/
def settledInOrder : CutoverState :=
  let s : CutoverState := { tables := stopped.tables.enqueue selection, selected := [] }
  { s with tables := { s.tables with db := commit s.tables.db (ingest {} s.tables.db observed) } }

/-- The observations arrive between the snapshot of the query and its lock. -/
def overtaken : CutoverState :=
  let s : CutoverState :=
    { selectedTerminal with tables :=
      { stopped.tables with db := commit stopped.tables.db (ingest {} stopped.tables.db observed) } }
  { tables := s.tables.enqueue selection, selected := [] }

end Sample

/-- The theorem at the sample lease: the twenty-one seconds of legacy metering cover the ten seconds that
the host reports, and nothing is added to them. -/
theorem cutover_bills_once_sample :
    legacyPeriods Sample.settledInOrder.tables Sample.machineId = [(1699999999000, 1700000020000)] ∧
      computePeriods Sample.settledInOrder.tables.db.rawEvents Sample.machineId = [] ∧
      BilledOnce Sample.settledInOrder.tables Sample.machineId := by
  refine ⟨by decide +kernel, by decide +kernel, ?_⟩
  have hrun : RunIn (CutoverStep {}) StartNotOvertaken Sample.stopped
      [.select Sample.selection, .enqueue Sample.selection, .ingest Sample.observed]
      Sample.settledInOrder :=
    .cons (.select _ _ (by decide)) trivial
      (.cons (.enqueue Sample.selectedTerminal Sample.selection (by decide))
        (show Sample.stopped.tables.startSeen Sample.machineId = false by decide)
        (.cons (.ingest _ _) trivial (.nil _)))
  exact (cutover_bills_once {} Sample.stopped Sample.settledInOrder _ Sample.stopped_fresh hrun
    Sample.machineId).1

/-- **The start overtakes the query.**  The query has found the stopped machine; before it locks the row
the start and a checkpoint are ingested.  The row is read again and passes, its legacy interval now starts
at the boundary, and the ten seconds after it are billed by both. -/
theorem start_overtakes_select :
    ¬ ∀ (metering : AuthoritativeMetering) (s₀ s : CutoverState) (acts : List CutoverAct) (id : String),
      CutoverFresh s₀ → Run (CutoverStep metering) s₀ acts s →
      BilledOnce s.tables id ∧ CutCleanly s.tables id := by
  intro hall
  have hrun : Run (CutoverStep {}) Sample.stopped
      [.select Sample.selection, .ingest Sample.observed, .enqueue Sample.selection]
      Sample.overtaken :=
    .cons (.select _ _ (by decide))
      (.cons (.ingest Sample.selectedTerminal Sample.observed)
        (.cons (.enqueue _ Sample.selection (by decide)) (.nil _)))
  have honce := (hall {} Sample.stopped Sample.overtaken _ Sample.machineId Sample.stopped_fresh hrun).1
  have hperiods : legacyPeriods Sample.overtaken.tables Sample.machineId
      ++ computePeriods Sample.overtaken.tables.db.rawEvents Sample.machineId
      = [(1700000000000, 1700000020000), (1699999999000, 1700000000000),
        (1700000000000, 1700000010000)] := by decide +kernel
  rw [BilledOnce, hperiods, List.pairwise_cons] at honce
  have hdis := honce.1 (1700000000000, 1700000010000) (by simp)
  rw [Set.Ico_disjoint_Ico] at hdis
  norm_num at hdis

end Nehemiah.Billing
