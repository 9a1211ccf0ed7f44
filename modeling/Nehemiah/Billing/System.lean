import Nehemiah.Billing.Invariant
import Nehemiah.Lib.Run

/-!
# The metering database as a system

Three kinds of transaction run against the tables: calls of `ingest`, calls of `closeHostLoss`, and the
transactions of the rest of the control plane, which write hosts and machines but none of the metering
tables.  Of the last nothing is assumed but the constraints of the schema: a machine row that a meter
state references keeps its host, its host machine id and its lease, and a lease id belongs to one
machine.

`Books` are the facts about the metering tables that hold in every state this system reaches from empty
metering tables (`books_run`): observation ids are unique, a raw event belongs to a stored observation
that the cursor of its meter has passed, a quarantined meter has a reason.
-/

namespace Nehemiah.Billing

open Nehemiah.Lib

/-! ### Transactions -/

inductive MeteringAct
  | ingest (call : IngestCall)
  | closeHostLoss (now : ℤ) (machineId leaseId : String)
  | other (hosts : String → Option HostRow) (machines : String → Option MachineRow)

/-- The constraints of the schema that tie the metering tables to `machines`. -/
structure Schema (t : Tables) : Prop where
  /-- The foreign key of `machine_meter_state`. -/
  state_ref : ∀ id s, t.meterStates id = some s → ∃ m, t.machines id = some m ∧
    m.hostId = some s.hostId ∧ m.hostMachineId = some s.hostMachineId ∧ m.leaseId = s.leaseId ∧
    m.leaseGeneration = s.leaseGeneration
  /-- `machines.lease_id` is unique. -/
  lease_unique : ∀ id id' m m', t.machines id = some m → t.machines id' = some m' →
    m.leaseId = m'.leaseId → id = id'

inductive MeteringStep (metering : AuthoritativeMetering) : Db → MeteringAct → Db → Prop
  | ingest (db : Db) (call : IngestCall) :
      MeteringStep metering db (.ingest call) (commit db (ingest metering db call))
  | closeHostLoss (db : Db) (now : ℤ) (machineId leaseId : String) :
      MeteringStep metering db (.closeHostLoss now machineId leaseId)
        (closeHostLoss db now machineId leaseId).1
  | other (db : Db) (hosts : String → Option HostRow) (machines : String → Option MachineRow)
      (h : Schema { db.tables with hosts := hosts, machines := machines }) :
      MeteringStep metering db (.other hosts machines)
        { db with hosts := hosts, machines := machines }

/-- No observation has been ingested yet. -/
structure MeteringEmpty (t : Tables) : Prop where
  meterStates : t.meterStates = fun _ => none
  observations : t.observations = []
  rawEvents : t.rawEvents = []
  startRecords : t.startRecords = fun _ => none

/-! ### Host loss -/

/-- `closeHostLoss` closes the meter of its machine and moves the usage columns, nothing else. -/
theorem closeHostLoss_tables (db : Db) (now : ℤ) (machineId leaseId : String) :
    ∃ machines meterStates,
      (closeHostLoss db now machineId leaseId).1.tables =
        { db.tables with machines := machines, meterStates := meterStates } ∧
      MachinesKept db.machines machines ∧
      (meterStates = db.meterStates ∨ ∃ s, db.meterStates machineId = some s ∧
        meterStates = Function.update db.meterStates machineId (some (s.lossClosed now))) := by
  unfold closeHostLoss
  split
  · next machine state hm hs =>
    split_ifs with hlease hstart
    · exact ⟨_, _, rfl, .refl _, Or.inl rfl⟩
    · exact ⟨_, _, exception_tables _ _, .refl _, Or.inl rfl⟩
    · have hclose : (closeMeter db now machineId leaseId machine state).tables =
          { db.tables with
            meterStates := (closeMeter db now machineId leaseId machine state).meterStates } := by
        unfold closeMeter
        split_ifs
        · rfl
        · rw [updateState_tables, exception_tables]
          rfl
      have hmach : (closeMeter db now machineId leaseId machine state).machines = db.machines :=
        congrArg Tables.machines hclose
      refine ⟨_, _, by rw [updateMachine_tables, hclose], ?_, ?_⟩
      · rw [hmach]
        refine machinesKept_update _ _ _ fun m => ?_
        split_ifs
        · exact m.sameLease_usage _ _
        · exact .refl m
      · have hx : ∀ e, (exception db e).meterStates = db.meterStates :=
          fun e => congrArg Tables.meterStates (exception_tables db e)
        unfold closeMeter
        split_ifs
        · exact Or.inl rfl
        · simp only [updateState, hx, hs, Option.map_some]
          split_ifs
          · exact Or.inr ⟨state, rfl, rfl⟩
          · refine Or.inl ?_
            rw [← hs, Function.update_eq_self]
  · exact ⟨_, _, rfl, .refl _, Or.inl rfl⟩

/-! ### The books -/

structure Books (t : Tables) : Prop extends Schema t where
  id_lt : ∀ o ∈ t.observations, o.id < t.nextObservationId
  id_nodup : (t.observations.map (·.id)).Nodup
  quarantine_reason : ∀ id s, t.meterStates id = some s → s.quarantinedAt.isSome →
    s.quarantineReason.isSome
  observation_ref : ∀ o ∈ t.observations, ∃ s, t.meterStates o.machineId = some s ∧
    s.leaseId = o.leaseId ∧ s.leaseGeneration = o.leaseGeneration
  event_ref : ∀ r ∈ t.rawEvents, r.eventKey.observationId = r.observationId ∧
    ∃ o ∈ t.observations, o.id = r.observationId ∧ o.machineId = r.machineId ∧
      ∃ s, t.meterStates r.machineId = some s ∧ s.leaseId = r.leaseId ∧ o.sequence ≤ s.lastSequence

variable {t : Tables} {db : Db} {identity : MachineIdentity} {state : MeterState} {o : StoredObservation}
    {metering : AuthoritativeMetering}

theorem Schema.kept {t' : Tables} (h : Schema t) (hk : MachinesKept t.machines t'.machines)
    (hstate : ∀ id s', t'.meterStates id = some s' → ∃ s, t.meterStates id = some s ∧
      s'.hostId = s.hostId ∧ s'.hostMachineId = s.hostMachineId ∧ s'.leaseId = s.leaseId ∧
      s'.leaseGeneration = s.leaseGeneration) :
    Schema t' where
  state_ref id s' hs' := by
    obtain ⟨s, hs, h1, h2, h3, h4⟩ := hstate id s' hs'
    obtain ⟨m, hm, e1, e2, e3, e4⟩ := h.state_ref id s hs
    obtain ⟨m', hm', hl⟩ := hk.row hm
    exact ⟨m', hm', by rw [hl.hostId, e1, h1], by rw [hl.hostMachineId, e2, h2],
      by rw [hl.leaseId, e3, h3], by rw [hl.leaseGeneration, e4, h4]⟩
  lease_unique id id' m m' hm hm' hl := by
    obtain ⟨m₁, hm₁, h₁⟩ := hk.row_back hm
    obtain ⟨m₂, hm₂, h₂⟩ := hk.row_back hm'
    exact h.lease_unique id id' m₁ m₂ hm₁ hm₂ (by rw [← h₁.leaseId, ← h₂.leaseId, hl])

/-- The observation that the cursor of a meter is about to reach. -/
theorem nextPending_spec (h : nextPending db identity state = some o) :
    o ∈ db.observations ∧ o.machineId = identity.id ∧
      o.leaseGeneration = identity.leaseGeneration ∧ o.hostBootId = state.hostBootId ∧
      o.sequence = state.lastSequence + 1 := by
  have hp := List.find?_some h
  simp only [Bool.and_eq_true, beq_iff_eq] at hp
  exact ⟨List.mem_of_find?_eq_some h, hp.1.1.1, hp.1.1.2, hp.1.2, hp.2⟩

/-- The next pending observation has no raw events yet. -/
theorem Books.fresh (h : Books db.tables) (hs : db.meterStates identity.id = some state)
    (ho : nextPending db identity state = some o) :
    ∀ r ∈ db.rawEvents, r.observationId ≠ o.id ∧ r.eventKey.observationId ≠ o.id := by
  intro r hr
  obtain ⟨hkey, o', ho', hid, hmach, s, hs', _, hseq⟩ := h.event_ref r hr
  obtain ⟨hmem, hom, _, _, hnext⟩ := nextPending_spec ho
  have hne : r.observationId ≠ o.id := by
    intro heq
    -- the observation of `r` would be `o` itself, whose sequence the cursor has not reached
    have hsame : o' = o := List.inj_on_of_nodup_map h.id_nodup ho' hmem (hid.trans heq)
    rw [hsame] at hmach hseq
    rw [← hmach, hom, tables_meterStates, hs] at hs'
    cases hs'
    omega
  exact ⟨hne, by rw [hkey]; exact hne⟩

/-- A meter row that only ever moves its cursor forward keeps the events behind the cursor. -/
theorem Books.event_ref_update (h : Books t) {id : String} {s s' : MeterState} (hs : t.meterStates id = some s)
    (hl : s'.leaseId = s.leaseId) (hc : s.lastSequence ≤ s'.lastSequence) (r : RawUsageEvent) (hr : r ∈ t.rawEvents) :
    r.eventKey.observationId = r.observationId ∧
      ∃ o ∈ t.observations, o.id = r.observationId ∧ o.machineId = r.machineId ∧
        ∃ u, Function.update t.meterStates id (some s') r.machineId = some u ∧
          u.leaseId = r.leaseId ∧ o.sequence ≤ u.lastSequence := by
  obtain ⟨hkey, o, ho, hid, hm, u, hu, hul, hseq⟩ := h.event_ref r hr
  refine ⟨hkey, o, ho, hid, hm, ?_⟩
  by_cases hx : r.machineId = id
  · rw [hx] at hu ⊢
    rw [hs] at hu
    cases hu
    exact ⟨s', Function.update_self .., by rw [hl, hul], by omega⟩
  · exact ⟨u, by rw [Function.update_of_ne hx, hu], hul, hseq⟩

/-- Changing one meter row within its lease. -/
theorem Books.updateState (h : Books t) {id : String} {s : MeterState} (s' : MeterState)
    (hs : t.meterStates id = some s) (hh : s'.hostId = s.hostId) (hm : s'.hostMachineId = s.hostMachineId)
    (hl : s'.leaseId = s.leaseId) (hg : s'.leaseGeneration = s.leaseGeneration) (hc : s.lastSequence ≤ s'.lastSequence)
    (hq : s'.quarantinedAt.isSome → s'.quarantineReason.isSome) (machines : String → Option MachineRow)
    (hk : MachinesKept t.machines machines) (hosts : String → Option HostRow)
    (startRecords : String → Option StartRecord) :
    Books { t with
      hosts := hosts
      machines := machines
      meterStates := Function.update t.meterStates id (some s')
      startRecords := startRecords } where
  toSchema := by
    refine h.toSchema.kept hk ?_
    intro x u hu
    dsimp only at hu
    by_cases hx : x = id
    · subst hx
      rw [Function.update_self] at hu
      cases hu
      exact ⟨s, hs, hh, hm, hl, hg⟩
    · rw [Function.update_of_ne hx] at hu
      exact ⟨u, hu, rfl, rfl, rfl, rfl⟩
  id_lt := h.id_lt
  id_nodup := h.id_nodup
  quarantine_reason x u hu := by
    dsimp only at hu
    by_cases hx : x = id
    · subst hx
      rw [Function.update_self] at hu
      cases hu
      exact hq
    · rw [Function.update_of_ne hx] at hu
      exact h.quarantine_reason x u hu
  observation_ref o ho := by
    obtain ⟨u, hu, hul, hug⟩ := h.observation_ref o ho
    by_cases hx : o.machineId = id
    · rw [hx] at hu ⊢
      rw [hs] at hu
      cases hu
      exact ⟨s', Function.update_self .., by rw [hl, hul], by rw [hg, hug]⟩
    · exact ⟨u, (Function.update_of_ne hx _ _).trans hu, hul, hug⟩
  event_ref := h.event_ref_update hs hl hc

/-- New raw events of an observation behind the cursor. -/
theorem Books.appendEvents (h : Books t) (es : List RawUsageEvent)
    (hes : ∀ e ∈ es, e.eventKey.observationId = e.observationId ∧
      ∃ o ∈ t.observations, o.id = e.observationId ∧ o.machineId = e.machineId ∧
        ∃ s, t.meterStates e.machineId = some s ∧ s.leaseId = e.leaseId ∧
          o.sequence ≤ s.lastSequence) : Books { t with rawEvents := t.rawEvents ++ es } :=
  { h with
    event_ref := by
      intro r hr
      rcases List.mem_append.mp hr with hr | hr
      · exact h.event_ref r hr
      · exact hes r hr }

/-- The columns of the meter state that projecting usage leaves alone, and the ones it moves. -/
theorem used_fields (s : MeterState) (now : ℤ) (o : StoredObservation) (ps : ℤ) :
    (s.used now o ps).hostId = s.hostId ∧ (s.used now o ps).hostMachineId = s.hostMachineId ∧
      (s.used now o ps).leaseId = s.leaseId ∧ (s.used now o ps).leaseGeneration = s.leaseGeneration ∧
      (s.used now o ps).lastSequence = o.sequence ∧ (s.used now o ps).startSeen = s.startSeen ∧
      (s.used now o ps).projectedRuntimeNs = max o.runtimeNs s.projectedRuntimeNs ∧
      (s.used now o ps).lastEgressBytes = o.egressBytes := by
  unfold MeterState.used
  split_ifs <;> simp [MeterState.quarantine, MeterState.advanced]

theorem used_quarantine (s : MeterState) (now : ℤ) (o : StoredObservation) (ps : ℤ)
    (h : s.quarantinedAt.isSome → s.quarantineReason.isSome) :
    (s.used now o ps).quarantinedAt.isSome → (s.used now o ps).quarantineReason.isSome := by
  unfold MeterState.used
  split_ifs
  · intro _
    rfl
  · exact h

/-- A call of `processObservation` on the next pending observation keeps the books. -/
theorem books_process {db' : Db} {now : ℤ} {v : Verdict} (hsel : Selected db.tables identity)
    (hs : db.meterStates identity.id = some state) (ho : nextPending db identity state = some o)
    (hp : processObservation db now identity state o = .ok (db', v)) (h : Books db.tables) :
    Books db'.tables := by
  obtain ⟨hmem, hom, _, _, hseq⟩ := nextPending_spec ho
  cases processObservation_processed hp with
  | rejected anomaly ha =>
    rw [rejectObservation_tables db now identity state o anomaly hs]
    exact h.updateState (state.rejected now o anomaly) hs rfl rfl rfl rfl
      (by show state.lastSequence ≤ o.sequence; omega) (fun _ => rfl) db.machines
      (.refl _) db.hosts db.startRecords
  | started _ ha hk hstart =>
    rw [processStart_tables hs hstart]
    have hc := closeLegacyPrefix_tables db identity o.observedAt
    have hkept := closeLegacyPrefix_kept db identity o.observedAt
    have := h.updateState (state.started identity o) hs rfl rfl rfl rfl
      (by show state.lastSequence ≤ o.sequence; omega) (h.quarantine_reason _ state hs) _ hkept
      db.hosts
      (Function.update db.startRecords identity.id
          (some ⟨legacyCoveredRuntime identity o, o.egressBytes⟩))
    rw [← tables_machines, hc] at this
    rw [hc]
    exact this
  | used ps _ _ ha hk hps hused =>
    obtain ⟨db₁, hok, ht⟩ := processUsage_ok db now identity state o ps hs (h.fresh hs ho)
    rw [hused] at hok
    cases hok
    obtain ⟨e1, e2, e3, e4, e5, _⟩ := used_fields state now o ps
    have hmoved := h.updateState (state.used now o ps) hs e1 e2 e3 e4
      (by rw [e5]; omega) (used_quarantine state now o ps (h.quarantine_reason _ _ hs)) _
      (usedMachines_kept db.machines now identity state o ps) db.hosts db.startRecords
    have := hmoved.appendEvents (stored (projections identity state o ps)) (by
      intro e he
      obtain ⟨h1, h2, h3, h4, _⟩ := projections_mem identity state o ps e (List.mem_filter.mp he).1
      refine ⟨h2.trans h1.symm, o, hmem, h1.symm, hom.trans h3.symm, state.used now o ps, ?_, ?_, ?_⟩
      · rw [h3]
        exact Function.update_self ..
      · obtain ⟨m, hm, hd⟩ := hsel
        obtain ⟨m', hm', _, _, hl, _⟩ := h.state_ref identity.id state hs
        rw [hm] at hm'
        cases hm'
        rw [e3, h4, ← hl, hd.leaseId]
      · rw [e5])
    rw [ht]
    exact this

/-- **The books are an invariant of ingestion.** -/
theorem books_invariant : StatementInvariant Books where
  hosts t hosts h := { h with }
  skipId t h :=
    { h with id_lt := fun o ho => Nat.lt_succ_of_lt (h.id_lt o ho) }
  insertState t hostId a identity hsel hnone h := by
    have hno : ∀ r ∈ t.rawEvents, r.machineId ≠ identity.id := by
      intro r hr hx
      obtain ⟨_, _, _, _, _, s, hs, _⟩ := h.event_ref r hr
      rw [hx, hnone] at hs
      cases hs
    refine { h with
      state_ref := ?_, quarantine_reason := ?_, observation_ref := ?_, event_ref := ?_ }
    · intro id s hs
      dsimp only at hs
      by_cases hx : id = identity.id
      · subst hx
        rw [Function.update_self] at hs
        cases hs
        obtain ⟨m, hm, hd⟩ := hsel.selected
        exact ⟨m, hm, hd.hostId, hd.hostMachineId, hd.leaseId, hd.leaseGeneration⟩
      · rw [Function.update_of_ne hx] at hs
        exact h.state_ref id s hs
    · intro id s hs
      dsimp only at hs
      by_cases hx : id = identity.id
      · subst hx
        rw [Function.update_self] at hs
        cases hs
        intro hq
        cases hq
      · rw [Function.update_of_ne hx] at hs
        exact h.quarantine_reason id s hs
    · intro o ho
      obtain ⟨s, hs, hl⟩ := h.observation_ref o ho
      have hx : o.machineId ≠ identity.id := by
        intro hx
        rw [hx, hnone] at hs
        cases hs
      exact ⟨s, (Function.update_of_ne hx _ _).trans hs, hl⟩
    · intro r hr
      obtain ⟨hkey, o, ho, hid, hm, s, hs, hl⟩ := h.event_ref r hr
      exact ⟨hkey, o, ho, hid, hm, s, (Function.update_of_ne (hno r hr) _ _).trans hs, hl⟩
  quarantine t now id s reason hs h :=
    h.updateState (s.quarantine now reason) hs rfl rfl rfl rfl (le_refl _) (fun _ => rfl)
      t.machines (.refl _) t.hosts t.startRecords
  insertObservation t hostId a identity hsel hs hnone h := by
    refine { h with id_lt := ?_, id_nodup := ?_, observation_ref := ?_, event_ref := ?_ }
    · intro o ho
      rcases List.mem_append.mp ho with ho | ho
      · exact Nat.lt_succ_of_lt (h.id_lt o ho)
      · rw [List.mem_singleton.mp ho]
        exact Nat.lt_succ_self _
    · dsimp only
      rw [List.map_append, List.nodup_append]
      refine ⟨h.id_nodup, List.nodup_singleton _, ?_⟩
      intro x hx y hy
      obtain ⟨o, ho, rfl⟩ := List.mem_map.mp hx
      rw [List.mem_singleton.mp hy]
      exact Nat.ne_of_lt (h.id_lt o ho)
    · intro o ho
      rcases List.mem_append.mp ho with ho | ho
      · exact h.observation_ref o ho
      · rw [List.mem_singleton.mp ho]
        obtain ⟨s, hs'⟩ := Option.isSome_iff_exists.mp hs
        obtain ⟨m, hm, _, _, hl, hg⟩ := h.state_ref identity.id s hs'
        obtain ⟨m', hm', hd⟩ := hsel.selected
        rw [hm] at hm'
        cases hm'
        refine ⟨s, ?_, ?_, ?_⟩
        · rw [← hs', hsel.id]
          rfl
        · rw [← hl, hd.leaseId, hsel.leaseId]
          rfl
        · rw [← hg, hd.leaseGeneration, hsel.leaseGeneration]
          rfl
    · intro r hr
      obtain ⟨hkey, o, ho, rest⟩ := h.event_ref r hr
      exact ⟨hkey, o, List.mem_append_left _ ho, rest⟩
  process db db' now identity state o v hsel hs ho hp h := books_process hsel hs ho hp h

theorem books_empty (h : MeteringEmpty t)
    (hl : ∀ id id' m m', t.machines id = some m →
    t.machines id' = some m' → m.leaseId = m'.leaseId → id = id') :
    Books t where
  state_ref id s hs := by
    rw [h.meterStates] at hs
    cases hs
  lease_unique := hl
  id_lt o ho := by
    rw [h.observations] at ho
    cases ho
  id_nodup := by
    rw [h.observations]
    exact List.nodup_nil
  quarantine_reason id s hs := by
    rw [h.meterStates] at hs
    cases hs
  observation_ref o ho := by
    rw [h.observations] at ho
    cases ho
  event_ref r hr := by
    rw [h.rawEvents] at hr
    cases hr

theorem commit_invariant {I : Tables → Prop} (inv : StatementInvariant I)
    (metering : AuthoritativeMetering) (db : Db) (call : IngestCall) (h : I db.tables) :
    I (commit db (ingest metering db call)).tables := by
  cases hr : ingest metering db call with
  | error e => exact h
  | ok r => exact ingest_invariant inv hr h

theorem books_step {db' : Db} {a : MeteringAct} (hstep : MeteringStep metering db a db') (h : Books db.tables) :
    Books db'.tables := by
  cases hstep with
  | ingest call => exact commit_invariant books_invariant metering db call h
  | closeHostLoss now machineId leaseId =>
    obtain ⟨machines, states, ht, hkept, hstates⟩ := closeHostLoss_tables db now machineId leaseId
    rw [ht]
    rcases hstates with rfl | ⟨s, hs, rfl⟩
    · refine { h with toSchema := h.toSchema.kept hkept ?_ }
      exact fun id s hs => ⟨s, hs, rfl, rfl, rfl, rfl⟩
    · exact h.updateState (s.lossClosed now) hs rfl rfl rfl rfl (le_refl _)
        (h.quarantine_reason _ s hs) machines hkept db.hosts db.startRecords
  | other hosts machines hschema => exact { h with toSchema := hschema }

/-- **The books hold in every state the system reaches.** -/
theorem books_run {db' : Db} {acts : List MeteringAct} (hrun : Run (MeteringStep metering) db acts db')
    (h : Books db.tables) : Books db'.tables :=
  hrun.invariant (I := fun db => Books db.tables) (fun _ _ _ h hs => books_step hs h) h

end Nehemiah.Billing
