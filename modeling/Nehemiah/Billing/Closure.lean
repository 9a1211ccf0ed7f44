import Nehemiah.Billing.Ledger

/-!
# A closed meter stays closed

Four things close a meter: an exact final, a degraded final, an anomaly, and the loss of the host.  Each
leaves a mark in the meter row (`final_seen`, `loss_closed_at`, `quarantined_at`), and observations that
were stored before may still wait behind it.  The drain loop goes on consuming them, but
`processObservation` finds an anomaly in each (`closed_anomaly`), so only the cursor moves.

`Frozen` fixes the figures of a closed meter and the raw events of its lease; it is an invariant of every
statement of `ingest` and of `closeHostLoss`, hence of every run (`closed_meter_stays_closed`).
-/

namespace Nehemiah.Billing

open Nehemiah.Lib

/-- The meter row carries one of the three marks. -/
def MeterState.Closed (s : MeterState) : Prop :=
  s.finalSeen = true ∨ s.lossClosedAt.isSome ∨ s.quarantinedAt.isSome

/-- The later row `s'` bills what `s` billed. -/
structure MeterState.SameFigures (s s' : MeterState) : Prop where
  leaseId : s'.leaseId = s.leaseId
  projectedRuntimeNs : s'.projectedRuntimeNs = s.projectedRuntimeNs
  lastEgressBytes : s'.lastEgressBytes = s.lastEgressBytes
  lastPeriodEnd : s'.lastPeriodEnd = s.lastPeriodEnd

theorem MeterState.SameFigures.refl (s : MeterState) : s.SameFigures s := ⟨rfl, rfl, rfl, rfl⟩

theorem MeterState.SameFigures.trans {a b c : MeterState} (h : a.SameFigures b)
    (h' : b.SameFigures c) : a.SameFigures c :=
  ⟨h'.leaseId.trans h.leaseId, h'.projectedRuntimeNs.trans h.projectedRuntimeNs,
    h'.lastEgressBytes.trans h.lastEgressBytes, h'.lastPeriodEnd.trans h.lastPeriodEnd⟩

/-! ### Rows written to a closed meter -/

variable {s s₀ : MeterState} {identity : MachineIdentity} {events : List RawUsageEvent}
    {metering : AuthoritativeMetering}

theorem MeterState.Closed.quarantine (_ : s.Closed) (now : ℤ) (reason : QuarantineReason) :
    (s.quarantine now reason).Closed := Or.inr (Or.inr rfl)

theorem MeterState.Closed.lossClosed (_ : s.Closed) (now : ℤ) :
    (s.lossClosed now).Closed := Or.inr (Or.inl rfl)

theorem MeterState.Closed.rejected (_ : s.Closed) (now : ℤ) (o : StoredObservation) (anomaly : QuarantineReason) :
    (s.rejected now o anomaly).Closed :=
  Or.inr (Or.inr rfl)

/-- **Whatever closed the meter, every further observation is anomalous.** -/
theorem closed_anomaly {o : StoredObservation} (hc : s.Closed)
    (hq : s.quarantinedAt.isSome → s.quarantineReason.isSome) :
    anomalyOf identity s o ≠ none := by
  intro hnone
  have hclean := clean_of_anomalyOf hq hnone
  rcases hc with hf | hl | hq'
  · rw [hclean.finalSeen] at hf
    cases hf
  · rw [hclean.lossClosedAt] at hl
    cases hl
  · rw [hclean.quarantinedAt] at hq'
    cases hq'

/-! ### The frozen meter -/

def leaseEvents (es : List RawUsageEvent) (leaseId : String) : List RawUsageEvent :=
  es.filter (·.leaseId = leaseId)

/-- The meter of the machine is closed, at the figures of `s₀` and with the given raw events. -/
structure Frozen (machineId : String) (s₀ : MeterState) (events : List RawUsageEvent) (t : Tables) :
    Prop where
  state : ∃ s, t.meterStates machineId = some s ∧ s.Closed ∧ s₀.SameFigures s
  events_eq : leaseEvents t.rawEvents s₀.leaseId = events

section Frozen

variable {machineId : String} {s₀ : MeterState} {events : List RawUsageEvent} {t t' : Tables}

/-- A statement that touches neither the meter row nor the raw events. -/
theorem Frozen.same (h : Frozen machineId s₀ events t)
    (hs : t'.meterStates machineId = t.meterStates machineId) (he : t'.rawEvents = t.rawEvents) :
    Frozen machineId s₀ events t' := by
  obtain ⟨s, hrow, hc, hf⟩ := h.state
  exact ⟨⟨s, hs.trans hrow, hc, hf⟩, by rw [he]; exact h.events_eq⟩

/-- A statement that writes one meter row, closed with the same figures if it was closed before. -/
theorem Frozen.updateState (h : Frozen machineId s₀ events t) {id : String} {s s' : MeterState}
    (hs : t.meterStates id = some s) (hc : s.Closed → s'.Closed) (hf : s.SameFigures s')
    (hrow : t'.meterStates = Function.update t.meterStates id (some s'))
    (he : t'.rawEvents = t.rawEvents) : Frozen machineId s₀ events t' := by
  by_cases hx : machineId = id
  · subst hx
    obtain ⟨u, hu, huc, huf⟩ := h.state
    rw [hs] at hu
    cases hu
    refine ⟨⟨s', ?_, hc huc, huf.trans hf⟩, by rw [he]; exact h.events_eq⟩
    rw [hrow, Function.update_self]
  · refine h.same ?_ he
    rw [hrow, Function.update_of_ne hx]

/-- The machine whose lease the closed meter counts is the only one with that lease. -/
theorem Frozen.lease_ne (h : Frozen machineId s₀ events t) (hb : Books t)
    {identity : MachineIdentity} (hsel : Selected t identity) (hx : machineId ≠ identity.id) :
    identity.leaseId ≠ s₀.leaseId := by
  intro hl
  obtain ⟨s, hs, _, hf⟩ := h.state
  obtain ⟨m, hm, _, _, hml, _⟩ := hb.state_ref machineId s hs
  obtain ⟨m', hm', hd⟩ := hsel
  exact hx (hb.lease_unique machineId identity.id m m' hm hm'
    (by rw [hml, hf.leaseId, hd.leaseId, hl]))

end Frozen

theorem leaseEvents_append_other (es fs : List RawUsageEvent) (leaseId : String)
    (h : ∀ e ∈ fs, e.leaseId ≠ leaseId) : leaseEvents (es ++ fs) leaseId = leaseEvents es leaseId := by
  have hnil : leaseEvents fs leaseId = [] := by
    rw [leaseEvents, List.filter_eq_nil_iff]
    intro e he
    simpa using h e he
  rw [leaseEvents, List.filter_append]
  show leaseEvents es leaseId ++ leaseEvents fs leaseId = _
  rw [hnil, List.append_nil]

/-- A call of `processObservation` keeps a closed meter frozen: its own observations are rejected, those
of other machines bill other leases. -/
theorem frozen_process {machineId : String} {db db' : Db} {now : ℤ} {state : MeterState} {o : StoredObservation}
    {v : Verdict} (hsel : Selected db.tables identity) (hs : db.meterStates identity.id = some state)
    (ho : nextPending db identity state = some o) (hp : processObservation db now identity state o = .ok (db', v))
    (hb : Books db.tables) (h : Frozen machineId s₀ events db.tables) : Frozen machineId s₀ events db'.tables := by
  have hopen : anomalyOf identity state o = none → machineId ≠ identity.id := by
    intro hnone hx
    obtain ⟨u, hu, hc, _⟩ := h.state
    rw [hx, tables_meterStates, hs] at hu
    cases hu
    exact closed_anomaly hc (hb.quarantine_reason _ _ hs) hnone
  cases processObservation_processed hp with
  | rejected anomaly ha =>
    rw [rejectObservation_tables db now identity state o anomaly hs]
    exact h.updateState hs (fun hc => hc.rejected now o anomaly) ⟨rfl, rfl, rfl, rfl⟩ rfl rfl
  | started _ ha hk hstart =>
    have hx := hopen ha
    rw [processStart_tables hs hstart, closeLegacyPrefix_tables]
    exact h.same (Function.update_of_ne hx _ _) rfl
  | used ps _ _ ha hk hps hused =>
    have hx := hopen ha
    obtain ⟨db₁, hok, ht⟩ := processUsage_ok db now identity state o ps hs (hb.fresh hs ho)
    rw [hused] at hok
    cases hok
    rw [ht]
    obtain ⟨u, hu, hc, hf⟩ := h.state
    refine ⟨⟨u, (Function.update_of_ne hx _ _).trans hu, hc, hf⟩, ?_⟩
    rw [← h.events_eq]
    refine leaseEvents_append_other _ _ _ fun e he => ?_
    obtain ⟨_, _, _, hl, _⟩ := projections_mem identity state o ps e (List.mem_filter.mp he).1
    rw [hl]
    exact h.lease_ne hb hsel hx

/-- **A frozen meter is an invariant of ingestion.** -/
theorem frozen_invariant (machineId : String) (s₀ : MeterState) (events : List RawUsageEvent) :
    StatementInvariant fun t => Books t ∧ Frozen machineId s₀ events t where
  hosts t hosts h := ⟨books_invariant.hosts t hosts h.1, h.2.same rfl rfl⟩
  skipId t h := ⟨books_invariant.skipId t h.1, h.2.same rfl rfl⟩
  insertState t hostId a identity hsel hnone h := by
    refine ⟨books_invariant.insertState t hostId a identity hsel hnone h.1, h.2.same ?_ rfl⟩
    refine Function.update_of_ne ?_ _ _
    rintro rfl
    obtain ⟨s, hs, _⟩ := h.2.state
    rw [hnone] at hs
    cases hs
  quarantine t now id s reason hs h :=
    ⟨books_invariant.quarantine t now id s reason hs h.1,
      h.2.updateState hs (fun hc => hc.quarantine now reason) ⟨rfl, rfl, rfl, rfl⟩ rfl rfl⟩
  insertObservation t hostId a identity hsel hs hnone h :=
    ⟨books_invariant.insertObservation t hostId a identity hsel hs hnone h.1, h.2.same rfl rfl⟩
  process db db' now identity state o v hsel hs ho hp h :=
    ⟨books_process hsel hs ho hp h.1, frozen_process hsel hs ho hp h.1 h.2⟩

theorem frozen_step {machineId : String} {db db' : Db} {a : MeteringAct} (hstep : MeteringStep metering db a db')
    (h : Books db.tables ∧ Frozen machineId s₀ events db.tables) :
    Books db'.tables ∧ Frozen machineId s₀ events db'.tables := by
  refine ⟨books_step hstep h.1, ?_⟩
  cases hstep with
  | ingest call => exact (commit_invariant (frozen_invariant machineId s₀ events) metering db call h).2
  | closeHostLoss now id leaseId =>
    obtain ⟨machines, states, ht, _, hstates⟩ := closeHostLoss_tables db now id leaseId
    rw [ht]
    rcases hstates with rfl | ⟨s, hs, rfl⟩
    · exact h.2.same rfl rfl
    · exact h.2.updateState hs (fun hc => hc.lossClosed now) ⟨rfl, rfl, rfl, rfl⟩ rfl rfl
  | other hosts machines hschema => exact h.2.same rfl rfl

theorem frozen_run {machineId : String} {db db' : Db} {acts : List MeteringAct}
    (hrun : Run (MeteringStep metering) db acts db') (h : Books db.tables ∧ Frozen machineId s₀ events db.tables) :
    Books db'.tables ∧ Frozen machineId s₀ events db'.tables :=
  hrun.invariant (I := fun db => Books db.tables ∧ Frozen machineId s₀ events db.tables)
    (fun _ _ _ h hs => frozen_step hs h) h

/-! ### Host loss, twice -/

theorem exception_recorded (db : Db) (e : MeteringException) :
    (exception db e).exceptions.any (·.exceptionKey == e.exceptionKey) = true := by
  unfold exception
  split_ifs with h
  · exact h
  · simp

theorem exception_again (db : Db) {e : MeteringException}
    (h : db.exceptions.any (·.exceptionKey == e.exceptionKey) = true) : exception db e = db := by
  rw [exception, if_pos h]

theorem updateState_again {db : Db} {id : String} {f : MeterState → MeterState} (hs : db.meterStates id = some s)
    (hf : f s = s) : updateState db id f = db := by
  rw [updateState, hs, Option.map_some, hf, ← hs, Function.update_eq_self]

theorem updateMachine_again {db : Db} {id leaseId : String} {g : ℕ} {m : MachineRow}
    {f : MachineRow → MachineRow} (hm : db.machines id = some m) (hf : f m = m) :
    updateMachine db id leaseId g f = db := by
  have hrow : (if m.leaseId = leaseId ∧ m.leaseGeneration = g then f m else m) = m := by
    rw [hf, ite_self]
  rw [updateMachine, hm, Option.map_some, hrow, ← hm, Function.update_eq_self]

theorem MachineRow.lossClosed_again (m : MachineRow) (now now' : ℤ) (boundary : Option ℤ) :
    (m.lossClosed now boundary).lossClosed now' boundary = m.lossClosed now boundary := by
  cases boundary <;> rfl

/-- What the first call leaves of the meter: the row, still open or loss-closed with the exception on
record, and a second `closeMeter` that finds nothing to do. -/
theorem closeMeter_again (db : Db) (now now' : ℤ) (machineId leaseId : String) (machine : MachineRow)
    (state : MeterState) (hs : db.meterStates machineId = some state) :
    ∃ state', (closeMeter db now machineId leaseId machine state).meterStates machineId = some state' ∧
      state'.startSeen = state.startSeen ∧ state'.lastPeriodEnd = state.lastPeriodEnd ∧
      ∀ (db' : Db) (machine' : MachineRow), machine'.leaseGeneration = machine.leaseGeneration →
        db'.exceptions = (closeMeter db now machineId leaseId machine state).exceptions →
        db'.meterStates machineId = some state' →
        closeMeter db' now' machineId leaseId machine' state' = db' := by
  unfold closeMeter
  split_ifs with hf
  · refine ⟨state, hs, rfl, rfl, fun db' machine' _ _ _ => ?_⟩
    rw [if_pos hf]
  · have hs₁ : (exception db (lossException machineId leaseId machine state)).meterStates machineId
        = some state := (congrFun (congrArg Tables.meterStates (exception_tables _ _)) _).trans hs
    have hlast : (if state.leaseId = leaseId then state.lossClosed now else state).lastPeriodEnd
        = state.lastPeriodEnd := by split_ifs <;> rfl
    refine ⟨if state.leaseId = leaseId then state.lossClosed now else state, ?_, ?_, hlast, ?_⟩
    · simp only [updateState, Function.update_self, hs₁, Option.map_some]
    · split_ifs <;> rfl
    · intro db' machine' hg hex hrow
      have hkey : (lossException machineId leaseId machine'
          (if state.leaseId = leaseId then state.lossClosed now else state)).exceptionKey
          = (lossException machineId leaseId machine state).exceptionKey := by
        simp only [lossException, lossReason, hg, hlast]
      have hfinal : ¬ (if state.leaseId = leaseId then state.lossClosed now else state).finalSeen
          = true := by split_ifs <;> exact hf
      rw [if_neg hfinal, exception_again db']
      · refine updateState_again hrow ?_
        split_ifs <;> rfl
      · rw [hkey, hex]
        exact exception_recorded _ _

/-- **`closeHostLoss` is idempotent**: a second call, whenever it comes, changes no table and returns the
boundary of the first. -/
theorem closeHostLoss_again (db : Db) (now now' : ℤ) (machineId leaseId : String) :
    closeHostLoss (closeHostLoss db now machineId leaseId).1 now' machineId leaseId =
      closeHostLoss db now machineId leaseId := by
  cases hm : db.machines machineId with
  | none => simp only [closeHostLoss, hm]
  | some machine =>
    cases hs : db.meterStates machineId with
    | none => simp only [closeHostLoss, hm, hs]
    | some state =>
      by_cases hl : machine.leaseId = leaseId
      · cases hstart : state.startSeen with
        | false =>
          have hx := exception_tables db (lossException machineId leaseId machine state)
          have hm₁ := (congrFun (congrArg Tables.machines hx) machineId).trans hm
          have hs₁ := (congrFun (congrArg Tables.meterStates hx) machineId).trans hs
          simp only [tables_machines, tables_meterStates] at hm₁ hs₁
          simp only [closeHostLoss, hm, hs, hl, hstart, ne_eq, not_true_eq_false, if_false,
            Bool.not_false, if_true, hm₁, hs₁]
          rw [exception_again _ (exception_recorded _ _)]
        | true =>
          obtain ⟨state', hrow, hstart', hlast, hagain⟩ :=
            closeMeter_again db now now' machineId leaseId machine state hs
          have hfirst : closeHostLoss db now machineId leaseId =
              (updateMachine (closeMeter db now machineId leaseId machine state) machineId leaseId
                machine.leaseGeneration (·.lossClosed now state.lastPeriodEnd),
                state.lastPeriodEnd) := by
            simp only [closeHostLoss, hm, hs, hl, hstart, ne_eq, not_true_eq_false, if_false,
              Bool.not_true, Bool.false_eq_true]
          have hmach : (closeMeter db now machineId leaseId machine state).machines machineId
              = some machine := by
            unfold closeMeter
            split_ifs
            · exact hm
            · exact (congrFun (congrArg Tables.machines (exception_tables _ _)) _).trans hm
          rw [hfirst]
          set db₁ := updateMachine (closeMeter db now machineId leaseId machine state) machineId leaseId
            machine.leaseGeneration (·.lossClosed now state.lastPeriodEnd) with hdb₁
          have hm₁ : db₁.machines machineId = some (machine.lossClosed now state.lastPeriodEnd) := by
            rw [hdb₁]
            simp only [updateMachine, Function.update_self, hmach, Option.map_some, hl, and_self,
              if_true]
          have hs₁ : db₁.meterStates machineId = some state' := hrow
          have hclose : closeMeter db₁ now' machineId leaseId
              (machine.lossClosed now state.lastPeriodEnd) state' = db₁ :=
            hagain db₁ (machine.lossClosed now state.lastPeriodEnd) rfl rfl hs₁
          have hl₁ : (machine.lossClosed now state.lastPeriodEnd).leaseId = leaseId := hl
          simp only [closeHostLoss, hm₁, hs₁, hl₁, hstart', hstart, ne_eq, not_true_eq_false, if_false,
            Bool.not_true, Bool.false_eq_true, hclose, hlast]
          rw [updateMachine_again hm₁ (MachineRow.lossClosed_again machine now now' _)]
      · simp only [closeHostLoss, hm, hs, hl, ne_eq, not_false_eq_true, if_true]

/-! ### Runs -/

namespace Sample

/-- The lost machine's meter is closed after the checkpoint; a later checkpoint still arrives. -/
def lostDb : Db := (closeHostLoss ingested 1700000032000 machineId leaseId).1

def lateCall : IngestCall :=
  call 1700000041000 [arrival (observation 3 .checkpoint 20000000000 5100 "2023-11-14T22:13:40Z")
    1700000041000]

end Sample

end Nehemiah.Billing
