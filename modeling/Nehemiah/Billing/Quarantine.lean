import Nehemiah.Billing.Chain
import Nehemiah.Billing.Ledger

/-!
# Anomalies and the quarantine of the host

`ingest` revokes the host when the batch entry it is working on turns out to be anomalous.  The drain loop
may judge further observations under the same entry, those that were stored earlier and waited for the
gap; the code looks at the verdict of the entry alone.  So an anomaly is caught as long as the backlog
behind a clean entry is clean (`BacklogClean`), and it is missed otherwise: the meter of the lease is
quarantined, the host is not.

* `anomaly_quarantines_host`: under the condition, every call that judges an observation anomalous
  quarantines its host.
* `single_entry_exact`: for a batch of one entry the condition is exact.
* `reordering_hides_anomaly`: a host that withholds the observation before an implausible one.
-/

namespace Nehemiah.Billing

open Nehemiah.Lib

/-- The desired state of a host. -/
def desiredState (hosts : String → Option HostRow) (hostId : String) : Option HostDesiredState :=
  (hosts hostId).map (·.desiredState)

/-- The host may still submit observations. -/
def Open (hosts : String → Option HostRow) (hostId : String) : Prop :=
  desiredState hosts hostId = some .active ∨ desiredState hosts hostId = some .draining

theorem quarantineHost_desired (db : Db) (now : ℤ) (hostId reason : String)
    (h : Open db.hosts hostId) :
    desiredState (quarantineHost db now hostId reason).hosts hostId = some .quarantined := by
  simp only [Open, desiredState, Option.map_eq_some_iff] at h
  simp only [desiredState, quarantineHost, Function.update_self]
  rcases h with ⟨r, hr, hd⟩ | ⟨r, hr, hd⟩ <;> simp [hr, hd, HostRow.quarantine]

/-! ### One entry -/

/-- Where the drain of an entry starts: the identity, the meter state, the stored observations and the
row of the entry.  `none` when the entry is refused at admission, before anything is drained. -/
def drainStart (db : Db) (hostId : String) (a : Arrival) :
    Option (MachineIdentity × MeterState × List StoredObservation × StoredObservation) :=
  match machineIdentity db hostId a with
  | none => none
  | some identity =>
    let (db, state) := ensureState db identity a.observation
    if sequenceViolation db hostId state a.observation
        ∨ (integrityViolation identity state a.observation).isSome then none
    else
      match insertObservation db hostId a with
      | .ok (db, row, duplicate) =>
        if duplicate && row.payload != a.observation then none
        else some (identity, state, db.observations, row)
      | .error _ => none

/-- **The backlog behind a clean entry is clean.**  When the entry's own observation is judged clean in
its turn, so is every observation that was stored before and follows it in sequence. -/
def backlogClean (now : ℤ) (hostId : String) (db : Db) (a : Arrival) : Bool :=
  match drainStart db hostId a with
  | none => true
  | some (identity, state, observations, row) =>
    let judged := chain now identity observations (observations.length + 1) state
    (inputVerdict row judged).2 || judged.all fun j => j.2 == .accepted

theorem exception_hosts (db : Db) (e : MeteringException) : (exception db e).hosts = db.hosts :=
  congrArg Tables.hosts (exception_tables db e)

theorem quarantineInput_desired (db : Db) (now : ℤ) (hostId : String) (identity : MachineIdentity)
    (o : HostUsageObservation) (key : ExceptionKey) (reason : QuarantineReason) (text : String)
    (h : Open db.hosts hostId) :
    desiredState (quarantineInput db now hostId identity o key reason text).hosts hostId
      = some .quarantined := by
  refine quarantineHost_desired _ now hostId text ?_
  show Open (exception db _).hosts hostId
  rw [exception_hosts]
  exact h

theorem ensureState_hosts (db : Db) (identity : MachineIdentity) (o : HostUsageObservation) :
    (ensureState db identity o).1.hosts = db.hosts := by
  unfold ensureState
  split <;> rfl

variable {identity : MachineIdentity} {o : HostUsageObservation} {a : Arrival} {row : StoredObservation} {entry : Entry}

theorem ensureState_state (db : Db) (hid : identity.id = o.machineId) :
    (ensureState db identity o).1.meterStates identity.id = some (ensureState db identity o).2 := by
  unfold ensureState
  rw [← hid]
  split
  · next s hs => exact hs
  · simp [insertState]

theorem insertObservation_hosts {db db' : Db} {hostId : String} {duplicate : Bool}
    (h : insertObservation db hostId a = .ok (db', row, duplicate)) :
    db'.hosts = db.hosts ∧ db'.meterStates = db.meterStates := by
  unfold insertObservation at h
  split_ifs at h
  split at h <;> cases h <;> exact ⟨rfl, rfl⟩

/-- The tail of a turn revokes the host exactly when the entry's own verdict says so. -/
theorem finishEntry_spec {db : Db} {now : ℤ} {hostId : String} {duplicate : Bool} {judged : List Judged}
    (h : finishEntry db now hostId identity o row duplicate judged = .ok entry) (hopen : Open db.hosts hostId) :
    entry.judged = judged ∧ entry.hostQuarantined = (inputVerdict row judged).2 ∧
      (entry.hostQuarantined = true → desiredState entry.db.hosts hostId = some .quarantined) ∧
      (entry.hostQuarantined = false → entry.db.hosts = db.hosts) := by
  simp only [finishEntry] at h
  split at h
  · cases h
  · cases h
    refine ⟨rfl, rfl, ?_, ?_⟩
    · intro hq
      dsimp only at hq
      simp only [hq, if_true]
      split_ifs
      · show desiredState (exception _ _).hosts hostId = _
        rw [exception_hosts]
        exact quarantineHost_desired db now hostId _ hopen
      · exact quarantineHost_desired db now hostId _ hopen
    · intro hq
      dsimp only at hq
      simp only [hq, if_false, Bool.false_eq_true]
      split_ifs
      · exact exception_hosts _ _
      · rfl

/-- What a turn of the batch loop does to the host: an entry that does not reach the drain revokes it, an
entry that does judges its chain and revokes the host exactly when its own verdict says so. -/
theorem ingestOne_host {db : Db} {now : ℤ} {hostId : String} (h : ingestOne db now hostId a = .ok entry)
    (hopen : Open db.hosts hostId) :
    (entry.hostQuarantined = true → desiredState entry.db.hosts hostId = some .quarantined) ∧
      (entry.hostQuarantined = false → entry.db.hosts = db.hosts) ∧
      ((drainStart db hostId a = none ∧ entry.hostQuarantined = true) ∨
        ∃ identity state observations row,
          drainStart db hostId a = some (identity, state, observations, row) ∧
          entry.judged = chain now identity observations (observations.length + 1) state ∧
          entry.hostQuarantined = (inputVerdict row entry.judged).2) := by
  simp only [ingestOne] at h
  split at h
  · cases h
  · next identity hid =>
    have hopen₁ : Open (ensureState db identity a.observation).1.hosts hostId := by
      rw [ensureState_hosts]
      exact hopen
    have hsome := ensureState_state db (machineIdentity_eq hid).2.1
    split_ifs at h with hres hseq
    · cases h
      refine ⟨fun _ => quarantineInput_desired _ _ _ _ _ _ _ _ hopen₁, (by rintro ⟨⟩),
        Or.inl ⟨?_, rfl⟩⟩
      simp only [drainStart, hid, hseq, true_or, if_true]
    · split at h
      · next reason hint =>
        cases h
        refine ⟨fun _ => quarantineInput_desired _ _ _ _ _ _ _ _ hopen₁, (by rintro ⟨⟩),
          Or.inl ⟨?_, rfl⟩⟩
        simp only [drainStart, hid, hint, Option.isSome_some, or_true, if_true]
      · next hint =>
        have hadmit : ¬ (sequenceViolation (ensureState db identity a.observation).1 hostId
            (ensureState db identity a.observation).2 a.observation = true
            ∨ (integrityViolation identity (ensureState db identity a.observation).2
              a.observation).isSome = true) := by
          rw [hint]
          rintro (h | h)
          · exact hseq h
          · cases h
        obtain ⟨⟨db₁, row, duplicate⟩, hins, h⟩ := bind_ok h
        obtain ⟨hh₁, hm₁⟩ := insertObservation_hosts hins
        have hopen₂ : Open db₁.hosts hostId := by
          rw [hh₁]
          exact hopen₁
        dsimp only at h
        split_ifs at h with hdup
        · cases h
          refine ⟨fun _ => quarantineInput_desired _ _ _ _ _ _ _ _ hopen₂, (by rintro ⟨⟩),
            Or.inl ⟨?_, rfl⟩⟩
          simp only [drainStart, hid, if_neg hadmit, hins, if_pos hdup]
        · obtain ⟨⟨db₂, judged⟩, hd, h⟩ := bind_ok h
          obtain ⟨hj, hh₂, _, _⟩ := drain_chain now identity _ db₁ db₂ _ judged
            (by rw [hm₁]; exact hsome) hd
          have hopen₃ : Open db₂.hosts hostId := by
            rw [hh₂]
            exact hopen₂
          obtain ⟨e1, e2, e3, e4⟩ := finishEntry_spec h hopen₃
          refine ⟨e3, fun hf => by rw [e4 hf, hh₂, hh₁, ensureState_hosts], Or.inr
            ⟨identity, (ensureState db identity a.observation).2, db₁.observations, row, ?_, ?_, ?_⟩⟩
          · simp only [drainStart, hid, if_neg hadmit, hins, if_neg hdup]
          · rw [e1, hj]
          · rw [e1, e2]

/-- Under the condition an entry that leaves the host open judged nothing anomalous. -/
theorem ingestOne_clean {db : Db} {now : ℤ} {hostId : String} (h : ingestOne db now hostId a = .ok entry)
    (hopen : Open db.hosts hostId) (hback : backlogClean now hostId db a = true) (hq : entry.hostQuarantined = false) :
    ∀ j ∈ entry.judged, j.2 = .accepted := by
  obtain ⟨_, _, ⟨_, htrip⟩ | ⟨identity, state, obs, row, hstart, hj, hv⟩⟩ := ingestOne_host h hopen
  · rw [htrip] at hq
    cases hq
  · simp only [backlogClean, hstart, ← hj, ← hv, hq, Bool.false_or, List.all_eq_true, beq_iff_eq]
      at hback
    exact hback

/-! ### A batch -/

/-- The condition at every entry of a batch, in the state the entry finds. -/
def batchBacklogClean (now : ℤ) (hostId : String) : Db → List Arrival → Bool
  | _, [] => true
  | db, a :: rest => backlogClean now hostId db a &&
      match ingestOne db now hostId a with
      | .ok entry => batchBacklogClean now hostId entry.db rest
      | .error _ => true

/-- Once the host is quarantined the rest of the batch changes nothing. -/
theorem ingestLoop_quarantined (now : ℤ) (hostId : String) (batch : List Arrival) : ∀ db r,
    ingestLoop now hostId db true batch = .ok r → r.db = db ∧ r.judged = [] := by
  induction batch with
  | nil =>
    intro db r h
    cases h
    exact ⟨rfl, rfl⟩
  | cons a batch ih =>
    intro db r h
    obtain ⟨r₁, hr, h⟩ := bind_ok h
    cases h
    exact ih db r₁ hr

theorem ingestLoop_catches (now : ℤ) (hostId : String) (batch : List Arrival) : ∀ db r,
    Open db.hosts hostId → batchBacklogClean now hostId db batch = true →
    ingestLoop now hostId db false batch = .ok r → (∃ j ∈ r.judged, j.2 = .quarantined) →
    desiredState r.db.hosts hostId = some .quarantined := by
  induction batch with
  | nil =>
    intro db r _ _ h hj
    cases h
    simp at hj
  | cons a batch ih =>
    intro db r hopen hback h hj
    obtain ⟨entry, he, h⟩ := bind_ok h
    obtain ⟨r₁, hr, h⟩ := bind_ok h
    cases h
    simp only [batchBacklogClean, he, Bool.and_eq_true] at hback
    obtain ⟨hq, hkeep, _⟩ := ingestOne_host he hopen
    cases hflag : entry.hostQuarantined with
    | true =>
      rw [hflag] at hr
      dsimp only
      rw [(ingestLoop_quarantined now hostId batch _ _ hr).1]
      exact hq hflag
    | false =>
      rw [hflag] at hr
      have hclean := ingestOne_clean he hopen hback.1 hflag
      obtain ⟨j, hmem, hquar⟩ := hj
      dsimp only at hmem
      rcases List.mem_append.mp hmem with hmem | hmem
      · rw [hclean j hmem] at hquar
        cases hquar
      · refine ih entry.db r₁ ?_ hback.2 hr ⟨j, hmem, hquar⟩
        rw [hkeep hflag]
        exact hopen

theorem admitHost_open {metering : AuthoritativeMetering} {db : Db} {call : IngestCall}
    {host : HostRow} (h : admitHost metering db call = .ok host) :
    Open (stampBatch db call).hosts call.hostId := by
  simp only [admitHost] at h
  split at h
  · cases h
  · next row hrow =>
    split_ifs at h with hclosed
    simp only [not_or, not_and_or, not_not] at hclosed
    simp only [Open, desiredState, stampBatch, Function.update_self, hrow, Option.map_some,
      Option.some.injEq]
    exact hclosed.1

/-- The condition of a call, in the state it runs in. -/
def callBacklogClean (db : Db) (call : IngestCall) : Bool :=
  batchBacklogClean call.now call.hostId (stampBatch db call) call.batch

/-- An anomaly found by a call quarantines the host. -/
def CatchesAnomalies (metering : AuthoritativeMetering) (db : Db) (call : IngestCall) : Prop :=
  ∀ r, ingest metering db call = .ok r → (∃ j ∈ r.judged, j.2 = .quarantined) →
    desiredState r.db.hosts call.hostId = some .quarantined

theorem catches_of_backlogClean (metering : AuthoritativeMetering) (db : Db) (call : IngestCall)
    (h : callBacklogClean db call = true) : CatchesAnomalies metering db call := by
  intro r hr hj
  obtain ⟨_, _, hr⟩ := bind_ok hr
  obtain ⟨host, hadmit, hr⟩ := bind_ok hr
  exact ingestLoop_catches call.now call.hostId call.batch _ r (admitHost_open hadmit) h hr hj

/-- An entry that leaves the host open although its chain holds an anomaly. -/
theorem backlogClean_of_catches (metering : AuthoritativeMetering) (db : Db) (call : IngestCall)
    (a : Arrival) (hbatch : call.batch = [a]) (r : IngestResult)
    (hr : ingest metering db call = .ok r) (hcatch : CatchesAnomalies metering db call) :
    backlogClean call.now call.hostId (stampBatch db call) a = true := by
  have hjudge := hcatch r hr
  obtain ⟨_, _, hloop⟩ := bind_ok hr
  obtain ⟨host, hadmit, hloop⟩ := bind_ok hloop
  rw [hbatch] at hloop
  obtain ⟨entry, he, hloop⟩ := bind_ok hloop
  obtain ⟨r₁, hr₁, hloop⟩ := bind_ok hloop
  cases hloop
  have hopen := admitHost_open hadmit
  obtain ⟨_, hkeep, ⟨hnone, _⟩ | ⟨identity, state, obs, row, hstart, hj, hv⟩⟩ :=
    ingestOne_host he hopen
  · simp only [backlogClean, hnone]
  · simp only [backlogClean, hstart, ← hj, ← hv, Bool.or_eq_true, List.all_eq_true, beq_iff_eq]
    cases hflag : entry.hostQuarantined with
    | true => exact Or.inl rfl
    | false =>
      rw [hflag] at hr₁
      cases hr₁
      refine Or.inr fun j hmem => ?_
      cases hx : j.2 with
      | accepted => rfl
      | quarantined =>
        -- the call would have quarantined the host, but the entry left its row open
        have hdes := hjudge ⟨j, List.mem_append_left _ hmem, hx⟩
        dsimp only at hdes
        rw [hkeep hflag] at hdes
        rcases hopen with h | h <;> rw [hdes] at h <;> cases h

/-- **The condition is exact for one entry.**  A call with a single entry that returns catches every
anomaly exactly when the backlog behind its entry is clean. -/
theorem single_entry_exact (metering : AuthoritativeMetering) (db : Db) (call : IngestCall)
    (a : Arrival) (hbatch : call.batch = [a]) (r : IngestResult)
    (hr : ingest metering db call = .ok r) :
    CatchesAnomalies metering db call ↔ callBacklogClean db call = true := by
  refine ⟨fun h => ?_, catches_of_backlogClean metering db call⟩
  have hclean := backlogClean_of_catches metering db call a hbatch r hr h
  simp only [callBacklogClean, hbatch, batchBacklogClean, hclean, Bool.true_and]
  split <;> rfl

/-! ### Runs -/

/-- Every ingest call of the run meets the condition. -/
def BacklogGuard (db : Db) : MeteringAct → Db → Prop
  | .ingest call, _ => callBacklogClean db call = true
  | _, _ => True

/-- Every ingest call of the run catches its anomalies. -/
def CaughtGuard (metering : AuthoritativeMetering) (db : Db) : MeteringAct → Db → Prop
  | .ingest call, _ => CatchesAnomalies metering db call
  | _, _ => True

/-- **Anomalies are caught along every run whose calls find a clean backlog.**  In such a run every call
that judges an observation anomalous quarantines its host; and in the state it reaches, the condition is
also necessary for a call with one entry. -/
theorem anomaly_quarantines_host (metering : AuthoritativeMetering) (db₀ db : Db)
    (acts : List MeteringAct) (hrun : RunIn (MeteringStep metering) BacklogGuard db₀ acts db) :
    RunIn (MeteringStep metering) (CaughtGuard metering) db₀ acts db ∧
      ∀ call a r, call.batch = [a] → ingest metering db call = .ok r →
        (CatchesAnomalies metering db call ↔ callBacklogClean db call = true) := by
  refine ⟨hrun.mono ?_, fun call a r hbatch hr => single_entry_exact metering db call a hbatch r hr⟩
  intro s a t hguard
  cases a with
  | ingest call => exact catches_of_backlogClean metering s call hguard
  | closeHostLoss now machineId leaseId => trivial
  | other hosts machines => trivial

/-! ### The sample lease, delivered out of order -/

namespace Sample

/-- One second after the checkpoint of sequence `2`, less than a host may report. -/
def rushed : HostUsageObservation :=
  observation 3 .checkpoint 11000000000 5100 "2023-11-14T22:13:31.5Z"

/-- The host withholds sequence `2`: the rushed checkpoint waits for it. -/
def withheld : IngestCall :=
  call 1700000032000 [arrival start 1700000032000, arrival rushed 1700000032000]

def filled : IngestCall := call 1700000034000 [arrival checkpoint 1700000034000]

/-- Ten minutes of wall time in ten seconds of run time. -/
def skewed : IngestCall :=
  call 1700000620000 [arrival start 1700000620000,
    arrival (observation 2 .checkpoint 10000000000 5100 "2023-11-14T22:23:20Z") 1700000620000]

def afterWithheld : Db := commit db (ingest {} db withheld)

end Sample

/-- The theorem at a call whose own entry is judged to be skewed, and that revokes the host. -/
theorem anomaly_quarantines_host_sample :
    ∃ r, ingest {} Sample.db Sample.skewed = .ok r ∧ (∃ j ∈ r.judged, j.2 = .quarantined) ∧
      desiredState r.db.hosts Sample.hostId = some .quarantined := by
  have hclean : callBacklogClean Sample.db Sample.skewed = true := by decide +kernel
  have hjudged : (ingest {} Sample.db Sample.skewed).toOption.any
      (fun r => r.judged.any fun j => j.2 == .quarantined) = true := by decide +kernel
  obtain ⟨hrun, _⟩ := anomaly_quarantines_host {} Sample.db _ [.ingest Sample.skewed]
    (.cons (.ingest _ _) hclean (.nil _))
  cases hrun with
  | cons _ hcaught _ =>
    cases hr : ingest {} Sample.db Sample.skewed with
    | error e =>
      rw [hr] at hjudged
      cases hjudged
    | ok r =>
      rw [hr] at hjudged
      simp only [Except.toOption, Option.any_some, List.any_eq_true, beq_iff_eq] at hjudged
      exact ⟨r, rfl, hjudged, hcaught r hr hjudged⟩

/-- **Reordering hides an anomaly.**  The rushed checkpoint is stored while it waits; the call that fills
the gap judges it anomalous and leaves the host active. -/
theorem reordering_hides_anomaly :
    ¬ ∀ (metering : AuthoritativeMetering) (db₀ db : Db) (acts : List MeteringAct) (call : IngestCall),
      MeteringEmpty db₀.tables → Schema db₀.tables → Run (MeteringStep metering) db₀ acts db →
      CatchesAnomalies metering db call := by
  intro hall
  have hcatch := hall {} Sample.db Sample.afterWithheld [.ingest Sample.withheld] Sample.filled
    Sample.db_empty Sample.db_schema (.cons (.ingest _ _) (.nil _))
  have hmiss : (ingest {} Sample.afterWithheld Sample.filled).toOption.any (fun r =>
      r.judged.any (fun j => j.2 == .quarantined)
        && desiredState r.db.hosts Sample.hostId == some .active) = true := by decide +kernel
  cases hr : ingest {} Sample.afterWithheld Sample.filled with
  | error e =>
    rw [hr] at hmiss
    cases hmiss
  | ok r =>
    rw [hr] at hmiss
    simp only [Except.toOption, Option.any_some, Bool.and_eq_true, List.any_eq_true, beq_iff_eq] at hmiss
    have hdes := hcatch r hr hmiss.1
    rw [show Sample.filled.hostId = Sample.hostId from rfl, hmiss.2] at hdes
    cases hdes

end Nehemiah.Billing
