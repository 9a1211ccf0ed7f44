import Nehemiah.Billing.Effects

/-!
# Invariants of ingestion

A call of `ingest` is a sequence of statements: it stamps the host, and for each batch entry it may
insert a meter state, insert an observation, process stored observations, quarantine a meter, quarantine
a host.  `StatementInvariant` lists these statements with what is known where they run, and
`ingest_invariant` is the rule: a property of the tables that every statement preserves is preserved by
every call, whatever the batch.

`TurnInvariant` is the same rule for a property that also speaks of the cut-over rows, and it knows one thing
more where an observation is processed: as long as the cursor has not moved, the usage columns are still
those the turn read.

`Selected` is the link between the machine row that `ingest` read at the start of a turn and the row
that is in the table while the turn goes on: metering itself only moves the two usage columns.
-/

namespace Nehemiah.Billing

/-! ### The selected machine row -/

/-- The row agrees with the identity in every column but the two usage columns. -/
structure MachineIdentity.Describes (identity : MachineIdentity) (m : MachineRow) : Prop where
  organizationId : m.organizationId = identity.organizationId
  projectId : m.projectId = identity.projectId
  hostId : m.hostId = some identity.hostId
  hostMachineId : m.hostMachineId = some identity.hostMachineId
  leaseId : m.leaseId = identity.leaseId
  leaseGeneration : m.leaseGeneration = identity.leaseGeneration
  vcpus : m.vcpus = identity.vcpus
  memoryBytes : m.memoryMb * 1048576 = identity.memoryBytes

def Selected (t : Tables) (identity : MachineIdentity) : Prop :=
  ∃ m, t.machines identity.id = some m ∧ identity.Describes m

variable {identity : MachineIdentity} {db : Db} {ms ms' : String → Option MachineRow} {state : MeterState}
    {o : StoredObservation}

theorem machineIdentity_eq {hostId : String} {a : Arrival} (h : machineIdentity db hostId a = some identity) :
    Selected db.tables identity ∧ identity.id = a.observation.machineId ∧ identity.hostId = hostId ∧
      identity.hostMachineId = a.observation.hostMachineId ∧
      identity.leaseId = uuidText a.observation.leaseId ∧
      identity.leaseGeneration = a.observation.leaseGeneration ∧
      identity.admissionReceivedAt = a.admissionReceivedAt := by
  simp only [machineIdentity] at h
  split at h
  · next m hm =>
    split_ifs at h with hc
    simp only [Option.some.injEq] at h
    subst h
    obtain ⟨h1, h2, h3, h4⟩ := hc
    exact ⟨⟨m, hm, ⟨rfl, rfl, h1, h2, rfl, rfl, rfl, rfl⟩⟩, rfl, rfl, rfl, h3, h4, rfl⟩
  · cases h

/-- Two versions of a machine row that agree on everything but the usage columns. -/
structure MachineRow.SameLease (m m' : MachineRow) : Prop where
  organizationId : m'.organizationId = m.organizationId
  projectId : m'.projectId = m.projectId
  hostId : m'.hostId = m.hostId
  hostMachineId : m'.hostMachineId = m.hostMachineId
  leaseId : m'.leaseId = m.leaseId
  leaseGeneration : m'.leaseGeneration = m.leaseGeneration
  vcpus : m'.vcpus = m.vcpus
  memoryMb : m'.memoryMb = m.memoryMb
  createdAt : m'.createdAt = m.createdAt
  startedAt : m'.startedAt = m.startedAt
  state : m'.state = m.state
  expiresAt : m'.expiresAt = m.expiresAt

theorem MachineRow.sameLease_usage (m : MachineRow) (checkpoint finalized : Option ℤ) :
    m.SameLease { m with usageCheckpointAt := checkpoint, usageFinalizedAt := finalized } :=
  ⟨rfl, rfl, rfl, rfl, rfl, rfl, rfl, rfl, rfl, rfl, rfl, rfl⟩

theorem MachineRow.SameLease.refl (m : MachineRow) : m.SameLease m :=
  m.sameLease_usage m.usageCheckpointAt m.usageFinalizedAt

theorem MachineRow.SameLease.trans {a b c : MachineRow} (h : a.SameLease b) (h' : b.SameLease c) :
    a.SameLease c :=
  ⟨h'.organizationId.trans h.organizationId, h'.projectId.trans h.projectId, h'.hostId.trans h.hostId,
    h'.hostMachineId.trans h.hostMachineId, h'.leaseId.trans h.leaseId,
    h'.leaseGeneration.trans h.leaseGeneration, h'.vcpus.trans h.vcpus, h'.memoryMb.trans h.memoryMb,
    h'.createdAt.trans h.createdAt, h'.startedAt.trans h.startedAt, h'.state.trans h.state,
    h'.expiresAt.trans h.expiresAt⟩

/-- Every row keeps its lease and its resources; no row appears or disappears. -/
def MachinesKept (ms ms' : String → Option MachineRow) : Prop :=
  ∀ id, (ms id = none ∧ ms' id = none) ∨ ∃ m m', ms id = some m ∧ ms' id = some m' ∧ m.SameLease m'

theorem MachinesKept.refl (ms : String → Option MachineRow) : MachinesKept ms ms := by
  intro id
  cases h : ms id with
  | none => exact Or.inl ⟨rfl, rfl⟩
  | some m => exact Or.inr ⟨m, m, rfl, rfl, .refl m⟩

theorem MachinesKept.row (h : MachinesKept ms ms') {id : String} {m : MachineRow} (hm : ms id = some m) :
    ∃ m', ms' id = some m' ∧ m.SameLease m' := by
  rcases h id with ⟨h0, _⟩ | ⟨m₁, m', h1, h2, hs⟩
  · rw [hm] at h0
    cases h0
  · rw [hm] at h1
    cases h1
    exact ⟨m', h2, hs⟩

theorem MachinesKept.row_back (h : MachinesKept ms ms') {id : String} {m' : MachineRow} (hm : ms' id = some m') :
    ∃ m, ms id = some m ∧ m.SameLease m' := by
  rcases h id with ⟨_, h0⟩ | ⟨m, m₁, h1, h2, hs⟩
  · rw [hm] at h0
    cases h0
  · rw [hm] at h2
    cases h2
    exact ⟨m, h1, hs⟩

theorem MachinesKept.trans {a b c : String → Option MachineRow} (h : MachinesKept a b)
    (h' : MachinesKept b c) : MachinesKept a c := by
  intro id
  rcases h id with ⟨h1, h2⟩ | ⟨m, m', h1, h2, hs⟩
  · rcases h' id with ⟨_, h4⟩ | ⟨_, _, h3, _⟩
    · exact Or.inl ⟨h1, h4⟩
    · rw [h2] at h3
      cases h3
  · obtain ⟨m'', h3, hs'⟩ := h'.row h2
    exact Or.inr ⟨m, m'', h1, h3, hs.trans hs'⟩

theorem machinesKept_update (ms : String → Option MachineRow) (id : String)
    (f : MachineRow → MachineRow) (hf : ∀ m : MachineRow, m.SameLease (f m)) :
    MachinesKept ms (Function.update ms id ((ms id).map f)) := by
  intro x
  by_cases hx : x = id
  · subst hx
    cases h : ms x with
    | none => simp
    | some m => exact Or.inr ⟨m, f m, rfl, by simp, hf m⟩
  · rw [Function.update_of_ne hx]
    exact MachinesKept.refl ms x

theorem Selected.kept {t t' : Tables} (h : Selected t identity) (hk : MachinesKept t.machines t'.machines) :
    Selected t' identity := by
  obtain ⟨m, hm, hd⟩ := h
  obtain ⟨m', hm', hs⟩ := hk.row hm
  exact ⟨m', hm', ⟨hs.organizationId.trans hd.organizationId, hs.projectId.trans hd.projectId,
    hs.hostId.trans hd.hostId, hs.hostMachineId.trans hd.hostMachineId, hs.leaseId.trans hd.leaseId,
    hs.leaseGeneration.trans hd.leaseGeneration, hs.vcpus.trans hd.vcpus, by
      rw [hs.memoryMb]; exact hd.memoryBytes⟩⟩

/-- The machine rows after usage has been projected keep their leases. -/
theorem usedMachines_kept (ms : String → Option MachineRow) (now : ℤ) (identity : MachineIdentity)
    (s : MeterState) (o : StoredObservation) (ps : ℤ) :
    MachinesKept ms (usedMachines ms now identity s o ps) := by
  unfold usedMachines
  split_ifs
  · refine machinesKept_update ms identity.id _ fun m => ?_
    split_ifs
    · exact m.sameLease_usage _ _
    · exact .refl m
  · exact MachinesKept.refl ms

theorem closeLegacyPrefix_kept (db : Db) (identity : MachineIdentity) (hostStart : ℤ) :
    MachinesKept db.machines (closeLegacyPrefix db identity hostStart).1.machines := by
  have h : (closeLegacyPrefix db identity hostStart).1.machines = _ :=
    congrArg Tables.machines (closeLegacyPrefix_tables db identity hostStart)
  rw [h]
  refine machinesKept_update db.machines identity.id _ fun m => ?_
  split_ifs
  · exact m.sameLease_usage _ _
  · exact .refl m

theorem processObservation_kept {db' : Db} {now : ℤ} {v : Verdict} (hs : db.meterStates identity.id = some state)
    (h : processObservation db now identity state o = .ok (db', v)) :
    MachinesKept db.machines db'.machines := by
  cases processObservation_processed h with
  | rejected anomaly ha =>
    have hm := congrArg Tables.machines (rejectObservation_tables db now identity state o anomaly hs)
    rw [show (rejectObservation db now identity state o anomaly).machines = db.machines from hm]
    exact MachinesKept.refl _
  | started _ ha hk hp =>
    have hm := congrArg Tables.machines (processStart_tables hs hp)
    rw [show db'.machines = (closeLegacyPrefix db identity o.observedAt).1.machines from hm]
    exact closeLegacyPrefix_kept db identity o.observedAt
  | used ps _ _ ha hk hps hp =>
    have hm := congrArg Tables.machines (processUsage_frame hs hp).2
    rw [show db'.machines = usedMachines db.machines now identity state o ps from hm]
    exact usedMachines_kept _ _ _ _ _ _

/-- The meter state after the call is the one of the observation's turn: the cursor is on it. -/
theorem processObservation_state {db' : Db} {now : ℤ} {v : Verdict} (hs : db.meterStates identity.id = some state)
    (h : processObservation db now identity state o = .ok (db', v)) :
    ∃ state', db'.meterStates = Function.update db.meterStates identity.id (some state') ∧
      state'.lastSequence = o.sequence ∧ state'.hostBootId = state.hostBootId := by
  cases processObservation_processed h with
  | rejected anomaly ha =>
    exact ⟨_, congrArg Tables.meterStates
      (rejectObservation_tables db now identity state o anomaly hs), rfl, rfl⟩
  | started _ ha hk hp => exact ⟨_, congrArg Tables.meterStates (processStart_tables hs hp), rfl, rfl⟩
  | used ps _ _ ha hk hps hp =>
    refine ⟨_, congrArg Tables.meterStates (processUsage_frame hs hp).2, ?_, ?_⟩ <;>
      simp only [MeterState.used] <;> split_ifs <;> rfl

/-! ### The rule -/

/-- The identity was selected for the entry. -/
structure SelectedFor (t : Tables) (hostId : String) (a : Arrival) (identity : MachineIdentity) :
    Prop where
  selected : Selected t identity
  id : identity.id = a.observation.machineId
  hostId : identity.hostId = hostId
  leaseId : identity.leaseId = uuidText a.observation.leaseId
  leaseGeneration : identity.leaseGeneration = a.observation.leaseGeneration

/-- A property of the tables that every statement of `ingest` preserves. -/
structure StatementInvariant (I : Tables → Prop) : Prop where
  hosts : ∀ t hosts, I t → I { t with hosts := hosts }
  skipId : ∀ t, I t → I { t with nextObservationId := t.nextObservationId + 1 }
  insertState : ∀ t hostId a identity, SelectedFor t hostId a identity →
    t.meterStates identity.id = none → I t →
    I { t with
      meterStates := Function.update t.meterStates identity.id
        (some (initialState identity a.observation)) }
  quarantine : ∀ t now id s reason, t.meterStates id = some s → I t →
    I { t with meterStates := Function.update t.meterStates id (some (s.quarantine now reason)) }
  insertObservation : ∀ t hostId a identity, SelectedFor t hostId a identity →
    (t.meterStates identity.id).isSome →
    t.observations.find? (sameObservationKey hostId a.observation) = none → I t →
    I { t with
      observations := t.observations ++ [storedObservation t.nextObservationId hostId a]
      nextObservationId := t.nextObservationId + 1 }
  process : ∀ db db' now identity state o v, Selected db.tables identity →
    db.meterStates identity.id = some state → nextPending db identity state = some o →
    processObservation db now identity state o = .ok (db', v) → I db.tables → I db'.tables

/-- The usage columns of the machine row are still those the turn read. -/
def Current (machines : String → Option MachineRow) (identity : MachineIdentity) : Prop :=
  ∃ m, machines identity.id = some m ∧ m.usageCheckpointAt = identity.usageCheckpointAt ∧
    m.startedAt = identity.startedAt

/-- A property of the tables and the cut-over rows that every statement of a turn preserves. -/
structure TurnInvariant (J : Tables → List CutoverEvent → Prop) : Prop where
  hosts : ∀ t c hosts, J t c → J { t with hosts := hosts } c
  skipId : ∀ t c, J t c → J { t with nextObservationId := t.nextObservationId + 1 } c
  insertState : ∀ t c hostId a identity, SelectedFor t hostId a identity →
    t.meterStates identity.id = none → J t c →
    J { t with
      meterStates := Function.update t.meterStates identity.id
        (some (initialState identity a.observation)) } c
  quarantine : ∀ t c now id s reason, t.meterStates id = some s → J t c →
    J { t with meterStates := Function.update t.meterStates id (some (s.quarantine now reason)) } c
  insertObservation : ∀ t c hostId a identity, SelectedFor t hostId a identity →
    (t.meterStates identity.id).isSome →
    t.observations.find? (sameObservationKey hostId a.observation) = none → J t c →
    J { t with
      observations := t.observations ++ [storedObservation t.nextObservationId hostId a]
      nextObservationId := t.nextObservationId + 1 } c
  process : ∀ db db' now identity state o v, Selected db.tables identity →
    (state.lastSequence = 0 → Current db.machines identity) →
    db.meterStates identity.id = some state → nextPending db identity state = some o →
    processObservation db now identity state o = .ok (db', v) → J db.tables db.cutovers →
    J db'.tables db'.cutovers

theorem StatementInvariant.turn {I : Tables → Prop} (inv : StatementInvariant I) :
    TurnInvariant fun t _ => I t where
  hosts t _ hosts h := inv.hosts t hosts h
  skipId t _ h := inv.skipId t h
  insertState t _ hostId a identity hsel hnone h := inv.insertState t hostId a identity hsel hnone h
  quarantine t _ now id s reason hs h := inv.quarantine t now id s reason hs h
  insertObservation t _ hostId a identity hsel hs hnone h :=
    inv.insertObservation t hostId a identity hsel hs hnone h
  process db db' now identity state o v hsel _ hs ho hp h :=
    inv.process db db' now identity state o v hsel hs ho hp h

theorem exception_cutovers (db : Db) (e : MeteringException) :
    (exception db e).cutovers = db.cutovers := by
  unfold exception
  split_ifs <;> rfl

/-- The selected row carries the usage columns the turn read. -/
theorem machineIdentity_current {hostId : String} {a : Arrival} (h : machineIdentity db hostId a = some identity) :
    Current db.machines identity := by
  simp only [machineIdentity] at h
  split at h
  · next m hm =>
    split_ifs at h
    simp only [Option.some.injEq] at h
    subst h
    exact ⟨m, hm, rfl, rfl⟩
  · cases h

theorem ensureState_machines (db : Db) (identity : MachineIdentity) (o : HostUsageObservation) :
    (ensureState db identity o).1.machines = db.machines := by
  unfold ensureState
  split <;> rfl

theorem nextPending_sequence (h : nextPending db identity state = some o) : o.sequence = state.lastSequence + 1 := by
  have hp := List.find?_some h
  simp only [Bool.and_eq_true, beq_iff_eq] at hp
  exact hp.2

section Rule

variable {J : Tables → List CutoverEvent → Prop} (inv : TurnInvariant J)

include inv

theorem quarantineHost_turn (db : Db) (now : ℤ) (hostId reason : String)
    (h : J db.tables db.cutovers) :
    J (quarantineHost db now hostId reason).tables (quarantineHost db now hostId reason).cutovers :=
  inv.hosts db.tables _ _ h

theorem setQuarantined_turn (db : Db) (now : ℤ) (id : String) (reason : QuarantineReason)
    (h : J db.tables db.cutovers) :
    J (setQuarantined db now id reason).tables (setQuarantined db now id reason).cutovers := by
  show J (setQuarantined db now id reason).tables db.cutovers
  rw [setQuarantined, updateState_tables]
  cases hs : db.meterStates id with
  | none =>
    rw [Option.map_none, ← hs, Function.update_eq_self]
    exact h
  | some s => exact inv.quarantine db.tables _ now id s reason hs h

theorem quarantineInput_turn (db : Db) (now : ℤ) (hostId : String) (identity : MachineIdentity)
    (o : HostUsageObservation) (key : ExceptionKey) (reason : QuarantineReason) (text : String)
    (h : J db.tables db.cutovers) :
    J (quarantineInput db now hostId identity o key reason text).tables
      (quarantineInput db now hostId identity o key reason text).cutovers := by
  refine quarantineHost_turn inv _ now hostId text ?_
  refine setQuarantined_turn inv _ now _ reason ?_
  rw [exception_tables, exception_cutovers]
  exact h

/-- The drain loop, by induction on its turns.  The first turn finds the usage columns as they were read;
every later one finds a cursor that has moved. -/
theorem drain_turn (now : ℤ) (identity : MachineIdentity) (fuel : ℕ) : ∀ db db' judged,
    Selected db.tables identity →
    (∀ s, db.meterStates identity.id = some s → s.lastSequence = 0 → Current db.machines identity) →
    drain now identity fuel db = .ok (db', judged) → J db.tables db.cutovers →
    J db'.tables db'.cutovers ∧ Selected db'.tables identity := by
  induction fuel with
  | zero =>
    intro db db' judged hsel _ h hJ
    cases h
    exact ⟨hJ, hsel⟩
  | succ fuel ih =>
    intro db db' judged hsel hcur h hJ
    simp only [drain, stateForUpdate] at h
    split at h
    · cases h
    · next state hs =>
      split at h
      · cases h
        exact ⟨hJ, hsel⟩
      · next o ho =>
        obtain ⟨⟨db₁, v⟩, hp, h⟩ := bind_ok h
        obtain ⟨⟨db₂, js⟩, hrest, h⟩ := bind_ok h
        cases h
        refine ih db₁ _ js (hsel.kept (processObservation_kept hs hp)) ?_ hrest
          (inv.process db db₁ now identity state o v hsel (hcur state hs) hs ho hp hJ)
        intro s hs' hzero
        obtain ⟨state', hstates, hseq, _⟩ := processObservation_state hs hp
        rw [hstates, Function.update_self, Option.some.injEq] at hs'
        rw [← hs', hseq, nextPending_sequence ho] at hzero
        cases hzero

variable {hostId : String} {identity : MachineIdentity} {db : Db} {row : StoredObservation} {entry : Entry}
    {a : Arrival}

theorem finishEntry_turn {now : ℤ} {o : HostUsageObservation} {duplicate : Bool} {judged : List Judged}
    (h : finishEntry db now hostId identity o row duplicate judged = .ok entry) (hJ : J db.tables db.cutovers) :
    J entry.db.tables entry.db.cutovers := by
  simp only [finishEntry] at h
  split at h
  · cases h
  · cases h
    have hq : J (if (inputVerdict row judged).2 = true then
        quarantineHost db now hostId "metering observation integrity violated" else db).tables
        (if (inputVerdict row judged).2 = true then
        quarantineHost db now hostId "metering observation integrity violated" else db).cutovers := by
      split_ifs
      · exact quarantineHost_turn inv db now hostId _ hJ
      · exact hJ
    rw [resolveGaps_tables]
    show J _ (ite _ _ _ : Db).cutovers
    split_ifs at hq ⊢ <;>
      first | exact hq | (rw [exception_tables, exception_cutovers]; exact hq)

theorem insertObservation_turn {db' : Db} {duplicate : Bool} (hsel : SelectedFor db.tables hostId a identity)
    (hs : (db.meterStates identity.id).isSome) (h : insertObservation db hostId a = .ok (db', row, duplicate))
    (hJ : J db.tables db.cutovers) :
    J db'.tables db'.cutovers ∧ Selected db'.tables identity ∧ db'.machines = db.machines := by
  unfold insertObservation at h
  split_ifs at h
  split at h
  · cases h
    exact ⟨inv.skipId db.tables _ hJ, hsel.selected, rfl⟩
  · next hnone =>
    cases h
    exact ⟨inv.insertObservation db.tables _ hostId a identity hsel hs hnone hJ, hsel.selected, rfl⟩

theorem storeAndDrain_turn {now : ℤ} (hsel : SelectedFor db.tables hostId a identity)
    (hcur : Current db.machines identity) (hs : (db.meterStates identity.id).isSome)
    (h : storeAndDrain db now hostId identity a = .ok entry) (hJ : J db.tables db.cutovers) :
    J entry.db.tables entry.db.cutovers := by
  obtain ⟨⟨db₁, row, duplicate⟩, hins, h⟩ := bind_ok h
  obtain ⟨hJ₁, hsel₁, hm₁⟩ := insertObservation_turn inv hsel hs hins hJ
  dsimp only at h
  split_ifs at h
  · cases h
    exact quarantineInput_turn inv _ _ _ _ _ _ _ _ hJ₁
  · obtain ⟨⟨db₂, judged⟩, hd, h⟩ := bind_ok h
    refine finishEntry_turn inv h (drain_turn inv now identity _ db₁ db₂ judged hsel₁ ?_ hd hJ₁).1
    intro s _ _
    rw [hm₁]
    exact hcur

/-- After `ensureState` the machine has a meter state. -/
theorem ensureState_turn (hsel : SelectedFor db.tables hostId a identity) (hJ : J db.tables db.cutovers) :
    J (ensureState db identity a.observation).1.tables
        (ensureState db identity a.observation).1.cutovers ∧
      SelectedFor (ensureState db identity a.observation).1.tables hostId a identity ∧
      ((ensureState db identity a.observation).1.meterStates identity.id).isSome := by
  unfold ensureState
  rw [← hsel.id]
  cases hs : stateForUpdate db identity.id with
  | some state => exact ⟨hJ, hsel, by simp [show db.meterStates identity.id = some state from hs]⟩
  | none =>
    exact ⟨inv.insertState db.tables _ hostId a identity hsel hs hJ,
      ⟨hsel.selected, hsel.id, hsel.hostId, hsel.leaseId, hsel.leaseGeneration⟩, by simp [insertState]⟩

theorem ingestOne_turn {now : ℤ} (h : ingestOne db now hostId a = .ok entry) (hJ : J db.tables db.cutovers) :
    J entry.db.tables entry.db.cutovers := by
  simp only [ingestOne] at h
  split at h
  · cases h
  · next identity hid =>
    obtain ⟨hsel, h1, h2, _, h4, h5, _⟩ := machineIdentity_eq hid
    obtain ⟨hJ₁, hsel₁, hs₁⟩ := ensureState_turn inv ⟨hsel, h1, h2, h4, h5⟩ hJ
    split_ifs at h with hres hseq
    · cases h
      exact quarantineInput_turn inv _ _ _ _ _ _ _ _ hJ₁
    · split at h
      · cases h
        exact quarantineInput_turn inv _ _ _ _ _ _ _ _ hJ₁
      · refine storeAndDrain_turn inv hsel₁ ?_ hs₁ h hJ₁
        rw [ensureState_machines]
        exact machineIdentity_current hid

theorem ingestLoop_turn (now : ℤ) (hostId : String) (batch : List Arrival) : ∀ db q r,
    ingestLoop now hostId db q batch = .ok r → J db.tables db.cutovers →
    J r.db.tables r.db.cutovers := by
  induction batch with
  | nil =>
    intro db q r h hJ
    cases q <;> cases h <;> exact hJ
  | cons a batch ih =>
    intro db q r h hJ
    cases q with
    | true =>
      obtain ⟨r₁, hr, h⟩ := bind_ok h
      cases h
      exact ih db true r₁ hr hJ
    | false =>
      obtain ⟨entry, he, h⟩ := bind_ok h
      obtain ⟨r₁, hr, h⟩ := bind_ok h
      cases h
      exact ih entry.db entry.hostQuarantined r₁ hr (ingestOne_turn inv he hJ)

/-- **Invariant rule for ingestion**, cut-over rows included. -/
theorem ingest_turn {metering : AuthoritativeMetering} {call : IngestCall} {r : IngestResult}
    (h : ingest metering db call = .ok r) (hJ : J db.tables db.cutovers) :
    J r.db.tables r.db.cutovers := by
  obtain ⟨_, _, h⟩ := bind_ok h
  obtain ⟨_, _, h⟩ := bind_ok h
  exact ingestLoop_turn inv call.now call.hostId call.batch _ false r h
    (inv.hosts db.tables _ _ hJ)

end Rule

section TablesRule

variable {I : Tables → Prop} (inv : StatementInvariant I)

include inv

variable {db : Db} {hostId : String} {a : Arrival}

theorem insertObservation_invariant {db' : Db} {identity : MachineIdentity} {row : StoredObservation} {duplicate : Bool}
    (hsel : SelectedFor db.tables hostId a identity) (hs : (db.meterStates identity.id).isSome)
    (h : insertObservation db hostId a = .ok (db', row, duplicate)) (hI : I db.tables) :
    I db'.tables ∧ Selected db'.tables identity := by
  obtain ⟨hI', hsel', _⟩ := insertObservation_turn inv.turn hsel hs h hI
  exact ⟨hI', hsel'⟩

theorem ensureState_invariant {identity : MachineIdentity} (hsel : SelectedFor db.tables hostId a identity)
    (hI : I db.tables) :
    I (ensureState db identity a.observation).1.tables ∧
      SelectedFor (ensureState db identity a.observation).1.tables hostId a identity ∧
      ((ensureState db identity a.observation).1.meterStates identity.id).isSome :=
  ensureState_turn inv.turn hsel hI

theorem ingestOne_invariant {now : ℤ} {entry : Entry} (h : ingestOne db now hostId a = .ok entry) (hI : I db.tables) :
    I entry.db.tables :=
  ingestOne_turn inv.turn h hI

/-- **Invariant rule for ingestion.** -/
theorem ingest_invariant {metering : AuthoritativeMetering} {call : IngestCall} {r : IngestResult}
    (h : ingest metering db call = .ok r) (hI : I db.tables) :
    I r.db.tables :=
  ingest_turn inv.turn h hI

end TablesRule

end Nehemiah.Billing
