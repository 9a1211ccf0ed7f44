import Nehemiah.Billing.Quarantine

/-!
# Receipts

The host deletes what is acknowledged, so a receipt has to be evidence.  `Evidence` says what one receipt
of a call proves about the tables the call leaves: the outcomes `accepted`, `duplicate` and `pending_gap`
that the exact payload is stored, the other two that the host is quarantined.

An `accepted` outcome is given to an observation that was not stored before the call's entry
(`Answer.fresh`), and stored observations are never removed.  So no key is accepted twice in a run
(`acknowledgement_is_evidence`).  The conflict target of the insert names the host and the key of an
observation does not; that a lease has one host is the invariant `Hosted`.
-/

namespace Nehemiah.Billing

open Nehemiah.Lib

/-- Lease, generation, boot and sequence, in the text form of the columns. -/
abbrev ObservationKey := String × ℕ × String × ℕ

def StoredObservation.key (row : StoredObservation) : ObservationKey :=
  (row.leaseId, row.leaseGeneration, row.hostBootId, row.sequence)

def HostUsageObservation.key (o : HostUsageObservation) : ObservationKey :=
  (uuidText o.leaseId, o.leaseGeneration, uuidText o.hostBootId, o.sequence)

def HostUsageObservationReceipt.key (r : HostUsageObservationReceipt) : ObservationKey :=
  (uuidText r.leaseId, r.leaseGeneration, uuidText r.hostBootId, r.sequence)

/-- The keys with outcome `accepted`. -/
def acceptedKeys (receipts : List HostUsageObservationReceipt) : List ObservationKey :=
  (receipts.filter (·.outcome = .accepted)).map (·.key)

/-! ### One host for a lease -/

/-- A stored observation came from the host of its meter. -/
def Hosted (t : Tables) : Prop :=
  ∀ o ∈ t.observations, ∃ s, t.meterStates o.machineId = some s ∧ s.hostId = o.hostId

theorem Hosted.updateState {t t' : Tables} (h : Hosted t) {id : String} {s : MeterState}
    (s' : MeterState) (hs : t.meterStates id = some s) (hh : s'.hostId = s.hostId)
    (hobs : t'.observations = t.observations)
    (hrow : t'.meterStates = Function.update t.meterStates id (some s')) : Hosted t' := by
  intro o ho
  rw [hobs] at ho
  obtain ⟨u, hu, huh⟩ := h o ho
  rw [hrow]
  by_cases hx : o.machineId = id
  · rw [hx] at hu ⊢
    rw [hs] at hu
    cases hu
    exact ⟨s', Function.update_self .., hh.trans huh⟩
  · exact ⟨u, (Function.update_of_ne hx _ _).trans hu, huh⟩

variable {identity : MachineIdentity} {a : Arrival} {row : StoredObservation} {metering : AuthoritativeMetering}

theorem hosted_process {db db' : Db} {now : ℤ} {state : MeterState} {o : StoredObservation} {v : Verdict}
    (hs : db.meterStates identity.id = some state) (hp : processObservation db now identity state o = .ok (db', v))
    (h : Hosted db.tables) :
    Hosted db'.tables := by
  obtain ⟨_, hstates, _, hobs⟩ := processObservation_meter hs hp
  refine h.updateState _ hs ?_ hobs hstates
  simp only [meterAfter]
  split
  · rfl
  · split_ifs
    · rfl
    · split
      · exact (used_fields _ _ _ _).1
      · rfl

/-- **One host for a lease is an invariant of ingestion.** -/
theorem hosted_invariant : StatementInvariant fun t => Books t ∧ Hosted t where
  hosts t hosts h := ⟨books_invariant.hosts t hosts h.1, h.2⟩
  skipId t h := ⟨books_invariant.skipId t h.1, h.2⟩
  insertState t hostId a identity hsel hnone h := by
    refine ⟨books_invariant.insertState t hostId a identity hsel hnone h.1, fun o ho => ?_⟩
    obtain ⟨s, hs, hh⟩ := h.2 o ho
    refine ⟨s, (Function.update_of_ne ?_ _ _).trans hs, hh⟩
    intro hx
    rw [hx, hnone] at hs
    cases hs
  quarantine t now id s reason hs h :=
    ⟨books_invariant.quarantine t now id s reason hs h.1, h.2.updateState (s.quarantine now reason) hs rfl rfl rfl⟩
  insertObservation t hostId a identity hsel hs hnone h := by
    refine ⟨books_invariant.insertObservation t hostId a identity hsel hs hnone h.1, fun o ho => ?_⟩
    rcases List.mem_append.mp ho with ho | ho
    · exact h.2 o ho
    · rw [List.mem_singleton.mp ho]
      obtain ⟨s, hs⟩ := Option.isSome_iff_exists.mp hs
      obtain ⟨m, hm, hhost, _⟩ := h.1.state_ref identity.id s hs
      obtain ⟨m', hm', hd⟩ := hsel.selected
      rw [hm] at hm'
      cases hm'
      refine ⟨s, by rw [← hs, hsel.id]; rfl, ?_⟩
      have := hhost.symm.trans hd.hostId
      rw [hsel.hostId] at this
      exact Option.some.inj this
  process db db' now identity state o v hsel hs ho hp h :=
    ⟨books_process hsel hs ho hp h.1, hosted_process hs hp h.2⟩

/-- A key that is new for the host of the selected machine is new altogether. -/
theorem key_fresh {t : Tables} {hostId : String} (hb : Books t) (hh : Hosted t) (hsel : SelectedFor t hostId a identity)
    (hnone : t.observations.find? (sameObservationKey hostId a.observation) = none) :
    ∀ row ∈ t.observations, row.key ≠ a.observation.key := by
  intro row hrow hkey
  simp only [StoredObservation.key, HostUsageObservation.key, Prod.mk.injEq] at hkey
  obtain ⟨hl, hg, hboot, hseq⟩ := hkey
  obtain ⟨s, hs, hsl, _⟩ := hb.observation_ref row hrow
  obtain ⟨s', hs', hhost⟩ := hh row hrow
  rw [hs] at hs'
  cases hs'
  -- the row's lease is the selected machine's, so its meter names the selected host
  obtain ⟨m, hm, hmh, _, hml, _⟩ := hb.state_ref row.machineId s hs
  obtain ⟨m', hm', hd⟩ := hsel.selected
  have hid := hb.lease_unique row.machineId identity.id m m' hm hm'
    (by rw [hml, hsl, hl, hd.leaseId, hsel.leaseId])
  rw [hid, hm'] at hm
  cases hm
  rw [hd.hostId, hsel.hostId, Option.some.injEq] at hmh
  have := List.find?_eq_none.mp hnone row hrow
  simp [sameObservationKey, hl, hg, hboot, hseq, hhost ▸ hmh] at this

/-! ### One entry -/

/-- What the receipt of an entry proves about the tables after the call. -/
structure Evidence (hostId : String) (db : Db) (a : Arrival) (receipt : HostUsageObservationReceipt) :
    Prop where
  receipt_eq : receipt = receiptFor a.observation receipt.outcome
  stored : receipt.outcome = .accepted ∨ receipt.outcome = .duplicate ∨ receipt.outcome = .pendingGap →
    ∃ row ∈ db.observations, row.hostId = hostId ∧ row.key = a.observation.key ∧
      row.payload = a.observation
  quarantined : receipt.outcome = .quarantined ∨ receipt.outcome = .rejectedPayloadConflict →
    desiredState db.hosts hostId = some .quarantined

/-- What one turn of the batch loop answers. -/
structure Answer (db : Db) (hostId : String) (a : Arrival) (entry : Entry) : Prop where
  receipt_eq : entry.receipt = receiptFor a.observation entry.receipt.outcome
  stored : entry.receipt.outcome = .accepted ∨ entry.receipt.outcome = .duplicate ∨
      entry.receipt.outcome = .pendingGap →
    ∃ row ∈ entry.db.observations, row.hostId = hostId ∧ row.key = a.observation.key ∧
      row.payload = a.observation
  flagged : entry.receipt.outcome = .quarantined ∨ entry.receipt.outcome = .rejectedPayloadConflict →
    entry.hostQuarantined = true
  fresh : entry.receipt.outcome = .accepted → ∀ row ∈ db.observations, row.key ≠ a.observation.key
  grows : db.observations ⊆ entry.db.observations

/-- An entry that is refused before anything is stored. -/
theorem answer_refused {db db' : Db} {hostId : String} (outcome : HostUsageObservationOutcome)
    (h : outcome = .quarantined ∨ outcome = .rejectedPayloadConflict) (hobs : db.observations ⊆ db'.observations) :
    Answer db hostId a ⟨db', true, receiptFor a.observation outcome, []⟩ := by
  rcases h with rfl | rfl
  · exact ⟨rfl, by simp [receiptFor], fun _ => rfl, by simp [receiptFor], hobs⟩
  · exact ⟨rfl, by simp [receiptFor], fun _ => rfl, by simp [receiptFor], hobs⟩

theorem quarantineInput_observations (db : Db) (now : ℤ) (hostId : String) (identity : MachineIdentity)
    (o : HostUsageObservation) (key : ExceptionKey) (reason : QuarantineReason) (text : String) :
    (quarantineInput db now hostId identity o key reason text).observations = db.observations :=
  congrArg Tables.observations (exception_tables db _)

theorem ensureState_observations (db : Db) (identity : MachineIdentity) (o : HostUsageObservation) :
    (ensureState db identity o).1.observations = db.observations := by
  unfold ensureState
  split <;> rfl

/-- The insert: the row that stands for the entry is stored under the entry's key; it is either the
entry's own, and then the key is new for the host, or one that was there. -/
theorem insertObservation_spec {db db' : Db} {hostId : String} {duplicate : Bool}
    (h : insertObservation db hostId a = .ok (db', row, duplicate)) :
    db.observations ⊆ db'.observations ∧ row ∈ db'.observations ∧ row.hostId = hostId ∧
      row.key = a.observation.key ∧
      (duplicate = false → row.payload = a.observation ∧
        db.observations.find? (sameObservationKey hostId a.observation) = none) := by
  unfold insertObservation at h
  split_ifs at h
  split at h
  · next stored hfind =>
    cases h
    have hp := List.find?_some hfind
    simp only [sameObservationKey, Bool.and_eq_true, beq_iff_eq] at hp
    obtain ⟨⟨⟨⟨hh, hboot⟩, hl⟩, hg⟩, hseq⟩ := hp
    refine ⟨fun _ hx => hx, List.mem_of_find?_eq_some hfind, hh, ?_, fun hf => nomatch hf⟩
    simp only [StoredObservation.key, HostUsageObservation.key, hboot, hl, hg, hseq]
  · next hnone =>
    cases h
    exact ⟨List.subset_append_left _ _, List.mem_append_right _ (List.mem_singleton_self _), rfl, rfl,
      fun _ => ⟨rfl, hnone⟩⟩

/-- The receipt of the tail: `accepted` only for a row that was not a duplicate, `quarantined` exactly
when the host is flagged. -/
theorem finishEntry_receipt {db : Db} {now : ℤ} {hostId : String} {o : HostUsageObservation} {duplicate : Bool}
    {judged : List Judged} {entry : Entry} (h : finishEntry db now hostId identity o row duplicate judged = .ok entry) :
    entry.db.observations = db.observations ∧ entry.receipt = receiptFor o entry.receipt.outcome ∧
      (entry.receipt.outcome = .quarantined → entry.hostQuarantined = true) ∧
      entry.receipt.outcome ≠ .rejectedPayloadConflict ∧
      (entry.receipt.outcome = .accepted → duplicate = false) := by
  simp only [finishEntry] at h
  split at h
  · cases h
  · cases h
    have hex : ∀ d e, (exception d e).observations = d.observations :=
      fun d e => congrArg Tables.observations (exception_tables d e)
    refine ⟨?_, rfl, ?_, ?_, ?_⟩
    · simp only [resolveGaps]
      split_ifs <;> simp only [hex, quarantineHost]
    all_goals
      simp only [receiptFor]
      split_ifs <;> simp_all

/-- **The answer of one entry.** -/
theorem ingestOne_answer {db : Db} {now : ℤ} {hostId : String} {entry : Entry}
    (h : ingestOne db now hostId a = .ok entry) (hb : Books db.tables) (hh : Hosted db.tables) :
    Answer db hostId a entry := by
  simp only [ingestOne] at h
  split at h
  · cases h
  · next identity hid =>
    obtain ⟨hsel, h1, h2, _, h4, h5, _⟩ := machineIdentity_eq hid
    have hfor : SelectedFor db.tables hostId a identity := ⟨hsel, h1, h2, h4, h5⟩
    have hobs := ensureState_observations db identity a.observation
    split_ifs at h with hres hseq
    · cases h
      refine answer_refused .quarantined (Or.inl rfl) ?_
      rw [quarantineInput_observations, hobs]
      exact fun _ hx => hx
    · split at h
      · cases h
        refine answer_refused .quarantined (Or.inl rfl) ?_
        rw [quarantineInput_observations, hobs]
        exact fun _ hx => hx
      · obtain ⟨⟨db₁, row, duplicate⟩, hins, h⟩ := bind_ok h
        obtain ⟨hgrow, hmem, hhost, hkey, hnew⟩ := insertObservation_spec hins
        rw [hobs] at hgrow hnew
        dsimp only at h
        split_ifs at h with hdup
        · cases h
          refine answer_refused .rejectedPayloadConflict (Or.inr rfl) ?_
          rw [quarantineInput_observations]
          exact hgrow
        · have hpay : row.payload = a.observation := by
            cases duplicate with
            | false => exact (hnew rfl).1
            | true => simpa using hdup
          obtain ⟨⟨db₂, judged⟩, hd, h⟩ := bind_ok h
          have hobs₂ : db₂.observations = db₁.observations :=
            (drain_chain now identity _ db₁ db₂ _ judged
              (by rw [(insertObservation_hosts hins).2]; exact ensureState_state db h1) hd).2.2.1
          obtain ⟨e1, e2, e3, e4, e5⟩ := finishEntry_receipt h
          have hrows : entry.db.observations = db₁.observations := e1.trans hobs₂
          refine ⟨e2, fun _ => ⟨row, by rw [hrows]; exact hmem, hhost, hkey, hpay⟩, ?_, ?_, ?_⟩
          · rintro (hq | hc)
            · exact e3 hq
            · exact absurd hc e4
          · intro hacc
            exact key_fresh hb hh hfor (hnew (e5 hacc)).2
          · rw [hrows]
            exact hgrow

/-! ### A call -/

/-- Evidence survives the rest of the batch: stored rows stay, and a flag ends the batch. -/
theorem ingestLoop_evidence (now : ℤ) (hostId : String) (batch : List Arrival) : ∀ db q r,
    ingestLoop now hostId db q batch = .ok r → Books db.tables → Hosted db.tables →
    (q = true → desiredState db.hosts hostId = some .quarantined) →
    (q = false → Open db.hosts hostId) →
    List.Forall₂ (Evidence hostId r.db) batch r.receipts ∧ db.observations ⊆ r.db.observations := by
  induction batch with
  | nil =>
    intro db q r h _ _ _ _
    cases q <;> cases h <;> exact ⟨.nil, fun _ hx => hx⟩
  | cons a batch ih =>
    intro db q r h hb hh hquar hopen
    cases q with
    | true =>
      obtain ⟨r₁, hr, h⟩ := bind_ok h
      cases h
      obtain ⟨hrest, hgrow⟩ := ih db true r₁ hr hb hh hquar (fun hf => nomatch hf)
      refine ⟨.cons ⟨rfl, by simp [receiptFor], fun _ => ?_⟩ hrest, hgrow⟩
      dsimp only
      rw [(ingestLoop_quarantined now hostId batch db r₁ hr).1]
      exact hquar rfl
    | false =>
      obtain ⟨entry, he, h⟩ := bind_ok h
      obtain ⟨r₁, hr, h⟩ := bind_ok h
      cases h
      have hans := ingestOne_answer he hb hh
      obtain ⟨hb₁, hh₁⟩ := ingestOne_invariant hosted_invariant he ⟨hb, hh⟩
      obtain ⟨hflag, hkeep, _⟩ := ingestOne_host he (hopen rfl)
      obtain ⟨hrest, hgrow⟩ := ih entry.db entry.hostQuarantined r₁ hr hb₁ hh₁ hflag
        (fun hf => by rw [hkeep hf]; exact hopen rfl)
      refine ⟨.cons ⟨hans.receipt_eq, ?_, ?_⟩ hrest, fun _ hx => hgrow (hans.grows hx)⟩
      · intro hout
        obtain ⟨row, hrow, hfacts⟩ := hans.stored hout
        exact ⟨row, hgrow hrow, hfacts⟩
      · intro hout
        have hf := hans.flagged hout
        rw [hf] at hr
        dsimp only
        rw [(ingestLoop_quarantined now hostId batch _ r₁ hr).1]
        exact hflag hf

theorem acceptedKeys_cons (receipt : HostUsageObservationReceipt)
    (receipts : List HostUsageObservationReceipt) :
    acceptedKeys (receipt :: receipts) =
      if receipt.outcome = .accepted then receipt.key :: acceptedKeys receipts
      else acceptedKeys receipts := by
  unfold acceptedKeys
  by_cases h : receipt.outcome = .accepted <;> simp [h]

/-- Within one call the accepted keys are different, were not stored before and are stored after. -/
theorem ingestLoop_accepted (now : ℤ) (hostId : String) (batch : List Arrival) : ∀ db q r,
    ingestLoop now hostId db q batch = .ok r → Books db.tables → Hosted db.tables →
    db.observations ⊆ r.db.observations ∧ (acceptedKeys r.receipts).Nodup ∧
      ∀ k ∈ acceptedKeys r.receipts, k ∉ db.observations.map (·.key) ∧
        k ∈ r.db.observations.map (·.key) := by
  induction batch with
  | nil =>
    intro db q r h _ _
    cases q <;> cases h <;> exact ⟨fun _ hx => hx, List.nodup_nil, by simp [acceptedKeys]⟩
  | cons a batch ih =>
    intro db q r h hb hh
    cases q with
    | true =>
      obtain ⟨r₁, hr, h⟩ := bind_ok h
      cases h
      have hskip : acceptedKeys (receiptFor a.observation .quarantined :: r₁.receipts)
          = acceptedKeys r₁.receipts := by
        rw [acceptedKeys_cons]
        exact if_neg (by simp [receiptFor])
      dsimp only
      rw [hskip]
      exact ih db true r₁ hr hb hh
    | false =>
      obtain ⟨entry, he, h⟩ := bind_ok h
      obtain ⟨r₁, hr, h⟩ := bind_ok h
      cases h
      have hans := ingestOne_answer he hb hh
      obtain ⟨hb₁, hh₁⟩ := ingestOne_invariant hosted_invariant he ⟨hb, hh⟩
      obtain ⟨hgrow, hnodup, hkeys⟩ := ih entry.db entry.hostQuarantined r₁ hr hb₁ hh₁
      have hold : ∀ k ∈ acceptedKeys r₁.receipts, k ∉ db.observations.map (·.key) := by
        intro k hk hin
        obtain ⟨row, hrow, hrk⟩ := List.mem_map.mp hin
        exact (hkeys k hk).1 (List.mem_map.mpr ⟨row, hans.grows hrow, hrk⟩)
      refine ⟨fun _ hx => hgrow (hans.grows hx), ?_⟩
      dsimp only
      rw [acceptedKeys_cons]
      split_ifs with hacc
      · -- the key of this entry is stored by it, so no later entry can be accepted under it
        have hkey : entry.receipt.key = a.observation.key := by
          rw [hans.receipt_eq]
          rfl
        obtain ⟨row, hrow, _, hrowkey, _⟩ := hans.stored (Or.inl hacc)
        have hin : a.observation.key ∈ entry.db.observations.map (·.key) :=
          List.mem_map.mpr ⟨row, hrow, hrowkey⟩
        rw [hkey]
        refine ⟨List.nodup_cons.mpr ⟨fun hk => (hkeys _ hk).1 hin, hnodup⟩, ?_⟩
        intro k hk
        rcases List.mem_cons.mp hk with rfl | hk
        · refine ⟨?_, List.mem_map.mpr ⟨row, hgrow hrow, hrowkey⟩⟩
          intro hold
          obtain ⟨old, hmem, holdkey⟩ := List.mem_map.mp hold
          exact hans.fresh hacc old hmem holdkey
        · exact ⟨hold k hk, (hkeys k hk).2⟩
      · exact ⟨hnodup, fun k hk => ⟨hold k hk, (hkeys k hk).2⟩⟩

/-! ### Runs -/

/-- The receipts a transaction returns. -/
def MeteringAct.receipts (metering : AuthoritativeMetering) (db : Db) :
    MeteringAct → List HostUsageObservationReceipt
  | .ingest call =>
    match Billing.ingest metering db call with
    | .ok r => r.receipts
    | .error _ => []
  | _ => []

/-- The tables together with all receipts returned so far. -/
structure Ledgered where
  db : Db
  returned : List HostUsageObservationReceipt

def Returned (metering : AuthoritativeMetering) (s : Ledgered) (a : MeteringAct) (s' : Ledgered) :
    Prop :=
  MeteringStep metering s.db a s'.db ∧ s'.returned = s.returned ++ a.receipts metering s.db

/-- What is known of the receipts returned so far. -/
structure Accounted (s : Ledgered) : Prop where
  books : Books s.db.tables
  hosted : Hosted s.db.tables
  nodup : (acceptedKeys s.returned).Nodup
  stored : ∀ k ∈ acceptedKeys s.returned, k ∈ s.db.observations.map (·.key)

theorem acceptedKeys_append (rs rs' : List HostUsageObservationReceipt) :
    acceptedKeys (rs ++ rs') = acceptedKeys rs ++ acceptedKeys rs' := by
  simp [acceptedKeys]

theorem accounted_step {s s' : Ledgered} {a : MeteringAct} (hstep : Returned metering s a s') (h : Accounted s) :
    Accounted s' := by
  obtain ⟨db', returned⟩ := s'
  obtain ⟨hstep, hreturned⟩ := hstep
  dsimp only at hstep hreturned
  subst hreturned
  have hbooks := books_step hstep h.books
  cases hstep with
  | ingest call =>
    have hinv := commit_invariant hosted_invariant metering s.db call ⟨h.books, h.hosted⟩
    simp only [MeteringAct.receipts] at hbooks ⊢
    cases hr : ingest metering s.db call with
    | error e =>
      rw [hr] at hinv
      refine ⟨hinv.1, hinv.2, ?_, ?_⟩
      · simpa using h.nodup
      · simpa [commit] using h.stored
    | ok r =>
      rw [hr] at hinv
      obtain ⟨_, _, hloop⟩ := bind_ok hr
      obtain ⟨_, _, hloop⟩ := bind_ok hloop
      have hstamp := hosted_invariant.hosts s.db.tables (stampBatch s.db call).hosts ⟨h.books, h.hosted⟩
      obtain ⟨hgrow, hnodup, hkeys⟩ := ingestLoop_accepted call.now call.hostId call.batch _ false r
        hloop hstamp.1 hstamp.2
      refine ⟨hinv.1, hinv.2, ?_, ?_⟩
      · dsimp only
        rw [acceptedKeys_append, List.nodup_append]
        refine ⟨h.nodup, hnodup, ?_⟩
        rintro k hk _ hk' rfl
        exact (hkeys k hk').1 (h.stored k hk)
      · dsimp only
        rw [acceptedKeys_append]
        intro k hk
        rcases List.mem_append.mp hk with hk | hk
        · obtain ⟨row, hrow, hrk⟩ := List.mem_map.mp (h.stored k hk)
          exact List.mem_map.mpr ⟨row, hgrow hrow, hrk⟩
        · exact (hkeys k hk).2
  | closeHostLoss now machineId leaseId =>
    obtain ⟨machines, states, ht, _, hstates⟩ := closeHostLoss_tables s.db now machineId leaseId
    have hobs : (closeHostLoss s.db now machineId leaseId).1.observations = s.db.observations :=
      congrArg Tables.observations ht
    refine ⟨hbooks, ?_, by simpa [MeteringAct.receipts] using h.nodup, ?_⟩
    · rw [ht]
      rcases hstates with rfl | ⟨u, hu, rfl⟩
      · exact h.hosted
      · exact h.hosted.updateState (u.lossClosed now) hu rfl rfl rfl
    · simpa [MeteringAct.receipts, hobs] using h.stored
  | other hosts machines hschema =>
    exact ⟨hbooks, h.hosted, by simpa [MeteringAct.receipts] using h.nodup,
      by simpa [MeteringAct.receipts] using h.stored⟩

theorem accounted_run {s s' : Ledgered} {acts : List MeteringAct} (hrun : Run (Returned metering) s acts s')
    (h : Accounted s) : Accounted s' :=
  hrun.invariant (I := Accounted) (fun _ _ _ h hs => accounted_step hs h) h

/-- **An acknowledgement is evidence.**  In every state a run reaches from empty metering tables: each
receipt of a call names its observation in turn; an outcome `accepted`, `duplicate` or `pending_gap`
means that the exact payload is stored after the call, the outcomes `quarantined` and
`rejected_payload_conflict` that the call left the host quarantined, and so does an observation that is
acknowledged without being stored.  Over the whole run no key is accepted twice. -/
theorem acknowledgement_is_evidence (metering : AuthoritativeMetering) (db₀ : Db) (s : Ledgered)
    (acts : List MeteringAct) (hempty : MeteringEmpty db₀.tables) (hschema : Schema db₀.tables)
    (hrun : Run (Returned metering) ⟨db₀, []⟩ acts s) :
    (∀ call r, ingest metering s.db call = .ok r →
      List.Forall₂ (Evidence call.hostId r.db) call.batch r.receipts ∧
      ∀ a receipt, (a, receipt) ∈ call.batch.zip r.receipts →
        (∀ row ∈ r.db.observations, row.payload ≠ a.observation) →
        desiredState r.db.hosts call.hostId = some .quarantined) ∧
      (acceptedKeys s.returned).Nodup := by
  have hstart : Accounted ⟨db₀, []⟩ := by
    refine ⟨books_empty hempty hschema.lease_unique, ?_, List.nodup_nil, ?_⟩
    · intro o ho
      rw [show (⟨db₀, []⟩ : Ledgered).db.tables.observations = [] from hempty.observations] at ho
      cases ho
    · intro k hk
      cases hk
  have hacc := accounted_run hrun hstart
  refine ⟨fun call r hr => ?_, hacc.nodup⟩
  obtain ⟨_, _, hloop⟩ := bind_ok hr
  obtain ⟨host, hadmit, hloop⟩ := bind_ok hloop
  have hstamp := hosted_invariant.hosts s.db.tables (stampBatch s.db call).hosts
    ⟨hacc.books, hacc.hosted⟩
  obtain ⟨hev, _⟩ := ingestLoop_evidence call.now call.hostId call.batch _ false r hloop hstamp.1
    hstamp.2 (fun hf => nomatch hf) (fun _ => admitHost_open hadmit)
  refine ⟨hev, fun a receipt hmem hun => ?_⟩
  have he := List.forall₂_iff_zip.mp hev |>.2 hmem
  refine he.quarantined ?_
  by_contra hout
  have hgood : receipt.outcome = .accepted ∨ receipt.outcome = .duplicate ∨
      receipt.outcome = .pendingGap := by
    cases hx : receipt.outcome <;> simp_all
  obtain ⟨row, hrow, _, _, hpay⟩ := he.stored hgood
  exact hun row hrow hpay

namespace Sample

/-- The start is delivered a second time at the end of the batch. -/
def repeated : IngestCall :=
  call 1700000031000 [arrival start 1700000031000, arrival checkpoint 1700000031000,
    arrival start 1700000031000]

end Sample

/-- The theorem at the sample lease: the start and the checkpoint are accepted, once each. -/
theorem acknowledgement_is_evidence_sample :
    (acceptedKeys (MeteringAct.receipts {} Sample.db (.ingest Sample.repeated))).length = 2 ∧
      (acceptedKeys (MeteringAct.receipts {} Sample.db (.ingest Sample.repeated))).Nodup := by
  refine ⟨by decide +kernel, ?_⟩
  obtain ⟨_, hnodup⟩ := acknowledgement_is_evidence {} Sample.db
    ⟨commit Sample.db (ingest {} Sample.db Sample.repeated),
      [] ++ MeteringAct.receipts {} Sample.db (.ingest Sample.repeated)⟩
    [.ingest Sample.repeated] Sample.db_empty Sample.db_schema
    (.cons ⟨.ingest _ _, rfl⟩ (.nil _))
  exact hnodup

end Nehemiah.Billing
