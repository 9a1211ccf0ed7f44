import Nehemiah.Billing.Ledger
import Nehemiah.Billing.Sequence
import Nehemiah.Lib.Frontier

/-!
# Delivery order

A host may deliver the observations of a lease in any order inside the sequence window, in any batches
and with any repetitions.  After every turn the meter is where the gapless prefix of what has arrived puts
it (`Delivered`: `meterAt` and `billsAt` at the frontier), so two deliveries of one set of observations end
at the same place (`delivery_order_irrelevant`).

A turn is the step (`Delivered.turn`): a repetition changes nothing, an observation ahead of the frontier
waits, the one after the frontier sets off a drain to the new frontier.
-/

namespace Nehemiah.Billing

open Nehemiah.Lib

section Delivery

variable (L : Lease) (n : ℕ) (admitted : ℕ → ℤ)

/-! ### Deliveries -/

/-- The entries of a delivery, one after the other, from the sequence numbers seen before.  Each is an
observation of the lease; on its first arrival it is stored at its fixed time, and selected no earlier than
in sequence; it lies inside the sequence window; and if it leaves a gap, the host has room for one more
pending observation (`others` of them belong to other leases). -/
def Lease.Admissible (others : ℕ) : List ℕ → List Arrival → Prop
  | _, [] => True
  | seen, a :: rest =>
    let k := a.observation.sequence
    (1 ≤ k ∧ k ≤ n ∧ a.observation = L.obs k) ∧
      (k ∉ seen → a.receivedAt = L.received k ∧ admitted k ≤ a.admissionReceivedAt) ∧
      k ≤ frontier n seen + maximumForwardSequenceWindow ∧
      (frontier n seen + 1 < k →
        others + seen.countP (fun j => frontier n seen < j) < maximumPendingObservationsPerHost) ∧
      Lease.Admissible others (see seen k) rest

/-- The calls keep the batch interval of the host. -/
def Paced (metering : AuthoritativeMetering) : Option ℤ → List IngestCall → Prop
  | _, [] => True
  | last, call :: calls =>
    (∀ t, last = some t → t ≤ call.admittedAt - metering.minimumBatchIntervalMs) ∧
      Paced metering (some call.stampedAt) calls

/-- A way of delivering the observations `1` to `n`: any order, any batches, any repetitions. -/
structure Lease.Delivers (metering : AuthoritativeMetering) (host : HostRow) (others : ℕ)
    (calls : List IngestCall) : Prop where
  entries : L.Admissible n admitted others [] (calls.flatMap (·.batch))
  complete : ∀ k, 1 ≤ k → k ≤ n → ∃ a ∈ calls.flatMap (·.batch), a.observation.sequence = k
  hostId : ∀ call ∈ calls, call.hostId = L.hostId
  credential : ∀ call ∈ calls, call.credentialGeneration.all (· == host.credentialGeneration) = true
  size : ∀ call ∈ calls, 1 ≤ call.batch.length ∧ call.batch.length ≤ 256
  paced : Paced metering host.lastMeteringBatchAt calls

/-- The calls of a delivery, one transaction after the other. -/
def deliver (metering : AuthoritativeMetering) : Db → List IngestCall → Except MeteringError Db
  | db, [] => .ok db
  | db, call :: calls => do
    let r ← ingest metering db call
    deliver metering r.db calls

/-! ### Where a delivery stands -/

/-- The tables before the first observation of the lease arrives: the machine row is there, the meter is
not, and the host may deliver. -/
structure Lease.Awaited (m₀ : MachineRow) (host : HostRow) (db : Db) : Prop where
  machine : db.machines L.base.id = some m₀
  identity : L.base = m₀.identity L.base.id L.hostId L.base.hostMachineId L.base.admissionReceivedAt
  hostId : m₀.hostId = some L.hostId
  hostMachineId : m₀.hostMachineId = some L.base.hostMachineId
  unmetered : db.meterStates L.base.id = none
  hostRow : db.hosts L.hostId = some host
  desired : host.desiredState = .active ∨ host.desiredState = .draining
  credential : host.credentialStatus = .active

structure Lease.Fresh (m₀ : MachineRow) (host : HostRow) (db : Db) : Prop
    extends L.Awaited m₀ host db where
  books : Books db.tables

/-- The tables after the sequence numbers `seen` have arrived. -/
structure Lease.Delivered (m₀ : MachineRow) (db₀ db : Db) (seen : List ℕ) : Prop where
  books : Books db.tables
  range : ∀ k ∈ seen, 1 ≤ k ∧ k ≤ n
  observations : ∃ rows, db.observations = db₀.observations ++ rows ∧
    rows.map (·.sequence) = seen ∧ ∀ o ∈ rows, o = L.row o.id o.sequence
  others : ∀ id, id ≠ L.base.id → db.meterStates id = db₀.meterStates id
  state : db.meterStates L.base.id
    = if seen = [] then none else some (L.meterAt (frontier n seen))
  machine : ∃ m, db.machines L.base.id = some m ∧ m₀.SameLease m ∧
    (frontier n seen = 0 → m.usageCheckpointAt = m₀.usageCheckpointAt)
  bills : (db.rawEvents.filter fun e => e.leaseId == L.base.leaseId).map bill
    = L.billsAt (frontier n seen)

variable {L n admitted} {m₀ : MachineRow} {host : HostRow} {db₀ db : Db} {seen : List ℕ}

/-- No observation of the lease, and none of its raw events, is there before the first arrival. -/
theorem Lease.Fresh.absent (hf : L.Fresh m₀ host db₀) :
    (∀ o ∈ db₀.observations, o.machineId ≠ L.base.id ∧ o.leaseId ≠ L.base.leaseId) ∧
      ∀ e ∈ db₀.rawEvents, e.leaseId ≠ L.base.leaseId := by
  have hlease : m₀.leaseId = L.base.leaseId := by rw [hf.identity]; rfl
  -- a meter state with this lease would belong to this machine, which has none
  have key : ∀ id s, db₀.meterStates id = some s → s.leaseId ≠ L.base.leaseId := by
    intro id s hs hl
    obtain ⟨m, hm, _, _, hml, _⟩ := hf.books.state_ref id s hs
    have hid := hf.books.lease_unique id L.base.id m m₀ hm hf.machine (by rw [hml, hl, hlease])
    rw [hid, hf.unmetered] at hs
    cases hs
  refine ⟨fun o ho => ?_, fun e he => ?_⟩
  · obtain ⟨s, hs, hl, _⟩ := hf.books.observation_ref o ho
    refine ⟨fun hx => ?_, fun hx => key _ s hs (hl.trans hx)⟩
    rw [tables_meterStates, hx, hf.unmetered] at hs
    cases hs
  · obtain ⟨_, _, _, _, _, s, hs, hl, _⟩ := hf.books.event_ref e he
    exact fun hx => key _ s hs (hl.trans hx)

theorem Lease.Fresh.delivered (hf : L.Fresh m₀ host db₀) : L.Delivered n m₀ db₀ db₀ [] where
  books := hf.books
  range k hk := by cases hk
  observations := ⟨[], by simp, rfl, by simp⟩
  others _ _ := rfl
  state := by simp [hf.unmetered]
  machine := ⟨m₀, hf.machine, .refl _, fun _ => rfl⟩
  bills := by
    have hnil : db₀.rawEvents.filter (fun e => e.leaseId == L.base.leaseId) = [] := by
      rw [List.filter_eq_nil_iff]
      intro e he
      simpa using hf.absent.2 e he
    rw [hnil, frontier_nil]
    rfl

/-! ### Lookups -/

/-- Fields of a stored row of the lease. -/
theorem Lease.InOrder.row_fields (hin : L.InOrder n admitted) {o : StoredObservation}
    (ho : o = L.row o.id o.sequence) (h1 : 1 ≤ o.sequence) (hn : o.sequence ≤ n) :
    o.machineId = L.base.id ∧ o.leaseGeneration = L.base.leaseGeneration ∧
      o.hostBootId = uuidText (L.obs 1).hostBootId ∧ o.leaseId = L.base.leaseId ∧
      o.hostId = L.hostId ∧ o.payload = L.obs o.sequence := by
  rw [ho]
  have hseq : (L.row o.id o.sequence).sequence = o.sequence := hin.sequence o.sequence h1 hn
  refine ⟨hin.machineId _ h1 hn, hin.leaseGeneration _ h1 hn, (hin.boot _ h1 hn).2,
    hin.leaseId _ h1 hn, rfl, ?_⟩
  rw [hseq]
  rfl

/-- A search among the rows of the lease for a number that has arrived finds its row. -/
theorem find_row (rows : List StoredObservation) (p : StoredObservation → Bool) (k : ℕ)
    (hp : ∀ o ∈ rows, p o = (o.sequence == k)) (hk : k ∈ rows.map (·.sequence)) :
    ∃ o ∈ rows, rows.find? p = some o ∧ o.sequence = k := by
  obtain ⟨o, ho, hok⟩ := List.mem_map.mp hk
  have hsome : (rows.find? p).isSome := by
    rw [List.find?_isSome]
    exact ⟨o, ho, by rw [hp o ho]; simpa using hok⟩
  obtain ⟨o', ho'⟩ := Option.isSome_iff_exists.mp hsome
  have hmem := List.mem_of_find?_eq_some ho'
  refine ⟨o', hmem, ho', ?_⟩
  have := List.find?_some ho'
  rw [hp o' hmem] at this
  simpa using this

theorem find_row_none (rows : List StoredObservation) (p : StoredObservation → Bool) (k : ℕ)
    (hp : ∀ o ∈ rows, p o = (o.sequence == k)) (hk : k ∉ rows.map (·.sequence)) :
    rows.find? p = none := by
  rw [List.find?_eq_none]
  intro o ho hpo
  rw [hp o ho] at hpo
  exact hk (List.mem_map.mpr ⟨o, ho, by simpa using hpo⟩)

section Lookup

variable (rows : List StoredObservation)

theorem Lease.Fresh.lookup_rows (hf : L.Fresh m₀ host db₀) (k : ℕ) :
    L.lookup (db₀.observations ++ rows) k = L.lookup rows k := by
  have hnone : L.lookup db₀.observations k = none := by
    rw [Lease.lookup, List.find?_eq_none]
    intro o ho
    simp [(hf.absent.1 o ho).1]
  rw [Lease.lookup] at hnone ⊢
  rw [List.find?_append, hnone, Option.none_or]
  rfl

theorem Lease.Fresh.conflict_rows (hf : L.Fresh m₀ host db₀) (hin : L.InOrder n admitted) (k : ℕ)
    (h1 : 1 ≤ k) (hk : k ≤ n) :
    (db₀.observations ++ rows).find? (sameObservationKey L.hostId (L.obs k))
      = rows.find? (sameObservationKey L.hostId (L.obs k)) := by
  have hnone : db₀.observations.find? (sameObservationKey L.hostId (L.obs k)) = none := by
    rw [List.find?_eq_none]
    intro o ho
    have := (hf.absent.1 o ho).2
    simp [sameObservationKey, hin.leaseId k h1 hk, this]
  rw [List.find?_append, hnone, Option.none_or]

variable (hin : L.InOrder n admitted) (hrows : ∀ o ∈ rows, o = L.row o.id o.sequence)
  (hrange : ∀ k ∈ rows.map (·.sequence), 1 ≤ k ∧ k ≤ n)

include hin hrows hrange

/-- Among the rows of the lease a lookup only has to compare sequence numbers. -/
theorem lookup_pred (k : ℕ) : ∀ o ∈ rows, (o.machineId == L.base.id
    && o.leaseGeneration == L.base.leaseGeneration
    && o.hostBootId == uuidText (L.obs 1).hostBootId && o.sequence == k) = (o.sequence == k) := by
  intro o ho
  have hr := hrange o.sequence (List.mem_map_of_mem ho)
  obtain ⟨h1, h2, h3, _⟩ := hin.row_fields (hrows o ho) hr.1 hr.2
  simp [h1, h2, h3]

theorem lookup_mem (k : ℕ) (hk : k ∈ rows.map (·.sequence)) :
    ∃ id, L.lookup rows k = some (L.row id k) := by
  obtain ⟨o, ho, hfind, hseq⟩ := find_row rows _ k (lookup_pred rows hin hrows hrange k) hk
  refine ⟨o.id, ?_⟩
  rw [Lease.lookup, hfind, ← hseq, ← hrows o ho]

theorem lookup_none (k : ℕ) (hk : k ∉ rows.map (·.sequence)) : L.lookup rows k = none :=
  find_row_none rows _ k (lookup_pred rows hin hrows hrange k) hk

/-- So does the conflict target of the insert. -/
theorem conflict_pred (k : ℕ) (h1 : 1 ≤ k) (hk : k ≤ n) :
    ∀ o ∈ rows, sameObservationKey L.hostId (L.obs k) o = (o.sequence == k) := by
  intro o ho
  have hr := hrange o.sequence (List.mem_map_of_mem ho)
  obtain ⟨_, e2, e3, e4, e5, _⟩ := hin.row_fields (hrows o ho) hr.1 hr.2
  simp [sameObservationKey, e2, e3, e4, e5, hin.leaseId k h1 hk, hin.leaseGeneration k h1 hk,
    (hin.boot k h1 hk).2, hin.sequence k h1 hk]

/-- The pending observations of the lease are those past the cursor. -/
theorem pending_rows (db : Db) (c : ℕ) (hc : c ≤ n)
    (hs : db.meterStates L.base.id = some (L.meterAt c)) :
    rows.countP (fun o => o.hostId == L.hostId && isPending db o)
      = (rows.map (·.sequence)).countP (fun k => c < k) := by
  rw [List.countP_map]
  refine List.countP_congr fun o ho => ?_
  have hr := hrange o.sequence (List.mem_map_of_mem ho)
  obtain ⟨h1, h2, _, _, h5, _⟩ := hin.row_fields (hrows o ho) hr.1 hr.2
  obtain ⟨_, hseq, _, _, hgen, _⟩ := hin.meterAt_facts c hc
  simp [isPending, h1, h2, h5, hs, hseq, hgen]

end Lookup

/-! ### A turn -/

theorem inputVerdict_accepted (row : StoredObservation) (judged : List Judged)
    (h : ∀ j ∈ judged, j.2 = .accepted) : (inputVerdict row judged).2 = false := by
  have key : ∀ (js : List Judged) (acc : Bool × Bool), (∀ j ∈ js, j.2 = .accepted) → acc.2 = false →
      (js.foldl (fun acc j => if j.1.id = row.id then (true, decide (j.2 = .quarantined)) else acc)
        acc).2 = false := by
    intro js
    induction js with
    | nil => exact fun acc _ hacc => hacc
    | cons j js ih =>
      intro acc hjs hacc
      rw [List.foldl_cons]
      refine ih _ (fun i hi => hjs i (List.mem_cons_of_mem j hi)) ?_
      split_ifs
      · simp [hjs j List.mem_cons_self]
      · exact hacc
  exact key judged (false, false) h rfl

theorem finishEntry_clean (db : Db) (now : ℤ) (hostId : String) (identity : MachineIdentity)
    (o : HostUsageObservation) (row : StoredObservation) (duplicate : Bool) (judged : List Judged)
    (hs : (db.meterStates o.machineId).isSome) (hj : ∀ j ∈ judged, j.2 = .accepted) :
    ∃ entry, finishEntry db now hostId identity o row duplicate judged = .ok entry ∧
      entry.hostQuarantined = false ∧ entry.db.tables = db.tables := by
  have hv := inputVerdict_accepted row judged hj
  obtain ⟨s, hs⟩ := Option.isSome_iff_exists.mp hs
  simp only [finishEntry, hv, Bool.false_eq_true, if_false, stateForUpdate, hs]
  refine ⟨_, rfl, rfl, ?_⟩
  rw [resolveGaps_tables]
  split_ifs
  · exact exception_tables _ _
  · rfl

/-- The machine row that a turn selects agrees with the one of the first turn. -/
theorem Lease.Delivered.identity (hin : L.InOrder n admitted) (hf : L.Fresh m₀ host db₀)
    (hd : L.Delivered n m₀ db₀ db seen) (a : Arrival) (k : ℕ) (h1 : 1 ≤ k) (hk : k ≤ n)
    (ha : a.observation = L.obs k) :
    ∃ identity, machineIdentity db L.hostId a = some identity ∧ identity.Agrees L.base ∧
      identity.admissionReceivedAt = a.admissionReceivedAt ∧
      (frontier n seen = 0 → identity.usageCheckpointAt = L.base.usageCheckpointAt) := by
  obtain ⟨m, hm, hsame, hu⟩ := hd.machine
  have hbase := hf.identity
  have hlease : m₀.leaseId = L.base.leaseId := by rw [hbase]; rfl
  have hgen : m₀.leaseGeneration = L.base.leaseGeneration := by rw [hbase]; rfl
  have hmatch : m.hostId = some L.hostId ∧ m.hostMachineId = some L.base.hostMachineId
      ∧ m.leaseId = uuidText (L.obs k).leaseId ∧ m.leaseGeneration = (L.obs k).leaseGeneration := by
    rw [hsame.hostId, hsame.hostMachineId, hsame.leaseId, hsame.leaseGeneration,
      hin.leaseId k h1 hk, hin.leaseGeneration k h1 hk]
    exact ⟨hf.hostId, hf.hostMachineId, hlease, hgen⟩
  refine ⟨m.identity L.base.id L.hostId L.base.hostMachineId a.admissionReceivedAt, ?_, ?_, rfl, ?_⟩
  · simp only [machineIdentity, ha, hin.machineId k h1 hk, hm, hin.hostMachineId k h1 hk]
    exact if_pos hmatch
  · rw [MachineIdentity.Agrees, hbase]
    simp only [MachineRow.identity, hsame.organizationId, hsame.projectId, hsame.leaseId,
      hsame.leaseGeneration, hsame.vcpus, hsame.memoryMb, hsame.createdAt, hsame.startedAt,
      hsame.state, hsame.expiresAt]
  · intro h0
    rw [hbase]
    exact hu h0

/-- The meter state that a turn works from: the one of the frontier, inserted on the first arrival. -/
theorem Lease.Delivered.ensureState (hin : L.InOrder n admitted)
    (hd : L.Delivered n m₀ db₀ db seen) {identity : MachineIdentity} (hag : identity.Agrees L.base)
    (k : ℕ) (h1 : 1 ≤ k) (hk : k ≤ n) :
    (ensureState db identity (L.obs k)).2 = L.meterAt (frontier n seen) ∧
      (ensureState db identity (L.obs k)).1.tables =
        { db.tables with
          meterStates := Function.update db.meterStates L.base.id
            (some (L.meterAt (frontier n seen))) } := by
  have hid : identity.id = L.base.id := by rw [hag]
  have hst := hd.state
  by_cases hseen : seen = []
  · rw [if_pos hseen] at hst
    have hinit := hin.initialState identity hag k h1 hk
    have h0 : frontier n seen = 0 := by rw [hseen, frontier_nil]
    simp only [Billing.ensureState, stateForUpdate, hin.machineId k h1 hk, hst, insertState, hinit, h0]
    exact ⟨trivial, by rw [hid]; rfl⟩
  · rw [if_neg hseen] at hst
    simp only [Billing.ensureState, stateForUpdate, hin.machineId k h1 hk, hst]
    exact ⟨trivial, by rw [← hst, Function.update_eq_self]; rfl⟩

/-- The sequence check passes inside the window. -/
theorem Lease.Delivered.no_violation (hin : L.InOrder n admitted) (hf : L.Fresh m₀ host db₀)
    (hd : L.Delivered n m₀ db₀ db seen) (db₁ : Db)
    (ht : db₁.tables = { db.tables with
      meterStates := Function.update db.meterStates L.base.id (some (L.meterAt (frontier n seen))) })
    (k : ℕ) (h1 : 1 ≤ k) (hk : k ≤ n) (hwin : k ≤ frontier n seen + maximumForwardSequenceWindow)
    (hpend : frontier n seen + 1 < k → pendingCount db₀ L.hostId
      + seen.countP (fun j => frontier n seen < j) < maximumPendingObservationsPerHost) :
    sequenceViolation db₁ L.hostId (L.meterAt (frontier n seen)) (L.obs k) = false := by
  obtain ⟨_, hseq, hboot, _⟩ := hin.meterAt_facts (frontier n seen) (frontier_le n seen)
  obtain ⟨rows, hobs, hmap, hrows⟩ := hd.observations
  have hm₁ : db₁.meterStates = Function.update db.meterStates L.base.id
      (some (L.meterAt (frontier n seen))) := congrArg Tables.meterStates ht
  have hobs₁ : db₁.observations = db₀.observations ++ rows :=
    (congrArg Tables.observations ht).trans hobs
  -- the other leases of the host wait for the same observations as before
  have hcount : pendingCount db₁ L.hostId
      = pendingCount db₀ L.hostId + seen.countP (fun j => frontier n seen < j) := by
    rw [pendingCount, hobs₁, List.countP_append]
    congr 1
    · refine List.countP_congr fun o ho => ?_
      have hne := (hf.absent.1 o ho).1
      simp only [isPending, hm₁, Function.update_of_ne hne, hd.others o.machineId hne]
    · rw [pending_rows rows hin hrows (by rw [hmap]; exact hd.range) db₁ _ (frontier_le n seen)
        (by rw [hm₁, Function.update_self]), hmap]
  simp only [sequenceViolation, hboot, (hin.boot k h1 hk).1, hseq, hin.sequence k h1 hk, hcount,
    bne_self_eq_false, Bool.false_or, Bool.or_eq_false_iff, Bool.and_eq_false_iff,
    decide_eq_false_iff_not, not_lt, not_le]
  refine ⟨hwin, ?_⟩
  rcases Nat.lt_or_ge (frontier n seen + 1) k with h | h
  · exact Or.inr (hpend h)
  · exact Or.inl h

/-- The row of an arrival is stored once. -/
theorem Lease.Delivered.insert (hin : L.InOrder n admitted) (hf : L.Fresh m₀ host db₀)
    (hd : L.Delivered n m₀ db₀ db seen) (db₁ : Db) (hobs₁ : db₁.observations = db.observations)
    (a : Arrival) (k : ℕ) (h1 : 1 ≤ k) (hk : k ≤ n) (ha : a.observation = L.obs k)
    (htime : k ∉ seen → a.receivedAt = L.received k) :
    ∃ db₂ row duplicate rows, insertObservation db₁ L.hostId a = .ok (db₂, row, duplicate) ∧
      row.payload = L.obs k ∧ db₂.observations = db₀.observations ++ rows ∧
      rows.map (·.sequence) = see seen k ∧ (∀ o ∈ rows, o = L.row o.id o.sequence) ∧
      db₂.hosts = db₁.hosts ∧ db₂.machines = db₁.machines ∧ db₂.meterStates = db₁.meterStates ∧
      db₂.rawEvents = db₁.rawEvents := by
  obtain ⟨rows, hobs, hmap, hrows⟩ := hd.observations
  have hrange : ∀ j ∈ rows.map (·.sequence), 1 ≤ j ∧ j ≤ n := by
    rw [hmap]
    exact hd.range
  have hpid : ¬ 2147483647 < a.observation.processId := by
    rw [ha, not_lt]
    exact hin.processId k h1 hk
  have hfind : db₁.observations.find? (sameObservationKey L.hostId a.observation)
      = rows.find? (sameObservationKey L.hostId (L.obs k)) := by
    rw [hobs₁, hobs, ha, hf.conflict_rows rows hin k h1 hk]
  have hpred := conflict_pred rows hin hrows hrange k h1 hk
  by_cases hmem : k ∈ seen
  · obtain ⟨o, ho, hsome, hseq⟩ := find_row rows _ k hpred (by rw [hmap]; exact hmem)
    have hr := hrange o.sequence (List.mem_map_of_mem ho)
    refine ⟨{ db₁ with nextObservationId := db₁.nextObservationId + 1 }, o, true, rows, ?_, ?_,
      hobs₁.trans hobs, ?_, hrows, rfl, rfl, rfl, rfl⟩
    · simp only [insertObservation, if_neg hpid, hfind, hsome]
    · rw [(hin.row_fields (hrows o ho) hr.1 hr.2).2.2.2.2.2, hseq]
    · rw [hmap, see_of_mem hmem]
  · have hnone := find_row_none rows _ k hpred (by rw [hmap]; exact hmem)
    have hrow : storedObservation db₁.nextObservationId L.hostId a = L.row db₁.nextObservationId k := by
      simp only [storedObservation, Lease.row, ha, htime hmem]
    have hrowseq : (L.row db₁.nextObservationId k).sequence = k := hin.sequence k h1 hk
    refine ⟨{ db₁ with
        observations := db₁.observations ++ [L.row db₁.nextObservationId k]
        nextObservationId := db₁.nextObservationId + 1 }, L.row db₁.nextObservationId k, false,
      rows ++ [L.row db₁.nextObservationId k], ?_, rfl, ?_, ?_, ?_, rfl, rfl, rfl, rfl⟩
    · simp only [insertObservation, if_neg hpid, hfind, hnone, hrow]
    · rw [hobs₁, hobs, List.append_assoc]
    · rw [List.map_append, hmap, see, if_neg hmem, List.map_singleton, hrowseq]
    · intro o ho
      rcases List.mem_append.mp ho with ho | ho
      · exact hrows o ho
      · rw [List.mem_singleton.mp ho, hrowseq]
        rfl

/-- Numbers `c + 1` to `c'` among the rows need as many rows. -/
theorem rows_length (rows : List ℕ) (c c' : ℕ) (h : ∀ k, c < k → k ≤ c' → k ∈ rows) :
    c' - c ≤ rows.length := by
  have hsub : List.range' (c + 1) (c' - c) ⊆ rows := by
    intro k hk
    rw [List.mem_range'_1] at hk
    exact h k (by omega) (by omega)
  have := (List.subperm_of_subset (List.nodup_range') hsub).length_le
  simpa using this

/-- **A turn of the batch loop.**  It goes through, leaves the host alone and moves the meter to the
frontier of what has arrived. -/
theorem Lease.Delivered.turn (hin : L.InOrder n admitted) (hf : L.Fresh m₀ host db₀)
    (hd : L.Delivered n m₀ db₀ db seen) (now : ℤ) (a : Arrival) (k : ℕ) (h1 : 1 ≤ k) (hk : k ≤ n)
    (ha : a.observation = L.obs k)
    (htime : k ∉ seen → a.receivedAt = L.received k ∧ admitted k ≤ a.admissionReceivedAt)
    (hwin : k ≤ frontier n seen + maximumForwardSequenceWindow)
    (hpend : frontier n seen + 1 < k → pendingCount db₀ L.hostId
      + seen.countP (fun j => frontier n seen < j) < maximumPendingObservationsPerHost) :
    ∃ entry, ingestOne db now L.hostId a = .ok entry ∧ entry.hostQuarantined = false ∧
      entry.db.hosts = db.hosts ∧ L.Delivered n m₀ db₀ entry.db (see seen k) := by
  obtain ⟨identity, hident, hag, hadm, hu⟩ := hd.identity hin hf a k h1 hk ha
  have hid : identity.id = L.base.id := by rw [hag]
  obtain ⟨hstate, ht₁⟩ := hd.ensureState hin hag k h1 hk
  set c := frontier n seen with hc
  set c' := frontier n (see seen k) with hc'
  set db₁ := (Billing.ensureState db identity (L.obs k)).1 with hdb₁
  have hmem : ∀ j ∈ seen, j ∈ see seen k := fun j hj => mem_see.mpr (Or.inl hj)
  have hmono : c ≤ c' := frontier_mono hmem
  have hrange : ∀ j ∈ see seen k, 1 ≤ j ∧ j ≤ n := by
    intro j hj
    rcases mem_see.mp hj with hj | rfl
    · exact hd.range j hj
    · exact ⟨h1, hk⟩
  have hviol : sequenceViolation db₁ L.hostId (L.meterAt c) (L.obs k) = false :=
    hd.no_violation hin hf db₁ ht₁ k h1 hk hwin hpend
  -- the observation after the frontier is checked again at admission
  have hinteg : integrityViolation identity (L.meterAt c) (L.obs k) = none := by
    have hlast := (hin.meterAt_facts c (frontier_le n seen)).2.1
    unfold integrityViolation
    split_ifs with hnext
    · rw [hlast, hin.sequence k h1 hk] at hnext
      have hnew : k ∉ seen := by
        rw [hnext]
        exact succ_frontier_notMem fun j hj => (hd.range j hj).2
      rw [hag.integrity, hadm]
      refine observationIntegrityReason_mono (htime hnew).2 ?_
      rw [hnext]
      exact hin.admission c (by omega)
    · rfl
  have hsel : SelectedFor db.tables L.hostId a identity := by
    obtain ⟨hs, e1, e2, _, e4, e5, _⟩ := machineIdentity_eq hident
    exact ⟨hs, e1, e2, e4, e5⟩
  obtain ⟨hI₁, hsel₁, _⟩ := ensureState_invariant books_invariant hsel hd.books
  rw [ha] at hI₁ hsel₁
  have hm₁ : db₁.meterStates L.base.id = some (L.meterAt c) := by
    have h : db₁.meterStates = Function.update db.meterStates L.base.id (some (L.meterAt c)) :=
      congrArg Tables.meterStates ht₁
    rw [h, Function.update_self]
  obtain ⟨db₂, row, duplicate, rows, hins, hpay, hobs₂, hmap, hrows, hh₂, hmach₂, hm₂, hraw₂⟩ :=
    hd.insert hin hf db₁ (congrArg Tables.observations ht₁) a k h1 hk ha fun h => (htime h).1
  obtain ⟨hI₂, hsel₂⟩ := insertObservation_invariant books_invariant hsel₁
    (by rw [hid, hm₁]; rfl) hins hI₁
  have hrange' : ∀ j ∈ rows.map (·.sequence), 1 ≤ j ∧ j ≤ n := by
    rw [hmap]
    exact hrange
  have hstored : ∀ j, c < j → j ≤ c' → j ∈ rows.map (·.sequence) := by
    intro j _ hj
    rw [hmap]
    exact mem_of_le_frontier (by omega) hj
  have hfuel : c' - c < db₂.observations.length + 1 := by
    have := rows_length (rows.map (·.sequence)) c c' hstored
    rw [List.length_map] at this
    rw [hobs₂, List.length_append]
    omega
  obtain ⟨db₃, judged, es, hdrain, hacc, hadv, hsame, hraw₃, hlease, hbills⟩ :=
    hin.drain now hag c' (frontier_le n _) (c' - c) c (db₂.observations.length + 1) db₂ (by omega)
      hfuel hI₂ hsel₂ (by rw [hm₂, hm₁]) hu
      (by
        intro j hj1 hj2
        rw [hobs₂, hf.lookup_rows]
        exact lookup_mem rows hin hrows hrange' j (hstored j hj1 hj2))
      (by
        rw [hobs₂, hf.lookup_rows]
        refine lookup_none rows hin hrows hrange' _ ?_
        rw [hmap]
        exact succ_frontier_notMem fun j hj => (hrange j hj).2)
  have hm₃ : db₃.meterStates L.base.id = some (L.meterAt c') := by
    rw [hadv.meterStates, Function.update_self]
  obtain ⟨entry, hfin, hq, htab⟩ := finishEntry_clean db₃ now L.hostId identity (L.obs k) row
    duplicate judged (by rw [hin.machineId k h1 hk, hm₃]; rfl) hacc
  have hrun : ingestOne db now L.hostId a = .ok entry := by
    have hres : ¬ (identity.vcpus ≠ (L.obs k).vcpus ∨ identity.memoryBytes ≠ (L.obs k).memoryBytes) := by
      rw [hag, hin.vcpus k h1 hk, hin.memoryBytes k h1 hk]
      simp
    have hdup : ¬ (duplicate && row.payload != L.obs k) = true := by simp [hpay]
    simp only [ingestOne, hident, ha, if_neg hres, hstate, ← hdb₁, hviol, hinteg, Bool.false_eq_true,
      if_false, storeAndDrain]
    rw [bind_of_ok hins]
    simp only [if_neg hdup]
    rw [bind_of_ok hdrain]
    exact hfin
  have hmach₁ : db₁.machines = db.machines := congrArg Tables.machines ht₁
  have hraw₁ : db₁.rawEvents = db.rawEvents := congrArg Tables.rawEvents ht₁
  have hents : entry.db.meterStates = db₃.meterStates := congrArg Tables.meterStates htab
  refine ⟨entry, hrun, hq, ?_, ?_⟩
  · have h₁ : db₁.hosts = db.hosts := congrArg Tables.hosts ht₁
    rw [show entry.db.hosts = db₃.hosts from congrArg Tables.hosts htab, hadv.hosts, hh₂, h₁]
  · refine ⟨ingestOne_invariant books_invariant hrun hd.books, hrange, ⟨rows, ?_, hmap, hrows⟩, ?_, ?_,
      ?_, ?_⟩
    · rw [show entry.db.observations = db₃.observations from congrArg Tables.observations htab,
        hadv.observations, hobs₂]
    · intro id hne
      have h : db₁.meterStates = Function.update db.meterStates L.base.id (some (L.meterAt c)) :=
        congrArg Tables.meterStates ht₁
      rw [hents, hadv.meterStates, Function.update_of_ne hne, hm₂, h, Function.update_of_ne hne]
      exact hd.others id hne
    · rw [if_neg, hents, hm₃]
      intro hnil
      have := mem_see.mpr (Or.inr rfl : k ∈ seen ∨ k = k)
      rw [hnil] at this
      cases this
    · obtain ⟨m, hm, hsl, hu0⟩ := hd.machine
      have hkept : MachinesKept db.machines entry.db.machines := by
        rw [show entry.db.machines = db₃.machines from congrArg Tables.machines htab, ← hmach₁,
          ← hmach₂]
        exact hadv.machines
      obtain ⟨m', hm', hsl'⟩ := hkept.row hm
      refine ⟨m', hm', hsl.trans hsl', fun h0 => ?_⟩
      -- at frontier `0` nothing has been processed
      have hcc : c' = c := by omega
      rw [show entry.db.machines = db₃.machines from congrArg Tables.machines htab, hsame hcc, hmach₂,
        hmach₁, hm] at hm'
      cases hm'
      exact hu0 (by omega)
    · rw [show entry.db.rawEvents = db₃.rawEvents from congrArg Tables.rawEvents htab, hraw₃, hraw₂,
        hraw₁, List.filter_append, List.map_append, hd.bills]
      have hall : es.filter (fun e => e.leaseId == L.base.leaseId) = es := by
        rw [List.filter_eq_self]
        intro e he
        simpa using hlease e he
      rw [hall]
      exact hbills

/-! ### Calls -/

/-- The sequence numbers seen after a list of entries. -/
def seeAll (seen : List ℕ) (batch : List Arrival) : List ℕ :=
  batch.foldl (fun seen a => see seen a.observation.sequence) seen

theorem seeAll_append (seen : List ℕ) (b b' : List Arrival) :
    seeAll seen (b ++ b') = seeAll (seeAll seen b) b' := List.foldl_append

theorem mem_seeAll {batch : List Arrival} : ∀ {seen : List ℕ} {k : ℕ},
    k ∈ seeAll seen batch ↔ k ∈ seen ∨ ∃ a ∈ batch, a.observation.sequence = k := by
  induction batch with
  | nil => simp [seeAll]
  | cons a rest ih =>
    intro seen k
    rw [seeAll, List.foldl_cons, ← seeAll, ih, mem_see]
    constructor
    · rintro ((h | rfl) | ⟨b, hb, h⟩)
      · exact Or.inl h
      · exact Or.inr ⟨a, List.mem_cons_self, rfl⟩
      · exact Or.inr ⟨b, List.mem_cons_of_mem a hb, h⟩
    · rintro (h | ⟨b, hb, h⟩)
      · exact Or.inl (Or.inl h)
      · rcases List.mem_cons.mp hb with rfl | hb
        · exact Or.inl (Or.inr h.symm)
        · exact Or.inr ⟨b, hb, h⟩

theorem admissible_append {others : ℕ} (b b' : List Arrival) : ∀ {seen : List ℕ},
    L.Admissible n admitted others seen (b ++ b') →
      L.Admissible n admitted others seen b ∧
        L.Admissible n admitted others (seeAll seen b) b' := by
  induction b with
  | nil => exact fun h => ⟨trivial, h⟩
  | cons a rest ih =>
    intro seen h
    obtain ⟨h1, h2, h3, h4, hrest⟩ := h
    obtain ⟨hl, hr⟩ := ih hrest
    exact ⟨⟨h1, h2, h3, h4, hl⟩, hr⟩

theorem admissible_valid (hin : L.InOrder n admitted) {others : ℕ} (b : List Arrival) :
    ∀ {seen : List ℕ}, L.Admissible n admitted others seen b →
      ∀ a ∈ b, validateObservation a.observation = .ok () := by
  induction b with
  | nil => exact fun _ a ha => nomatch ha
  | cons a rest ih =>
    rintro seen ⟨⟨h1, hn, ho⟩, _, _, _, hrest⟩ x hx
    rcases List.mem_cons.mp hx with rfl | hx
    · rw [ho]
      exact hin.valid _ h1 hn
    · exact ih hrest x hx

theorem validateBatch_ok {batch : List Arrival} (hsize : 1 ≤ batch.length ∧ batch.length ≤ 256)
    (hall : ∀ a ∈ batch, validateObservation a.observation = .ok ()) :
    validateBatch batch = .ok () := by
  rw [validateBatch, if_neg (by omega)]
  clear hsize
  induction batch with
  | nil => rfl
  | cons a rest ih =>
    rw [List.forM_eq_forM, List.forM_cons, hall a List.mem_cons_self]
    exact ih fun x hx => hall x (List.mem_cons_of_mem a hx)

/-- **A batch.**  The turns one after the other. -/
theorem Lease.Delivered.loop (hin : L.InOrder n admitted) (hf : L.Fresh m₀ host db₀) (now : ℤ)
    (batch : List Arrival) : ∀ {db : Db} {seen : List ℕ}, L.Delivered n m₀ db₀ db seen →
      L.Admissible n admitted (pendingCount db₀ L.hostId) seen batch →
      ∃ r, ingestLoop now L.hostId db false batch = .ok r ∧ r.hostQuarantined = false ∧
        r.db.hosts = db.hosts ∧ L.Delivered n m₀ db₀ r.db (seeAll seen batch) := by
  induction batch with
  | nil => exact fun hd _ => ⟨_, rfl, rfl, rfl, hd⟩
  | cons a rest ih =>
    rintro db seen hd ⟨⟨h1, hn, ho⟩, htime, hwin, hpend, hrest⟩
    obtain ⟨entry, hone, hq, hhosts, hd'⟩ := hd.turn hin hf now a _ h1 hn ho htime hwin hpend
    obtain ⟨r, hr, hrq, hrh, hrd⟩ := ih hd' hrest
    have hrun : ingestLoop now L.hostId db false (a :: rest) = .ok
        { r with receipts := entry.receipt :: r.receipts, judged := entry.judged ++ r.judged } := by
      rw [ingestLoop, bind_of_ok hone, hq, bind_of_ok hr]
      rfl
    exact ⟨_, hrun, hrq, hrh.trans hhosts, hrd⟩

/-- The row of the host between two calls. -/
def HostRow.stamped (host : HostRow) (last : Option ℤ) : HostRow :=
  { host with lastMeteringBatchAt := last }

/-- Stamping the host's row is none of the lease's business. -/
theorem Lease.Delivered.stamp (hd : L.Delivered n m₀ db₀ db seen) (call : IngestCall) :
    L.Delivered n m₀ db₀ (stampBatch db call) seen :=
  ⟨books_invariant.hosts db.tables _ hd.books, hd.range, hd.observations, hd.others, hd.state,
    hd.machine, hd.bills⟩

/-- **A call.**  It is admitted and its batch goes through. -/
theorem Lease.Delivered.call (hin : L.InOrder n admitted) (hf : L.Fresh m₀ host db₀)
    (hd : L.Delivered n m₀ db₀ db seen) (metering : AuthoritativeMetering) (last : Option ℤ)
    (hhost : db.hosts L.hostId = some (host.stamped last)) (c : IngestCall)
    (hid : c.hostId = L.hostId)
    (hcred : c.credentialGeneration.all (· == host.credentialGeneration) = true)
    (hsize : 1 ≤ c.batch.length ∧ c.batch.length ≤ 256)
    (hpace : ∀ t, last = some t → t ≤ c.admittedAt - metering.minimumBatchIntervalMs)
    (hadm : L.Admissible n admitted (pendingCount db₀ L.hostId) seen c.batch) :
    ∃ r, ingest metering db c = .ok r ∧
      r.db.hosts L.hostId = some (host.stamped (some c.stampedAt)) ∧
      L.Delivered n m₀ db₀ r.db (seeAll seen c.batch) := by
  obtain ⟨r, hr, _, hrh, hrd⟩ := (hd.stamp c).loop hin hf c.now c.batch hadm
  have hvalid := validateBatch_ok hsize (admissible_valid hin c.batch hadm)
  have hadmit : admitHost metering db c = .ok (host.stamped last) := by
    have hopen : ¬ ((host.desiredState ≠ .active ∧ host.desiredState ≠ .draining)
        ∨ host.credentialStatus ≠ .active
        ∨ c.credentialGeneration.any (· != host.credentialGeneration) = true) := by
      rintro (⟨h1, h2⟩ | h | h)
      · exact hf.desired.elim h1 h2
      · exact h hf.credential
      · cases hg : c.credentialGeneration with
        | none => simp [hg] at h
        | some g => simp_all
    have hcadence : ¬ last.any
        (fun last => decide (c.admittedAt - metering.minimumBatchIntervalMs < last)) = true := by
      cases last with
      | none => simp
      | some t => simpa using hpace t rfl
    simp only [admitHost, hid, hhost, HostRow.stamped]
    rw [if_neg hopen, if_neg hcadence]
  refine ⟨r, ?_, ?_, hrd⟩
  · rw [ingest, bind_of_ok hvalid, bind_of_ok hadmit, hid]
    exact hr
  · rw [hrh]
    simp only [stampBatch, hid, Function.update_self, hhost, Option.map_some]
    rfl

/-- **A delivery.**  Every call goes through. -/
theorem Lease.Delivered.deliver (hin : L.InOrder n admitted) (hf : L.Fresh m₀ host db₀)
    (metering : AuthoritativeMetering) (calls : List IngestCall) :
    ∀ {db : Db} {seen : List ℕ} {last : Option ℤ}, L.Delivered n m₀ db₀ db seen →
      db.hosts L.hostId = some (host.stamped last) →
      (∀ c ∈ calls, c.hostId = L.hostId) →
      (∀ c ∈ calls, c.credentialGeneration.all (· == host.credentialGeneration) = true) →
      (∀ c ∈ calls, 1 ≤ c.batch.length ∧ c.batch.length ≤ 256) →
      Paced metering last calls →
      L.Admissible n admitted (pendingCount db₀ L.hostId) seen (calls.flatMap (·.batch)) →
      ∃ db', Billing.deliver metering db calls = .ok db' ∧
        L.Delivered n m₀ db₀ db' (seeAll seen (calls.flatMap (·.batch))) := by
  induction calls with
  | nil => exact fun hd _ _ _ _ _ _ => ⟨_, rfl, hd⟩
  | cons c calls ih =>
    intro db seen last hd hhost hid hcred hsize hpace hadm
    rw [List.flatMap_cons] at hadm ⊢
    obtain ⟨hadm₁, hadm₂⟩ := admissible_append _ _ hadm
    obtain ⟨r, hr, hrh, hrd⟩ := hd.call hin hf metering last hhost c (hid c List.mem_cons_self)
      (hcred c List.mem_cons_self) (hsize c List.mem_cons_self) hpace.1 hadm₁
    obtain ⟨db', hdb', hd'⟩ := ih hrd hrh (fun x hx => hid x (List.mem_cons_of_mem c hx))
      (fun x hx => hcred x (List.mem_cons_of_mem c hx))
      (fun x hx => hsize x (List.mem_cons_of_mem c hx)) hpace.2 hadm₂
    refine ⟨db', ?_, ?_⟩
    · rw [Billing.deliver, bind_of_ok hr, hdb']
    · rwa [seeAll_append]

/-- Where a complete delivery ends. -/
theorem Lease.Fresh.deliver (hin : L.InOrder n admitted) (hf : L.Fresh m₀ host db₀)
    {metering : AuthoritativeMetering} {calls : List IngestCall}
    (hdel : L.Delivers n admitted metering host (pendingCount db₀ L.hostId) calls) :
    ∃ db', Billing.deliver metering db₀ calls = .ok db' ∧
      db'.meterStates L.base.id = (if n = 0 then none else some (L.meterAt n)) ∧
      (db'.rawEvents.filter fun e => e.leaseId == L.base.leaseId).map bill = L.billsAt n := by
  have hhost : db₀.hosts L.hostId = some (host.stamped host.lastMeteringBatchAt) := hf.hostRow
  obtain ⟨db', hrun, hd⟩ := hf.delivered.deliver hin hf metering calls hhost hdel.hostId
    hdel.credential hdel.size hdel.paced hdel.entries
  have hall : ∀ k, 1 ≤ k → k ≤ n → k ∈ seeAll [] (calls.flatMap (·.batch)) :=
    fun k h1 hk => mem_seeAll.mpr (Or.inr (hdel.complete k h1 hk))
  have hfront := frontier_complete hall
  have hstate := hd.state
  have hbills := hd.bills
  rw [hfront] at hstate hbills
  refine ⟨db', hrun, ?_, hbills⟩
  rw [hstate]
  refine if_congr ⟨fun hnil => ?_, fun hn => ?_⟩ rfl rfl
  · by_contra hn
    have := hall 1 (le_refl 1) (by omega)
    rw [hnil] at this
    cases this
  · rw [List.eq_nil_iff_forall_not_mem]
    intro k hk
    have := hd.range k hk
    omega

/-- **Delivery order does not change the bill.**  In any reachable state, two ways of delivering the
observations `1` to `n` of a lease that raises no anomaly in order both go through, and leave the same
meter state and the same billed quantities and periods. -/
theorem delivery_order_irrelevant (metering : AuthoritativeMetering) (dbInit db : Db)
    (acts : List MeteringAct) (hempty : MeteringEmpty dbInit.tables) (hschema : Schema dbInit.tables)
    (hrun : Run (MeteringStep metering) dbInit acts db)
    (L : Lease) (n : ℕ) (admitted : ℕ → ℤ) (m₀ : MachineRow) (host : HostRow)
    (hin : L.InOrder n admitted) (hawait : L.Awaited m₀ host db) (calls calls' : List IngestCall)
    (hdel : L.Delivers n admitted metering host (pendingCount db L.hostId) calls)
    (hdel' : L.Delivers n admitted metering host (pendingCount db L.hostId) calls') :
    ∃ db₁ db₂, deliver metering db calls = .ok db₁ ∧ deliver metering db calls' = .ok db₂ ∧
      db₁.meterStates L.base.id = db₂.meterStates L.base.id ∧
      Multiset.ofList ((db₁.rawEvents.filter fun e => e.leaseId == L.base.leaseId).map bill)
        = Multiset.ofList ((db₂.rawEvents.filter fun e => e.leaseId == L.base.leaseId).map bill) := by
  have hf : L.Fresh m₀ host db := ⟨hawait, books_run hrun (books_empty hempty hschema.lease_unique)⟩
  obtain ⟨db₁, h₁, hs₁, hb₁⟩ := hf.deliver hin hdel
  obtain ⟨db₂, h₂, hs₂, hb₂⟩ := hf.deliver hin hdel'
  exact ⟨db₁, db₂, h₁, h₂, hs₁.trans hs₂.symm, by rw [hb₁, hb₂]⟩

end Delivery

/-! ### The sample lease in two orders -/

namespace Sample

/-- The start and the checkpoint of the sample lease, both received at one time. -/
def lease : Lease :=
  { base := machine.identity machineId hostId "m-0000000a" 1700000031000
    hostId := hostId
    obs := fun k => if k = 1 then start else checkpoint
    received := fun _ => 1700000031000 }

def forwards : List IngestCall :=
  [call 1700000031000 [arrival start 1700000031000],
   call 1700000041000 [arrival checkpoint 1700000031000, arrival start 1700000041000]]

def backwards : List IngestCall :=
  [call 1700000031000 [arrival checkpoint 1700000031000, arrival start 1700000031000]]

theorem lease_inOrder : lease.InOrder 2 fun _ => 1700000031000 where
  sequence k h1 hk := by interval_cases k <;> rfl
  valid k h1 hk := by interval_cases k <;> decide +kernel
  machineId k h1 hk := by interval_cases k <;> rfl
  hostMachineId k h1 hk := by interval_cases k <;> rfl
  leaseId k h1 hk := by interval_cases k <;> decide +kernel
  leaseGeneration k h1 hk := by interval_cases k <;> rfl
  vcpus k h1 hk := by interval_cases k <;> rfl
  memoryBytes k h1 hk := by interval_cases k <;> rfl
  processId k h1 hk := by interval_cases k <;> decide
  bootId k hk := by interval_cases k <;> decide +kernel
  admission k hk := by interval_cases k <;> decide +kernel
  clean k hk := by interval_cases k <;> decide +kernel
  cutover := by decide +kernel

theorem lease_awaited : lease.Awaited machine host db :=
  ⟨rfl, rfl, rfl, rfl, rfl, rfl, Or.inl rfl, rfl⟩

theorem forwards_delivers :
    lease.Delivers 2 (fun _ => 1700000031000) {} host (pendingCount db hostId) forwards where
  entries := by
    simp only [forwards, List.flatMap_cons, List.flatMap_nil, call, List.append_nil,
      List.cons_append, List.nil_append, Lease.Admissible, arrival]
    decide +kernel
  complete k h1 hk := by
    interval_cases k
    · exact ⟨_, List.mem_cons_self, rfl⟩
    · exact ⟨_, List.mem_cons_of_mem _ List.mem_cons_self, rfl⟩
  hostId := by decide +kernel
  credential := by decide +kernel
  size := by decide +kernel
  paced := by simp [Paced, forwards, call, host, minimumMeteringBatchIntervalMs]

theorem backwards_delivers :
    lease.Delivers 2 (fun _ => 1700000031000) {} host (pendingCount db hostId) backwards where
  entries := by
    simp only [backwards, List.flatMap_cons, List.flatMap_nil, call, List.append_nil,
      Lease.Admissible, arrival]
    decide +kernel
  complete k h1 hk := by
    interval_cases k
    · exact ⟨_, List.mem_cons_of_mem _ List.mem_cons_self, rfl⟩
    · exact ⟨_, List.mem_cons_self, rfl⟩
  hostId := by decide +kernel
  credential := by decide +kernel
  size := by decide +kernel
  paced := by simp [Paced, backwards, call, host]

end Sample

/-- Out of order in one batch, or in order with the start repeated. -/
theorem delivery_order_irrelevant_sample : ∃ db₁ db₂,
    deliver {} Sample.db Sample.forwards = .ok db₁ ∧
      deliver {} Sample.db Sample.backwards = .ok db₂ ∧
      db₁.meterStates Sample.machineId = db₂.meterStates Sample.machineId ∧
      Multiset.ofList ((db₁.rawEvents.filter fun e => e.leaseId == Sample.leaseId).map bill)
        = Multiset.ofList
          ((db₂.rawEvents.filter fun e => e.leaseId == Sample.leaseId).map bill) :=
  delivery_order_irrelevant {} Sample.db Sample.db [] Sample.db_empty Sample.db_schema (.nil _)
    Sample.lease 2 _ Sample.machine Sample.host Sample.lease_inOrder Sample.lease_awaited
    Sample.forwards Sample.backwards Sample.forwards_delivers Sample.backwards_delivers

end Nehemiah.Billing
