import Nehemiah.Billing.Effects
import Nehemiah.Control.System

/-!
# What a transaction leaves alone

The rows of machines are never deleted, and most of what a call has read of one stays true: its identity,
its resources, its host once it has one, its end once it has ended (`Kept`).  A database evolves into
another when this holds of every machine and when the fork operations that are pending afterwards were
pending before, or are new and belong to no machine that was there (`Evolves`).

A write is quiet when besides it leaves the host and the reservation of the machine, and the state of a
child whose fork is pending (`Quiet`).  Almost every transaction is a quiet write of one row.
-/

namespace Nehemiah.Control

open Billing (MachineState HostState HostDesiredState CredentialStatus bind_ok)
open Lib

/-! ### States -/

theorem terminal_iff {s : MachineState} : terminal s = true ↔ s = .stopped ∨ s = .failed ∨ s = .lost := by
  cases s <;> decide

theorem unplaced_iff {s : MachineState} : unplaced s = true ↔ s = .requested ∨ s = .placing := by
  cases s <;> decide

/-! ### Keys -/

/-- The primary keys of the tables whose rows are written one by one. -/
structure Keyed (db : Db) : Prop where
  machines : (db.machines.map (·.id)).Nodup
  hosts : (db.hosts.map (·.id)).Nodup
  operations : (db.forkOperations.map (·.id)).Nodup

namespace Keyed

variable {db : Db} (h : Keyed db)

include h

variable {id : String}

theorem machine?_iff {m : MachineRow} :
    db.machine? id = some m ↔ m ∈ db.machines ∧ m.id = id := find?_key_iff h.machines

theorem host?_iff {x : HostRow} : db.host? id = some x ↔ x ∈ db.hosts ∧ x.id = id :=
  find?_key_iff h.hosts

theorem forkOperation?_iff {o : ForkOperation} :
    db.forkOperation? id = some o ↔ o ∈ db.forkOperations ∧ o.id = id := find?_key_iff h.operations

end Keyed

variable {db db' : Db} {m : MachineRow} {policy : BillingAdmissionPolicy} {organizationId : String}

theorem Db.forkIs_iff {s : ForkOperationState} :
    db.forkIs s m = true ↔ ∃ o ∈ db.forkOperations, m.forkOperationId = some o.id ∧ o.state = s := by
  unfold Db.forkIs
  cases hm : m.forkOperationId with
  | none => simp
  | some id =>
    simp only [List.any_eq_true, Bool.and_eq_true, decide_eq_true_eq, Option.some.injEq]
    constructor
    · rintro ⟨o, ho, hid, hs⟩
      exact ⟨o, ho, hid.symm, hs⟩
    · rintro ⟨o, ho, hid, hs⟩
      exact ⟨o, ho, hid.symm, hs⟩

/-! ### Writes that tell whether they were made -/

variable {id machineId idempotencyKey : String} {m' : MachineRow} {now : ℤ} {times : Times} {request : ScheduleRequest}
    {r : Option (ExtendOperation × Bool)} {a : Act} {greatest : ℤ → ℤ}

theorem machine?_setMachine (hm : db.machine? id = some m) (hid : m'.id = m.id) :
    (db.setMachine m').machine? id = some m' := by
  have hmid : m.id = id := by simpa using List.find?_some hm
  unfold Db.machine? Db.setMachine at *
  have hfind : ∀ rows : List MachineRow, rows.find? (fun x => decide (x.id = id)) = some m →
      (updateWhere (fun x => decide (x.id = m'.id)) (fun _ => m') rows).find? (fun x => decide (x.id = id))
        = some m' := by
    intro rows
    induction rows with
    | nil => exact nofun
    | cons r rows ih =>
      intro h
      show ((if decide (r.id = m'.id) then m' else r) :: updateWhere _ _ rows).find? _ = _
      by_cases hr : r.id = id
      · rw [if_pos (by simp [hr, hid, hmid])]
        simp [hid, hmid]
      · rw [List.find?_cons_of_neg (by simpa using hr)] at h
        rw [if_neg (by simpa [hid, hmid] using hr), List.find?_cons_of_neg (by simpa using hr)]
        exact ih h
  exact hfind _ hm

theorem failCreate_true {token : String} {failure : Failure} (h : (db.failCreate now id token failure).2 = true) :
    ∃ m, db.machine? id = some m ∧ m.createClaimToken = some token ∧
      (unplaced m.state = true ∨ m.state = .starting) ∧
      (db.failCreate now id token failure).1 = db.setMachine (m.createFailed now failure) := by
  unfold Db.failCreate at h ⊢
  cases hm : db.machine? id with
  | none =>
    rw [hm] at h
    cases h
  | some m =>
    rw [hm] at h
    dsimp only at h ⊢
    split_ifs at h ⊢ with hc
    exact ⟨m, rfl, hc.1, hc.2, rfl⟩

theorem transition_true {source : List MachineState} {target : MachineState}
    (h : (db.transition now id source target).2 = true) :
    ∃ m, db.machine? id = some m ∧ m.state ∈ source ∧
      (db.transition now id source target).1 = db.setMachine (m.moved now target) := by
  unfold Db.transition at h ⊢
  cases hm : db.machine? id with
  | none =>
    rw [hm] at h
    cases h
  | some m =>
    rw [hm] at h
    dsimp only at h ⊢
    by_cases hs : m.state ∈ source
    · rw [if_pos hs]
      exact ⟨m, rfl, hs, rfl⟩
    · rw [if_neg hs] at h
      cases h

theorem finishMachine_true {row : MachineRow} {target : MachineState} {lossCutoff : Option ℤ}
    (h : (db.finishMachine now row target lossCutoff).2 = true) :
    ∃ m, db.machine? row.id = some m ∧ m.leaseId = row.leaseId ∧ terminal m.state = false ∧
      (db.finishMachine now row target lossCutoff).1 = db.setMachine (m.finished now target lossCutoff) := by
  unfold Db.finishMachine at h ⊢
  cases hm : db.machine? row.id with
  | none =>
    rw [hm] at h
    cases h
  | some m =>
    rw [hm] at h
    dsimp only at h ⊢
    split_ifs at h ⊢ with hc
    exact ⟨m, rfl, hc.1, Bool.eq_false_iff.mpr hc.2, rfl⟩

/-! ### Admissions -/

theorem enforceQuota_ok (h : enforceQuota policy db times request = .ok ()) :
    ∃ organization project, db.organization? request.organizationId = some organization ∧
      db.project? request.projectId request.organizationId = some project ∧
      policy.enforce db times.enforcedAt request.organizationId
        (.machine (db.candidateSeconds request times.readAt) request.resources) = .ok () ∧
      checkQuota db organization project 1 request.resources = .ok () := by
  unfold enforceQuota at h
  split at h
  · cases h
  · next organization ho =>
    obtain ⟨⟨⟩, hbill, h⟩ := bind_ok h
    split at h
    · cases h
    · next project hp => exact ⟨organization, project, ho, hp, hbill, h⟩

/-- **What a successful reservation has done.** -/
theorem reserve_ok {selected : Option String} {reservation : Reservation}
    (h : reserve policy db times request selected = .ok (db', reservation)) :
    enforceQuota policy db times request = .ok () ∧ ∃ host m,
      db.host? reservation.hostId = some host ∧ host.schedulable times.began request = true ∧
      db.machine? request.machineId = some m ∧ unplaced m.state = true ∧
      db' = (db.modifyHost reservation.hostId (HostRow.reserve request.resources)).setMachine
        (m.place reservation.hostId times.began) := by
  obtain ⟨-, -, h⟩ := bind_ok h
  obtain ⟨⟨⟩, hquota, h⟩ := bind_ok h
  refine ⟨hquota, ?_⟩
  cases hsel : selected.bind db.host? with
  | none =>
    rw [hsel] at h
    cases h
  | some host =>
    rw [hsel] at h
    dsimp only at h
    split_ifs at h with hs
    unfold placeOn at h
    split at h
    · cases h
    · next m hm =>
      split_ifs at h with hu
      cases h
      obtain ⟨id, -, hid⟩ := Option.bind_eq_some_iff.mp hsel
      have hhost : host.id = id := by simpa using List.find?_some hid
      exact ⟨host, m, hhost ▸ hid, hs, hm, hu, rfl⟩

/-- A replay is not a new operation. -/
theorem replay_ne {α : Type*} (x : α) : ∀ y, some (x, true) ≠ some (y, false) := by simp

theorem nothing_ne {α : Type*} (y : α) : none ≠ some (y, false) := fun h => by cases h

/-- **What a fork has done**, unless it is a replay or there is nothing to fork. -/
theorem beginFork_ok {request : ForkRequest} {r : Option (ForkOperation × Bool)}
    (h : db.beginFork policy times request = .ok (db', r)) :
    (db' = db ∧ ∀ o, r ≠ some (o, false)) ∨ ∃ organization project source host children,
      db.organization? request.organizationId = some organization ∧
      db.project? request.projectId request.organizationId = some project ∧
      db.machine? request.sourceMachineId = some source ∧ source.hostId = some host.id ∧
      db.host? host.id = some host ∧
      source.organizationId = request.organizationId ∧ source.projectId = request.projectId ∧
      source.state = .running ∧ 15 ≤ ceilSeconds (source.expiresAt - times.readAt) ∧
      checkQuota db organization project request.count (request.count • source.resources) = .ok () ∧
      policy.enforce db times.enforcedAt request.organizationId
        (.machine (max (ceilSeconds (source.expiresAt - times.readAt)) 0 * request.count) source.resources)
          = .ok () ∧
      Resources.fits (request.count • source.resources) host.free = true ∧
      children = request.children.mapIdx
        (forkChild request source times.began (ceilSeconds (source.expiresAt - times.readAt))) ∧
      db.forkInsertable request children = true ∧
      db' = db.insertFork request source host.id children := by
  unfold Db.beginFork at h
  split at h
  case h_2 => cases h; exact .inl ⟨rfl, nothing_ne⟩
  next organization project source ho hp hs =>
  cases hhost : source.hostId.bind db.host? with
  | none =>
    rw [hhost] at h
    cases h
    exact .inl ⟨rfl, nothing_ne⟩
  | some host =>
    rw [hhost] at h
    dsimp only at h
    by_cases horg : source.organizationId ≠ request.organizationId ∨ source.projectId ≠ request.projectId
    · rw [if_pos horg] at h
      cases h
      exact .inl ⟨rfl, nothing_ne⟩
    rw [if_neg horg] at h
    split at h
    · cases h
      exact .inl ⟨rfl, replay_ne _⟩
    simp only [not_or, not_not] at horg
    obtain ⟨id, hsid, hid⟩ := Option.bind_eq_some_iff.mp hhost
    have hhid : host.id = id := by simpa using List.find?_some hid
    obtain ⟨⟨⟩, hlive, h⟩ := bind_ok h
    obtain ⟨⟨⟩, -, h⟩ := bind_ok h
    obtain ⟨⟨⟩, hquota, h⟩ := bind_ok h
    obtain ⟨⟨⟩, hbill, h⟩ := bind_ok h
    obtain ⟨⟨⟩, hfits, h⟩ := bind_ok h
    obtain ⟨⟨⟩, hkeys, h⟩ := bind_ok h
    cases h
    have hlive := demand_ok hlive
    exact .inr ⟨organization, project, source, host, _, ho, hp, hs, hhid ▸ hsid, hhid ▸ hid, horg.1, horg.2,
      hlive.1, hlive.2.2.2, hquota, hbill, demand_ok hfits, rfl, demand_ok hkeys, rfl⟩

/-- **What an extension has done**, unless it is a replay or there is nothing to extend. -/
theorem beginExtend_ok {admittedAt enforcedAt : ℤ} {projectId : String} {ttlSeconds : ℤ}
    (h : db.beginExtend policy admittedAt enforcedAt machineId organizationId projectId idempotencyKey
      ttlSeconds = .ok (db', r)) :
    (db' = db ∧ ∀ o, r ≠ some (o, false)) ∨ ∃ m operation, db.machine? machineId = some m ∧
      m.organizationId = organizationId ∧ liveState m.state = true ∧
      policy.enforce db enforcedAt organizationId
        (.machine (Db.extendTarget (db.committedUntil m) admittedAt ttlSeconds).2 m.resources) = .ok () ∧
      operation.machineId = machineId ∧ operation.organizationId = organizationId ∧
      operation.targetExpiresAt = (Db.extendTarget (db.committedUntil m) admittedAt ttlSeconds).1 ∧
      db' = { db with extendOperations := db.extendOperations ++ [operation] } := by
  unfold Db.beginExtend at h
  split at h
  case h_2 => cases h; exact .inl ⟨rfl, nothing_ne⟩
  next m horg hm =>
  by_cases hother : m.organizationId ≠ organizationId ∨ m.projectId ≠ projectId
  · rw [if_pos hother] at h
    cases h
    exact .inl ⟨rfl, nothing_ne⟩
  rw [if_neg hother] at h
  split at h
  · cases h
    exact .inl ⟨rfl, replay_ne _⟩
  by_cases hdead : ¬ liveState m.state ∨ m.hostId = none ∨ m.hostMachineId = none
  · rw [if_pos hdead] at h
    cases h
    exact .inl ⟨rfl, nothing_ne⟩
  rw [if_neg hdead] at h
  obtain ⟨⟨⟩, hbill, h⟩ := bind_ok h
  cases h
  simp only [not_or, not_not] at hother hdead
  exact .inr ⟨m, _, hm, hother.1, hdead.1, hbill, rfl, rfl, rfl, rfl⟩

theorem beginExtend_tables {admittedAt enforcedAt : ℤ} {projectId : String} {ttlSeconds : ℤ}
    (h : db.beginExtend policy admittedAt enforcedAt machineId organizationId projectId idempotencyKey
      ttlSeconds = .ok (db', r)) :
    db'.machines = db.machines ∧ db'.hosts = db.hosts ∧ db'.forkOperations = db.forkOperations := by
  obtain ⟨rfl, -⟩ | ⟨_, _, -, -, -, -, -, -, -, rfl⟩ := beginExtend_ok h
  · exact ⟨rfl, rfl, rfl⟩
  · exact ⟨rfl, rfl, rfl⟩

/-! ### Rows that evolve -/

/-- What every later state of a row keeps. -/
structure Kept (m m' : MachineRow) : Prop where
  id : m'.id = m.id
  organizationId : m'.organizationId = m.organizationId
  projectId : m'.projectId = m.projectId
  leaseId : m'.leaseId = m.leaseId
  hash : m'.idempotencyRequestHash = m.idempotencyRequestHash
  resources : m'.resources = m.resources
  forkOperationId : m'.forkOperationId = m.forkOperationId
  hostId : ∀ h, m.hostId = some h → m'.hostId = some h
  placed : unplaced m'.state = true → unplaced m.state = true
  ended : terminal m.state = true → m'.state = m.state
  stopping : m.state = .stopping → m'.state = .stopping ∨ terminal m'.state = true
  expiresAt : m.expiresAt ≤ m'.expiresAt

theorem Kept.refl (m : MachineRow) : Kept m m :=
  ⟨rfl, rfl, rfl, rfl, rfl, rfl, rfl, fun _ h => h, fun h => h, fun _ => rfl, fun h => .inl h, le_rfl⟩

/-- The machine is not a child of a fork that is pending. -/
def Db.Free (db : Db) (m : MachineRow) : Prop :=
  ∀ o ∈ db.forkOperations, o.state = .pending → m.forkOperationId ≠ some o.id

theorem Db.free_of_forkIs (hm : db.forkIs .pending m = false) : db.Free m := by
  intro o ho hp hid
  have hc : db.forkIs .pending m = true := Db.forkIs_iff.mpr ⟨o, ho, hid, hp⟩
  rw [hm] at hc
  cases hc

theorem Db.free_of_none (db : Db) (hm : m.forkOperationId = none) : db.Free m := by
  intro o _ _ h
  rw [hm] at h
  cases h

/-- A machine that `find` returns is free: its fork, if it has one, has succeeded. -/
theorem Keyed.free_of_find (h : Keyed db) {projectId : Option String}
    (hm : db.find id organizationId projectId = some m) :
    m ∈ db.machines ∧ m.id = id ∧ db.Free m := by
  obtain ⟨hrow, hcond⟩ := Option.filter_eq_some_iff.mp hm
  obtain ⟨hmem, hid⟩ := h.machine?_iff.mp hrow
  refine ⟨hmem, hid, fun o ho hp ho' => ?_⟩
  simp only [Bool.and_eq_true, Bool.or_eq_true, Option.isNone_iff_eq_none] at hcond
  obtain hnone | hsucc := hcond.2
  · rw [hnone] at ho'
    cases ho'
  · obtain ⟨o', ho'mem, hid', hs⟩ := Db.forkIs_iff.mp hsucc
    have heq : o' = o := key_inj h.operations ho'mem ho (Option.some.inj (hid'.symm.trans ho'))
    rw [heq, hp] at hs
    cases hs

/-- The database `db'` is a later state of `db`. -/
structure Evolves (db db' : Db) : Prop where
  machines : ∀ m ∈ db.machines, ∃ m' ∈ db'.machines, Kept m m'
  pending : ∀ o' ∈ db'.forkOperations, o'.state = .pending →
    (∃ o ∈ db.forkOperations, o.id = o'.id ∧ o.state = .pending)
      ∨ ∀ m ∈ db.machines, m.forkOperationId ≠ some o'.id

theorem Evolves.free (h : Evolves db db') (hm : m ∈ db.machines) (hk : Kept m m') (hf : db.Free m) : db'.Free m' := by
  intro o' ho' hp hid
  rw [hk.forkOperationId] at hid
  obtain ⟨o, ho, hoid, hop⟩ | hnew := h.pending o' ho' hp
  · exact hf o ho hop (hid.trans (congrArg some hoid.symm))
  · exact hnew m hm hid

/-- A database with the same machines, or more, and the same fork operations. -/
theorem Evolves.of_machines (hm : ∀ m ∈ db.machines, ∃ m' ∈ db'.machines, Kept m m')
    (ho : db'.forkOperations = db.forkOperations) : Evolves db db' :=
  ⟨hm, fun o' ho' hp => .inl ⟨o', ho ▸ ho', rfl, hp⟩⟩

theorem Evolves.of_same (hm : db'.machines = db.machines) (ho : db'.forkOperations = db.forkOperations) :
    Evolves db db' :=
  .of_machines (fun m hmem => ⟨m, hm ▸ hmem, .refl m⟩) ho

theorem Evolves.refl (db : Db) : Evolves db db := .of_same rfl rfl

/-! ### Quiet writes -/

/-- A write that no reservation and no pending fork notices. -/
structure Quiet (db : Db) (m m' : MachineRow) : Prop extends Kept m m' where
  hostId_eq : m'.hostId = m.hostId
  released : m'.reservationReleasedAt = m.reservationReleasedAt
  child : m'.state = m.state ∨ db.Free m
  /-- A machine that is not placed has neither started nor stopped. -/
  waiting : unplaced m'.state = true → m'.startedAt = m.startedAt ∧ m'.stoppedAt = m.stoppedAt

/-- A quiet write of rows that extends none of them. -/
def QuietWrite (db db' : Db) : Prop :=
  ∃ p f, db' = { db with machines := updateWhere p f db.machines } ∧
    ∀ m ∈ db.machines, p m = true → Quiet db m (f m) ∧ (f m).expiresAt = m.expiresAt

theorem QuietWrite.evolves (h : QuietWrite db db') : Evolves db db' := by
  obtain ⟨p, f, rfl, hq⟩ := h
  refine .of_machines (fun m hm => ?_) rfl
  refine ⟨if p m then f m else m, List.mem_map_of_mem hm, ?_⟩
  split_ifs with hp
  exacts [(hq m hm hp).1.toKept, .refl m]

theorem QuietWrite.forkOperations (h : QuietWrite db db') : db'.forkOperations = db.forkOperations := by
  obtain ⟨p, f, rfl, -⟩ := h
  rfl

theorem QuietWrite.refl (db : Db) : QuietWrite db db := by
  refine ⟨fun _ => false, fun m => m, ?_, fun _ _ h => by cases h⟩
  simp [updateWhere]

/-- The write of the row of a machine. -/
theorem Keyed.quiet_setMachine (h : Keyed db) (hm : db.machine? id = some m) (hq : Quiet db m m')
    (he : m'.expiresAt = m.expiresAt) :
    QuietWrite db (db.setMachine m') := by
  refine ⟨_, _, rfl, fun x hx hid => ?_⟩
  have heq : x = m := by
    refine key_inj h.machines hx (h.machine?_iff.mp hm).1 ?_
    exact (of_decide_eq_true hid).trans hq.id
  rw [heq]
  exact ⟨hq, he⟩

/-- The columns that only an insert, a placement, a release and an extension write. -/
structure Steady (m m' : MachineRow) : Prop where
  id : m'.id = m.id
  organizationId : m'.organizationId = m.organizationId
  projectId : m'.projectId = m.projectId
  leaseId : m'.leaseId = m.leaseId
  hash : m'.idempotencyRequestHash = m.idempotencyRequestHash
  resources : m'.resources = m.resources
  forkOperationId : m'.forkOperationId = m.forkOperationId
  hostId : m'.hostId = m.hostId
  released : m'.reservationReleasedAt = m.reservationReleasedAt
  expiresAt : m'.expiresAt = m.expiresAt

namespace Steady

variable {m m' : MachineRow} (h : Steady m m')

include h

/-- A write of steady columns that leaves the state is quiet. -/
theorem quiet_same (db : Db) (hstate : m'.state = m.state)
    (hwait : unplaced m.state = true → m'.startedAt = m.startedAt ∧ m'.stoppedAt = m.stoppedAt) :
    Quiet db m m' where
  toKept :=
    { h with
      hostId := fun _ hx => h.hostId.trans hx
      placed := fun hp => hstate ▸ hp
      ended := fun _ => hstate
      stopping := fun hs => .inl (hstate.trans hs)
      expiresAt := h.expiresAt.ge }
  hostId_eq := h.hostId
  released := h.released
  child := .inl hstate
  waiting := fun hu => hwait (hstate ▸ hu)

/-- A write of steady columns that moves on a free machine which has not ended is quiet. -/
theorem quiet_moves {db : Db} (hplaced : unplaced m'.state = false) (hended : terminal m.state = false)
    (hstop : m.state = .stopping → terminal m'.state = true) (hfree : db.Free m) : Quiet db m m' where
  toKept :=
    { h with
      hostId := fun _ hx => h.hostId.trans hx
      placed := fun hp => absurd hp (by rw [hplaced]; exact Bool.false_ne_true)
      ended := fun he => absurd he (by rw [hended]; exact Bool.false_ne_true)
      stopping := fun hs => .inr (hstop hs)
      expiresAt := h.expiresAt.ge }
  hostId_eq := h.hostId
  released := h.released
  child := .inr hfree
  waiting := fun hu => absurd hu (by rw [hplaced]; exact Bool.false_ne_true)

end Steady

section Rows

variable {db : Db} (hk : Keyed db) {id : String} {m m' : MachineRow} (hm : db.machine? id = some m)

include hk hm

theorem Keyed.quiet_same (h : Steady m m') (hstate : m'.state = m.state)
    (hwait : unplaced m.state = true → m'.startedAt = m.startedAt ∧ m'.stoppedAt = m.stoppedAt) :
    QuietWrite db (db.setMachine m') :=
  hk.quiet_setMachine hm (h.quiet_same db hstate hwait) h.expiresAt

theorem Keyed.quiet_moves (h : Steady m m') (hplaced : unplaced m'.state = false)
    (hended : terminal m.state = false) (hstop : m.state = .stopping → terminal m'.state = true)
    (hfree : db.Free m) : QuietWrite db (db.setMachine m') :=
  hk.quiet_setMachine hm (h.quiet_moves hplaced hended hstop hfree) h.expiresAt

end Rows

section Transactions

variable {db : Db} (hk : Keyed db)

include hk

theorem quiet_claimCreate (now : ℤ) (id token : String) : QuietWrite db (db.claimCreate now id token).1 := by
  unfold Db.claimCreate
  split
  · exact .refl db
  · next m hm =>
    split_ifs
    · exact hk.quiet_same hm ⟨rfl, rfl, rfl, rfl, rfl, rfl, rfl, rfl, rfl, rfl⟩ rfl fun _ => ⟨rfl, rfl⟩
    · exact .refl db

theorem quiet_releaseCreateClaim (id token : String) : QuietWrite db (db.releaseCreateClaim id token) := by
  unfold Db.releaseCreateClaim
  split
  · exact .refl db
  · next m hm =>
    split_ifs
    · exact hk.quiet_same hm ⟨rfl, rfl, rfl, rfl, rfl, rfl, rfl, rfl, rfl, rfl⟩ rfl fun _ => ⟨rfl, rfl⟩
    · exact .refl db

theorem quiet_usageFinalized {id : String} {m : MachineRow} (hm : db.machine? id = some m) (now : ℤ) :
    QuietWrite db (db.setMachine { m with usageFinalizedAt := some now }) :=
  hk.quiet_same hm ⟨rfl, rfl, rfl, rfl, rfl, rfl, rfl, rfl, rfl, rfl⟩ rfl fun _ => ⟨rfl, rfl⟩

theorem quiet_persistRecovered (now : ℤ) (row : MachineRow) (recovered : HostMachine) :
    QuietWrite db (db.persistRecovered now row recovered).1 := by
  unfold Db.persistRecovered
  split
  · exact .refl db
  · next m hm =>
    split_ifs with hc
    · refine hk.quiet_same hm ⟨rfl, rfl, rfl, rfl, rfl, rfl, rfl, rfl, rfl, rfl⟩ rfl fun hu => absurd hu ?_
      rcases hc.2.1 with hs | hs | hs <;> rw [hs] <;> exact Bool.false_ne_true
    · exact .refl db

/-! The other writes move the state of a machine, which has to be free. -/

variable {id : String} (hfree : ∀ m, db.machine? id = some m → db.Free m)

include hfree

theorem quiet_failCreate (now : ℤ) (token : String) (failure : Failure) :
    QuietWrite db (db.failCreate now id token failure).1 := by
  unfold Db.failCreate
  split
  · exact .refl db
  · next m hm =>
    split_ifs with hc
    · refine hk.quiet_moves hm ⟨rfl, rfl, rfl, rfl, rfl, rfl, rfl, rfl, rfl, rfl⟩ rfl ?_
        (fun _ => rfl) (hfree m hm)
      obtain ⟨-, hu | hs⟩ := hc
      · rcases unplaced_iff.mp hu with hs | hs <;> rw [hs] <;> rfl
      · rw [hs]
        rfl
    · exact .refl db

theorem quiet_observeHost (now : ℤ) (hostMachine : HostMachine) :
    QuietWrite db (db.observeHost now id hostMachine) := by
  unfold Db.observeHost
  split
  · exact .refl db
  · next m hm =>
    split_ifs with hs
    · refine hk.quiet_moves hm ⟨rfl, rfl, rfl, rfl, rfl, rfl, rfl, rfl, rfl, rfl⟩ ?_ ?_ ?_
        (hfree m hm)
      · show unplaced (if hostMachine.ready then MachineState.running else .starting) = false
        cases hostMachine.ready <;> rfl
      · rw [hs]
        rfl
      · rw [hs]
        exact nofun
    · exact .refl db

theorem quiet_transition (now : ℤ) {source : List MachineState} {target : MachineState}
    (hsource : ∀ s ∈ source, terminal s = false ∧ (s = .stopping → terminal target = true))
    (htarget : unplaced target = false) : QuietWrite db (db.transition now id source target).1 := by
  unfold Db.transition
  split
  · exact .refl db
  · next m hm =>
    split_ifs with hs
    · exact hk.quiet_moves hm ⟨rfl, rfl, rfl, rfl, rfl, rfl, rfl, rfl, rfl, rfl⟩ htarget
        (hsource _ hs).1 (hsource _ hs).2 (hfree m hm)
    · exact .refl db

end Transactions

/-- **What the completion of an extension has done.** -/
theorem completeExtend_ok {operationId : ℕ} {resultExpiresAt recorded : ℤ}
    (h : db.completeExtend operationId machineId organizationId resultExpiresAt = some (db', recorded)) :
    ∃ m o, db.machine? machineId = some m ∧ o ∈ db.extendOperations ∧ o.id = operationId ∧
      recorded = o.resultExpiresAt.getD resultExpiresAt ∧
      (db' = db.recordExtend operationId resultExpiresAt ∨
        db' = (db.recordExtend operationId resultExpiresAt).setMachine
          { m with expiresAt := max m.expiresAt recorded }) := by
  unfold Db.completeExtend at h
  split at h
  · next m o hm ho =>
    have hkey := List.find?_some ho
    simp only [Bool.and_eq_true, decide_eq_true_eq] at hkey
    split_ifs at h
    · cases h
      exact ⟨m, o, hm, List.mem_of_find?_eq_some ho, hkey.1.1, rfl, .inl rfl⟩
    · cases h
      exact ⟨m, o, hm, List.mem_of_find?_eq_some ho, hkey.1.1, rfl, .inr rfl⟩
  · cases h

section Reconciler

variable {db : Db} (hk : Keyed db) {row : ReconcileRow}
  (hfree : ∀ m, db.machine? row.machine.id = some m → db.Free m)

include hk hfree

theorem quiet_finishMachine (now : ℤ) {target : MachineState} (htarget : terminal target = true)
    (lossCutoff : Option ℤ) : QuietWrite db (db.finishMachine now row.machine target lossCutoff).1 := by
  unfold Db.finishMachine
  split
  · exact .refl db
  · next m hm =>
    split_ifs with hc
    · refine hk.quiet_moves hm ⟨rfl, rfl, rfl, rfl, rfl, rfl, rfl, rfl, rfl, rfl⟩ ?_ ?_
        (fun _ => htarget) (hfree m hm)
      · rcases terminal_iff.mp htarget with h | h | h <;> rw [h] <;> rfl
      · exact Bool.eq_false_iff.mpr hc.2
    · exact .refl db

theorem quiet_markObserved (now : ℤ) (observed : HostMachine) :
    QuietWrite db (db.markObserved now row observed) := by
  unfold Db.markObserved
  split
  · exact .refl db
  · next m hm =>
    split_ifs with hc hr hs
    · exact hk.quiet_same hm ⟨rfl, rfl, rfl, rfl, rfl, rfl, rfl, rfl, rfl, rfl⟩ rfl fun _ => ⟨rfl, rfl⟩
    · refine hk.quiet_moves hm ⟨rfl, rfl, rfl, rfl, rfl, rfl, rfl, rfl, rfl, rfl⟩ ?_ ?_ ?_
        (hfree m hm)
      · show unplaced (if observed.ready then MachineState.running else .starting) = false
        cases observed.ready <;> rfl
      · rw [hs]
        rfl
      · rw [hs]
        exact nofun
    · exact .refl db
    · exact .refl db

end Reconciler

theorem quiet_markLost (now : ℤ) (lossCutoff : String → Option ℤ) : QuietWrite db (db.markLost now lossCutoff) := by
  refine ⟨_, _, rfl, fun m _ hp => ?_⟩
  simp only [Db.onStaleHost, Bool.and_eq_true, Bool.not_eq_true'] at hp
  refine ⟨Steady.quiet_moves ?_ rfl hp.1.1 (fun _ => rfl) (Db.free_of_forkIs hp.1.2), rfl⟩
  exact ⟨rfl, rfl, rfl, rfl, rfl, rfl, rfl, rfl, rfl, rfl⟩

/-! ### What a step does to the database -/

/-- The row of a machine that is asked for. -/
structure Asked (m : MachineRow) : Prop where
  state : m.state = .requested
  hostId : m.hostId = none
  released : m.reservationReleasedAt = none
  forkOperationId : m.forkOperationId = none
  startedAt : m.startedAt = none
  stoppedAt : m.stoppedAt = none
  hash : ∀ request, m.idempotencyRequestHash = .create request → request.resources = m.resources

/-- What a step of the system may do to the database.  The admissions come with their actions, and the
releases are those without a clamp. -/
inductive Effect (policy : BillingAdmissionPolicy) (now : ℤ) (db : Db) : Act → Db → Prop
  | organization {row : Organization} (hvalid : row.limits.valid = true) :
      Effect policy now db (.organization row) (db.putOrganization row)
  | project {row : Project} {db' : Db} (hvalid : row.limits.valid = true)
      (horganization : (db.organization? row.organizationId).isSome = true)
      (hp : db.putProject row = some db') : Effect policy now db (.project row) db'
  /-- A write of the tables around machines; usage is recorded of machines that have been placed. -/
  | around {a : Act} {db' : Db} (horganizations : db'.organizations = db.organizations)
      (hprojects : db'.projects = db.projects) (hm : db'.machines = db.machines) (hh : db'.hosts = db.hosts)
      (ho : db'.forkOperations = db.forkOperations) (he : db'.extendOperations = db.extendOperations)
      (hevents : ∀ e ∈ db'.usageEvents, e ∈ db.usageEvents ∨ e.machineId.all db.placed = true)
      (houtbox : ∀ o ∈ db'.usageOutbox,
        (∃ o' ∈ db.usageOutbox, o'.machineId = o.machineId) ∨ db.placed o.machineId = true) :
      Effect policy now db a db'
  | host {a : Act} {row : HostRow} (hpos : 0 ≤ row.total) : Effect policy now db a (db.putHost row)
  | quiet {a : Act} {db' : Db} (hw : QuietWrite db db') : Effect policy now db a db'
  | insert {a : Act} {db' : Db} {m : MachineRow} (hm : Asked m) (hi : db.insertRequested m = some db') :
      Effect policy now db a db'
  | reserve {i : ℕ} {db' : Db} {times : Times} {request : ScheduleRequest} {selected : Option String}
      {reservation : Reservation} {m : MachineRow} (hm : db.machine? request.machineId = some m)
      (horganization : m.organizationId = request.organizationId)
      (hproject : m.projectId = request.projectId) (hresources : m.resources = request.resources)
      (ht : times.ordered now = true)
      (hr : reserve policy db times request selected = .ok (db', reservation)) :
      Effect policy now db (.call i (.placement times selected)) db'
  | release {a : Act} {id hostId : String} {m : MachineRow} (hm : db.machine? id = some m)
      (hhost : m.hostId = some hostId) (hended : terminal m.state = true) :
      Effect policy now db a (release (fun n => n) db now hostId m.resources id)
  | beginExtend {db' : Db} {admittedAt enforcedAt : ℤ}
      {machineId organizationId projectId idempotencyKey : String} {ttlSeconds : ℤ}
      {r : Option (ExtendOperation × Bool)}
      (h : db.beginExtend policy admittedAt enforcedAt machineId organizationId projectId idempotencyKey
        ttlSeconds = .ok (db', r)) :
      Effect policy now db
        (.beginExtend admittedAt enforcedAt machineId organizationId projectId idempotencyKey ttlSeconds) db'
  | completeExtend {db' : Db} {operationId : ℕ} {machineId organizationId : String}
      {resultExpiresAt recorded : ℤ}
      (h : db.completeExtend operationId machineId organizationId resultExpiresAt = some (db', recorded)) :
      Effect policy now db (.completeExtend operationId machineId organizationId resultExpiresAt) db'
  | beginFork {db' : Db} {times : Times} {request : ForkRequest} {r : Option (ForkOperation × Bool)}
      (h : db.beginFork policy times request = .ok (db', r)) :
      Effect policy now db (.beginFork times request) db'
  /-- A fork operation that stays what it is for its children, or is no longer pending, and its children. -/
  | operation {a : Act} {db' : Db} {o o' : ForkOperation} (ho : o ∈ db.forkOperations) (hid : o'.id = o.id)
      (hhost : o'.sourceHostId = o.sourceHostId) (hs : o'.state = .pending → o.state = .pending)
      (hw : QuietWrite (db.setForkOperation o') db') : Effect policy now db a db'
  | settleFork {a : Act} {o : ForkOperation} (ho : o ∈ db.forkOperations) (hs : o.state = .pending)
      (failure : Failure) : Effect policy now db a (db.settleFork (fun n => n) now o failure)

/-- What `putOrganization` and `putProject` leave alone. -/
structure LimitsOnly (db db' : Db) : Prop where
  machines : db'.machines = db.machines
  hosts : db'.hosts = db.hosts
  forkOperations : db'.forkOperations = db.forkOperations
  extendOperations : db'.extendOperations = db.extendOperations
  usageEvents : db'.usageEvents = db.usageEvents
  usageOutbox : db'.usageOutbox = db.usageOutbox

theorem putOrganization_only (db : Db) (row : Organization) : LimitsOnly db (db.putOrganization row) := by
  unfold Db.putOrganization
  split <;> exact ⟨rfl, rfl, rfl, rfl, rfl, rfl⟩

theorem putProject_only {row : Project} (h : db.putProject row = some db') : LimitsOnly db db' := by
  unfold Db.putProject at h
  split at h
  · split_ifs at h
    cases h
    exact ⟨rfl, rfl, rfl, rfl, rfl, rfl⟩
  · cases h
    exact ⟨rfl, rfl, rfl, rfl, rfl, rfl⟩

theorem Effect.refl : Effect policy now db a db :=
  .quiet (.refl db)

/-- A write that leaves alone the usage too. -/
theorem Effect.beside (horganizations : db'.organizations = db.organizations) (hprojects : db'.projects = db.projects)
    (hm : db'.machines = db.machines) (hh : db'.hosts = db.hosts) (ho : db'.forkOperations = db.forkOperations)
    (he : db'.extendOperations = db.extendOperations) (hevents : db'.usageEvents = db.usageEvents)
    (houtbox : db'.usageOutbox = db.usageOutbox) :
    Effect policy now db a db' :=
  .around horganizations hprojects hm hh ho he (fun _ h => .inl (hevents ▸ h)) fun o h => .inl ⟨o, houtbox ▸ h, rfl⟩

/-! ### What a step does to the calls -/

/-- The calls that an action starts. -/
def World.starts (w : World) : Act → List Call
  | .create input => [.findExisting input]
  | .destroy id organizationId projectId => [.destroyFind false id organizationId projectId]
  | .markLost _ => (w.db.machines.filter w.db.onStaleHost).map releaseCall
  | .selectLeaked id => (w.db.machine? id).toList.map releaseCall
  | .claimReconcile id => (w.db.machine? id).toList.map fun m => reconcileCall m w.now
  | .selectExpired id =>
    (w.db.machine? id).toList.map fun m => .destroyFind true m.id m.organizationId (some m.projectId)
  | _ => []

/-- **A step of the system is a step of a call, the death of one, or it starts calls.** -/
theorem step_calls {w w' : World} (hs : Step policy greatest w a w') :
    (∃ i answer c site c', a = .call i answer ∧ w.calls[i]? = some c ∧
      w.site.next policy greatest w.now c answer = some (site, c') ∧
      w' = { w with site := site, calls := w.calls.set i c' }) ∨
    (∃ i, a = .abort i ∧ w' = { w with calls := w.calls.set i .returned }) ∨
    (w'.calls = w.calls ++ w.starts a ∧ w.now ≤ w'.now ∧
      (w'.fleet = w.fleet ∨ ∃ hostId id, a = .vmEnds hostId id ∧ w'.fleet = w.fleet.remove hostId id)) := by
  unfold Step World.step at hs
  cases a with
  | call i answer =>
    dsimp only at hs
    split at hs
    · cases hs
    · next c hc =>
      obtain ⟨⟨site, c'⟩, hn, rfl⟩ := Option.map_eq_some_iff.mp hs
      exact .inl ⟨i, answer, c, site, c', rfl, hc, hn, rfl⟩
  | abort i =>
    cases hs
    exact .inr (.inl ⟨i, rfl, rfl⟩)
  | tick duration =>
    cases hs
    exact .inr (.inr ⟨(List.append_nil _).symm, Int.le_add_of_nonneg_right (Int.natCast_nonneg _), .inl rfl⟩)
  | vmEnds hostId id =>
    cases hs
    exact .inr (.inr ⟨(List.append_nil _).symm, le_rfl, .inr ⟨hostId, id, rfl, rfl⟩⟩)
  | markLost | destroy =>
    cases hs
    exact .inr (.inr ⟨rfl, le_rfl, .inl rfl⟩)
  | create =>
    dsimp only at hs
    split_ifs at hs
    cases hs
    exact .inr (.inr ⟨rfl, le_rfl, .inl rfl⟩)
  | selectLeaked id | claimReconcile id | selectExpired id =>
    dsimp only at hs
    split at hs
    · next m hm =>
      split_ifs at hs
      cases hs
      refine .inr (.inr ⟨?_, le_rfl, .inl rfl⟩)
      simp only [World.starts, hm, Option.toList_some, List.map_cons, List.map_nil]
      rfl
    · cases hs
  | project =>
    dsimp only at hs
    split_ifs at hs
    obtain ⟨db', -, rfl⟩ := Option.map_eq_some_iff.mp hs
    exact .inr (.inr ⟨(List.append_nil _).symm, le_rfl, .inl rfl⟩)
  | usageFinalized =>
    obtain ⟨m, -, rfl⟩ := Option.map_eq_some_iff.mp hs
    exact .inr (.inr ⟨(List.append_nil _).symm, le_rfl, .inl rfl⟩)
  | completeFork operationId observed =>
    cases hs
    refine .inr (.inr ?_)
    cases w.db.completeFork w.now operationId observed <;> exact ⟨(List.append_nil _).symm, le_rfl, .inl rfl⟩
  | failFork operationId failure =>
    cases hs
    refine .inr (.inr ?_)
    cases w.db.failFork greatest w.now operationId failure <;> exact ⟨(List.append_nil _).symm, le_rfl, .inl rfl⟩
  | requestForkCleanup operationId token failure =>
    cases hs
    refine .inr (.inr ?_)
    cases w.db.requestForkCleanup w.now operationId token failure <;>
      exact ⟨(List.append_nil _).symm, le_rfl, .inl rfl⟩
  | completeForkCleanup operationId token =>
    cases hs
    refine .inr (.inr ?_)
    cases w.db.completeForkCleanup greatest w.now operationId token <;>
      exact ⟨(List.append_nil _).symm, le_rfl, .inl rfl⟩
  | _ =>
    dsimp only at hs
    repeat' split at hs
    all_goals try cases hs
    all_goals exact .inr (.inr ⟨(List.append_nil _).symm, le_rfl, .inl rfl⟩)

theorem now_step {w w' : World} (hs : Step policy greatest w a w') : w.now ≤ w'.now := by
  obtain ⟨_, _, _, _, _, -, -, -, rfl⟩ | ⟨_, -, rfl⟩ | ⟨-, hnow, -⟩ := step_calls hs
  exacts [le_rfl, le_rfl, hnow]

end Nehemiah.Control
