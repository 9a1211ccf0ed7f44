import Nehemiah.Control.Capacity
import Nehemiah.Control.Writes

/-!
# Forks appear all at once or never

While a fork operation is pending its children start, and neither `find` nor `list` returns them.  The
operation leaves that state in one transaction, for good: all its children are running then, or all have
failed and are released (`forks_all_or_nothing`).  When its cleanup has been requested it does not succeed
any more.
-/

namespace Nehemiah.Control

open Billing (MachineState HostState HostDesiredState CredentialStatus)
open Lib

/-! ### Transactions -/

section Transactions

variable {db db' : Db} {now : ℤ} {operationId : String} {greatest : ℤ → ℤ}

/-- **What `completeFork` does**, unless the operation is not open any more. -/
theorem completeFork_ok {observed : List HostMachine} (h : db.completeFork now operationId observed = some db') :
    db' = db ∨ ∃ o allReady, db.forkOperation? operationId = some o ∧ o.state = .pending ∧
      o.cleanupRequestedAt = none ∧ db.completeBatch o observed = true ∧
      (allReady = observed.all fun x => x.ready && decide (x.status = .running)) ∧
      db'.machines = updateWhere (Db.childOf operationId) (Db.completeChild now allReady observed) db.machines ∧
      db'.forkOperations = if allReady then (db.setForkOperation o.succeeds).forkOperations else db.forkOperations := by
  unfold Db.completeFork at h
  split at h
  · cases h
  · next o ho =>
    by_cases hp : o.state ≠ .pending ∨ o.cleanupRequestedAt.isSome
    · rw [if_pos hp] at h
      exact .inl (Option.some.inj h).symm
    rw [if_neg hp] at h
    simp only [not_or, not_not, Option.not_isSome_iff_eq_none] at hp
    split_ifs at h with hbatch hstart
    refine .inr ⟨o, _, ho, hp.1, hp.2, Bool.not_eq_false _ ▸ hbatch, rfl, ?_, ?_⟩
    all_goals rw [← Option.some.inj h]
    all_goals split_ifs <;> rfl

theorem failFork_ok {failure : Failure} (h : db.failFork greatest now operationId failure = some db') :
    db' = db ∨ ∃ o, db.forkOperation? operationId = some o ∧ o.state = .pending ∧
      db' = db.settleFork greatest now o failure := by
  unfold Db.failFork at h
  split at h
  · cases h
  · next o ho =>
    split_ifs at h with hp
    · exact .inl (Option.some.inj h).symm
    · simp only [not_or, not_not] at hp
      exact .inr ⟨o, ho, hp.1, (Option.some.inj h).symm⟩

theorem completeForkCleanup_ok {token : String} (h : db.completeForkCleanup greatest now operationId token = some db') :
    db' = db ∨ ∃ o failure, db.forkOperation? operationId = some o ∧ o.state = .pending ∧
      db' = db.settleFork greatest now o failure := by
  unfold Db.completeForkCleanup at h
  split at h
  · cases h
  · next o ho =>
    split_ifs at h with hp
    · exact .inl (Option.some.inj h).symm
    · simp only [not_or, not_not] at hp
      split at h
      · exact .inl (Option.some.inj h).symm
      · exact .inr ⟨o, _, ho, hp.1, (Option.some.inj h).symm⟩

/-- What the requests around a cleanup do to the operation. -/
theorem requestForkCleanup_ok {token : String} {failure : Failure}
    (h : db.requestForkCleanup now operationId token failure = some db') :
    db' = db ∨ ∃ o o', db.forkOperation? operationId = some o ∧ o'.id = o.id ∧ o'.state = o.state ∧
      o'.failure = o.failure ∧ (o.cleanupRequestedAt.isSome = true → o'.cleanupRequestedAt.isSome = true) ∧
      db' = db.setForkOperation o' := by
  unfold Db.requestForkCleanup at h
  split at h
  · cases h
  · next o ho =>
    by_cases hp : o.state ≠ .pending
    · rw [if_pos hp] at h
      exact .inl (Option.some.inj h).symm
    · rw [if_neg hp] at h
      refine .inr ⟨o, _, ho, ?_, ?_, ?_, fun hc => ?_, (Option.some.inj h).symm⟩
      all_goals split_ifs
      all_goals first | rfl | exact hc

theorem releaseForkCleanupClaim_ok (db : Db) (operationId token : String) :
    db.releaseForkCleanupClaim operationId token = db ∨ ∃ o o', db.forkOperation? operationId = some o ∧
      o'.id = o.id ∧ o'.state = o.state ∧ o'.failure = o.failure ∧ o'.cleanupRequestedAt = o.cleanupRequestedAt ∧
      db.releaseForkCleanupClaim operationId token = db.setForkOperation o' := by
  unfold Db.releaseForkCleanupClaim
  split
  · exact .inl rfl
  · next o ho =>
    split_ifs
    · exact .inr ⟨o, { o with cleanupClaimToken := none, cleanupClaimedUntil := none }, ho, rfl, rfl, rfl, rfl, rfl⟩
    · exact .inl rfl

end Transactions

/-! ### Operations -/

/-- What becomes of a fork operation. -/
structure Follows (o o' : ForkOperation) : Prop where
  id : o'.id = o.id
  settled : o.state ≠ .pending → o'.state = o.state
  cleanup : o.cleanupRequestedAt.isSome = true →
    o'.cleanupRequestedAt.isSome = true ∧ (o.state = .pending → o'.state ≠ .succeeded)

theorem Follows.refl (o : ForkOperation) : Follows o o :=
  ⟨rfl, fun _ => rfl, fun h => ⟨h, fun hp hs => by rw [hp] at hs; cases hs⟩⟩

variable {o o' : ForkOperation} {db' : Db} {policy : BillingAdmissionPolicy} {greatest : ℤ → ℤ}

theorem Follows.trans {o'' : ForkOperation} (h : Follows o o') (h' : Follows o' o'') : Follows o o'' := by
  refine ⟨h'.id.trans h.id, fun hs => ?_, fun hc => ?_⟩
  · have hsame := h.settled hs
    exact (h'.settled (hsame ▸ hs)).trans hsame
  · obtain ⟨hc', hne⟩ := h.cleanup hc
    refine ⟨(h'.cleanup hc').1, fun hp hs => ?_⟩
    by_cases hp' : o'.state = .pending
    · exact (h'.cleanup hc').2 hp' hs
    · exact hne hp ((h'.settled hp').symm.trans hs)

/-- The operations of `db` go on in `db'`, and those that are new are pending. -/
structure Continues (db db' : Db) : Prop where
  kept : ∀ o ∈ db.forkOperations, ∃ o' ∈ db'.forkOperations, Follows o o'
  new : ∀ o' ∈ db'.forkOperations, (∀ o ∈ db.forkOperations, o.id ≠ o'.id) → o'.state = .pending

theorem Continues.same {db : Db} (h : db'.forkOperations = db.forkOperations) : Continues db db' :=
  ⟨fun o ho => ⟨o, h ▸ ho, .refl o⟩, fun o' ho' hne => absurd rfl (hne o' (h ▸ ho'))⟩

/-- The write of one operation. -/
theorem Keyed.continues {db : Db} (hk : Keyed db) {id : String} (ho : db.forkOperation? id = some o) (h : Follows o o')
    (hdb : db'.forkOperations = (db.setForkOperation o').forkOperations) : Continues db db' := by
  obtain ⟨hmem, -⟩ := hk.forkOperation?_iff.mp ho
  refine ⟨fun x hx => ?_, fun x' hx' hne => ?_⟩
  · rw [hdb]
    by_cases hid : x.id = o'.id
    · obtain rfl : x = o := key_inj hk.operations hx hmem (hid.trans h.id)
      exact ⟨o', mem_updateWhere.mpr ⟨x, hx, if_pos (decide_eq_true hid)⟩, h⟩
    · exact ⟨x, mem_updateWhere.mpr ⟨x, hx, if_neg (by simpa using hid)⟩, .refl x⟩
  · rw [hdb] at hx'
    obtain rfl | ⟨hx, -⟩ := mem_setForkOperation hx'
    · exact absurd h.id.symm (hne o hmem)
    · exact absurd rfl (hne x' hx)

theorem follows_fails (hp : o.state = .pending) (failure : Failure) : Follows o (o.fails failure) :=
  ⟨rfl, fun hs => absurd hp hs, fun hc => ⟨hc, fun _ => nofun⟩⟩

theorem Written.continues {w : World} {a : Act} (hk : Keyed w.db) (hw : Written policy greatest w a db') :
    Continues w.db db' := by
  have hcall : ∀ i answer, a = .call i answer → Continues w.db db' := by
    rintro i answer rfl
    exact .same hw.rowsOnly.forkOperations
  cases hw with
  | same => exact .same rfl
  | around _ hf => exact .same hf
  | usageFinalized => exact .same rfl
  | markLost => exact .same rfl
  | beginExtend hx => exact .same (beginExtend_tables hx).2.2
  | completeExtend hx =>
    obtain ⟨_, _, -, -, -, -, rfl | rfl⟩ := completeExtend_ok hx
    all_goals exact .same rfl
  | @beginFork _ request _ _ hx =>
    obtain ⟨rfl, -⟩ | ⟨_, _, _, host, _, -, -, -, -, -, -, -, -, -, -, -, -, -, -, rfl⟩ := beginFork_ok hx
    · exact .same rfl
    · refine ⟨fun o ho => ⟨o, List.mem_append_left _ ho, .refl o⟩, fun o' ho' hne => ?_⟩
      obtain ho' | ho' := List.mem_append.mp ho'
      · exact absurd rfl (hne o' ho')
      · rw [List.mem_singleton.mp ho']
        rfl
  | completeFork hx =>
    obtain rfl | ⟨o, allReady, ho, hp, hc, -, -, -, hops⟩ := completeFork_ok hx
    · exact .same rfl
    · cases allReady with
      | false => exact .same hops
      | true =>
        have hfollows : Follows o o.succeeds := by
          refine ⟨rfl, fun hs => absurd hp hs, fun h => ?_⟩
          rw [hc] at h
          cases h
        exact hk.continues ho hfollows hops
  | failFork hx =>
    obtain rfl | ⟨o, ho, hp, rfl⟩ := failFork_ok hx
    · exact .same rfl
    · exact hk.continues ho (follows_fails hp _) rfl
  | completeForkCleanup hx =>
    obtain rfl | ⟨o, failure, ho, hp, rfl⟩ := completeForkCleanup_ok hx
    · exact .same rfl
    · exact hk.continues ho (follows_fails hp failure) rfl
  | requestForkCleanup hx =>
    obtain rfl | ⟨o, o', ho, hid, hs, -, hc, rfl⟩ := requestForkCleanup_ok hx
    · exact .same rfl
    · refine hk.continues ho ⟨hid, fun _ => hs, fun h => ⟨hc h, fun hp hsucc => ?_⟩⟩ rfl
      rw [hs, hp] at hsucc
      cases hsucc
  | releaseForkCleanupClaim operationId token =>
    obtain heq | ⟨o, o', ho, hid, hs, -, hc, heq⟩ := releaseForkCleanupClaim_ok w.db operationId token
    · rw [heq]
      exact .same rfl
    · rw [heq]
      refine hk.continues ho ⟨hid, fun _ => hs, fun h => ⟨hc ▸ h, fun hp hsucc => ?_⟩⟩ rfl
      rw [hs, hp] at hsucc
      cases hsucc
  | _ => exact hcall _ _ rfl

/-- **An operation leaves its pending state** with all its children. -/
theorem Written.leaves {w : World} {a : Act} (hk : Keyed w.db) (hw : Written policy greatest w a db')
    (ho : o ∈ w.db.forkOperations) (hp : o.state = .pending) (ho' : o' ∈ db'.forkOperations) (hid : o'.id = o.id)
    (hs : o'.state ≠ .pending) :
    (∃ observed, a = .completeFork o.id observed ∧ o'.state = .succeeded ∧
      w.db.completeBatch o observed = true ∧
      db'.machines = updateWhere (Db.childOf o.id) (Db.completeChild w.now true observed) w.db.machines) ∨
    (o'.state = .failed ∧ db'.machines =
      updateWhere (fun m => Db.childOf o.id m && liveState m.state) (Db.failChild w.now) w.db.machines) := by
  have hold : o' ∈ w.db.forkOperations → False := fun hmem => by
    obtain rfl : o' = o := key_inj hk.operations hmem ho hid
    exact hs hp
  have hsame : db'.forkOperations = w.db.forkOperations → False := fun h => hold (h ▸ ho')
  have hset : ∀ x : ForkOperation, x.state = .pending → db'.forkOperations = (w.db.setForkOperation x).forkOperations →
      False := by
    intro x hx h
    rw [h] at ho'
    obtain rfl | ⟨hmem, -⟩ := mem_setForkOperation ho'
    exacts [hs hx, hold hmem]
  have hcall : ∀ i answer, a = .call i answer → False := by
    rintro i answer rfl
    exact hsame hw.rowsOnly.forkOperations
  -- the operation that is written is this one
  have hthis : ∀ (x y : ForkOperation), x ∈ w.db.forkOperations → y.id = x.id →
      o' ∈ (w.db.setForkOperation y).forkOperations → x = o ∧ o' = y := by
    intro x y hx hyid h
    obtain rfl | ⟨hmem, -⟩ := mem_setForkOperation h
    · exact ⟨key_inj hk.operations hx ho (hyid.symm.trans hid), rfl⟩
    · exact (hold hmem).elim
  cases hw with
  | same => exact (hsame rfl).elim
  | around _ hf => exact (hsame hf).elim
  | usageFinalized => exact (hsame rfl).elim
  | markLost => exact (hsame rfl).elim
  | beginExtend hx => exact (hsame (beginExtend_tables hx).2.2).elim
  | completeExtend hx =>
    obtain ⟨_, _, -, -, -, -, rfl | rfl⟩ := completeExtend_ok hx
    all_goals exact (hsame rfl).elim
  | @beginFork _ request _ _ hx =>
    obtain ⟨rfl, -⟩ | ⟨_, _, _, host, _, -, -, -, -, -, -, -, -, -, -, -, -, -, -, rfl⟩ := beginFork_ok hx
    · exact (hold ho').elim
    · obtain ho' | ho' := List.mem_append.mp ho'
      · exact (hold ho').elim
      · rw [List.mem_singleton.mp ho'] at hs
        exact (hs rfl).elim
  | completeFork hx =>
    obtain rfl | ⟨x, allReady, hfound, -, -, hbatch, -, hms, hops⟩ := completeFork_ok hx
    · exact (hold ho').elim
    · obtain ⟨hmem, rfl⟩ := hk.forkOperation?_iff.mp hfound
      cases allReady with
      | false => exact (hsame hops).elim
      | true =>
        rw [hops] at ho'
        obtain ⟨rfl, rfl⟩ := hthis x x.succeeds hmem rfl ho'
        exact .inl ⟨_, rfl, rfl, hbatch, hms⟩
  | failFork hx =>
    obtain rfl | ⟨x, hfound, -, rfl⟩ := failFork_ok hx
    · exact (hold ho').elim
    · obtain ⟨hmem, rfl⟩ := hk.forkOperation?_iff.mp hfound
      obtain ⟨rfl, rfl⟩ := hthis x (x.fails _) hmem rfl ho'
      exact .inr ⟨rfl, rfl⟩
  | completeForkCleanup hx =>
    obtain rfl | ⟨x, failure, hfound, -, rfl⟩ := completeForkCleanup_ok hx
    · exact (hold ho').elim
    · obtain ⟨hmem, rfl⟩ := hk.forkOperation?_iff.mp hfound
      obtain ⟨rfl, rfl⟩ := hthis x (x.fails failure) hmem rfl ho'
      exact .inr ⟨rfl, rfl⟩
  | requestForkCleanup hx =>
    obtain rfl | ⟨x, y, hfound, hyid, hys, -, -, rfl⟩ := requestForkCleanup_ok hx
    · exact (hold ho').elim
    · obtain ⟨hmem, rfl⟩ := hk.forkOperation?_iff.mp hfound
      obtain ⟨rfl, rfl⟩ := hthis x y hmem hyid ho'
      exact (hs (hys.trans hp)).elim
  | releaseForkCleanupClaim operationId token =>
    obtain heq | ⟨x, y, hfound, hyid, hys, -, -, heq⟩ := releaseForkCleanupClaim_ok w.db operationId token
    · rw [heq] at ho'
      exact (hold ho').elim
    · rw [heq] at ho'
      obtain ⟨hmem, rfl⟩ := hk.forkOperation?_iff.mp hfound
      obtain ⟨rfl, rfl⟩ := hthis x y hmem hyid ho'
      exact (hs (hys.trans hp)).elim
  | _ => exact (hcall _ _ rfl).elim

/-! ### Children -/

section Children

variable {db : Db} (hb : Balanced db) {o : ForkOperation} (ho : o ∈ db.forkOperations)

include hb ho

/-- The children of a pending operation are hidden. -/
theorem Balanced.hidden (hp : o.state = .pending) {m : MachineRow} (hm : m ∈ db.machines)
    (hchild : m.forkOperationId = some o.id) :
    (∀ organizationId projectId, db.find m.id organizationId projectId = none) ∧
    ∀ organizationId projectId cursor limit, m ∉ db.list organizationId projectId cursor limit := by
  have hvisible : (m.forkOperationId.isNone || db.forkIs .succeeded m) = false := by
    rw [hchild, Option.isNone_some, Bool.false_or, Bool.eq_false_iff]
    intro h
    obtain ⟨x, hx, hid, hs⟩ := Db.forkIs_iff.mp h
    obtain rfl : x = o := key_inj hb.operations hx ho (Option.some.inj (hid.symm.trans hchild))
    rw [hp] at hs
    cases hs
  refine ⟨fun organizationId projectId => ?_, fun organizationId projectId cursor limit hmem => ?_⟩
  · unfold Db.find
    rw [hb.toKeyed.machine?_iff.mpr ⟨hm, rfl⟩, Option.filter_some, hvisible, Bool.and_false]
    rfl
  · have hmem := List.mem_mergeSort.mp (List.mem_of_mem_take hmem)
    simp only [List.mem_filter, Bool.and_eq_true, hvisible] at hmem
    cases hmem.2.2

omit hb ho in
theorem completeChild_same (now : ℤ) (allReady : Bool) (observed : List HostMachine) (m : MachineRow) :
    (Db.completeChild now allReady observed m).id = m.id ∧
      (Db.completeChild now allReady observed m).leaseId = m.leaseId := by
  unfold Db.completeChild
  split <;> exact ⟨rfl, rfl⟩

variable {observed : List HostMachine}

omit hb ho in
/-- A child of a batch that is complete is the machine that the host has answered. -/
theorem completeChild_running (now : ℤ) (hbatch : db.completeBatch o observed = true) {m : MachineRow}
    (hm : m ∈ db.machines) (hchild : Db.childOf o.id m = true) :
    ∃ x ∈ observed, x.publicMachineId = m.id ∧ x.leaseId = m.leaseId ∧
      (Db.completeChild now true observed m).state = .running ∧
      (Db.completeChild now true observed m).hostMachineId = some x.id := by
  simp only [Db.completeBatch, Bool.and_eq_true, decide_eq_true_eq, List.all_eq_true, List.any_eq_true,
    List.mem_filter] at hbatch
  obtain ⟨⟨⟨⟨-, -⟩, hpublic⟩, -⟩, hexpected⟩ := hbatch
  obtain ⟨y, hy, hmatch⟩ := hexpected m ⟨hm, hchild⟩
  simp only [Db.matchesChild, Bool.and_eq_true, decide_eq_true_eq] at hmatch
  have hyid : y.publicMachineId = m.id := hmatch.1.1.1.1.1.1
  have hfind : observed.find? (fun x => decide (x.publicMachineId = m.id)) = some y :=
    (find?_key_iff hpublic).mpr ⟨hy, hyid⟩
  refine ⟨y, hy, hyid, hmatch.1.1.1.1.1.2, ?_⟩
  unfold Db.completeChild
  rw [hfind]
  exact ⟨rfl, rfl⟩

omit hb ho in
/-- No two children of the batch are on one machine of the host. -/
theorem completeChild_distinct (hbatch : db.completeBatch o observed = true) {x y : HostMachine} (hx : x ∈ observed)
    (hy : y ∈ observed) (hid : x.id = y.id) : x = y := by
  simp only [Db.completeBatch, Bool.and_eq_true, decide_eq_true_eq] at hbatch
  exact key_inj hbatch.1.1.1.2 hx hy hid

end Children

/-! ### Outcomes -/

/-- Every child of the operation runs, and started before; each is on a machine of its own, which has its
lease. -/
structure Succeeded (o : ForkOperation) (observed : List HostMachine) (db db' : Db) : Prop where
  running : ∀ m' ∈ db'.machines, m'.forkOperationId = some o.id →
    m'.state = .running ∧ ∃ m ∈ db.machines, m.id = m'.id ∧ m.state = .starting
  leased : ∀ m' ∈ db'.machines, m'.forkOperationId = some o.id →
    ∃ x ∈ observed, m'.hostMachineId = some x.id ∧ x.leaseId = m'.leaseId
  distinct : ∀ m₁ ∈ db'.machines, ∀ m₂ ∈ db'.machines, m₁.forkOperationId = some o.id →
    m₂.forkOperationId = some o.id → m₁.hostMachineId = m₂.hostMachineId → m₁.id = m₂.id

/-- Every child of the operation has failed and is released, and started before. -/
def Failed (o : ForkOperation) (db db' : Db) : Prop :=
  ∀ m' ∈ db'.machines, m'.forkOperationId = some o.id →
    m'.state = .failed ∧ m'.reservationReleasedAt.isSome = true ∧
      ∃ m ∈ db.machines, m.id = m'.id ∧ m.state = .starting ∧ m.reservationReleasedAt = none

section Outcomes

variable {db db' : Db} (hb : Balanced db) {o : ForkOperation} (ho : o ∈ db.forkOperations)
  (hp : o.state = .pending) {now : ℤ}

include hb ho hp

theorem succeeded_of_complete {observed : List HostMachine} (hbatch : db.completeBatch o observed = true)
    (hms : db'.machines = updateWhere (Db.childOf o.id) (Db.completeChild now true observed) db.machines) :
    Succeeded o observed db db' := by
  -- a child afterwards is a child that started
  have hrow : ∀ m' ∈ db'.machines, m'.forkOperationId = some o.id → ∃ m ∈ db.machines, m.id = m'.id ∧
      m.state = .starting ∧ m'.state = .running ∧ ∃ x ∈ observed, x.publicMachineId = m'.id ∧
        x.leaseId = m'.leaseId ∧ m'.hostMachineId = some x.id := by
    intro m' hm' hid
    rw [hms] at hm'
    obtain ⟨m, hm, rfl⟩ := mem_updateWhere.mp hm'
    by_cases hc : Db.childOf o.id m = true
    · rw [if_pos hc]
      obtain ⟨x, hx, hpublic, hlease, hrunning, hhost⟩ := completeChild_running now hbatch hm hc
      obtain ⟨hsame, hsame'⟩ := completeChild_same now true observed m
      exact ⟨m, hm, hsame.symm, (hb.pending o ho hp m hm (of_decide_eq_true hc)).1, hrunning, x, hx,
        hpublic.trans hsame.symm, hlease.trans hsame'.symm, hhost⟩
    · rw [if_neg hc] at hid
      exact absurd (decide_eq_true hid) hc
  refine ⟨fun m' hm' hid => ?_, fun m' hm' hid => ?_, fun m₁ hm₁ m₂ hm₂ hid₁ hid₂ hsame => ?_⟩
  · obtain ⟨m, hm, hmid, hstart, hrunning, -⟩ := hrow m' hm' hid
    exact ⟨hrunning, m, hm, hmid, hstart⟩
  · obtain ⟨_, -, -, -, -, x, hx, -, hlease, hhost⟩ := hrow m' hm' hid
    exact ⟨x, hx, hhost, hlease⟩
  · obtain ⟨_, -, -, -, -, x, hx, hpublic, -, hhost⟩ := hrow m₁ hm₁ hid₁
    obtain ⟨_, -, -, -, -, y, hy, hpublic', -, hhost'⟩ := hrow m₂ hm₂ hid₂
    have hxy : x.id = y.id := Option.some.inj (hhost.symm.trans (hsame.trans hhost'))
    obtain rfl := completeChild_distinct hbatch hx hy hxy
    exact hpublic.symm.trans hpublic'

theorem failed_of_settle (hms : db'.machines =
    updateWhere (fun m => Db.childOf o.id m && liveState m.state) (Db.failChild now) db.machines) :
    Failed o db db' := by
  intro m' hm' hid
  rw [hms] at hm'
  obtain ⟨m, hm, rfl⟩ := mem_updateWhere.mp hm'
  split_ifs at hid ⊢ with hc
  · obtain ⟨hstart, hrel, -⟩ := hb.pending o ho hp m hm hid
    exact ⟨rfl, rfl, m, hm, rfl, hstart, hrel⟩
  · -- a child of a pending operation starts, so that it is written
    obtain ⟨hstart, -, -⟩ := hb.pending o ho hp m hm hid
    refine absurd ?_ hc
    rw [hstart, show Db.childOf o.id m = true from decide_eq_true hid]
    rfl

end Outcomes

/-- **Forks appear all at once or never.** -/
theorem forks_all_or_nothing {policy : BillingAdmissionPolicy} {as : List Act} {now : ℤ} {w : World}
    (h : Run (Step policy greatest0) (World.empty now) as w) :
    (∀ o ∈ w.db.forkOperations, o.state = .pending → ∀ m ∈ w.db.machines, m.forkOperationId = some o.id →
      m.state = .starting ∧
      (∀ organizationId projectId, w.db.find m.id organizationId projectId = none) ∧
      ∀ organizationId projectId cursor limit, m ∉ w.db.list organizationId projectId cursor limit) ∧
    (∀ a w', Step policy greatest0 w a w' →
      (∀ o' ∈ w'.db.forkOperations, (∀ o ∈ w.db.forkOperations, o.id ≠ o'.id) → o'.state = .pending) ∧
      ∀ o ∈ w.db.forkOperations, o.state = .pending → ∀ o' ∈ w'.db.forkOperations, o'.id = o.id →
        o'.state = .pending ∨
        (o'.state = .succeeded ∧ ∃ observed, a = .completeFork o.id observed ∧ Succeeded o observed w.db w'.db) ∨
        (o'.state = .failed ∧ Failed o w.db w'.db)) ∧
    (∀ as' w', Run (Step policy greatest0) w as' w' → ∀ o ∈ w.db.forkOperations,
      ∃ o', w'.db.forkOperation? o.id = some o' ∧ (o.state ≠ .pending → o'.state = o.state) ∧
        (o.cleanupRequestedAt.isSome = true → o.state = .pending → o'.state ≠ .succeeded)) := by
  have hsound : Sound w := .run h
  have hb := hsound.balanced
  refine ⟨fun o ho hp m hm hid => ?_, fun a w' hs => ?_, fun as' w' hr o ho => ?_⟩
  · exact ⟨(hb.pending o ho hp m hm hid).1, hb.hidden ho hp hm hid⟩
  · have hw := step_written hs
    refine ⟨(hw.continues hb.toKeyed).new, fun o ho hp o' ho' hid => ?_⟩
    by_cases hs' : o'.state = .pending
    · exact .inl hs'
    · obtain ⟨observed, ha, hsucc, hbatch, hms⟩ | ⟨hfail, hms⟩ := hw.leaves hb.toKeyed ho hp ho' hid hs'
      · exact .inr (.inl ⟨hsucc, observed, ha, succeeded_of_complete hb ho hp hbatch hms⟩)
      · exact .inr (.inr ⟨hfail, failed_of_settle hb ho hp hms⟩)
  · obtain ⟨hsound', o', ho', hfollows⟩ : Sound w' ∧ ∃ o' ∈ w'.db.forkOperations, Follows o o' := by
      refine hr.invariant (I := fun w => Sound w ∧ ∃ o' ∈ w.db.forkOperations, Follows o o') ?_
        ⟨hsound, o, ho, .refl o⟩
      rintro w a w' ⟨hw, o₁, ho₁, h₁⟩ hs
      obtain ⟨o₂, ho₂, h₂⟩ := ((step_written hs).continues hw.balanced.toKeyed).kept o₁ ho₁
      exact ⟨hw.step hs, o₂, ho₂, h₁.trans h₂⟩
    refine ⟨o', hsound'.balanced.toKeyed.forkOperation?_iff.mpr ⟨ho', hfollows.id⟩, hfollows.settled, ?_⟩
    exact fun hc => (hfollows.cleanup hc).2

/-! A machine and one child. -/

def runningOn (id name : String) : HostMachine :=
  { id := id
    status := .running
    leaseId := name
    publicMachineId := name
    parentMachineId := none
    forkOperationId := none
    resources := .of 1 512 1024
    ready := true
    startedAt := none
    expiresAt := none }

def forkRequest : ForkRequest := ⟨"a", "o", "p", "k", "f", [("b", "b")]⟩

def forkedChild : HostMachine :=
  { runningOn "vb" "b" with
    parentMachineId := some "a"
    forkOperationId := some "f"
    expiresAt := some 60000000 }

def forking : List Act :=
  [.host smallHost, .organization ⟨"o", twoMachines⟩, .project ⟨"p", "o", twoMachines⟩] ++ placing 0 "a"
    ++ [.call 0 (.host .answered (runningOn "va" "a")), .call 0 .none, .beginFork ⟨0, 0, 0⟩ forkRequest]

def threeMachines : Limits := ⟨3, .of 3 1536 3072⟩

def batchedChild (id name : String) (ready : Bool) : HostMachine :=
  { forkedChild with id := id, leaseId := name, publicMachineId := name, ready := ready }

/-- A fork of two children, the second of which is not ready when the host is asked first. -/
def batching : List Act :=
  [.host { smallHost with total := threeMachines.max }, .organization ⟨"o", threeMachines⟩,
      .project ⟨"p", "o", threeMachines⟩] ++ placing 0 "a" ++
    [.call 0 (.host .answered (runningOn "va" "a")), .call 0 .none,
      .beginFork ⟨0, 0, 0⟩ ⟨"a", "o", "p", "k", "f", [("b", "b"), ("c", "c")]⟩,
      .completeFork "f" [batchedChild "vb" "b" true, batchedChild "vc" "c" false]]

/-- The operation of the batch. -/
def batchOperation : ForkOperation :=
  ⟨"f", "o", "p", "a", "h", "k", 2, .pending, none, none, none, none, none⟩

theorem forks_all_or_nothing_forked :
    ∃ w w' : World, Run (Step freeOfCharge greatest0) (World.empty 0) batching w ∧
      (w.db.machines.map fun m => (m.id, m.hostMachineId)) = [("a", some "va"), ("b", some "vb"), ("c", some "vc")] ∧
      (∀ m ∈ w.db.machines, m.forkOperationId = some "f" → m.state = .starting ∧ w.db.find m.id "o" "p" = none) ∧
      ∃ observed, Succeeded batchOperation observed w.db w'.db := by
  have hfinal : ((exec (World.step freeOfCharge greatest0) (World.empty 0) batching).bind fun w =>
      (w.step freeOfCharge greatest0 (.completeFork "f" [batchedChild "vb" "b" true, batchedChild "vc" "c" true])).map
        fun w' => ((w.db.machines.map fun m => (m.id, m.hostMachineId)), w.db.forkOperations, w'.db.forkOperations)) =
      some ([("a", some "va"), ("b", some "vb"), ("c", some "vc")], [batchOperation], [batchOperation.succeeds]) := by
    decide +kernel
  obtain ⟨w, hw, hfinal⟩ := Option.bind_eq_some_iff.mp hfinal
  obtain ⟨w', hw', hseen⟩ := Option.map_eq_some_iff.mp hfinal
  obtain ⟨hmachines, hops⟩ := Prod.mk.inj hseen
  obtain ⟨hbefore, hafter⟩ := Prod.mk.inj hops
  have hrun : Run (Step freeOfCharge greatest0) (World.empty 0) batching w := .of_exec hw
  have hmem : batchOperation ∈ w.db.forkOperations := hbefore ▸ List.mem_cons_self
  have hmem' : batchOperation.succeeds ∈ w'.db.forkOperations := hafter ▸ List.mem_cons_self
  obtain ⟨hhidden, hsteps, -⟩ := forks_all_or_nothing hrun
  refine ⟨w, w', hrun, hmachines, fun m hm hf => ?_, ?_⟩
  · obtain ⟨hstarting, hfind, -⟩ := hhidden _ hmem rfl m hm hf
    exact ⟨hstarting, hfind "o" "p"⟩
  · obtain hpending | ⟨-, observed, -, hsucceeded⟩ | ⟨hfailed, -⟩ := (hsteps _ w' hw').2 _ hmem rfl _ hmem' rfl
    · cases hpending
    · exact ⟨observed, hsucceeded⟩
    · cases hfailed

end Nehemiah.Control
