import Nehemiah.Control.Capacity

/-!
# The reaper and extensions

`reapExpiredMachines` selects the machines whose expiry and committed targets are in the past, and destroys
them one after the other.  The destroy does not ask again: an extension that is committed between the query
and the destroy of its machine does not save the machine (`reaper_overrides_extension`).

Without such extensions the reaper keeps its promise (`reaper_honours_extensions`): nothing else moves the
time until which a machine is committed, and the clock does not go back.
-/

namespace Nehemiah.Control

open Billing (MachineState HostState HostDesiredState CredentialStatus)
open Lib

variable {policy : BillingAdmissionPolicy} {w w' : World} {a : Act}

/-! ### The commitment of a machine -/

theorem foldl_max_le {l : List ℤ} {a b : ℤ} : l.foldl max a ≤ b ↔ a ≤ b ∧ ∀ x ∈ l, x ≤ b := by
  induction l generalizing a with
  | nil => simp
  | cons x l ih =>
    rw [List.foldl_cons, ih, List.forall_mem_cons, max_le_iff, and_assoc]

variable {db db' : Db} {id organizationId : String} {m : MachineRow} {t : ℤ} {greatest : ℤ → ℤ}

theorem Db.committedUntil_le :
    db.committedUntil m ≤ t ↔ m.expiresAt ≤ t ∧ ∀ o ∈ db.extendOperations, o.machineId = m.id →
      o.organizationId = m.organizationId → o.targetExpiresAt ≤ t := by
  simp only [Db.committedUntil, foldl_max_le, Db.targets, List.forall_mem_map, List.mem_filter,
    Bool.and_eq_true, decide_eq_true_eq, and_imp]

/-- There is a row of the machine, and it is committed until `t` at most. -/
def Db.CommittedBy (db : Db) (id : String) (t : ℤ) : Prop :=
  ∃ m ∈ db.machines, m.id = id ∧ db.committedUntil m ≤ t

/-- The action does not extend the machine beyond `t`. -/
def Act.leavesBy (t : ℤ) (db : Db) (id : String) : Act → Prop
  | .beginExtend admittedAt _ machineId _ _ _ ttlSeconds => machineId = id → admittedAt + seconds ttlSeconds ≤ t
  | .completeExtend operationId machineId _ resultExpiresAt =>
    machineId = id → ∀ o ∈ db.extendOperations, o.id = operationId → o.resultExpiresAt.getD resultExpiresAt ≤ t
  | _ => True

/-- Rows that keep their expiry keep what they are committed to, while no extension is written. -/
theorem Db.CommittedBy.keep (h : db.CommittedBy id t)
    (hm : ∀ m ∈ db.machines, ∃ m' ∈ db'.machines, Kept m m' ∧ m'.expiresAt = m.expiresAt)
    (he : db'.extendOperations = db.extendOperations) : db'.CommittedBy id t := by
  obtain ⟨m, hmem, rfl, hle⟩ := h
  obtain ⟨m', hm', hk, hexp⟩ := hm m hmem
  refine ⟨m', hm', hk.id, Db.committedUntil_le.mpr ?_⟩
  rw [he, hk.id, hk.organizationId, hexp]
  exact Db.committedUntil_le.mp hle

theorem Keyed.keep_setMachine (h : Keyed db) {m' : MachineRow} (hm : m ∈ db.machines) (hk : Kept m m')
    (hexp : m'.expiresAt = m.expiresAt) :
    ∀ x ∈ db.machines, ∃ x' ∈ (db.setMachine m').machines, Kept x x' ∧ x'.expiresAt = x.expiresAt := by
  intro x hx
  refine ⟨if decide (x.id = m'.id) then m' else x, List.mem_map_of_mem hx, ?_⟩
  split_ifs with hid
  · obtain rfl : x = m := key_inj h.machines hx hm ((of_decide_eq_true hid).trans hk.id)
    exact ⟨hk, hexp⟩
  · exact ⟨.refl x, rfl⟩

theorem QuietWrite.keep (h : QuietWrite db db') :
    ∀ m ∈ db.machines, ∃ m' ∈ db'.machines, Kept m m' ∧ m'.expiresAt = m.expiresAt := by
  obtain ⟨p, f, rfl, hq⟩ := h
  intro m hm
  refine ⟨if p m then f m else m, List.mem_map_of_mem hm, ?_⟩
  split_ifs with hp
  exacts [⟨(hq m hm hp).1.toKept, (hq m hm hp).2⟩, ⟨.refl m, rfl⟩]

theorem QuietWrite.extendOperations (h : QuietWrite db db') : db'.extendOperations = db.extendOperations := by
  obtain ⟨p, f, rfl, -⟩ := h
  rfl

/-- An extension whose target is not beyond `t`. -/
theorem Db.CommittedBy.beginExtend {admittedAt enforcedAt ttlSeconds : ℤ} {machineId projectId idempotencyKey : String}
    {r : Option (ExtendOperation × Bool)} (hk : Keyed db) (h : db.CommittedBy id t)
    (hx : db.beginExtend policy admittedAt enforcedAt machineId organizationId projectId idempotencyKey
      ttlSeconds = .ok (db', r)) (htarget : machineId = id → admittedAt + seconds ttlSeconds ≤ t) :
    db'.CommittedBy id t := by
  obtain ⟨m, hm, rfl, hle⟩ := h
  obtain ⟨rfl, -⟩ | ⟨x, operation, hrow, -, -, -, hid, -, htgt, rfl⟩ := beginExtend_ok hx
  · exact ⟨m, hm, rfl, hle⟩
  · refine ⟨m, hm, rfl, Db.committedUntil_le.mpr ⟨(Db.committedUntil_le.mp hle).1, ?_⟩⟩
    intro o ho hom hoo
    obtain ho | ho := List.mem_append.mp ho
    · exact (Db.committedUntil_le.mp hle).2 o ho hom hoo
    · obtain rfl := List.mem_singleton.mp ho
      have hmid : machineId = m.id := hid.symm.trans hom
      obtain ⟨hxmem, hxid⟩ := hk.machine?_iff.mp hrow
      obtain rfl : x = m := key_inj hk.machines hxmem hm (hxid.trans hmid)
      rw [htgt]
      exact max_le hle (htarget hmid)

/-- The completion of an extension with a result that is not beyond `t`. -/
theorem Db.CommittedBy.completeExtend {resultExpiresAt recorded : ℤ} {operationId : ℕ} {machineId : String}
    (hk : Keyed db) (h : db.CommittedBy id t)
    (hx : db.completeExtend operationId machineId organizationId resultExpiresAt = some (db', recorded))
    (hresult : machineId = id → ∀ o ∈ db.extendOperations, o.id = operationId →
      o.resultExpiresAt.getD resultExpiresAt ≤ t) : db'.CommittedBy id t := by
  obtain ⟨m, hm, rfl, hle⟩ := h
  obtain ⟨hexp, htargets⟩ := Db.committedUntil_le.mp hle
  have hrecord : ∀ o ∈ (db.recordExtend operationId resultExpiresAt).extendOperations, o.machineId = m.id →
      o.organizationId = m.organizationId → o.targetExpiresAt ≤ t := by
    refine forall_updateWhere htargets fun o ho _ => htargets o ho
  obtain ⟨x, o, hrow, ho, hoid, rfl, rfl | rfl⟩ := completeExtend_ok hx
  · exact ⟨m, hm, rfl, Db.committedUntil_le.mpr ⟨hexp, hrecord⟩⟩
  · obtain ⟨hxmem, hxid⟩ := hk.machine?_iff.mp hrow
    by_cases hid : m.id = x.id
    · obtain rfl : m = x := key_inj hk.machines hm hxmem hid
      refine ⟨_, mem_updateWhere.mpr ⟨m, hm, if_pos (decide_eq_true rfl)⟩, rfl, Db.committedUntil_le.mpr ?_⟩
      exact ⟨max_le hexp (hresult hxid.symm o ho hoid), hrecord⟩
    · refine ⟨m, mem_updateWhere.mpr ⟨m, hm, ?_⟩, rfl, Db.committedUntil_le.mpr ⟨hexp, hrecord⟩⟩
      exact if_neg fun hc => hid (of_decide_eq_true hc)

/-- Nothing but an extension moves what a machine is committed to. -/
theorem Effect.committedBy {now : ℤ} (hb : Balanced db) (e : Effect policy now db a db') (ha : a.leavesBy t db id)
    (h : db.CommittedBy id t) : db'.CommittedBy id t := by
  have hk := hb.toKeyed
  have hsame : ∀ m ∈ db.machines, ∃ m' ∈ db.machines, Kept m m' ∧ m'.expiresAt = m.expiresAt :=
    fun m hm => ⟨m, hm, .refl m, rfl⟩
  have happend : ∀ rows, ∀ m ∈ db.machines,
      ∃ m' ∈ db.machines ++ rows, Kept m m' ∧ m'.expiresAt = m.expiresAt :=
    fun rows m hm => ⟨m, List.mem_append_left rows hm, .refl m, rfl⟩
  cases e with
  | around _ _ hm _ _ he => exact h.keep (hm ▸ hsame) he
  | @organization row =>
    obtain ⟨hm, -, -, he, -⟩ := putOrganization_only db row
    exact h.keep (hm ▸ hsame) he
  | project _ _ hp =>
    obtain ⟨hm, -, -, he, -⟩ := putProject_only hp
    exact h.keep (hm ▸ hsame) he
  | host =>
    unfold Db.putHost
    split
    exacts [h.keep hsame rfl, h.keep hsame rfl]
  | quiet hw => exact h.keep hw.keep hw.extendOperations
  | insert _ hi =>
    unfold Db.insertRequested at hi
    split_ifs at hi
    cases hi
    exact h.keep (happend _) rfl
  | reserve _ _ _ _ _ hr =>
    obtain ⟨-, host, m, -, -, hm, hu, rfl⟩ := reserve_ok hr
    obtain ⟨hmem, -⟩ := hk.machine?_iff.mp hm
    exact h.keep (hk.keep_setMachine hmem (.place hu (hb.unplaced m hmem hu).1 _ _) rfl) rfl
  | @release _ _ _ m hm =>
    unfold Control.release
    rw [hm]
    dsimp only
    split_ifs
    · exact h
    · exact h.keep (hk.keep_setMachine (hk.machine?_iff.mp hm).1 (.released m now) rfl) rfl
  | beginExtend hx => exact h.beginExtend hk hx ha
  | completeExtend hx => exact h.completeExtend hk hx ha
  | beginFork hf =>
    obtain ⟨rfl, -⟩ | ⟨_, _, _, _, _, -, -, -, -, -, -, -, -, -, -, -, -, -, -, rfl⟩ := beginFork_ok hf
    exacts [h, h.keep (happend _) rfl]
  | operation _ _ _ _ hw => exact h.keep hw.keep hw.extendOperations
  | settleFork ho hs failure =>
    refine h.keep (fun m hm => ⟨_, List.mem_map_of_mem hm, ?_⟩) rfl
    split_ifs with hc
    · exact ⟨.failChild (hb.child_held ho hs hm (Bool.and_eq_true_iff.mp hc).1).1 now, rfl⟩
    · exact ⟨.refl m, rfl⟩

/-! ### Calls of the reaper -/

/-- The machine that a destroy of the reaper is going to stop. -/
def Call.reaps : Call → Option String
  | .destroyFind true id _ _ => some id
  | .destroyBegin true m => some m.id
  | _ => none

theorem resume_reaps (input : CreateMachine) (m : MachineRow) : (resume input m).reaps = none := by
  unfold resume
  split_ifs <;> rfl

theorem judge_reaps (row : ReconcileRow) (hostMachineId : String) (observed : Option HostMachine) :
    (judge row hostMachineId observed).reaps = none := by
  cases observed with
  | none =>
    simp only [judge]
    split_ifs <;> rfl
  | some o =>
    simp only [judge]
    cases o.status <;> dsimp only <;> split_ifs <;> rfl

theorem hostCreate_reaps {s : Site} {hostId : String} {outcome : Outcome} {answer : HostMachine}
    {created : HostMachine → Call} {refused : Call} (hc : ∀ x, (created x).reaps = none) (hr : refused.reaps = none) :
    (s.hostCreate hostId m outcome answer created refused).2.reaps = none := by
  obtain ⟨-, h | h | ⟨x, h⟩⟩ := s.hostCreate_cases hostId m outcome answer created refused
  all_goals rw [h]
  exacts [rfl, hr, hc x]

theorem hostDestroy_reaps {s : Site} {hostId : String} {outcome : Outcome} {done failed : Call} (hd : done.reaps = none)
    (hf : failed.reaps = none) :
    (s.hostDestroy hostId id outcome done failed).2.reaps = none := by
  unfold Site.hostDestroy
  dsimp only
  split_ifs
  exacts [hd, hf]

/-- A call of the reaper stays with its machine, and no other call becomes one. -/
theorem reaps_next {s s' : Site} {now : ℤ} {c c' : Call} {a : Answer}
    (hn : s.next policy greatest now c a = some (s', c')) : c'.reaps = none ∨ c'.reaps = c.reaps := by
  cases c with
  | destroyFind reaper x organizationId projectId =>
    cases a <;> simp only [Site.next] at hn <;> try cases hn
    split at hn
    · cases hn
      exact .inl rfl
    · next m hm =>
      have hmid : m.id = x := by
        have hrow := (Option.filter_eq_some_iff.mp hm).1
        simpa using List.find?_some hrow
      cases hn
      split_ifs
      · exact .inl rfl
      · cases reaper with
        | true => exact .inr (congrArg some hmid)
        | false => exact .inl rfl
  | findExisting | findRaced =>
    cases a <;> simp only [Site.next] at hn <;> try cases hn
    split at hn <;> cases hn
    exacts [.inl (resume_reaps _ _), .inl rfl]
  | hostCreate =>
    cases a <;> simp only [Site.next] at hn <;> try cases hn
    exact .inl (hostCreate_reaps (fun _ => rfl) rfl)
  | recover =>
    cases a <;> simp only [Site.next] at hn <;> try cases hn
    split at hn <;> cases hn
    exact .inl (hostCreate_reaps (fun _ => rfl) rfl)
  | persist =>
    cases a <;> simp only [Site.next] at hn <;> try cases hn
    split at hn <;> cases hn
    · exact .inl rfl
    · split_ifs
      exacts [.inl rfl, .inl (judge_reaps _ _ _)]
  | hostGet =>
    cases a <;> simp only [Site.next] at hn <;> try cases hn
    all_goals
      split at hn
      · split_ifs at hn
        cases hn
        exact .inl (judge_reaps _ _ _)
      · cases hn
  | compensate =>
    cases a <;> simp only [Site.next] at hn <;> try cases hn
    exact .inl (hostDestroy_reaps rfl rfl)
  | destroyUnrecorded =>
    cases a <;> simp only [Site.next] at hn <;> try cases hn
    split at hn <;> cases hn
    exact .inl (hostDestroy_reaps rfl rfl)
  | _ =>
    left
    cases a <;> simp only [Site.next] at hn <;> try cases hn
    all_goals
      repeat' split at hn
      all_goals try cases hn
      all_goals first | rfl | split <;> rfl

/-! ### The system -/

/-- Every machine that the reaper is going to stop is committed until the present at most. -/
def Expired (w : World) : Prop := ∀ c ∈ w.calls, ∀ id, c.reaps = some id → w.db.CommittedBy id w.now

/-- While the reaper is going to stop a machine, nothing extends it beyond the present. -/
def Unextended (w : World) (a : Act) (_ : World) : Prop :=
  ∀ c ∈ w.calls, ∀ id, c.reaps = some id → a.leavesBy w.now w.db id

theorem Db.CommittedBy.mono {t' : ℤ} (h : db.CommittedBy id t) (ht : t ≤ t') : db.CommittedBy id t' := by
  obtain ⟨m, hm, hid, hle⟩ := h
  exact ⟨m, hm, hid, hle.trans ht⟩

theorem reaps_starts {c : Call} (hc : c ∈ w.starts a) (hr : c.reaps = some id) :
    ∃ m, a = .selectExpired m.id ∧ w.db.machine? m.id = some m ∧ m.id = id := by
  cases a with
  | selectExpired x =>
    obtain ⟨m, hm, rfl⟩ := List.mem_map.mp hc
    have hfind : w.db.machine? x = some m := by simpa using hm
    have hid : m.id = x := by simpa using List.find?_some hfind
    exact ⟨m, by rw [hid], hid ▸ hfind, Option.some.inj hr⟩
  | create | destroy =>
    obtain rfl := List.mem_singleton.mp hc
    cases hr
  | markLost | selectLeaked =>
    obtain ⟨m, -, rfl⟩ := List.mem_map.mp hc
    unfold releaseCall at hr
    split at hr <;> cases hr
  | claimReconcile =>
    obtain ⟨m, -, rfl⟩ := List.mem_map.mp hc
    unfold reconcileCall reconcileKnown at hr
    dsimp only at hr
    repeat' split at hr
    all_goals cases hr
  | _ => cases hc

/-- Where the calls of the reaper come from. -/
theorem reaps_step (hs : Step policy greatest w a w') {c' : Call} (hc' : c' ∈ w'.calls) (hr : c'.reaps = some id) :
    (∃ c ∈ w.calls, c.reaps = some id) ∨ w'.db.CommittedBy id w.now := by
  obtain ⟨i, answer, c, site, next, -, hc, hn, rfl⟩ | ⟨i, -, rfl⟩ | ⟨hcalls, -⟩ := step_calls hs
  · left
    obtain hc' | rfl := List.mem_or_eq_of_mem_set hc'
    · exact ⟨c', hc', hr⟩
    · obtain hnone | heq := reaps_next hn
      · rw [hnone] at hr
        cases hr
      · exact ⟨c, List.mem_of_getElem? hc, heq ▸ hr⟩
  · left
    obtain hc' | rfl := List.mem_or_eq_of_mem_set hc'
    exacts [⟨c', hc', hr⟩, by cases hr]
  · rw [hcalls] at hc'
    obtain hc' | hc' := List.mem_append.mp hc'
    · exact .inl ⟨c', hc', hr⟩
    · obtain ⟨m, rfl, hm, rfl⟩ := reaps_starts hc' hr
      right
      unfold Step World.step at hs
      dsimp only at hs
      rw [hm] at hs
      dsimp only at hs
      split_ifs at hs with hexp
      cases hs
      simp only [Db.expired, Bool.and_eq_true, decide_eq_true_eq] at hexp
      exact ⟨m, List.mem_of_find?_eq_some hm, rfl, hexp.1.1⟩

theorem Expired.step (hsound : Sound w) (h : Expired w) (hs : Step policy greatest0 w a w')
    (hg : Unextended w a w') : Expired w' := by
  intro c' hc' id hr
  have he := hsound.effect hs
  refine Db.CommittedBy.mono ?_ (now_step hs)
  obtain ⟨c, hc, hcr⟩ | hnew := reaps_step hs hc' hr
  · exact he.committedBy hsound.balanced (hg c hc id hcr) (h c hc id hcr)
  · exact hnew

/-! ### The promise of the reaper -/

/-- The `i`-th call is a destroy of the reaper that moves the machine to `stopping` in its next step. -/
def World.reaperStops (w : World) (i : ℕ) (id : String) : Bool :=
  match w.calls[i]? with
  | some (.destroyBegin true m) =>
    decide (m.id = id) && (w.db.transition w.now id [.requested, .placing, .starting, .running] .stopping).2
  | _ => false

/-- **The reaper honours committed extensions** in every run in which nothing extends a machine that it is
about to stop. -/
theorem reaper_honours_extensions {as : List Act} {now : ℤ} {i : ℕ} {id : String}
    (h : RunIn (Step policy greatest0) Unextended (World.empty now) as w) (hstop : w.reaperStops i id = true) :
    ∃ m, w.db.machine? id = some m ∧ w.db.committedUntil m ≤ w.now := by
  have hinv : Sound w ∧ Expired w := by
    refine h.invariant (I := fun w => Sound w ∧ Expired w) ?_ ⟨.empty now, fun _ hx => by cases hx⟩
    intro w a w' ⟨hsound, hexp⟩ hs hg
    exact ⟨hsound.step hs, hexp.step hsound hs hg⟩
  obtain ⟨hsound, hexp⟩ := hinv
  unfold World.reaperStops at hstop
  split at hstop
  · next x hcall =>
    obtain ⟨m, hm, hid, hle⟩ := hexp _ (List.mem_of_getElem? hcall) x.id rfl
    have hxid : x.id = id := of_decide_eq_true (Bool.and_eq_true_iff.mp hstop).1
    exact ⟨m, hsound.balanced.toKeyed.machine?_iff.mpr ⟨hm, hid.trans hxid⟩, hle⟩
  · cases hstop

/-- The host has started the machine `name`. -/
def started (name : String) : HostMachine :=
  { id := "vm-" ++ name
    status := .running
    leaseId := name
    publicMachineId := name
    parentMachineId := none
    forkOperationId := none
    resources := .of 1 512 1024
    ready := true
    startedAt := none
    expiresAt := none }

/-- A machine runs for its lifetime, and the reaper is about to stop it. -/
def lifetimeOver : List Act :=
  [.host smallHost, .organization ⟨"o", twoMachines⟩, .project ⟨"p", "o", twoMachines⟩] ++ placing 0 "a"
    ++ [.call 0 (.host .answered (started "a")), .call 0 .none, .tick 60000000, .selectExpired "a",
      .call 1 .none]

/-- What is to be seen when the reaper is about to stop the machine. -/
def World.reaping (w : World) (i : ℕ) (id : String) : Bool × Option ℤ × ℤ :=
  (w.reaperStops i id, (w.db.machine? id).map w.db.committedUntil, w.now)

theorem reaper_honours_extensions_lifetimeOver :
    ∃ w, RunIn (Step freeOfCharge greatest0) Unextended (World.empty 0) lifetimeOver w ∧
      w.reaperStops 1 "a" = true ∧ ∃ m, w.db.machine? "a" = some m ∧ w.db.committedUntil m ≤ w.now := by
  have hfinal : (exec (World.step freeOfCharge greatest0) (World.empty 0) lifetimeOver).map
      (·.reaping 1 "a") = some (true, some 60000000, 60000000) := by
    decide +kernel
  obtain ⟨w, hw, hseen⟩ := Option.map_eq_some_iff.mp hfinal
  have hrun : Run (Step freeOfCharge greatest0) (World.empty 0) lifetimeOver w := .of_exec hw
  have hguard : RunIn (Step freeOfCharge greatest0) Unextended (World.empty 0) lifetimeOver w := by
    refine hrun.guarded ?_
    simp [lifetimeOver, placing, Unextended, Act.leavesBy]
  have hstop : w.reaperStops 1 "a" = true := congrArg Prod.fst hseen
  exact ⟨w, hguard, hstop, reaper_honours_extensions hguard hstop⟩

/-- The extension that the reaper does not see: it is committed after the query, for another minute. -/
def extendedTooLate : List Act :=
  lifetimeOver ++ [.beginExtend 60000000 60000000 "a" "o" "p" "again" 60]

/-- The machine is stopped a minute before the end of its committed extension. -/
theorem reaper_overrides_extension :
    ¬ ∀ (as : List Act) (w : World) (i : ℕ) (id : String),
      Run (Step freeOfCharge greatest0) (World.empty 0) as w → w.reaperStops i id = true →
        ∃ m, w.db.machine? id = some m ∧ w.db.committedUntil m ≤ w.now := by
  intro hclaim
  have hfinal : (exec (World.step freeOfCharge greatest0) (World.empty 0) extendedTooLate).map
      (·.reaping 1 "a") = some (true, some 120000000, 60000000) := by
    decide +kernel
  obtain ⟨w, hw, hseen⟩ := Option.map_eq_some_iff.mp hfinal
  simp only [World.reaping, Prod.mk.injEq] at hseen
  obtain ⟨hstop, hcommitted, hnow⟩ := hseen
  obtain ⟨m, hm, hle⟩ := hclaim _ w 1 "a" (.of_exec hw) hstop
  rw [hm, Option.map_some, Option.some.injEq] at hcommitted
  rw [hcommitted, hnow] at hle
  exact absurd hle (by decide)

end Nehemiah.Control
