import Nehemiah.Control.Capacity

/-!
# The spend cap

An admission passes when the projection, with what the caller adds, is within the cap.  Once it has
committed, the rows speak for themselves: the projection of the new state, with nothing added, is within the
cap too (`spend_cap_bounds_commitments`).  Prices are rounded up, so they are subadditive, and it is enough
that what the rows grow by is no more than what was added.

An extension always adds enough.  A placement and a fork add the lifetime that remains when they read it,
but the machine they commit is billed from `placed_at`, which is the start of their transaction; what they
add is enough when the time that has passed since then is within the rounding (`Times.coversLifetime`).  A
transaction that has waited for the lock of its organization adds too little
(`spend_cap_exceeded_after_lock_wait`).
-/

namespace Nehemiah.Control

open Billing (MachineState HostState HostDesiredState CredentialStatus bind_ok)
open Lib

variable {policy : BillingAdmissionPolicy}

/-! ### Prices -/

variable {n rate divisor time more : ℤ} {additional : BillingCommitmentDelta} {db' : Db}

/-- A quotient that is rounded up is below `c` when `c` times the divisor is enough. -/
theorem ceil_le_iff {d c : ℤ} (hd : 0 < d) : (n + d - 1) / d ≤ c ↔ n ≤ c * d := by
  rw [← Int.lt_add_one_iff, Int.ediv_lt_iff_lt_mul hd, add_mul, one_mul]
  omega

/-- What a price is: the least number of micros that covers the quantity. -/
theorem ceilingPrice_ok {quantity : Quantity} {price : ℤ} (h : ceilingPrice quantity rate divisor = .ok price) :
    ∃ n d, quantity.parsed = .ok (n, d) ∧ 0 ≤ n ∧ 0 ≤ rate ∧ 1 ≤ divisor ∧
      (0 < d → ∀ c, price ≤ c ↔ n * rate ≤ c * (d * divisor)) := by
  obtain ⟨⟨⟩, hrate, h⟩ := bind_ok h
  obtain ⟨⟨n, d⟩, hparsed, h⟩ := bind_ok h
  obtain ⟨⟨⟩, hn, h⟩ := bind_ok h
  obtain ⟨hrate, hdivisor⟩ := demand_ok hrate
  refine ⟨n, d, hparsed, demand_ok hn, hrate, hdivisor, fun hd c => ?_⟩
  have hpos : 0 < d * divisor := mul_pos hd hdivisor
  cases h
  split_ifs with hzero
  · rw [hzero]
    constructor
    · exact fun hc => mul_nonneg hc hpos.le
    · exact fun hc => nonneg_of_mul_nonneg_left hc hpos
  · exact ceil_le_iff hpos

theorem demand_true {c : Prop} [Decidable c] {e : AdmissionError} (hc : c) : demand c e = .ok () := if_pos hc

theorem decimal_ofMicroseconds (hn : 0 ≤ n) : decimal (.ofMicroseconds n) = .ok (n, 10 ^ 6) :=
  if_neg (not_lt.mpr hn)

theorem ceilingPrice_eq {quantity : Quantity} {d : ℤ} (hparsed : quantity.parsed = .ok (n, d)) (hn : 0 ≤ n)
    (hrate : 0 ≤ rate) (hdivisor : 1 ≤ divisor) :
    ceilingPrice quantity rate divisor =
      .ok (if n * rate = 0 then 0 else (n * rate + d * divisor - 1) / (d * divisor)) := by
  unfold ceilingPrice
  rw [demand_true ⟨hrate, hdivisor⟩, hparsed]
  show (demand (0 ≤ n) _ >>= _) = _
  rw [demand_true hn]
  rfl

/-- **Prices are subadditive.**  A quantity that has grown by no more than some whole seconds costs no more
than it did before and the seconds together. -/
theorem ceilingPrice_subadditive {before after price : ℤ} (hnonneg : 0 ≤ after)
    (hgrowth : after ≤ before + seconds time)
    (hbefore : ceilingPrice (.text (.ofMicroseconds before)) rate divisor = .ok price)
    (hmore : ceilingPrice (.bigint time) rate divisor = .ok more) :
    ∃ price', ceilingPrice (.text (.ofMicroseconds after)) rate divisor = .ok price' ∧
      price' ≤ price + more := by
  obtain ⟨n, d, hparsed, hn, hrate, hdivisor, hprice⟩ := ceilingPrice_ok hbefore
  obtain ⟨n', d', hparsed', -, -, -, hmore⟩ := ceilingPrice_ok hmore
  have hafter : Quantity.parsed (.text (.ofMicroseconds after)) = .ok (after, 10 ^ 6) :=
    decimal_ofMicroseconds hnonneg
  refine ⟨_, ceilingPrice_eq hafter hnonneg hrate hdivisor, ?_⟩
  obtain ⟨_, _, hparsed'', -, -, -, hprice'⟩ := ceilingPrice_ok (ceilingPrice_eq hafter hnonneg hrate hdivisor)
  rw [hafter] at hparsed''
  cases hparsed''
  cases hparsed'
  obtain ⟨rfl, rfl⟩ : n = before ∧ d = 10 ^ 6 := by
    change decimal (.ofMicroseconds before) = _ at hparsed
    unfold decimal at hparsed
    split_ifs at hparsed
    cases hparsed
    exact ⟨rfl, rfl⟩
  have h₁ : n * rate ≤ price * (10 ^ 6 * divisor) := (hprice (by norm_num) price).mp le_rfl
  have h₂ : time * rate ≤ more * (1 * divisor) := (hmore one_pos more).mp le_rfl
  refine (hprice' (by norm_num) _).mpr ?_
  calc after * rate ≤ (n + seconds time) * rate := mul_le_mul_of_nonneg_right hgrowth hrate
    _ = n * rate + 10 ^ 6 * (time * rate) := by rw [seconds]; ring
    _ ≤ price * (10 ^ 6 * divisor) + 10 ^ 6 * (more * (1 * divisor)) :=
      add_le_add h₁ (mul_le_mul_of_nonneg_left h₂ (by norm_num))
    _ = (price + more) * (10 ^ 6 * divisor) := by ring

/-! ### Projections -/

variable {db : Db} {organizationId : String}

/-- The prices that a projection adds up. -/
theorem projectedMicros_ok {projected : ℤ}
    (h : policy.projectedMicros db time organizationId additional = .ok projected) :
    ∃ usage vcpu memory storage moreVcpu moreMemory moreStorage,
      meterDimensions.mapM (policy.usagePrice db organizationId) = .ok usage ∧
      ceilingPrice (.text (.ofMicroseconds (db.machineCommitments time organizationId .vcpu)))
        (policy.rates .vcpuSeconds) 1 = .ok vcpu ∧
      ceilingPrice (.text (.ofMicroseconds (db.machineCommitments time organizationId .memory)))
        (policy.rates .gibSeconds) mebibytesPerGibibyte = .ok memory ∧
      ceilingPrice (.text (.ofMicroseconds (db.storageCommitments time organizationId)))
        (policy.rates .storageGibHours) bytesPerGibibyteHour = .ok storage ∧
      ceilingPrice (.bigint additional.vcpuSeconds) (policy.rates .vcpuSeconds) 1 = .ok moreVcpu ∧
      ceilingPrice (.bigint additional.memoryMebibyteSeconds) (policy.rates .gibSeconds)
        mebibytesPerGibibyte = .ok moreMemory ∧
      ceilingPrice (.bigint additional.storageByteSeconds) (policy.rates .storageGibHours)
        bytesPerGibibyteHour = .ok moreStorage ∧
      projected = usage.sum + vcpu + memory + storage + moreVcpu + moreMemory + moreStorage := by
  obtain ⟨usage, h₁, h⟩ := bind_ok h
  obtain ⟨vcpu, h₂, h⟩ := bind_ok h
  obtain ⟨memory, h₃, h⟩ := bind_ok h
  obtain ⟨storage, h₄, h⟩ := bind_ok h
  obtain ⟨moreVcpu, h₅, h⟩ := bind_ok h
  obtain ⟨moreMemory, h₆, h⟩ := bind_ok h
  obtain ⟨moreStorage, h₇, h⟩ := bind_ok h
  cases h
  exact ⟨usage, vcpu, memory, storage, moreVcpu, moreMemory, moreStorage, h₁, h₂, h₃, h₄, h₅, h₆, h₇, rfl⟩

theorem ceilingPrice_zero (hrate : 0 ≤ rate) (hdivisor : 1 ≤ divisor) :
    ceilingPrice (.bigint 0) rate divisor = .ok 0 := by
  rw [ceilingPrice_eq (n := 0) (d := 1) rfl le_rfl hrate hdivisor, if_pos (zero_mul rate)]

/-- **The projection of a state that has grown by no more than was added.** -/
theorem projectedMicros_le {projected : ℤ} {resources : Resources} (hevents : db'.usageEvents = db.usageEvents)
    (houtbox : db'.usageOutbox = db.usageOutbox) (hvolumes : db'.volumes = db.volumes)
    (hnonneg : ∀ dimension, 0 ≤ db'.machineCommitments time organizationId dimension)
    (hgrowth : ∀ dimension, db'.machineCommitments time organizationId dimension ≤
      db.machineCommitments time organizationId dimension + seconds (more * resources dimension.resource))
    (h : policy.projectedMicros db time organizationId (.machine more resources) = .ok projected) :
    ∃ projected', policy.projectedMicros db' time organizationId .none = .ok projected' ∧
      projected' ≤ projected := by
  obtain ⟨usage, vcpu, memory, storage, moreVcpu, moreMemory, moreStorage, h₁, h₂, h₃, h₄, h₅, h₆, h₇, rfl⟩ :=
    projectedMicros_ok h
  obtain ⟨vcpu', h₂', hvcpu⟩ := ceilingPrice_subadditive (hnonneg .vcpu) (hgrowth .vcpu) h₂ h₅
  obtain ⟨memory', h₃', hmemory⟩ := ceilingPrice_subadditive (hnonneg .memory) (hgrowth .memory) h₃ h₆
  have husage : policy.usagePrice db' organizationId = policy.usagePrice db organizationId := by
    funext dimension
    simp only [BillingAdmissionPolicy.usagePrice, durableUsage, hevents, houtbox]
  have hstorage : db'.storageCommitments time organizationId = db.storageCommitments time organizationId := by
    simp only [Db.storageCommitments, hvolumes]
  have hzero : ∀ dimension, ∀ divisor, 1 ≤ divisor →
      ceilingPrice (.bigint 0) (policy.rates dimension) divisor = .ok 0 :=
    fun dimension divisor => ceilingPrice_zero (Int.natCast_nonneg _)
  have hmore : moreStorage = 0 := by
    have h₇' : ceilingPrice (.bigint 0) (policy.rates .storageGibHours) bytesPerGibibyteHour = .ok moreStorage :=
      h₇
    rw [hzero _ _ (by decide)] at h₇'
    cases h₇'
    rfl
  refine ⟨usage.sum + vcpu' + memory' + storage + 0 + 0 + 0, ?_, by omega⟩
  unfold BillingAdmissionPolicy.projectedMicros
  rw [husage, hstorage, h₁, h₂', h₃', h₄]
  simp only [BillingCommitmentDelta.none]
  rw [hzero _ 1 le_rfl, hzero _ _ (by decide), hzero _ _ (by decide)]
  rfl

/-- What passes the cap has a projection within the cap. -/
theorem enforce_ok {account : BillingAccount} {cap : ℤ}
    (haccount : db.billingAccounts.find? (fun a => decide (a.organizationId = organizationId)) = some account)
    (hcap : account.spendCapCents = some cap) (h : policy.enforce db time organizationId additional = .ok ()) :
    ∃ projected, policy.projectedMicros db time organizationId additional = .ok projected ∧
      projected ≤ cap * microsPerCent := by
  unfold BillingAdmissionPolicy.enforce at h
  rw [haccount] at h
  dsimp only at h
  split_ifs at h
  rw [hcap] at h
  obtain ⟨projected, hprojected, h⟩ := bind_ok h
  exact ⟨projected, hprojected, demand_ok h⟩

/-! ### Machines that nothing is known of yet -/

def Db.HasPlaced (db : Db) (id : String) : Prop := ∃ m ∈ db.machines, m.id = id ∧ unplaced m.state = false

theorem Db.HasPlaced.evolves (he : Evolves db db') {id : String} (h : db.HasPlaced id) : db'.HasPlaced id := by
  obtain ⟨m, hm, hid, hp⟩ := h
  obtain ⟨m', hm', hk⟩ := he.machines m hm
  refine ⟨m', hm', hk.id.trans hid, Bool.eq_false_iff.mpr fun hu => ?_⟩
  rw [hk.placed hu] at hp
  cases hp

theorem Db.hasPlaced_of_placed {id : String} (h : db.placed id = true) : db.HasPlaced id := by
  unfold Db.placed at h
  cases hm : db.machine? id with
  | none =>
    rw [hm] at h
    cases h
  | some m =>
    rw [hm] at h
    simp only [Option.any_some, Bool.and_eq_true, Bool.not_eq_true'] at h
    exact ⟨m, List.mem_of_find?_eq_some hm, by simpa using List.find?_some hm, h.2⟩

/-- Usage and extensions are of machines that have been placed. -/
structure Billed (db : Db) : Prop where
  waiting : ∀ m ∈ db.machines, unplaced m.state = true → m.startedAt = none ∧ m.stoppedAt = none
  events : ∀ e ∈ db.usageEvents, ∀ id, e.machineId = some id → db.HasPlaced id
  outbox : ∀ o ∈ db.usageOutbox, db.HasPlaced o.machineId
  extensions : ∀ o ∈ db.extendOperations, db.HasPlaced o.machineId

section Billed

variable {db db' : Db} (h : Billed db)

include h

/-- The tables of usage and extensions, with rows that were there or are about a placed machine. -/
theorem Billed.evolves (he : Evolves db db')
    (hwaiting : ∀ m ∈ db'.machines, unplaced m.state = true → m.startedAt = none ∧ m.stoppedAt = none)
    (hevents : ∀ e ∈ db'.usageEvents, e ∈ db.usageEvents ∨ e.machineId.all db.placed = true)
    (houtbox : ∀ o ∈ db'.usageOutbox,
      (∃ o' ∈ db.usageOutbox, o'.machineId = o.machineId) ∨ db.placed o.machineId = true)
    (hextensions : ∀ o ∈ db'.extendOperations,
      (∃ o' ∈ db.extendOperations, o'.machineId = o.machineId) ∨ db.HasPlaced o.machineId) : Billed db' := by
  refine ⟨hwaiting, fun e hmem id hid => ?_, fun o hmem => ?_, fun o hmem => ?_⟩
  · obtain hold | hnew := hevents e hmem
    · exact (h.events e hold id hid).evolves he
    · rw [hid] at hnew
      exact (Db.hasPlaced_of_placed hnew).evolves he
  · obtain ⟨o', ho', hid⟩ | hnew := houtbox o hmem
    · exact hid ▸ (h.outbox o' ho').evolves he
    · exact (Db.hasPlaced_of_placed hnew).evolves he
  · obtain ⟨o', ho', hid⟩ | hnew := hextensions o hmem
    · exact hid ▸ (h.extensions o' ho').evolves he
    · exact hnew.evolves he

/-- A write of machines. -/
theorem Billed.machines (he : Evolves db db')
    (hwaiting : ∀ m ∈ db'.machines, unplaced m.state = true → m.startedAt = none ∧ m.stoppedAt = none)
    (hevents : db'.usageEvents = db.usageEvents) (houtbox : db'.usageOutbox = db.usageOutbox)
    (hextensions : db'.extendOperations = db.extendOperations) : Billed db' :=
  h.evolves he hwaiting (fun _ hx => .inl (hevents ▸ hx)) (fun o hx => .inl ⟨o, houtbox ▸ hx, rfl⟩)
    fun o hx => .inl ⟨o, hextensions ▸ hx, rfl⟩

variable {p : MachineRow → Bool} {f : MachineRow → MachineRow}

/-- A write of machines that have been placed. -/
theorem Billed.placed
    (hf : ∀ m ∈ db.machines, p m = true → unplaced (f m).state = true →
      (f m).startedAt = none ∧ (f m).stoppedAt = none) :
    ∀ m ∈ updateWhere p f db.machines, unplaced m.state = true → m.startedAt = none ∧ m.stoppedAt = none :=
  forall_updateWhere h.waiting hf

theorem Billed.quiet {db₀ : Db} (hq : ∀ m ∈ db.machines, p m = true → Quiet db₀ m (f m)) :
    ∀ m ∈ updateWhere p f db.machines, unplaced m.state = true → m.startedAt = none ∧ m.stoppedAt = none := by
  refine h.placed fun m hm hp hu => ?_
  obtain ⟨hstart, hstop⟩ := (hq m hm hp).waiting hu
  rw [hstart, hstop]
  exact h.waiting m hm ((hq m hm hp).placed hu)

end Billed

theorem Effect.billed {now : ℤ} {a : Act} (hb : Balanced db) (h : Billed db) (e : Effect policy now db a db') :
    Billed db' := by
  have he := e.evolves hb
  cases e with
  | @organization row =>
    obtain ⟨hm, -, -, hx, hevents, houtbox⟩ := putOrganization_only db row
    exact h.machines he (hm ▸ h.waiting) hevents houtbox hx
  | project _ _ hp =>
    obtain ⟨hm, -, -, hx, hevents, houtbox⟩ := putProject_only hp
    exact h.machines he (hm ▸ h.waiting) hevents houtbox hx
  | around _ _ hm _ _ hx hevents houtbox =>
    refine h.evolves he (hm ▸ h.waiting) hevents houtbox fun o ho => .inl ⟨o, hx ▸ ho, rfl⟩
  | host =>
    unfold Db.putHost at he ⊢
    split <;> exact ⟨h.waiting, h.events, h.outbox, h.extensions⟩
  | quiet hw =>
    obtain ⟨p, f, rfl, hq⟩ := hw
    exact h.machines he (h.quiet fun m hm hp => (hq m hm hp).1) rfl rfl rfl
  | insert ha hi =>
    unfold Db.insertRequested at hi
    split_ifs at hi
    cases hi
    refine h.machines he (fun m hm hu => ?_) rfl rfl rfl
    obtain hm | hm := List.mem_append.mp hm
    · exact h.waiting m hm hu
    · exact List.mem_singleton.mp hm ▸ ⟨ha.startedAt, ha.stoppedAt⟩
  | reserve _ _ _ _ _ hr =>
    obtain ⟨-, _, _, -, -, -, -, rfl⟩ := reserve_ok hr
    exact h.machines he (h.placed fun _ _ _ => nofun) rfl rfl rfl
  | @release _ _ _ m hm =>
    unfold Control.release at he ⊢
    rw [hm] at he ⊢
    dsimp only at he ⊢
    split_ifs at he ⊢
    · exact h
    · exact h.machines he (h.placed fun _ _ _ => h.waiting m (List.mem_of_find?_eq_some hm)) rfl rfl rfl
  | beginExtend hx =>
    obtain ⟨rfl, -⟩ | ⟨m, o, hm, -, hlive, -, hid, -, -, rfl⟩ := beginExtend_ok hx
    · exact h
    · refine h.evolves he h.waiting (fun _ hx => .inl hx) (fun o hx => .inl ⟨o, hx, rfl⟩) fun o' ho' => ?_
      obtain ho' | ho' := List.mem_append.mp ho'
      · exact .inl ⟨o', ho', rfl⟩
      · obtain rfl := List.mem_singleton.mp ho'
        obtain ⟨hmem, hmid⟩ := hb.toKeyed.machine?_iff.mp hm
        refine .inr ⟨m, hmem, hmid.trans hid.symm, ?_⟩
        cases hs : m.state <;> rw [hs] at hlive <;> cases hlive <;> rfl
  | completeExtend hx =>
    obtain ⟨m, _, hm, -, -, -, rfl | rfl⟩ := completeExtend_ok hx
    all_goals
      refine h.evolves he ?_ (fun _ hx => .inl hx) (fun o hx => .inl ⟨o, hx, rfl⟩) fun o ho => .inl ?_
    · exact h.waiting
    · obtain ⟨o', ho', rfl⟩ := mem_updateWhere.mp ho
      exact ⟨o', ho', by split_ifs <;> rfl⟩
    · exact h.placed fun _ _ _ => h.waiting m (List.mem_of_find?_eq_some hm)
    · obtain ⟨o', ho', rfl⟩ := mem_updateWhere.mp ho
      exact ⟨o', ho', by split_ifs <;> rfl⟩
  | beginFork hf =>
    obtain ⟨rfl, -⟩ | ⟨_, _, _, _, _, -, -, -, -, -, -, -, -, -, -, -, -, rfl, -, rfl⟩ := beginFork_ok hf
    · exact h
    · refine h.machines he (fun m hm hu => ?_) rfl rfl rfl
      obtain hm | hm := List.mem_append.mp hm
      · exact h.waiting m hm hu
      · rw [(mem_children hm).state] at hu
        cases hu
  | operation _ _ _ _ hw =>
    obtain ⟨p, f, rfl, hq⟩ := hw
    exact h.machines he (h.quiet fun m hm hp => (hq m hm hp).1) rfl rfl rfl
  | settleFork => exact h.machines he (h.placed fun _ _ _ => nofun) rfl rfl rfl

/-! ### What an admission adds to the commitments -/

theorem Db.commitment_nonneg (db : Db) (time : ℤ) (dimension : RuntimeDimension) (m : MachineRow) :
    0 ≤ db.commitment time dimension m := by
  unfold Db.commitment
  split_ifs <;> positivity

theorem Balanced.machineCommitments_nonneg (h : Balanced db) (time : ℤ) (organizationId : String)
    (dimension : RuntimeDimension) : 0 ≤ db.machineCommitments time organizationId dimension :=
  sumWhere_nonneg fun m hm _ => mul_nonneg (db.commitment_nonneg time dimension m) (h.nonneg m hm _)

/-- A machine with neither usage nor extensions counts from its placement to its expiry. -/
theorem Billed.commitment_placed (h : Billed db) {m : MachineRow} (hid : ¬ db.HasPlaced m.id)
    (hstate : m.state = .starting) (hstart : m.startedAt = none) (hstop : m.stoppedAt = none) {began : ℤ}
    (hplaced : m.placedAt = some began) (time : ℤ) (dimension : RuntimeDimension) :
    db.commitment time dimension m = max (m.expiresAt - time) 0 + max (time - began) 0 := by
  have htargets : db.targets m = [] := by
    rw [Db.targets, List.map_eq_nil_iff, List.filter_eq_nil_iff]
    intro o ho hc
    simp only [Bool.and_eq_true, decide_eq_true_eq] at hc
    exact hid (hc.1 ▸ h.extensions o ho)
  have hperiods : db.periodEnds dimension m = [] := by
    rw [Db.periodEnds, List.append_eq_nil_iff, List.map_eq_nil_iff, List.map_eq_nil_iff,
      List.filter_eq_nil_iff, List.filter_eq_nil_iff]
    constructor
    · intro e he hc
      simp only [Bool.and_eq_true, decide_eq_true_eq] at hc
      exact hid (h.events e he m.id hc.1.1)
    · intro o ho hc
      simp only [Bool.and_eq_true, decide_eq_true_eq] at hc
      exact hid (hc.1.1 ▸ h.outbox o ho)
  simp only [Db.commitment, Db.committedUntil, Db.through, htargets, hperiods, hstate, hstart, hstop, hplaced]
  rfl

/-- What a placement or a fork adds covers the machine from the start of the transaction: no more time has
passed since than the rounding leaves. -/
def Times.coversLifetime (t : Times) (expiresAt : ℤ) : Bool :=
  decide (max expiresAt t.enforcedAt - t.began ≤ seconds (ceilSeconds (max (expiresAt - t.readAt) 0)))

theorem Times.coversLifetime_le {t : Times} {now expiresAt : ℤ} (ht : t.ordered now = true)
    (h : t.coversLifetime expiresAt = true) :
    max (expiresAt - t.enforcedAt) 0 + max (t.enforcedAt - t.began) 0 ≤
      seconds (ceilSeconds (max (expiresAt - t.readAt) 0)) := by
  simp only [Times.ordered, Bool.and_eq_true, decide_eq_true_eq] at ht
  have h := of_decide_eq_true h
  omega

/-- Time that is covered is covered for any resources. -/
theorem mul_le_seconds {r : ℤ} (h : n ≤ seconds more) (hr : 0 ≤ r) : n * r ≤ seconds (more * r) :=
  calc n * r ≤ seconds more * r := mul_le_mul_of_nonneg_right h hr
    _ = seconds (more * r) := by unfold seconds; ring

section Growth

variable {db db' : Db} (hb : Balanced db) (h : Billed db) {now : ℤ}

include hb h

theorem reserve_growth {times : Times} {request : ScheduleRequest} {selected : Option String}
    {reservation : Reservation} {m : MachineRow} (hm : db.machine? request.machineId = some m)
    (horganization : m.organizationId = request.organizationId) (hproject : m.projectId = request.projectId)
    (hresources : m.resources = request.resources) (ht : times.ordered now = true)
    (hcovers : times.coversLifetime m.expiresAt = true)
    (hr : reserve policy db times request selected = .ok (db', reservation)) (dimension : RuntimeDimension) :
    db'.machineCommitments times.enforcedAt request.organizationId dimension ≤
      db.machineCommitments times.enforcedAt request.organizationId dimension +
        seconds (db.candidateSeconds request times.readAt * request.resources dimension.resource) := by
  obtain ⟨-, host, m', -, -, hm', hu, rfl⟩ := reserve_ok hr
  rw [hm'] at hm
  cases hm
  obtain ⟨hmem, hid⟩ := hb.toKeyed.machine?_iff.mp hm'
  have hnew : ¬ db.HasPlaced m.id := by
    rintro ⟨x, hx, hxid, hp⟩
    obtain rfl : x = m := key_inj hb.machines hx hmem hxid
    rw [hu] at hp
    cases hp
  obtain ⟨hstart, hstop⟩ := h.waiting m hmem hu
  have hbefore : commits request.organizationId m = false := by
    rcases unplaced_iff.mp hu with hs | hs <;> simp [commits, hs, counted, unplaced, terminal]
  have hcommitment := h.commitment_placed (m := m.place reservation.hostId times.began) hnew rfl hstart hstop rfl
    times.enforcedAt dimension
  have hsum := sumWhere_updateWhere_key (p := commits request.organizationId)
    (v := fun x => db.commitment times.enforcedAt dimension x * x.resources dimension.resource)
    (f := fun _ => m.place reservation.hostId times.began) hb.machines hmem
  have hafter : commits request.organizationId (m.place reservation.hostId times.began) = true := by
    simp [commits, MachineRow.place, counted, unplaced, terminal, horganization]
  rw [hbefore, hafter, if_neg Bool.false_ne_true, if_pos rfl, add_zero, hcommitment] at hsum
  have hseconds : db.candidateSeconds request times.readAt = ceilSeconds (max (m.expiresAt - times.readAt) 0) := by
    simp only [Db.candidateSeconds, hm']
    rw [if_pos ⟨horganization, hproject, hu⟩]
  have hle := mul_le_seconds (Times.coversLifetime_le ht hcovers) (hb.nonneg m hmem dimension.resource)
  rw [hseconds, ← hresources]
  exact hsum.le.trans (add_le_add_right hle _)

omit h in
theorem beginExtend_growth {admittedAt enforcedAt ttlSeconds : ℤ} {machineId organizationId : String} {m : MachineRow}
    {operation : ExtendOperation} (ht : admittedAt ≤ enforcedAt) (hm : db.machine? machineId = some m)
    (hlive : liveState m.state = true) (horganization : m.organizationId = organizationId)
    (hmachine : operation.machineId = machineId) (howner : operation.organizationId = organizationId)
    (htarget : operation.targetExpiresAt = (Db.extendTarget (db.committedUntil m) admittedAt ttlSeconds).1)
    (dimension : RuntimeDimension) :
    Db.machineCommitments { db with extendOperations := db.extendOperations ++ [operation] } enforcedAt
        organizationId dimension ≤
      db.machineCommitments enforcedAt organizationId dimension +
        seconds ((Db.extendTarget (db.committedUntil m) admittedAt ttlSeconds).2
          * m.resources dimension.resource) := by
  obtain ⟨hmem, hid⟩ := hb.toKeyed.machine?_iff.mp hm
  set db₁ : Db := { db with extendOperations := db.extendOperations ++ [operation] } with hdb₁
  have hothers : ∀ x ∈ db.machines, x.id ≠ m.id →
      db₁.commitment enforcedAt dimension x * x.resources dimension.resource =
        db.commitment enforcedAt dimension x * x.resources dimension.resource := by
    intro x _ hne
    have htargets : db₁.targets x = db.targets x := by
      have hno : ¬ operation.machineId = x.id := fun e => hne (e.symm.trans (hmachine.trans hid.symm))
      simp [Db.targets, hdb₁, hno]
    simp only [Db.commitment, Db.committedUntil, htargets]
    rfl
  have hcommitted : db₁.committedUntil m = max (db.committedUntil m) operation.targetExpiresAt := by
    have hown : operation.machineId = m.id ∧ operation.organizationId = m.organizationId :=
      ⟨hmachine.trans hid.symm, howner.trans horganization.symm⟩
    simp [Db.committedUntil, Db.targets, hdb₁, hown, List.foldl_append]
  have hcommits : commits organizationId m = true := by
    cases hs : m.state <;> rw [hs] at hlive <;> cases hlive <;>
      simp [commits, hs, counted, unplaced, terminal, horganization]
  have hterminal : terminal m.state = false := by
    cases hs : m.state <;> rw [hs] at hlive <;> cases hlive <;> rfl
  have hmore : db₁.commitment enforcedAt dimension m ≤ db.commitment enforcedAt dimension m +
      seconds (Db.extendTarget (db.committedUntil m) admittedAt ttlSeconds).2 := by
    have hthrough : db₁.through dimension m = db.through dimension m := rfl
    simp only [Db.commitment, hcommitted, htarget, hterminal, hthrough, Db.extendTarget, seconds, ceilSeconds,
      Bool.false_eq_true, if_false]
    omega
  have hsum := sumWhere_change_key (p := commits organizationId)
    (v := fun x => db.commitment enforcedAt dimension x * x.resources dimension.resource)
    (w := fun x => db₁.commitment enforcedAt dimension x * x.resources dimension.resource)
    hb.machines hmem hothers
  rw [if_pos hcommits, if_pos hcommits] at hsum
  have hnonneg : 0 ≤ m.resources dimension.resource := hb.nonneg m hmem _
  have hworth : db₁.commitment enforcedAt dimension m * m.resources dimension.resource ≤
      db.commitment enforcedAt dimension m * m.resources dimension.resource +
        seconds ((Db.extendTarget (db.committedUntil m) admittedAt ttlSeconds).2
          * m.resources dimension.resource) := by
    refine (mul_le_mul_of_nonneg_right hmore hnonneg).trans (le_of_eq ?_)
    unfold seconds
    ring
  show sumWhere (commits organizationId) (fun x => db₁.commitment enforcedAt dimension x * _) db.machines ≤ _
  unfold Db.machineCommitments
  omega

theorem beginFork_growth {times : Times} {request : ForkRequest} {source : MachineRow} {host : HostRow}
    {children : List MachineRow} (hsource : db.machine? request.sourceMachineId = some source)
    (ht : times.ordered now = true) (hcovers : times.coversLifetime source.expiresAt = true)
    (hlive : 15 ≤ ceilSeconds (source.expiresAt - times.readAt))
    (hchildren : children = request.children.mapIdx
      (forkChild request source times.began (ceilSeconds (source.expiresAt - times.readAt))))
    (hkeys : db.forkInsertable request children = true) (dimension : RuntimeDimension) :
    (db.insertFork request source host.id children).machineCommitments times.enforcedAt
        request.organizationId dimension ≤
      db.machineCommitments times.enforcedAt request.organizationId dimension +
        seconds (max (ceilSeconds (source.expiresAt - times.readAt)) 0 * request.count
          * source.resources dimension.resource) := by
  obtain ⟨hmem, -⟩ := hb.toKeyed.machine?_iff.mp hsource
  simp only [Db.forkInsertable, Bool.and_eq_true, List.all_eq_true, Bool.not_eq_true'] at hkeys
  have hchild : ∀ m ∈ children, commits request.organizationId m = true ∧
      db.commitment times.enforcedAt dimension m * m.resources dimension.resource =
        (max (source.expiresAt - times.enforcedAt) 0 + max (times.enforcedAt - times.began) 0)
          * source.resources dimension.resource := by
    intro m hm
    have hnew : ¬ db.HasPlaced m.id := by
      rintro ⟨x, hx, hxid, -⟩
      have hfree := hkeys.2 m hm
      simp only [Db.keysTaken, List.any_eq_false, Bool.or_eq_true, not_or, decide_eq_true_eq] at hfree
      exact (hfree x hx).1.1 hxid
    rw [hchildren] at hm
    obtain ⟨i, hi, rfl⟩ := List.mem_mapIdx.mp hm
    refine ⟨by simp [commits, forkChild, counted, unplaced, terminal], ?_⟩
    rw [h.commitment_placed hnew rfl rfl rfl rfl]
    rfl
  have hlength : children.length = request.count := by simp [hchildren, ForkRequest.count]
  have hsum : sumWhere (commits request.organizationId)
      (fun m => db.commitment times.enforcedAt dimension m * m.resources dimension.resource) children =
        request.count • ((max (source.expiresAt - times.enforcedAt) 0 + max (times.enforcedAt - times.began) 0)
          * source.resources dimension.resource) := by
    rw [← hlength]
    exact sumWhere_const hchild
  have hseconds : max (ceilSeconds (source.expiresAt - times.readAt)) 0 =
      ceilSeconds (max (source.expiresAt - times.readAt) 0) := by
    unfold ceilSeconds at *
    omega
  have hle := mul_le_seconds (Times.coversLifetime_le ht hcovers) (hb.nonneg source hmem dimension.resource)
  show sumWhere _ (fun m => db.commitment times.enforcedAt dimension m * _) (db.machines ++ children) ≤ _
  rw [sumWhere_append, hsum, hseconds, nsmul_eq_mul]
  refine add_le_add_right ?_ _
  calc (request.count : ℤ) * _ ≤ request.count * seconds (ceilSeconds (max (source.expiresAt - times.readAt) 0)
        * source.resources dimension.resource) := mul_le_mul_of_nonneg_left hle (Int.natCast_nonneg _)
    _ = _ := by unfold seconds; ring

end Growth

/-! ### The cap -/

/-- A new commitment: whose it is, the instant of the projection, and whether what it adds covers it. -/
structure Admission where
  organizationId : String
  enforcedAt : ℤ
  covered : Bool
deriving DecidableEq

/-- The commitment that an action admits and commits: a placement, an extension or a fork, which is not a
replay. -/
def World.admission (policy : BillingAdmissionPolicy) (w : World) : Act → Option Admission
  | .call i (.placement times selected) =>
    match w.calls[i]? with
    | some (.reserve input m _) =>
      match reserve policy w.db times (input.scheduleRequest m.id) selected with
      | .ok _ =>
        some ⟨input.organizationId, times.enforcedAt,
          (w.db.machine? m.id).all fun row => times.coversLifetime row.expiresAt⟩
      | .error _ => none
    | _ => none
  | .beginExtend admittedAt enforcedAt machineId organizationId projectId idempotencyKey ttlSeconds =>
    match w.db.beginExtend policy admittedAt enforcedAt machineId organizationId projectId idempotencyKey
        ttlSeconds with
    | .ok (_, some (_, false)) => some ⟨organizationId, enforcedAt, true⟩
    | _ => none
  | .beginFork times request =>
    match w.db.beginFork policy times request with
    | .ok (_, some (_, false)) =>
      some ⟨request.organizationId, times.enforcedAt,
        (w.db.machine? request.sourceMachineId).all fun source => times.coversLifetime source.expiresAt⟩
    | _ => none
  | _ => none

/-- The projection of the organization is within the cap, if it has one. -/
def WithinCap (policy : BillingAdmissionPolicy) (db : Db) (time : ℤ) (organizationId : String) : Prop :=
  ∀ account cap, db.billingAccounts.find? (fun a => decide (a.organizationId = organizationId)) = some account →
    account.spendCapCents = some cap →
      ∃ projected, policy.projectedMicros db time organizationId .none = .ok projected ∧
        projected ≤ cap * microsPerCent

/-- What has grown by no more than was enforced is within the cap. -/
theorem withinCap_of_growth (db : Db) (hb' : Balanced db') {resources : Resources}
    (haccounts : db'.billingAccounts = db.billingAccounts) (hevents : db'.usageEvents = db.usageEvents)
    (houtbox : db'.usageOutbox = db.usageOutbox) (hvolumes : db'.volumes = db.volumes)
    (henforce : policy.enforce db time organizationId (.machine more resources) = .ok ())
    (hgrowth : ∀ dimension, db'.machineCommitments time organizationId dimension ≤
      db.machineCommitments time organizationId dimension + seconds (more * resources dimension.resource)) :
    WithinCap policy db' time organizationId := by
  intro account cap haccount hcap
  rw [haccounts] at haccount
  obtain ⟨projected, hprojected, hle⟩ := enforce_ok haccount hcap henforce
  obtain ⟨projected', h', hle'⟩ := projectedMicros_le hevents houtbox hvolumes
    (hb'.machineCommitments_nonneg time organizationId) hgrowth hprojected
  exact ⟨projected', h', hle'.trans hle⟩

section Step

variable {w w' : World} {a : Act} (hsound : Sound w) (hbilled : Billed w.db)

include hsound hbilled

/-- **An admission that covers what it commits** leaves the projection within the cap. -/
theorem withinCap_step (hs : Step policy greatest0 w a w') {x : Admission}
    (hx : w.admission policy a = some x) (hcovered : x.covered = true) :
    WithinCap policy w'.db x.enforcedAt x.organizationId := by
  have hb' : Balanced w'.db := (hsound.step hs).balanced
  have hb := hsound.balanced
  unfold Step World.step at hs
  cases a with
  | call i answer =>
    cases answer with
    | placement times selected =>
      simp only [World.admission] at hx
      dsimp only at hs
      split at hx
      · next input m token hcall =>
        rw [hcall] at hs
        obtain ⟨⟨site, c'⟩, hn, rfl⟩ := Option.map_eq_some_iff.mp hs
        simp only [Site.next] at hn
        split_ifs at hn with ht
        split at hx
        · next result hr =>
          obtain ⟨db', reservation⟩ := result
          rw [hr] at hn
          cases hx
          cases hn
          obtain ⟨⟨y, hy, hyid, hres, -⟩, z, hz, hzid, horg, hproject⟩ :=
            hsound.calls _ (List.mem_of_getElem? hcall)
          obtain rfl : y = z := key_inj hb.machines hy hz (hyid.trans hzid.symm)
          have hrow : w.db.machine? m.id = some y := hb.toKeyed.machine?_iff.mpr ⟨hy, hyid⟩
          rw [hrow] at hcovered
          obtain ⟨hquota, _, _, -, -, -, -, hdb⟩ := reserve_ok hr
          obtain ⟨_, _, -, -, henforce, -⟩ := enforceQuota_ok hquota
          have hgrowth := reserve_growth hb hbilled hrow horg hproject hres ht hcovered hr
          subst hdb
          exact withinCap_of_growth w.db hb' rfl rfl rfl rfl henforce hgrowth
        · cases hx
      · cases hx
    | _ => cases hx
  | beginExtend admittedAt enforcedAt machineId organizationId projectId idempotencyKey ttlSeconds =>
    simp only [World.admission] at hx
    dsimp only at hs
    split_ifs at hs with ht
    split at hx
    · next db' operation hr =>
      rw [hr] at hs
      cases hx
      cases hs
      obtain ⟨-, hreplay⟩ | ⟨m, o, hm, horg, hlive, henforce, hmachine, howner, htarget, rfl⟩ := beginExtend_ok hr
      · exact absurd rfl (hreplay operation)
      · have hgrowth := beginExtend_growth hb ht.1 hm hlive horg hmachine howner htarget
        exact withinCap_of_growth w.db hb' rfl rfl rfl rfl henforce hgrowth
    · cases hx
  | beginFork times request =>
    simp only [World.admission] at hx
    dsimp only at hs
    split_ifs at hs with ht
    split at hx
    · next db' operation hr =>
      rw [hr] at hs
      cases hx
      cases hs
      obtain ⟨-, hreplay⟩ | ⟨_, _, source, host, children, -, -, hsource, -, -, -, -, -, hlive, -, henforce, -,
        hchildren, hkeys, rfl⟩ := beginFork_ok hr
      · exact absurd rfl (hreplay operation)
      · rw [hsource] at hcovered
        exact withinCap_of_growth w.db hb' rfl rfl rfl rfl henforce
          (beginFork_growth hb hbilled hsource ht.1 hcovered hlive hchildren hkeys)
    · cases hx
  | _ => cases hx

end Step

theorem billed_run {as : List Act} {now : ℤ} {w : World}
    (h : Run (Step policy greatest0) (World.empty now) as w) : Sound w ∧ Billed w.db := by
  refine h.invariant (I := fun w => Sound w ∧ Billed w.db) ?_ ⟨.empty now, ?_⟩
  · intro w a w' ⟨hsound, hbilled⟩ hs
    exact ⟨hsound.step hs, (hsound.effect hs).billed hsound.balanced hbilled⟩
  · refine ⟨?_, ?_, ?_, ?_⟩
    all_goals exact fun _ hx => by cases hx

/-- **The spend cap bounds commitments** in every reachable state, for every rate card, when what the
admission adds covers what it commits. -/
theorem spend_cap_bounds_commitments {as : List Act} {now : ℤ} {w w' : World} {a : Act} {x : Admission}
    (h : Run (Step policy greatest0) (World.empty now) as w) (hs : Step policy greatest0 w a w')
    (hx : w.admission policy a = some x) (hcovered : x.covered = true) :
    WithinCap policy w'.db x.enforcedAt x.organizationId := by
  obtain ⟨hsound, hbilled⟩ := billed_run h
  exact withinCap_step hsound hbilled hs hx hcovered

/-! A machine of 60 seconds, at a cent for a second of a vcpu. -/

def centASecond : BillingAdmissionPolicy :=
  { freeOfCharge with rates := fun dimension => if dimension = .vcpuSeconds then 10000 else 0 }

/-- The organization of the machine, with a cap, and its machine that is to be placed. -/
def cappedAt (cents : ℤ) : List Act :=
  [.host smallHost, .organization ⟨"o", twoMachines⟩, .project ⟨"p", "o", twoMachines⟩,
    .billingAccount ⟨"o", "standard", some cents, none⟩, .create (smallMachine "a"),
    .call 0 (.identity "a" "a" 0), .call 0 .none, .call 0 (.token "a")]

def placedAt (times : Times) : Act := .call 0 (.placement times (some "h"))

theorem spend_cap_bounds_commitments_placed :
    ∃ w w', Run (Step centASecond greatest0) (World.empty 0) (cappedAt 60) w ∧
      Step centASecond greatest0 w (placedAt ⟨0, 0, 0⟩) w' ∧
      w.admission centASecond (placedAt ⟨0, 0, 0⟩) = some ⟨"o", 0, true⟩ ∧ WithinCap centASecond w'.db 0 "o" := by
  have hfinal : ((exec (World.step centASecond greatest0) (World.empty 0) (cappedAt 60)).bind fun w =>
      w.admission centASecond (placedAt ⟨0, 0, 0⟩)) = some ⟨"o", 0, true⟩ := by
    decide +kernel
  obtain ⟨w, hw, hx⟩ := Option.bind_eq_some_iff.mp hfinal
  have hsome : ((exec (World.step centASecond greatest0) (World.empty 0) (cappedAt 60)).bind fun w =>
      w.step centASecond greatest0 (placedAt ⟨0, 0, 0⟩)).isSome = true := by
    decide +kernel
  obtain ⟨w', hw'⟩ := Option.isSome_iff_exists.mp hsome
  rw [hw, Option.bind_some] at hw'
  have hrun : Run (Step centASecond greatest0) (World.empty 0) (cappedAt 60) w := .of_exec hw
  exact ⟨w, w', hrun, hw', hx, spend_cap_bounds_commitments hrun hw' hx rfl⟩

/-- The transaction of the placement began ten seconds before it got the lock of its organization: it is
charged for 50 seconds, and the machine is billed for 60. -/
def afterLockWait : Times := ⟨0, 10000000, 10000000⟩

theorem spend_cap_exceeded_after_lock_wait :
    ¬ ∀ (policy : BillingAdmissionPolicy) (as : List Act) (w w' : World) (a : Act) (x : Admission),
      Run (Step policy greatest0) (World.empty 0) as w → Step policy greatest0 w a w' →
        w.admission policy a = some x → WithinCap policy w'.db x.enforcedAt x.organizationId := by
  intro hclaim
  have hfinal : ((exec (World.step centASecond greatest0) (World.empty 0)
      (cappedAt 50 ++ [.tick 10000000])).bind fun w => (w.step centASecond greatest0 (placedAt afterLockWait)).map
        fun w' => (w.admission centASecond (placedAt afterLockWait),
          w'.db.billingAccounts.find? (fun a => decide (a.organizationId = "o")),
          (centASecond.projectedMicros w'.db 10000000 "o" .none).toOption)) =
      some (some ⟨"o", 10000000, false⟩, some ⟨"o", "standard", some 50, none⟩, some 600000) := by
    decide +kernel
  obtain ⟨w, hw, hfinal⟩ := Option.bind_eq_some_iff.mp hfinal
  obtain ⟨w', hw', hseen⟩ := Option.map_eq_some_iff.mp hfinal
  simp only [Prod.mk.injEq] at hseen
  obtain ⟨hx, haccount, hprojected⟩ := hseen
  obtain ⟨projected, hok, hle⟩ := hclaim centASecond _ w w' _ _ (.of_exec hw) hw' hx _ 50 haccount rfl
  rw [hok] at hprojected
  cases hprojected
  exact absurd hle (by decide)

end Nehemiah.Control
