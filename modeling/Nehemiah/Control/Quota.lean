import Nehemiah.Control.Capacity

/-!
# What is counted against the limits

A machine takes part in the usage from its placement to its end, with itself and its three resources
(`MachineRow.worth`).  Only a placement and a fork raise what the placed machines of an owner count for
(`Effect.placedWorth_le`), and a usage query counts no less than that (`Balanced.placedWorth_le_usage`).

The owners are organizations and projects.  Their rows are their limits, so that a run which changes no
limits only adds owners (`Effect.joined`), and an owner that is added has no machines yet (`Owned`).
-/

namespace Nehemiah.Control

open Billing (MachineState HostState HostDesiredState CredentialStatus)
open Lib

variable {policy : BillingAdmissionPolicy}

/-! ### Machines that have been placed -/

/-- The machine has been placed and takes part in the usage. -/
def placedCounted (m : MachineRow) : Bool := m.hostId.isSome && counted m.state

/-- What a machine counts for: itself, and its resources. -/
def MachineRow.worth (m : MachineRow) : Option Resource → ℤ
  | none => 1
  | some r => m.resources r

def Limits.worth (l : Limits) : Option Resource → ℤ
  | none => l.maxMachines
  | some r => l.max r

def Usage.worth (u : Usage) : Option Resource → ℤ
  | none => u.machines
  | some r => u.resources r

/-- What the placed machines of an owner count for. -/
def Db.placedWorth (db : Db) (p : MachineRow → Bool) : Option Resource → ℤ :=
  sumWhere (fun m => p m && placedCounted m) MachineRow.worth db.machines

section Worth

variable {db : Db} (hb : Balanced db)

include hb

theorem Balanced.worth_nonneg {m : MachineRow} (hm : m ∈ db.machines) : 0 ≤ m.worth := by
  intro d
  cases d with
  | none => exact zero_le_one
  | some r => exact hb.nonneg m hm r

/-- A usage query counts what has been placed, and maybe more. -/
theorem Balanced.placedWorth_le_usage (p : MachineRow → Bool) : db.placedWorth p ≤ (db.usage p).worth := by
  have hle : db.placedWorth p ≤ sumWhere (fun m => p m && counted m.state) MachineRow.worth db.machines := by
    refine sumWhere_mono (fun m _ hp => ?_) fun m hm _ => hb.worth_nonneg hm
    simp only [placedCounted, Bool.and_eq_true] at hp ⊢
    exact ⟨hp.1, hp.2.2⟩
  refine hle.trans (le_of_eq ?_)
  funext d
  rw [sumWhere_apply]
  cases d with
  | none => rfl
  | some r => exact (sumWhere_apply r).symm

end Worth

theorem Limits.admits_worth {l : Limits} {u : Usage} {count : ℤ} {need : Resources}
    (h : l.admits u count need = true) {more : Option Resource → ℤ} (hcount : more none = count)
    (hneed : ∀ r, more (some r) = need r) : u.worth + more ≤ l.worth := by
  simp only [Limits.admits, Bool.and_eq_true, decide_eq_true_eq, Resources.fits] at h
  intro d
  cases d with
  | none =>
    show u.machines + more none ≤ l.maxMachines
    rw [hcount]
    exact h.1
  | some r =>
    show u.resources r + more (some r) ≤ l.max r
    rw [hneed]
    exact h.2 r

/-- A condition on the owner of a machine. -/
def ByOwner (p : MachineRow → Bool) : Prop :=
  ∀ m m' : MachineRow, m'.organizationId = m.organizationId → m'.projectId = m.projectId → p m' = p m

variable {m : MachineRow} {db db' : Db} {id : String} {ρ : Type*}

theorem inOrganization_iff :
    inOrganization id m = true ↔ m.organizationId = id := decide_eq_true_iff

theorem inProject_iff : inProject id m = true ↔ m.projectId = id :=
  decide_eq_true_iff

theorem byOwner_inOrganization (id : String) : ByOwner (inOrganization id) := fun m m' h _ => by
  simp only [inOrganization, h]

theorem byOwner_inProject (id : String) : ByOwner (inProject id) := fun m m' _ h => by
  simp only [inProject, h]

/-- A row that is kept on its host counts for no more than it did. -/
theorem Kept.placedCounted {m' : MachineRow} (hk : Kept m m') (hhost : m'.hostId = m.hostId)
    (hm : Control.unplaced m.state = true → m.hostId = none) (h : placedCounted m' = true) :
    placedCounted m = true := by
  simp only [Control.placedCounted, Bool.and_eq_true, counted, Bool.not_eq_true'] at h ⊢
  rw [hhost] at h
  refine ⟨h.1, ?_, ?_⟩
  · rw [Bool.eq_false_iff]
    intro hu
    rw [hm hu] at h
    cases h.1
  · rw [Bool.eq_false_iff]
    intro ht
    rw [hk.ended ht] at h
    rw [ht] at h
    cases h.2.2

theorem Kept.worth {m' : MachineRow} (hk : Kept m m') : m'.worth = m.worth := by
  funext d
  cases d with
  | none => rfl
  | some r => exact congrFun hk.resources r

/-- The actions that are admissions of machines. -/
def Act.places : Act → Bool
  | .call _ (.placement _ _) | .beginFork _ _ => true
  | _ => false

section Effects

variable {db : Db} (hb : Balanced db) {p : MachineRow → Bool} (hp : ByOwner p)

include hb hp

theorem Balanced.placedWorth_write {q : MachineRow → Bool} {f : MachineRow → MachineRow}
    (hq : ∀ m ∈ db.machines, q m = true → Kept m (f m) ∧ (f m).hostId = m.hostId) :
    sumWhere (fun m => p m && placedCounted m) MachineRow.worth (updateWhere q f db.machines) ≤
      db.placedWorth p := by
  refine sumWhere_updateWhere_le (fun m hm hqm hc => ?_) (fun m hm hqm _ => ?_) fun m hm _ => hb.worth_nonneg hm
  · obtain ⟨hk, hhost⟩ := hq m hm hqm
    simp only [Bool.and_eq_true] at hc ⊢
    refine ⟨hp m (f m) hk.organizationId hk.projectId ▸ hc.1, ?_⟩
    exact hk.placedCounted hhost (fun hu => (hb.unplaced m hm hu).1) hc.2
  · exact (hq m hm hqm).1.worth.le

/-- **What is not an admission places nothing.** -/
theorem Effect.placedWorth_le {now : ℤ} {a : Act} {db' : Db} (e : Effect policy now db a db')
    (ha : a.places = false) : db'.placedWorth p ≤ db.placedWorth p := by
  have hsame : db'.machines = db.machines → db'.placedWorth p ≤ db.placedWorth p := by
    intro hm
    unfold Db.placedWorth
    rw [hm]
  cases e with
  | around _ _ hm => exact hsame hm
  | @organization row => exact hsame (putOrganization_only db row).machines
  | project _ _ hx => exact hsame (putProject_only hx).machines
  | host =>
    refine hsame ?_
    unfold Db.putHost
    split <;> rfl
  | quiet hw =>
    obtain ⟨q, f, rfl, hq⟩ := hw
    exact hb.placedWorth_write hp fun m hm hqm => ⟨(hq m hm hqm).1.toKept, (hq m hm hqm).1.hostId_eq⟩
  | @insert _ _ m hm hi =>
    unfold Db.insertRequested at hi
    split_ifs at hi
    cases hi
    have hnone : placedCounted m = false := by simp [placedCounted, hm.hostId]
    show sumWhere _ _ (db.machines ++ [m]) ≤ _
    rw [sumWhere_append, sumWhere_cons, hnone, Bool.and_false, if_neg Bool.false_ne_true, sumWhere_nil, zero_add,
      add_zero]
    exact le_rfl
  | reserve => cases ha
  | @release _ id hostId m hm hhost hended =>
    unfold Control.release
    rw [hm]
    dsimp only
    split_ifs
    · exact le_rfl
    · obtain ⟨hmem, hid⟩ := hb.toKeyed.machine?_iff.mp hm
      refine hb.placedWorth_write hp fun x hx hxid => ?_
      obtain rfl : x = m := key_inj hb.machines hx hmem (of_decide_eq_true hxid)
      exact ⟨.released x now, rfl⟩
  | beginExtend hx => exact hsame (beginExtend_tables hx).1
  | completeExtend hx =>
    obtain ⟨m, _, hm, -, -, -, rfl | rfl⟩ := completeExtend_ok hx
    · exact le_rfl
    · obtain ⟨hmem, hid⟩ := hb.toKeyed.machine?_iff.mp hm
      refine hb.placedWorth_write hp fun x hx hxid => ?_
      obtain rfl : x = m := key_inj hb.machines hx hmem (of_decide_eq_true hxid)
      exact ⟨{ Kept.refl x with expiresAt := le_max_left _ _ }, rfl⟩
  | beginFork => cases ha
  | operation _ _ _ _ hw =>
    obtain ⟨q, f, rfl, hq⟩ := hw
    exact hb.placedWorth_write hp fun m hm hqm => ⟨(hq m hm hqm).1.toKept, (hq m hm hqm).1.hostId_eq⟩
  | settleFork ho hs =>
    refine hb.placedWorth_write hp fun m hm hc => ?_
    exact ⟨.failChild (hb.child_held ho hs hm (Bool.and_eq_true_iff.mp hc).1).1 now, rfl⟩

end Effects

/-! ### Owners -/

/-- The keys of organizations and projects, and the foreign keys that lead to them. -/
structure Owned (db : Db) : Prop where
  organizations : (db.organizations.map (·.id)).Nodup
  projects : (db.projects.map (·.id)).Nodup
  project : ∀ p ∈ db.projects, ∃ o ∈ db.organizations, o.id = p.organizationId
  machine : ∀ m ∈ db.machines, ∃ p ∈ db.projects, p.id = m.projectId ∧ p.organizationId = m.organizationId

theorem project?_some {organizationId : String} {p : Project} (h : db.project? id organizationId = some p) :
    p ∈ db.projects ∧ p.id = id ∧ p.organizationId = organizationId := by
  have hkey := List.find?_some h
  simp only [Bool.and_eq_true, decide_eq_true_eq] at hkey
  exact ⟨List.mem_of_find?_eq_some h, hkey⟩

theorem organization?_some {o : Organization} (h : db.organization? id = some o) : o ∈ db.organizations ∧ o.id = id :=
  ⟨List.mem_of_find?_eq_some h, by simpa using List.find?_some h⟩

/-- What a step does to the limits. -/
theorem Effect.limits {now : ℤ} {a : Act} (e : Effect policy now db a db') :
    (db'.organizations = db.organizations ∧ db'.projects = db.projects) ∨
    (∃ row, a = .organization row ∧ row.limits.valid = true ∧ db' = db.putOrganization row) ∨
    ∃ row, a = .project row ∧ row.limits.valid = true ∧
      (db.organization? row.organizationId).isSome = true ∧ db.putProject row = some db' := by
  cases e with
  | @organization row hvalid => exact .inr (.inl ⟨row, rfl, hvalid, rfl⟩)
  | @project row _ hvalid horganization hp => exact .inr (.inr ⟨row, rfl, hvalid, horganization, hp⟩)
  | around horganizations hprojects => exact .inl ⟨horganizations, hprojects⟩
  | host =>
    left
    unfold Db.putHost
    split <;> exact ⟨rfl, rfl⟩
  | quiet hw =>
    obtain ⟨_, _, rfl, -⟩ := hw
    exact .inl ⟨rfl, rfl⟩
  | insert _ hi =>
    unfold Db.insertRequested at hi
    split_ifs at hi
    cases hi
    exact .inl ⟨rfl, rfl⟩
  | reserve _ _ _ _ _ hr =>
    obtain ⟨-, _, _, -, -, -, -, rfl⟩ := reserve_ok hr
    exact .inl ⟨rfl, rfl⟩
  | release =>
    left
    unfold Control.release
    split
    · exact ⟨rfl, rfl⟩
    · split_ifs <;> exact ⟨rfl, rfl⟩
  | beginExtend hx =>
    obtain ⟨rfl, -⟩ | ⟨_, _, -, -, -, -, -, -, -, rfl⟩ := beginExtend_ok hx
    all_goals exact .inl ⟨rfl, rfl⟩
  | completeExtend hx =>
    obtain ⟨_, _, -, -, -, -, rfl | rfl⟩ := completeExtend_ok hx
    all_goals exact .inl ⟨rfl, rfl⟩
  | beginFork hf =>
    obtain ⟨rfl, -⟩ | ⟨_, _, _, _, _, -, -, -, -, -, -, -, -, -, -, -, -, -, -, rfl⟩ := beginFork_ok hf
    all_goals exact .inl ⟨rfl, rfl⟩
  | operation _ _ _ _ hw =>
    obtain ⟨_, _, rfl, -⟩ := hw
    exact .inl ⟨rfl, rfl⟩
  | settleFork => exact .inl ⟨rfl, rfl⟩

/-- The limits of what is there are not changed. -/
def Act.keepsLimits (db : Db) : Act → Prop
  | .organization row => ∀ o ∈ db.organizations, o.id = row.id → o.limits = row.limits
  | .project row => ∀ p ∈ db.projects, p.id = row.id → p.limits = row.limits
  | _ => True

/-- The owners afterwards are those before, and maybe a new one. -/
structure Joined (db db' : Db) : Prop where
  organizations : ∀ o ∈ db.organizations, o ∈ db'.organizations
  projects : ∀ p ∈ db.projects, p ∈ db'.projects
  newOrganizations : ∀ o ∈ db'.organizations, o ∈ db.organizations ∨
    0 ≤ o.limits.worth ∧ ∀ x ∈ db.organizations, x.id ≠ o.id
  newProjects : ∀ p ∈ db'.projects, p ∈ db.projects ∨ 0 ≤ p.limits.worth ∧ ∀ x ∈ db.projects, x.id ≠ p.id

theorem Limits.valid_worth {l : Limits} (h : l.valid = true) : 0 ≤ l.worth := by
  simp only [Limits.valid, Resources.fits, Bool.and_eq_true, decide_eq_true_eq] at h
  intro d
  cases d with
  | none => exact h.1
  | some r => exact h.2 r

theorem Joined.refl (ho : db'.organizations = db.organizations) (hp : db'.projects = db.projects) : Joined db db' :=
  ⟨fun _ hx => ho ▸ hx, fun _ hx => hp ▸ hx, fun _ hx => .inl (ho ▸ hx), fun _ hx => .inl (hp ▸ hx)⟩

/-- An update that writes what is there. -/
theorem updateWhere_same {p : ρ → Bool} {f : ρ → ρ} {rows : List ρ} (h : ∀ r ∈ rows, p r = true → f r = r) :
    updateWhere p f rows = rows := by
  refine (updateWhere_congr h).trans ?_
  simp [updateWhere]

theorem putOrganization_kept {row : Organization} (hk : (Act.organization row).keepsLimits db) :
    (db.putOrganization row).organizations = db.organizations ∨
      (∀ o ∈ db.organizations, o.id ≠ row.id) ∧
        (db.putOrganization row).organizations = db.organizations ++ [row] := by
  unfold Db.putOrganization
  cases ho : db.organization? row.id with
  | some =>
    refine .inl (updateWhere_same fun o hmem hid => ?_)
    have hid : o.id = row.id := of_decide_eq_true hid
    have hlimits : o.limits = row.limits := hk o hmem hid
    cases o
    cases row
    cases hid
    cases hlimits
    rfl
  | none =>
    refine .inr ⟨fun o hmem hid => ?_, rfl⟩
    exact absurd (decide_eq_true hid) (by simpa using List.find?_eq_none.mp ho o hmem)

theorem putProject_kept {row : Project} (hn : (db.projects.map (·.id)).Nodup) (hk : (Act.project row).keepsLimits db)
    (h : db.putProject row = some db') :
    db'.projects = db.projects ∨
      (∀ p ∈ db.projects, p.id ≠ row.id) ∧ db'.projects = db.projects ++ [row] := by
  unfold Db.putProject at h
  split at h
  · next p hp =>
    split_ifs at h with howner
    cases h
    refine .inl (updateWhere_same fun x hmem hid => ?_)
    have hpid : p.id = row.id := by simpa using List.find?_some hp
    obtain rfl : x = p := key_inj hn hmem (List.mem_of_find?_eq_some hp) ((of_decide_eq_true hid).trans hpid.symm)
    have hlimits : x.limits = row.limits := hk x hmem hpid
    cases x
    cases row
    cases hpid
    cases howner
    cases hlimits
    rfl
  · next hnone =>
    cases h
    refine .inr ⟨fun p hmem hid => ?_, rfl⟩
    exact absurd (decide_eq_true hid) (by simpa using List.find?_eq_none.mp hnone p hmem)

theorem putOrganization_projects (db : Db) (row : Organization) :
    (db.putOrganization row).projects = db.projects := by
  unfold Db.putOrganization
  split <;> rfl

theorem putProject_organizations {row : Project} (h : db.putProject row = some db') :
    db'.organizations = db.organizations := by
  unfold Db.putProject at h
  split at h
  · split_ifs at h
    cases h
    rfl
  · cases h
    rfl

/-- The rows of a table of owners with one more. -/
theorem joined_append (id : ρ → String) (limits : ρ → Limits) {rows rows' : List ρ} {row : ρ}
    (hvalid : (limits row).valid = true) (h : rows' = rows ∨ (∀ r ∈ rows, id r ≠ id row) ∧ rows' = rows ++ [row]) :
    (∀ r ∈ rows, r ∈ rows') ∧
      ∀ r ∈ rows', r ∈ rows ∨ 0 ≤ (limits r).worth ∧ ∀ x ∈ rows, id x ≠ id r := by
  obtain rfl | ⟨hnew, rfl⟩ := h
  · exact ⟨fun r hr => hr, fun r hr => .inl hr⟩
  · refine ⟨fun r hr => List.mem_append_left _ hr, fun r hr => ?_⟩
    obtain hr | hr := List.mem_append.mp hr
    · exact .inl hr
    · obtain rfl := List.mem_singleton.mp hr
      exact .inr ⟨Limits.valid_worth hvalid, hnew⟩

section Owners

variable {now : ℤ} {a : Act} {db db' : Db} (ho : Owned db) (e : Effect policy now db a db')

include ho e

theorem Effect.joined (hk : a.keepsLimits db) : Joined db db' := by
  obtain ⟨hx, hy⟩ | ⟨row, rfl, hvalid, rfl⟩ | ⟨row, rfl, hvalid, -, hput⟩ := e.limits
  · exact .refl hx hy
  · obtain ⟨hold, hnew⟩ := joined_append Organization.id Organization.limits hvalid (putOrganization_kept hk)
    have hprojects := putOrganization_projects db row
    exact ⟨hold, fun _ hp => hprojects ▸ hp, hnew, fun _ hp => .inl (hprojects ▸ hp)⟩
  · obtain ⟨hold, hnew⟩ := joined_append Project.id Project.limits hvalid
      (putProject_kept ho.projects hk hput)
    have horganizations := putProject_organizations hput
    exact ⟨fun _ hx => horganizations ▸ hx, hold, fun _ hx => .inl (horganizations ▸ hx), hnew⟩

end Owners

/-- The machine has the owner of one that was there, or an owner that is there. -/
def OwnedIn (db : Db) (m' : MachineRow) : Prop :=
  (∃ m ∈ db.machines, m'.organizationId = m.organizationId ∧ m'.projectId = m.projectId) ∨
    (db.project? m'.projectId m'.organizationId).isSome = true

theorem ownedIn_old (hm : m ∈ db.machines) : OwnedIn db m := .inl ⟨m, hm, rfl, rfl⟩

theorem ownedIn_write {q : MachineRow → Bool} {f : MachineRow → MachineRow}
    (hq : ∀ m ∈ db.machines, q m = true →
      ∃ x ∈ db.machines, (f m).organizationId = x.organizationId ∧ (f m).projectId = x.projectId) :
    ∀ m' ∈ updateWhere q f db.machines, OwnedIn db m' :=
  forall_updateWhere (fun _ hm => ownedIn_old hm) fun m hm hqm => .inl (hq m hm hqm)

theorem Effect.ownedIn {now : ℤ} {a : Act} (e : Effect policy now db a db') : ∀ m' ∈ db'.machines, OwnedIn db m' := by
  have hsame : db'.machines = db.machines → ∀ m' ∈ db'.machines, OwnedIn db m' :=
    fun hm m' hm' => ownedIn_old (hm ▸ hm')
  cases e with
  | around _ _ hm => exact hsame hm
  | @organization row => exact hsame (putOrganization_only db row).machines
  | project _ _ hx => exact hsame (putProject_only hx).machines
  | host =>
    refine hsame ?_
    unfold Db.putHost
    split <;> rfl
  | quiet hw =>
    obtain ⟨q, f, rfl, hq⟩ := hw
    exact ownedIn_write fun m hm hqm => ⟨m, hm, (hq m hm hqm).1.organizationId, (hq m hm hqm).1.projectId⟩
  | insert _ hi =>
    unfold Db.insertRequested at hi
    split_ifs at hi with hc
    cases hi
    intro m' hm'
    obtain hm' | hm' := List.mem_append.mp hm'
    · exact ownedIn_old hm'
    · obtain rfl := List.mem_singleton.mp hm'
      simp only [Bool.or_eq_true, not_or, Bool.not_eq_true, Option.isNone_eq_false_iff] at hc
      exact .inr hc.1.2
  | reserve _ _ _ _ _ hr =>
    obtain ⟨-, _, m, -, -, hm, -, rfl⟩ := reserve_ok hr
    exact ownedIn_write fun _ _ _ => ⟨m, List.mem_of_find?_eq_some hm, rfl, rfl⟩
  | @release _ _ _ m hm =>
    unfold Control.release
    rw [hm]
    dsimp only
    split_ifs
    · exact fun m' hm' => ownedIn_old hm'
    · exact ownedIn_write fun _ _ _ => ⟨m, List.mem_of_find?_eq_some hm, rfl, rfl⟩
  | beginExtend hx => exact hsame (beginExtend_tables hx).1
  | completeExtend hx =>
    obtain ⟨m, _, hm, -, -, -, rfl | rfl⟩ := completeExtend_ok hx
    · exact fun m' hm' => ownedIn_old hm'
    · exact ownedIn_write fun _ _ _ => ⟨m, List.mem_of_find?_eq_some hm, rfl, rfl⟩
  | beginFork hf =>
    obtain ⟨rfl, -⟩ | ⟨_, project, _, _, _, -, hp, -, -, -, -, -, -, -, -, -, -, rfl, -, rfl⟩ := beginFork_ok hf
    · exact fun m' hm' => ownedIn_old hm'
    · intro m' hm'
      obtain hm' | hm' := List.mem_append.mp hm'
      · exact ownedIn_old hm'
      · obtain ⟨_, _, rfl⟩ := List.mem_mapIdx.mp hm'
        exact .inr (Option.isSome_iff_exists.mpr ⟨project, hp⟩)
  | operation _ _ _ _ hw =>
    obtain ⟨q, f, rfl, hq⟩ := hw
    exact ownedIn_write fun m hm hqm => ⟨m, hm, (hq m hm hqm).1.organizationId, (hq m hm hqm).1.projectId⟩
  | settleFork => exact ownedIn_write fun m hm _ => ⟨m, hm, rfl, rfl⟩

/-- Machines of the owners that are there. -/
theorem Owned.machines (h : Owned db) (hx : db'.organizations = db.organizations) (hy : db'.projects = db.projects)
    (hm : ∀ m' ∈ db'.machines, OwnedIn db m') : Owned db' := by
  refine ⟨hx ▸ h.organizations, hy ▸ h.projects, by rw [hx, hy]; exact h.project, fun m' hm' => ?_⟩
  rw [hy]
  obtain ⟨m, hmem, horg, hproject⟩ | hnew := hm m' hm'
  · rw [horg, hproject]
    exact h.machine m hmem
  · obtain ⟨p, hp⟩ := Option.isSome_iff_exists.mp hnew
    exact ⟨p, project?_some hp⟩

theorem nodup_joined (id : ρ → String) {rows rows' : List ρ} {row : ρ} (hn : (rows.map id).Nodup)
    (h : rows' = rows ∨ (∀ r ∈ rows, id r ≠ id row) ∧ rows' = rows ++ [row]) : (rows'.map id).Nodup := by
  obtain rfl | ⟨hnew, rfl⟩ := h
  · exact hn
  · rw [List.map_append, List.nodup_append]
    refine ⟨hn, List.nodup_singleton _, fun a ha b hb hab => ?_⟩
    obtain ⟨r, hr, rfl⟩ := List.mem_map.mp ha
    obtain rfl := List.mem_singleton.mp hb
    exact hnew r hr hab

theorem Effect.owned {now : ℤ} {a : Act} (h : Owned db) (e : Effect policy now db a db') (hk : a.keepsLimits db) :
    Owned db' := by
  have hj := e.joined h hk
  have hm := e.ownedIn
  obtain ⟨hx, hy⟩ | ⟨row, rfl, hvalid, rfl⟩ | ⟨row, rfl, hvalid, horg, hput⟩ := e.limits
  · exact h.machines hx hy hm
  · have hsame := putOrganization_only db row
    have hprojects := putOrganization_projects db row
    refine ⟨nodup_joined Organization.id h.organizations (putOrganization_kept hk), hprojects ▸ h.projects, ?_, ?_⟩
    · intro p hp
      obtain ⟨o, ho, hid⟩ := h.project p (hprojects ▸ hp)
      exact ⟨o, hj.organizations o ho, hid⟩
    · rw [hsame.machines, hprojects]
      exact h.machine
  · have hsame := putProject_only hput
    refine ⟨?_, nodup_joined Project.id h.projects (putProject_kept h.projects hk hput), ?_, ?_⟩
    · exact putProject_organizations hput ▸ h.organizations
    · intro p hp
      rw [putProject_organizations hput]
      obtain heq | ⟨-, heq⟩ := putProject_kept h.projects hk hput
      · exact h.project p (heq ▸ hp)
      · rw [heq] at hp
        obtain hp | hp := List.mem_append.mp hp
        · exact h.project p hp
        · obtain ⟨o, ho⟩ := Option.isSome_iff_exists.mp horg
          exact ⟨o, List.mem_singleton.mp hp ▸ organization?_some ho⟩
    · intro m hmem
      obtain ⟨p, hp, howner⟩ := h.machine m (hsame.machines ▸ hmem)
      exact ⟨p, hj.projects p hp, howner⟩

end Nehemiah.Control
