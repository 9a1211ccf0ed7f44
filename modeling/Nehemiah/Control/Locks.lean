import Nehemiah.Control.Quota

/-!
# Quotas under concurrency

The admissions of `Scheduler.reserve` and `beginFork`, taken apart into their statements: a transaction
locks its organization, counts the machines of the project, counts those of the organization, and commits
what it has compared with the limits.  Anything may happen between two statements, except what needs the
lock: another admission of the organization, or a step of the call that waits for the transaction.  The rows
that a transaction has locked do not change before it commits, so it reads them there; the spend cap and the
choice of a host can only turn an admission into a rollback.

What keeps the limits is the lock of the organization and that both admissions count the same states
(`placed_within_limits`).  A machine that is stopped before it has been placed passes through `stopping`
without an admission, and the queries count it (`unplaced_exceeds_limits`); the limits hold of the machines
that have been placed.
-/

namespace Nehemiah.Control

open Billing (MachineState HostState HostDesiredState CredentialStatus)
open Lib

/-! ### Statements -/

/-- What an admission is for. -/
inductive Work
  /-- The reservation that the `i`-th call waits for. -/
  | place (i : ℕ) (input : CreateMachine) (machine : MachineRow) (token : String)
  | fork (request : ForkRequest)

namespace Work

def organizationId : Work → String
  | .place _ input _ _ => input.organizationId
  | .fork request => request.organizationId

def projectId : Work → String
  | .place _ input _ _ => input.projectId
  | .fork request => request.projectId

/-- The `i`-th call waits for the admission. -/
def waits (i : ℕ) : Work → Bool
  | .place j _ _ _ => decide (j = i)
  | .fork _ => false

end Work

/-- An admission in progress, which holds the lock of its organization, and what it has counted. -/
structure Transaction where
  work : Work
  projectUsage : Option Usage
  organizationUsage : Option Usage

/-- The system with the admissions that are in progress. -/
structure Locked where
  world : World
  transactions : List Transaction

inductive Statement
  /-- Anything but an admission. -/
  | system (a : Act)
  | lockOrganization (work : Work)
  | countProject (k : ℕ)
  | countOrganization (k : ℕ)
  | commit (k : ℕ) (times : Times) (selected : Option String)
  | rollback (k : ℕ) (error : AdmissionError)

/-- The commit of a reservation: the machine is assigned to the host that the placement query returns. -/
def World.commitPlace (w : World) (times : Times) (selected : Option String) (i : ℕ) (input : CreateMachine)
    (m : MachineRow) (token : String) : Option World :=
  match selected.bind w.db.host? with
  | none => none
  | some host =>
    if host.schedulable times.began (input.scheduleRequest m.id) then
      match placeOn w.db times.began (input.scheduleRequest m.id) host.id with
      | .ok (db, reservation) =>
        some { w.withDb db with calls := w.calls.set i (.hostCreate input m token reservation) }
      | .error _ => none
    else none

/-- The source of a fork is current, ready and live on a host that takes the children. -/
def Db.forkSource (db : Db) (times : Times) (request : ForkRequest) : Option (MachineRow × HostRow) :=
  match db.machine? request.sourceMachineId with
  | none => none
  | some source =>
    match source.hostId.bind db.host? with
    | none => none
    | some host =>
      if source.organizationId = request.organizationId ∧ source.projectId = request.projectId
          ∧ source.state = .running ∧ source.ready ∧ source.hostMachineId ≠ none
          ∧ 15 ≤ ceilSeconds (source.expiresAt - times.readAt) ∧ host.accepts times.began
          ∧ Resources.fits (request.count • source.resources) host.free then
        some (source, host)
      else none

/-- The commit of a fork: the operation, its children and their reservation. -/
def World.commitFork (w : World) (times : Times) (request : ForkRequest) (source : MachineRow)
    (host : HostRow) : Option World :=
  let children := request.children.mapIdx
    (forkChild request source times.began (ceilSeconds (source.expiresAt - times.readAt)))
  if w.db.forkInsertable request children then
    some (w.withDb (w.db.insertFork request source host.id children))
  else none

namespace Locked

abbrev db (s : Locked) : Db := s.world.db

/-- The actions that need none of the locks. -/
def permits (s : Locked) (a : Act) : Bool :=
  !a.places && match a with
    | .call i _ | .abort i => s.transactions.all fun t => !t.work.waits i
    | _ => true

/-- The admission can begin: its organization is there and not locked, and its call waits for it. -/
def begins (s : Locked) (work : Work) : Bool :=
  (s.db.organization? work.organizationId).isSome
    && s.transactions.all (fun t => decide (t.work.organizationId ≠ work.organizationId))
    && match work with
      | .place i input m token =>
        match s.world.calls[i]? with
        | some (.reserve input' m' token') =>
          decide (input' = input) && decide (m' = m) && decide (token' = token)
        | _ => false
      | .fork request => decide (1 ≤ request.count) && decide (request.count ≤ 8)

/-- What the transaction commits, when its counts are within the limits. -/
def commit (w : World) (t : Transaction) (times : Times) (selected : Option String) : Option World :=
  match w.db.organization? t.work.organizationId, w.db.project? t.work.projectId t.work.organizationId,
    t.projectUsage, t.organizationUsage with
  | some organization, some project, some projectUsage, some organizationUsage =>
    match t.work with
    | .place i input m token =>
      if organization.limits.admits organizationUsage 1 input.resources
          ∧ project.limits.admits projectUsage 1 input.resources then
        w.commitPlace times selected i input m token
      else none
    | .fork request =>
      match w.db.forkSource times request with
      | none => none
      | some (source, host) =>
        if organization.limits.admits organizationUsage request.count (request.count • source.resources)
            ∧ project.limits.admits projectUsage request.count (request.count • source.resources) then
          w.commitFork times request source host
        else none
  | _, _, _, _ => none

/-- What a rollback leaves: a create goes on with the failure. -/
def rolledBack (w : World) (error : AdmissionError) : Work → World
  | .place i input m token =>
    { w with calls := w.calls.set i (.failCreate input m token none (failureForCreateError error)) }
  | .fork _ => w

/-- The next state of the system, if the statement is possible. -/
def step (policy : BillingAdmissionPolicy) (s : Locked) : Statement → Option Locked
  | .system a =>
    if s.permits a then (s.world.step policy greatest0 a).map fun w => { s with world := w } else none
  | .lockOrganization work =>
    if s.begins work then some { s with transactions := s.transactions ++ [⟨work, none, none⟩] } else none
  | .countProject k =>
    match s.transactions[k]? with
    | some t =>
      if (s.db.project? t.work.projectId t.work.organizationId).isSome then
        some { s with
          transactions := s.transactions.set k
            { t with projectUsage := some (s.db.usage (inProject t.work.projectId)) } }
      else none
    | none => none
  | .countOrganization k =>
    match s.transactions[k]? with
    | some t =>
      if t.projectUsage.isSome then
        some { s with
          transactions := s.transactions.set k
            { t with organizationUsage := some (s.db.usage (inOrganization t.work.organizationId)) } }
      else none
    | none => none
  | .commit k times selected =>
    match s.transactions[k]? with
    | some t =>
      (commit s.world t times selected).map fun w => ⟨w, s.transactions.eraseIdx k⟩
    | none => none
  | .rollback k error =>
    match s.transactions[k]? with
    | some t => some ⟨rolledBack s.world error t.work, s.transactions.eraseIdx k⟩
    | none => none

def Step (policy : BillingAdmissionPolicy) (s : Locked) (x : Statement) (s' : Locked) : Prop :=
  s.step policy x = some s'

def start (now : ℤ) : Locked := ⟨.empty now, []⟩

/-- The limits of what is there are not changed. -/
def LimitsKept (s : Locked) (x : Statement) (_ : Locked) : Prop :=
  match x with
  | .system a => a.keepsLimits s.db
  | _ => True

end Locked

variable {policy : BillingAdmissionPolicy} {s s' : Locked} {w w' : World}

/-! ### Commits -/

/-- Machines with the owner of `m` have been placed that count for `more` together. -/
def Places (db db' : Db) (m : MachineRow) (more : Option Resource → ℤ) : Prop :=
  ∀ p, ByOwner p → db'.placedWorth p = db.placedWorth p + if p m then more else 0

theorem commitPlace_ok {times : Times} {selected : Option String} {i : ℕ} {input : CreateMachine}
    {m : MachineRow} {token : String} (h : w.commitPlace times selected i input m token = some w') :
    ∃ host row, w.db.host? host.id = some host ∧ w.db.machine? m.id = some row ∧ unplaced row.state = true ∧
      w' = { w.withDb ((w.db.modifyHost host.id (HostRow.reserve input.resources)).setMachine
          (row.place host.id times.began)) with
        calls := w.calls.set i (.hostCreate input m token ⟨host.id⟩) } := by
  unfold World.commitPlace at h
  cases hsel : selected.bind w.db.host? with
  | none =>
    rw [hsel] at h
    cases h
  | some host =>
    rw [hsel] at h
    dsimp only at h
    split_ifs at h with hs
    obtain ⟨id, -, hid⟩ := Option.bind_eq_some_iff.mp hsel
    have hhost : host.id = id := by simpa using List.find?_some hid
    split at h
    · next hplace =>
      unfold placeOn at hplace
      split at hplace
      · cases hplace
      · next row hrow =>
        split_ifs at hplace with hu
        cases hplace
        cases h
        exact ⟨host, row, hhost ▸ hid, hrow, hu, rfl⟩
    · cases h

theorem places_place {db : Db} (hb : Balanced db) {m : MachineRow} {id : String}
    (hm : db.machine? id = some m) (hu : unplaced m.state = true) (hostId : String) (g : HostRow → HostRow)
    (now : ℤ) : Places db ((db.modifyHost hostId g).setMachine (m.place hostId now)) m m.worth := by
  intro p hp
  obtain ⟨hmem, -⟩ := hb.toKeyed.machine?_iff.mp hm
  have hsum := sumWhere_updateWhere_key (p := fun m => p m && placedCounted m) (v := MachineRow.worth)
    (f := fun _ => m.place hostId now) hb.machines hmem
  have hbefore : placedCounted m = false := by simp [placedCounted, (hb.unplaced m hmem hu).1]
  have hafter : placedCounted (m.place hostId now) = true := rfl
  have howner : p (m.place hostId now) = p m := hp m _ rfl rfl
  rw [hbefore, hafter, howner, Bool.and_false, Bool.and_true, if_neg Bool.false_ne_true, add_zero] at hsum
  exact hsum

theorem places_fork {db : Db} {request : ForkRequest} {source : MachineRow} {hostId : String}
    (hhost : source.hostId = some hostId) (horg : source.organizationId = request.organizationId)
    (hproject : source.projectId = request.projectId) (now remaining : ℤ) :
    Places db (db.insertFork request source hostId
      (request.children.mapIdx (forkChild request source now remaining))) source
        (request.count • source.worth) := by
  intro p hp
  set children := request.children.mapIdx (forkChild request source now remaining) with hchildren
  have hlength : children.length = request.count := by simp [hchildren, ForkRequest.count]
  have hchild : ∀ m ∈ children, p m = p source ∧ placedCounted m = true ∧ m.worth = source.worth := by
    intro m hm
    obtain ⟨i, hi, rfl⟩ := List.mem_mapIdx.mp hm
    refine ⟨hp source _ horg.symm hproject.symm, ?_, ?_⟩
    · simp [placedCounted, forkChild, hhost, counted, unplaced, terminal]
    · funext d
      cases d <;> rfl
  show sumWhere _ _ (db.machines ++ children) = _
  rw [sumWhere_append]
  refine congrArg (db.placedWorth p + ·) ?_
  cases hs : p source with
  | true =>
    rw [if_pos rfl, ← hlength]
    refine sumWhere_const fun m hm => ?_
    obtain ⟨hpm, hcounted, hworth⟩ := hchild m hm
    exact ⟨by rw [hpm, hs, hcounted]; rfl, hworth⟩
  | false =>
    rw [if_neg Bool.false_ne_true]
    refine sumWhere_eq_zero fun m hm hc => ?_
    rw [(hchild m hm).1, hs] at hc
    cases hc

/-! ### The invariant -/

/-- The placed machines of every owner are within its limits. -/
structure WithinLimits (db : Db) : Prop where
  organizations : ∀ o ∈ db.organizations, db.placedWorth (inOrganization o.id) ≤ o.limits.worth
  projects : ∀ p ∈ db.projects, db.placedWorth (inProject p.id) ≤ p.limits.worth

/-- What the transaction has counted is no less than what is placed. -/
structure Transaction.Counted (t : Transaction) (db : Db) : Prop where
  project : ∀ u, t.projectUsage = some u → db.placedWorth (inProject t.work.projectId) ≤ u.worth ∧
    ∃ p ∈ db.projects, p.id = t.work.projectId ∧ p.organizationId = t.work.organizationId
  organization : ∀ u, t.organizationUsage = some u →
    db.placedWorth (inOrganization t.work.organizationId) ≤ u.worth

/-- The call of every reservation in progress waits for it. -/
def Transaction.Waiting (t : Transaction) (calls : List Call) : Prop :=
  ∀ i input m token, t.work = .place i input m token → calls[i]? = some (.reserve input m token)

structure Guarded (s : Locked) : Prop where
  sound : Sound s.world
  owned : Owned s.db
  locks : (s.transactions.map (·.work.organizationId)).Nodup
  waiting : ∀ t ∈ s.transactions, t.Waiting s.world.calls
  counted : ∀ t ∈ s.transactions, t.Counted s.db
  within : WithinLimits s.db

/-- An owner without machines has nothing placed. -/
theorem placedWorth_none {db : Db} {p : MachineRow → Bool}
    (hp : ∀ m ∈ db.machines, p m = false) : db.placedWorth p = 0 :=
  sumWhere_eq_zero fun m hm hc => by
    rw [hp m hm] at hc
    cases hc

theorem WithinLimits.lower {db db' : Db} (h : WithinLimits db) (ho : Owned db) (hj : Joined db db')
    (hle : ∀ p, ByOwner p → db'.placedWorth p ≤ db.placedWorth p) : WithinLimits db' := by
  refine ⟨fun o hmem => (hle _ (byOwner_inOrganization o.id)).trans ?_,
    fun x hmem => (hle _ (byOwner_inProject x.id)).trans ?_⟩
  · obtain hold | ⟨hvalid, hnew⟩ := hj.newOrganizations o hmem
    · exact h.organizations o hold
    · rw [placedWorth_none fun m hm => ?_]
      · exact hvalid
      · obtain ⟨x, hx, -, howner⟩ := ho.machine m hm
        obtain ⟨y, hy, hid⟩ := ho.project x hx
        have hne : m.organizationId ≠ o.id := fun e => hnew y hy ((hid.trans howner).trans e)
        simp [inOrganization, hne]
  · obtain hold | ⟨hvalid, hnew⟩ := hj.newProjects x hmem
    · exact h.projects x hold
    · rw [placedWorth_none fun m hm => ?_]
      · exact hvalid
      · obtain ⟨y, hy, hid, -⟩ := ho.machine m hm
        have hne : m.projectId ≠ x.id := fun e => hnew y hy (hid.trans e)
        simp [inProject, hne]

variable {t : Transaction}

theorem Transaction.Counted.lower {db db' : Db} (h : t.Counted db) (hj : Joined db db')
    (hle : ∀ p, ByOwner p → db'.placedWorth p ≤ db.placedWorth p) : t.Counted db' := by
  refine ⟨fun u hu => ?_, fun u hu => (hle _ (byOwner_inOrganization _)).trans (h.organization u hu)⟩
  obtain ⟨hcount, x, hx, hid⟩ := h.project u hu
  exact ⟨(hle _ (byOwner_inProject _)).trans hcount, x, hj.projects x hx, hid⟩

/-! ### The commit of a transaction -/

/-- What a commit does: it places machines of the owner of the transaction, and no more than its counts leave
of the limits. -/
structure Committed (w w' : World) (t : Transaction) : Prop where
  sound : Sound w'
  owned : Owned w'.db
  organizations : w'.db.organizations = w.db.organizations
  projects : w'.db.projects = w.db.projects
  calls : ∀ j, t.work.waits j = false → w'.calls[j]? = w.calls[j]?
  places : ∃ m more organization project organizationUsage projectUsage,
    Places w.db w'.db m more ∧ m.organizationId = t.work.organizationId ∧ m.projectId = t.work.projectId ∧
    w.db.organization? t.work.organizationId = some organization ∧
    w.db.project? t.work.projectId t.work.organizationId = some project ∧
    t.organizationUsage = some organizationUsage ∧ t.projectUsage = some projectUsage ∧
    organizationUsage.worth + more ≤ organization.limits.worth ∧ projectUsage.worth + more ≤ project.limits.worth

theorem forkSource_ok {db : Db} {times : Times} {request : ForkRequest} {source : MachineRow} {host : HostRow}
    (h : db.forkSource times request = some (source, host)) :
    source ∈ db.machines ∧ source.hostId = some host.id ∧ source.organizationId = request.organizationId ∧
      source.projectId = request.projectId := by
  unfold Db.forkSource at h
  split at h
  · cases h
  · next m hm =>
    split at h
    · cases h
    · next x hx =>
      split_ifs at h with hc
      cases h
      obtain ⟨id, hid, hhost⟩ := Option.bind_eq_some_iff.mp hx
      have hkey : host.id = id := by simpa using List.find?_some hhost
      exact ⟨List.mem_of_find?_eq_some hm, hkey ▸ hid, hc.1, hc.2.1⟩

section Commit

variable (hsound : Sound w) (howned : Owned w.db)

include hsound howned

variable {t : Transaction} {organization : Organization} {organizationUsage : Usage} {times : Times}
    {selected : Option String}

theorem committed_place {i : ℕ} {input : CreateMachine} {m : MachineRow} {token : String}
    (hwork : t.work = .place i input m token) (hwaiting : t.Waiting w.calls) {project : Project} {projectUsage : Usage}
    (ho : w.db.organization? t.work.organizationId = some organization)
    (hp : w.db.project? t.work.projectId t.work.organizationId = some project)
    (hou : t.organizationUsage = some organizationUsage) (hpu : t.projectUsage = some projectUsage)
    (hlimits : organization.limits.admits organizationUsage 1 input.resources = true ∧
      project.limits.admits projectUsage 1 input.resources = true)
    (h : w.commitPlace times selected i input m token = some w') :
    Committed w w' t := by
  have hb := hsound.balanced
  have hcall : w.calls[i]? = some (.reserve input m token) := hwaiting i input m token hwork
  obtain ⟨⟨y, hy, hyid, hres, -, hfree, -⟩, z, hz, hzid, horg, hproject⟩ :=
    hsound.calls _ (List.mem_of_getElem? hcall)
  obtain rfl : y = z := key_inj hb.machines hy hz (hyid.trans hzid.symm)
  obtain ⟨host, row, hhost, hrow, hu, rfl⟩ := commitPlace_ok h
  obtain ⟨hmem, hid⟩ := hb.toKeyed.machine?_iff.mp hrow
  obtain rfl : y = row := key_inj hb.machines hy hmem (hyid.trans hid.symm)
  obtain ⟨hnone, -, hfork⟩ := hb.unplaced y hy hu
  have he : Evolves w.db ((w.db.modifyHost host.id (HostRow.reserve input.resources)).setMachine
      (y.place host.id times.began)) :=
    hb.toKeyed.evolves_setMachine hy (.place hu hnone _ _) rfl rfl
  have hworth : ∀ l : Limits, ∀ u : Usage, l.admits u 1 input.resources = true → u.worth + y.worth ≤ l.worth :=
    fun l u hl => Limits.admits_worth hl rfl fun r => congrFun hres r
  refine ⟨⟨hb.place hrow hu hhost _ hres.symm, fun c hc => ?_⟩, ?_, rfl, rfl, fun j hj => ?_, y, y.worth,
    organization, project, organizationUsage, projectUsage, places_place hb hrow hu _ _ _, ?_, ?_, ho, hp, hou,
    hpu, hworth _ _ hlimits.1, hworth _ _ hlimits.2⟩
  · obtain hc | rfl := List.mem_or_eq_of_mem_set hc
    · exact (hsound.calls c hc).evolves he
    · refine ⟨y.place host.id times.began, mem_updateWhere.mpr ⟨y, hy, if_pos (decide_eq_true rfl)⟩, hyid, hres,
        fun x hx => ?_, Db.free_of_none _ hfork, trivial⟩
      cases hx
      rfl
  · exact howned.machines rfl rfl (ownedIn_write fun _ _ _ => ⟨y, hy, rfl, rfl⟩)
  · rw [hwork] at hj
    exact List.getElem?_set_ne (of_decide_eq_false hj)
  · rw [hwork]
    exact horg
  · rw [hwork]
    exact hproject

theorem committed_fork {request : ForkRequest} (hwork : t.work = .fork request) {project : Project}
    {projectUsage : Usage} (ho : w.db.organization? t.work.organizationId = some organization)
    (hp : w.db.project? t.work.projectId t.work.organizationId = some project)
    (hou : t.organizationUsage = some organizationUsage) (hpu : t.projectUsage = some projectUsage)
    {source : MachineRow} {host : HostRow} (hsource : w.db.forkSource times request = some (source, host))
    (hlimits : organization.limits.admits organizationUsage request.count (request.count • source.resources)
        = true ∧
      project.limits.admits projectUsage request.count (request.count • source.resources) = true)
    (h : w.commitFork times request source host = some w') : Committed w w' t := by
  have hb := hsound.balanced
  have hr : t.work.organizationId = request.organizationId ∧ t.work.projectId = request.projectId := by
    rw [hwork]
    exact ⟨rfl, rfl⟩
  rw [hr.1] at ho
  rw [hr.1, hr.2] at hp
  obtain ⟨hmem, hhost, horg, hproject⟩ := forkSource_ok hsource
  unfold World.commitFork at h
  dsimp only at h
  split_ifs at h with hkeys
  cases h
  have he : Evolves w.db (w.db.insertFork request source host.id _) := hb.evolves_insertFork hkeys
  have hworth : ∀ l : Limits, ∀ u : Usage, l.admits u request.count (request.count • source.resources) = true →
      u.worth + request.count • source.worth ≤ l.worth := by
    intro l u hl
    refine Limits.admits_worth hl ?_ fun r => ?_
    · show request.count • (1 : ℤ) = request.count
      rw [nsmul_one]
    · rfl
  refine ⟨⟨hb.insertFork hmem hhost hkeys, fun c hc => (hsound.calls c hc).evolves he⟩, ?_, rfl, rfl,
    fun _ _ => rfl, source, request.count • source.worth, organization, project, organizationUsage, projectUsage,
    places_fork hhost horg hproject _ _, horg.trans hr.1.symm, hproject.trans hr.2.symm, ?_, ?_, hou, hpu,
    hworth _ _ hlimits.1, hworth _ _ hlimits.2⟩
  · refine howned.machines rfl rfl fun m hm => ?_
    obtain hm | hm := List.mem_append.mp hm
    · exact ownedIn_old hm
    · obtain ⟨_, _, rfl⟩ := List.mem_mapIdx.mp hm
      exact .inr (Option.isSome_iff_exists.mpr ⟨project, hp⟩)
  · rw [hr.1]
    exact ho
  · rw [hr.1, hr.2]
    exact hp

theorem committed (hwaiting : t.Waiting w.calls) (h : Locked.commit w t times selected = some w') :
    Committed w w' t := by
  unfold Locked.commit at h
  split at h
  · next ho hp hpu hou =>
    split at h
    · next hwork =>
      split_ifs at h with hlimits
      exact committed_place hsound howned hwork hwaiting ho hp hou hpu hlimits h
    · next hwork =>
      split at h
      · cases h
      · next hsource =>
        split_ifs at h with hlimits
        exact committed_fork hsound howned hwork ho hp hou hpu hsource hlimits h
  · cases h

end Commit

/-- A commit leaves the limits to the owners. -/
theorem Committed.within (h : Committed w w' t) (howned : Owned w.db) (hcounted : t.Counted w.db)
    (hwithin : WithinLimits w.db) : WithinLimits w'.db := by
  obtain ⟨m, more, organization, project, organizationUsage, projectUsage, hplaces, horg, hproject, ho, hp, hou, hpu,
    hlimit, hlimit'⟩ := h.places
  obtain ⟨homem, hoid⟩ := organization?_some ho
  obtain ⟨hpmem, hpid, -⟩ := project?_some hp
  refine ⟨fun o hmem => ?_, fun p hmem => ?_⟩
  · rw [h.organizations] at hmem
    rw [hplaces _ (byOwner_inOrganization o.id)]
    by_cases hid : m.organizationId = o.id
    · obtain rfl : o = organization :=
        key_inj howned.organizations hmem homem (hid.symm.trans (horg.trans hoid.symm))
      rw [if_pos (inOrganization_iff.mpr hid), hoid]
      exact (add_le_add_left (hcounted.organization _ hou) more).trans hlimit
    · rw [if_neg (inOrganization_iff.not.mpr hid), add_zero]
      exact hwithin.organizations o hmem
  · rw [h.projects] at hmem
    rw [hplaces _ (byOwner_inProject p.id)]
    by_cases hid : m.projectId = p.id
    · obtain rfl : p = project := key_inj howned.projects hmem hpmem (hid.symm.trans (hproject.trans hpid.symm))
      rw [if_pos (inProject_iff.mpr hid), hpid]
      exact (add_le_add_left (hcounted.project _ hpu).1 more).trans hlimit'
    · rw [if_neg (inProject_iff.not.mpr hid), add_zero]
      exact hwithin.projects p hmem

/-- A commit changes nothing that a transaction of another organization counts. -/
theorem Committed.counted {t' : Transaction} (h : Committed w w' t) (howned : Owned w.db)
    (hne : t'.work.organizationId ≠ t.work.organizationId) (hcounted : t'.Counted w.db) : t'.Counted w'.db := by
  obtain ⟨m, more, -, project, -, -, hplaces, horg, hproject, -, hp, -⟩ := h.places
  obtain ⟨hpmem, hpid, hpowner⟩ := project?_some hp
  refine ⟨fun u hu => ?_, fun u hu => ?_⟩
  · obtain ⟨hcount, x, hx, hid, howner⟩ := hcounted.project u hu
    have hother : m.projectId ≠ t'.work.projectId := fun e => by
      obtain rfl : x = project := key_inj howned.projects hx hpmem (hid.trans (e.symm.trans (hproject.trans hpid.symm)))
      exact hne (howner.symm.trans hpowner)
    rw [hplaces _ (byOwner_inProject _), if_neg (inProject_iff.not.mpr hother), add_zero]
    exact ⟨hcount, x, h.projects ▸ hx, hid, howner⟩
  · have hother : m.organizationId ≠ t'.work.organizationId := fun e => hne (e.symm.trans horg)
    rw [hplaces _ (byOwner_inOrganization _), if_neg (inOrganization_iff.not.mpr hother), add_zero]
    exact hcounted.organization u hu

/-! ### Steps -/

/-- What is left of a list when an entry is taken out has other keys. -/
theorem mem_eraseIdx_key {ρ κ : Type*} {key : ρ → κ} {rows : List ρ} (hn : (rows.map key).Nodup) {k : ℕ} {r x : ρ}
    (hk : rows[k]? = some r) (hx : x ∈ rows.eraseIdx k) : x ∈ rows ∧ key x ≠ key r := by
  obtain ⟨hlt, rfl⟩ := List.getElem?_eq_some_iff.mp hk
  obtain ⟨j, hj, hne, rfl⟩ := List.mem_eraseIdx_iff_getElem.mp hx
  refine ⟨List.getElem_mem hj, fun e => hne ?_⟩
  have hmap : (rows.map key).get ⟨j, by simpa using hj⟩ = (rows.map key).get ⟨k, by simpa using hlt⟩ := by
    simpa using e
  exact congrArg Fin.val (List.nodup_iff_injective_get.mp hn hmap)

section Steps

variable (h : Guarded s)

include h

theorem Guarded.system {a : Act} (hp : s.permits a = true) (hk : a.keepsLimits s.db)
    (hs : Step policy greatest0 s.world a w') : Guarded { s with world := w' } := by
  have e := h.sound.effect hs
  have hj := e.joined h.owned hk
  simp only [Locked.permits, Bool.and_eq_true, Bool.not_eq_true'] at hp
  have hle : ∀ p, ByOwner p → w'.db.placedWorth p ≤ s.db.placedWorth p := fun p hown =>
    e.placedWorth_le h.sound.balanced hown hp.1
  refine ⟨h.sound.step hs, e.owned h.owned hk, h.locks, fun t ht i input m token hwork => ?_,
    fun t ht => (h.counted t ht).lower hj hle, h.within.lower h.owned hj hle⟩
  have hcall := h.waiting t ht i input m token hwork
  -- a step of the call that waits is not permitted
  have hset : ∀ j c, (s.transactions.all fun t => !t.work.waits j) = true →
      (s.world.calls.set j c)[i]? = some (.reserve input m token) := by
    intro j c hall
    have hne := List.all_eq_true.mp hall t ht
    rw [hwork] at hne
    have hij : i ≠ j := by simpa [Work.waits] using hne
    rw [List.getElem?_set_ne hij.symm]
    exact hcall
  obtain ⟨j, _, _, site, c', rfl, -, -, rfl⟩ | ⟨j, rfl, rfl⟩ | ⟨hcalls, -⟩ := step_calls hs
  · exact hset j c' hp.2
  · exact hset j .returned hp.2
  · show w'.calls[i]? = _
    rw [hcalls, List.getElem?_append_left (List.getElem?_eq_some_iff.mp hcall).1]
    exact hcall

theorem Guarded.lockOrganization {work : Work} (hb : s.begins work = true) :
    Guarded { s with transactions := s.transactions ++ [⟨work, none, none⟩] } := by
  simp only [Locked.begins, Bool.and_eq_true, List.all_eq_true, decide_eq_true_eq] at hb
  obtain ⟨⟨-, hfree⟩, hwork⟩ := hb
  have hmem : ∀ P : Transaction → Prop, (∀ t ∈ s.transactions, P t) → P ⟨work, none, none⟩ →
      ∀ t ∈ s.transactions ++ [⟨work, none, none⟩], P t := by
    intro P hP hnew t ht
    obtain ht | ht := List.mem_append.mp ht
    exacts [hP t ht, List.mem_singleton.mp ht ▸ hnew]
  refine ⟨h.sound, h.owned, ?_, hmem _ h.waiting ?_, hmem _ h.counted ⟨nofun, nofun⟩, h.within⟩
  · rw [List.map_append, List.nodup_append]
    refine ⟨h.locks, List.nodup_singleton _, fun a ha b hb hab => ?_⟩
    obtain ⟨t, ht, rfl⟩ := List.mem_map.mp ha
    obtain rfl := List.mem_singleton.mp hb
    exact hfree t ht hab
  · rintro i input m token rfl
    dsimp only at hwork
    split at hwork
    · next hcall =>
      simp only [Bool.and_eq_true, decide_eq_true_eq] at hwork
      obtain ⟨⟨rfl, rfl⟩, rfl⟩ := hwork
      exact hcall
    · cases hwork

variable {k : ℕ} {t : Transaction}

/-- A transaction has counted. -/
theorem Guarded.count {t' : Transaction} (hk : s.transactions[k]? = some t) (hwork : t'.work = t.work)
    (hcounted : t'.Counted s.db) : Guarded { s with transactions := s.transactions.set k t' } := by
  have hmem := List.mem_of_getElem? hk
  refine ⟨h.sound, h.owned, ?_, fun x hx => ?_, fun x hx => ?_, h.within⟩
  · have hsame : (s.transactions.set k t').map (·.work.organizationId) =
        s.transactions.map (·.work.organizationId) := by
      refine List.ext_getElem? fun j => ?_
      rw [List.map_set, List.getElem?_set]
      split_ifs with hj hlt
      · subst hj
        simp [hk, hwork]
      · subst hj
        simp [List.getElem?_eq_none (not_lt.mp (by simpa using hlt))]
      · rfl
    show ((s.transactions.set k t').map (·.work.organizationId)).Nodup
    rw [hsame]
    exact h.locks
  · obtain hx | rfl := List.mem_or_eq_of_mem_set hx
    · exact h.waiting x hx
    · intro i input m token hw
      exact h.waiting t hmem i input m token (hwork ▸ hw)
  · obtain hx | rfl := List.mem_or_eq_of_mem_set hx
    exacts [h.counted x hx, hcounted]

/-- The call of a reservation waits for no other transaction. -/
theorem Guarded.waits_other {t' : Transaction} (ht : t ∈ s.transactions) (ht' : t' ∈ s.transactions)
    (hne : t'.work.organizationId ≠ t.work.organizationId) {i : ℕ} {input : CreateMachine} {m : MachineRow}
    {token : String} (hwork : t'.work = .place i input m token) : t.work.waits i = false := by
  cases hx : t.work with
  | fork => rfl
  | place j input' m' token' =>
    refine decide_eq_false fun hji => hne ?_
    have hcall := h.waiting t' ht' i input m token hwork
    rw [← hji, h.waiting t ht j input' m' token' hx] at hcall
    have hinput : input' = input := (Call.reserve.inj (Option.some.inj hcall)).1
    rw [hwork, hx]
    show input.organizationId = input'.organizationId
    rw [hinput]

/-- A transaction has ended. -/
theorem Guarded.ended (hk : s.transactions[k]? = some t) (hsound : Sound w') (howned : Owned w'.db)
    (hcalls : ∀ j, t.work.waits j = false → w'.calls[j]? = s.world.calls[j]?)
    (hcounted : ∀ t' ∈ s.transactions, t'.work.organizationId ≠ t.work.organizationId → t'.Counted w'.db)
    (hwithin : WithinLimits w'.db) : Guarded ⟨w', s.transactions.eraseIdx k⟩ := by
  refine ⟨hsound, howned, ?_, fun t' ht' i input m token hwork => ?_, fun t' ht' => ?_, hwithin⟩
  · exact h.locks.sublist ((List.eraseIdx_sublist _ _).map _)
  · obtain ⟨hmem, hne⟩ := mem_eraseIdx_key h.locks hk ht'
    show w'.calls[i]? = _
    rw [hcalls i (h.waits_other (List.mem_of_getElem? hk) hmem hne hwork)]
    exact h.waiting t' hmem i input m token hwork
  · obtain ⟨hmem, hne⟩ := mem_eraseIdx_key h.locks hk ht'
    exact hcounted t' hmem hne

theorem Guarded.commit (hk : s.transactions[k]? = some t) {times : Times} {selected : Option String}
    (hc : Locked.commit s.world t times selected = some w') :
    Guarded ⟨w', s.transactions.eraseIdx k⟩ := by
  have hmem := List.mem_of_getElem? hk
  have hcommitted := committed h.sound h.owned (h.waiting t hmem) hc
  refine h.ended hk hcommitted.sound hcommitted.owned hcommitted.calls (fun t' ht' hne => ?_) ?_
  · exact hcommitted.counted h.owned hne (h.counted t' ht')
  · exact hcommitted.within h.owned (h.counted t hmem) h.within

theorem Guarded.rollback (hk : s.transactions[k]? = some t) (error : AdmissionError) :
    Guarded ⟨Locked.rolledBack s.world error t.work, s.transactions.eraseIdx k⟩ := by
  have hmem := List.mem_of_getElem? hk
  cases hwork : t.work with
  | fork => exact h.ended hk h.sound h.owned (fun _ _ => rfl) (fun t' ht' _ => h.counted t' ht') h.within
  | place i input m token =>
    have hcall := h.sound.calls _ (List.mem_of_getElem? (h.waiting t hmem i input m token hwork))
    refine h.ended hk ⟨h.sound.balanced, fun c hc => ?_⟩ h.owned (fun j hj => ?_)
      (fun t' ht' _ => h.counted t' ht') h.within
    · obtain hc | rfl := List.mem_or_eq_of_mem_set hc
      exacts [h.sound.calls c hc, hcall.1]
    · rw [hwork] at hj
      exact List.getElem?_set_ne (of_decide_eq_false hj)

/-- **A statement keeps what the locks guard.** -/
theorem Guarded.step {x : Statement} (hs : Locked.Step policy s x s') (hk : Locked.LimitsKept s x s') :
    Guarded s' := by
  unfold Locked.Step Locked.step at hs
  cases x with
  | system a =>
    dsimp only at hs
    split_ifs at hs with hp
    obtain ⟨w', hw, rfl⟩ := Option.map_eq_some_iff.mp hs
    exact h.system hp hk hw
  | lockOrganization work =>
    dsimp only at hs
    split_ifs at hs with hb
    cases hs
    exact h.lockOrganization hb
  | countProject k =>
    dsimp only at hs
    split at hs
    · next t ht =>
      split_ifs at hs with hp
      cases hs
      refine h.count ht rfl ⟨fun u hu => ?_, (h.counted t (List.mem_of_getElem? ht)).organization⟩
      cases hu
      obtain ⟨p, hp⟩ := Option.isSome_iff_exists.mp hp
      exact ⟨h.sound.balanced.placedWorth_le_usage _, p, project?_some hp⟩
    · cases hs
  | countOrganization k =>
    dsimp only at hs
    split at hs
    · next t ht =>
      split_ifs at hs
      cases hs
      refine h.count ht rfl ⟨(h.counted t (List.mem_of_getElem? ht)).project, fun u hu => ?_⟩
      cases hu
      exact h.sound.balanced.placedWorth_le_usage _
    · cases hs
  | commit k times selected =>
    dsimp only at hs
    split at hs
    · next t ht =>
      obtain ⟨w', hw, rfl⟩ := Option.map_eq_some_iff.mp hs
      exact h.commit ht hw
    · cases hs
  | rollback k error =>
    dsimp only at hs
    split at hs
    · next t ht =>
      cases hs
      exact h.rollback ht error
    · cases hs

end Steps

theorem Guarded.start (now : ℤ) : Guarded (Locked.start now) := by
  refine ⟨.empty now, ⟨List.nodup_nil, List.nodup_nil, ?_, ?_⟩, List.nodup_nil, ?_, ?_, ⟨?_, ?_⟩⟩
  all_goals exact fun _ hx => by cases hx

/-- **Quotas hold under concurrency**: the number and the resources of the machines that have been placed. -/
theorem placed_within_limits {xs : List Statement} {now : ℤ}
    (h : RunIn (Locked.Step policy) Locked.LimitsKept (Locked.start now) xs s) :
    (∀ o ∈ s.db.organizations, s.db.placedWorth (inOrganization o.id) ≤ o.limits.worth) ∧
    ∀ p ∈ s.db.projects, s.db.placedWorth (inProject p.id) ≤ p.limits.worth := by
  have hguarded : Guarded s := h.invariant (fun _ _ _ hs hx hk => hs.step hx hk) (.start now)
  exact ⟨hguarded.within.organizations, hguarded.within.projects⟩

/-! An organization with these limits, of whose machines two compete for what is left. -/

def oneMachine : Limits := ⟨1, .of 2 1024 2048⟩

def furnishing (limits : Limits) : List Statement :=
  [.system (.host smallHost), .system (.organization ⟨"o", limits⟩),
    .system (.project ⟨"p", "o", twoMachines⟩)]

def furnished (limits : Limits) : Locked :=
  { world :=
      { World.empty 0 with
        site :=
          { (World.empty 0).site with
            db := { (World.empty 0).db with
              hosts := [smallHost]
              organizations := [⟨"o", limits⟩]
              projects := [⟨"p", "o", twoMachines⟩] } } }
    transactions := [] }

/-- A machine that is asked for by the call `i`, up to its claim. -/
def asking (i : ℕ) (name : String) : List Statement :=
  [.system (.create (smallMachine name)), .system (.call i (.identity name name 0)), .system (.call i .none),
    .system (.call i (.token name))]

/-- The admission of the call `i`, up to what it has counted. -/
def counting (i : ℕ) (name : String) : List Statement :=
  [.lockOrganization (.place i (smallMachine name) (requestedRow (smallMachine name) name name 0 0) name),
    .countProject 0, .countOrganization 0]

def placingFirst : List Statement := asking 0 "a" ++ counting 0 "a" ++ [.commit 0 ⟨0, 0, 0⟩ (some "h")]

def runningFirst : List Statement :=
  [.system (.call 0 (.host .answered ⟨"va", .running, "a", "a", none, none, .of 1 512 1024, true, none, none⟩)),
    .system (.call 0 .none)]

/-- The first machine forks while the second asks for the same room, and the second is refused. -/
def competing : List Statement :=
  placingFirst ++ runningFirst ++ asking 1 "b" ++
    [.lockOrganization (.fork ⟨"a", "o", "p", "k", "f", [("c", "c")]⟩), .countProject 0, .countOrganization 0,
      .commit 0 ⟨0, 0, 0⟩ none] ++
    counting 1 "b" ++ [.rollback 0 (.quotaExceeded "Organization machine quota would be exceeded.")]

def stoppingSecond : List Statement :=
  asking 1 "b" ++ [.system (.destroy "b" "o" none), .system (.call 2 .none), .system (.call 2 .none)]

theorem run_furnished {limits : Limits} {xs : List Statement} (hvalid : limits.valid = true)
    (h : exec (Locked.step freeOfCharge) (furnished limits) xs = some s)
    (hkept : ∀ x ∈ xs, ∀ s t, Locked.LimitsKept s x t) :
    RunIn (Locked.Step freeOfCharge) Locked.LimitsKept (Locked.start 0) (furnishing limits ++ xs) s := by
  have horganization : ∀ w : World,
      w.step freeOfCharge greatest0 (.organization ⟨"o", limits⟩) = some (w.withDb (w.db.putOrganization ⟨"o", limits⟩)) :=
    fun _ => if_pos hvalid
  refine .cons rfl trivial (.cons (congrArg (Option.map _) (horganization _)) (fun _ ho => by cases ho) ?_)
  exact .cons rfl (fun _ hp => by cases hp) ((Run.of_exec h).guarded hkept)

/-- The fork gets the room, and the machine that asked beside it is refused. -/
theorem placed_within_limits_first :
    ∃ s, RunIn (Locked.Step freeOfCharge) Locked.LimitsKept (Locked.start 0) (furnishing twoMachines ++ competing) s ∧
      s.db.machines.map (fun m => (m.id, m.state)) = [("a", .running), ("b", .requested), ("c", .starting)] ∧
      ∀ o ∈ s.db.organizations, s.db.placedWorth (inOrganization o.id) ≤ o.limits.worth := by
  have hfinal : (exec (Locked.step freeOfCharge) (furnished twoMachines) competing).map
      (fun s => s.db.machines.map fun m => (m.id, m.state)) =
      some [("a", .running), ("b", .requested), ("c", .starting)] := by
    decide +kernel
  obtain ⟨s, hs, hseen⟩ := Option.map_eq_some_iff.mp hfinal
  have hrun := run_furnished (by decide) hs
    (by simp [competing, placingFirst, runningFirst, counting, asking, Locked.LimitsKept, Act.keepsLimits])
  exact ⟨s, hrun, hseen, (placed_within_limits hrun).1⟩

/-- The machine that is stopped before its placement is counted. -/
theorem unplaced_exceeds_limits :
    ¬ ∀ (policy : BillingAdmissionPolicy) (now : ℤ) (xs : List Statement) (s : Locked),
      RunIn (Locked.Step policy) Locked.LimitsKept (Locked.start now) xs s →
        (∀ o ∈ s.db.organizations, (s.db.usage (inOrganization o.id)).worth ≤ o.limits.worth) ∧
        ∀ p ∈ s.db.projects, (s.db.usage (inProject p.id)).worth ≤ p.limits.worth := by
  intro hclaim
  have hfinal : (exec (Locked.step freeOfCharge) (furnished oneMachine) (placingFirst ++ stoppingSecond)).map
      (fun s => (s.db.organizations, s.db.usedMachines (inOrganization "o"))) =
      some ([⟨"o", oneMachine⟩], 2) := by
    decide +kernel
  obtain ⟨s, hs, hseen⟩ := Option.map_eq_some_iff.mp hfinal
  obtain ⟨horganizations, hused⟩ := Prod.mk.inj hseen
  have hrun := run_furnished (by decide) hs
    (by simp [placingFirst, stoppingSecond, counting, asking, Locked.LimitsKept, Act.keepsLimits])
  have hle := (hclaim freeOfCharge 0 _ s hrun).1 ⟨"o", oneMachine⟩ (horganizations ▸ List.mem_singleton_self _)
  have hone : s.db.usedMachines (inOrganization "o") ≤ 1 := hle none
  rw [hused] at hone
  exact absurd hone (by decide)

end Nehemiah.Control
