import Nehemiah.Control.Effects

/-!
# The balance of the reservations

The reservations of a host are the sum of the resources of the machines it holds: those with its id in
`host_id` and no `reservation_released_at`.  The rows carry the argument (`Balanced`): a machine that is not
placed has no host and no released reservation, and the children of a pending fork are all on the source's
host with their reservations, so what a failing fork gives back is what it holds.

Every effect keeps the balance (`Effect.balanced`) and lets the database evolve (`Effect.evolves`).
-/

namespace Nehemiah.Control

open Billing (MachineState HostState HostDesiredState CredentialStatus)
open Lib

/-- The machine holds a reservation on the host. -/
def holdsOn (hostId : String) (m : MachineRow) : Bool :=
  decide (m.hostId = some hostId) && m.reservationReleasedAt.isNone

/-- What the machines of a host hold. -/
def Db.held (db : Db) (hostId : String) : Resources := sumWhere (holdsOn hostId) (·.resources) db.machines

structure Balanced (db : Db) : Prop extends Keyed db where
  nonneg : ∀ m ∈ db.machines, 0 ≤ m.resources
  unplaced : ∀ m ∈ db.machines, unplaced m.state = true →
    m.hostId = none ∧ m.reservationReleasedAt = none ∧ m.forkOperationId = none
  hash : ∀ m ∈ db.machines, ∀ request, m.idempotencyRequestHash = .create request →
    request.resources = m.resources ∧ m.forkOperationId = none
  /-- The foreign keys of a machine. -/
  host_ref : ∀ m ∈ db.machines, ∀ id, m.hostId = some id → ∃ h ∈ db.hosts, h.id = id
  fork_ref : ∀ m ∈ db.machines, ∀ id, m.forkOperationId = some id → ∃ o ∈ db.forkOperations, o.id = id
  pending : ∀ o ∈ db.forkOperations, o.state = .pending → ∀ m ∈ db.machines,
    m.forkOperationId = some o.id →
      m.state = .starting ∧ m.reservationReleasedAt = none ∧ m.hostId = some o.sourceHostId
  reserved : ∀ h ∈ db.hosts, h.reserved = db.held h.id

variable {db db' : Db} {m m' : MachineRow} {g : HostRow → HostRow}

/-- The invariant reads three tables. -/
theorem Balanced.congr (h : Balanced db) (hm : db'.machines = db.machines) (hh : db'.hosts = db.hosts)
    (ho : db'.forkOperations = db.forkOperations) : Balanced db' := by
  obtain ⟨⟨k₁, k₂, k₃⟩, h₁, h₂, h₃, h₄, h₅, h₆, h₇⟩ := h
  refine ⟨⟨?_, ?_, ?_⟩, ?_, ?_, ?_, ?_, ?_, ?_, ?_⟩
  all_goals simp only [hm, hh, ho, Db.held] at *
  all_goals assumption

/-! ### Machines -/

theorem Balanced.write (h : Balanced db) {p : MachineRow → Bool} {f : MachineRow → MachineRow}
    (hq : ∀ m ∈ db.machines, p m = true → Quiet db m (f m)) :
    Balanced { db with machines := updateWhere p f db.machines } := by
  refine ⟨⟨?_, h.hosts, h.operations⟩, ?_, ?_, ?_, ?_, ?_, ?_, ?_⟩
  · have hid : (updateWhere p f db.machines).map (·.id) = db.machines.map (·.id) := by
      rw [updateWhere, List.map_map]
      refine List.map_congr_left fun m hm => ?_
      show (if p m then f m else m).id = m.id
      split_ifs with hp
      exacts [(hq m hm hp).id, rfl]
    exact hid ▸ h.machines
  · exact forall_updateWhere h.nonneg fun m hm hp => (hq m hm hp).resources ▸ h.nonneg m hm
  · refine forall_updateWhere h.unplaced fun m hm hp hu => ?_
    have hq := hq m hm hp
    rw [hq.hostId_eq, hq.released, hq.forkOperationId]
    exact h.unplaced m hm (hq.placed hu)
  · refine forall_updateWhere h.hash fun m hm hp => ?_
    have hq := hq m hm hp
    rw [hq.hash, hq.resources, hq.forkOperationId]
    exact h.hash m hm
  · exact forall_updateWhere h.host_ref fun m hm hp => (hq m hm hp).hostId_eq ▸ h.host_ref m hm
  · exact forall_updateWhere h.fork_ref fun m hm hp => (hq m hm hp).forkOperationId ▸ h.fork_ref m hm
  · intro o ho hs
    refine forall_updateWhere (h.pending o ho hs) fun m hm hp hid => ?_
    have hq := hq m hm hp
    rw [hq.forkOperationId] at hid
    rw [hq.released, hq.hostId_eq]
    obtain hstate | hfree := hq.child
    · rw [hstate]
      exact h.pending o ho hs m hm hid
    · exact absurd hid (hfree o ho hs)
  · intro x hx
    refine (h.reserved x hx).trans (Eq.symm ?_)
    refine sumWhere_updateWhere_same (fun m hm hp => ?_) fun m hm hp _ => (hq m hm hp).resources
    simp only [holdsOn, (hq m hm hp).hostId_eq, (hq m hm hp).released]

theorem Balanced.quietWrite (h : Balanced db) (hw : QuietWrite db db') : Balanced db' := by
  obtain ⟨p, f, rfl, hq⟩ := hw
  exact h.write fun m hm hp => (hq m hm hp).1

theorem held_append (db : Db) (rows : List MachineRow) (hostId : String) :
    ({ db with machines := db.machines ++ rows } : Db).held hostId =
      db.held hostId + sumWhere (holdsOn hostId) (·.resources) rows :=
  sumWhere_append _

/-- The insert of a machine that is asked for. -/
theorem Balanced.insertRequested (h : Balanced db) (ha : Asked m) (hi : db.insertRequested m = some db') :
    Balanced db' := by
  unfold Db.insertRequested at hi
  split_ifs at hi with hc
  cases hi
  simp only [Bool.or_eq_true, Bool.not_eq_true', not_or, Bool.not_eq_true] at hc
  obtain ⟨⟨hkeys, -⟩, hpos⟩ := hc
  simp only [Db.keysTaken, List.any_eq_false, Bool.or_eq_true, not_or, decide_eq_true_eq] at hkeys
  have hmem : ∀ P : MachineRow → Prop, (∀ x ∈ db.machines, P x) → P m → ∀ x ∈ db.machines ++ [m], P x := by
    intro P hP hm x hx
    obtain hx | hx := List.mem_append.mp hx
    · exact hP x hx
    · exact List.mem_singleton.mp hx ▸ hm
  refine ⟨⟨?_, h.hosts, h.operations⟩, ?_, ?_, ?_, ?_, ?_, ?_, ?_⟩
  · show ((db.machines ++ [m]).map (·.id)).Nodup
    rw [List.map_append, List.nodup_append]
    refine ⟨h.machines, List.nodup_singleton _, ?_⟩
    intro a ha b hb hab
    obtain ⟨x, hx, rfl⟩ := List.mem_map.mp ha
    obtain rfl := List.mem_singleton.mp hb
    exact (hkeys x hx).1.1 hab
  · refine hmem _ h.nonneg fun r => ?_
    have hr : (1 : Resources) r ≤ m.resources r := by
      simp only [Resources.fits, Bool.not_eq_false, decide_eq_true_eq] at hpos
      exact hpos r
    exact le_trans zero_le_one hr
  · exact hmem _ h.unplaced fun _ => ⟨ha.hostId, ha.released, ha.forkOperationId⟩
  · exact hmem _ h.hash fun request hr => ⟨ha.hash request hr, ha.forkOperationId⟩
  · exact hmem _ h.host_ref fun id hid => by rw [ha.hostId] at hid; cases hid
  · exact hmem _ h.fork_ref fun id hid => by rw [ha.forkOperationId] at hid; cases hid
  · exact fun o ho hs => hmem _ (h.pending o ho hs) fun hid => by rw [ha.forkOperationId] at hid; cases hid
  · intro x hx
    have hzero : sumWhere (holdsOn x.id) (·.resources) [m] = 0 := by
      simp [holdsOn, ha.hostId]
    rw [h.reserved x hx, held_append, hzero, add_zero]

/-! ### A machine and its host -/

theorem mem_modifyHost {id : String} {x' : HostRow} (hx' : x' ∈ (db.modifyHost id g).hosts) :
    ∃ x ∈ db.hosts, x' = if x.id = id then g x else x := by
  obtain ⟨x, hx, rfl⟩ := mem_updateWhere.mp hx'
  exact ⟨x, hx, by simp⟩

/-- What the write of a machine does to what a host holds. -/
theorem Keyed.held_setMachine (h : Keyed db) (hm : m ∈ db.machines) (hid : m'.id = m.id) (hostId : String) :
    (db.setMachine m').held hostId + (if holdsOn hostId m then m.resources else 0) =
      db.held hostId + if holdsOn hostId m' then m'.resources else 0 := by
  have hs := sumWhere_updateWhere_key (p := holdsOn hostId) (v := (·.resources)) (f := fun _ => m')
    h.machines hm
  rw [← hid] at hs
  exact hs

/-- A write of a free machine together with the reservations of a host.  The row has been placed
afterwards, and the host's counters move by what the row is worth to the host before and after. -/
theorem Balanced.rehold (h : Balanced db) {hostId : String} (hm : m ∈ db.machines) (hk : Kept m m') (hfree : db.Free m)
    (hplaced : Control.unplaced m'.state = false) (hhost : ∀ id, m'.hostId = some id → ∃ x ∈ db.hosts, x.id = id)
    (hgid : ∀ x, (g x).id = x.id)
    (hg : ∀ x ∈ db.hosts, x.id = hostId → (g x).reserved + (if holdsOn hostId m then m.resources else 0) =
      x.reserved + if holdsOn hostId m' then m'.resources else 0)
    (hother : ∀ id, id ≠ hostId → holdsOn id m' = holdsOn id m) :
    Balanced ((db.setMachine m').modifyHost hostId g) := by
  have hmem : ∀ P : MachineRow → Prop, (∀ x ∈ db.machines, P x) → P m' →
      ∀ x ∈ (db.setMachine m').machines, P x := by
    intro P hP hm' x hx
    exact forall_updateWhere hP (fun _ _ _ => hm') x hx
  have hhosts : ∀ id, (∃ x ∈ db.hosts, x.id = id) →
      ∃ x ∈ ((db.setMachine m').modifyHost hostId g).hosts, x.id = id := by
    rintro id ⟨x, hx, hid⟩
    refine ⟨_, List.mem_map_of_mem hx, ?_⟩
    split_ifs
    exacts [(hgid x).trans hid, hid]
  refine ⟨⟨?_, ?_, h.operations⟩, ?_, ?_, ?_, ?_, ?_, ?_, ?_⟩
  · have hid : (db.setMachine m').machines.map (·.id) = db.machines.map (·.id) := by
      show (updateWhere _ _ db.machines).map _ = _
      rw [updateWhere, List.map_map]
      refine List.map_congr_left fun x _ => ?_
      show (if decide (x.id = m'.id) then m' else x).id = x.id
      split_ifs with hx
      exacts [(of_decide_eq_true hx).symm, rfl]
    exact hid ▸ h.machines
  · show ((updateWhere _ g db.hosts).map (·.id)).Nodup
    rw [map_updateWhere hgid]
    exact h.hosts
  · exact hmem _ h.nonneg (hk.resources ▸ h.nonneg m hm)
  · exact hmem _ h.unplaced fun hu => by rw [hplaced] at hu; cases hu
  · exact hmem _ h.hash (by rw [hk.hash, hk.resources, hk.forkOperationId]; exact h.hash m hm)
  · exact hmem _ (fun x hx id hid => hhosts id (h.host_ref x hx id hid)) fun id hid => hhosts id (hhost id hid)
  · exact hmem _ h.fork_ref (by rw [hk.forkOperationId]; exact h.fork_ref m hm)
  · exact fun o ho hs => hmem _ (h.pending o ho hs) fun hid =>
      absurd (hk.forkOperationId ▸ hid) (hfree o ho hs)
  · intro x' hx'
    obtain ⟨x, hx, rfl⟩ := mem_modifyHost hx'
    have hsum := h.toKeyed.held_setMachine hm hk.id (if x.id = hostId then g x else x).id
    by_cases hid : x.id = hostId
    · rw [if_pos hid] at hsum ⊢
      rw [hgid, hid, ← hid, ← h.reserved x hx, hid, ← hg x hx hid] at hsum
      rw [hgid, hid]
      exact (add_right_cancel hsum).symm
    · rw [if_neg hid, hother x.id hid] at hsum
      rw [if_neg hid]
      have hres : m'.resources = m.resources := hk.resources
      rw [hres] at hsum
      rw [h.reserved x hx]
      exact (add_right_cancel hsum).symm

/-- A row that is written evolves when its columns are kept. -/
theorem Keyed.evolves_setMachine (h : Keyed db) (hm : m ∈ db.machines) (hk : Kept m m')
    (hms : db'.machines = (db.setMachine m').machines) (hos : db'.forkOperations = db.forkOperations) :
    Evolves db db' := by
  refine .of_machines (fun x hx => ?_) hos
  rw [hms]
  by_cases hid : x.id = m'.id
  · have hxm : x = m := key_inj h.machines hx hm (hid.trans hk.id)
    refine ⟨m', mem_updateWhere.mpr ⟨x, hx, ?_⟩, hxm ▸ hk⟩
    rw [if_pos (decide_eq_true hid)]
  · refine ⟨x, mem_updateWhere.mpr ⟨x, hx, ?_⟩, .refl x⟩
    rw [if_neg (by simpa using hid)]

theorem Kept.place (hu : unplaced m.state = true) (hhost : m.hostId = none) (hostId : String) (now : ℤ) :
    Kept m (m.place hostId now) where
  id := rfl
  organizationId := rfl
  projectId := rfl
  leaseId := rfl
  hash := rfl
  resources := rfl
  forkOperationId := rfl
  hostId := fun x hx => by rw [hhost] at hx; cases hx
  placed := fun h => by cases h
  ended := fun h => by rcases unplaced_iff.mp hu with hs | hs <;> rw [hs] at h <;> cases h
  stopping := fun h => by rw [h] at hu; cases hu
  expiresAt := le_rfl

theorem Kept.released (m : MachineRow) (now : ℤ) : Kept m (m.released now) :=
  ⟨rfl, rfl, rfl, rfl, rfl, rfl, rfl, fun _ h => h, fun h => h, fun _ => rfl, fun h => .inl h, le_rfl⟩

theorem Kept.failChild (hstart : m.state = .starting) (now : ℤ) : Kept m (Db.failChild now m) :=
  ⟨rfl, rfl, rfl, rfl, rfl, rfl, rfl, fun _ hx => hx, nofun, by rw [hstart]; exact nofun,
    by rw [hstart]; exact nofun, le_rfl⟩

/-- The clamp has nothing to do when no more is given back than is reserved. -/
theorem giveBack_clamp {given : Resources} {x : HostRow} (hle : given ≤ x.reserved) :
    HostRow.giveBack greatest0 given x = HostRow.giveBack (fun n => n) given x := by
  have hres : (fun r => greatest0 (x.reserved r - given r)) = fun r => x.reserved r - given r := by
    funext r
    exact max_eq_right (sub_nonneg.mpr (hle r))
  simp only [HostRow.giveBack, hres]

section Placement

variable {db : Db} (h : Balanced db) {id : String} {m : MachineRow} (hm : db.machine? id = some m)

include h hm

theorem Balanced.place (hu : Control.unplaced m.state = true) {host : HostRow} {hostId : String}
    (hhost : db.host? hostId = some host) (now : ℤ) {need : Resources} (hneed : need = m.resources) :
    Balanced ((db.modifyHost hostId (HostRow.reserve need)).setMachine (m.place hostId now)) := by
  obtain ⟨hmem, -⟩ := h.toKeyed.machine?_iff.mp hm
  obtain ⟨hnone, hrel, hfork⟩ := h.unplaced m hmem hu
  have hbefore : ∀ x, holdsOn x m = false := fun x => by simp [holdsOn, hnone]
  refine h.rehold (g := HostRow.reserve need) hmem (.place hu hnone hostId now) (db.free_of_none hfork) rfl ?_
    (fun _ => rfl) ?_ ?_
  · intro x hx
    cases hx
    exact ⟨host, h.toKeyed.host?_iff.mp hhost⟩
  · intro x _ _
    have hafter : holdsOn hostId (m.place hostId now) = true := by simp [holdsOn, MachineRow.place, hrel]
    rw [hbefore, hafter]
    show x.reserved + need + _ = _
    simp [hneed, MachineRow.place]
  · intro x hx
    rw [hbefore]
    have hne : ¬ some hostId = some x := fun e => hx (Option.some.inj e).symm
    simp [holdsOn, MachineRow.place, hne]

theorem Balanced.free_of_ended (hended : terminal m.state = true) : db.Free m := by
  obtain ⟨hmem, -⟩ := h.toKeyed.machine?_iff.mp hm
  intro o ho hs hid
  have hstart := (h.pending o ho hs m hmem hid).1
  rw [hstart] at hended
  cases hended

/-- What a machine holds is among the reservations of its host. -/
theorem Balanced.le_reserved {x : HostRow} (hx : x ∈ db.hosts) (hhost : m.hostId = some x.id)
    (hrel : m.reservationReleasedAt = none) : m.resources ≤ x.reserved := by
  obtain ⟨hmem, -⟩ := h.toKeyed.machine?_iff.mp hm
  rw [h.reserved x hx]
  exact le_sumWhere hmem (by simp [holdsOn, hhost, hrel]) fun y hy _ => h.nonneg y hy

variable {hostId : String} (hhost : m.hostId = some hostId)

include hhost

/-- The clamp of a release has nothing to do. -/
theorem Balanced.release_clamp (now : ℤ) :
    release greatest0 db now hostId m.resources id = release (fun n => n) db now hostId m.resources id := by
  unfold release
  rw [hm]
  dsimp only
  split_ifs with hrel
  · rfl
  · rw [Option.not_isSome_iff_eq_none] at hrel
    have hclamp : ∀ x ∈ db.hosts, decide (x.id = hostId) = true →
        HostRow.giveBack greatest0 m.resources x = HostRow.giveBack (fun n => n) m.resources x := by
      intro x hx hid
      exact giveBack_clamp (h.le_reserved hm hx (of_decide_eq_true hid ▸ hhost) hrel)
    show ({ db.setMachine (m.released now) with hosts := updateWhere _ _ db.hosts } : Db) = _
    rw [updateWhere_congr hclamp]
    rfl

theorem Balanced.release (hended : terminal m.state = true) (now : ℤ) :
    Balanced (Control.release (fun n => n) db now hostId m.resources id) := by
  unfold Control.release
  rw [hm]
  dsimp only
  split_ifs with hrel
  · exact h
  · rw [Option.not_isSome_iff_eq_none] at hrel
    obtain ⟨hmem, -⟩ := h.toKeyed.machine?_iff.mp hm
    have hafter : ∀ x, holdsOn x (m.released now) = false := fun x => by simp [holdsOn, MachineRow.released]
    refine h.rehold hmem (.released m now) (h.free_of_ended hm hended) ?_ (h.host_ref m hmem)
      (fun _ => rfl) ?_ ?_
    · show Control.unplaced m.state = false
      rcases terminal_iff.mp hended with hs | hs | hs <;> rw [hs] <;> rfl
    · intro x _ _
      have hbefore : holdsOn hostId m = true := by simp [holdsOn, hhost, hrel]
      rw [hbefore, hafter]
      funext r
      show x.reserved r - m.resources r + m.resources r = x.reserved r + 0
      omega
    · intro x hx
      rw [hafter]
      have hne : ¬ hostId = x := fun e => hx e.symm
      simp [holdsOn, hhost, hne]

end Placement

theorem Keyed.evolves_release (h : Keyed db) (greatest : ℤ → ℤ) (now : ℤ) (hostId : String) (resources : Resources)
    (id : String) : Evolves db (release greatest db now hostId resources id) := by
  unfold release
  split
  · exact .refl db
  · next m hm =>
    split_ifs
    · exact .refl db
    · exact h.evolves_setMachine (h.machine?_iff.mp hm).1 (.released m now) rfl rfl

/-! ### Forks -/

section Fork

variable {db : Db} (h : Balanced db)

/-- What the row of a fork child is. -/
structure ChildRow (request : ForkRequest) (source m : MachineRow) : Prop where
  state : m.state = .starting
  released : m.reservationReleasedAt = none
  hostId : m.hostId = source.hostId
  forkOperationId : m.forkOperationId = some request.operationId
  resources : m.resources = source.resources
  hash : ∀ r, m.idempotencyRequestHash ≠ .create r

theorem mem_children {request : ForkRequest} {source : MachineRow} {now remaining : ℤ} {m : MachineRow}
    (hm : m ∈ request.children.mapIdx (forkChild request source now remaining)) :
    ChildRow request source m := by
  obtain ⟨i, hi, rfl⟩ := List.mem_mapIdx.mp hm
  exact ⟨rfl, rfl, rfl, rfl, rfl, fun _ => nofun⟩

theorem children_ids (request : ForkRequest) (source : MachineRow) (now remaining : ℤ) :
    (request.children.mapIdx (forkChild request source now remaining)).map (·.id) =
      request.children.map Prod.fst :=
  List.ext_getElem (by simp) (by simp [forkChild])

include h

theorem Balanced.insertFork {request : ForkRequest} {source : MachineRow} {hostId : String}
    (hsource : source ∈ db.machines) (hhost : source.hostId = some hostId) {now remaining : ℤ}
    (hkeys : db.forkInsertable request (request.children.mapIdx (forkChild request source now remaining))
      = true) :
    Balanced (db.insertFork request source hostId
      (request.children.mapIdx (forkChild request source now remaining))) := by
  set children := request.children.mapIdx (forkChild request source now remaining) with hchildren
  simp only [Db.forkInsertable, Bool.and_eq_true, Bool.not_eq_true', List.any_eq_false, decide_eq_true_eq,
    List.all_eq_true] at hkeys
  obtain ⟨⟨⟨hop, hids⟩, -⟩, hfresh⟩ := hkeys
  have hchild : ∀ m ∈ children, ChildRow request source m := fun m hm => mem_children hm
  have hmem : ∀ P : MachineRow → Prop, (∀ x ∈ db.machines, P x) → (∀ x ∈ children, P x) →
      ∀ x ∈ db.machines ++ children, P x := by
    intro P h₁ h₂ x hx
    obtain hx | hx := List.mem_append.mp hx
    exacts [h₁ x hx, h₂ x hx]
  have hhosts : ∀ id, (∃ x ∈ db.hosts, x.id = id) →
      ∃ x ∈ (db.insertFork request source hostId children).hosts, x.id = id := by
    rintro id ⟨x, hx, hid⟩
    refine ⟨_, List.mem_map_of_mem hx, ?_⟩
    split_ifs
    exacts [hid, hid]
  have hold : ∀ m ∈ db.machines, m.forkOperationId ≠ some request.operationId := by
    intro m hm hid
    obtain ⟨o, ho, hoid⟩ := h.fork_ref m hm _ hid
    exact hop o ho hoid
  refine ⟨⟨?_, ?_, ?_⟩, ?_, ?_, ?_, ?_, ?_, ?_, ?_⟩
  · show ((db.machines ++ children).map (·.id)).Nodup
    rw [List.map_append, List.nodup_append, hchildren, children_ids]
    refine ⟨h.machines, hids, ?_⟩
    intro a ha b hb hab
    obtain ⟨x, hx, rfl⟩ := List.mem_map.mp ha
    rw [← children_ids request source now remaining] at hb
    obtain ⟨y, hy, rfl⟩ := List.mem_map.mp hb
    have hy := hfresh y hy
    simp only [Db.keysTaken, List.any_eq_false, Bool.or_eq_true, not_or, decide_eq_true_eq] at hy
    exact (hy x hx).1.1 hab
  · have hkey : ∀ x, (HostRow.reserve (request.count • source.resources) x).id = x.id := fun _ => rfl
    show ((updateWhere _ (HostRow.reserve _) db.hosts).map (·.id)).Nodup
    rw [map_updateWhere hkey]
    exact h.hosts
  · show ((db.forkOperations ++ [forkOperation request hostId]).map (·.id)).Nodup
    rw [List.map_append, List.nodup_append]
    refine ⟨h.operations, List.nodup_singleton _, ?_⟩
    intro a ha b hb hab
    obtain ⟨o, ho, rfl⟩ := List.mem_map.mp ha
    obtain rfl := List.mem_singleton.mp hb
    exact hop o ho hab
  · exact hmem _ h.nonneg fun m hm => (hchild m hm).resources ▸ h.nonneg source hsource
  · refine hmem _ h.unplaced fun m hm hu => ?_
    rw [(hchild m hm).state] at hu
    cases hu
  · exact hmem _ h.hash fun m hm r hr => absurd hr ((hchild m hm).hash r)
  · refine hmem _ (fun m hm id hid => hhosts id (h.host_ref m hm id hid)) fun m hm id hid => ?_
    rw [(hchild m hm).hostId] at hid
    exact hhosts id (h.host_ref source hsource id hid)
  · refine hmem _ (fun m hm id hid => ?_) fun m hm id hid => ?_
    · obtain ⟨o, ho, hoid⟩ := h.fork_ref m hm id hid
      exact ⟨o, List.mem_append_left _ ho, hoid⟩
    · rw [(hchild m hm).forkOperationId] at hid
      exact ⟨_, List.mem_append_right _ (List.mem_singleton_self _), Option.some.inj hid⟩
  · intro o ho hs
    obtain ho | ho := List.mem_append.mp ho
    · refine hmem _ (h.pending o ho hs) fun m hm hid => ?_
      rw [(hchild m hm).forkOperationId] at hid
      exact absurd (Option.some.inj hid).symm (hop o ho)
    · obtain rfl := List.mem_singleton.mp ho
      refine hmem _ (fun m hm hid => absurd hid (hold m hm)) fun m hm _ => ?_
      have hc := hchild m hm
      exact ⟨hc.state, hc.released, hc.hostId.trans hhost⟩
  · intro x' hx'
    obtain ⟨x, hx, rfl⟩ := mem_modifyHost hx'
    by_cases hid : x.id = hostId
    · have hsum : sumWhere (holdsOn hostId) (·.resources) children = request.count • source.resources := by
        have hlen : children.length = request.count := by simp [hchildren, ForkRequest.count]
        rw [← hlen]
        refine sumWhere_const fun m hm => ?_
        have hc := hchild m hm
        exact ⟨by simp [holdsOn, hc.released, hc.hostId, hhost], hc.resources⟩
      rw [if_pos hid]
      show x.reserved + request.count • source.resources = sumWhere _ _ (db.machines ++ children)
      rw [sumWhere_append, h.reserved x hx]
      show _ = db.held x.id + sumWhere (holdsOn x.id) _ children
      rw [hid, hsum]
    · have hsum : sumWhere (holdsOn x.id) (·.resources) children = 0 := by
        refine sumWhere_eq_zero fun m hm hp => ?_
        rw [holdsOn, (hchild m hm).hostId, hhost] at hp
        simp only [Bool.and_eq_true, decide_eq_true_eq, Option.some.injEq] at hp
        exact absurd hp.1.symm hid
      rw [if_neg hid]
      show x.reserved = sumWhere _ _ (db.machines ++ children)
      rw [sumWhere_append, hsum, add_zero]
      exact h.reserved x hx

variable {o' : ForkOperation}

omit h in
theorem mem_setForkOperation {x : ForkOperation} (hx : x ∈ (db.setForkOperation o').forkOperations) :
    x = o' ∨ x ∈ db.forkOperations ∧ x.id ≠ o'.id := by
  obtain ⟨y, hy, hyx⟩ := mem_updateWhere.mp hx
  split_ifs at hyx with hid
  · exact .inl hyx.symm
  · exact .inr (hyx ▸ ⟨hy, fun e => hid (decide_eq_true e)⟩)

/-- The write of a fork operation that stays what it is for its children, or is no longer pending. -/
theorem Balanced.setForkOperation {o : ForkOperation} (ho : o ∈ db.forkOperations) (hid : o'.id = o.id)
    (hhost : o'.sourceHostId = o.sourceHostId) (hs : o'.state = .pending → o.state = .pending) :
    Balanced (db.setForkOperation o') := by
  refine ⟨⟨h.machines, h.hosts, ?_⟩, h.nonneg, h.unplaced, h.hash, h.host_ref, ?_, ?_, h.reserved⟩
  · have hids : (db.setForkOperation o').forkOperations.map (·.id) = db.forkOperations.map (·.id) := by
      show (updateWhere _ _ db.forkOperations).map _ = _
      rw [updateWhere, List.map_map]
      refine List.map_congr_left fun x _ => ?_
      show (if decide (x.id = o'.id) then o' else x).id = x.id
      split_ifs with hx
      exacts [(of_decide_eq_true hx).symm, rfl]
    exact hids ▸ h.operations
  · intro m hm id hmid
    obtain ⟨x, hx, rfl⟩ := h.fork_ref m hm id hmid
    refine ⟨_, List.mem_map_of_mem hx, ?_⟩
    split_ifs with hx'
    exacts [(of_decide_eq_true hx').symm, rfl]
  · intro x hx hxs m hm hmid
    obtain rfl | ⟨hx, -⟩ := mem_setForkOperation hx
    · rw [hhost]
      exact h.pending o ho (hs hxs) m hm (hid ▸ hmid)
    · exact h.pending x hx hxs m hm hmid

omit h in
theorem evolves_setForkOperation {db' : Db} {o : ForkOperation} (ho : o ∈ db.forkOperations) (hid : o'.id = o.id)
    (hs : o'.state = .pending → o.state = .pending) (hms : ∀ m ∈ db.machines, ∃ m' ∈ db'.machines, Kept m m')
    (hos : db'.forkOperations = (db.setForkOperation o').forkOperations) : Evolves db db' := by
  refine ⟨hms, fun x hx hxs => .inl ?_⟩
  rw [hos] at hx
  obtain rfl | ⟨hx, -⟩ := mem_setForkOperation hx
  exacts [⟨o, ho, hid.symm, hs hxs⟩, ⟨x, hx, rfl, hxs⟩]

/-! #### Completion -/

omit h in
/-- The write to a child of a fork that is complete: its operation has succeeded. -/
theorem quiet_completeChild {m : MachineRow} (now : ℤ) (allReady : Bool)
    (observed : List HostMachine) (hstart : m.state = .starting) (hfree : allReady = true → db.Free m) :
    Quiet db m (Db.completeChild now allReady observed m)
      ∧ (Db.completeChild now allReady observed m).expiresAt = m.expiresAt := by
  have hplaced : ¬ Control.unplaced m.state = true := by rw [hstart]; exact Bool.false_ne_true
  unfold Db.completeChild
  split
  · refine ⟨Steady.quiet_same ?_ db rfl fun _ => ⟨rfl, rfl⟩, rfl⟩
    exact ⟨rfl, rfl, rfl, rfl, rfl, rfl, rfl, rfl, rfl, rfl⟩
  · refine ⟨?_, rfl⟩
    cases allReady with
    | false =>
      refine Steady.quiet_same ?_ db rfl fun hu => absurd hu hplaced
      exact ⟨rfl, rfl, rfl, rfl, rfl, rfl, rfl, rfl, rfl, rfl⟩
    | true =>
      refine Steady.quiet_moves ?_ rfl (by rw [hstart]; rfl) (by rw [hstart]; exact nofun) (hfree rfl)
      exact ⟨rfl, rfl, rfl, rfl, rfl, rfl, rfl, rfl, rfl, rfl⟩

omit h in
theorem completeFork_effect (hk : Keyed db) {db' : Db} {policy : BillingAdmissionPolicy} {now : ℤ} {a : Act}
    {operationId : String} {observed : List HostMachine}
    (hc : db.completeFork now operationId observed = some db') : Effect policy now db a db' := by
  unfold Db.completeFork at hc
  split at hc
  · cases hc
  · next o ho =>
    obtain ⟨homem, rfl⟩ := hk.forkOperation?_iff.mp ho
    by_cases hp : o.state ≠ .pending ∨ o.cleanupRequestedAt.isSome
    · rw [if_pos hp] at hc
      cases hc
      exact .refl
    rw [if_neg hp] at hc
    split_ifs at hc with hbatch hstart
    simp only [List.all_eq_true, List.mem_filter, decide_eq_true_eq] at hstart
    rw [← Option.some.inj hc]
    cases hready : observed.all fun o => o.ready && decide (o.status = .running) with
    | true =>
      -- the operation succeeds, so that its children are free before they are written
      have hfree : ∀ m ∈ db.machines, Db.childOf o.id m = true →
          (db.setForkOperation o.succeeds).Free m := by
        intro m _ hchild x hx hs hid
        obtain rfl | ⟨-, hne⟩ := mem_setForkOperation hx
        · cases hs
        · have hmo : m.forkOperationId = some o.id := of_decide_eq_true hchild
          exact hne (Option.some.inj (hid.symm.trans hmo))
      refine @Effect.operation policy now db a _ o o.succeeds homem rfl rfl nofun ⟨_, _, rfl, fun m hm hchild => ?_⟩
      exact quiet_completeChild now true observed (hstart m ⟨hm, hchild⟩) fun _ => hfree m hm hchild
    | false =>
      refine .quiet ⟨_, _, rfl, fun m hm hchild => ?_⟩
      exact quiet_completeChild now false observed (hstart m ⟨hm, hchild⟩) nofun

/-! #### Failure -/

section Settle

variable {o : ForkOperation} (ho : o ∈ db.forkOperations) (hs : o.state = .pending)

include ho hs

theorem Balanced.child_held {m : MachineRow} (hm : m ∈ db.machines) (hc : Db.childOf o.id m = true) :
    m.state = .starting ∧ holdsOn o.sourceHostId m = true := by
  obtain ⟨hstart, hrel, hhost⟩ := h.pending o ho hs m hm (of_decide_eq_true hc)
  exact ⟨hstart, by simp [holdsOn, hrel, hhost]⟩

/-- The batch is among the reservations of its host. -/
theorem Balanced.totals_le {x : HostRow} (hx : x ∈ db.hosts) (hid : x.id = o.sourceHostId) :
    sumWhere (Db.childOf o.id) (·.resources) db.machines ≤ x.reserved := by
  rw [h.reserved x hx, hid]
  exact sumWhere_mono (fun m hm hc => (h.child_held ho hs hm hc).2) fun m hm _ => h.nonneg m hm

theorem Balanced.settleFork_clamp (now : ℤ) (failure : Failure) :
    db.settleFork greatest0 now o failure = db.settleFork (fun n => n) now o failure := by
  have hclamp : ∀ x ∈ db.hosts, decide (x.id = o.sourceHostId) = true →
      HostRow.giveBack greatest0 (sumWhere (Db.childOf o.id) (·.resources) db.machines) x =
        HostRow.giveBack (fun n => n) (sumWhere (Db.childOf o.id) (·.resources) db.machines) x := by
    intro x hx hid
    exact giveBack_clamp (h.totals_le ho hs hx (of_decide_eq_true hid))
  simp only [Db.settleFork, Db.modifyHost, Db.setForkOperation]
  rw [updateWhere_congr hclamp]

theorem Balanced.settleFork (now : ℤ) (failure : Failure) :
    Balanced (db.settleFork (fun n => n) now o failure) := by
  have hids : Balanced (db.setForkOperation (o.fails failure)) := h.setForkOperation ho rfl rfl nofun
  have hhosts : ∀ id, (∃ x ∈ db.hosts, x.id = id) →
      ∃ x ∈ (db.settleFork (fun n => n) now o failure).hosts, x.id = id := by
    rintro id ⟨x, hx, hid⟩
    refine ⟨_, List.mem_map_of_mem hx, ?_⟩
    split_ifs
    exacts [hid, hid]
  refine ⟨⟨?_, ?_, hids.operations⟩, ?_, ?_, ?_, ?_, ?_, ?_, ?_⟩
  · show ((updateWhere _ (Db.failChild now) db.machines).map (·.id)).Nodup
    have hkey : ∀ m, (Db.failChild now m).id = m.id := fun _ => rfl
    rw [map_updateWhere hkey]
    exact h.machines
  · show ((updateWhere _ (HostRow.giveBack _ _) db.hosts).map (·.id)).Nodup
    have hkey : ∀ x, (HostRow.giveBack (fun n => n)
      (sumWhere (Db.childOf o.id) (·.resources) db.machines) x).id = x.id := fun _ => rfl
    rw [map_updateWhere hkey]
    exact h.hosts
  · exact forall_updateWhere h.nonneg fun m hm _ => h.nonneg m hm
  · exact forall_updateWhere h.unplaced fun _ _ _ => nofun
  · exact forall_updateWhere h.hash fun m hm _ => h.hash m hm
  · exact forall_updateWhere (fun m hm id hid => hhosts id (h.host_ref m hm id hid))
      fun m hm _ id hid => hhosts id (h.host_ref m hm id hid)
  · exact forall_updateWhere hids.fork_ref fun m hm _ => hids.fork_ref m hm
  · intro x hx hxs
    have hx' := hx
    obtain rfl | ⟨-, hne⟩ := mem_setForkOperation hx
    · cases hxs
    · refine forall_updateWhere (hids.pending x hx' hxs) fun m _ hc hid => absurd ?_ hne
      have hmo : m.forkOperationId = some o.id := of_decide_eq_true (Bool.and_eq_true_iff.mp hc).1
      exact Option.some.inj (hid.symm.trans hmo)
  · intro x' hx'
    obtain ⟨x, hx, rfl⟩ := mem_modifyHost hx'
    have hsum : sumWhere (holdsOn x.id) (·.resources)
        (updateWhere (fun m => Db.childOf o.id m && liveState m.state) (Db.failChild now) db.machines) + _ = _ :=
      sumWhere_updateWhere
    have hzero : sumWhere (fun m => (Db.childOf o.id m && liveState m.state)
        && holdsOn x.id (Db.failChild now m)) (fun m => (Db.failChild now m).resources) db.machines = 0 := by
      refine sumWhere_eq_zero fun m _ hp => ?_
      simp [holdsOn, Db.failChild] at hp
    rw [hzero, add_zero] at hsum
    by_cases hid : x.id = o.sourceHostId
    · have htotals : sumWhere (fun m => (Db.childOf o.id m && liveState m.state) && holdsOn x.id m)
          (·.resources) db.machines = sumWhere (Db.childOf o.id) (·.resources) db.machines := by
        refine sumWhere_congr fun m hm => ?_
        by_cases hc : Db.childOf o.id m = true
        · obtain ⟨hstart, hheld⟩ := h.child_held ho hs hm hc
          rw [hid, hheld, hstart, hc]
          rfl
        · rw [Bool.not_eq_true] at hc
          rw [hc]
          rfl
      rw [htotals] at hsum
      rw [if_pos hid]
      show x.reserved - sumWhere (Db.childOf o.id) (·.resources) db.machines = sumWhere (holdsOn x.id) _ _
      rw [h.reserved x hx, sub_eq_iff_eq_add]
      exact hsum.symm
    · have hnone : sumWhere (fun m => (Db.childOf o.id m && liveState m.state) && holdsOn x.id m)
          (·.resources) db.machines = 0 := by
        refine sumWhere_eq_zero fun m hm hp => absurd ?_ hid
        simp only [Bool.and_eq_true, holdsOn, decide_eq_true_eq] at hp
        have hhost := (h.pending o ho hs m hm (of_decide_eq_true hp.1.1)).2.2
        exact Option.some.inj (hp.2.1.symm.trans hhost)
      rw [hnone, add_zero] at hsum
      rw [if_neg hid]
      exact (h.reserved x hx).trans hsum.symm

theorem Balanced.evolves_settleFork (greatest : ℤ → ℤ) (now : ℤ) (failure : Failure) :
    Evolves db (db.settleFork greatest now o failure) := by
  refine @evolves_setForkOperation db (o.fails failure) _ o ho rfl nofun
    (fun m hm => ⟨_, List.mem_map_of_mem hm, ?_⟩) rfl
  split_ifs with hc
  · exact .failChild (h.child_held ho hs hm (Bool.and_eq_true_iff.mp hc).1).1 now
  · exact .refl m

end Settle

end Fork

/-! ### Hosts -/

/-- A table of hosts with the reservations that their machines hold. -/
theorem Balanced.withHosts (h : Balanced db) {hosts : List HostRow} (hn : (hosts.map (·.id)).Nodup)
    (hold : ∀ x ∈ db.hosts, ∃ x' ∈ hosts, x'.id = x.id) (hres : ∀ x ∈ hosts, x.reserved = db.held x.id) :
    Balanced { db with hosts := hosts } := by
  refine ⟨⟨h.machines, hn, h.operations⟩, h.nonneg, h.unplaced, h.hash, ?_, h.fork_ref, h.pending, hres⟩
  intro m hm id hid
  obtain ⟨x, hx, rfl⟩ := h.host_ref m hm id hid
  exact hold x hx

theorem Balanced.putHost (h : Balanced db) (row : HostRow) : Balanced (db.putHost row) := by
  unfold Db.putHost
  split
  · next x hx =>
    obtain ⟨hxmem, hxid⟩ := h.toKeyed.host?_iff.mp hx
    have hids : (updateWhere (fun y => decide (y.id = row.id)) (fun _ => { row with reserved := x.reserved })
        db.hosts).map (·.id) = db.hosts.map (·.id) := by
      rw [updateWhere, List.map_map]
      refine List.map_congr_left fun y _ => ?_
      show (if decide (y.id = row.id) then { row with reserved := x.reserved } else y).id = y.id
      split_ifs with hy
      exacts [(of_decide_eq_true hy).symm, rfl]
    refine h.withHosts (hids ▸ h.hosts) (fun y hy => ?_) ?_
    · refine ⟨_, List.mem_map_of_mem hy, ?_⟩
      split_ifs with hid
      exacts [(of_decide_eq_true hid).symm, rfl]
    · refine forall_updateWhere h.reserved fun _ _ _ => ?_
      rw [h.reserved x hxmem, hxid]
  · next hnone =>
    have hfresh : ∀ y ∈ db.hosts, y.id ≠ row.id := fun y hy e =>
      absurd (h.toKeyed.host?_iff.mpr ⟨hy, e⟩) (by simp [hnone])
    refine h.withHosts ?_ (fun y hy => ⟨y, List.mem_append_left _ hy, rfl⟩) fun y hy => ?_
    · rw [List.map_append, List.nodup_append]
      refine ⟨h.hosts, List.nodup_singleton _, fun a ha b hb hab => ?_⟩
      obtain ⟨y, hy, rfl⟩ := List.mem_map.mp ha
      obtain rfl := List.mem_singleton.mp hb
      exact hfresh y hy hab
    · obtain hy | hy := List.mem_append.mp hy
      · exact h.reserved y hy
      · obtain rfl := List.mem_singleton.mp hy
        refine (sumWhere_eq_zero fun m hm hp => ?_).symm
        simp only [holdsOn, Bool.and_eq_true, decide_eq_true_eq] at hp
        obtain ⟨x, hx, hxid⟩ := h.host_ref m hm _ hp.1
        exact absurd hxid (hfresh x hx)

/-! ### Effects -/

/-- A row that is written evolves when its columns are kept, also when its extension is written with it. -/
theorem Keyed.evolves_extended (h : Keyed db) {id : String} (hm : db.machine? id = some m) (operationId : ℕ)
    (result recorded : ℤ) :
    Evolves db ((db.recordExtend operationId result).setMachine
      { m with expiresAt := max m.expiresAt recorded }) := by
  refine h.evolves_setMachine (h.machine?_iff.mp hm).1 ?_ rfl rfl
  exact { Kept.refl m with expiresAt := le_max_left _ _ }

section Effects

variable {policy : BillingAdmissionPolicy} {now : ℤ} {a : Act} {db db' : Db} (h : Balanced db)

include h

theorem Balanced.completeExtend {operationId : ℕ} {machineId organizationId : String}
    {resultExpiresAt recorded : ℤ}
    (hc : db.completeExtend operationId machineId organizationId resultExpiresAt = some (db', recorded)) :
    Balanced db' ∧ Evolves db db' := by
  obtain ⟨m, -, hm, -, -, -, rfl | rfl⟩ := completeExtend_ok hc
  · exact ⟨h.congr rfl rfl rfl, .of_same rfl rfl⟩
  · have hrecord : Balanced (db.recordExtend operationId resultExpiresAt) := h.congr rfl rfl rfl
    refine ⟨hrecord.write fun x hx hid => ?_, h.toKeyed.evolves_extended hm _ _ _⟩
    obtain ⟨hmem, -⟩ := h.toKeyed.machine?_iff.mp hm
    obtain rfl : x = m := key_inj h.machines hx hmem (of_decide_eq_true hid)
    exact
      { Kept.refl x with
        expiresAt := le_max_left _ _
        hostId_eq := rfl
        released := rfl
        child := .inl rfl
        waiting := fun _ => ⟨rfl, rfl⟩ }

theorem Balanced.evolves_insertFork {request : ForkRequest} {source : MachineRow} {hostId : String}
    {children : List MachineRow} (hkeys : db.forkInsertable request children = true) :
    Evolves db (db.insertFork request source hostId children) := by
  refine ⟨fun m hm => ⟨m, List.mem_append_left _ hm, .refl m⟩, fun o ho hs => ?_⟩
  obtain ho | ho := List.mem_append.mp ho
  · exact .inl ⟨o, ho, rfl, hs⟩
  · obtain rfl := List.mem_singleton.mp ho
    refine .inr fun m hm hid => ?_
    obtain ⟨x, hx, hxid⟩ := h.fork_ref m hm _ hid
    simp only [Db.forkInsertable, Bool.and_eq_true, Bool.not_eq_true', List.any_eq_false,
      decide_eq_true_eq] at hkeys
    exact hkeys.1.1.1 x hx hxid

theorem Balanced.beginFork {times : Times} {request : ForkRequest} {r : Option (ForkOperation × Bool)}
    (hf : db.beginFork policy times request = .ok (db', r)) : Balanced db' ∧ Evolves db db' := by
  obtain ⟨rfl, -⟩ | ⟨_, _, source, host, _, -, -, hsource, hhost, -, -, -, -, -, -, -, -, rfl, hkeys, rfl⟩ :=
    beginFork_ok hf
  · exact ⟨h, .refl _⟩
  · obtain ⟨hmem, -⟩ := h.toKeyed.machine?_iff.mp hsource
    exact ⟨h.insertFork hmem hhost hkeys, h.evolves_insertFork hkeys⟩

/-- **Every effect keeps the balance.** -/
theorem Effect.balanced (e : Effect policy now db a db') : Balanced db' := by
  cases e with
  | around _ _ hm hh ho => exact h.congr hm hh ho
  | @organization row =>
    obtain ⟨hm, hh, ho, -⟩ := putOrganization_only db row
    exact h.congr hm hh ho
  | project _ _ hp =>
    obtain ⟨hm, hh, ho, -⟩ := putProject_only hp
    exact h.congr hm hh ho
  | host => exact h.putHost _
  | quiet hw => exact h.quietWrite hw
  | insert hm hi => exact h.insertRequested hm hi
  | reserve hm _ _ hres _ hr =>
    obtain ⟨-, host, m, hhost, -, hm', hu, rfl⟩ := reserve_ok hr
    rw [hm'] at hm
    cases hm
    exact h.place hm' hu hhost _ hres.symm
  | release hm hhost hended => exact h.release hm hhost hended now
  | beginExtend hx =>
    obtain ⟨hm, hh, ho⟩ := beginExtend_tables hx
    exact h.congr hm hh ho
  | completeExtend hx => exact (h.completeExtend hx).1
  | beginFork hf => exact (h.beginFork hf).1
  | operation ho hid hhost hs hw => exact (h.setForkOperation ho hid hhost hs).quietWrite hw
  | settleFork ho hs failure => exact h.settleFork ho hs now failure

/-- **Every effect lets the database evolve.** -/
theorem Effect.evolves (e : Effect policy now db a db') : Evolves db db' := by
  cases e with
  | around _ _ hm _ ho => exact .of_same hm ho
  | @organization row => exact .of_same (putOrganization_only db row).machines (putOrganization_only db row).forkOperations
  | project _ _ hp => exact .of_same (putProject_only hp).machines (putProject_only hp).forkOperations
  | host =>
    refine .of_same ?_ ?_
    all_goals
      unfold Db.putHost
      split <;> rfl
  | quiet hw => exact hw.evolves
  | insert hm hi =>
    unfold Db.insertRequested at hi
    split_ifs at hi
    cases hi
    exact .of_machines (fun x hx => ⟨x, List.mem_append_left _ hx, .refl x⟩) rfl
  | reserve hm _ _ hres _ hr =>
    obtain ⟨-, host, m, -, -, hm', hu, rfl⟩ := reserve_ok hr
    obtain ⟨hmem, -⟩ := h.toKeyed.machine?_iff.mp hm'
    exact h.toKeyed.evolves_setMachine hmem (.place hu (h.unplaced m hmem hu).1 _ _) rfl rfl
  | release => exact h.toKeyed.evolves_release _ _ _ _ _
  | beginExtend hx =>
    obtain ⟨hm, -, ho⟩ := beginExtend_tables hx
    exact .of_same hm ho
  | completeExtend hx => exact (h.completeExtend hx).2
  | beginFork hf => exact (h.beginFork hf).2
  | operation ho hid hhost hs hw => exact evolves_setForkOperation ho hid hs hw.evolves.machines hw.forkOperations
  | settleFork ho hs failure => exact h.evolves_settleFork ho hs _ now failure

end Effects

end Nehemiah.Control
