import Nehemiah.Control.Capacity
import Nehemiah.Control.Writes

/-!
# Ends of machines

A machine that is stopped, failed or lost stays so: no write changes its state, the id of its machine on the
host or its lifetime, and it is not ready (`terminal_absorbing`).  Every update of a machine either carries
a condition on the state that an ended machine does not meet, or leaves these columns alone, and what it
ends it makes unready (`Respects`); this does not depend on what the caller had read before.

The writes are those of the system and `assign`, which nothing calls.
-/

namespace Nehemiah.Control

open Billing (MachineState HostState HostDesiredState CredentialStatus)
open Lib

/-! ### Rows -/

/-- A machine that has not been placed, or starts, has not ended. -/
theorem live_of_unplaced {x : MachineState} (h : unplaced x = true ∨ x = .starting) : terminal x = false := by
  obtain hu | rfl := h
  · rcases unplaced_iff.mp hu with rfl | rfl <;> rfl
  · rfl

/-- A write that respects the end of a machine. -/
structure Respects (m m' : MachineRow) : Prop where
  id : m'.id = m.id
  ended : terminal m.state = true →
    m'.state = m.state ∧ m'.hostMachineId = m.hostMachineId ∧ m'.expiresAt = m.expiresAt
  ready : (terminal m.state = true → m.ready = false) → terminal m'.state = true → m'.ready = false

namespace Respects

variable {m m' : MachineRow}

theorem refl (m : MachineRow) : Respects m m := ⟨rfl, fun _ => ⟨rfl, rfl, rfl⟩, fun h => h⟩

theorem same (hid : m'.id = m.id) (hs : m'.state = m.state) (hr : m'.ready = m.ready)
    (hh : m'.hostMachineId = m.hostMachineId) (he : m'.expiresAt = m.expiresAt) : Respects m m' :=
  ⟨hid, fun _ => ⟨hs, hh, he⟩, fun h ht => hr.trans (h (hs ▸ ht))⟩

/-- The write of a machine that has not ended. -/
theorem live (hid : m'.id = m.id) (hlive : terminal m.state = false)
    (hr : terminal m'.state = true → m'.ready = false) : Respects m m' :=
  ⟨hid, fun ht => absurd ht (Bool.eq_false_iff.mp hlive), fun _ => hr⟩

end Respects

/-- What the rows of the machines are after a write. -/
structure Absorbs (rows rows' : List MachineRow) : Prop where
  keys : (rows'.map (·.id)).Nodup
  kept : ∀ m ∈ rows, ∃ m' ∈ rows', Respects m m'
  from_old : ∀ m' ∈ rows', m'.ready = false ∨ ∃ m ∈ rows, Respects m m'

section Absorbs

variable {rows : List MachineRow} (hn : (rows.map (·.id)).Nodup)

include hn

theorem Absorbs.refl : Absorbs rows rows :=
  ⟨hn, fun m hm => ⟨m, hm, .refl m⟩, fun m hm => .inr ⟨m, hm, .refl m⟩⟩

theorem absorbs_write {p : MachineRow → Bool} {f : MachineRow → MachineRow}
    (hw : ∀ m ∈ rows, p m = true → Respects m (f m)) : Absorbs rows (updateWhere p f rows) := by
  have hrow : ∀ m ∈ rows, Respects m (if p m then f m else m) := by
    intro m hm
    split_ifs with hp
    exacts [hw m hm hp, .refl m]
  refine ⟨?_, fun m hm => ⟨_, List.mem_map_of_mem hm, hrow m hm⟩, fun m' hm' => ?_⟩
  · have hid : (updateWhere p f rows).map (·.id) = rows.map (·.id) := by
      rw [updateWhere, List.map_map]
      exact List.map_congr_left fun m hm => (hrow m hm).id
    rw [hid]
    exact hn
  · obtain ⟨m, hm, rfl⟩ := mem_updateWhere.mp hm'
    exact .inr ⟨m, hm, hrow m hm⟩

/-- New rows, which are not ready. -/
theorem absorbs_append {new : List MachineRow} (hnew : (new.map (·.id)).Nodup)
    (hfresh : ∀ x ∈ new, ∀ m ∈ rows, m.id ≠ x.id) (hready : ∀ x ∈ new, x.ready = false) :
    Absorbs rows (rows ++ new) := by
  refine ⟨?_, fun m hm => ⟨m, List.mem_append_left _ hm, .refl m⟩, fun m' hm' => ?_⟩
  · rw [List.map_append, List.nodup_append]
    refine ⟨hn, hnew, fun a ha b hb hab => ?_⟩
    obtain ⟨m, hm, rfl⟩ := List.mem_map.mp ha
    obtain ⟨x, hx, rfl⟩ := List.mem_map.mp hb
    exact hfresh x hx m hm hab
  · obtain hm' | hm' := List.mem_append.mp hm'
    · exact .inr ⟨m', hm', .refl m'⟩
    · exact .inl (hready m' hm')

end Absorbs

/-! ### Transactions -/

section Transactions

variable {db : Db} (hn : (db.machines.map (·.id)).Nodup)

include hn

variable {m : MachineRow} {db' : Db} {policy : BillingAdmissionPolicy}

/-- The write of a row that a lookup has found. -/
theorem absorbs_setMachine {id : String} {m' : MachineRow} (hm : db.machine? id = some m) (h : Respects m m') :
    Absorbs db.machines (db.setMachine m').machines := by
  obtain ⟨hmem, -⟩ := (find?_key_iff hn).mp hm
  refine absorbs_write hn fun x hx hid => ?_
  obtain rfl : x = m := key_inj hn hx hmem ((of_decide_eq_true hid).trans h.id)
  exact h

omit hn in
theorem keysTaken_fresh (hm : db.keysTaken m = false) : ∀ x ∈ db.machines, x.id ≠ m.id := by
  simp only [Db.keysTaken, List.any_eq_false, Bool.or_eq_true, not_or, decide_eq_true_eq] at hm
  exact fun x hx => (hm x hx).1.1

theorem claimCreate_absorbs (now : ℤ) (id token : String) :
    Absorbs db.machines (db.claimCreate now id token).1.machines := by
  unfold Db.claimCreate
  split
  · exact .refl hn
  · next m hm =>
    split_ifs
    · exact absorbs_setMachine hn hm (.same rfl rfl rfl rfl rfl)
    · exact .refl hn

theorem releaseCreateClaim_absorbs (id token : String) :
    Absorbs db.machines (db.releaseCreateClaim id token).machines := by
  unfold Db.releaseCreateClaim
  split
  · exact .refl hn
  · next m hm =>
    split_ifs
    · exact absorbs_setMachine hn hm (.same rfl rfl rfl rfl rfl)
    · exact .refl hn

theorem failCreate_absorbs (now : ℤ) (id token : String) (failure : Failure) :
    Absorbs db.machines (db.failCreate now id token failure).1.machines := by
  unfold Db.failCreate
  split
  · exact .refl hn
  · next m hm =>
    split_ifs with hc
    · exact absorbs_setMachine hn hm (.live rfl (live_of_unplaced hc.2) fun _ => rfl)
    · exact .refl hn

theorem assign_absorbs {now : ℤ} {id hostId : String} (h : db.assign now id hostId = some db') :
    Absorbs db.machines db'.machines := by
  unfold Db.assign at h
  split at h
  · cases h
  · next m hm =>
    split_ifs at h with hu
    cases h
    exact absorbs_setMachine hn hm (.live rfl (live_of_unplaced (.inl hu)) nofun)

theorem reserve_absorbs {times : Times} {request : ScheduleRequest} {selected : Option String}
    {reservation : Reservation} (h : reserve policy db times request selected = .ok (db', reservation)) :
    Absorbs db.machines db'.machines := by
  obtain ⟨-, host, m, -, -, hm, hu, rfl⟩ := reserve_ok h
  exact absorbs_setMachine hn hm (.live rfl (live_of_unplaced (.inl hu)) nofun)

theorem release_absorbs (greatest : ℤ → ℤ) (now : ℤ) (hostId : String) (resources : Resources) (id : String) :
    Absorbs db.machines (release greatest db now hostId resources id).machines := by
  unfold release
  split
  · exact .refl hn
  · next m hm =>
    split_ifs
    · exact .refl hn
    · exact absorbs_setMachine hn hm (.same rfl rfl rfl rfl rfl)

theorem observeHost_absorbs (now : ℤ) (id : String) (hostMachine : HostMachine) :
    Absorbs db.machines (db.observeHost now id hostMachine).machines := by
  unfold Db.observeHost
  split
  · exact .refl hn
  · next m hm =>
    split_ifs with hs
    · refine absorbs_setMachine hn hm (.live rfl (hs ▸ rfl) fun ht => ?_)
      cases hr : hostMachine.ready <;> simp [MachineRow.observed, hr, terminal] at ht
    · exact .refl hn

/-- A transition from states that are not ends. -/
theorem transition_absorbs (now : ℤ) (id : String) {source : List MachineState}
    (hsource : ∀ s ∈ source, terminal s = false) {target : MachineState} (htarget : target ≠ .running) :
    Absorbs db.machines (db.transition now id source target).1.machines := by
  unfold Db.transition
  split
  · exact .refl hn
  · next m hm =>
    split_ifs with hs
    · refine absorbs_setMachine hn hm (.live rfl (hsource _ hs) fun _ => ?_)
      simp [MachineRow.moved, htarget]
    · exact .refl hn

theorem completeExtend_absorbs {operationId : ℕ} {machineId organizationId : String} {resultExpiresAt recorded : ℤ}
    (h : db.completeExtend operationId machineId organizationId resultExpiresAt = some (db', recorded)) :
    Absorbs db.machines db'.machines := by
  unfold Db.completeExtend at h
  split at h
  · next m o hm ho =>
    split_ifs at h with horg ht
    · cases h
      exact .refl hn
    · cases h
      have hlive : terminal m.state = false := Bool.eq_false_iff.mpr ht
      refine absorbs_setMachine hn hm (.live rfl hlive fun hended => ?_)
      exact absurd hended ht
  · cases h

theorem finishMachine_absorbs (now : ℤ) (row : MachineRow) (target : MachineState) (lossCutoff : Option ℤ) :
    Absorbs db.machines (db.finishMachine now row target lossCutoff).1.machines := by
  unfold Db.finishMachine
  split
  · exact .refl hn
  · next m hm =>
    split_ifs with hc
    · exact absorbs_setMachine hn hm (.live rfl (Bool.eq_false_iff.mpr hc.2) fun _ => rfl)
    · exact .refl hn

theorem markObserved_absorbs (now : ℤ) (row : ReconcileRow) (observed : HostMachine) :
    Absorbs db.machines (db.markObserved now row observed).machines := by
  unfold Db.markObserved
  split
  · exact .refl hn
  · next m hm =>
    split_ifs with hc hr hs
    · refine absorbs_setMachine hn hm (.live rfl (hr ▸ rfl) fun ht => ?_)
      rw [show ({ m with ready := observed.ready } : MachineRow).state = .running from hr] at ht
      cases ht
    · refine absorbs_setMachine hn hm (.live rfl (hs ▸ rfl) fun ht => ?_)
      cases hready : observed.ready <;> simp [MachineRow.started, hready, terminal] at ht
    · exact .refl hn
    · exact .refl hn

theorem persistRecovered_absorbs (now : ℤ) (row : MachineRow) (recovered : HostMachine) :
    Absorbs db.machines (db.persistRecovered now row recovered).1.machines := by
  unfold Db.persistRecovered
  split
  · exact .refl hn
  · next m hm =>
    split_ifs with hc
    · have hlive : terminal m.state = false := by
        rcases hc.2.1 with hs | hs | hs <;> rw [hs] <;> rfl
      refine absorbs_setMachine hn hm (.live rfl hlive fun ht => ?_)
      exact absurd ht (Bool.eq_false_iff.mp hlive)
    · exact .refl hn

theorem markLost_absorbs (now : ℤ) (lossCutoff : String → Option ℤ) :
    Absorbs db.machines (db.markLost now lossCutoff).machines := by
  refine absorbs_write hn fun m _ hp => .live rfl ?_ fun _ => rfl
  simp only [Db.onStaleHost, Bool.and_eq_true, Bool.not_eq_true'] at hp
  exact hp.1.1

theorem insertRequested_absorbs (hready : m.ready = false) (h : db.insertRequested m = some db') :
    Absorbs db.machines db'.machines := by
  unfold Db.insertRequested at h
  split_ifs at h with hc
  cases h
  simp only [Bool.or_eq_true, not_or, Bool.not_eq_true] at hc
  refine absorbs_append hn (List.nodup_singleton _) (fun x hx => ?_) fun x hx => ?_
  all_goals obtain rfl := List.mem_singleton.mp hx
  · exact keysTaken_fresh hc.1.1
  · exact hready

/-! Forks. -/

theorem beginFork_absorbs {times : Times} {request : ForkRequest} {r : Option (ForkOperation × Bool)}
    (h : db.beginFork policy times request = .ok (db', r)) :
    Absorbs db.machines db'.machines := by
  obtain ⟨rfl, -⟩ | ⟨_, _, source, _, children, -, -, -, -, -, -, -, -, -, -, -, -, hchildren, hkeys, rfl⟩ :=
    beginFork_ok h
  · exact .refl hn
  · simp only [Db.forkInsertable, Bool.and_eq_true, decide_eq_true_eq, List.all_eq_true, Bool.not_eq_true'] at hkeys
    refine absorbs_append hn ?_ (fun x hx => keysTaken_fresh (hkeys.2 x hx)) fun x hx => ?_
    · rw [hchildren, children_ids]
      exact hkeys.1.1.2
    · rw [hchildren] at hx
      obtain ⟨_, _, rfl⟩ := List.mem_mapIdx.mp hx
      rfl

theorem completeFork_absorbs {now : ℤ} {operationId : String} {observed : List HostMachine}
    (h : db.completeFork now operationId observed = some db') : Absorbs db.machines db'.machines := by
  unfold Db.completeFork at h
  split at h
  · cases h
  · next o ho =>
    by_cases hp : o.state ≠ .pending ∨ o.cleanupRequestedAt.isSome
    · rw [if_pos hp] at h
      cases h
      exact .refl hn
    rw [if_neg hp] at h
    split_ifs at h with hbatch hstart
    simp only [List.all_eq_true, List.mem_filter, decide_eq_true_eq] at hstart
    have hw : Absorbs db.machines (updateWhere (Db.childOf operationId)
        (Db.completeChild now (observed.all fun o => o.ready && decide (o.status = .running)) observed)
        db.machines) := by
      refine absorbs_write hn fun m hm hc => ?_
      have hlive : terminal m.state = false := by
        rw [hstart m ⟨hm, hc⟩]
        rfl
      unfold Db.completeChild
      split
      · exact .refl m
      · refine .live rfl hlive fun ht => ?_
        cases hready : observed.all fun o => o.ready && decide (o.status = .running) with
        | true =>
          simp only [hready] at ht
          cases ht
        | false => rfl
    rw [← Option.some.inj h]
    split_ifs
    exacts [hw, hw]

theorem settleFork_absorbs (greatest : ℤ → ℤ) (now : ℤ) (o : ForkOperation) (failure : Failure) :
    Absorbs db.machines (db.settleFork greatest now o failure).machines := by
  refine absorbs_write hn fun m _ hc => .live rfl ?_ fun _ => rfl
  have hs : liveState m.state = true := (Bool.and_eq_true_iff.mp hc).2
  cases hstate : m.state <;> rw [hstate] at hs <;> first | rfl | cases hs

end Transactions

/-! ### Steps -/

/-- The row that a call is going to insert is not ready. -/
def Call.Unready : Call → Prop
  | .insert _ m => m.ready = false
  | _ => True

theorem resume_unready (input : CreateMachine) (m : MachineRow) : (resume input m).Unready := by
  unfold resume
  split_ifs <;> trivial

theorem judge_unready (row : ReconcileRow) (id : String) (o : Option HostMachine) : (judge row id o).Unready := by
  unfold judge
  repeat' split
  all_goals trivial

theorem hostCreate_unready {s : Site} {hostId : String} {m : MachineRow} {outcome : Outcome} {answer : HostMachine}
    {created : HostMachine → Call} {refused : Call} (hc : ∀ x, (created x).Unready) (hr : refused.Unready) :
    (s.hostCreate hostId m outcome answer created refused).2.Unready := by
  obtain ⟨-, h | h | ⟨x, h⟩⟩ := s.hostCreate_cases hostId m outcome answer created refused
  all_goals rw [h]
  exacts [trivial, hr, hc x]

theorem hostDestroy_unready {s : Site} {hostId id : String} {outcome : Outcome} {done failed : Call}
    (hd : done.Unready) (hf : failed.Unready) : (s.hostDestroy hostId id outcome done failed).2.Unready := by
  simp only [Site.hostDestroy]
  split_ifs
  exacts [hd, hf]

section Steps

variable {policy : BillingAdmissionPolicy} {greatest : ℤ → ℤ} {now : ℤ}

theorem next_unready {s s' : Site} {c c' : Call} {a : Answer} (h : s.next policy greatest now c a = some (s', c')) :
    c'.Unready := by
  cases c with
  | findExisting =>
    cases a <;> simp only [Site.next] at h <;> try cases h
    split at h <;> cases h
    exacts [resume_unready _ _, rfl]
  | findRaced =>
    cases a <;> simp only [Site.next] at h <;> try cases h
    split at h <;> cases h
    exacts [resume_unready _ _, trivial]
  | hostCreate =>
    cases a <;> simp only [Site.next] at h <;> try cases h
    exact hostCreate_unready (fun _ => trivial) trivial
  | recover =>
    cases a <;> simp only [Site.next] at h <;> try cases h
    split at h <;> cases h
    exact hostCreate_unready (fun _ => trivial) trivial
  | persist =>
    cases a <;> simp only [Site.next] at h <;> try cases h
    split at h <;> cases h
    · trivial
    · split_ifs
      exacts [trivial, judge_unready _ _ _]
  | hostGet =>
    cases a <;> simp only [Site.next] at h <;> try cases h
    all_goals
      split at h
      · split_ifs at h
        cases h
        exact judge_unready _ _ _
      · cases h
  | compensate =>
    cases a <;> simp only [Site.next] at h <;> try cases h
    exact hostDestroy_unready trivial trivial
  | destroyUnrecorded =>
    cases a <;> simp only [Site.next] at h <;> try cases h
    split at h <;> cases h
    exact hostDestroy_unready trivial trivial
  | _ =>
    cases a <;> simp only [Site.next] at h <;> try cases h
    all_goals
      repeat' split at h
      all_goals try cases h
      all_goals first | trivial | split <;> trivial

end Steps

/-! ### The system -/

/-- A step of the system, or `assign`. -/
inductive Write
  | act (a : Act)
  | assign (machineId hostId : String)

def World.write (policy : BillingAdmissionPolicy) (greatest : ℤ → ℤ) (w : World) : Write → Option World
  | .act a => w.step policy greatest a
  | .assign machineId hostId => (w.db.assign w.now machineId hostId).map w.withDb

def WriteStep (policy : BillingAdmissionPolicy) (greatest : ℤ → ℤ) (w : World) (x : Write) (w' : World) : Prop :=
  w.write policy greatest x = some w'

/-- Rows with different ids, of which those that have ended are not ready. -/
structure Settled (w : World) : Prop where
  keys : (w.db.machines.map (·.id)).Nodup
  ended : ∀ m ∈ w.db.machines, terminal m.state = true → m.ready = false
  calls : ∀ c ∈ w.calls, c.Unready

theorem releaseCall_unready (m : MachineRow) : (releaseCall m).Unready := by
  unfold releaseCall
  split <;> trivial

theorem reconcileCall_unready (m : MachineRow) (now : ℤ) : (reconcileCall m now).Unready := by
  unfold reconcileCall reconcileKnown
  dsimp only
  repeat' split
  all_goals trivial

theorem starts_unready {w : World} {a : Act} {c : Call} (hc : c ∈ w.starts a) : c.Unready := by
  cases a with
  | create | destroy =>
    obtain rfl := List.mem_singleton.mp hc
    trivial
  | markLost | selectLeaked =>
    obtain ⟨m, -, rfl⟩ := List.mem_map.mp hc
    exact releaseCall_unready m
  | claimReconcile =>
    obtain ⟨m, -, rfl⟩ := List.mem_map.mp hc
    exact reconcileCall_unready m w.now
  | selectExpired =>
    obtain ⟨m, -, rfl⟩ := List.mem_map.mp hc
    trivial
  | _ => cases hc

section System

variable {policy : BillingAdmissionPolicy} {greatest : ℤ → ℤ} {w w' : World} (h : Settled w)

include h

theorem Settled.absorbs {a : Act} {db' : Db} (hw : Written policy greatest w a db') :
    Absorbs w.db.machines db'.machines := by
  have hn := h.keys
  cases hw with
  | same => exact .refl hn
  | around hm => rw [hm]; exact .refl hn
  | @insert _ _ _ m _ hc hi =>
    have hready : m.ready = false := h.calls _ (List.mem_of_getElem? hc)
    exact @insertRequested_absorbs w.db hn { m with createdAt := w.now } _ hready hi
  | claimCreate id token => exact claimCreate_absorbs hn w.now id token
  | releaseCreateClaim id token => exact releaseCreateClaim_absorbs hn id token
  | failCreate id token failure => exact failCreate_absorbs hn w.now id token failure
  | reserve hr => exact reserve_absorbs hn hr
  | observeHost id hostMachine => exact observeHost_absorbs hn w.now id hostMachine
  | transition id hsource htarget =>
    refine transition_absorbs hn w.now id hsource ?_
    rcases htarget with rfl | rfl <;> exact nofun
  | finishMachine row target lossCutoff => exact finishMachine_absorbs hn w.now row target lossCutoff
  | markObserved row observed => exact markObserved_absorbs hn w.now row observed
  | persistRecovered row recovered => exact persistRecovered_absorbs hn w.now row recovered
  | release hostId resources id => exact release_absorbs hn greatest w.now hostId resources id
  | usageFinalized hm => exact absorbs_setMachine hn hm (.same rfl rfl rfl rfl rfl)
  | markLost lossCutoff => exact markLost_absorbs hn w.now lossCutoff
  | beginExtend hx => rw [(beginExtend_tables hx).1]; exact .refl hn
  | completeExtend hx => exact completeExtend_absorbs hn hx
  | beginFork hx => exact beginFork_absorbs hn hx
  | completeFork hx => exact completeFork_absorbs hn hx
  | failFork hx =>
    unfold Db.failFork at hx
    split at hx
    · cases hx
    · split_ifs at hx <;> cases hx
      exacts [.refl hn, settleFork_absorbs hn greatest w.now _ _]
  | requestForkCleanup hx =>
    unfold Db.requestForkCleanup at hx
    split at hx
    · cases hx
    · split_ifs at hx <;> cases hx
      all_goals exact .refl hn
  | releaseForkCleanupClaim operationId token =>
    unfold Db.releaseForkCleanupClaim
    split
    · exact .refl hn
    · split_ifs
      all_goals exact .refl hn
  | completeForkCleanup hx =>
    unfold Db.completeForkCleanup at hx
    split at hx
    · cases hx
    · split_ifs at hx
      · cases hx
        exact .refl hn
      · split at hx <;> cases hx
        exacts [.refl hn, settleFork_absorbs hn greatest w.now _ _]

/-- What a write leaves settled. -/
theorem Settled.after (ha : Absorbs w.db.machines w'.db.machines) (hcalls : ∀ c ∈ w'.calls, c.Unready) :
    Settled w' := by
  refine ⟨ha.keys, fun m' hm' ht => ?_, hcalls⟩
  obtain hready | ⟨m, hm, hr⟩ := ha.from_old m' hm'
  · exact hready
  · exact hr.ready (h.ended m hm) ht

theorem Settled.step {x : Write} (hs : WriteStep policy greatest w x w') :
    Settled w' ∧ Absorbs w.db.machines w'.db.machines := by
  cases x with
  | assign id hostId =>
    obtain ⟨db', hassign, rfl⟩ := Option.map_eq_some_iff.mp hs
    have ha := assign_absorbs h.keys hassign
    exact ⟨h.after ha h.calls, ha⟩
  | act a =>
    have ha := h.absorbs (step_written hs)
    refine ⟨h.after ha fun c hc => ?_, ha⟩
    obtain ⟨i, answer, c₀, site, c', -, -, hn, rfl⟩ | ⟨i, -, rfl⟩ | ⟨hcalls, -⟩ := step_calls hs
    · obtain hc | rfl := List.mem_or_eq_of_mem_set hc
      exacts [h.calls c hc, next_unready hn]
    · obtain hc | rfl := List.mem_or_eq_of_mem_set hc
      exacts [h.calls c hc, trivial]
    · rw [hcalls] at hc
      obtain hc | hc := List.mem_append.mp hc
      exacts [h.calls c hc, starts_unready hc]

/-- An ended machine, in every later state. -/
theorem Settled.run {xs : List Write} (hr : Run (WriteStep policy greatest) w xs w') {m : MachineRow}
    (hm : m ∈ w.db.machines) (ht : terminal m.state = true) :
    ∃ m' ∈ w'.db.machines, m'.id = m.id ∧ m'.state = m.state ∧ m'.ready = false ∧
      m'.hostMachineId = m.hostMachineId ∧ m'.expiresAt = m.expiresAt := by
  induction hr generalizing m with
  | nil w => exact ⟨m, hm, rfl, rfl, h.ended m hm ht, rfl, rfl⟩
  | cons hs _ ih =>
    obtain ⟨hnext, ha⟩ := h.step hs
    obtain ⟨m₁, hm₁, hrow⟩ := ha.kept m hm
    obtain ⟨hstate, hhost, hexpires⟩ := hrow.ended ht
    obtain ⟨m', hm', hid, hstate', hready, hhost', hexpires'⟩ := ih hnext hm₁ (hstate ▸ ht)
    exact ⟨m', hm', hid.trans hrow.id, hstate'.trans hstate, hready, hhost'.trans hhost,
      hexpires'.trans hexpires⟩

end System

theorem Settled.empty (now : ℤ) : Settled (World.empty now) := by
  refine ⟨List.nodup_nil, ?_, ?_⟩
  all_goals exact fun _ hx => by cases hx

/-- **Terminal machine states are absorbing.** -/
theorem terminal_absorbing {policy : BillingAdmissionPolicy} {xs xs' : List Write} {now : ℤ} {w w' : World}
    (h : Run (WriteStep policy greatest0) (World.empty now) xs w) {m : MachineRow} (hm : m ∈ w.db.machines)
    (ht : terminal m.state = true) (h' : Run (WriteStep policy greatest0) w xs' w') :
    ∃ m', w'.db.machine? m.id = some m' ∧ m'.state = m.state ∧ m'.ready = false ∧
      m'.hostMachineId = m.hostMachineId ∧ m'.expiresAt = m.expiresAt := by
  have hsettled : Settled w := h.invariant (fun _ _ _ hw hs => (hw.step hs).1) (.empty now)
  have hsettled' : Settled w' := h'.invariant (fun _ _ _ hw hs => (hw.step hs).1) hsettled
  obtain ⟨m', hm', hid, hrest⟩ := hsettled.run h' hm ht
  exact ⟨m', (find?_key_iff hsettled'.keys).mpr ⟨hm', hid⟩, hrest⟩

/-- After the run in which a host refuses a machine, it is asked to stop that machine. -/
theorem terminal_absorbing_refused :
    ∃ w w' m, Run (WriteStep freeOfCharge greatest0) (World.empty 0) (refusedAndPlaced.map .act) w ∧
      Run (WriteStep freeOfCharge greatest0) w [.act (.destroy "a" "o" none), .act (.call 2 .none)] w' ∧
      m ∈ w.db.machines ∧ m.id = "a" ∧ m.state = .failed ∧
      ∃ m', w'.db.machine? m.id = some m' ∧ m'.state = m.state ∧ m'.ready = false ∧
        m'.hostMachineId = m.hostMachineId ∧ m'.expiresAt = m.expiresAt := by
  have hfinal : ((exec (World.write freeOfCharge greatest0) (World.empty 0) (refusedAndPlaced.map .act)).bind
      fun w => (exec (World.write freeOfCharge greatest0) w
        [.act (.destroy "a" "o" none), .act (.call 2 .none)]).bind fun _ =>
          (w.db.machine? "a").map (·.state)) = some .failed := by
    decide +kernel
  obtain ⟨w, hw, hfinal⟩ := Option.bind_eq_some_iff.mp hfinal
  obtain ⟨w', hw', hfinal⟩ := Option.bind_eq_some_iff.mp hfinal
  obtain ⟨m, hm, hstate⟩ := Option.map_eq_some_iff.mp hfinal
  have hmem : m ∈ w.db.machines := List.mem_of_find?_eq_some hm
  have hid : m.id = "a" := by simpa using List.find?_some hm
  have ht : terminal m.state = true := by rw [hstate]; rfl
  have hrun : Run (WriteStep freeOfCharge greatest0) (World.empty 0) (refusedAndPlaced.map .act) w := .of_exec hw
  have hrun' : Run (WriteStep freeOfCharge greatest0) w _ w' := .of_exec hw'
  exact ⟨w, w', m, hrun, hrun', hmem, hid, hstate, terminal_absorbing hrun hmem ht hrun'⟩

end Nehemiah.Control
