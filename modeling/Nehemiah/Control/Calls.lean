import Nehemiah.Control.Balance

/-!
# What a call knows

A call goes on from what it has read, while other calls write the same rows.  What it may rely on is what
no transaction takes away (`Call.Holds`): a call that is going to release knows the host and the resources
of the row, because the row had its host when the call read it, or because the request that it serves has
the hash of the row.  Every step of the system has one of the effects (`Sound.effect`), and every call
knows afterwards what it has to know.
-/

namespace Nehemiah.Control

open Billing (MachineState HostState HostDesiredState CredentialStatus)
open Lib

/-! ### Knowledge of a machine -/

/-- How far a machine is, at least. -/
inductive Progress
  | any | stopping | ended

def Progress.holds : Progress → MachineState → Prop
  | .any, _ => True
  | .stopping, s => s = .stopping ∨ terminal s = true
  | .ended, s => terminal s = true

variable {m : MachineRow} {id : String} {p : Progress}

theorem Kept.progress {m' : MachineRow} (h : Kept m m') (p : Progress) (hp : p.holds m.state) : p.holds m'.state := by
  have hended : terminal m.state = true → terminal m'.state = true := fun ht => by rw [h.ended ht]; exact ht
  cases p with
  | any => trivial
  | stopping =>
    obtain hs | ht := hp
    · exact h.stopping hs
    · exact .inr (hended ht)
  | ended => exact hended hp

/-- There is a row with these resources, on this host if one is given, and free. -/
def Db.Knows (db : Db) (id : String) (resources : Resources) (hostId : Option String) (p : Progress) : Prop :=
  ∃ m ∈ db.machines, m.id = id ∧ m.resources = resources ∧ (∀ h, hostId = some h → m.hostId = some h) ∧
    db.Free m ∧ p.holds m.state

variable {db : Db} {resources : Resources} {hostId : Option String}

theorem Db.Knows.evolves {db' : Db} (he : Evolves db db') (h : db.Knows id resources hostId p) :
    db'.Knows id resources hostId p := by
  obtain ⟨m, hm, hid, hres, hhost, hfree, hp⟩ := h
  obtain ⟨m', hm', hk⟩ := he.machines m hm
  exact ⟨m', hm', hk.id.trans hid, hk.resources.trans hres, fun x hx => hk.hostId x (hhost x hx),
    he.free hm hk hfree, hk.progress p hp⟩

theorem Db.Knows.any_host (h : db.Knows id resources hostId p) : db.Knows id resources none .any := by
  obtain ⟨m, hm, hid, hres, -, hfree, -⟩ := h
  exact ⟨m, hm, hid, hres, nofun, hfree, trivial⟩

theorem Db.Knows.free (hk : Keyed db) (h : db.Knows id resources hostId p) :
    ∀ m, db.machine? id = some m → db.Free m := by
  obtain ⟨m, hm, hid, -, -, hfree, -⟩ := h
  intro x hx
  rw [hk.machine?_iff.mpr ⟨hm, hid⟩] at hx
  exact Option.some.inj hx ▸ hfree

/-- What is known of a machine is known of the row that a lookup finds, and its state with it. -/
theorem Db.Knows.found (hk : Keyed db) {q : Progress} (h : db.Knows id resources hostId p)
    (hm : db.machine? id = some m) (hs : q.holds m.state) : db.Knows id resources hostId q := by
  obtain ⟨hmem, hid⟩ := hk.machine?_iff.mp hm
  obtain ⟨x, hx, hxid, hres, hhost, hfree, -⟩ := h
  obtain rfl : x = m := key_inj hk.machines hx hmem (hxid.trans hid.symm)
  exact ⟨x, hx, hxid, hres, hhost, hfree, hs⟩

/-- There is a row of this organization and this project. -/
def Db.Belongs (db : Db) (id organizationId projectId : String) : Prop :=
  ∃ m ∈ db.machines, m.id = id ∧ m.organizationId = organizationId ∧ m.projectId = projectId

theorem Db.Belongs.evolves {db' : Db} (he : Evolves db db') {organizationId projectId : String}
    (h : db.Belongs id organizationId projectId) : db'.Belongs id organizationId projectId := by
  obtain ⟨m, hm, hid, horg, hproject⟩ := h
  obtain ⟨m', hm', hk⟩ := he.machines m hm
  exact ⟨m', hm', hk.id.trans hid, hk.organizationId.trans horg, hk.projectId.trans hproject⟩

/-- What a call in progress knows. -/
def Call.Holds (db : Db) : Call → Prop
  | .insert input m => ∃ id leaseId now time, m = requestedRow input id leaseId now time
  | .claim input m | .reserve input m _ =>
    db.Knows m.id input.resources none .any ∧ db.Belongs m.id input.organizationId input.projectId
  | .failCreate input m _ none _ => db.Knows m.id input.resources none .any
  | .hostCreate input m _ r | .observe input m _ r _ | .compensate input m _ r _
  | .failCreate input m _ (some r) _ => db.Knows m.id input.resources (some r.hostId) .any
  | .stopCompensated m _ => ∃ resources, db.Knows m.id resources none .any
  | .destroyBegin _ m => db.Knows m.id m.resources m.hostId .any
  | .destroyHost m | .destroyEnd m => db.Knows m.id m.resources m.hostId .stopping
  | .recover row | .persist row _ | .destroyUnrecorded row _ | .hostGet row _ | .markObserved row _ =>
    db.Knows row.machine.id row.machine.resources row.machine.hostId .any
  | .reconcileDestroy row _ target | .finish row target =>
    terminal target = true ∧ db.Knows row.machine.id row.machine.resources row.machine.hostId .any
  | .release hostId resources machineId => db.Knows machineId resources (some hostId) .ended
  | .findExisting _ | .findRaced _ | .releaseClaim _ _ | .destroyFind _ _ _ _ | .returned => True

theorem Call.Holds.evolves {db' : Db} (he : Evolves db db') {c : Call} (h : c.Holds db) : c.Holds db' := by
  cases c with
  | findExisting | findRaced | releaseClaim | destroyFind | returned => trivial
  | insert => exact h
  | failCreate _ _ _ r _ =>
    cases r with
    | none => exact Db.Knows.evolves he h
    | some => exact Db.Knows.evolves he h
  | stopCompensated => exact h.imp fun _ => Db.Knows.evolves he
  | reconcileDestroy | finish => exact ⟨h.1, Db.Knows.evolves he h.2⟩
  | claim | reserve => exact ⟨Db.Knows.evolves he h.1, Db.Belongs.evolves he h.2⟩
  | hostCreate | observe | compensate | destroyBegin | destroyHost | destroyEnd | recover
  | persist | destroyUnrecorded | hostGet | markObserved | release => exact Db.Knows.evolves he h

/-! ### Steps of calls -/

/-- What a step of a call has to give. -/
structure Goes (policy : BillingAdmissionPolicy) (now : ℤ) (db : Db) (a : Act) (db' : Db) (c' : Call) : Prop where
  effect : Effect policy now db a db'
  holds : c'.Holds db'

namespace Goes

variable {policy : BillingAdmissionPolicy} {now : ℤ} {a : Act} {db db' : Db} {c' : Call}

theorem stay (hc : c'.Holds db) : Goes policy now db a db c' := ⟨.refl, hc⟩

theorem quiet (hw : QuietWrite db db') (hc : c'.Holds db') : Goes policy now db a db' c' := ⟨.quiet hw, hc⟩

end Goes

theorem Site.hostCreate_cases (s : Site) (hostId : String) (m : MachineRow) (outcome : Outcome)
    (answer : HostMachine) (created : HostMachine → Call) (refused : Call) :
    (s.hostCreate hostId m outcome answer created refused).1.db = s.db ∧
      ((s.hostCreate hostId m outcome answer created refused).2 = .returned
        ∨ (s.hostCreate hostId m outcome answer created refused).2 = refused
        ∨ ∃ x, (s.hostCreate hostId m outcome answer created refused).2 = created x) := by
  refine ⟨rfl, ?_⟩
  simp only [Site.hostCreate]
  split
  · split_ifs
    exacts [.inr (.inr ⟨_, rfl⟩), .inl rfl]
  · exact .inl rfl
  · exact .inr (.inl rfl)

/-- The states that `destroy` stops. -/
theorem stoppable {x : MachineState} (hx : x ∈ [MachineState.requested, .placing, .starting, .running]) :
    terminal x = false ∧ (x = .stopping → terminal .stopping = true) := by
  simp only [List.mem_cons, List.not_mem_nil, or_false] at hx
  rcases hx with rfl | rfl | rfl | rfl <;> exact ⟨rfl, nofun⟩

theorem judge_holds {row : ReconcileRow}
    (hknows : db.Knows row.machine.id row.machine.resources row.machine.hostId .any) (hostMachineId : String)
    (observed : Option HostMachine) : (judge row hostMachineId observed).Holds db := by
  cases observed with
  | none =>
    simp only [judge]
    split_ifs
    exacts [⟨rfl, hknows⟩, ⟨rfl, hknows⟩, trivial]
  | some o =>
    simp only [judge]
    by_cases hd : ¬ o.describes hostMachineId row = true
    · rw [if_pos hd]
      trivial
    rw [if_neg hd]
    cases o.status with
    | stopped | failed | lost => exact ⟨rfl, hknows⟩
    | creating | running =>
      dsimp only
      split_ifs
      exacts [⟨rfl, hknows⟩, hknows]

section Steps

variable {policy : BillingAdmissionPolicy} {s : Site} {now : ℤ} {act : Act} (h : Balanced s.db)

include h

variable {input : CreateMachine} {m : MachineRow}

theorem resume_holds (hm : s.db.findByIdempotency input.organizationId input.projectId input.idempotencyKey = some m) :
    (resume input m).Holds s.db := by
  have hmem : m ∈ s.db.machines := List.mem_of_find?_eq_some hm
  unfold resume
  split_ifs with hhash hfail hstate
  · trivial
  · trivial
  · trivial
  · rw [not_not] at hhash
    obtain ⟨hres, hfork⟩ := h.hash m hmem _ hhash
    have hkey := List.find?_some hm
    simp only [Bool.and_eq_true, decide_eq_true_eq] at hkey
    exact ⟨⟨m, hmem, rfl, hres.symm, nofun, s.db.free_of_none hfork, trivial⟩, m, hmem, rfl, hkey.1⟩

omit h in
theorem insert_goes {db' : Db} (hc : (Call.insert input m).Holds s.db)
    (hi : s.db.insertRequested { m with createdAt := now } = some db') :
    Goes policy now s.db act db' (.claim input m) := by
  obtain ⟨id, leaseId, t, time, rfl⟩ := hc
  have hasked : Asked { requestedRow input id leaseId t time with createdAt := now } := by
    refine ⟨rfl, rfl, rfl, rfl, rfl, rfl, fun request hr => ?_⟩
    cases hr
    rfl
  refine ⟨.insert hasked hi, ?_⟩
  unfold Db.insertRequested at hi
  split_ifs at hi
  cases hi
  have hnew : { requestedRow input id leaseId t time with createdAt := now } ∈
      s.db.machines ++ [{ requestedRow input id leaseId t time with createdAt := now }] :=
    List.mem_append_right _ (List.mem_singleton_self _)
  exact ⟨⟨_, hnew, rfl, rfl, nofun, Db.free_of_none _ rfl, trivial⟩, _, hnew, rfl, rfl, rfl⟩

theorem reserve_goes {i : ℕ} {token : String} {times : Times} {selected : Option String} {db' : Db} {r : Reservation}
    (hc : (Call.reserve input m token).Holds s.db) (ht : times.ordered now = true)
    (hr : reserve policy s.db times (input.scheduleRequest m.id) selected = .ok (db', r)) :
    Goes policy now s.db (.call i (.placement times selected)) db' (.hostCreate input m token r) := by
  obtain ⟨-, host, row, -, -, hrow, hu, hdb⟩ := reserve_ok hr
  obtain ⟨⟨x, hx, hxid, hres, -, hfree, -⟩, ⟨y, hy, hyid, horg, hproject⟩⟩ := hc
  obtain ⟨hmem, hid⟩ := h.toKeyed.machine?_iff.mp hrow
  obtain rfl : x = row := key_inj h.machines hx hmem (hxid.trans hid.symm)
  obtain rfl : y = x := key_inj h.machines hy hx (hyid.trans hxid.symm)
  refine ⟨.reserve hrow horg hproject hres ht hr, y.place r.hostId times.began, ?_, hxid, hres, ?_, ?_, trivial⟩
  · rw [hdb]
    exact mem_updateWhere.mpr ⟨y, hx, if_pos (decide_eq_true rfl)⟩
  · intro z hz
    cases hz
    rfl
  · obtain ⟨-, -, hfork⟩ := h.unplaced y hx hu
    exact Db.free_of_none _ hfork

/-- A quiet write of one row, and what is known of the machine afterwards. -/
theorem quiet_knows {db' : Db} (hw : QuietWrite s.db db') {id : String} {resources : Resources} {hostId : Option String}
    {p q : Progress} (hknows : s.db.Knows id resources hostId p) {m' : MachineRow} (hm : s.db.machine? id = some m)
    (hdb : db' = s.db.setMachine m') (hid : m'.id = m.id) (hs : q.holds m'.state) :
    db'.Knows id resources hostId q := by
  refine Db.Knows.found (h.quietWrite hw).toKeyed (hknows.evolves hw.evolves) ?_ hs
  rw [hdb]
  exact machine?_setMachine hm hid

theorem failCreate_goes {token : String} {r : Reservation} {failure : Failure}
    (hc : (Call.failCreate input m token (some r) failure).Holds s.db)
    (hf : (s.db.failCreate now m.id token failure).2 = true) :
    Goes policy now s.db act (s.db.failCreate now m.id token failure).1 (.release r.hostId input.resources m.id) := by
  have hw := quiet_failCreate h.toKeyed (hc.free h.toKeyed) now token failure
  obtain ⟨x, hx, -, -, hdb⟩ := failCreate_true hf
  exact .quiet hw (quiet_knows h hw hc hx hdb rfl rfl)

theorem destroyBegin_goes {reaper : Bool} (hc : (Call.destroyBegin reaper m).Holds s.db)
    (ht : (s.db.transition now m.id [.requested, .placing, .starting, .running] .stopping).2 = true) :
    Goes policy now s.db act (s.db.transition now m.id [.requested, .placing, .starting, .running] .stopping).1
      (match m.hostId, m.hostMachineId with
      | some _, none => .returned
      | some _, some _ => .destroyHost m
      | none, _ => .destroyEnd m) := by
  have hw : QuietWrite s.db (s.db.transition now m.id _ .stopping).1 :=
    quiet_transition h.toKeyed (hc.free h.toKeyed) now (fun _ => stoppable) rfl
  obtain ⟨x, hx, -, hdb⟩ := transition_true ht
  have hknows := quiet_knows h hw hc hx hdb rfl (q := .stopping) (.inl rfl)
  refine .quiet hw ?_
  split
  exacts [trivial, hknows, hknows]

theorem destroyEnd_goes (hc : (Call.destroyEnd m).Holds s.db) :
    Goes policy now s.db act (s.db.transition now m.id [.stopping] .stopped).1
      (match m.hostId with
      | some hostId => .release hostId m.resources m.id
      | none => .returned) := by
  have hw : QuietWrite s.db (s.db.transition now m.id [.stopping] .stopped).1 :=
    quiet_transition h.toKeyed (hc.free h.toKeyed) now (fun _ _ => ⟨by simp_all [terminal], fun _ => rfl⟩) rfl
  have hended : (s.db.transition now m.id [.stopping] .stopped).1.Knows m.id m.resources m.hostId .ended := by
    cases ht : (s.db.transition now m.id [.stopping] .stopped).2 with
    | true =>
      obtain ⟨x, hx, -, hdb⟩ := transition_true ht
      exact quiet_knows h hw hc hx hdb rfl rfl
    | false =>
      -- the row was not stopping any more, so it had ended
      obtain ⟨x, hx, hxid, hres, hhost, hfree, hp⟩ := hc
      have hx' := h.toKeyed.machine?_iff.mpr ⟨hx, hxid⟩
      have hsame : s.db.transition now m.id [.stopping] .stopped = (s.db, false) ∧ x.state ≠ .stopping := by
        unfold Db.transition at ht ⊢
        rw [hx'] at ht ⊢
        dsimp only at ht ⊢
        split_ifs at ht ⊢ with hs
        exact ⟨rfl, fun e => hs (by simp [e])⟩
      rw [hsame.1]
      exact ⟨x, hx, hxid, hres, hhost, hfree, hp.resolve_left hsame.2⟩
  refine .quiet hw ?_
  split
  · next hostId hhost =>
    rw [hhost] at hended
    exact hended
  · trivial

theorem finish_goes {row : ReconcileRow} {target : MachineState} {lossCutoff : Option ℤ}
    (hc : (Call.finish row target).Holds s.db)
    (hf : (s.db.finishMachine now row.machine target lossCutoff).2 = true) {hostId : String}
    (hhost : row.machine.hostId = some hostId) :
    Goes policy now s.db act (s.db.finishMachine now row.machine target lossCutoff).1
      (.release hostId row.machine.resources row.machine.id) := by
  have hw := quiet_finishMachine h.toKeyed (hc.2.free h.toKeyed) now hc.1 lossCutoff
  obtain ⟨x, hx, -, -, hdb⟩ := finishMachine_true hf
  have hknows := quiet_knows h hw hc.2 hx hdb rfl (q := .ended) hc.1
  rw [hhost] at hknows
  exact .quiet hw hknows

theorem release_goes {hostId : String} {resources : Resources} {id : String}
    (hc : (Call.release hostId resources id).Holds s.db) :
    Goes policy now s.db act (release (fun n => n) s.db now hostId resources id) .returned := by
  obtain ⟨x, hx, hxid, rfl, hhost, -, hended⟩ := hc
  have hm := h.toKeyed.machine?_iff.mpr ⟨hx, hxid⟩
  exact ⟨.release hm (hhost hostId rfl) hended, trivial⟩

/-- **A step of a call** keeps the balance, and the call knows what it has to know for the next one. -/
theorem next_goes {s' : Site} {i : ℕ} {c c' : Call} {a : Answer} (hc : c.Holds s.db)
    (hn : s.next policy (fun n => n) now c a = some (s', c')) :
    Goes policy now s.db (.call i a) s'.db c' := by
  cases c with
  | findExisting input =>
    cases a <;> simp only [Site.next] at hn <;> try cases hn
    split at hn
    · next hm =>
      cases hn
      exact .stay (resume_holds h hm)
    · cases hn
      exact .stay ⟨_, _, _, _, rfl⟩
  | insert input m =>
    cases a <;> simp only [Site.next] at hn <;> try cases hn
    · split at hn
      · next hi =>
        cases hn
        exact insert_goes hc hi
      · cases hn
        exact .stay trivial
    · exact .stay trivial
  | findRaced input =>
    cases a <;> simp only [Site.next] at hn <;> try cases hn
    split at hn
    · next hm =>
      cases hn
      exact .stay (resume_holds h hm)
    · cases hn
      exact .stay trivial
  | claim input m =>
    cases a <;> simp only [Site.next] at hn <;> try cases hn
    next token =>
    have hw := quiet_claimCreate h.toKeyed now m.id token
    split at hn
    · next heq =>
      cases hn
      rw [heq] at hw
      exact .quiet hw (Call.Holds.evolves hw.evolves (c := .reserve input m token) hc)
    · cases hn
      exact .stay trivial
  | reserve input m token =>
    cases a <;> simp only [Site.next] at hn <;> try cases hn
    · split_ifs at hn with ht
      split at hn
      · next hr =>
        cases hn
        exact reserve_goes h hc ht hr
      · cases hn
        exact .stay hc.1
    · exact .stay hc.1
  | hostCreate input m token r =>
    cases a with
    | host outcome answer =>
      have hcases := s.hostCreate_cases r.hostId m outcome answer (.observe input m token r)
        (.failCreate input m token (some r) hostRequestFailed)
      simp only [Site.next] at hn
      rw [Option.some.inj hn] at hcases
      obtain ⟨hdb, rfl | rfl | ⟨x, rfl⟩⟩ := hcases
      all_goals rw [hdb]
      exacts [.stay trivial, .stay hc, .stay hc]
    | _ => cases hn
  | observe input m token r created =>
    cases a <;> simp only [Site.next] at hn <;> try cases hn
    · exact .quiet (quiet_observeHost h.toKeyed (hc.free h.toKeyed) now created) trivial
    · exact .stay hc
  | compensate input m token r created =>
    cases a <;> simp only [Site.next] at hn <;> try cases hn
    dsimp only
    split_ifs
    exacts [.stay hc, .stay ⟨_, Db.Knows.any_host hc⟩]
  | stopCompensated m token =>
    cases a <;> simp only [Site.next] at hn <;> try cases hn
    obtain ⟨resources, hc⟩ := hc
    refine .quiet (quiet_transition h.toKeyed (hc.free h.toKeyed) now (fun x hx => stoppable ?_) rfl) trivial
    exact List.mem_cons_of_mem _ (List.mem_cons_of_mem _ hx)
  | failCreate input m token r failure =>
    cases a <;> simp only [Site.next] at hn <;> try cases hn
    split at hn
    · next heq =>
      cases hn
      have hgoes := @failCreate_goes policy s now (.call i .none) h _ _ _ _ _ hc (by rw [heq])
      rwa [heq] at hgoes
    · next heq =>
      cases hn
      have hw := quiet_failCreate h.toKeyed (Db.Knows.free h.toKeyed hc) now token failure
      rw [heq] at hw
      exact .quiet hw trivial
    · cases hn
      exact .stay trivial
  | releaseClaim m token =>
    cases a <;> simp only [Site.next] at hn <;> try cases hn
    exact .quiet (quiet_releaseCreateClaim h.toKeyed m.id token) trivial
  | destroyFind reaper id organizationId projectId =>
    cases a <;> simp only [Site.next] at hn <;> try cases hn
    split at hn
    · cases hn
      exact .stay trivial
    · next m hm =>
      cases hn
      split_ifs
      · exact .stay trivial
      · obtain ⟨hmem, -, hfree⟩ := h.toKeyed.free_of_find hm
        exact .stay ⟨m, hmem, rfl, rfl, fun _ hx => hx, hfree, trivial⟩
  | destroyBegin reaper m =>
    cases a <;> simp only [Site.next] at hn <;> try cases hn
    split at hn
    · cases hn
      exact .stay trivial
    · next heq =>
      cases hn
      have hgoes := @destroyBegin_goes policy s now (.call i .none) h _ _ hc (by rw [heq])
      rwa [heq] at hgoes
  | destroyHost m =>
    cases a <;> simp only [Site.next] at hn <;> try cases hn
    split at hn
    · cases hn
      split_ifs
      exacts [.stay hc, .stay trivial]
    · cases hn
  | destroyEnd m =>
    cases a <;> simp only [Site.next] at hn <;> try cases hn
    exact destroyEnd_goes h hc
  | recover row =>
    cases a <;> simp only [Site.next] at hn <;> try cases hn
    next outcome answer =>
    split at hn
    · next hostId _ =>
      have hcases := s.hostCreate_cases hostId row.machine outcome answer (.persist row) .returned
      rw [Option.some.inj hn] at hcases
      obtain ⟨hdb, rfl | rfl | ⟨x, rfl⟩⟩ := hcases
      all_goals rw [hdb]
      exacts [.stay trivial, .stay trivial, .stay hc]
    · cases hn
  | persist row recovered =>
    cases a <;> simp only [Site.next] at hn <;> try cases hn
    have hw := quiet_persistRecovered h.toKeyed now row.machine recovered
    split at hn
    · cases hn
      exact .stay hc
    · next heq =>
      cases hn
      rw [heq] at hw
      have hknows := Db.Knows.evolves hw.evolves hc
      refine .quiet hw ?_
      split_ifs
      · exact ⟨rfl, hknows⟩
      · apply judge_holds
        exact hknows
  | destroyUnrecorded row recovered =>
    cases a <;> simp only [Site.next] at hn <;> try cases hn
    split at hn
    · cases hn
      dsimp only
      split_ifs
      all_goals exact .stay trivial
    · cases hn
  | hostGet row hostMachineId =>
    cases a <;> simp only [Site.next] at hn <;> try cases hn
    · split at hn
      · split_ifs at hn
        cases hn
        exact .stay (judge_holds hc _ _)
      · cases hn
    · split at hn
      · split_ifs at hn
        cases hn
        exact .stay (judge_holds hc _ _)
      · cases hn
  | markObserved row observed =>
    cases a <;> simp only [Site.next] at hn <;> try cases hn
    exact .quiet (quiet_markObserved h.toKeyed (hc.free h.toKeyed) now observed) trivial
  | reconcileDestroy row hostMachineId target =>
    cases a <;> simp only [Site.next] at hn <;> try cases hn
    split at hn
    · cases hn
      split_ifs
      exacts [.stay hc, .stay trivial]
    · cases hn
  | finish row target =>
    cases a <;> simp only [Site.next] at hn <;> try cases hn
    next lossCutoff =>
    split at hn
    · next heq hhost =>
      cases hn
      have hgoes := @finish_goes policy s now (.call i (.cutoff lossCutoff)) h _ _ _ hc (by rw [heq]) _ hhost
      rwa [heq] at hgoes
    · next heq _ =>
      cases hn
      have hw := quiet_finishMachine h.toKeyed (hc.2.free h.toKeyed) now hc.1 lossCutoff
      rw [heq] at hw
      exact .quiet hw trivial
    · cases hn
      exact .stay trivial
  | release hostId resources machineId =>
    cases a <;> simp only [Site.next] at hn <;> try cases hn
    exact release_goes h hc
  | returned => cases a <;> cases hn

/-- The clamp has nothing to do in a step of a call. -/
theorem next_clamp {c : Call} {a : Answer} (hc : c.Holds s.db) :
    s.next policy greatest0 now c a = s.next policy (fun n => n) now c a := by
  cases c with
  | release hostId resources id =>
    cases a with
    | none =>
      obtain ⟨x, hx, hxid, rfl, hhost, -, -⟩ := hc
      have hm := h.toKeyed.machine?_iff.mpr ⟨hx, hxid⟩
      simp only [Site.next]
      rw [h.release_clamp hm (hhost hostId rfl)]
    | _ => rfl
  | _ => cases a <;> rfl

end Steps

/-! ### The system -/

/-- The rows are in balance and every call knows its machine. -/
structure Sound (w : World) : Prop where
  balanced : Balanced w.db
  calls : ∀ c ∈ w.calls, c.Holds w.db

/-- What a step has to give. -/
structure Moves (policy : BillingAdmissionPolicy) (w : World) (a : Act) (w' : World) : Prop where
  effect : Effect policy w.now w.db a w'.db
  calls : ∀ c ∈ w'.calls, c.Holds w'.db

section Moves

variable {policy : BillingAdmissionPolicy} {w : World} {a : Act} (h : Sound w)

include h

theorem Sound.withDb {db' : Db} (e : Effect policy w.now w.db a db') : Moves policy w a (w.withDb db') :=
  ⟨e, fun c hc => (h.calls c hc).evolves (e.evolves h.balanced)⟩

theorem Sound.withCalls {calls : List Call} (hc : ∀ c ∈ calls, c.Holds w.db) :
    Moves policy w a (w.withCalls calls) := by
  refine ⟨.refl, fun c hmem => ?_⟩
  obtain hmem | hmem := List.mem_append.mp hmem
  exacts [h.calls c hmem, hc c hmem]

theorem Sound.same : Moves policy w a w := ⟨.refl, h.calls⟩

/-- The write of a fork operation that stays pending. -/
theorem Sound.setForkOperation {o o' : ForkOperation} (ho : o ∈ w.db.forkOperations) (hid : o'.id = o.id)
    (hhost : o'.sourceHostId = o.sourceHostId) (hs : o'.state = .pending → o.state = .pending) :
    Moves policy w a (w.withDb (w.db.setForkOperation o')) :=
  h.withDb (.operation ho hid hhost hs (.refl _))

end Moves

theorem releaseCall_holds (h : Balanced db) (hm : m ∈ db.machines) (hended : terminal m.state = true) :
    (releaseCall m).Holds db := by
  unfold releaseCall
  split
  · next hostId hhost =>
    refine ⟨m, hm, rfl, rfl, fun x hx => Option.some.inj hx ▸ hhost, ?_, hended⟩
    exact h.free_of_ended (h.toKeyed.machine?_iff.mpr ⟨hm, rfl⟩) hended
  · trivial

theorem reconcileCall_holds (hm : m ∈ db.machines) (hfree : db.Free m) (now : ℤ) : (reconcileCall m now).Holds db := by
  have hknows : db.Knows m.id m.resources m.hostId .any := ⟨m, hm, rfl, rfl, fun _ hx => hx, hfree, trivial⟩
  unfold reconcileCall
  dsimp only
  split
  · exact hknows
  · unfold reconcileKnown
    split_ifs
    exacts [⟨rfl, hknows⟩, hknows]

section Step

variable {policy : BillingAdmissionPolicy} {w w' : World} {a : Act}

theorem Sound.markLost (h : Sound w) (lossCutoff : String → Option ℤ) :
    Moves policy w a ((w.withDb (w.db.markLost w.now lossCutoff)).withCalls
      ((w.db.machines.filter w.db.onStaleHost).map releaseCall)) := by
  have hw : QuietWrite w.db (w.db.markLost w.now lossCutoff) := quiet_markLost w.now lossCutoff
  refine ⟨.quiet hw, fun c hc => ?_⟩
  obtain hc | hc := List.mem_append.mp hc
  · exact (h.calls c hc).evolves hw.evolves
  obtain ⟨m, hm, rfl⟩ := List.mem_map.mp hc
  obtain ⟨hmem, hstale⟩ := List.mem_filter.mp hm
  -- the calls hold the rows as the update has returned them, of which they read what it has left alone
  have hlost : m.finished w.now .lost (lossCutoff m.id) ∈ (w.db.markLost w.now lossCutoff).machines :=
    mem_updateWhere.mpr ⟨m, hmem, by rw [if_pos hstale]⟩
  show (releaseCall (m.finished w.now .lost (lossCutoff m.id))).Holds _
  exact releaseCall_holds (h.balanced.quietWrite hw) hlost rfl

/-- **A step of the system without the clamps** has one of the effects. -/
theorem Sound.moves (h : Sound w) (hs : Step policy (fun n => n) w a w') : Moves policy w a w' := by
  have hb := h.balanced
  unfold Step World.step at hs
  cases a with
  | tick duration =>
    cases hs
    exact ⟨.refl, h.calls⟩
  | host row =>
    dsimp only at hs
    split_ifs at hs with hpos
    cases hs
    refine h.withDb (.host fun r => ?_)
    simp only [Resources.fits, decide_eq_true_eq] at hpos
    exact le_trans zero_le_one (hpos r)
  | organization row =>
    dsimp only at hs
    split_ifs at hs with hvalid
    cases hs
    exact h.withDb (.organization hvalid)
  | project row =>
    dsimp only at hs
    split_ifs at hs with hvalid
    obtain ⟨db', hdb, rfl⟩ := Option.map_eq_some_iff.mp hs
    exact h.withDb (.project hvalid.1 hvalid.2 hdb)
  | billingAccount row =>
    cases hs
    exact h.withDb (.beside rfl rfl rfl rfl rfl rfl rfl rfl)
  | usageEvent row =>
    dsimp only at hs
    split_ifs at hs with hplaced
    cases hs
    refine h.withDb (.around rfl rfl rfl rfl rfl rfl (fun e he => ?_) fun o ho => .inl ⟨o, ho, rfl⟩)
    obtain he | he := List.mem_append.mp he
    · exact .inl he
    · exact .inr (List.mem_singleton.mp he ▸ hplaced)
  | usageOutbox row =>
    dsimp only at hs
    split_ifs at hs with hplaced
    cases hs
    refine h.withDb (.around rfl rfl rfl rfl rfl rfl (fun _ he => .inl he) fun o ho => ?_)
    obtain ho | ho := List.mem_append.mp ho
    · exact .inl ⟨o, ho, rfl⟩
    · exact .inr (List.mem_singleton.mp ho ▸ hplaced)
  | usageProcessed machineId =>
    cases hs
    refine h.withDb (.around rfl rfl rfl rfl rfl rfl (fun _ he => .inl he) fun o ho => .inl ?_)
    obtain ⟨o', ho', rfl⟩ := mem_updateWhere.mp ho
    refine ⟨o', ho', ?_⟩
    split_ifs <;> rfl
  | usageFinalized machineId =>
    dsimp only at hs
    obtain ⟨m, hm, rfl⟩ := Option.map_eq_some_iff.mp hs
    exact h.withDb (.quiet (quiet_usageFinalized hb.toKeyed hm w.now))
  | volume row =>
    cases hs
    exact h.withDb (.beside rfl rfl rfl rfl rfl rfl rfl rfl)
  | vmEnds hostId id =>
    cases hs
    exact ⟨.refl, h.calls⟩
  | create input =>
    dsimp only at hs
    split_ifs at hs
    cases hs
    exact h.withCalls (by simp [Call.Holds])
  | destroy id organizationId projectId =>
    cases hs
    exact h.withCalls (by simp [Call.Holds])
  | call i answer =>
    dsimp only at hs
    split at hs
    · cases hs
    · next c hc =>
      obtain ⟨⟨site, c'⟩, hn, rfl⟩ := Option.map_eq_some_iff.mp hs
      have hgoes := next_goes (i := i) hb (h.calls c (List.mem_of_getElem? hc)) hn
      refine ⟨hgoes.effect, fun x hx => ?_⟩
      obtain hx | rfl := List.mem_or_eq_of_mem_set hx
      exacts [(h.calls x hx).evolves (hgoes.effect.evolves hb), hgoes.holds]
  | abort i =>
    cases hs
    refine ⟨.refl, fun x hx => ?_⟩
    obtain hx | rfl := List.mem_or_eq_of_mem_set hx
    exacts [h.calls x hx, trivial]
  | markLost lossCutoff =>
    cases hs
    exact h.markLost lossCutoff
  | selectLeaked id =>
    dsimp only at hs
    split at hs
    · next m hm =>
      split_ifs at hs with hc
      cases hs
      refine h.withCalls fun c hmem => ?_
      obtain rfl := List.mem_singleton.mp hmem
      exact releaseCall_holds hb (hb.toKeyed.machine?_iff.mp hm).1 hc.1
    · cases hs
  | claimReconcile id =>
    dsimp only at hs
    split at hs
    · next m hm =>
      split_ifs at hs with hc
      cases hs
      refine h.withCalls fun c hmem => ?_
      obtain rfl := List.mem_singleton.mp hmem
      simp only [Db.reconcilable, Bool.and_eq_true, Bool.not_eq_true'] at hc
      exact reconcileCall_holds (hb.toKeyed.machine?_iff.mp hm).1 (Db.free_of_forkIs hc.1.1.2) w.now
    · cases hs
  | selectExpired id =>
    dsimp only at hs
    split at hs
    · split_ifs at hs
      cases hs
      exact h.withCalls (by simp [Call.Holds])
    · cases hs
  | beginExtend admittedAt enforcedAt machineId organizationId projectId idempotencyKey ttlSeconds =>
    dsimp only at hs
    split_ifs at hs
    split at hs
    · next hx =>
      cases hs
      exact h.withDb (.beginExtend hx)
    · cases hs
      exact h.same
  | completeExtend operationId machineId organizationId resultExpiresAt =>
    dsimp only at hs
    split at hs
    · next hx =>
      cases hs
      exact h.withDb (.completeExtend hx)
    · cases hs
      exact h.same
  | beginFork times request =>
    dsimp only at hs
    split_ifs at hs
    split at hs
    · next hx =>
      cases hs
      exact h.withDb (.beginFork hx)
    · cases hs
      exact h.same
  | completeFork operationId observed =>
    cases hs
    cases hx : w.db.completeFork w.now operationId observed with
    | none => exact h.same
    | some db' => exact h.withDb (completeFork_effect hb.toKeyed hx)
  | failFork operationId failure =>
    cases hs
    unfold Db.failFork
    cases ho : w.db.forkOperation? operationId with
    | none => exact h.same
    | some o =>
      dsimp only
      split_ifs with hp
      · exact h.same
      · simp only [not_or, not_not] at hp
        exact h.withDb (.settleFork (hb.toKeyed.forkOperation?_iff.mp ho).1 hp.1 failure)
  | requestForkCleanup operationId token failure =>
    cases hs
    unfold Db.requestForkCleanup
    cases ho : w.db.forkOperation? operationId with
    | none => exact h.same
    | some o =>
      dsimp only
      split_ifs with hp
      · exact h.same
      all_goals exact h.setForkOperation (hb.toKeyed.forkOperation?_iff.mp ho).1 rfl rfl fun hx => hx
  | releaseForkCleanupClaim operationId token =>
    cases hs
    unfold Db.releaseForkCleanupClaim
    cases ho : w.db.forkOperation? operationId with
    | none => exact h.same
    | some o =>
      dsimp only
      split_ifs with hp
      · exact h.setForkOperation (hb.toKeyed.forkOperation?_iff.mp ho).1 rfl rfl fun hx => hx
      · exact h.same
  | completeForkCleanup operationId token =>
    cases hs
    unfold Db.completeForkCleanup
    cases ho : w.db.forkOperation? operationId with
    | none => exact h.same
    | some o =>
      dsimp only
      split_ifs with hp
      · exact h.same
      · simp only [not_or, not_not] at hp
        cases o.cleanupFailure with
        | none => exact h.same
        | some failure => exact h.withDb (.settleFork (hb.toKeyed.forkOperation?_iff.mp ho).1 hp.1 failure)

end Step

end Nehemiah.Control
