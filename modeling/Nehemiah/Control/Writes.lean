import Nehemiah.Control.Effects

/-!
# What a step writes

A step of the system commits at most one transaction.  `Written` names it, with what the step has checked
before; what a transaction does to the rows is a matter of the transaction alone, whatever the caller has
read (`step_written`).
-/

namespace Nehemiah.Control

open Billing (MachineState HostState HostDesiredState CredentialStatus)
open Lib

/-- The transaction that a step of the system commits. -/
inductive Written (policy : BillingAdmissionPolicy) (greatest : ℤ → ℤ) (w : World) : Act → Db → Prop
  | same {a : Act} : Written policy greatest w a w.db
  /-- A write of the tables around machines and operations. -/
  | around {a : Act} {db' : Db} (hm : db'.machines = w.db.machines)
      (hf : db'.forkOperations = w.db.forkOperations) (he : db'.extendOperations = w.db.extendOperations) :
      Written policy greatest w a db'
  -- the transactions of calls
  | insert {i : ℕ} {answer : Answer} {input : CreateMachine} {m : MachineRow} {db' : Db}
      (hc : w.calls[i]? = some (.insert input m))
      (hi : w.db.insertRequested { m with createdAt := w.now } = some db') :
      Written policy greatest w (.call i answer) db'
  | claimCreate {i : ℕ} {answer : Answer} (id token : String) :
      Written policy greatest w (.call i answer) (w.db.claimCreate w.now id token).1
  | releaseCreateClaim {i : ℕ} {answer : Answer} (id token : String) :
      Written policy greatest w (.call i answer) (w.db.releaseCreateClaim id token)
  | failCreate {i : ℕ} {answer : Answer} (id token : String) (failure : Failure) :
      Written policy greatest w (.call i answer) (w.db.failCreate w.now id token failure).1
  | reserve {i : ℕ} {answer : Answer} {times : Times} {request : ScheduleRequest} {selected : Option String}
      {db' : Db} {reservation : Reservation}
      (hr : reserve policy w.db times request selected = .ok (db', reservation)) :
      Written policy greatest w (.call i answer) db'
  | observeHost {i : ℕ} {answer : Answer} (id : String) (hostMachine : HostMachine) :
      Written policy greatest w (.call i answer) (w.db.observeHost w.now id hostMachine)
  | transition {i : ℕ} {answer : Answer} (id : String) {source : List MachineState} {target : MachineState}
      (hsource : ∀ s ∈ source, terminal s = false) (htarget : target = .stopping ∨ target = .stopped) :
      Written policy greatest w (.call i answer) (w.db.transition w.now id source target).1
  | finishMachine {i : ℕ} {answer : Answer} (row : MachineRow) (target : MachineState) (lossCutoff : Option ℤ) :
      Written policy greatest w (.call i answer) (w.db.finishMachine w.now row target lossCutoff).1
  | markObserved {i : ℕ} {answer : Answer} (row : ReconcileRow) (observed : HostMachine) :
      Written policy greatest w (.call i answer) (w.db.markObserved w.now row observed)
  | persistRecovered {i : ℕ} {answer : Answer} (row : MachineRow) (recovered : HostMachine) :
      Written policy greatest w (.call i answer) (w.db.persistRecovered w.now row recovered).1
  | release {i : ℕ} {answer : Answer} (hostId : String) (resources : Resources) (id : String) :
      Written policy greatest w (.call i answer) (release greatest w.db w.now hostId resources id)
  -- single transactions
  | usageFinalized {id : String} {m : MachineRow} (hm : w.db.machine? id = some m) :
      Written policy greatest w (.usageFinalized id) (w.db.setMachine { m with usageFinalizedAt := some w.now })
  | markLost (lossCutoff : String → Option ℤ) :
      Written policy greatest w (.markLost lossCutoff) (w.db.markLost w.now lossCutoff)
  | beginExtend {admittedAt enforcedAt : ℤ} {machineId organizationId projectId idempotencyKey : String}
      {ttlSeconds : ℤ} {db' : Db} {r : Option (ExtendOperation × Bool)}
      (hx : w.db.beginExtend policy admittedAt enforcedAt machineId organizationId projectId idempotencyKey
        ttlSeconds = .ok (db', r)) :
      Written policy greatest w
        (.beginExtend admittedAt enforcedAt machineId organizationId projectId idempotencyKey ttlSeconds) db'
  | completeExtend {operationId : ℕ} {machineId organizationId : String} {resultExpiresAt recorded : ℤ} {db' : Db}
      (hx : w.db.completeExtend operationId machineId organizationId resultExpiresAt = some (db', recorded)) :
      Written policy greatest w (.completeExtend operationId machineId organizationId resultExpiresAt) db'
  | beginFork {times : Times} {request : ForkRequest} {db' : Db} {r : Option (ForkOperation × Bool)}
      (hx : w.db.beginFork policy times request = .ok (db', r)) :
      Written policy greatest w (.beginFork times request) db'
  | completeFork {operationId : String} {observed : List HostMachine} {db' : Db}
      (hx : w.db.completeFork w.now operationId observed = some db') :
      Written policy greatest w (.completeFork operationId observed) db'
  | failFork {operationId : String} {failure : Failure} {db' : Db}
      (hx : w.db.failFork greatest w.now operationId failure = some db') :
      Written policy greatest w (.failFork operationId failure) db'
  | requestForkCleanup {operationId token : String} {failure : Failure} {db' : Db}
      (hx : w.db.requestForkCleanup w.now operationId token failure = some db') :
      Written policy greatest w (.requestForkCleanup operationId token failure) db'
  | releaseForkCleanupClaim (operationId token : String) :
      Written policy greatest w (.releaseForkCleanupClaim operationId token)
        (w.db.releaseForkCleanupClaim operationId token)
  | completeForkCleanup {operationId token : String} {db' : Db}
      (hx : w.db.completeForkCleanup greatest w.now operationId token = some db') :
      Written policy greatest w (.completeForkCleanup operationId token) db'

section Steps

variable {policy : BillingAdmissionPolicy} {greatest : ℤ → ℤ} {w w' : World}

theorem next_written {i : ℕ} {s' : Site} {c c' : Call} {a : Answer} (hc : w.calls[i]? = some c)
    (h : w.site.next policy greatest w.now c a = some (s', c')) :
    Written policy greatest w (.call i a) s'.db := by
  cases c with
  | insert input m =>
    cases a <;> simp only [Site.next] at h <;> try cases h
    · split at h
      · next hi =>
        cases h
        exact .insert hc hi
      · cases h
        exact .same
    · exact .same
  | claim input m =>
    cases a <;> simp only [Site.next] at h <;> try cases h
    next token =>
    have hw : Written policy greatest w (.call i (.token token)) _ := .claimCreate m.id token
    split at h
    · next heq =>
      cases h
      rw [show w.db.claimCreate w.now m.id token = _ from heq] at hw
      exact hw
    · cases h
      exact .same
  | reserve input m token =>
    cases a <;> simp only [Site.next] at h <;> try cases h
    · split_ifs at h
      split at h
      · next hr =>
        cases h
        exact .reserve hr
      · cases h
        exact .same
    · exact .same
  | observe input m token r created =>
    cases a <;> simp only [Site.next] at h <;> try cases h
    · exact .observeHost m.id created
    · exact .same
  | stopCompensated m token =>
    cases a <;> simp only [Site.next] at h <;> try cases h
    exact .transition m.id (by decide) (.inl rfl)
  | failCreate input m token r failure =>
    cases a <;> simp only [Site.next] at h <;> try cases h
    have hw : Written policy greatest w (.call i .none) _ := .failCreate m.id token failure
    split at h
    · next heq =>
      cases h
      rw [show w.db.failCreate w.now m.id token failure = _ from heq] at hw
      exact hw
    · next heq =>
      cases h
      rw [show w.db.failCreate w.now m.id token failure = _ from heq] at hw
      exact hw
    · cases h
      exact .same
  | releaseClaim m token =>
    cases a <;> simp only [Site.next] at h <;> try cases h
    exact .releaseCreateClaim m.id token
  | destroyBegin reaper m =>
    cases a <;> simp only [Site.next] at h <;> try cases h
    have hw : Written policy greatest w (.call i .none)
        (w.db.transition w.now m.id [.requested, .placing, .starting, .running] .stopping).1 :=
      .transition m.id (by decide) (.inl rfl)
    split at h
    · cases h
      exact .same
    · next heq =>
      cases h
      rw [show w.db.transition w.now m.id _ .stopping = _ from heq] at hw
      exact hw
  | destroyEnd m =>
    cases a <;> simp only [Site.next] at h <;> try cases h
    exact .transition m.id (by decide) (.inr rfl)
  | persist row recovered =>
    cases a <;> simp only [Site.next] at h <;> try cases h
    have hw : Written policy greatest w (.call i .none) _ := .persistRecovered row.machine recovered
    split at h
    · cases h
      exact .same
    · next heq =>
      cases h
      rw [show w.db.persistRecovered w.now row.machine recovered = _ from heq] at hw
      exact hw
  | markObserved row observed =>
    cases a <;> simp only [Site.next] at h <;> try cases h
    exact .markObserved row observed
  | finish row target =>
    cases a <;> simp only [Site.next] at h <;> try cases h
    next lossCutoff =>
    have hw : Written policy greatest w (.call i (.cutoff lossCutoff)) _ :=
      .finishMachine row.machine target lossCutoff
    split at h
    · next heq _ =>
      cases h
      rw [show w.db.finishMachine w.now row.machine target lossCutoff = _ from heq] at hw
      exact hw
    · next heq _ =>
      cases h
      rw [show w.db.finishMachine w.now row.machine target lossCutoff = _ from heq] at hw
      exact hw
    · cases h
      exact .same
  | release hostId resources machineId =>
    cases a <;> simp only [Site.next] at h <;> try cases h
    exact .release hostId resources machineId
  | returned => cases a <;> cases h
  | _ =>
    -- steps that read, or call a host
    cases a <;> simp only [Site.next] at h <;> try cases h
    all_goals try exact .same
    all_goals repeat' split at h
    all_goals try cases h
    all_goals exact .same

/-- **A step of the system commits one transaction at most.** -/
theorem step_written {a : Act} (hs : Step policy greatest w a w') : Written policy greatest w a w'.db := by
  unfold Step World.step at hs
  cases a with
  | call i answer =>
    dsimp only at hs
    split at hs
    · cases hs
    · next c hc =>
      obtain ⟨⟨site, c'⟩, hnext, rfl⟩ := Option.map_eq_some_iff.mp hs
      exact next_written hc hnext
  | host row =>
    dsimp only at hs
    split_ifs at hs
    cases hs
    show Written policy greatest w _ (w.db.putHost row)
    unfold Db.putHost
    split <;> exact .around rfl rfl rfl
  | organization row =>
    dsimp only at hs
    split_ifs at hs
    cases hs
    have h := putOrganization_only w.db row
    exact .around h.machines h.forkOperations h.extendOperations
  | project row =>
    dsimp only at hs
    split_ifs at hs
    obtain ⟨db', hput, rfl⟩ := Option.map_eq_some_iff.mp hs
    have h := putProject_only hput
    exact .around h.machines h.forkOperations h.extendOperations
  | billingAccount | usageProcessed | volume =>
    cases hs
    exact .around rfl rfl rfl
  | usageEvent | usageOutbox =>
    dsimp only at hs
    split_ifs at hs
    cases hs
    exact .around rfl rfl rfl
  | usageFinalized id =>
    obtain ⟨m, hm, rfl⟩ := Option.map_eq_some_iff.mp hs
    exact .usageFinalized hm
  | markLost lossCutoff =>
    cases hs
    exact .markLost lossCutoff
  | beginExtend =>
    dsimp only at hs
    split_ifs at hs
    split at hs
    · next hx =>
      cases hs
      exact .beginExtend hx
    · cases hs
      exact .same
  | completeExtend =>
    dsimp only at hs
    split at hs
    · next hx =>
      cases hs
      exact .completeExtend hx
    · cases hs
      exact .same
  | beginFork =>
    dsimp only at hs
    split_ifs at hs
    split at hs
    · next hx =>
      cases hs
      exact .beginFork hx
    · cases hs
      exact .same
  | completeFork operationId observed =>
    cases hs
    cases hx : w.db.completeFork w.now operationId observed with
    | none => exact .same
    | some db' => exact .completeFork hx
  | failFork operationId failure =>
    cases hs
    cases hx : w.db.failFork greatest w.now operationId failure with
    | none => exact .same
    | some db' => exact .failFork hx
  | requestForkCleanup operationId token failure =>
    cases hs
    cases hx : w.db.requestForkCleanup w.now operationId token failure with
    | none => exact .same
    | some db' => exact .requestForkCleanup hx
  | releaseForkCleanupClaim operationId token =>
    cases hs
    exact .releaseForkCleanupClaim operationId token
  | completeForkCleanup operationId token =>
    cases hs
    cases hx : w.db.completeForkCleanup greatest w.now operationId token with
    | none => exact .same
    | some db' => exact .completeForkCleanup hx
  | _ =>
    dsimp only at hs
    repeat' split at hs
    all_goals cases hs
    all_goals exact .same

end Steps

/-! ### Writes of machines and hosts -/

/-- The tables of operations are left alone. -/
structure RowsOnly (db db' : Db) : Prop where
  forkOperations : db'.forkOperations = db.forkOperations
  extendOperations : db'.extendOperations = db.extendOperations

namespace RowsOnly

variable (db : Db) (now : ℤ)

theorem refl : RowsOnly db db := ⟨rfl, rfl⟩

theorem setMachine (m : MachineRow) : RowsOnly db (db.setMachine m) := ⟨rfl, rfl⟩

theorem claimCreate (id token : String) : RowsOnly db (db.claimCreate now id token).1 := by
  unfold Db.claimCreate
  split
  · exact refl db
  · split_ifs
    exacts [setMachine db _, refl db]

theorem releaseCreateClaim (id token : String) : RowsOnly db (db.releaseCreateClaim id token) := by
  unfold Db.releaseCreateClaim
  split
  · exact refl db
  · split_ifs
    exacts [setMachine db _, refl db]

theorem failCreate (id token : String) (failure : Failure) : RowsOnly db (db.failCreate now id token failure).1 := by
  unfold Db.failCreate
  split
  · exact refl db
  · split_ifs
    exacts [setMachine db _, refl db]

theorem observeHost (id : String) (hostMachine : HostMachine) :
    RowsOnly db (db.observeHost now id hostMachine) := by
  unfold Db.observeHost
  split
  · exact refl db
  · split_ifs
    exacts [setMachine db _, refl db]

theorem transition (id : String) (source : List MachineState) (target : MachineState) :
    RowsOnly db (db.transition now id source target).1 := by
  unfold Db.transition
  split
  · exact refl db
  · split_ifs
    exacts [setMachine db _, refl db]

theorem finishMachine (row : MachineRow) (target : MachineState) (lossCutoff : Option ℤ) :
    RowsOnly db (db.finishMachine now row target lossCutoff).1 := by
  unfold Db.finishMachine
  split
  · exact refl db
  · split_ifs
    exacts [setMachine db _, refl db]

theorem markObserved (row : ReconcileRow) (observed : HostMachine) :
    RowsOnly db (db.markObserved now row observed) := by
  unfold Db.markObserved
  split
  · exact refl db
  · split_ifs
    exacts [setMachine db _, setMachine db _, refl db, refl db]

theorem persistRecovered (row : MachineRow) (recovered : HostMachine) :
    RowsOnly db (db.persistRecovered now row recovered).1 := by
  unfold Db.persistRecovered
  split
  · exact refl db
  · split_ifs
    exacts [setMachine db _, refl db]

theorem release (greatest : ℤ → ℤ) (hostId : String) (resources : Resources) (id : String) :
    RowsOnly db (Control.release greatest db now hostId resources id) := by
  unfold Control.release
  split
  · exact refl db
  · split_ifs
    exacts [refl db, ⟨rfl, rfl⟩]

end RowsOnly

/-- **A step of a call writes machines and hosts only.** -/
theorem Written.rowsOnly {policy : BillingAdmissionPolicy} {greatest : ℤ → ℤ} {w : World} {i : ℕ} {answer : Answer}
    {db' : Db} (h : Written policy greatest w (.call i answer) db') : RowsOnly w.db db' := by
  cases h with
  | same => exact .refl _
  | around _ hf he => exact ⟨hf, he⟩
  | insert _ hi =>
    unfold Db.insertRequested at hi
    split_ifs at hi
    cases hi
    exact ⟨rfl, rfl⟩
  | claimCreate id token => exact .claimCreate w.db w.now id token
  | releaseCreateClaim id token => exact .releaseCreateClaim w.db id token
  | failCreate id token failure => exact .failCreate w.db w.now id token failure
  | reserve hr =>
    obtain ⟨-, _, _, -, -, -, -, rfl⟩ := reserve_ok hr
    exact ⟨rfl, rfl⟩
  | observeHost id hostMachine => exact .observeHost w.db w.now id hostMachine
  | transition id => exact .transition w.db w.now id _ _
  | finishMachine row target lossCutoff => exact .finishMachine w.db w.now row target lossCutoff
  | markObserved row observed => exact .markObserved w.db w.now row observed
  | persistRecovered row recovered => exact .persistRecovered w.db w.now row recovered
  | release hostId resources id => exact .release w.db w.now greatest hostId resources id

end Nehemiah.Control
