import Nehemiah.Control.Forks

/-!
# The audit of forks

`AuditService.capture` records a `requested` event before a fork and a terminal one after it, unless the terminal event
is left to the transaction that settles the operation.  That transaction writes it once, under the key of the operation
and with the audit identifier of the request that has begun the operation (`audited_forks_end_once`).

As in the rest of the control plane, of a fork request between its begin and its answer only the transactions are
actions, with any argument, whether the request or the reconciler makes them; what a request answers is the operation as
it was when the request has last loaded it.
-/

namespace Nehemiah.Control

open Billing (bind_ok)
open Lib

inductive AuditOutcome
  | requested
  | succeeded
  | failed
deriving DecidableEq

structure AuditEvent where
  /-- The operation of `audit:fork:…:terminal`; any other key is random. -/
  eventKey : Option String
  operationId : String
  outcome : AuditOutcome
deriving DecidableEq

inductive ForkStage
  /-- The `requested` event is recorded, and the operation is not begun. -/
  | opened
  /-- With the operation as it was loaded last. -/
  | running (operation : ForkOperation)
  /-- `capture` is about to record the terminal event. -/
  | completing (outcome : AuditOutcome)
  | returned
deriving DecidableEq

/-- A call of the fork route. -/
structure ForkCall where
  auditOperationId : String
  request : ForkRequest
  stage : ForkStage

structure Audited where
  world : World
  /-- The column `audit_operation_id` of the fork operations. -/
  auditIds : List (String × String)
  events : List AuditEvent
  forks : List ForkCall
  /-- Which request has taken part in which operation. -/
  joined : List (String × String)

def ForkOperationState.outcome : ForkOperationState → AuditOutcome
  | .succeeded => .succeeded
  | _ => .failed

/-- The operation that a transaction may settle. -/
def Act.settles : Act → Option String
  | .completeFork id _ | .failFork id _ | .completeForkCleanup id _ => some id
  | _ => none

def Act.begins : Act → Bool
  | .beginFork _ _ => true
  | _ => false

namespace Audited

def op? (s : Audited) (id : String) : Option ForkOperation := s.world.db.forkOperation? id

def record (s : Audited) (auditOperationId : String) (outcome : AuditOutcome) : Audited :=
  { s with events := s.events ++ [⟨none, auditOperationId, outcome⟩] }

/-- `INSERT … SELECT … FROM machine_fork_operations … ON CONFLICT (event_key) DO NOTHING`. -/
def recordForkTerminalAudit (s : Audited) (operationId : String) (outcome : AuditOutcome) : Audited :=
  match s.auditIds.find? fun p => decide (p.1 = operationId) with
  | some p =>
    if s.events.any fun e => decide (e.eventKey = some operationId) then s
    else { s with events := s.events ++ [⟨some operationId, p.2, outcome⟩] }
  | none => s

def withWorld (s : Audited) (w : World) : Audited := { s with world := w }

/-- The transaction that takes an operation out of its pending state records its terminal event. -/
def settle (s : Audited) (w : World) (operationId : String) : Audited :=
  match s.op? operationId, w.db.forkOperation? operationId with
  | some o, some o' =>
    if o.state = .pending ∧ o'.state ≠ .pending then
      (s.recordForkTerminalAudit operationId o'.state.outcome).withWorld w
    else s.withWorld w
  | _, _ => s.withWorld w

def setStage (s : Audited) (i : ℕ) (c : ForkCall) (stage : ForkStage) : Audited :=
  { s with forks := s.forks.set i { c with stage := stage } }

def join (s : Audited) (c : ForkCall) (o : ForkOperation) : Audited :=
  { s with joined := s.joined ++ [(c.auditOperationId, o.id)] }

def insertAuditId (s : Audited) (c : ForkCall) (o : ForkOperation) : Audited :=
  { s with auditIds := s.auditIds ++ [(o.id, c.auditOperationId)] }

/-- The operation was begun by the call. -/
def owns (s : Audited) (c : ForkCall) (o : ForkOperation) : Bool := s.auditIds.any (· = (o.id, c.auditOperationId))

theorem owns_iff {s : Audited} {c : ForkCall} {o : ForkOperation} :
    s.owns c o = true ↔ (o.id, c.auditOperationId) ∈ s.auditIds := by
  simp [owns]

/-- `forkResult`, and what `complete` and `failureHandled` make of it. -/
def answered (s : Audited) (c : ForkCall) (o : ForkOperation) : ForkStage :=
  if o.state = .failed ∧ o.failure.isSome = true then
    -- `throwPersistedForkFailure`
    if s.owns c o then .returned else .completing .failed
  else if o.state = .pending ∨ s.owns c o = true then .returned
  else .completing .succeeded

end Audited

inductive AuditAct
  /-- Any step of the control plane but the begin of a fork. -/
  | control (a : Act)
  | request (auditOperationId : String) (request : ForkRequest)
  /-- The request throws before its operation is begun. -/
  | refuse (i : ℕ)
  | begin (i : ℕ) (times : Times)
  | load (i : ℕ)
  | answer (i : ℕ)
  | record (i : ℕ)

namespace Audited

variable (policy : BillingAdmissionPolicy) (s : Audited)

/-- `beginFork` and the comparison of the request hashes. -/
def begin (i : ℕ) (c : ForkCall) (times : Times) : Option Audited :=
  match s.world.step policy greatest0 (.beginFork times c.request) with
  | none => none
  | some w =>
    match s.world.db.beginFork policy times c.request with
    | .ok (_, some (o, replayed)) =>
      if o.count ≠ c.request.count then some ((s.withWorld w).setStage i c (.completing .failed))
      else if replayed then some (((s.withWorld w).join c o).setStage i c (.running o))
      else some ((((s.withWorld w).insertAuditId c o).join c o).setStage i c (.running o))
    | _ => some ((s.withWorld w).setStage i c (.completing .failed))

def step : AuditAct → Option Audited
  | .control a =>
    if a.begins then none
    else
      (s.world.step policy greatest0 a).map fun w =>
        match a.settles with
        | some id => s.settle w id
        | none => s.withWorld w
  | .request auditOperationId request =>
    if auditOperationId ∈ s.forks.map ForkCall.auditOperationId then none
    else some ({ s with forks := s.forks ++ [ForkCall.mk auditOperationId request .opened] }.record auditOperationId .requested)
  | .refuse i =>
    match s.forks[i]? with
    | some c => if c.stage = .opened then some (s.setStage i c (.completing .failed)) else none
    | none => none
  | .begin i times =>
    match s.forks[i]? with
    | some c => if c.stage = .opened then s.begin policy i c times else none
    | none => none
  | .load i =>
    match s.forks[i]? with
    | some c =>
      match c.stage with
      | .running o => (s.op? o.id).map fun o' => s.setStage i c (.running o')
      | _ => none
    | none => none
  | .answer i =>
    match s.forks[i]? with
    | some c =>
      match c.stage with
      | .running o => some (s.setStage i c (s.answered c o))
      | _ => none
    | none => none
  | .record i =>
    match s.forks[i]? with
    | some c =>
      match c.stage with
      | .completing outcome => some ((s.record c.auditOperationId outcome).setStage i c .returned)
      | _ => none
    | none => none

def empty (now : ℤ) : Audited := ⟨.empty now, [], [], [], []⟩

/-- No call is executing and no operation is pending. -/
def Quiescent : Prop :=
  (∀ c ∈ s.forks, c.stage = .returned) ∧ ∀ o ∈ s.world.db.forkOperations, o.state ≠ .pending

end Audited

def terminals (events : List AuditEvent) (auditOperationId : String) : List AuditEvent :=
  events.filter fun e => decide (e.operationId = auditOperationId) && decide (e.outcome ≠ .requested)

/-- The outcome is that of the operation that the request has taken part in; a request that has taken part in none has
failed. -/
structure Audited.Agrees (s : Audited) (auditOperationId : String) (outcome : AuditOutcome) : Prop where
  joined : ∀ id, (auditOperationId, id) ∈ s.joined → ∃ o, s.op? id = some o ∧ o.state ≠ .pending ∧ outcome = o.state.outcome
  refused : (∀ id, (auditOperationId, id) ∉ s.joined) → outcome = .failed

/-- Every request that was recorded has exactly one terminal event, with the outcome of its operation. -/
def Audited.EndsOnce (s : Audited) : Prop :=
  ∀ auditOperationId, (⟨none, auditOperationId, .requested⟩ : AuditEvent) ∈ s.events →
    ∃ e, terminals s.events auditOperationId = [e] ∧ s.Agrees auditOperationId e.outcome

/-- A request that has not begun the operation does not answer it while it is pending. -/
def Audited.Settled (s : Audited) (a : AuditAct) (_ : Audited) : Prop :=
  match a with
  | .answer i =>
    match s.forks[i]? with
    | some c =>
      match c.stage with
      | .running o => o.state ≠ .pending ∨ s.owns c o = true
      | _ => True
    | none => True
  | _ => True

instance (s : Audited) (a : AuditAct) (t : Audited) : Decidable (s.Settled a t) := by
  unfold Audited.Settled
  split
  · split
    · split <;> infer_instance
    · infer_instance
  · infer_instance

/-! ### What becomes of an operation -/

/-- What a transaction makes of an operation; `settles` tells that it is one that may settle it. -/
inductive Operates (settles : Prop) (o o' : ForkOperation) : Prop
  | keeps (hs : o'.state = o.state) (hf : o'.failure = o.failure)
  | settles (hsettles : settles) (hp : o.state = .pending) (hs : o'.state = .succeeded ∨ o'.state = .failed)
      (hf : o'.state = .failed → o'.failure.isSome = true)

section Written

variable {policy : BillingAdmissionPolicy} {greatest : ℤ → ℤ} {w : World} {a : Act} {db' : Db}

theorem Written.operation? (hk : Keyed w.db) (hk' : Keyed db') (hw : Written policy greatest w a db') {id : String}
    {o : ForkOperation} (ho : w.db.forkOperation? id = some o) :
    ∃ o', db'.forkOperation? id = some o' ∧ Operates (a.settles = some id) o o' := by
  obtain ⟨hmem, hid⟩ := hk.forkOperation?_iff.mp ho
  have hsame : db'.forkOperations = w.db.forkOperations →
      ∃ o', db'.forkOperation? id = some o' ∧ Operates (a.settles = some id) o o' := by
    intro h
    exact ⟨o, hk'.forkOperation?_iff.mpr ⟨h ▸ hmem, hid⟩, .keeps rfl rfl⟩
  -- one operation is written
  have hset : ∀ {id' : String} {x y : ForkOperation}, w.db.forkOperation? id' = some x → y.id = x.id →
      db'.forkOperations = (w.db.setForkOperation y).forkOperations → Operates (a.settles = some id') x y →
      ∃ o', db'.forkOperation? id = some o' ∧ Operates (a.settles = some id) o o' := by
    intro id' x y hx hyid hdb hoperates
    obtain ⟨hxmem, hxid⟩ := hk.forkOperation?_iff.mp hx
    by_cases hsameid : o.id = x.id
    · obtain rfl : o = x := key_inj hk.operations hmem hxmem hsameid
      obtain rfl : id = id' := hid.symm.trans hxid
      refine ⟨y, hk'.forkOperation?_iff.mpr ⟨?_, hyid.trans hid⟩, hoperates⟩
      rw [hdb]
      exact mem_updateWhere.mpr ⟨o, hmem, if_pos (decide_eq_true hyid.symm)⟩
    · refine ⟨o, hk'.forkOperation?_iff.mpr ⟨?_, hid⟩, .keeps rfl rfl⟩
      rw [hdb]
      exact mem_updateWhere.mpr ⟨o, hmem, if_neg (by simpa [hyid] using hsameid)⟩
  have hcall : ∀ i answer, a = .call i answer →
      ∃ o', db'.forkOperation? id = some o' ∧ Operates (a.settles = some id) o o' := by
    rintro i answer rfl
    exact hsame hw.rowsOnly.forkOperations
  cases hw with
  | same => exact hsame rfl
  | around _ hf => exact hsame hf
  | usageFinalized => exact hsame rfl
  | markLost => exact hsame rfl
  | beginExtend hx => exact hsame (beginExtend_tables hx).2.2
  | completeExtend hx =>
    obtain ⟨_, _, -, -, -, -, rfl | rfl⟩ := completeExtend_ok hx
    all_goals exact hsame rfl
  | beginFork hx =>
    obtain ⟨rfl, -⟩ | ⟨_, _, _, _, _, -, -, -, -, -, -, -, -, -, -, -, -, -, -, rfl⟩ := beginFork_ok hx
    · exact hsame rfl
    · exact ⟨o, hk'.forkOperation?_iff.mpr ⟨List.mem_append_left _ hmem, hid⟩, .keeps rfl rfl⟩
  | @completeFork operationId observed _ hx =>
    obtain rfl | ⟨x, allReady, hfound, hp, -, -, -, -, hops⟩ := completeFork_ok hx
    · exact hsame rfl
    · cases allReady with
      | false => exact hsame hops
      | true =>
        have hsucceeds : Operates (Act.settles (.completeFork operationId observed) = some operationId) x x.succeeds :=
          .settles rfl hp (.inl rfl) fun h => nomatch h
        exact hset (y := x.succeeds) hfound rfl hops hsucceeds
  | @failFork operationId failure _ hx =>
    obtain rfl | ⟨x, hfound, hp, rfl⟩ := failFork_ok hx
    · exact hsame rfl
    · have hfails : Operates (Act.settles (.failFork operationId failure) = some operationId) x (x.fails failure) :=
        .settles rfl hp (.inr rfl) fun _ => rfl
      exact hset (y := x.fails failure) hfound rfl rfl hfails
  | @completeForkCleanup operationId token _ hx =>
    obtain rfl | ⟨x, failure, hfound, hp, rfl⟩ := completeForkCleanup_ok hx
    · exact hsame rfl
    · have hfails : Operates (Act.settles (.completeForkCleanup operationId token) = some operationId) x (x.fails failure) :=
        .settles rfl hp (.inr rfl) fun _ => rfl
      exact hset (y := x.fails failure) hfound rfl rfl hfails
  | requestForkCleanup hx =>
    obtain rfl | ⟨x, y, hfound, hyid, hys, hf, -, rfl⟩ := requestForkCleanup_ok hx
    · exact hsame rfl
    · exact hset hfound hyid rfl (.keeps hys hf)
  | releaseForkCleanupClaim operationId token =>
    obtain heq | ⟨x, y, hfound, hyid, hys, hf, -, heq⟩ := releaseForkCleanupClaim_ok w.db operationId token
    · rw [heq] at hk' ⊢
      exact ⟨o, ho, .keeps rfl rfl⟩
    · rw [heq] at hset ⊢
      exact hset hfound hyid rfl (.keeps hys hf)
  | _ => exact hcall _ _ rfl

theorem ids_setForkOperation (db : Db) (o : ForkOperation) :
    (db.setForkOperation o).forkOperations.map (·.id) = db.forkOperations.map (·.id) := by
  show (updateWhere _ _ db.forkOperations).map _ = _
  rw [updateWhere, List.map_map]
  refine List.map_congr_left fun x _ => ?_
  show (if decide (x.id = o.id) = true then o else x).id = x.id
  split
  · next h => exact (of_decide_eq_true h).symm
  · rfl

/-- A transaction other than the begin of a fork makes no operation. -/
theorem Written.operationIds (hw : Written policy greatest w a db') (ha : a.begins = false) :
    db'.forkOperations.map (·.id) = w.db.forkOperations.map (·.id) := by
  have hcall : ∀ i answer, a = .call i answer → db'.forkOperations.map (·.id) = w.db.forkOperations.map (·.id) := by
    rintro i answer rfl
    rw [hw.rowsOnly.forkOperations]
  cases hw with
  | same => rfl
  | around _ hf => rw [hf]
  | usageFinalized => rfl
  | markLost => rfl
  | beginExtend hx => rw [(beginExtend_tables hx).2.2]
  | completeExtend hx =>
    obtain ⟨_, _, -, -, -, -, rfl | rfl⟩ := completeExtend_ok hx
    all_goals rfl
  | beginFork => cases ha
  | completeFork hx =>
    obtain rfl | ⟨x, allReady, -, -, -, -, -, -, hops⟩ := completeFork_ok hx
    · rfl
    · rw [hops]
      split
      exacts [ids_setForkOperation _ _, rfl]
  | failFork hx =>
    obtain rfl | ⟨x, -, -, rfl⟩ := failFork_ok hx
    exacts [rfl, ids_setForkOperation _ _]
  | completeForkCleanup hx =>
    obtain rfl | ⟨x, failure, -, -, rfl⟩ := completeForkCleanup_ok hx
    exacts [rfl, ids_setForkOperation _ _]
  | requestForkCleanup hx =>
    obtain rfl | ⟨x, y, -, -, -, -, -, rfl⟩ := requestForkCleanup_ok hx
    exacts [rfl, ids_setForkOperation _ _]
  | releaseForkCleanupClaim operationId token =>
    obtain heq | ⟨x, y, -, -, -, -, -, heq⟩ := releaseForkCleanupClaim_ok w.db operationId token
    all_goals rw [heq]
    exact ids_setForkOperation _ _
  | _ => exact hcall _ _ rfl

theorem forkOperation?_none {db : Db} {id : String} :
    db.forkOperation? id = none ↔ id ∉ db.forkOperations.map (·.id) := by
  unfold Db.forkOperation?
  simp only [List.find?_eq_none, decide_eq_true_eq, List.mem_map, not_exists, not_and]

end Written

/-! ### The begin of a fork -/

variable {policy : BillingAdmissionPolicy}

/-- **What the begin of a fork answers**: nothing, the row that is there, or the row that it inserts. -/
theorem beginFork_answer {db db' : Db} (hk : Keyed db) {times : Times} {request : ForkRequest}
    {r : Option (ForkOperation × Bool)} (h : db.beginFork policy times request = .ok (db', r)) :
    (db' = db ∧ (r = none ∨ ∃ o, r = some (o, true) ∧ db.forkOperation? o.id = some o)) ∨
      ∃ o, r = some (o, false) ∧ o.state = .pending ∧ o.count = request.count ∧ db.forkOperation? o.id = none ∧
        db'.forkOperations = db.forkOperations ++ [o] := by
  unfold Db.beginFork at h
  split at h
  case h_2 => cases h; exact .inl ⟨rfl, .inl rfl⟩
  next organization project source ho hp hs =>
  cases hhost : source.hostId.bind db.host? with
  | none =>
    rw [hhost] at h
    cases h
    exact .inl ⟨rfl, .inl rfl⟩
  | some host =>
    rw [hhost] at h
    dsimp only at h
    by_cases horg : source.organizationId ≠ request.organizationId ∨ source.projectId ≠ request.projectId
    · rw [if_pos horg] at h
      cases h
      exact .inl ⟨rfl, .inl rfl⟩
    rw [if_neg horg] at h
    split at h
    · next prior hprior =>
      cases h
      exact .inl ⟨rfl, .inr ⟨prior, rfl, hk.forkOperation?_iff.mpr ⟨List.mem_of_find?_eq_some hprior, rfl⟩⟩⟩
    obtain ⟨⟨⟩, -, h⟩ := bind_ok h
    obtain ⟨⟨⟩, -, h⟩ := bind_ok h
    obtain ⟨⟨⟩, -, h⟩ := bind_ok h
    obtain ⟨⟨⟩, -, h⟩ := bind_ok h
    obtain ⟨⟨⟩, -, h⟩ := bind_ok h
    obtain ⟨⟨⟩, hkeys, h⟩ := bind_ok h
    cases h
    refine .inr ⟨_, rfl, rfl, rfl, ?_, rfl⟩
    have hfree : db.forkInsertable request _ = true := demand_ok hkeys
    unfold Db.forkInsertable at hfree
    simp only [Bool.and_eq_true, Bool.not_eq_true'] at hfree
    rw [forkOperation?_none]
    intro hin
    obtain ⟨x, hx, hid⟩ := List.mem_map.mp hin
    exact List.any_eq_false.mp hfree.1.1.1 x hx (decide_eq_true hid)

/-- The step of the control plane is the transaction. -/
theorem step_beginFork {greatest : ℤ → ℤ} {w w' : World} {times : Times} {request : ForkRequest}
    (hs : w.step policy greatest (.beginFork times request) = some w') :
    (∃ db r, w.db.beginFork policy times request = .ok (db, r) ∧ w'.db = db) ∨
      (∃ e, w.db.beginFork policy times request = .error e) ∧ w'.db = w.db := by
  unfold World.step at hs
  dsimp only at hs
  split at hs
  · cases h : w.db.beginFork policy times request with
    | ok result =>
      rw [h] at hs
      cases hs
      exact .inl ⟨_, _, rfl, rfl⟩
    | error e =>
      rw [h] at hs
      cases hs
      exact .inr ⟨⟨e, rfl⟩, rfl⟩
  · cases hs

/-! ### Terminal events -/

section Terminals

variable {events : List AuditEvent} {e : AuditEvent} {auditOperationId : String}

theorem terminals_append : terminals (events ++ [e]) auditOperationId =
    terminals events auditOperationId ++ terminals [e] auditOperationId :=
  List.filter_append ..

theorem terminals_other (h : e.operationId ≠ auditOperationId) :
    terminals (events ++ [e]) auditOperationId = terminals events auditOperationId := by
  have hnone : terminals [e] auditOperationId = [] := by simp [terminals, h]
  rw [terminals_append, hnone, List.append_nil]

theorem terminals_requested (h : e.outcome = .requested) :
    terminals (events ++ [e]) auditOperationId = terminals events auditOperationId := by
  have hnone : terminals [e] auditOperationId = [] := by simp [terminals, h]
  rw [terminals_append, hnone, List.append_nil]

theorem terminals_own (h : e.outcome ≠ .requested) :
    terminals (events ++ [e]) e.operationId = terminals events e.operationId ++ [e] := by
  have hone : terminals [e] e.operationId = [e] := by simp [terminals, h]
  rw [terminals_append, hone]

theorem mem_terminals : e ∈ terminals events auditOperationId ↔
    e ∈ events ∧ e.operationId = auditOperationId ∧ e.outcome ≠ .requested := by
  simp only [terminals, List.mem_filter, Bool.and_eq_true, decide_eq_true_eq]

end Terminals

/-! ### The invariant -/

namespace Audited

/-- The operation was loaded at some time. -/
def Loaded (s : Audited) (o : ForkOperation) : Prop :=
  (o.state = .failed → o.failure.isSome = true) ∧ ∃ o', s.op? o.id = some o' ∧ (o.state ≠ .pending → o'.state = o.state)

/-- What the events say of a call. -/
def Accounts (s : Audited) (c : ForkCall) : Prop :=
  match c.stage with
  | .opened => terminals s.events c.auditOperationId = [] ∧ ∀ id, (c.auditOperationId, id) ∉ s.joined
  | .running o =>
    (c.auditOperationId, o.id) ∈ s.joined ∧ s.Loaded o ∧
      ((o.id, c.auditOperationId) ∉ s.auditIds → terminals s.events c.auditOperationId = [])
  | .completing outcome =>
    terminals s.events c.auditOperationId = [] ∧ s.Agrees c.auditOperationId outcome ∧
      (∀ id, (id, c.auditOperationId) ∉ s.auditIds) ∧ outcome ≠ .requested
  | .returned =>
    (∃ id, (id, c.auditOperationId) ∈ s.auditIds) ∨
      ∃ e, terminals s.events c.auditOperationId = [e] ∧ s.Agrees c.auditOperationId e.outcome

/-- What the events say of an operation: the terminal event of the request that has begun it is there when the
operation is settled. -/
def Books (s : Audited) (id auditOperationId : String) : Prop :=
  ∃ o, s.op? id = some o ∧
    (o.state = .pending ∧ terminals s.events auditOperationId = [] ∨
      o.state ≠ .pending ∧ ∃ e, terminals s.events auditOperationId = [e] ∧ e.outcome = o.state.outcome)

structure Inv (s : Audited) : Prop where
  sound : Sound s.world
  failures : ∀ id o, s.op? id = some o → o.state = .failed → o.failure.isSome = true
  /-- Every operation has one audit identifier, whose request has joined it. -/
  audited : ∀ id o, s.op? id = some o → ∃ auditOperationId, (id, auditOperationId) ∈ s.auditIds
  auditIds : (s.auditIds.map Prod.fst).Nodup
  owners : ∀ p ∈ s.auditIds, (p.2, p.1) ∈ s.joined
  /-- A request joins one operation. -/
  joined : (s.joined.map Prod.fst).Nodup
  joiners : ∀ p ∈ s.joined, p.1 ∈ s.forks.map ForkCall.auditOperationId
  calls : (s.forks.map ForkCall.auditOperationId).Nodup
  requests : ∀ e ∈ s.events, e.operationId ∈ s.forks.map ForkCall.auditOperationId
  keys : ∀ e ∈ s.events, ∀ id ∈ e.eventKey, (id, e.operationId) ∈ s.auditIds ∧ e.outcome ≠ .requested
  books : ∀ p ∈ s.auditIds, s.Books p.1 p.2
  accounts : ∀ c ∈ s.forks, s.Accounts c

/-! ### What the changes preserve -/

variable {s s' : Audited} {c : ForkCall} {A : String}

/-- Settled operations stay as they are. -/
def Follows (s s' : Audited) : Prop :=
  ∀ id o, s.op? id = some o → ∃ o', s'.op? id = some o' ∧ (o.state ≠ .pending → o'.state = o.state)

theorem Follows.of_eq (h : s'.world = s.world) : Follows s s' := by
  intro id o ho
  refine ⟨o, ?_, fun _ => rfl⟩
  show s'.world.db.forkOperation? id = some o
  rw [h]
  exact ho

theorem Loaded.follows (hf : Follows s s') {o : ForkOperation} (h : s.Loaded o) : s'.Loaded o := by
  obtain ⟨hfailure, o₁, ho₁, hs₁⟩ := h
  obtain ⟨o₂, ho₂, hs₂⟩ := hf o.id o₁ ho₁
  refine ⟨hfailure, o₂, ho₂, fun hs => ?_⟩
  have hsame := hs₁ hs
  exact (hs₂ (hsame ▸ hs)).trans hsame

theorem Agrees.follows (hf : Follows s s') (hj : ∀ id, (A, id) ∈ s'.joined ↔ (A, id) ∈ s.joined) {outcome : AuditOutcome}
    (h : s.Agrees A outcome) : s'.Agrees A outcome := by
  refine ⟨fun id hid => ?_, fun hnone => h.refused fun id hid => hnone id ((hj id).mpr hid)⟩
  obtain ⟨o, ho, hs, hout⟩ := h.joined id ((hj id).mp hid)
  obtain ⟨o', ho', hs'⟩ := hf id o ho
  have hsame := hs' hs
  exact ⟨o', ho', hsame ▸ hs, hsame ▸ hout⟩

/-- The account of a call does not depend on the other calls. -/
theorem Accounts.withForks (h : s.Accounts c) (forks : List ForkCall) : Accounts { s with forks := forks } c := by
  obtain ⟨A, request, stage⟩ := c
  cases stage with
  | opened => exact h
  | running o => exact h
  | completing outcome => exact ⟨h.1, ⟨h.2.1.joined, h.2.1.refused⟩, h.2.2⟩
  | returned =>
    obtain hown | ⟨e, he, hagrees⟩ := h
    · exact .inl hown
    · exact .inr ⟨e, he, hagrees.joined, hagrees.refused⟩

theorem map_set_stage {i : ℕ} (hi : s.forks[i]? = some c) (stage : ForkStage) :
    (s.forks.set i { c with stage := stage }).map ForkCall.auditOperationId = s.forks.map ForkCall.auditOperationId := by
  obtain ⟨hlt, rfl⟩ := List.getElem?_eq_some_iff.mp hi
  have hlt' : i < (s.forks.map ForkCall.auditOperationId).length := by rwa [List.length_map]
  have hget : s.forks[i].auditOperationId = (s.forks.map ForkCall.auditOperationId)[i] := by simp
  rw [List.map_set]
  dsimp only
  rw [hget, List.set_getElem_self]

namespace Inv

variable {id : String} {o : ForkOperation}

theorem joined_inj (h : Inv s) {id' : String} (hid : (A, id) ∈ s.joined) (hid' : (A, id') ∈ s.joined) : id = id' :=
  congrArg Prod.snd (key_inj h.joined hid hid' rfl)

theorem auditId_inj (h : Inv s) {A' : String} (hA : (id, A) ∈ s.auditIds) (hA' : (id, A') ∈ s.auditIds) : A = A' :=
  congrArg Prod.snd (key_inj h.auditIds hA hA' rfl)

/-- A call keeps its account, unless a terminal event is written that is not that of an operation it has begun. -/
theorem account (h : Inv s) (hf : Follows s s')
    (hj : ∀ id, (c.auditOperationId, id) ∈ s'.joined ↔ (c.auditOperationId, id) ∈ s.joined)
    (ha : ∀ id, (id, c.auditOperationId) ∈ s'.auditIds ↔ (id, c.auditOperationId) ∈ s.auditIds)
    (ht : (∀ id, (id, c.auditOperationId) ∉ s.auditIds) →
      terminals s'.events c.auditOperationId = terminals s.events c.auditOperationId)
    (hc : s.Accounts c) : s'.Accounts c := by
  obtain ⟨A, request, stage⟩ := c
  cases stage with
  | opened =>
    obtain ⟨hnil, hfree⟩ := hc
    refine ⟨(ht fun id hid => hfree id (h.owners _ hid)).trans hnil, fun id hid => hfree id ((hj id).mp hid)⟩
  | running o =>
    obtain ⟨hin, hload, hnil⟩ := hc
    refine ⟨(hj o.id).mpr hin, hload.follows hf, fun hno => ?_⟩
    have hno : (o.id, A) ∉ s.auditIds := fun hid => hno ((ha o.id).mpr hid)
    refine (ht fun id hid => hno ?_).trans (hnil hno)
    rw [h.joined_inj hin (h.owners _ hid)]
    exact hid
  | completing outcome =>
    obtain ⟨hnil, hagrees, hno, hout⟩ := hc
    exact ⟨(ht hno).trans hnil, hagrees.follows hf hj, fun id hid => hno id ((ha id).mp hid), hout⟩
  | returned =>
    by_cases hown : ∃ id, (id, A) ∈ s.auditIds
    · obtain ⟨id, hid⟩ := hown
      exact .inl ⟨id, (ha id).mpr hid⟩
    · obtain hin | ⟨e, he, hagrees⟩ := hc
      · exact absurd hin hown
      · exact .inr ⟨e, (ht fun id hid => hown ⟨id, hid⟩).trans he, hagrees.follows hf hj⟩

/-- A step of the control plane that settles no operation. -/
theorem withWorld (h : Inv s) {w : World} (hw : Sound w)
    (hops : ∀ id o, s.op? id = some o → ∃ o', w.db.forkOperation? id = some o' ∧ o'.state = o.state ∧ o'.failure = o.failure)
    (hnone : ∀ id, s.op? id = none → w.db.forkOperation? id = none) : Inv (s.withWorld w) := by
  have hback : ∀ id o', w.db.forkOperation? id = some o' →
      ∃ o, s.op? id = some o ∧ o'.state = o.state ∧ o'.failure = o.failure := by
    intro id o' ho'
    cases ho : s.op? id with
    | none =>
      rw [hnone id ho] at ho'
      cases ho'
    | some o =>
      obtain ⟨o₁, ho₁, hsame⟩ := hops id o ho
      obtain rfl : o₁ = o' := Option.some.inj (ho₁.symm.trans ho')
      exact ⟨o, rfl, hsame⟩
  have hf : Follows s (s.withWorld w) := by
    intro id o ho
    obtain ⟨o', ho', hs, -⟩ := hops id o ho
    exact ⟨o', ho', fun _ => hs⟩
  refine ⟨hw, ?_, ?_, h.auditIds, h.owners, h.joined, h.joiners, h.calls, h.requests, h.keys, ?_, ?_⟩
  · intro id o' ho' hs'
    obtain ⟨o, ho, hs, hfail⟩ := hback id o' ho'
    rw [hfail]
    exact h.failures id o ho (hs ▸ hs')
  · intro id o' ho'
    obtain ⟨o, ho, -⟩ := hback id o' ho'
    exact h.audited id o ho
  · intro p hp
    obtain ⟨o, ho, hbooks⟩ := h.books p hp
    obtain ⟨o', ho', hs, -⟩ := hops p.1 o ho
    refine ⟨o', ho', ?_⟩
    rw [hs]
    exact hbooks
  · intro c hc
    exact h.account hf (fun _ => Iff.rfl) (fun _ => Iff.rfl) (fun _ => rfl) (h.accounts c hc)

/-- The transaction that settles an operation finds no terminal event of it. -/
theorem recordForkTerminalAudit_eq (h : Inv s) (ho : s.op? id = some o) (hp : o.state = .pending)
    (outcome : AuditOutcome) :
    ∃ A, (id, A) ∈ s.auditIds ∧
      s.recordForkTerminalAudit id outcome = { s with events := s.events ++ [⟨some id, A, outcome⟩] } := by
  obtain ⟨A, hA⟩ := h.audited id o ho
  refine ⟨A, hA, ?_⟩
  have hfind : s.auditIds.find? (fun p => decide (p.1 = id)) = some (id, A) := (find?_key_iff h.auditIds).mpr ⟨hA, rfl⟩
  have hfree : (s.events.any fun e => decide (e.eventKey = some id)) = false := by
    rw [List.any_eq_false]
    intro e he hkey
    have hkey : e.eventKey = some id := of_decide_eq_true hkey
    obtain ⟨hin, hout⟩ := h.keys e he id hkey
    have hmem : e ∈ terminals s.events A := mem_terminals.mpr ⟨he, h.auditId_inj hin hA, hout⟩
    obtain ⟨o', ho', ⟨-, hnil⟩ | ⟨hs, -⟩⟩ := h.books _ hA
    · rw [hnil] at hmem
      cases hmem
    · obtain rfl : o' = o := Option.some.inj (ho'.symm.trans ho)
      exact hs hp
  unfold Audited.recordForkTerminalAudit
  rw [hfind]
  dsimp only
  rw [hfree]
  rfl

/-- The transaction that settles an operation writes its terminal event. -/
theorem settled (h : Inv s) {w : World} (hw : Sound w) {o' : ForkOperation} (ho : s.op? id = some o)
    (hp : o.state = .pending) (ho' : w.db.forkOperation? id = some o') (hs : o'.state ≠ .pending)
    (hfail : o'.state = .failed → o'.failure.isSome = true)
    (hops : ∀ id', id' ≠ id → ∀ o, s.op? id' = some o →
      ∃ o', w.db.forkOperation? id' = some o' ∧ o'.state = o.state ∧ o'.failure = o.failure)
    (hnone : ∀ id, s.op? id = none → w.db.forkOperation? id = none) :
    Inv ((s.recordForkTerminalAudit id o'.state.outcome).withWorld w) := by
  obtain ⟨A, hA, heq⟩ := h.recordForkTerminalAudit_eq ho hp o'.state.outcome
  rw [heq]
  have hf : Follows s (Audited.withWorld { s with events := s.events ++ [⟨some id, A, o'.state.outcome⟩] } w) := by
    intro id' x hx
    by_cases hid : id' = id
    · subst hid
      obtain rfl : x = o := Option.some.inj (hx.symm.trans ho)
      exact ⟨o', ho', fun hs => absurd hp hs⟩
    · obtain ⟨x', hx', hsame, -⟩ := hops id' hid x hx
      exact ⟨x', hx', fun _ => hsame⟩
  have hback : ∀ id' x', id' ≠ id → w.db.forkOperation? id' = some x' →
      ∃ x, s.op? id' = some x ∧ x'.state = x.state ∧ x'.failure = x.failure := by
    intro id' x' hid hx'
    cases hx : s.op? id' with
    | none =>
      rw [hnone id' hx] at hx'
      cases hx'
    | some x =>
      obtain ⟨x₁, hx₁, hsame⟩ := hops id' hid x hx
      obtain rfl : x₁ = x' := Option.some.inj (hx₁.symm.trans hx')
      exact ⟨x, rfl, hsame⟩
  have hout : o'.state.outcome ≠ .requested := by cases o'.state <;> exact fun h => nomatch h
  have hcaller : A ∈ s.forks.map ForkCall.auditOperationId := h.joiners _ (h.owners _ hA)
  refine ⟨hw, ?_, ?_, h.auditIds, h.owners, h.joined, h.joiners, h.calls, ?_, ?_, ?_, ?_⟩
  · intro id' x' hx' hs'
    by_cases hid : id' = id
    · subst hid
      obtain rfl : x' = o' := Option.some.inj (hx'.symm.trans ho')
      exact hfail hs'
    · obtain ⟨x, hx, hsame, hfailure⟩ := hback id' x' hid hx'
      rw [hfailure]
      exact h.failures id' x hx (hsame ▸ hs')
  · intro id' x' hx'
    by_cases hid : id' = id
    · exact ⟨A, hid ▸ hA⟩
    · obtain ⟨x, hx, -⟩ := hback id' x' hid hx'
      exact h.audited id' x hx
  · intro e he
    rcases List.mem_append.mp he with he | he
    · exact h.requests e he
    · obtain rfl := List.mem_singleton.mp he
      exact hcaller
  · intro e he id' hid'
    rcases List.mem_append.mp he with he | he
    · exact h.keys e he id' hid'
    · obtain rfl := List.mem_singleton.mp he
      obtain rfl := Option.some.inj hid'
      exact ⟨hA, hout⟩
  · intro p hp'
    by_cases hid : p.1 = id
    · obtain ⟨id', A'⟩ := p
      obtain rfl : id' = id := hid
      obtain rfl := h.auditId_inj hA hp'
      refine ⟨o', ho', .inr ⟨hs, ⟨some id', A, o'.state.outcome⟩, ?_, rfl⟩⟩
      obtain ⟨x, hx, ⟨-, hnil⟩ | ⟨hx', -⟩⟩ := h.books _ hA
      · refine (terminals_own (e := ⟨some id', A, o'.state.outcome⟩) hout).trans ?_
        rw [hnil]
        rfl
      · obtain rfl : x = o := Option.some.inj (hx.symm.trans ho)
        exact absurd hp hx'
    · obtain ⟨x, hx, hbooks⟩ := h.books p hp'
      obtain ⟨x', hx', hsame, -⟩ := hops p.1 hid x hx
      have hother : A ≠ p.2 := fun heq => hid (h.joined_inj (A := A) (heq ▸ h.owners p hp') (h.owners _ hA))
      refine ⟨x', hx', ?_⟩
      rw [hsame]
      show _ ∧ terminals (s.events ++ [_]) p.2 = [] ∨ _ ∧ ∃ e, terminals (s.events ++ [_]) p.2 = [e] ∧ _
      rw [terminals_other hother]
      exact hbooks
  · intro c hc
    refine h.account hf (fun _ => Iff.rfl) (fun _ => Iff.rfl) (fun hno => ?_) (h.accounts c hc)
    exact terminals_other fun heq => hno id (heq ▸ hA)

variable {policy : BillingAdmissionPolicy} {i : ℕ}

theorem of_control (h : Inv s) {a : Act} (hs : s.step policy (.control a) = some s') : Inv s' := by
  unfold Audited.step at hs
  dsimp only at hs
  split at hs
  · cases hs
  · next ha =>
    have ha : a.begins = false := eq_false_of_ne_true ha
    obtain ⟨w, hw, hs⟩ := Option.map_eq_some_iff.mp hs
    have hsound := h.sound.step hw
    have hwritten := step_written hw
    have hk := h.sound.balanced.toKeyed
    have hk' := hsound.balanced.toKeyed
    have hnone : ∀ id, s.op? id = none → w.db.forkOperation? id = none := by
      intro id hid
      rw [forkOperation?_none, hwritten.operationIds ha]
      exact forkOperation?_none.mp hid
    have hops := fun id o (ho : s.op? id = some o) => hwritten.operation? hk hk' ho
    have hkeeps : ∀ id', a.settles ≠ some id' → ∀ o, s.op? id' = some o →
        ∃ o', w.db.forkOperation? id' = some o' ∧ o'.state = o.state ∧ o'.failure = o.failure := by
      intro id' hid' o ho
      obtain ⟨o', ho', hoperates⟩ := hops id' o ho
      cases hoperates with
      | keeps hs hf => exact ⟨o', ho', hs, hf⟩
      | settles hsettles => exact absurd hsettles hid'
    cases hsettles : a.settles with
    | none =>
      rw [hsettles] at hs
      subst hs
      exact h.withWorld hsound (fun id => hkeeps id (by rw [hsettles]; exact fun h => nomatch h)) hnone
    | some id =>
      rw [hsettles] at hs
      subst hs
      have hother : ∀ id', id' ≠ id → ∀ o, s.op? id' = some o →
          ∃ o', w.db.forkOperation? id' = some o' ∧ o'.state = o.state ∧ o'.failure = o.failure := by
        intro id' hne
        refine hkeeps id' ?_
        rw [hsettles]
        exact fun heq => hne (Option.some.inj heq).symm
      dsimp only
      unfold Audited.settle
      cases ho : s.op? id with
      | none =>
        refine h.withWorld hsound (fun id' o' ho' => hother id' ?_ o' ho') hnone
        rintro rfl
        rw [ho] at ho'
        cases ho'
      | some o =>
        obtain ⟨o', ho', hoperates⟩ := hops id o ho
        rw [ho']
        dsimp only
        split
        · next hp =>
          cases hoperates with
          | keeps hsame => exact absurd (hsame.trans hp.1) hp.2
          | settles _ _ _ hfail => exact h.settled hsound ho hp.1 ho' hp.2 hfail hother hnone
        · next hp =>
          have hsame : o'.state = o.state ∧ o'.failure = o.failure := by
            cases hoperates with
            | keeps hs hf => exact ⟨hs, hf⟩
            | settles _ hpending hs =>
              refine absurd ⟨hpending, ?_⟩ hp
              rcases hs with hs | hs <;> rw [hs] <;> exact fun h => nomatch h
          refine h.withWorld hsound (fun id' x hx => ?_) hnone
          by_cases hid : id' = id
          · subst hid
            obtain rfl : x = o := Option.some.inj (hx.symm.trans ho)
            exact ⟨o', ho', hsame⟩
          · exact hother id' hid x hx

theorem of_request (h : Inv s) {request : ForkRequest} (hs : s.step policy (.request A request) = some s') :
    Inv s' := by
  unfold Audited.step at hs
  dsimp only at hs
  split at hs
  · cases hs
  · next hfresh =>
    cases hs
    have hmono : ∀ {x : String}, x ∈ s.forks.map ForkCall.auditOperationId →
        x ∈ (s.forks ++ [ForkCall.mk A request .opened]).map ForkCall.auditOperationId := by
      intro x hx
      rw [List.map_append]
      exact List.mem_append_left _ hx
    have hterminals : ∀ x, terminals (s.events ++ [AuditEvent.mk none A .requested]) x = terminals s.events x :=
      fun x => terminals_requested rfl
    refine ⟨h.sound, h.failures, h.audited, h.auditIds, h.owners, h.joined, fun p hp => hmono (h.joiners p hp), ?_, ?_,
      ?_, ?_, ?_⟩
    · show ((s.forks ++ [ForkCall.mk A request .opened]).map ForkCall.auditOperationId).Nodup
      rw [List.map_append, List.nodup_append]
      refine ⟨h.calls, List.nodup_singleton _, ?_⟩
      intro x hx y hy heq
      obtain rfl := List.mem_singleton.mp hy
      exact hfresh (heq ▸ hx)
    · intro e he
      rcases List.mem_append.mp he with he | he
      · exact hmono (h.requests e he)
      · obtain rfl := List.mem_singleton.mp he
        show A ∈ (s.forks ++ [ForkCall.mk A request .opened]).map ForkCall.auditOperationId
        rw [List.map_append]
        exact List.mem_append_right _ (List.mem_singleton_self A)
    · intro e he id hid
      rcases List.mem_append.mp he with he | he
      · exact h.keys e he id hid
      · obtain rfl := List.mem_singleton.mp he
        cases hid
    · intro p hp
      obtain ⟨o, ho, hbooks⟩ := h.books p hp
      refine ⟨o, ho, ?_⟩
      show _ ∧ terminals (s.events ++ [_]) p.2 = [] ∨ _ ∧ ∃ e, terminals (s.events ++ [_]) p.2 = [e] ∧ _
      rw [hterminals]
      exact hbooks
    · intro c hc
      rcases List.mem_append.mp hc with hc | hc
      · exact h.account (Follows.of_eq rfl) (fun _ => Iff.rfl) (fun _ => Iff.rfl) (fun _ => hterminals _) (h.accounts c hc)
      · obtain rfl := List.mem_singleton.mp hc
        refine ⟨(hterminals A).trans ?_, fun id hid => hfresh (h.joiners _ hid)⟩
        refine List.eq_nil_iff_forall_not_mem.mpr fun e he => ?_
        obtain ⟨hin, rfl, -⟩ := mem_terminals.mp he
        exact hfresh (h.requests e hin)

/-- The other calls have other audit identifiers. -/
theorem other (h : Inv s) (hi : s.forks[i]? = some c) {x c' : ForkCall} (hc' : c' ∈ s.forks.set i x) :
    c' = x ∨ c' ∈ s.forks ∧ c'.auditOperationId ≠ c.auditOperationId := by
  obtain ⟨j, hj⟩ := List.mem_iff_getElem?.mp hc'
  by_cases hij : i = j
  · subst hij
    obtain ⟨hlt, -⟩ := List.getElem?_eq_some_iff.mp hi
    rw [List.getElem?_set_self hlt] at hj
    exact .inl (Option.some.inj hj).symm
  · rw [List.getElem?_set_ne hij] at hj
    refine .inr ⟨List.mem_of_getElem? hj, fun heq => hij ?_⟩
    obtain ⟨hlt, -⟩ := List.getElem?_eq_some_iff.mp hi
    refine (List.getElem?_inj (by rwa [List.length_map]) h.calls).mp ?_
    rw [List.getElem?_map, List.getElem?_map, hi, hj]
    exact congrArg some heq.symm

/-- A call goes on, and writes a terminal event at most; its next stage accounts for it. -/
theorem goesOn (h : Inv s) (hi : s.forks[i]? = some c) (stage : ForkStage) {events : List AuditEvent}
    (hrequests : ∀ e ∈ events, e ∈ s.events ∨ e.operationId = c.auditOperationId ∧ e.eventKey = none)
    (hterminals : ∀ A, A ≠ c.auditOperationId ∨ (∃ id, (id, A) ∈ s.auditIds) → terminals events A = terminals s.events
     A) (hc : Accounts { s with events := events } { c with stage := stage }) :
    Inv (Audited.setStage { s with events := events } i c stage) := by
  have hids := map_set_stage hi stage
  refine ⟨h.sound, h.failures, h.audited, h.auditIds, h.owners, h.joined, ?_, ?_, ?_, ?_, ?_, ?_⟩
  · intro p hp
    show p.1 ∈ (s.forks.set i _).map ForkCall.auditOperationId
    rw [hids]
    exact h.joiners p hp
  · show ((s.forks.set i _).map ForkCall.auditOperationId).Nodup
    rw [hids]
    exact h.calls
  · intro e he
    show e.operationId ∈ (s.forks.set i _).map ForkCall.auditOperationId
    rw [hids]
    obtain he | ⟨heq, -⟩ := hrequests e he
    · exact h.requests e he
    · rw [heq]
      exact List.mem_map_of_mem (List.mem_of_getElem? hi)
  · intro e he id hid
    obtain he | ⟨-, hnone⟩ := hrequests e he
    · exact h.keys e he id hid
    · rw [hnone] at hid
      cases hid
  · intro p hp
    obtain ⟨o, ho, hbooks⟩ := h.books p hp
    refine ⟨o, ho, ?_⟩
    show _ ∧ terminals events p.2 = [] ∨ _ ∧ ∃ e, terminals events p.2 = [e] ∧ _
    rw [hterminals p.2 (.inr ⟨p.1, hp⟩)]
    exact hbooks
  · intro c' hc'
    obtain rfl | ⟨hc', hne⟩ := h.other hi hc'
    · exact hc.withForks _
    · exact h.account (Follows.of_eq rfl) (fun _ => Iff.rfl) (fun _ => Iff.rfl) (fun _ => hterminals _ (.inl hne))
        (h.accounts c' hc')

/-- A call goes on, with the account of its next stage. -/
theorem setStage (h : Inv s) (hi : s.forks[i]? = some c) {stage : ForkStage}
    (hc : s.Accounts { c with stage := stage }) : Inv (s.setStage i c stage) :=
  h.goesOn hi stage (fun _ he => .inl he) (fun _ _ => rfl) hc

theorem mem_of_stage (hi : s.forks[i]? = some c) : c ∈ s.forks := List.mem_of_getElem? hi

/-- A request that has joined no operation fails. -/
theorem refuses (h : Inv s) (hi : s.forks[i]? = some c) (hstage : c.stage = .opened) :
    Inv (s.setStage i c (.completing .failed)) := by
  have hc := h.accounts c (mem_of_stage hi)
  unfold Audited.Accounts at hc
  rw [hstage] at hc
  refine h.setStage hi ⟨hc.1, ⟨fun id hid => absurd hid (hc.2 id), fun _ => rfl⟩, ?_, fun h => nomatch h⟩
  exact fun id hid => hc.2 id (h.owners _ hid)

theorem of_refuse (h : Inv s) (hs : s.step policy (.refuse i) = some s') : Inv s' := by
  unfold Audited.step at hs
  dsimp only at hs
  split at hs
  · next c hi =>
    split at hs
    · next hstage =>
      cases hs
      exact h.refuses hi hstage
    · cases hs
  · cases hs

theorem of_load (h : Inv s) (hs : s.step policy (.load i) = some s') : Inv s' := by
  unfold Audited.step at hs
  dsimp only at hs
  split at hs
  · next c hi =>
    split at hs
    · next o hstage =>
      obtain ⟨o', ho', rfl⟩ := Option.map_eq_some_iff.mp hs
      have hc := h.accounts c (mem_of_stage hi)
      unfold Audited.Accounts at hc
      rw [hstage] at hc
      obtain ⟨hin, -, hnil⟩ := hc
      have hid : o'.id = o.id := (h.sound.balanced.toKeyed.forkOperation?_iff.mp ho').2
      refine h.setStage hi ⟨hid.symm ▸ hin, ⟨h.failures _ _ ho', o', hid.symm ▸ ho', fun _ => rfl⟩, ?_⟩
      intro hno
      exact hnil (hid ▸ hno)
    · cases hs
  · cases hs

/-- The answer of a call, when it has begun the operation or the operation is settled. -/
theorem of_answer (h : Inv s) (hg : s.Settled (.answer i) s') (hs : s.step policy (.answer i) = some s') : Inv s' := by
  unfold Audited.step at hs
  unfold Audited.Settled at hg
  dsimp only at hs hg
  split at hs
  · next c hi =>
    rw [hi] at hg
    dsimp only at hg
    split at hs
    · next o hstage =>
      cases hs
      rw [hstage] at hg
      dsimp only at hg
      have hc := h.accounts c (mem_of_stage hi)
      unfold Audited.Accounts at hc
      rw [hstage] at hc
      obtain ⟨hin, ⟨hfail, o', ho', hsame⟩, hnil⟩ := hc
      by_cases hown : s.owns c o = true
      · -- the terminal event is left to the transaction that settles the operation
        have hreturned : s.answered c o = .returned := by
          unfold Audited.answered
          rw [if_pos hown, if_pos (Or.inr hown)]
          exact ite_self _
        rw [hreturned]
        exact h.setStage hi (.inl ⟨o.id, owns_iff.mp hown⟩)
      · have hs : o.state ≠ .pending := hg.resolve_right hown
        have hno : (o.id, c.auditOperationId) ∉ s.auditIds := mt owns_iff.mpr hown
        have hcompleting : s.answered c o = .completing o.state.outcome := by
          unfold Audited.answered
          rw [if_neg hown, if_neg (not_or.mpr ⟨hs, hown⟩)]
          cases hstate : o.state with
          | pending => exact absurd hstate hs
          | succeeded => rfl
          | failed => rw [if_pos ⟨rfl, hfail hstate⟩]; rfl
        rw [hcompleting]
        refine h.setStage hi ⟨hnil hno, ⟨fun id hid => ?_, fun hnone => absurd hin (hnone _)⟩, fun id hid => ?_, ?_⟩
        · obtain rfl := h.joined_inj hid hin
          exact ⟨o', ho', (hsame hs).symm ▸ hs, congrArg ForkOperationState.outcome (hsame hs).symm⟩
        · exact hno (h.joined_inj hin (h.owners _ hid) ▸ hid)
        · cases o.state <;> exact fun h => nomatch h
    · cases hs
  · cases hs

theorem of_record (h : Inv s) (hs : s.step policy (.record i) = some s') : Inv s' := by
  unfold Audited.step at hs
  dsimp only at hs
  split at hs
  · next c hi =>
    split at hs
    · next outcome hstage =>
      cases hs
      have hc := h.accounts c (mem_of_stage hi)
      unfold Audited.Accounts at hc
      rw [hstage] at hc
      obtain ⟨hnil, hagrees, hno, hout⟩ := hc
      have hone : terminals (s.events ++ [AuditEvent.mk none c.auditOperationId outcome]) c.auditOperationId =
          [⟨none, c.auditOperationId, outcome⟩] := by
        refine (terminals_own (e := ⟨none, c.auditOperationId, outcome⟩) hout).trans ?_
        rw [hnil]
        rfl
      refine h.goesOn hi .returned (fun e he => ?_) (fun A hA => ?_) (.inr ⟨_, hone, ?_⟩)
      · rcases List.mem_append.mp he with he | he
        · exact .inl he
        · obtain rfl := List.mem_singleton.mp he
          exact .inr ⟨rfl, rfl⟩
      · refine terminals_other ?_
        rintro rfl
        obtain hne | ⟨id, hid⟩ := hA
        · exact hne rfl
        · exact hno id hid
      · exact ⟨hagrees.joined, hagrees.refused⟩
    · cases hs
  · cases hs

/-- A call joins an operation; the audit identifiers grow by `extra`, which is the call's when the operation is new. -/
theorem joins (h : Inv s) (hi : s.forks[i]? = some c) (hstage : c.stage = .opened) {w : World} (hw : Sound w)
    {extra : List (String × String)} (hops : ∀ id x, s.op? id = some x → w.db.forkOperation? id = some x)
    (hback : ∀ id x, w.db.forkOperation? id = some x → s.op? id = some x ∨ id = o.id ∧ extra = [(o.id,
     c.auditOperationId)]) (ho : w.db.forkOperation? o.id = some o)
    (hfail : o.state = .failed → o.failure.isSome = true)
    (hextra : extra = [] ∨ extra = [(o.id, c.auditOperationId)] ∧ o.state = .pending ∧ s.op? o.id = none) :
    Inv (Audited.setStage
      { s with world := w, auditIds := s.auditIds ++ extra, joined := s.joined ++ [(c.auditOperationId, o.id)] } i c
      (.running o)) := by
  have hids := map_set_stage hi (.running o)
  have hopened := h.accounts c (mem_of_stage hi)
  unfold Audited.Accounts at hopened
  rw [hstage] at hopened
  obtain ⟨hnil, hfree⟩ := hopened
  have hin : ∀ p ∈ extra, p = (o.id, c.auditOperationId) ∧ o.state = .pending := by
    intro p hp
    obtain rfl | ⟨rfl, hpending, -⟩ := hextra
    · cases hp
    · exact ⟨List.mem_singleton.mp hp, hpending⟩
  refine ⟨hw, ?_, ?_, ?_, ?_, ?_, ?_, ?_, ?_, ?_, ?_, ?_⟩
  · intro id x hx hs
    obtain hx | ⟨rfl, -⟩ := hback id x hx
    · exact h.failures id x hx hs
    · obtain rfl := Option.some.inj (ho.symm.trans hx)
      exact hfail hs
  · intro id x hx
    obtain hx | ⟨rfl, hone⟩ := hback id x hx
    · obtain ⟨A, hA⟩ := h.audited id x hx
      exact ⟨A, List.mem_append_left _ hA⟩
    · refine ⟨c.auditOperationId, List.mem_append_right _ ?_⟩
      rw [hone]
      exact List.mem_singleton_self _
  · show ((s.auditIds ++ extra).map Prod.fst).Nodup
    obtain rfl | ⟨rfl, -, hnone⟩ := hextra
    · rw [List.append_nil]
      exact h.auditIds
    · rw [List.map_append, List.nodup_append]
      refine ⟨h.auditIds, List.nodup_singleton _, ?_⟩
      intro id hid id' hid' heq
      obtain rfl := List.mem_singleton.mp hid'
      obtain ⟨p, hp, rfl⟩ := List.mem_map.mp hid
      obtain ⟨x, hx, -⟩ := h.books p hp
      rw [heq] at hx
      exact absurd (hnone.symm.trans hx) fun h => nomatch h
  · intro p hp
    rcases List.mem_append.mp hp with hp | hp
    · exact List.mem_append_left _ (h.owners p hp)
    · obtain ⟨rfl, -⟩ := hin p hp
      exact List.mem_append_right _ (List.mem_singleton_self _)
  · show ((s.joined ++ [(c.auditOperationId, o.id)]).map Prod.fst).Nodup
    rw [List.map_append, List.nodup_append]
    refine ⟨h.joined, List.nodup_singleton _, ?_⟩
    intro A hA A' hA' heq
    obtain rfl := List.mem_singleton.mp hA'
    obtain ⟨p, hp, rfl⟩ := List.mem_map.mp hA
    have hA : p.1 = c.auditOperationId := heq
    exact hfree p.2 (hA ▸ hp)
  · intro p hp
    show p.1 ∈ (s.forks.set i _).map ForkCall.auditOperationId
    rw [hids]
    rcases List.mem_append.mp hp with hp | hp
    · exact h.joiners p hp
    · obtain rfl := List.mem_singleton.mp hp
      exact List.mem_map_of_mem (mem_of_stage hi)
  · show ((s.forks.set i _).map ForkCall.auditOperationId).Nodup
    rw [hids]
    exact h.calls
  · intro e he
    show e.operationId ∈ (s.forks.set i _).map ForkCall.auditOperationId
    rw [hids]
    exact h.requests e he
  · intro e he id hid
    obtain ⟨hkey, hout⟩ := h.keys e he id hid
    exact ⟨List.mem_append_left _ hkey, hout⟩
  · intro p hp
    rcases List.mem_append.mp hp with hp | hp
    · obtain ⟨x, hx, hbooks⟩ := h.books p hp
      exact ⟨x, hops _ _ hx, hbooks⟩
    · obtain ⟨rfl, hpending⟩ := hin p hp
      exact ⟨o, ho, .inl ⟨hpending, hnil⟩⟩
  · intro c' hc'
    obtain rfl | ⟨hc', hne⟩ := h.other hi hc'
    · refine ⟨List.mem_append_right _ (List.mem_singleton_self _), ⟨hfail, o, ho, fun _ => rfl⟩, fun _ => hnil⟩
    · refine h.account (fun id x hx => ⟨x, hops id x hx, fun _ => rfl⟩) (fun id => ?_) (fun id => ?_) (fun _ => rfl)
        (h.accounts c' hc')
      · refine ⟨fun hid => ?_, List.mem_append_left _⟩
        rcases List.mem_append.mp hid with hid | hid
        · exact hid
        · exact absurd (congrArg Prod.fst (List.mem_singleton.mp hid)) hne
      · refine ⟨fun hid => ?_, List.mem_append_left _⟩
        rcases List.mem_append.mp hid with hid | hid
        · exact hid
        · exact absurd (congrArg Prod.snd (hin _ hid).1) hne

/-- The begin of an operation: the call joins what is there, or inserts a row and joins it. -/
theorem of_begin (h : Inv s) {times : Times} (hs : s.step policy (.begin i times) = some s') : Inv s' := by
  unfold Audited.step at hs
  dsimp only at hs
  split at hs
  · next c hi =>
    split at hs
    · next hstage =>
      unfold Audited.begin at hs
      split at hs
      · cases hs
      · next w hw =>
        have hsound := h.sound.step hw
        have hk := h.sound.balanced.toKeyed
        -- a begin that writes nothing
        have hsame : w.db = s.world.db → Inv (s.withWorld w) := by
          intro hdb
          refine h.withWorld hsound (fun id o ho => ⟨o, ?_, rfl, rfl⟩) (fun id hid => ?_)
          · rw [hdb]
            exact ho
          · rw [hdb]
            exact hid
        obtain ⟨db, r, hr, hdb⟩ | ⟨⟨e, he⟩, hdb⟩ := step_beginFork hw
        · rw [hr] at hs
          obtain ⟨rfl, hanswer⟩ | ⟨o, rfl, hpending, hcount, hnone, hrows⟩ := beginFork_answer hk hr
          · obtain rfl | ⟨o, rfl, ho⟩ := hanswer
            · cases hs
              exact (hsame hdb).refuses hi hstage
            · dsimp only at hs
              split at hs
              · cases hs
                exact (hsame hdb).refuses hi hstage
              · cases hs
                have hlookup : ∀ id, w.db.forkOperation? id = s.op? id := by
                  intro id
                  rw [hdb]
                  rfl
                have hjoins := h.joins hi hstage hsound (fun id x hx => (hlookup id).trans hx)
                  (fun id x hx => .inl ((hlookup id).symm.trans hx)) ((hlookup o.id).trans ho) (h.failures _ _ ho) (.inl rfl)
                rw [List.append_nil] at hjoins
                exact hjoins
          · have hrows : w.db.forkOperations = s.world.db.forkOperations ++ [o] := hdb ▸ hrows
            have hk' := hsound.balanced.toKeyed
            dsimp only at hs
            rw [if_neg (not_not.mpr hcount)] at hs
            cases hs
            refine h.joins hi hstage hsound (fun id x hx => ?_) (fun id x hx => ?_) ?_ (fun hfail => ?_)
              (.inr ⟨rfl, hpending, hnone⟩)
            · obtain ⟨hmem, hid⟩ := hk.forkOperation?_iff.mp hx
              refine hk'.forkOperation?_iff.mpr ⟨?_, hid⟩
              rw [hrows]
              exact List.mem_append_left _ hmem
            · obtain ⟨hmem, hid⟩ := hk'.forkOperation?_iff.mp hx
              rw [hrows] at hmem
              rcases List.mem_append.mp hmem with hmem | hmem
              · exact .inl (hk.forkOperation?_iff.mpr ⟨hmem, hid⟩)
              · obtain rfl := List.mem_singleton.mp hmem
                exact .inr ⟨hid.symm, rfl⟩
            · refine hk'.forkOperation?_iff.mpr ⟨?_, rfl⟩
              rw [hrows]
              exact List.mem_append_right _ (List.mem_singleton_self o)
            · rw [hpending] at hfail
              cases hfail
        · rw [he] at hs
          cases hs
          exact (hsame hdb).refuses hi hstage
    · cases hs
  · cases hs

theorem next (h : Inv s) {a : AuditAct} (hs : s.step policy a = some s') (hg : s.Settled a s') : Inv s' := by
  cases a with
  | control a => exact h.of_control hs
  | request A request => exact h.of_request hs
  | refuse i => exact h.of_refuse hs
  | begin i times => exact h.of_begin hs
  | load i => exact h.of_load hs
  | answer i => exact h.of_answer hg hs
  | record i => exact h.of_record hs

theorem empty (now : ℤ) : Inv (Audited.empty now) where
  sound := .empty now
  failures := fun _ _ h => nomatch h
  audited := fun _ _ h => nomatch h
  auditIds := List.nodup_nil
  owners := List.forall_mem_nil _
  joined := List.nodup_nil
  joiners := List.forall_mem_nil _
  calls := List.nodup_nil
  requests := List.forall_mem_nil _
  keys := List.forall_mem_nil _
  books := List.forall_mem_nil _
  accounts := List.forall_mem_nil _

end Inv

end Audited

/-! ### Every request ends once -/

/-- **Every audited fork ends exactly once.**  In every run in which no request answers an operation that another
request has begun while it is pending, each request that is recorded has, once nothing executes and nothing is pending,
one terminal event, whose outcome is that of the operation. -/
theorem audited_forks_end_once {policy : BillingAdmissionPolicy} {now : ℤ} {as : List AuditAct} {s : Audited}
    (h : RunIn (fun s a t => s.step policy a = some t) Audited.Settled (.empty now) as s) (hq : s.Quiescent) :
    s.EndsOnce := by
  have hi : s.Inv := h.invariant (fun _ _ _ hi hs hg => hi.next hs hg) (.empty now)
  intro A hA
  obtain ⟨c, hc, rfl⟩ := List.mem_map.mp (hi.requests _ hA)
  have haccount := hi.accounts c hc
  unfold Audited.Accounts at haccount
  rw [hq.1 c hc] at haccount
  obtain ⟨id, hid⟩ | hone := haccount
  · obtain ⟨o, ho, ⟨hpending, -⟩ | ⟨hs, e, he, hout⟩⟩ := hi.books _ hid
    · exact absurd hpending (hq.2 o (List.mem_of_find?_eq_some ho))
    · have hjoined := hi.owners _ hid
      refine ⟨e, he, fun id' hid' => ?_, fun hnone => absurd hjoined (hnone id)⟩
      rw [← hi.joined_inj hjoined hid']
      exact ⟨o, ho, hs, hout⟩
  · exact hone

/-! A fork with a replay, and one that is refused. -/

def forkable : List AuditAct := forking.dropLast.map AuditAct.control

def replayedFork : List AuditAct :=
  forkable ++ [.request "r1" forkRequest, .request "r2" forkRequest, .request "r3" forkRequest, .begin 0 ⟨0, 0, 0⟩, .refuse 2,
    .begin 1 ⟨0, 0, 0⟩, .answer 0, .control (.completeFork "f" [forkedChild]), .load 1, .answer 1, .record 1, .record 2]

theorem audited_forks_end_once_replayed :
    ∃ s : Audited, s.EndsOnce ∧ s.events.map (fun e => (e.operationId, e.outcome)) = [("r1", .requested), ("r2", .requested),
      ("r3", .requested), ("r1", .succeeded), ("r2", .succeeded), ("r3", .failed)] := by
  have hrun : ∃ s, RunIn (fun s a t => Audited.step freeOfCharge s a = some t) Audited.Settled (.empty 0) replayedFork s ∧
      (((∀ c ∈ s.forks, c.stage = .returned) ∧ ∀ o ∈ s.world.db.forkOperations, o.state ≠ .pending) ∧
        s.events.map (fun e => (e.operationId, e.outcome)) = [("r1", .requested), ("r2", .requested),
          ("r3", .requested), ("r1", .succeeded), ("r2", .succeeded), ("r3", .failed)]) :=
    RunIn.of_test (by decide +kernel)
  obtain ⟨s, h, hq, hevents⟩ := hrun
  exact ⟨s, audited_forks_end_once h hq, hevents⟩

/-- A replay answers the operation while it is pending, and `complete` leaves its terminal event to the transaction that
settles the operation, which writes that of the first request only. -/
theorem replay_never_ends :
    ∃ as s, Run (fun s a t => Audited.step freeOfCharge s a = some t) (.empty 0) as s ∧ s.Quiescent ∧ ¬ s.EndsOnce := by
  have hrun : ∃ s, Run (fun s a t => Audited.step freeOfCharge s a = some t) (.empty 0)
      (forkable ++ [.request "r1" forkRequest, .request "r2" forkRequest, .begin 0 ⟨0, 0, 0⟩, .begin 1 ⟨0, 0, 0⟩,
        .answer 0, .answer 1, .control (.completeFork "f" [forkedChild])]) s ∧
      (((∀ c ∈ s.forks, c.stage = .returned) ∧ ∀ o ∈ s.world.db.forkOperations, o.state ≠ .pending) ∧
        s.events = [⟨none, "r1", .requested⟩, ⟨none, "r2", .requested⟩, ⟨some "f", "r1", .succeeded⟩]) :=
    Run.of_test (by decide +kernel)
  obtain ⟨s, h, hq, hevents⟩ := hrun
  refine ⟨_, s, h, hq, fun hends => ?_⟩
  obtain ⟨e, he, -⟩ := hends "r2" (by rw [hevents]; decide)
  rw [hevents] at he
  exact absurd he (fun h => nomatch h)

end Nehemiah.Control
