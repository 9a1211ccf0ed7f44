import Nehemiah.Host.Manager
import Nehemiah.Lib.Run

/-!
# Extending a machine

`MachineService.extend` with `beginExtend` and `completeExtend` on the control plane, and `ExtendInternal` on the host, for
one machine that runs.  Any number of calls are under way; a request may reach the host after its call has given up, and
an answer may be lost.  The database counts microseconds, a `Date` milliseconds and the host nanoseconds.
`extend_idempotent` is about all runs of such calls; `extend_shows` ties the host to its registry.
-/

namespace Nehemiah.Extend

open Lib

variable {H : Type}

/-- The `Date` of a time of the database. -/
def toDate (time : ℕ) : ℕ := time / 1000

def fromDate (date : ℕ) : ℕ := date * 1000

@[simp] theorem toDate_fromDate (date : ℕ) : toDate (fromDate date) = date := Nat.mul_div_cancel date (by decide)

theorem toDate_mono {a b : ℕ} (h : a ≤ b) : toDate a ≤ toDate b := Nat.div_le_div_right h

/-- A row of `machine_extend_operations`; its id is its position. -/
structure Operation (H : Type) where
  idempotencyKey : String
  requestHash : H
  targetExpiresAt : ℕ
  resultExpiresAt : Option ℕ
deriving DecidableEq

/-- The machine of the host. -/
structure HostMachine where
  expiresAt : ℕ
  extendOperations : List (String × ℕ)
deriving DecidableEq

inductive Reply
  | refused
  | extended (expiresAt : ℕ)
deriving DecidableEq

inductive Pc
  | waiting
  | answered (hostExpiry : ℕ)
  | done (expiresAt : ℕ) (replayed : Bool)
  | failed
deriving DecidableEq

/-- A call that has its operation. `inFlight` says that the host has not seen its request, whether or not the call still
waits. -/
structure Call where
  key : String
  operationId : ℕ
  target : ℕ
  replayed : Bool
  inFlight : Bool
  reply : Option Reply
  pc : Pc
deriving DecidableEq

structure State (H : Type) where
  expiresAt : ℕ
  operations : List (Operation H)
  host : HostMachine
  calls : List Call
deriving DecidableEq

/-! ### The transactions -/

/-- The target of `beginExtend`: what it has read is a `Date`, and what it inserts is one. -/
def State.allocate (s : State H) (now ttlSeconds : ℕ) : ℕ :=
  let committed := (s.operations.map Operation.targetExpiresAt).foldl max (fromDate (toDate s.expiresAt))
  fromDate (toDate (max committed (now + ttlSeconds * 1000000)))

/-- `extend` up to its request: the operation of the key, or a new one. A call of another request, and one that the
admission refuses, ends here. -/
def State.beginExtend [DecidableEq H] (s : State H) (key : String) (requestHash : H) (ttlSeconds now : ℕ)
    (admitted : Bool) : State H :=
  match s.operations.findIdx? fun op => decide (op.idempotencyKey = key) with
  | some id =>
    match s.operations[id]? with
    | none => s
    | some op =>
      if op.requestHash ≠ requestHash then s
      else match op.resultExpiresAt with
        | some result => { s with calls := s.calls ++
            [⟨key, id, toDate op.targetExpiresAt, true, false, none, .done (toDate result) true⟩] }
        | none => { s with calls := s.calls ++ [⟨key, id, toDate op.targetExpiresAt, true, true, none, .waiting⟩] }
  | none =>
    if admitted then
      let target := s.allocate now ttlSeconds
      { s with
        operations := s.operations ++ [⟨key, requestHash, target, none⟩]
        calls := s.calls ++ [⟨key, s.operations.length, toDate target, false, true, none, .waiting⟩] }
    else s

/-- `ExtendInternal`; `refuses` are its checks of the machine and its lease. -/
def HostMachine.extendInternal (m : HostMachine) (key : String) (target now maxAhead : ℕ) (refuses : Bool) :
    HostMachine × Reply :=
  if target ≤ now ∨ now + maxAhead < target ∨ refuses = true then (m, .refused)
  else match m.extendOperations.lookup key with
    | some prior => if prior = target then (m, .extended m.expiresAt) else (m, .refused)
    | none =>
      let expiresAt := if m.expiresAt < target then target else m.expiresAt
      (⟨expiresAt, m.extendOperations ++ [(key, target)]⟩, .extended expiresAt)

def State.setCall (s : State H) (i : ℕ) (c : Call) : State H := { s with calls := s.calls.set i c }

/-- `completeExtend`: the first result is recorded, and the machine expires no earlier. -/
def State.completeExtend (s : State H) (i : ℕ) (c : Call) (hostExpiry : ℕ) : State H :=
  match s.operations[c.operationId]? with
  | none => s.setCall i { c with pc := .failed }
  | some op =>
    match op.resultExpiresAt with
    | some recorded =>
      { s with expiresAt := max s.expiresAt recorded }.setCall i { c with pc := .done (toDate recorded) c.replayed }
    | none =>
      -- the constraint of the table
      if fromDate hostExpiry < op.targetExpiresAt then s.setCall i { c with pc := .failed }
      else
        { s with
          expiresAt := max s.expiresAt (fromDate hostExpiry)
          operations := s.operations.set c.operationId { op with resultExpiresAt := some (fromDate hostExpiry) } }.setCall i
          { c with pc := .done hostExpiry c.replayed }

inductive Action
  | extend (key : String) (ttlSeconds now : ℕ) (admitted : Bool)
  /-- The host handles the request of a call. -/
  | apply (i now : ℕ) (refuses : Bool)
  | receive (i : ℕ)
  /-- The call fails while it waits: its time is up, or its answer is lost. -/
  | giveUp (i : ℕ)
  | complete (i : ℕ)

/-- `hash` is the digest of a request, and `maxAhead` how far ahead of its clock the host extends. -/
def step [DecidableEq H] (hash : ℕ → H) (maxAhead : ℕ) (s : State H) : Action → Option (State H)
  | .extend key ttlSeconds now admitted => some (s.beginExtend key (hash ttlSeconds) ttlSeconds now admitted)
  | .apply i now refuses =>
    (s.calls[i]?).bind fun c =>
      if c.inFlight then
        let handled := s.host.extendInternal c.key (c.target * 1000000) now maxAhead refuses
        some ({ s with host := handled.1 }.setCall i { c with inFlight := false, reply := some handled.2 })
      else none
  | .receive i =>
    (s.calls[i]?).bind fun c =>
      match c.pc, c.reply with
      | .waiting, some .refused => some (s.setCall i { c with pc := .failed })
      | .waiting, some (.extended expiresAt) =>
        if expiresAt / 1000000 < c.target then some (s.setCall i { c with pc := .failed })
        else some (s.setCall i { c with pc := .answered (expiresAt / 1000000) })
      | _, _ => none
  | .giveUp i =>
    (s.calls[i]?).bind fun c => if c.pc = .waiting then some (s.setCall i { c with pc := .failed }) else none
  | .complete i =>
    (s.calls[i]?).bind fun c =>
      match c.pc with
      | .answered hostExpiry => some (s.completeExtend i c hostExpiry)
      | _ => none

/-- A machine that has not been extended. -/
def initial (expiresAt hostExpiresAt : ℕ) : State H := ⟨expiresAt, [], ⟨hostExpiresAt, []⟩, []⟩

/-! ### The promise -/

/-- A call belongs to the operation of its key; one that is done has answered what is recorded there. -/
structure Call.Good (c : Call) (operations : List (Operation H)) : Prop where
  operation : ∃ op, operations[c.operationId]? = some op ∧ op.idempotencyKey = c.key ∧
    fromDate c.target = op.targetExpiresAt ∧
    ∀ date replayed, c.pc = .done date replayed → ∃ result, op.resultExpiresAt = some result ∧ date = toDate result
  answered : ∀ hostExpiry, c.pc = .answered hostExpiry → c.target ≤ hostExpiry

/-- Targets are `Date`s and increase in the order in which they were committed, and a key has one. A completed operation
is covered by the expiry of the machine; the host has the latest of its first expiry and the targets that it has applied,
all of which were committed for their keys. -/
structure State.Sound (s : State H) (hostExpiresAt : ℕ) : Prop where
  dates : ∀ op ∈ s.operations, fromDate (toDate op.targetExpiresAt) = op.targetExpiresAt
  ordered : s.operations.Pairwise fun op op' => op.targetExpiresAt ≤ op'.targetExpiresAt
  keys : (s.operations.map Operation.idempotencyKey).Nodup
  completed : ∀ op ∈ s.operations, ∀ result, op.resultExpiresAt = some result →
    op.targetExpiresAt ≤ result ∧ result ≤ s.expiresAt
  calls : ∀ c ∈ s.calls, c.Good s.operations
  applied : ∀ e ∈ s.host.extendOperations, ∃ op ∈ s.operations, op.idempotencyKey = e.1 ∧ op.targetExpiresAt * 1000 = e.2
  host : s.host.expiresAt = (s.host.extendOperations.map Prod.snd).foldl max hostExpiresAt

/-- Every operation stays, with its target and its first result. -/
def Keeps (ops ops' : List (Operation H)) : Prop :=
  ∀ (id : ℕ) (op : Operation H), ops[id]? = some op → ∃ op', ops'[id]? = some op' ∧ op'.idempotencyKey = op.idempotencyKey ∧
    op'.targetExpiresAt = op.targetExpiresAt ∧
    ∀ result, op.resultExpiresAt = some result → op'.resultExpiresAt = some result

/-- Operations stay with their targets and their first results, and nothing expires earlier. -/
structure State.Grows (s t : State H) : Prop where
  kept : Keeps s.operations t.operations
  expiresAt : s.expiresAt ≤ t.expiresAt
  host : s.host.expiresAt ≤ t.host.expiresAt

/-! ### What stays -/

section

variable {s t u : State H} {ops ops' ops'' : List (Operation H)} {op : Operation H} {c : Call} {hostExpiresAt : ℕ}

theorem Keeps.refl (ops : List (Operation H)) : Keeps ops ops := fun _ op h => ⟨op, h, rfl, rfl, fun _ hr => hr⟩

theorem Keeps.trans (h : Keeps ops ops') (h' : Keeps ops' ops'') : Keeps ops ops'' := by
  intro id op hop
  obtain ⟨op', hop', hkey, htarget, hresult⟩ := h id op hop
  obtain ⟨op'', hop'', hkey', htarget', hresult'⟩ := h' id op' hop'
  exact ⟨op'', hop'', hkey'.trans hkey, htarget'.trans htarget, fun r hr => hresult' r (hresult r hr)⟩

theorem Keeps.append (ops : List (Operation H)) (op : Operation H) : Keeps ops (ops ++ [op]) := by
  intro id o ho
  obtain ⟨hid, -⟩ := List.getElem?_eq_some_iff.mp ho
  exact ⟨o, by rw [List.getElem?_append_left hid, ho], rfl, rfl, fun _ hr => hr⟩

/-- An operation that has no result gets one. -/
theorem Keeps.complete {id : ℕ} {result : Option ℕ} (hop : ops[id]? = some op) (hnone : op.resultExpiresAt = none) :
    Keeps ops (ops.set id { op with resultExpiresAt := result }) := by
  intro id' o ho
  by_cases hid : id' = id
  · subst hid
    rw [hop] at ho
    cases ho
    obtain ⟨hlt, -⟩ := List.getElem?_eq_some_iff.mp hop
    refine ⟨_, List.getElem?_set_self hlt, rfl, rfl, fun r hr => ?_⟩
    rw [hnone] at hr
    cases hr
  · exact ⟨o, by rw [List.getElem?_set_ne (Ne.symm hid), ho], rfl, rfl, fun _ hr => hr⟩

theorem Keeps.mem (h : Keeps ops ops') (hop : op ∈ ops) :
    ∃ op' ∈ ops', op'.idempotencyKey = op.idempotencyKey ∧ op'.targetExpiresAt = op.targetExpiresAt := by
  obtain ⟨id, hid⟩ := List.mem_iff_getElem?.mp hop
  obtain ⟨op', hop', hkey, htarget, -⟩ := h id op hid
  exact ⟨op', List.mem_of_getElem? hop', hkey, htarget⟩

theorem Call.Good.keeps (h : c.Good ops) (hkeeps : Keeps ops ops') : c.Good ops' := by
  obtain ⟨op, hop, hkey, htarget, hdone⟩ := h.operation
  obtain ⟨op', hop', hkey', htarget', hresult⟩ := hkeeps c.operationId op hop
  refine ⟨⟨op', hop', hkey'.trans hkey, htarget.trans htarget'.symm, fun date replayed hpc => ?_⟩, h.answered⟩
  obtain ⟨result, hr, hdate⟩ := hdone date replayed hpc
  exact ⟨result, hresult result hr, hdate⟩

theorem State.Grows.refl (s : State H) : s.Grows s := ⟨.refl _, le_rfl, le_rfl⟩

theorem State.Grows.trans (h : s.Grows t) (h' : t.Grows u) : s.Grows u :=
  ⟨h.kept.trans h'.kept, h.expiresAt.trans h'.expiresAt, h.host.trans h'.host⟩

/-! ### Calls -/

/-- A call that has moved on. -/
theorem State.Sound.setCall (h : s.Sound hostExpiresAt) {i : ℕ} (hc : c.Good s.operations) :
    (s.setCall i c).Sound hostExpiresAt :=
  ⟨h.dates, h.ordered, h.keys, h.completed, fun c' hc' => by
    rcases List.mem_or_eq_of_mem_set hc' with hold | rfl
    · exact h.calls c' hold
    · exact hc, h.applied, h.host⟩

/-- One more call. -/
theorem State.Sound.addCall (h : s.Sound hostExpiresAt) (hc : c.Good s.operations) :
    State.Sound { s with calls := s.calls ++ [c] } hostExpiresAt :=
  ⟨h.dates, h.ordered, h.keys, h.completed, fun c' hc' => by
    rcases List.mem_append.mp hc' with hold | hnew
    · exact h.calls c' hold
    · rw [List.mem_singleton.mp hnew]
      exact hc, h.applied, h.host⟩

theorem Call.Good.pc (h : c.Good ops) {pc : Pc} (hdone : ∀ date replayed, pc ≠ .done date replayed)
    (hanswered : ∀ hostExpiry, pc = .answered hostExpiry → c.target ≤ hostExpiry) : Call.Good { c with pc := pc } ops := by
  obtain ⟨op, hop, hkey, htarget, -⟩ := h.operation
  exact ⟨⟨op, hop, hkey, htarget, fun date replayed hpc => absurd hpc (hdone date replayed)⟩, hanswered⟩

theorem Call.Good.failed (h : c.Good ops) : Call.Good { c with pc := .failed } ops :=
  h.pc (fun _ _ hpc => by cases hpc) fun _ hpc => by cases hpc

/-! ### Targets -/

/-- What is committed are `Date`s. -/
theorem State.allocate_date (s : State H) (now ttlSeconds : ℕ) :
    fromDate (toDate (s.allocate now ttlSeconds)) = s.allocate now ttlSeconds := by
  rw [State.allocate, toDate_fromDate]

theorem le_foldl_max (l : List ℕ) (a : ℕ) : a ≤ l.foldl max a ∧ ∀ x ∈ l, x ≤ l.foldl max a := by
  induction l generalizing a with
  | nil => exact ⟨le_rfl, fun x hx => absurd hx List.not_mem_nil⟩
  | cons b l ih =>
    obtain ⟨hinit, hmem⟩ := ih (max a b)
    refine ⟨(le_max_left a b).trans hinit, fun x hx => ?_⟩
    rcases List.mem_cons.mp hx with rfl | hx
    · exact (le_max_right a x).trans hinit
    · exact hmem x hx

theorem State.le_allocate (hop : op ∈ s.operations) (hdate : fromDate (toDate op.targetExpiresAt) = op.targetExpiresAt)
    (now ttlSeconds : ℕ) : op.targetExpiresAt ≤ s.allocate now ttlSeconds := by
  have hcommitted := (le_foldl_max (s.operations.map Operation.targetExpiresAt) (fromDate (toDate s.expiresAt))).2 _
    (List.mem_map_of_mem hop)
  have hmax := hcommitted.trans (le_max_left _ (now + ttlSeconds * 1000000))
  rw [← hdate]
  exact Nat.mul_le_mul_right 1000 (toDate_mono hmax)

/-! ### The host -/

/-- The machine of the daemon has this expiry and these extensions. -/
structure HostMachine.Shows (x : HostMachine) (m : Host.Machine) : Prop where
  expiresAt : m.expiresAt = x.expiresAt
  extendOperations : m.extendOperations = x.extendOperations.map fun e => (e.1, (e.2 : ℤ))

theorem lookup_shown (l : List (String × ℕ)) (key : String) :
    (l.map fun e => (e.1, (e.2 : ℤ))).lookup key = (l.lookup key).map fun time => (time : ℤ) := by
  induction l with
  | nil => rfl
  | cons e l ih =>
    rw [List.map_cons, List.lookup_cons, List.lookup_cons]
    cases key == e.1 with
    | true => rfl
    | false => exact ih

/-- The daemon does the same to its machine, when the lease is the machine's and the target lies ahead. -/
theorem extend_shows {mgr : Host.Manager} {cfg : Host.Config} {id leaseId key : String} {r : ℕ} {x : HostMachine}
    {target now maxAhead : ℕ} {savedAt : Host.Time} {fault : Host.SaveFault} (hfind : mgr.find id = some r)
    (hlease : ¬ ((mgr.objects r).leaseId = "" ∨ leaseId ≠ (mgr.objects r).leaseId))
    (hpersistent : (mgr.objects r).persistent = false) (hshows : x.Shows (mgr.objects r))
    (hnow : now < target) (hahead : target ≤ now + maxAhead) :
    (x.extendInternal key target now maxAhead false).1.Shows
      ((mgr.extend cfg id leaseId key target savedAt fault).1.objects r) := by
  have hwindow : ¬ (target ≤ now ∨ now + maxAhead < target ∨ false = true) := by
    rintro (h | h | h)
    · exact absurd hnow (not_lt.mpr h)
    · exact absurd hahead (not_le.mpr h)
    · cases h
  have hlookup : (mgr.objects r).extendOperations.lookup key =
      (x.extendOperations.lookup key).map fun time => (time : ℤ) := by
    rw [hshows.extendOperations, lookup_shown]
  cases hprior : x.extendOperations.lookup key with
  | some prior =>
    have hfound : (mgr.objects r).extendOperations.lookup key = some (prior : ℤ) := by
      rw [hlookup, hprior]
      rfl
    have hdaemon : (mgr.extend cfg id leaseId key target savedAt fault).1 = mgr := by
      simp only [Host.Manager.extend, hfind, if_neg hlease, hfound]
      split <;> rfl
    have hhost : (x.extendInternal key target now maxAhead false).1 = x := by
      simp only [HostMachine.extendInternal, if_neg hwindow, hprior]
      split <;> rfl
    rw [hdaemon, hhost]
    exact hshows
  | none =>
    have hfound : (mgr.objects r).extendOperations.lookup key = none := by
      rw [hlookup, hprior]
      rfl
    have hdaemon : (mgr.extend cfg id leaseId key target savedAt fault).1.objects r = { mgr.objects r with
        extendOperations := (mgr.objects r).extendOperations ++ [(key, (target : ℤ))]
        expiresAt := if !(mgr.objects r).persistent && (mgr.objects r).expiresAt < target then (target : ℤ)
          else (mgr.objects r).expiresAt } := by
      simp only [Host.Manager.extend, hfind, if_neg hlease, hfound]
      exact Function.update_self r _ mgr.objects
    have hhost : (x.extendInternal key target now maxAhead false).1 =
        ⟨if x.expiresAt < target then target else x.expiresAt, x.extendOperations ++ [(key, target)]⟩ := by
      simp only [HostMachine.extendInternal, if_neg hwindow, hprior]
    rw [hdaemon, hhost]
    refine ⟨?_, ?_⟩
    · show (if (!(mgr.objects r).persistent && decide ((mgr.objects r).expiresAt < target)) = true then (target : ℤ)
        else (mgr.objects r).expiresAt) = _
      rw [hpersistent, hshows.expiresAt]
      by_cases hlt : x.expiresAt < target
      · simp [hlt]
      · simp [hlt]
    · show (mgr.objects r).extendOperations ++ [(key, (target : ℤ))] = _
      rw [hshows.extendOperations, List.map_append]
      rfl

/-- What the host does with a target: it refuses it, has it, or applies it for the first time. -/
theorem extendInternal_cases (m : HostMachine) (key : String) (target now maxAhead : ℕ) (refuses : Bool) :
    (m.extendInternal key target now maxAhead refuses).1 = m ∨
      (m.extendInternal key target now maxAhead refuses).1 =
        ⟨max m.expiresAt target, m.extendOperations ++ [(key, target)]⟩ := by
  unfold HostMachine.extendInternal
  split
  · exact .inl rfl
  · split
    · split
      · exact .inl rfl
      · exact .inl rfl
    · refine .inr ?_
      split
      · rename_i hlt
        rw [max_eq_right hlt.le]
      · rename_i hle
        rw [max_eq_left (not_lt.mp hle)]

/-! ### Steps -/

/-- A new operation, with the call that asked for it. -/
theorem State.Sound.insert (h : s.Sound hostExpiresAt) {key : String} {requestHash : H} {target : ℕ}
    (hkey : key ∉ s.operations.map Operation.idempotencyKey) (hdate : fromDate (toDate target) = target)
    (hle : ∀ op ∈ s.operations, op.targetExpiresAt ≤ target) :
    State.Sound { s with
      operations := s.operations ++ [⟨key, requestHash, target, none⟩]
      calls := s.calls ++ [⟨key, s.operations.length, toDate target, false, true, none, .waiting⟩] } hostExpiresAt := by
  have hkeeps := Keeps.append s.operations ⟨key, requestHash, target, none⟩
  refine ⟨fun op hop => ?_, ?_, ?_, fun op hop result hresult => ?_, fun c hc => ?_, fun e he => ?_, h.host⟩
  · rcases List.mem_append.mp hop with hold | hnew
    · exact h.dates op hold
    · rw [List.mem_singleton.mp hnew]
      exact hdate
  · refine List.pairwise_append.mpr ⟨h.ordered, List.pairwise_singleton _ _, fun op hop op' hop' => ?_⟩
    rw [List.mem_singleton.mp hop']
    exact hle op hop
  · rw [List.map_append, List.nodup_append]
    refine ⟨h.keys, List.nodup_singleton _, fun k hk k' hk' heq => ?_⟩
    rw [List.map_singleton, List.mem_singleton] at hk'
    rw [heq, hk'] at hk
    exact hkey hk
  · rcases List.mem_append.mp hop with hold | hnew
    · exact h.completed op hold result hresult
    · rw [List.mem_singleton.mp hnew] at hresult
      cases hresult
  · rcases List.mem_append.mp hc with hold | hnew
    · exact (h.calls c hold).keeps hkeeps
    · rw [List.mem_singleton.mp hnew]
      exact ⟨⟨⟨key, requestHash, target, none⟩, List.getElem?_concat_length, rfl, hdate, fun _ _ hpc => by cases hpc⟩,
        fun _ hpc => by cases hpc⟩
  · obtain ⟨op, hop, hopkey, htarget⟩ := h.applied e he
    exact ⟨op, List.mem_append_left _ hop, hopkey, htarget⟩

theorem beginExtend_sound [DecidableEq H] (h : s.Sound hostExpiresAt) (key : String) (requestHash : H)
    (ttlSeconds now : ℕ) (admitted : Bool) :
    (s.beginExtend key requestHash ttlSeconds now admitted).Sound hostExpiresAt ∧
      s.Grows (s.beginExtend key requestHash ttlSeconds now admitted) := by
  unfold State.beginExtend
  split
  · rename_i id hid
    split
    · exact ⟨h, .refl s⟩
    · rename_i op hop
      have hkey : op.idempotencyKey = key := by
        obtain ⟨hlt, hfound, -⟩ := List.findIdx?_eq_some_iff_getElem.mp hid
        rw [List.getElem?_eq_getElem hlt] at hop
        rw [← Option.some_injective _ hop]
        simpa using hfound
      have hdate := h.dates op (List.mem_of_getElem? hop)
      split
      · exact ⟨h, .refl s⟩
      · split
        · rename_i result hresult
          refine ⟨h.addCall ⟨⟨op, hop, hkey, hdate, fun date replayed hpc => ?_⟩, fun _ hpc => by cases hpc⟩,
            .refl _, le_rfl, le_rfl⟩
          cases hpc
          exact ⟨result, hresult, rfl⟩
        · exact ⟨h.addCall ⟨⟨op, hop, hkey, hdate, fun _ _ hpc => by cases hpc⟩, fun _ hpc => by cases hpc⟩,
            .refl _, le_rfl, le_rfl⟩
  · rename_i hnone
    split
    · have hkey : key ∉ s.operations.map Operation.idempotencyKey := by
        intro hmem
        obtain ⟨op, hop, hopkey⟩ := List.mem_map.mp hmem
        have hno := List.findIdx?_eq_none_iff.mp hnone op hop
        simp [hopkey] at hno
      refine ⟨h.insert hkey (s.allocate_date now ttlSeconds) fun op hop =>
        State.le_allocate hop (h.dates op hop) now ttlSeconds, Keeps.append _ _, le_rfl, le_rfl⟩
    · exact ⟨h, .refl s⟩

theorem apply_sound {i : ℕ} {m : HostMachine} {reply : Reply} (h : s.Sound hostExpiresAt) (hc : s.calls[i]? = some c)
    (hm : m = s.host ∨
      m = ⟨max s.host.expiresAt (c.target * 1000000), s.host.extendOperations ++ [(c.key, c.target * 1000000)]⟩) :
    ({ s with host := m }.setCall i { c with inFlight := false, reply := some reply }).Sound hostExpiresAt ∧
      s.Grows ({ s with host := m }.setCall i { c with inFlight := false, reply := some reply }) := by
  have hgood := h.calls c (List.mem_of_getElem? hc)
  have hcall : Call.Good { c with inFlight := false, reply := some reply } s.operations :=
    ⟨hgood.operation, hgood.answered⟩
  obtain ⟨op, hop, hkey, htarget, -⟩ := hgood.operation
  rcases hm with rfl | rfl
  · exact ⟨h.setCall hcall, .refl _, le_rfl, le_rfl⟩
  · have hhost : State.Sound { s with host := ⟨max s.host.expiresAt (c.target * 1000000),
        s.host.extendOperations ++ [(c.key, c.target * 1000000)]⟩ } hostExpiresAt := by
      refine ⟨h.dates, h.ordered, h.keys, h.completed, h.calls, fun e he => ?_, ?_⟩
      · rcases List.mem_append.mp he with hold | hnew
        · exact h.applied e hold
        · rw [List.mem_singleton.mp hnew]
          refine ⟨op, List.mem_of_getElem? hop, hkey, ?_⟩
          rw [← htarget, fromDate, Nat.mul_assoc]
      · rw [List.map_append, List.foldl_append, ← h.host]
        rfl
    exact ⟨hhost.setCall hcall, .refl _, le_rfl, le_max_left _ _⟩

/-- What a change of one operation leaves. -/
theorem map_set {A : Type} {id : ℕ} (op' : Operation H) (f : Operation H → A) (hop : ops[id]? = some op)
    (hsame : f op' = f op) : (ops.set id op').map f = ops.map f := by
  apply List.ext_getElem?
  intro j
  rw [List.getElem?_map, List.getElem?_map]
  by_cases hj : j = id
  · subst hj
    obtain ⟨hlt, -⟩ := List.getElem?_eq_some_iff.mp hop
    rw [List.getElem?_set_self hlt, hop, Option.map_some, Option.map_some, hsame]
  · rw [List.getElem?_set_ne (Ne.symm hj)]

/-- The first result of an operation is recorded, and the machine lives as long. -/
theorem State.Sound.record (h : s.Sound hostExpiresAt) {id result : ℕ} (hop : s.operations[id]? = some op)
    (hnone : op.resultExpiresAt = none) (hle : op.targetExpiresAt ≤ result) :
    State.Sound { s with
      expiresAt := max s.expiresAt result
      operations := s.operations.set id { op with resultExpiresAt := some result } } hostExpiresAt ∧
      Keeps s.operations (s.operations.set id { op with resultExpiresAt := some result }) := by
  have hkeeps : Keeps s.operations (s.operations.set id { op with resultExpiresAt := some result }) :=
    Keeps.complete hop hnone
  refine ⟨⟨fun o ho => ?_, ?_, ?_, fun o ho r hr => ?_, fun c hc => (h.calls c hc).keeps hkeeps, fun e he => ?_, h.host⟩,
    hkeeps⟩
  · rcases List.mem_or_eq_of_mem_set ho with hold | rfl
    · exact h.dates o hold
    · exact h.dates op (List.mem_of_getElem? hop)
  · have hordered := List.pairwise_map.mpr h.ordered
    rw [← map_set { op with resultExpiresAt := some result } Operation.targetExpiresAt hop rfl] at hordered
    exact List.pairwise_map.mp hordered
  · rw [map_set { op with resultExpiresAt := some result } Operation.idempotencyKey hop rfl]
    exact h.keys
  · rcases List.mem_or_eq_of_mem_set ho with hold | rfl
    · obtain ⟨htarget, hexpires⟩ := h.completed o hold r hr
      exact ⟨htarget, hexpires.trans (le_max_left _ _)⟩
    · cases hr
      exact ⟨hle, le_max_right _ _⟩
  · obtain ⟨o, ho, hkey, htarget⟩ := h.applied e he
    obtain ⟨o', ho', hkey', htarget'⟩ := hkeeps.mem ho
    exact ⟨o', ho', hkey'.trans hkey, by rw [htarget', htarget]⟩

theorem completeExtend_sound {i hostExpiry : ℕ} (h : s.Sound hostExpiresAt) (hc : s.calls[i]? = some c) :
    (s.completeExtend i c hostExpiry).Sound hostExpiresAt ∧ s.Grows (s.completeExtend i c hostExpiry) := by
  have hgood := h.calls c (List.mem_of_getElem? hc)
  obtain ⟨op, hop, hkey, htarget, -⟩ := hgood.operation
  have hlater : ∀ {expiresAt : ℕ}, s.expiresAt ≤ expiresAt → State.Sound { s with expiresAt := expiresAt } hostExpiresAt :=
    fun hle => ⟨h.dates, h.ordered, h.keys, fun op hop result hresult =>
      ⟨(h.completed op hop result hresult).1, (h.completed op hop result hresult).2.trans hle⟩, h.calls, h.applied, h.host⟩
  unfold State.completeExtend
  rw [hop]
  dsimp only
  split
  · rename_i recorded hrecorded
    refine ⟨(hlater (le_max_left _ recorded)).setCall ⟨⟨op, hop, hkey, htarget, fun date replayed hdone => ?_⟩,
      fun _ hanswered => by cases hanswered⟩, .refl _, le_max_left _ _, le_rfl⟩
    cases hdone
    exact ⟨recorded, hrecorded, rfl⟩
  · rename_i hnone
    split
    · exact ⟨h.setCall hgood.failed, .refl _, le_rfl, le_rfl⟩
    · rename_i hchecked
      have hdone := h.record hop hnone (not_lt.mp hchecked)
      obtain ⟨hlt, -⟩ := List.getElem?_eq_some_iff.mp hop
      refine ⟨hdone.1.setCall ⟨⟨{ op with resultExpiresAt := some (fromDate hostExpiry) }, List.getElem?_set_self hlt, hkey,
        htarget, fun date replayed hpc' => ?_⟩, fun _ hanswered => by cases hanswered⟩, hdone.2, le_max_left _ _, le_rfl⟩
      cases hpc'
      exact ⟨fromDate hostExpiry, rfl, (toDate_fromDate hostExpiry).symm⟩

/-- One step keeps the promise, and takes nothing back. -/
theorem step_sound [DecidableEq H] {hash : ℕ → H} {maxAhead : ℕ} {a : Action} (h : s.Sound hostExpiresAt)
    (hstep : step hash maxAhead s a = some t) : t.Sound hostExpiresAt ∧ s.Grows t := by
  cases a with
  | extend key ttlSeconds now admitted =>
    cases hstep
    exact beginExtend_sound h key (hash ttlSeconds) ttlSeconds now admitted
  | apply i now refuses =>
    obtain ⟨c, hc, hrest⟩ := Option.bind_eq_some_iff.mp hstep
    split at hrest
    · cases hrest
      exact apply_sound h hc (extendInternal_cases _ _ _ _ _ _)
    · cases hrest
  | receive i =>
    obtain ⟨c, hc, hrest⟩ := Option.bind_eq_some_iff.mp hstep
    have hgood := h.calls c (List.mem_of_getElem? hc)
    split at hrest
    · cases hrest
      exact ⟨h.setCall hgood.failed, .refl _, le_rfl, le_rfl⟩
    · split at hrest
      · cases hrest
        exact ⟨h.setCall hgood.failed, .refl _, le_rfl, le_rfl⟩
      · rename_i hchecked
        cases hrest
        refine ⟨h.setCall (hgood.pc (fun _ _ hpc => by cases hpc) fun hostExpiry hpc => ?_), .refl _, le_rfl, le_rfl⟩
        cases hpc
        exact not_lt.mp hchecked
    · cases hrest
  | giveUp i =>
    obtain ⟨c, hc, hrest⟩ := Option.bind_eq_some_iff.mp hstep
    split at hrest
    · cases hrest
      exact ⟨h.setCall (h.calls c (List.mem_of_getElem? hc)).failed, .refl _, le_rfl, le_rfl⟩
    · cases hrest
  | complete i =>
    obtain ⟨c, hc, hrest⟩ := Option.bind_eq_some_iff.mp hstep
    split at hrest
    · cases hrest
      exact completeExtend_sound h hc
    · cases hrest

theorem initial_sound (expiresAt : ℕ) : (initial (H := H) expiresAt hostExpiresAt).Sound hostExpiresAt :=
  ⟨fun _ hop => absurd hop List.not_mem_nil, .nil, .nil, fun _ hop => absurd hop List.not_mem_nil,
    fun _ hc => absurd hc List.not_mem_nil, fun _ he => absurd he List.not_mem_nil, rfl⟩

theorem run_grows [DecidableEq H] {hash : ℕ → H} {maxAhead : ℕ} {actions : List Action} (h : s.Sound hostExpiresAt)
    (hrun : Run (fun s a t => step hash maxAhead s a = some t) s actions t) : t.Sound hostExpiresAt ∧ s.Grows t := by
  induction hrun with
  | nil s => exact ⟨h, .refl s⟩
  | cons hstep _ ih =>
    obtain ⟨hsound, hgrows⟩ := step_sound h hstep
    obtain ⟨hsound', hgrows'⟩ := ih hsound
    exact ⟨hsound', hgrows.trans hgrows'⟩

end

/-- **Extensions.**  In every run of extensions of one machine, and from each of its states on, a key keeps its target and
its first result, targets increase, no expiry decreases, and the host has the latest target that it has applied. -/
theorem extend_idempotent [DecidableEq H] (hash : ℕ → H) (maxAhead expiresAt hostExpiresAt : ℕ)
    (actions later : List Action) (s t : State H)
    (hrun : Run (fun s a t => step hash maxAhead s a = some t) (initial expiresAt hostExpiresAt) actions s)
    (hlater : Run (fun s a t => step hash maxAhead s a = some t) s later t) :
    s.Sound hostExpiresAt ∧ s.Grows t := by
  obtain ⟨hsound, -⟩ := run_grows (initial_sound expiresAt) hrun
  exact ⟨hsound, (run_grows hsound hlater).2⟩

/-- Two calls with one key: the first gives up, its request is applied all the same, and the second finds the target. -/
def retried : List Action :=
  [.extend "key" 60 1000000 true, .giveUp 0, .apply 0 2000000000 false, .extend "key" 60 5000000 true,
    .apply 1 6000000000 false, .receive 1, .complete 1]

def retriedState : State ℕ :=
  ⟨61000000, [⟨"key", 60, 61000000, some 61000000⟩], ⟨61000000000, [("key", 61000000000)]⟩,
    [⟨"key", 0, 61000, false, false, some (.extended 61000000000), .failed⟩,
      ⟨"key", 0, 61000, true, false, some (.extended 61000000000), .done 61000 true⟩]⟩

theorem retried_once : retriedState.Sound 30000000000 ∧ retriedState.Grows retriedState :=
  extend_idempotent id 3600000000000 30000000 30000000000 retried [] retriedState retriedState
    (Run.of_exec (by decide +kernel)) (.nil _)

end Nehemiah.Extend
