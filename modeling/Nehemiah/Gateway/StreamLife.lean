import Nehemiah.Control.StreamRenewals

/-!
# Streams at the gateways

A gateway opens a stream after a lookup at the control plane, which reads the grant and then admits the stream for
`leaseSeconds`.  While the stream is open the gateway looks up its route again on every tick; the answer sets the timer of
`enforceStreamLease`, and anything else than a good answer cancels the stream.  `release` takes the lease back afterwards.

The control plane is that of `Streams`, with all the transactions of other gateways and brokers beside those of the
streams.  Times are in microseconds of the clock of the database; a gateway's clock may be ahead of it by a constant, and
none is behind it.  Timers are served when they are due, and the identities of streams, which are random, are new.

`served_streams_within_limits` is what the leases keep of all the streams that are served, and `revoked_streams_close` by
when a stream closes whose grant has been revoked.  What a stream carries is outside the model.
-/

namespace Nehemiah.StreamLife

open Lib Streams

/-! ### The system -/

/-- The durations that a gateway is configured with. -/
structure Config where
  controlPlaneTimeout : ℕ
  capabilityRevalidationInterval : ℕ
  streamMaxDuration : ℕ

/-- The timeout of a lookup of `revalidateStream`. -/
def Config.revalidationTimeout (c : Config) : ℕ := min c.controlPlaneTimeout c.capabilityRevalidationInterval

/-- How far the control plane is with a lookup. -/
inductive Stage (n : ℕ)
  | sent
  /-- The grant has been read. -/
  | authorized (readAt : ℕ)
  /-- `acquire` runs on a connection. -/
  | admitting (readAt : ℕ) (c : Fin n)
  /-- The lease has been committed, and the answer with its `stream_expires_at` is on its way. -/
  | admitted (readAt streamExpiresAt : ℕ)
  | refused

structure Flight (n : ℕ) where
  sentAt : ℕ
  stage : Stage n

/-- A stream that is being served: when the grant was last read, until when the lease lasts and the context, and the next
tick of `revalidateStream` with its lookup. -/
structure Serving (n : ℕ) where
  readAt : ℕ
  streamExpiresAt : ℕ
  deadline : ℕ
  tick : ℕ
  flight : Option (Flight n)

inductive Phase (n : ℕ)
  | resolving (flight : Flight n)
  | serving (o : Serving n)
  | closed

/-- A request with a capability that expires at `expiresAt`, on a gateway whose clock is `ahead` of that of the database,
or shows the same. -/
structure Stream (n : ℕ) where
  request : StreamAdmissionRequest
  config : Config
  ahead : ℕ
  expiresAt : ℕ
  phase : Phase n

/-- `revoked` are the authorities whose grants are no longer read: revoked, or of a machine or an issuer that is gone. -/
structure State (n : ℕ) where
  control : Streams.State n
  revoked : List String
  streams : List (Stream n)

inductive Act (n : ℕ)
  | elapse (duration : ℕ)
  | control (a : Action n)
  | revoke (authorityId : String)
  | serve (request : StreamAdmissionRequest) (config : Config) (ahead expiresAt : ℕ)
  | read (i : ℕ)
  | admits (i : ℕ) (c : Fin n)
  /-- A lookup that nobody waits for any more, given up by the gateway or sent again by its transport. -/
  | late (i : ℕ) (c : Fin n)
  | answer (i : ℕ) (routeExpiresAt : ℕ)
  | fail (i : ℕ)
  | tick (i : ℕ)
  | close (i : ℕ)
  | release (i : ℕ)

variable {n : ℕ}

def Stream.id (st : Stream n) : String := uuidValue st.request.id

def Stream.flight (st : Stream n) : Option (Flight n) :=
  match st.phase with
  | .resolving f => some f
  | .serving o => o.flight
  | .closed => none

/-- The lookup in progress, or the lack of one, is another. -/
def Phase.setStage (stage : Stage n) : Phase n → Phase n
  | .resolving f => .resolving { f with stage }
  | .serving o => .serving { o with flight := o.flight.map fun f => { f with stage } }
  | .closed => .closed

/-- By when the gateway does something about the stream. -/
def Stream.due (st : Stream n) : Option ℕ :=
  match st.phase with
  | .resolving f => some (f.sentAt + st.config.controlPlaneTimeout)
  | .serving o =>
    match o.flight with
    | none => some o.tick
    | some f => some (f.sentAt + st.config.revalidationTimeout)
  | .closed => none

/-- The timer of `enforceStreamLease` and the deadline of the context. -/
def Stream.expire (now : ℕ) (st : Stream n) : Stream n :=
  match st.phase with
  | .serving o =>
    if now + st.ahead < o.streamExpiresAt ∧ now + st.ahead < o.deadline then st else { st with phase := .closed }
  | _ => st

/-- `toISOString` prints milliseconds. -/
def toMilliseconds (t : ℕ) : ℕ := t / 1000 * 1000

theorem toMilliseconds_le (t : ℕ) : toMilliseconds t ≤ t := Nat.div_mul_le_self t 1000

/-- The lease that the action commits on the connection. -/
def commits (control : Streams.State n) : Action n → Fin n → Option Lease
  | .run d, c =>
    match control.acquires c with
    | some ⟨_, .commit _ _ lease, _, _⟩ => if d = c then some lease else none
    | _ => none
  | _, _ => none

/-- What a lookup learns from an action of the control plane: its transaction goes on, has committed or has ended. -/
def Stage.settle (before after : Streams.State n) (a : Action n) : Stage n → Stage n
  | .admitting readAt c =>
    match after.acquires c, commits before a c with
    | some _, _ => .admitting readAt c
    | none, some lease => .admitted readAt (toMilliseconds lease.expiresAt)
    | none, none => .refused
  | stage => stage

def Stream.settle (before after : Streams.State n) (a : Action n) (st : Stream n) : Stream n :=
  match st.flight with
  | some f => { st with phase := st.phase.setStage (f.stage.settle before after a) }
  | none => st

/-- What other clients do at the control plane. -/
def permitted (streams : List (Stream n)) : Action n → Bool
  | .elapse _ => false
  | .acquire _ request => streams.all fun st => decide (uuidValue request.id ≠ st.id)
  | .release id _ => streams.all fun st => decide (uuidValue id ≠ st.id)
  | _ => true

/-- Nobody has used the id. -/
def fresh (control : Streams.State n) (streams : List (Stream n)) (id : String) : Bool :=
  (streams.all fun st => decide (st.id ≠ id)) && (control.leases.all fun l => decide (l.id ≠ id)) &&
    decide (∀ c, (control.acquires c).all (fun a => decide (a.leaseId ≠ id)) = true)

def Serving.start (st : Stream n) (now readAt streamExpiresAt routeExpiresAt : ℕ) : Serving n :=
  { readAt, streamExpiresAt,
    deadline := min (now + st.ahead + st.config.streamMaxDuration) (min st.expiresAt routeExpiresAt),
    tick := now + st.config.capabilityRevalidationInterval, flight := none }

/-- `Resolve` and its callers take an answer with a lease that is unexpired and lasts no longer than half a minute. -/
def Stream.accepts (st : Stream n) (now streamExpiresAt routeExpiresAt : ℕ) : Bool :=
  decide (now + st.ahead < streamExpiresAt ∧ streamExpiresAt ≤ now + st.ahead + 30000000 ∧
    now + st.ahead < routeExpiresAt)

/-- The gateway gets the answer of a lookup; a context whose deadline has passed is cancelled at once. -/
def Stream.answer (st : Stream n) (now readAt streamExpiresAt routeExpiresAt : ℕ) : Phase n :=
  if st.accepts now streamExpiresAt routeExpiresAt then
    match st.phase with
    | .resolving _ =>
      (Stream.expire now { st with phase := .serving (.start st now readAt streamExpiresAt routeExpiresAt) }).phase
    | .serving o => .serving { o with readAt, streamExpiresAt, flight := none }
    | .closed => .closed
  else .closed

namespace State

variable (tenants : Tenants) (s : State n)

def setPhase (i : ℕ) (phase : Phase n) : State n :=
  { s with streams := s.streams.modify i fun st => { st with phase } }

/-- An action of the control plane, and what it means for the lookups. -/
def run (a : Action n) : Option (State n) :=
  (s.control.step tenants a).map fun control => { s with control, streams := s.streams.map (·.settle s.control control a) }

def next : Act n → Option (State n)
  | .elapse duration =>
    if s.streams.all fun st => st.due.all fun t => decide (s.control.now + duration ≤ t) then
      (s.run tenants (.elapse duration)).map fun t =>
        { t with streams := t.streams.map (·.expire (s.control.now + duration)) }
    else none
  | .control a => if permitted s.streams a then s.run tenants a else none
  | .revoke authorityId => some { s with revoked := authorityId :: s.revoked }
  | .serve request config ahead expiresAt =>
    if fresh s.control s.streams (uuidValue request.id) then
      some { s with streams := s.streams ++ [⟨request, config, ahead, expiresAt, .resolving ⟨s.control.now, .sent⟩⟩] }
    else none
  | .read i =>
    match s.streams[i]? with
    | some st =>
      match st.flight with
      | some ⟨_, .sent⟩ =>
        if st.request.authorityId ∉ s.revoked ∧ s.control.now < st.expiresAt then
          some (s.setPhase i (st.phase.setStage (.authorized s.control.now)))
        else some (s.setPhase i (st.phase.setStage .refused))
      | _ => none
    | none => none
  | .admits i c =>
    match s.streams[i]? with
    | some st =>
      match st.flight with
      | some ⟨_, .authorized readAt⟩ =>
        (s.run tenants (.acquire c st.request)).map fun t => t.setPhase i (st.phase.setStage (.admitting readAt c))
      | _ => none
    | none => none
  | .late i c =>
    match s.streams[i]? with
    | some st => s.run tenants (.acquire c st.request)
    | none => none
  | .answer i routeExpiresAt =>
    match s.streams[i]? with
    | some st =>
      match st.flight with
      | some ⟨_, .admitted readAt streamExpiresAt⟩ =>
        some (s.setPhase i (st.answer s.control.now readAt streamExpiresAt routeExpiresAt))
      | _ => none
    | none => none
  | .fail i =>
    match s.streams[i]? with
    | some st => if st.flight.isSome then some (s.setPhase i .closed) else none
    | none => none
  | .tick i =>
    match s.streams[i]? with
    | some ⟨_, config, _, _, .serving o⟩ =>
      if o.flight.isNone ∧ o.tick ≤ s.control.now then
        some (s.setPhase i (.serving { o with
          tick := o.tick + config.capabilityRevalidationInterval, flight := some ⟨s.control.now, .sent⟩ }))
      else none
    | _ => none
  | .close i =>
    match s.streams[i]? with
    | some ⟨_, _, _, _, .serving _⟩ => some (s.setPhase i .closed)
    | _ => none
  | .release i =>
    match s.streams[i]? with
    | some st =>
      if st.phase matches .closed then s.run tenants (.release st.request.id st.request.instanceId) else none
    | none => none

end State

/-! ### What is known of a stream -/

/-- The gateway may wait from a reading of the grant to the lookup after next. -/
def Config.window (c : Config) : ℕ := c.controlPlaneTimeout + c.capabilityRevalidationInterval

def Stage.Sound (control : Streams.State n) (r : StreamAdmissionRequest) (sentAt : ℕ) : Stage n → Prop
  | .sent => sentAt ≤ control.now
  | .refused => True
  | .authorized readAt => sentAt ≤ readAt ∧ readAt ≤ control.now
  | .admitting readAt c => (sentAt ≤ readAt ∧ readAt ≤ control.now) ∧ ∃ a, control.acquires c = some a ∧ a.request = r
  | .admitted readAt streamExpiresAt =>
    (sentAt ≤ readAt ∧ readAt ≤ control.now) ∧ control.Backed r streamExpiresAt

structure Serving.Sound (control : Streams.State n) (r : StreamAdmissionRequest) (config : Config) (o : Serving n) :
    Prop where
  read : o.readAt ≤ control.now
  backed : control.Backed r o.streamExpiresAt
  idle : o.flight = none → o.tick ≤ o.readAt + config.window
  busy : ∀ f, o.flight = some f → f.sentAt ≤ o.readAt + config.window ∧
    o.tick = f.sentAt + config.capabilityRevalidationInterval

/-- What the control plane has promised. -/
structure Stream.Sound (control : Streams.State n) (st : Stream n) : Prop where
  flight : ∀ f, st.flight = some f → f.stage.Sound control st.request f.sentAt
  serving : ∀ o, st.phase = .serving o → o.Sound control st.request st.config

/-- What the timers have left. -/
structure Stream.Timely (now : ℕ) (st : Stream n) : Prop where
  due : ∀ t, st.due = some t → now ≤ t
  serving : ∀ o, st.phase = .serving o → now + st.ahead < o.streamExpiresAt ∧ now + st.ahead < o.deadline

/-- The streams and the control plane. -/
structure Linked (tenants : Tenants) (s : State n) : Prop where
  good : s.control.Good tenants
  timed : s.control.Timed
  ids : (s.streams.map Stream.id).Nodup
  owned : ∀ st ∈ s.streams, s.control.Owned st.request
  sound : ∀ st ∈ s.streams, st.Sound s.control

structure Inv (tenants : Tenants) (s : State n) : Prop extends Linked tenants s where
  timely : ∀ st ∈ s.streams, st.Timely s.control.now

variable {tenants : Tenants} {s t : State n} {control control' : Streams.State n} {st : Stream n} {i : ℕ}
  {r : StreamAdmissionRequest} {a : Action n} {f : Flight n} {stage : Stage n} {c : Fin n}

/-! ### The control plane goes on -/

theorem now_eq (h : control.step tenants a = some control') (ha : ∀ d, a ≠ .elapse d) : control'.now = control.now := by
  cases Streams.State.does_of_step h with
  | elapse duration => exact absurd rfl (ha duration)
  | _ => rfl

theorem now_le (h : control.step tenants a = some control') : control.now ≤ control'.now := by
  by_cases ha : ∃ d, a = .elapse d
  · obtain ⟨d, rfl⟩ := ha
    cases h
    exact Nat.le_add_right _ _
  · exact (now_eq h (not_exists.mp ha)).ge

/-- A transaction that has not ended is of the same request. -/
theorem request_eq (h : control.step tenants a = some control') {b b' : Acquire} (hb : control.acquires c = some b)
    (hb' : control'.acquires c = some b') : b'.request = b.request := by
  have hsame : ∀ {d : Fin n} {o : Option Acquire}, (∀ b', o = some b' → d = c → b'.request = b.request) →
      (control.set d o).acquires c = some b' → b'.request = b.request := by
    intro d o ho hset
    rw [Streams.State.set_acquires] at hset
    split_ifs at hset with hcd
    · exact ho b' hset hcd.symm
    · rw [hb] at hset
      cases hset
      rfl
  have hkept : control.acquires c = some b' → b'.request = b.request := fun h' => by
    rw [hb] at h'
    cases h'
    rfl
  cases Streams.State.does_of_step h with
  | elapse duration => exact hkept hb'
  | acquire hfree =>
    refine hsame (fun b' _ hd => ?_) hb'
    rw [hd, hb] at hfree
    cases hfree
  | receive hx =>
    refine hsame (fun b' ho hd => ?_) hb'
    cases ho
    rw [hd, hb] at hx
    cases hx
    rfl
  | run hx =>
    refine hsame (fun b' ho hd => ?_) hb'
    rw [hd, hb] at hx
    cases hx
    exact Acquire.run_request ho
  | commit => exact hsame (fun b' ho _ => by cases ho) hb'
  | rollback d => exact hsame (fun b' ho _ => by cases ho) hb'
  | release => exact hkept hb'
  | reapExpired limit => exact hkept hb'

/-- What a commit leaves is the lease that the lookup gets. -/
theorem backed_of_commits (h : control.step tenants a = some control') {b : Acquire} (hb : control.acquires c = some b)
    (hr : b.request = r) (howned : control.Owned r) {lease : Lease} (hcommits : commits control a c = some lease) :
    control'.Backed r lease.expiresAt := by
  cases a with
  | run d =>
    obtain ⟨request, statement, stamp, deleted⟩ := b
    rw [commits, hb] at hcommits
    cases statement with
    | commit o p l =>
      dsimp only at hcommits
      split_ifs at hcommits with hd
      cases hcommits
      subst hd
      simp only [Streams.State.step, hb] at h
      split at h
      · cases h
      · split_ifs at h
        cases h
        have hid : uuidValue request.id = uuidValue r.id := by
          rw [← hr]
        refine fun _ => ⟨lease, List.mem_append_right _ List.mem_cons_self, ?_, le_rfl⟩
        exact (howned.acquires _ _ hb hid).2 o p lease rfl
    | _ => cases hcommits
  | _ => cases hcommits

variable {sentAt now : ℕ}

theorem Stage.Sound.settle (h : stage.Sound control r sentAt) (hstep : control.step tenants a = some control')
    (hspares : a.Spares r) (hgood : control.Good tenants) (htimed : control.Timed) (howned : control.Owned r) :
    (stage.settle control control' a).Sound control' r sentAt := by
  have hnow := now_le hstep
  cases stage with
  | sent => exact le_trans h hnow
  | refused => trivial
  | authorized readAt => exact ⟨h.1, h.2.trans hnow⟩
  | admitted readAt e => exact ⟨⟨h.1.1, h.1.2.trans hnow⟩, h.2.step hspares hgood htimed howned hstep⟩
  | admitting readAt c =>
    obtain ⟨⟨hsent, hread⟩, b, hb, hr⟩ := h
    simp only [Stage.settle]
    split
    · next b' hb' => exact ⟨⟨hsent, hread.trans hnow⟩, b', hb', (request_eq hstep hb hb').trans hr⟩
    · next lease _ hcommits =>
      refine ⟨⟨hsent, hread.trans hnow⟩, fun hlate => ?_⟩
      obtain ⟨l, hl, hrow, hle⟩ := backed_of_commits hstep hb hr howned hcommits
        (hlate.trans_le (toMilliseconds_le _))
      exact ⟨l, hl, hrow, (toMilliseconds_le _).trans hle⟩
    · trivial

/-! ### Steps of a stream -/

theorem Stream.Sound.setStage (h : st.Sound control) (hf : st.flight = some f)
    (hstage : stage.Sound control st.request f.sentAt) :
    Stream.Sound control { st with phase := st.phase.setStage stage } := by
  obtain ⟨request, config, ahead, expiresAt, phase⟩ := st
  cases phase with
  | resolving f' =>
    cases hf
    refine ⟨fun g hg => ?_, fun o ho => nomatch ho⟩
    cases hg
    exact hstage
  | serving o =>
    have hf : o.flight = some f := hf
    have ho := h.serving o rfl
    refine ⟨fun g hg => ?_, fun o' ho' => ?_⟩
    · have hg : o.flight.map (fun f => { f with stage }) = some g := hg
      rw [hf] at hg
      cases hg
      exact hstage
    · cases ho'
      refine ⟨ho.read, ho.backed, fun hidle => ?_, fun g hg => ?_⟩
      · have hidle : o.flight.map (fun f => { f with stage }) = none := hidle
        rw [hf] at hidle
        cases hidle
      · have hg : o.flight.map (fun f => { f with stage }) = some g := hg
        rw [hf] at hg
        cases hg
        exact ho.busy f hf
  | closed => cases hf

theorem due_setStage (st : Stream n) (stage : Stage n) :
    Stream.due { st with phase := st.phase.setStage stage } = st.due := by
  obtain ⟨request, config, ahead, expiresAt, phase⟩ := st
  cases phase with
  | resolving f => rfl
  | serving o =>
    obtain ⟨readAt, e, deadline, tick, flight⟩ := o
    cases flight <;> rfl
  | closed => rfl

theorem Stream.Timely.setStage (h : st.Timely now) (stage : Stage n) :
    Stream.Timely now { st with phase := st.phase.setStage stage } := by
  refine ⟨fun t ht => h.due t ?_, fun o ho => ?_⟩
  · rw [← due_setStage st stage]
    exact ht
  · cases hp : st.phase with
    | serving o' =>
      simp only [hp, Phase.setStage] at ho
      cases ho
      exact h.serving o' hp
    | resolving f => simp [hp, Phase.setStage] at ho
    | closed => simp [hp, Phase.setStage] at ho

theorem Stream.Timely.settle (h : st.Timely now) : (st.settle control control' a).Timely now := by
  unfold Stream.settle
  split
  · exact h.setStage _
  · exact h

theorem Stream.Sound.settle (h : st.Sound control) (hstep : control.step tenants a = some control')
    (hspares : st.phase ≠ .closed → a.Spares st.request) (hgood : control.Good tenants) (htimed : control.Timed)
    (howned : control.Owned st.request) : (st.settle control control' a).Sound control' := by
  -- the parts of the stream that no lookup has to do with
  have hkeep : ∀ flight : Option (Flight n), ∀ o, st.phase = .serving o → (o.flight = none ↔ flight = none) →
      (∀ f, flight = some f → ∃ g, o.flight = some g ∧ g.sentAt = f.sentAt) →
      Serving.Sound control' st.request st.config { o with flight } := by
    intro flight o ho hnone hsome
    have hs := h.serving o ho
    refine ⟨hs.read.trans (now_le hstep), hs.backed.step (hspares (by simp [ho])) hgood htimed howned hstep,
      fun hidle => hs.idle (hnone.mpr hidle), fun f hf => ?_⟩
    obtain ⟨g, hg, hsent⟩ := hsome f hf
    rw [← hsent]
    exact hs.busy g hg
  unfold Stream.settle
  split
  · next f hf =>
    have hopen : st.phase ≠ .closed := fun hc => by simp [Stream.flight, hc] at hf
    have hstage := (h.flight f hf).settle hstep (hspares hopen) hgood htimed howned
    obtain ⟨request, config, ahead, expiresAt, phase⟩ := st
    cases phase with
    | resolving f' =>
      cases hf
      refine ⟨fun g hg => ?_, fun o ho => nomatch ho⟩
      cases hg
      exact hstage
    | serving o =>
      have hf : o.flight = some f := hf
      refine ⟨fun g hg => ?_, fun o' ho' => ?_⟩
      · have hg : o.flight.map (fun g => { g with stage := f.stage.settle control control' a }) = some g := hg
        rw [hf] at hg
        cases hg
        exact hstage
      · cases ho'
        refine hkeep _ o rfl ?_ fun g hg => ?_
        · rw [hf]
          simp
        · rw [hf] at hg
          cases hg
          exact ⟨f, hf, rfl⟩
    | closed => cases hf
  · next hf =>
    refine ⟨fun g hg => ?_, fun o ho => ?_⟩
    · rw [hf] at hg
      cases hg
    · refine hkeep o.flight o ho Iff.rfl fun g hg => ?_
      exact ⟨g, hg, rfl⟩

theorem Stream.Sound.expire (h : st.Sound control) : (st.expire now).Sound control := by
  unfold Stream.expire
  split
  · split_ifs
    · exact h
    · exact ⟨fun f hf => (nomatch hf), fun o ho => nomatch ho⟩
  · exact h

theorem Stream.Timely.expire (h : ∀ t, st.due = some t → now ≤ t) : (st.expire now).Timely now := by
  unfold Stream.expire
  split
  · next o ho =>
    split_ifs with hlive
    · refine ⟨h, fun o' ho' => ?_⟩
      rw [ho] at ho'
      cases ho'
      exact hlive
    · exact ⟨fun t ht => (nomatch ht), fun o ho => nomatch ho⟩
  · next hne => exact ⟨h, fun o ho => absurd ho (hne o)⟩

theorem request_settle (st : Stream n) : (st.settle control control' a).request = st.request := by
  unfold Stream.settle
  split <;> rfl

theorem request_expire (st : Stream n) (now : ℕ) : (st.expire now).request = st.request := by
  unfold Stream.expire
  split
  · split_ifs <;> rfl
  · rfl

theorem expire_phase (st : Stream n) (now : ℕ) (phase : Phase n) :
    ({ st with phase := (Stream.expire now { st with phase }).phase } : Stream n) = Stream.expire now { st with phase } := by
  unfold Stream.expire
  cases phase with
  | serving o =>
    dsimp only
    split_ifs <;> rfl
  | _ => rfl

theorem due_settle (st : Stream n) : (st.settle control control' a).due = st.due := by
  unfold Stream.settle
  split
  · exact due_setStage _ _
  · rfl

/-! ### Every run -/

variable {phase : Phase n} {readAt : ℕ}

theorem mem_setPhase {st' : Stream n} (h : st' ∈ (s.setPhase i phase).streams) :
    st' ∈ s.streams ∨ ∃ st, s.streams[i]? = some st ∧ st' = { st with phase } := by
  obtain ⟨j, hj⟩ := List.mem_iff_getElem?.mp h
  rw [State.setPhase, List.getElem?_modify] at hj
  obtain ⟨st, hst, rfl⟩ := Option.map_eq_some_iff.mp hj
  by_cases hij : i = j
  · rw [if_pos hij]
    exact .inr ⟨st, hij ▸ hst, rfl⟩
  · rw [if_neg hij]
    exact .inl (List.mem_of_getElem? hst)

theorem ids_setPhase (s : State n) (i : ℕ) (phase : Phase n) :
    (s.setPhase i phase).streams.map Stream.id = s.streams.map Stream.id := by
  refine List.ext_getElem? fun j => ?_
  rw [State.setPhase, List.getElem?_map, List.getElem?_map, List.getElem?_modify]
  cases s.streams[j]? with
  | none => rfl
  | some st =>
    split_ifs <;> rfl

theorem Inv.setPhase (h : Inv tenants s) (hst : s.streams[i]? = some st)
    (hsound : Stream.Sound s.control { st with phase }) (htimely : Stream.Timely s.control.now { st with phase }) :
    Inv tenants (s.setPhase i phase) where
  good := h.good
  timed := h.timed
  ids := by
    rw [ids_setPhase]
    exact h.ids
  owned st' hst' := by
    obtain hmem | ⟨x, hx, rfl⟩ := mem_setPhase hst'
    · exact h.owned st' hmem
    · exact h.owned x (List.mem_of_getElem? hx)
  sound st' hst' := by
    obtain hmem | ⟨x, hx, rfl⟩ := mem_setPhase hst'
    · exact h.sound st' hmem
    · rw [hst] at hx
      cases hx
      exact hsound
  timely st' hst' := by
    obtain hmem | ⟨x, hx, rfl⟩ := mem_setPhase hst'
    · exact h.timely st' hmem
    · rw [hst] at hx
      cases hx
      exact htimely

theorem Inv.close (h : Inv tenants s) (hst : s.streams[i]? = some st) : Inv tenants (s.setPhase i .closed) :=
  h.setPhase hst ⟨fun _ hf => (nomatch hf), fun _ ho => nomatch ho⟩ ⟨fun _ ht => (nomatch ht), fun _ ho => nomatch ho⟩

/-- An action of the control plane that takes no lease of a stream. -/
theorem Linked.run (h : Linked tenants s) (hrespects : ∀ st ∈ s.streams, a.Respects st.request)
    (hspares : ∀ st ∈ s.streams, st.phase ≠ .closed → a.Spares st.request) (hrun : s.run tenants a = some t) :
    Linked tenants t := by
  obtain ⟨control, hstep, rfl⟩ := Option.map_eq_some_iff.mp hrun
  refine ⟨h.good.step hstep, h.timed.step h.good hstep, ?_, fun st hst => ?_, fun st hst => ?_⟩
  · have hsame : (s.streams.map fun st => st.settle s.control control a).map Stream.id = s.streams.map Stream.id := by
      rw [List.map_map]
      refine List.map_congr_left fun st _ => ?_
      rw [Function.comp_apply, Stream.id, request_settle, Stream.id]
    rw [hsame]
    exact h.ids
  · obtain ⟨x, hx, rfl⟩ := List.mem_map.mp hst
    rw [request_settle]
    exact (h.owned x hx).step (hrespects x hx) h.good hstep
  · obtain ⟨x, hx, rfl⟩ := List.mem_map.mp hst
    exact (h.sound x hx).settle hstep (hspares x hx) h.good h.timed (h.owned x hx)

theorem Inv.run (h : Inv tenants s) (hrespects : ∀ st ∈ s.streams, a.Respects st.request)
    (hspares : ∀ st ∈ s.streams, st.phase ≠ .closed → a.Spares st.request) (ha : ∀ d, a ≠ .elapse d)
    (hrun : s.run tenants a = some t) : Inv tenants t := by
  refine ⟨h.toLinked.run hrespects hspares hrun, ?_⟩
  obtain ⟨control, hstep, rfl⟩ := Option.map_eq_some_iff.mp hrun
  intro st hst
  obtain ⟨x, hx, rfl⟩ := List.mem_map.mp hst
  show Stream.Timely control.now _
  rw [now_eq hstep ha]
  exact (h.timely x hx).settle

/-- Time passes up to the next timer, and the streams whose time is over are cancelled. -/
theorem Inv.elapse (h : Inv tenants s) {d : ℕ} (hdue : ∀ st ∈ s.streams, ∀ t, st.due = some t → s.control.now + d ≤ t)
    (hrun : s.run tenants (.elapse d) = some t) :
    Inv tenants { t with streams := t.streams.map (·.expire (s.control.now + d)) } := by
  have hlinked : Linked tenants t := by
    refine h.toLinked.run (fun _ _ => ?_) (fun _ _ _ => ?_) hrun <;> trivial
  obtain ⟨control, hstep, rfl⟩ := Option.map_eq_some_iff.mp hrun
  cases hstep
  refine ⟨⟨hlinked.good, hlinked.timed, ?_, fun st hst => ?_, fun st hst => ?_⟩, fun st hst => ?_⟩
  · have hids := hlinked.ids
    rw [List.map_map]
    rw [List.map_congr_left fun st _ => show _ = Stream.id st by
      rw [Function.comp_apply, Stream.id, Stream.id, request_expire]]
    exact hids
  · obtain ⟨x, hx, rfl⟩ := List.mem_map.mp hst
    rw [request_expire]
    exact hlinked.owned x hx
  · obtain ⟨x, hx, rfl⟩ := List.mem_map.mp hst
    exact (hlinked.sound x hx).expire
  · obtain ⟨x, hx, rfl⟩ := List.mem_map.mp hst
    obtain ⟨y, hy, rfl⟩ := List.mem_map.mp hx
    refine Stream.Timely.expire fun t ht => hdue y hy t ?_
    rwa [due_settle] at ht

theorem Linked.respects (h : Linked tenants s) (hst : s.streams[i]? = some st) (c : Fin n) :
    ∀ x ∈ s.streams, (Action.acquire c st.request).Respects x.request := by
  intro x hx hid
  have heq : st = x := key_inj h.ids (List.mem_of_getElem? hst) hx hid
  rw [heq]

theorem Inv.acquire (h : Inv tenants s) (hst : s.streams[i]? = some st)
    (hrun : s.run tenants (.acquire c st.request) = some t) : Inv tenants t := by
  refine h.run (h.respects hst c) (fun _ _ _ => ?_) (fun _ => ?_) hrun
  · trivial
  · simp

theorem setStage_self (hf : st.flight = some f) : st.phase.setStage f.stage = st.phase := by
  obtain ⟨request, config, ahead, expiresAt, phase⟩ := st
  cases phase with
  | resolving f' =>
    cases hf
    rfl
  | serving o =>
    obtain ⟨readAt, e, deadline, tick, flight⟩ := o
    have hf : flight = some f := hf
    rw [hf]
    rfl
  | closed => rfl

theorem settle_authorized (hf : st.flight = some ⟨sentAt, .authorized readAt⟩) : st.settle control control' a = st := by
  unfold Stream.settle
  rw [hf]
  dsimp only [Stage.settle]
  rw [show st.phase.setStage (.authorized readAt) = st.phase from setStage_self hf]

/-- The control plane begins the transaction of a lookup that has read its grant. -/
theorem Inv.admits (h : Inv tenants s) (hst : s.streams[i]? = some st)
    (hf : st.flight = some ⟨sentAt, .authorized readAt⟩)
    (hrun : (s.run tenants (.acquire c st.request)).map
      (fun t => t.setPhase i (st.phase.setStage (.admitting readAt c))) = some t) : Inv tenants t := by
  obtain ⟨u, hu, rfl⟩ := Option.map_eq_some_iff.mp hrun
  have hinv := h.acquire hst hu
  have hread : sentAt ≤ readAt ∧ readAt ≤ s.control.now := (h.sound st (List.mem_of_getElem? hst)).flight _ hf
  obtain ⟨control, hstep, rfl⟩ := Option.map_eq_some_iff.mp hu
  have hst' : (s.streams.map fun x => x.settle s.control control (.acquire c st.request))[i]? = some st := by
    rw [List.getElem?_map, hst, Option.map_some, settle_authorized hf]
  have hnow : control.now = s.control.now := now_eq hstep (by simp)
  have hacquire : control.acquires c = some ⟨st.request, .organization, none, []⟩ := by
    cases Streams.State.does_of_step hstep
    rw [Streams.State.set_acquires, if_pos rfl]
  have hmem := List.mem_of_getElem? hst'
  refine hinv.setPhase hst' ((hinv.sound st hmem).setStage hf ⟨⟨hread.1, ?_⟩, _, hacquire, rfl⟩)
    ((hinv.timely st hmem).setStage _)
  rw [hnow]
  exact hread.2

/-- The gateway has the answer to a lookup. -/
theorem Inv.answer (h : Inv tenants s) (hst : s.streams[i]? = some st) {streamExpiresAt : ℕ}
    (hf : st.flight = some ⟨sentAt, .admitted readAt streamExpiresAt⟩) (routeExpiresAt : ℕ) :
    Inv tenants (s.setPhase i (st.answer s.control.now readAt streamExpiresAt routeExpiresAt)) := by
  have hmem := List.mem_of_getElem? hst
  obtain ⟨⟨hsent, hread⟩, hbacked⟩ := (h.sound st hmem).flight _ hf
  have hsent : sentAt ≤ readAt := hsent
  have htimely := h.timely st hmem
  have hdue := htimely.due
  unfold Stream.answer
  split_ifs with haccepts
  · simp only [Stream.accepts, decide_eq_true_eq] at haccepts
    obtain ⟨hlive, -, -⟩ := haccepts
    split
    · next f hp =>
      simp only [Stream.flight, hp] at hf
      cases hf
      have hnow : s.control.now ≤ sentAt + st.config.controlPlaneTimeout := hdue _ (by simp [Stream.due, hp])
      have hsound : Stream.Sound s.control
          { st with phase := .serving (.start st s.control.now readAt streamExpiresAt routeExpiresAt) } := by
        refine ⟨fun f hf => (nomatch hf), fun o ho => ?_⟩
        cases ho
        refine ⟨hread, hbacked, fun _ => ?_, fun f hf => (nomatch hf)⟩
        show s.control.now + st.config.capabilityRevalidationInterval ≤
          readAt + (st.config.controlPlaneTimeout + st.config.capabilityRevalidationInterval)
        omega
      refine h.setPhase hst ?_ ?_
      · rw [expire_phase]
        exact hsound.expire
      · rw [expire_phase]
        refine Stream.Timely.expire fun t ht => ?_
        cases ht
        exact Nat.le_add_right _ _
    · next o hp =>
      simp only [Stream.flight, hp] at hf
      have htick : o.tick = sentAt + st.config.capabilityRevalidationInterval :=
        (((h.sound st hmem).serving o hp).busy _ hf).2
      have hnow : s.control.now ≤ sentAt + st.config.revalidationTimeout := hdue _ (by simp [Stream.due, hp, hf])
      have hmin : st.config.revalidationTimeout ≤ st.config.capabilityRevalidationInterval := min_le_right _ _
      refine h.setPhase hst ⟨fun f hf => (nomatch hf), fun o' ho' => ?_⟩ ⟨fun t ht => ?_, fun o' ho' => ?_⟩
      · cases ho'
        refine ⟨hread, hbacked, fun _ => ?_, fun f hf => (nomatch hf)⟩
        show o.tick ≤ readAt + (st.config.controlPlaneTimeout + st.config.capabilityRevalidationInterval)
        omega
      · cases ht
        show s.control.now ≤ o.tick
        omega
      · cases ho'
        exact ⟨hlive, (htimely.serving o hp).2⟩
    · exact h.close hst
  · exact h.close hst

/-- The ticker of `revalidateStream`. -/
theorem Inv.tick (h : Inv tenants s) (hst : s.streams[i]? = some st) {o : Serving n} (hp : st.phase = .serving o)
    (hidle : o.flight = none) (htick : o.tick ≤ s.control.now) :
    Inv tenants (s.setPhase i (.serving { o with
      tick := o.tick + st.config.capabilityRevalidationInterval, flight := some ⟨s.control.now, .sent⟩ })) := by
  have hmem := List.mem_of_getElem? hst
  have ho := (h.sound st hmem).serving o hp
  have htimely := h.timely st hmem
  have hnow : s.control.now ≤ o.tick := htimely.due _ (by simp [Stream.due, hp, hidle])
  refine h.setPhase hst ⟨fun f hf => ?_, fun o' ho' => ?_⟩ ⟨fun t ht => ?_, fun o' ho' => ?_⟩
  · cases hf
    exact le_refl s.control.now
  · cases ho'
    refine ⟨ho.read, ho.backed, fun hnone => (nomatch hnone), fun f hf => ?_⟩
    cases hf
    exact ⟨hnow.trans (ho.idle hidle), by rw [le_antisymm hnow htick]⟩
  · cases ht
    exact Nat.le_add_right _ _
  · cases ho'
    exact htimely.serving o hp

theorem fresh_spec {id : String} (h : fresh s.control s.streams id = true) : (∀ st ∈ s.streams, st.id ≠ id) ∧
    (∀ l ∈ s.control.leases, l.id ≠ id) ∧ ∀ c a, s.control.acquires c = some a → a.leaseId ≠ id := by
  simp only [fresh, Bool.and_eq_true, List.all_eq_true, decide_eq_true_eq] at h
  refine ⟨h.1.1, h.1.2, fun c a ha => ?_⟩
  have hc := h.2 c
  rw [ha] at hc
  simpa using hc

theorem Inv.serve (h : Inv tenants s) {request : StreamAdmissionRequest} (config : Config) (ahead expiresAt : ℕ)
    (hfresh : fresh s.control s.streams (uuidValue request.id) = true) :
    Inv tenants { s with
      streams := s.streams ++ [⟨request, config, ahead, expiresAt, .resolving ⟨s.control.now, .sent⟩⟩] } := by
  obtain ⟨hstreams, hleases, hacquires⟩ := fresh_spec hfresh
  have hmem : ∀ st ∈ s.streams ++ [(⟨request, config, ahead, expiresAt, .resolving ⟨s.control.now, .sent⟩⟩ : Stream n)],
      st ∈ s.streams ∨ st = ⟨request, config, ahead, expiresAt, .resolving ⟨s.control.now, .sent⟩⟩ := fun st hst =>
    (List.mem_append.mp hst).imp_right List.mem_singleton.mp
  refine ⟨⟨h.good, h.timed, ?_, fun st hst => ?_, fun st hst => ?_⟩, fun st hst => ?_⟩
  · rw [List.map_append, List.nodup_append]
    refine ⟨h.ids, List.nodup_singleton _, fun x hx y hy => ?_⟩
    obtain ⟨st, hst, rfl⟩ := List.mem_map.mp hx
    rw [List.mem_singleton.mp hy]
    exact hstreams st hst
  · obtain hst | rfl := hmem st hst
    · exact h.owned st hst
    · exact ⟨fun l hl hid => absurd hid (hleases l hl), fun c a ha hid => absurd hid (hacquires c a ha)⟩
  · obtain hst | rfl := hmem st hst
    · exact h.sound st hst
    · refine ⟨fun f hf => ?_, fun o ho => nomatch ho⟩
      cases hf
      exact le_refl s.control.now
  · obtain hst | rfl := hmem st hst
    · exact h.timely st hst
    · refine ⟨fun t ht => ?_, fun o ho => nomatch ho⟩
      cases ht
      exact Nat.le_add_right _ _

theorem permitted_spares (ha : permitted s.streams a = true) :
    (∀ st ∈ s.streams, a.Respects st.request) ∧ (∀ st ∈ s.streams, a.Spares st.request) ∧ ∀ d, a ≠ .elapse d := by
  cases a with
  | elapse duration => cases ha
  | acquire c request =>
    simp only [permitted, List.all_eq_true, decide_eq_true_eq] at ha
    exact ⟨fun st hst hid => absurd hid (ha st hst), fun _ _ => trivial, fun d => by simp⟩
  | release id instanceId =>
    simp only [permitted, List.all_eq_true, decide_eq_true_eq] at ha
    exact ⟨fun _ _ => trivial, fun st hst => ha st hst, fun d => by simp⟩
  | _ => exact ⟨fun _ _ => trivial, fun _ _ => trivial, fun d => by simp⟩

theorem Inv.next (h : Inv tenants s) {act : Act n} (hnext : s.next tenants act = some t) : Inv tenants t := by
  cases act with
  | elapse duration =>
    simp only [State.next] at hnext
    split_ifs at hnext with hdue
    obtain ⟨u, hu, rfl⟩ := Option.map_eq_some_iff.mp hnext
    refine h.elapse (fun st hst d hd => ?_) hu
    have hall := List.all_eq_true.mp hdue st hst
    rw [hd] at hall
    exact of_decide_eq_true hall
  | control a =>
    simp only [State.next] at hnext
    split_ifs at hnext with ha
    obtain ⟨hrespects, hspares, helapse⟩ := permitted_spares ha
    exact h.run hrespects (fun st hst _ => hspares st hst) helapse hnext
  | revoke authorityId =>
    cases hnext
    exact ⟨⟨h.good, h.timed, h.ids, h.owned, h.sound⟩, h.timely⟩
  | serve request config ahead expiresAt =>
    simp only [State.next] at hnext
    split_ifs at hnext with hfresh
    cases hnext
    exact h.serve config ahead expiresAt hfresh
  | read i =>
    simp only [State.next] at hnext
    split at hnext
    · next st hst =>
      have hmem := List.mem_of_getElem? hst
      split at hnext
      · next sentAt hf =>
        have hsent : sentAt ≤ s.control.now := (h.sound st hmem).flight _ hf
        split_ifs at hnext <;> cases hnext
        · exact h.setPhase hst ((h.sound st hmem).setStage hf ⟨hsent, le_rfl⟩) ((h.timely st hmem).setStage _)
        · exact h.setPhase hst ((h.sound st hmem).setStage hf trivial) ((h.timely st hmem).setStage _)
      · cases hnext
    · cases hnext
  | admits i c =>
    simp only [State.next] at hnext
    split at hnext
    · next st hst =>
      split at hnext
      · next sentAt readAt hf =>
        exact h.admits hst hf hnext
      · cases hnext
    · cases hnext
  | late i c =>
    simp only [State.next] at hnext
    split at hnext
    · next st hst => exact h.acquire hst hnext
    · cases hnext
  | answer i routeExpiresAt =>
    simp only [State.next] at hnext
    split at hnext
    · next st hst =>
      split at hnext
      · next sentAt readAt streamExpiresAt hf =>
        cases hnext
        exact h.answer hst hf routeExpiresAt
      · cases hnext
    · cases hnext
  | fail i =>
    simp only [State.next] at hnext
    split at hnext
    · next st hst =>
      split_ifs at hnext
      cases hnext
      exact h.close hst
    · cases hnext
  | tick i =>
    simp only [State.next] at hnext
    split at hnext
    · next request config ahead expiresAt o hst =>
      split_ifs at hnext with htick
      cases hnext
      exact h.tick hst rfl (Option.isNone_iff_eq_none.mp htick.1) htick.2
    · cases hnext
  | close i =>
    simp only [State.next] at hnext
    split at hnext
    · next hst =>
      cases hnext
      exact h.close hst
    · cases hnext
  | release i =>
    simp only [State.next] at hnext
    split at hnext
    · next st hst =>
      split at hnext
      · next hclosed =>
        refine h.run (fun _ _ => ?_) (fun x hx hopen => ?_) (fun _ => ?_) hnext
        · trivial
        · intro hid
          have heq : st = x := key_inj h.ids (List.mem_of_getElem? hst) hx hid
          rw [← heq] at hopen
          exact hopen hclosed
        · simp
      · cases hnext
    · cases hnext

/-! ### Readings of the grant -/

def Stage.reads : Stage n → Option ℕ
  | .authorized readAt | .admitting readAt _ | .admitted readAt _ => some readAt
  | .sent | .refused => none

/-- When the grant was read, for the stream and for the lookup in progress. -/
def Stream.Reads (st : Stream n) (t : ℕ) : Prop :=
  (∃ f, st.flight = some f ∧ f.stage.reads = some t) ∨ ∃ o, st.phase = .serving o ∧ o.readAt = t

/-- The grants of the authority are no longer read, and were not after the time. -/
structure Before (authorityId : String) (time : ℕ) (s : State n) : Prop where
  revoked : authorityId ∈ s.revoked
  reads : ∀ st ∈ s.streams, st.request.authorityId = authorityId → ∀ t, st.Reads t → t ≤ time

variable {authorityId : String} {time : ℕ}

theorem reads_settle (stage : Stage n) : ∀ t, (stage.settle control control' a).reads = some t → stage.reads = some t := by
  intro t ht
  cases stage with
  | admitting readAt c =>
    simp only [Stage.settle] at ht
    split at ht
    · exact ht
    · exact ht
    · cases ht
  | _ => exact ht

theorem Stream.Reads.of_setStage {t : ℕ} (hf : st.flight = some f)
    (h : Stream.Reads { st with phase := st.phase.setStage stage } t) : stage.reads = some t ∨ st.Reads t := by
  obtain ⟨request, config, ahead, expiresAt, phase⟩ := st
  cases phase with
  | resolving f' =>
    obtain ⟨g, hg, ht⟩ | ⟨o, ho, -⟩ := h
    · cases hg
      exact .inl ht
    · cases ho
  | serving o =>
    have hf : o.flight = some f := hf
    obtain ⟨g, hg, ht⟩ | ⟨o', ho, ht⟩ := h
    · have hg : o.flight.map (fun f => { f with stage }) = some g := hg
      rw [hf] at hg
      cases hg
      exact .inl ht
    · cases ho
      exact .inr (.inr ⟨o, rfl, ht⟩)
  | closed => cases hf

theorem Stream.Reads.of_settle {t : ℕ} (h : (st.settle control control' a).Reads t) : st.Reads t := by
  unfold Stream.settle at h
  split at h
  · next f hf =>
    obtain ht | hr := h.of_setStage hf
    · exact .inl ⟨f, hf, reads_settle _ t ht⟩
    · exact hr
  · exact h

theorem Stream.Reads.of_expire {t : ℕ} (h : (st.expire now).Reads t) : st.Reads t := by
  unfold Stream.expire at h
  split at h
  · split_ifs at h
    · exact h
    · obtain ⟨f, hf, -⟩ | ⟨o, ho, -⟩ := h
      · cases hf
      · cases ho
  · exact h

theorem not_reads_closed {t : ℕ} (h : Stream.Reads ({ st with phase := .closed } : Stream n) t) : False := by
  obtain ⟨f, hf, -⟩ | ⟨o, ho, -⟩ := h
  · cases hf
  · cases ho

theorem Stream.Reads.of_answer {t streamExpiresAt routeExpiresAt : ℕ}
    (hf : st.flight = some ⟨sentAt, .admitted readAt streamExpiresAt⟩)
    (h : Stream.Reads { st with phase := st.answer now readAt streamExpiresAt routeExpiresAt } t) : st.Reads t := by
  have hread : t = readAt → st.Reads t := fun ht => .inl ⟨_, hf, by rw [ht]; rfl⟩
  unfold Stream.answer at h
  split_ifs at h
  · split at h
    · rw [expire_phase] at h
      obtain ⟨f, hf, -⟩ | ⟨o, ho, ht⟩ := h.of_expire
      · cases hf
      · cases ho
        exact hread ht.symm
    · obtain ⟨f, hf, -⟩ | ⟨o, ho, ht⟩ := h
      · cases hf
      · cases ho
        exact hread ht.symm
    · exact (not_reads_closed h).elim
  · exact (not_reads_closed h).elim

theorem Before.setPhase (h : Before authorityId time s) (hst : s.streams[i]? = some st)
    (hreads : st.request.authorityId = authorityId → ∀ t, Stream.Reads { st with phase } t → t ≤ time) :
    Before authorityId time (s.setPhase i phase) := by
  refine ⟨h.revoked, fun st' hst' hid t ht => ?_⟩
  obtain hmem | ⟨x, hx, rfl⟩ := mem_setPhase hst'
  · exact h.reads st' hmem hid t ht
  · rw [hst] at hx
    cases hx
    exact hreads hid t ht

theorem Before.run (h : Before authorityId time s) (hrun : s.run tenants a = some t) : Before authorityId time t := by
  obtain ⟨control, -, rfl⟩ := Option.map_eq_some_iff.mp hrun
  refine ⟨h.revoked, fun st hst hid d hd => ?_⟩
  obtain ⟨x, hx, rfl⟩ := List.mem_map.mp hst
  rw [request_settle] at hid
  exact h.reads x hx hid d hd.of_settle

theorem Before.close (h : Before authorityId time s) (hst : s.streams[i]? = some st) :
    Before authorityId time (s.setPhase i .closed) :=
  h.setPhase hst fun _ _ ht => (not_reads_closed ht).elim

theorem Before.next (h : Before authorityId time s) {act : Act n} (hnext : s.next tenants act = some t) :
    Before authorityId time t := by
  have hold : ∀ {i : ℕ} {st : Stream n}, s.streams[i]? = some st → st.request.authorityId = authorityId →
      ∀ d, st.Reads d → d ≤ time := fun hst => h.reads _ (List.mem_of_getElem? hst)
  cases act with
  | elapse duration =>
    simp only [State.next] at hnext
    split_ifs at hnext
    obtain ⟨u, hu, rfl⟩ := Option.map_eq_some_iff.mp hnext
    have hu := h.run hu
    refine ⟨hu.revoked, fun st hst hid d hd => ?_⟩
    obtain ⟨x, hx, rfl⟩ := List.mem_map.mp hst
    rw [request_expire] at hid
    exact hu.reads x hx hid d hd.of_expire
  | control a =>
    simp only [State.next] at hnext
    split_ifs at hnext
    exact h.run hnext
  | revoke id =>
    cases hnext
    exact ⟨List.mem_cons_of_mem _ h.revoked, h.reads⟩
  | serve request config ahead expiresAt =>
    simp only [State.next] at hnext
    split_ifs at hnext
    cases hnext
    refine ⟨h.revoked, fun st hst hid d hd => ?_⟩
    obtain hst | hst := List.mem_append.mp hst
    · exact h.reads st hst hid d hd
    · rw [List.mem_singleton.mp hst] at hd
      obtain ⟨f, hf, hr⟩ | ⟨o, ho, -⟩ := hd
      · cases hf
        cases hr
      · cases ho
  | read i =>
    simp only [State.next] at hnext
    split at hnext
    · next st hst =>
      split at hnext
      · next sentAt hf =>
        split_ifs at hnext with hallowed <;> cases hnext
        · refine h.setPhase hst fun hid => ?_
          rw [hid] at hallowed
          exact absurd h.revoked hallowed.1
        · refine h.setPhase hst fun hid d hd => ?_
          obtain hd | hd := hd.of_setStage hf
          · cases hd
          · exact hold hst hid d hd
      · cases hnext
    · cases hnext
  | admits i c =>
    simp only [State.next] at hnext
    split at hnext
    · next st hst =>
      split at hnext
      · next sentAt readAt hf =>
        obtain ⟨u, hu, rfl⟩ := Option.map_eq_some_iff.mp hnext
        have hbefore := h.run hu
        refine ⟨hbefore.revoked, fun st' hst' hid d hd => ?_⟩
        obtain hmem | ⟨x, hx, rfl⟩ := mem_setPhase hst'
        · exact hbefore.reads st' hmem hid d hd
        · obtain ⟨control, -, rfl⟩ := Option.map_eq_some_iff.mp hu
          rw [List.getElem?_map, hst] at hx
          cases hx
          dsimp only at hid hd
          rw [settle_authorized hf] at hid hd
          obtain hd | hd := hd.of_setStage hf
          · exact hold hst hid d (.inl ⟨_, hf, hd⟩)
          · exact hold hst hid d hd
      · cases hnext
    · cases hnext
  | late i c =>
    simp only [State.next] at hnext
    split at hnext
    · exact h.run hnext
    · cases hnext
  | answer i routeExpiresAt =>
    simp only [State.next] at hnext
    split at hnext
    · next st hst =>
      split at hnext
      · next sentAt readAt streamExpiresAt hf =>
        cases hnext
        exact h.setPhase hst fun hid d hd => hold hst hid d (hd.of_answer hf)
      · cases hnext
    · cases hnext
  | fail i =>
    simp only [State.next] at hnext
    split at hnext
    · next st hst =>
      split_ifs at hnext
      cases hnext
      exact h.close hst
    · cases hnext
  | tick i =>
    simp only [State.next] at hnext
    split at hnext
    · next request config ahead expiresAt o hst =>
      split_ifs at hnext
      cases hnext
      refine h.setPhase hst fun hid d hd => ?_
      obtain ⟨f, hf, hr⟩ | ⟨o', ho, ht⟩ := hd
      · cases hf
        cases hr
      · cases ho
        exact hold hst hid d (.inr ⟨o, rfl, ht⟩)
    · cases hnext
  | close i =>
    simp only [State.next] at hnext
    split at hnext
    · next hst =>
      cases hnext
      exact h.close hst
    · cases hnext
  | release i =>
    simp only [State.next] at hnext
    split at hnext
    · split at hnext
      · exact h.run hnext
      · cases hnext
    · cases hnext

/-! ### Results -/

def start (now : ℕ) (revoked : List String) : State n := ⟨⟨now, [], fun _ => none⟩, revoked, []⟩

theorem Inv.start (now : ℕ) (revoked : List String) : Inv tenants (start now revoked : State n) where
  good := by
    refine Streams.State.Start.good ⟨⟨fun o _ => ?_, fun p _ => ?_⟩, fun l hl => (nomatch hl), fun _ => rfl⟩
    · exact ⟨Nat.zero_le _, Nat.zero_le _⟩
    · exact ⟨Nat.zero_le _, Nat.zero_le _⟩
  timed := ⟨List.nodup_nil, fun l hl => (nomatch hl), fun c a ha => nomatch ha⟩
  ids := List.nodup_nil
  owned st hst := nomatch hst
  sound st hst := nomatch hst
  timely st hst := nomatch hst

def Stream.serving (st : Stream n) : Bool :=
  match st.phase with
  | .serving _ => true
  | _ => false

/-- A stream that is served has its lease, unexpired, in the table. -/
theorem Inv.leased (h : Inv tenants s) (hst : st ∈ s.streams) (hserving : st.serving = true) :
    ∃ l ∈ s.control.leases, l = st.request.lease l.expiresAt ∧ s.control.now < l.expiresAt := by
  unfold Stream.serving at hserving
  split at hserving
  · next o hp =>
    have hnow : s.control.now < o.streamExpiresAt :=
      (Nat.le_add_right _ _).trans_lt ((h.timely st hst).serving o hp).1
    obtain ⟨l, hl, hrow, hle⟩ := ((h.sound st hst).serving o hp).backed hnow
    exact ⟨l, hl, hrow, hnow.trans_le hle⟩
  · cases hserving

/-- The streams of a scope use no more than its leases. -/
theorem Inv.usage_le (h : Inv tenants s) {scope : Lease → Bool} {p : Stream n → Bool}
    (hscope : ∀ st ∈ s.streams, p st = true → ∀ e, scope (st.request.lease e) = true) :
    ((s.streams.filter fun st => st.serving && p st).map (·.request.usage)).sum ≤
      usage scope s.control.now s.control.leases := by
  have hids : ((s.streams.filter fun st => st.serving && p st).map Stream.id).Nodup :=
    h.ids.sublist (List.filter_sublist.map _)
  have hrows : ∀ st ∈ s.streams.filter fun st => st.serving && p st, ∃ l ∈ s.control.leases, l.id = st.id ∧
      scope l = true ∧ s.control.now < l.expiresAt ∧ l.usage = st.request.usage := by
    intro st hst
    obtain ⟨hmem, hp⟩ := List.mem_filter.mp hst
    rw [Bool.and_eq_true] at hp
    obtain ⟨l, hl, hrow, hlive⟩ := h.leased hmem hp.1
    refine ⟨l, hl, ?_, ?_, hlive, ?_⟩
    · rw [hrow]
      rfl
    · rw [hrow]
      exact hscope st hmem hp.2 _
    · rw [hrow]
      rfl
  exact sum_le_load usage_nonneg hids hrows

/-- **The streams that gateways serve are within the limits.**  Whatever the control plane, other gateways and the clients
do, and whichever requests and answers are lost, if no gateway's clock is behind that of the database: every stream that
is served has its own unexpired lease in the table, and so the streams that all gateways serve at once, and the bandwidth
reserved for them, are within the limits of every organization and every project. -/
theorem served_streams_within_limits {now : ℕ} {revoked : List String} {acts : List (Act n)}
    (h : Run (fun s act t => s.next tenants act = some t) (start now revoked) acts s) :
    (∀ st ∈ s.streams, st.serving = true →
      ∃ l ∈ s.control.leases, l = st.request.lease l.expiresAt ∧ s.control.now < l.expiresAt) ∧
    (∀ o ∈ tenants.organizations, ((s.streams.filter fun st => st.serving &&
      decide (uuidValue st.request.organizationId = o.id)).map (·.request.usage)).sum ≤
        (o.limit.maxGatewayStreams, o.limit.maxGatewayBandwidthBps)) ∧
    ∀ p ∈ tenants.projects, ((s.streams.filter fun st => st.serving &&
      decide (uuidValue st.request.organizationId = p.organizationId ∧ uuidValue st.request.projectId = p.id)).map
        (·.request.usage)).sum ≤ (p.limit.maxGatewayStreams, p.limit.maxGatewayBandwidthBps) := by
  have hinv : Inv tenants s := h.invariant (fun _ _ _ hs hstep => hs.next hstep) (Inv.start now revoked)
  refine ⟨fun st hst => hinv.leased hst, fun o ho => ?_, fun p hp => ?_⟩
  · refine (hinv.usage_le fun st _ hst e => ?_).trans (hinv.good.within.1 o ho)
    exact beq_iff_eq.mpr (of_decide_eq_true hst)
  · refine (hinv.usage_le fun st _ hst e => ?_).trans (hinv.good.within.2 p hp)
    obtain ⟨horg, hproject⟩ := of_decide_eq_true hst
    exact Bool.and_eq_true_iff.mpr ⟨beq_iff_eq.mpr horg, beq_iff_eq.mpr hproject⟩

/-- The lookup of a stream up to its answer. -/
def sampleLookup (i : ℕ) (c : Fin 2) : List (Act 2) :=
  [.read i, .admits i c] ++ (List.replicate 7 [.control (.receive c), .control (.run c)]).flatten

def sampleConfig : Config := ⟨10000000, 5000000, 3600000000⟩

/-- A stream is opened and looked up again after five seconds; the lookup of a second one is given up. -/
def sampleActs (c c' : Fin 2) : List (Act 2) :=
  [.serve (sampleRequest "00000000-0000-4000-8000-00000000000a") sampleConfig 2000 900000000] ++ sampleLookup 0 c ++
    [.answer 0 900000000, .elapse 5000000, .tick 0,
      .serve (sampleRequest "00000000-0000-4000-8000-00000000000b") sampleConfig 0 900000000] ++ sampleLookup 0 c' ++
    [.answer 0 900000000, .fail 1]

theorem served_streams_within_limits_renewal :
    ∃ s : State 2, s.streams.map Stream.serving = [true, false] ∧ s.control.now = 5000000 ∧
      ((s.streams.filter fun st => st.serving && decide (uuidValue st.request.organizationId =
        "00000000-0000-4000-8000-000000000001")).map (·.request.usage)).sum ≤ (1, 10) := by
  have hrun : ∃ s : State 2, Run (fun s act t => s.next sampleTenants act = some t) (start 0 []) (sampleActs 0 1) s ∧
      (s.streams.map Stream.serving = [true, false] ∧ s.control.now = 5000000) :=
    Run.of_test (by decide +kernel)
  obtain ⟨s, hrun, hserving, hnow⟩ := hrun
  have horganization := (served_streams_within_limits hrun).2.1 ⟨"00000000-0000-4000-8000-000000000001", ⟨1, 10⟩⟩
    List.mem_cons_self
  exact ⟨s, hserving, hnow, horganization⟩

theorem Inv.reads_le (h : Inv tenants s) (hst : st ∈ s.streams) {t : ℕ} (ht : st.Reads t) : t ≤ s.control.now := by
  obtain ⟨f, hf, hr⟩ | ⟨o, ho, rfl⟩ := ht
  · have hstage := (h.sound st hst).flight f hf
    obtain ⟨sentAt, stage⟩ := f
    cases stage with
    | authorized readAt =>
      cases hr
      exact hstage.2
    | admitting readAt c =>
      cases hr
      exact hstage.1.2
    | admitted readAt e =>
      cases hr
      exact hstage.1.2
    | _ => cases hr
  · exact ((h.sound st hst).serving o ho).read

/-- **A revocation closes the streams.**  When the grants of an authority are no longer read, no stream of it is still served
once the timeout of a first lookup, a revalidation interval and the timeout of a revalidation have passed, whatever answers
are on their way. -/
theorem revoked_streams_close {now : ℕ} {revoked : List String} {acts acts' : List (Act n)}
    (hs : Run (fun s act t => s.next tenants act = some t) (start now revoked) acts s)
    (hrevoked : authorityId ∈ s.revoked) (h : Run (fun s act t => s.next tenants act = some t) s acts' t) :
    ∀ st ∈ t.streams, st.request.authorityId = authorityId → s.control.now + (st.config.controlPlaneTimeout +
      st.config.capabilityRevalidationInterval + st.config.revalidationTimeout) < t.control.now →
        st.serving = false := by
  have hinv : Inv tenants s := hs.invariant (fun _ _ _ hs hstep => hs.next hstep) (Inv.start now revoked)
  have hinv' : Inv tenants t := h.invariant (fun _ _ _ hs hstep => hs.next hstep) hinv
  have hbefore : Before authorityId s.control.now t := h.invariant (fun _ _ _ hs hstep => hs.next hstep)
    ⟨hrevoked, fun st hst _ d hd => hinv.reads_le hst hd⟩
  intro st hst hid hlate
  by_contra hserving
  rw [Bool.not_eq_false] at hserving
  unfold Stream.serving at hserving
  split at hserving
  · next o hp =>
    have hread : o.readAt ≤ s.control.now := hbefore.reads st hst hid _ (.inr ⟨o, hp, rfl⟩)
    have hsound := (hinv'.sound st hst).serving o hp
    have hwindow : st.config.window = st.config.controlPlaneTimeout + st.config.capabilityRevalidationInterval := rfl
    have hdue := (hinv'.timely st hst).due
    cases hf : o.flight with
    | none =>
      have hnow : t.control.now ≤ o.tick := hdue _ (by simp [Stream.due, hp, hf])
      have htick := hsound.idle hf
      omega
    | some f =>
      have hnow : t.control.now ≤ f.sentAt + st.config.revalidationTimeout := hdue _ (by simp [Stream.due, hp, hf])
      have hsent := (hsound.busy f hf).1
      omega
  · cases hserving

/-- The grant is revoked while the lookup that has read it is still under way. -/
theorem revoked_streams_close_late :
    ∃ s t : State 2, "m1" ∈ s.revoked ∧ s.control.now = 0 ∧ t.control.now = 20000001 ∧
      ∀ st ∈ t.streams, st.serving = false := by
  have hs : ∃ s : State 2, Run (fun s act t => s.next sampleTenants act = some t) (start 0 [])
      [.serve (sampleRequest "00000000-0000-4000-8000-00000000000a") sampleConfig 0 900000000, .read 0, .revoke "m1"] s ∧
      ("m1" ∈ s.revoked ∧ s.control.now = 0 ∧
        (exec (fun s act => s.next sampleTenants act) s ([.admits 0 1] ++
          (List.replicate 7 [.control (.receive 1), .control (.run 1)]).flatten ++
          [.answer 0 900000000, .elapse 5000000, .tick 0, .read 0, .fail 0, .elapse 15000001])).any
            (fun t => decide (t.control.now = 20000001 ∧ t.streams.map (fun st =>
              (st.request.authorityId, st.config.controlPlaneTimeout + st.config.capabilityRevalidationInterval +
                st.config.revalidationTimeout)) = [("m1", 20000000)])) = true) :=
    Run.of_test (by decide +kernel)
  obtain ⟨s, hs, hrevoked, hnow, hrest⟩ := hs
  obtain ⟨t, ht, hlate, hstreams⟩ := Run.of_test hrest
  refine ⟨s, t, hrevoked, hnow, hlate, fun st hst => ?_⟩
  have hmem : (st.request.authorityId, st.config.controlPlaneTimeout + st.config.capabilityRevalidationInterval +
      st.config.revalidationTimeout) ∈ [("m1", 20000000)] := by
    rw [← hstreams]
    exact List.mem_map.mpr ⟨st, hst, rfl⟩
  rw [List.mem_singleton, Prod.mk.injEq] at hmem
  refine revoked_streams_close hs hrevoked ht st hst hmem.1 ?_
  rw [hmem.2, hnow, hlate]
  decide

end Nehemiah.StreamLife
