import Nehemiah.Lib.Run

/-!
# How the control plane shuts down

Requests and jobs are admitted through the coordinator, which keeps each in a set until it settles.  The shutdown stops
the admission, takes the work in the sets at that moment, and waits until the server is closed and that work has settled,
or until its grace is over.  Then it closes the database and the telemetry, with a grace of their own, and ends the
process if either wait was for the clock.

The graces are timers, so that they may end at any time that the wait is for.  The stages are `Stage` and the steps
`next`; `StageInv` says what holds in each stage, `Reported` that failed closes are reported, and `shutdown_contained`
what they come to over every run.  The work itself, and what it still does after its connection is gone, is outside.
-/

namespace Nehemiah.Shutdown

open Lib

inductive WorkKind
  | request | job

structure Work where
  kind : WorkKind
  settled : Bool

inductive ServerState
  | listening | closing | closed | failed
deriving DecidableEq

inductive Resource
  | opened | closing | closed | failed
deriving DecidableEq

/-- What a close leaves. -/
def Resource.after : Bool → Resource
  | true => .failed
  | false => .closed

/-- The close has settled. -/
def Resource.ended : Resource → Bool
  | .closed | .failed => true
  | _ => false

/-- `ShutdownPhase`, the names of what may fail. -/
inductive ErrorPhase
  | stopTimers | serverClose | serverForceClose | databaseClose | telemetryClose

/-- Where the shutdown is: before it, at the race of the drain with its grace, at that of the finalizers, or done. -/
inductive Stage
  | serving
  | draining (snapshot : List ℕ)
  | finalizing (drained : Bool)
  | done (drained finalized : Bool)
deriving DecidableEq

/-- `ControlPlaneShutdown` with all the work that it has admitted and its dependencies.  The work in `requests` and
`jobs` is given by its place in `works`. -/
structure State where
  accepting : Bool
  works : List Work
  requests : List ℕ
  jobs : List ℕ
  rejected : ℕ
  server : ServerState
  stage : Stage
  forced : Bool
  database : Resource
  telemetry : Resource
  terminations : ℕ
  errors : List ErrorPhase

def start : State := ⟨true, [], [], [], 0, .listening, .serving, false, .opened, .opened, 0, []⟩

/-- What the callback of `server.close` is called with. -/
inductive CloseResult
  | ok | notRunning | error

inductive Act
  | runRequest
  | runJob
  | settle (i : ℕ)
  | shutdown (timersThrow closeThrows : Bool)
  | serverCallback (result : CloseResult)
  | graceful
  | graceOver (closeThrows : Bool)
  | databaseSettles (fails : Bool)
  | telemetrySettles (fails : Bool)
  | finalized
  | finalizerGraceOver

namespace State

/-- `#track`. -/
def track (s : State) (kind : WorkKind) : State :=
  match kind with
  | .request => { s with works := s.works ++ [⟨kind, false⟩], requests := s.requests ++ [s.works.length] }
  | .job => { s with works := s.works ++ [⟨kind, false⟩], jobs := s.jobs ++ [s.works.length] }

/-- Work is taken out of its set when it settles. -/
def settle (s : State) (i : ℕ) (w : Work) : State :=
  let works := s.works.set i { w with settled := true }
  match w.kind with
  | .request => { s with works := works, requests := s.requests.filter (· ≠ i) }
  | .job => { s with works := works, jobs := s.jobs.filter (· ≠ i) }

def report (s : State) (failed : Bool) (phase : ErrorPhase) : State :=
  { s with errors := s.errors ++ if failed then [phase] else [] }

/-- `#execute` up to its first wait. -/
def execute (s : State) (timersThrow closeThrows : Bool) : State :=
  { s with
    accepting := false
    server := if closeThrows then .failed else .closing
    stage := .draining (s.requests ++ s.jobs) }.report timersThrow .stopTimers |>.report closeThrows .serverClose

/-- `#execute` after the first wait: the finalizers are called. -/
def finalize (s : State) (drained : Bool) : State :=
  { s with stage := .finalizing drained, database := .closing, telemetry := .closing }

/-- `#execute` after the second wait. -/
def finish (s : State) (drained finalized : Bool) : State :=
  { s with
    stage := .done drained finalized
    terminations := if drained && finalized then s.terminations else s.terminations + 1 }

end State

def next (s : State) : Act → Option State
  | .runRequest => some (if s.accepting then s.track .request else { s with rejected := s.rejected + 1 })
  | .runJob => some (if s.accepting then s.track .job else s)
  | .settle i =>
    match s.works[i]? with
    | some w => if w.settled then none else some (s.settle i w)
    | none => none
  | .shutdown timersThrow closeThrows =>
    -- the promise of the first call is kept
    some (if s.stage = .serving then s.execute timersThrow closeThrows else s)
  | .serverCallback result =>
    if s.server = .closing then
      some (match result with
        | .ok | .notRunning => { s with server := .closed }
        | .error => { s with server := .failed }.report true .serverClose)
    else none
  | .graceful =>
    match s.stage with
    | .draining snapshot =>
      if s.server = .closed ∧ ∀ i ∈ snapshot, (s.works[i]?).all Work.settled then some (s.finalize true) else none
    | _ => none
  | .graceOver closeThrows =>
    match s.stage with
    | .draining _ => some ({ s with forced := true }.report closeThrows .serverForceClose |>.finalize false)
    | _ => none
  | .databaseSettles fails =>
    if s.database = .closing then some ({ s with database := .after fails }.report fails .databaseClose) else none
  | .telemetrySettles fails =>
    if s.telemetry = .closing then some ({ s with telemetry := .after fails }.report fails .telemetryClose) else none
  | .finalized =>
    match s.stage with
    | .finalizing drained =>
      if s.database.ended = true ∧ s.telemetry.ended = true then some (s.finish drained true) else none
    | _ => none
  | .finalizerGraceOver =>
    match s.stage with
    | .finalizing drained => some (s.finish drained false)
    | _ => none

/-! ### What is tracked -/

def State.tracked (s : State) : WorkKind → List ℕ
  | .request => s.requests
  | .job => s.jobs

def State.Unsettled (s : State) (i : ℕ) : Prop := ∃ kind, s.works[i]? = some ⟨kind, false⟩

/-- The server is closed and all the work that was ever admitted has settled. -/
def State.Drained (s : State) : Prop := s.server = .closed ∧ ∀ i, ¬s.Unsettled i

def StageInv (s : State) : Prop :=
  match s.stage with
  | .serving => s.database = .opened ∧ s.telemetry = .opened ∧ s.forced = false ∧ s.terminations = 0
  | .draining snapshot =>
    (∀ i, s.Unsettled i → i ∈ snapshot) ∧ s.database = .opened ∧ s.telemetry = .opened ∧ s.forced = false ∧
      s.terminations = 0
  | .finalizing drained =>
    (drained = true → s.Drained) ∧ s.forced = !drained ∧ s.database ≠ .opened ∧ s.telemetry ≠ .opened ∧
      s.terminations = 0
  | .done drained finalized =>
    (drained = true → s.Drained) ∧ s.forced = !drained ∧
      (finalized = true → s.database.ended = true ∧ s.telemetry.ended = true) ∧
      s.database ≠ .opened ∧ s.telemetry ≠ .opened ∧ s.terminations = if drained && finalized then 0 else 1

structure Inv (s : State) : Prop where
  accepting : s.accepting = true ↔ s.stage = .serving
  tracked : ∀ kind i, i ∈ s.tracked kind ↔ s.works[i]? = some ⟨kind, false⟩
  stage : StageInv s

theorem Inv.start : Inv start where
  accepting := by decide
  tracked kind i := by cases kind <;> simp [State.tracked, Shutdown.start]
  stage := ⟨rfl, rfl, rfl, rfl⟩

variable {s t : State}

/-- A resource stays as it is, or settles. -/
def Resource.Goes (x y : Resource) : Prop := y = x ∨ x = .closing ∧ y.ended = true

variable {x : Resource} {as : List Act}

theorem Resource.ended_iff : x.ended = true ↔ x = .closed ∨ x = .failed := by
  cases x <;> simp [Resource.ended]

theorem Resource.ended_after (fails : Bool) : (Resource.after fails).ended = true := by
  cases fails <;> rfl

theorem Resource.Goes.opened_iff {y : Resource} (h : x.Goes y) : y = .opened ↔ x = .opened := by
  obtain rfl | ⟨rfl, hy⟩ := h
  · exact Iff.rfl
  · cases y <;> simp [Resource.ended] at hy ⊢

theorem Resource.Goes.ended {y : Resource} (h : x.Goes y) (hx : x.ended = true) : y.ended = true := by
  obtain rfl | ⟨-, hy⟩ := h
  · exact hx
  · exact hy

/-- Once the shutdown has begun, steps that settle work and close the server, and that settle its resources, keep what
is known of its stage. -/
theorem StageInv.mono (h : StageInv s) (hstage : t.stage = s.stage) (hforced : t.forced = s.forced)
    (hterm : t.terminations = s.terminations) (hserver : s.server = .closed → t.server = .closed)
    (hworks : s.stage ≠ .serving → ∀ i, t.Unsettled i → s.Unsettled i)
    (hdatabase : s.database.Goes t.database) (htelemetry : s.telemetry.Goes t.telemetry) : StageInv t := by
  unfold StageInv at h ⊢
  rw [hstage, hforced, hterm]
  cases hcase : s.stage <;> rw [hcase] at h hworks <;> dsimp only at h ⊢
  case serving => exact ⟨hdatabase.opened_iff.mpr h.1, htelemetry.opened_iff.mpr h.2.1, h.2.2⟩
  case draining snapshot =>
    obtain ⟨hsnapshot, hd, ht, hrest⟩ := h
    exact ⟨fun i hi => hsnapshot i (hworks (by simp) i hi), hdatabase.opened_iff.mpr hd, htelemetry.opened_iff.mpr ht, hrest⟩
  case finalizing drained =>
    obtain ⟨hdrained, hf, hd, ht, hrest⟩ := h
    refine ⟨fun hdr => ?_, hf, mt hdatabase.opened_iff.mp hd, mt htelemetry.opened_iff.mp ht, hrest⟩
    exact ⟨hserver (hdrained hdr).1, fun i hi => (hdrained hdr).2 i (hworks (by simp) i hi)⟩
  case done drained finalized =>
    obtain ⟨hdrained, hf, hfinal, hd, ht, hrest⟩ := h
    refine ⟨fun hdr => ?_, hf, fun hfin => ?_, mt hdatabase.opened_iff.mp hd, mt htelemetry.opened_iff.mp ht, hrest⟩
    · exact ⟨hserver (hdrained hdr).1, fun i hi => (hdrained hdr).2 i (hworks (by simp) i hi)⟩
    · exact ⟨hdatabase.ended (hfinal hfin).1, htelemetry.ended (hfinal hfin).2⟩

/-- A step that leaves the work and its sets as they are. -/
theorem Inv.keep (h : Inv s) (haccepting : t.accepting = s.accepting) (hstage : t.stage = s.stage)
    (hworks : t.works = s.works) (htracked : ∀ kind, t.tracked kind = s.tracked kind) (hinv : StageInv t) : Inv t where
  accepting := by rw [haccepting, hstage, h.accepting]
  tracked kind i := by rw [htracked, hworks, h.tracked]
  stage := hinv

theorem Inv.track (h : Inv s) (hs : s.stage = .serving) (kind : WorkKind) : Inv (s.track kind) := by
  have hworks : (s.track kind).works = s.works ++ [⟨kind, false⟩] := by cases kind <;> rfl
  have hstage : (s.track kind).stage = s.stage := by cases kind <;> rfl
  refine ⟨?_, fun kind' i => ?_, ?_⟩
  · have hkept : (s.track kind).accepting = s.accepting := by cases kind <;> rfl
    rw [hkept, hstage, h.accepting]
  · have hset : i ∈ (s.track kind).tracked kind' ↔ i ∈ s.tracked kind' ∨ kind' = kind ∧ i = s.works.length := by
      cases kind <;> cases kind' <;> simp [State.track, State.tracked]
    rw [hset, hworks, h.tracked, List.getElem?_append]
    split_ifs with hi
    · have hne : i ≠ s.works.length := hi.ne
      simp [hne]
    · rw [List.getElem?_eq_none (not_lt.mp hi)]
      have hcons : ∀ j, ([⟨kind, false⟩] : List Work)[j]? = some ⟨kind', false⟩ ↔ kind' = kind ∧ j = 0 := by
        intro j
        cases j with
        | zero => simp [eq_comm]
        | succ j => simp
      rw [hcons]
      have hj : i - s.works.length = 0 ↔ i = s.works.length := by omega
      rw [hj]
      simp
  · refine h.stage.mono hstage ?_ ?_ ?_ (fun hne => absurd hs hne) ?_ ?_ <;> cases kind <;> simp [State.track, Resource.Goes]

theorem Inv.settle (h : Inv s) {i : ℕ} {w : Work} (hw : s.works[i]? = some w) : Inv (s.settle i w) := by
  have hworks : (s.settle i w).works = s.works.set i { w with settled := true } := by
    unfold State.settle
    cases w.kind <;> rfl
  have hlen : i < s.works.length := (List.getElem?_eq_some_iff.mp hw).1
  have hstage : (s.settle i w).stage = s.stage := by
    unfold State.settle
    cases w.kind <;> rfl
  have hget : ∀ j kind, (s.settle i w).works[j]? = some ⟨kind, false⟩ ↔ j ≠ i ∧ s.works[j]? = some ⟨kind, false⟩ := by
    intro j kind
    rw [hworks, List.getElem?_set]
    split_ifs with hj
    · simp [hj]
    · have hj : j ≠ i := fun h => hj h.symm
      simp [hj]
  refine ⟨?_, fun kind j => ?_, ?_⟩
  · have hkept : (s.settle i w).accepting = s.accepting := by
      unfold State.settle
      cases w.kind <;> rfl
    rw [hkept, hstage, h.accepting]
  · -- the work is in the set of its kind, and in no other
    have hset : j ∈ (s.settle i w).tracked kind ↔ j ∈ s.tracked kind ∧ (kind = w.kind → j ≠ i) := by
      unfold State.settle
      cases hk : w.kind <;> cases kind <;> simp [State.tracked]
    rw [hset, hget, h.tracked]
    refine ⟨fun ⟨hj, hne⟩ => ⟨?_, hj⟩, fun ⟨hne, hj⟩ => ⟨hj, fun _ => hne⟩⟩
    rintro rfl
    rw [hw, Option.some.injEq] at hj
    exact hne (by rw [hj]) rfl
  · refine h.stage.mono hstage ?_ ?_ ?_ (fun _ j ⟨kind, hj⟩ => ⟨kind, ((hget j kind).mp hj).2⟩) ?_ ?_ <;>
      unfold State.settle <;> cases w.kind <;> simp [Resource.Goes]

theorem Inv.report (h : Inv s) (failed : Bool) (phase : ErrorPhase) : Inv (s.report failed phase) :=
  h.keep rfl rfl rfl (fun kind => by cases kind <;> rfl) h.stage

/-- The sets have all the work that has not settled when the shutdown looks at them. -/
theorem Inv.execute (h : Inv s) (hs : s.stage = .serving) (timersThrow closeThrows : Bool) :
    Inv (s.execute timersThrow closeThrows) where
  accepting := by simp [State.execute, State.report]
  tracked kind i := by
    have htracked := h.tracked kind i
    cases kind <;> exact htracked
  stage := by
    have hstage := h.stage
    unfold StageInv at hstage
    rw [hs] at hstage
    refine ⟨fun i hi => ?_, hstage⟩
    obtain ⟨kind, hi⟩ : s.Unsettled i := hi
    have hmem : i ∈ s.tracked kind := (h.tracked kind i).mpr hi
    cases kind with
    | request => exact List.mem_append_left _ hmem
    | job => exact List.mem_append_right _ hmem

theorem Inv.finalize (h : Inv s) {snapshot : List ℕ} (hs : s.stage = .draining snapshot) {drained forced : Bool}
    (hforced : forced = !drained) (hterm : s.terminations = 0) (hd : drained = true → s.Drained) :
    Inv ({ s with forced := forced }.finalize drained) where
  accepting := by
    have haccepting := h.accepting
    rw [hs] at haccepting
    show s.accepting = true ↔ Stage.finalizing drained = .serving
    simpa using haccepting
  tracked kind i := by
    have htracked := h.tracked kind i
    cases kind <;> exact htracked
  stage := ⟨hd, hforced, by simp [State.finalize], by simp [State.finalize], hterm⟩

theorem Inv.finish (h : Inv s) {drained finalized : Bool} (hs : s.stage = .finalizing drained)
    (hf : finalized = true → s.database.ended = true ∧ s.telemetry.ended = true) : Inv (s.finish drained finalized) where
  accepting := by
    have haccepting := h.accepting
    rw [hs] at haccepting
    show s.accepting = true ↔ Stage.done drained finalized = .serving
    simpa using haccepting
  tracked kind i := by
    have htracked := h.tracked kind i
    cases kind <;> exact htracked
  stage := by
    have hstage := h.stage
    unfold StageInv at hstage
    rw [hs] at hstage
    obtain ⟨hdrained, hforced, hd, ht, hterm⟩ := hstage
    refine ⟨hdrained, hforced, hf, hd, ht, ?_⟩
    show (if drained && finalized then s.terminations else s.terminations + 1) = _
    rw [hterm]

theorem Inv.next (h : Inv s) {a : Act} (ha : next s a = some t) : Inv t := by
  have hstage := h.stage
  unfold StageInv at hstage
  cases a with
  | runRequest =>
    simp only [Shutdown.next, Option.some.injEq] at ha
    split_ifs at ha with haccepting <;> rw [← ha]
    · exact h.track (h.accepting.mp haccepting) .request
    · exact h.keep rfl rfl rfl (fun kind => by cases kind <;> rfl) h.stage
  | runJob =>
    simp only [Shutdown.next, Option.some.injEq] at ha
    split_ifs at ha with haccepting <;> rw [← ha]
    · exact h.track (h.accepting.mp haccepting) .job
    · exact h
  | settle i =>
    simp only [Shutdown.next] at ha
    split at ha
    · next w hw =>
      split_ifs at ha
      cases ha
      exact h.settle hw
    · cases ha
  | shutdown timersThrow closeThrows =>
    simp only [Shutdown.next, Option.some.injEq] at ha
    split_ifs at ha with hs <;> rw [← ha]
    · exact h.execute hs timersThrow closeThrows
    · exact h
  | serverCallback result =>
    simp only [Shutdown.next] at ha
    split_ifs at ha with hserver
    have hmono : ∀ server, StageInv { s with server := server } := fun server =>
      h.stage.mono rfl rfl rfl (fun hc => by rw [hc] at hserver; cases hserver) (fun _ _ hi => hi) (.inl rfl) (.inl rfl)
    have hkeep : ∀ server, Inv { s with server := server } := fun server =>
      h.keep rfl rfl rfl (fun kind => by cases kind <;> rfl) (hmono server)
    cases result <;> cases ha
    · exact hkeep .closed
    · exact hkeep .closed
    · exact (hkeep .failed).report true .serverClose
  | graceful =>
    simp only [Shutdown.next] at ha
    split at ha
    · next snapshot hs =>
      split_ifs at ha with hready
      cases ha
      rw [hs] at hstage
      have hdrained : s.Drained := ⟨hready.1, fun i hi => by
        have hsettled := hready.2 i (hstage.1 i hi)
        obtain ⟨kind, hi⟩ := hi
        rw [hi] at hsettled
        cases hsettled⟩
      have hfinalize : Inv ({ s with forced := s.forced }.finalize true) :=
        h.finalize hs hstage.2.2.2.1 hstage.2.2.2.2 fun _ => hdrained
      exact hfinalize
    · cases ha
  | graceOver closeThrows =>
    simp only [Shutdown.next] at ha
    split at ha
    · next snapshot hs =>
      cases ha
      rw [hs] at hstage
      have hfinalize : Inv ({ s with forced := true }.finalize false) :=
        h.finalize hs rfl hstage.2.2.2.2 fun hfalse => by cases hfalse
      exact hfinalize.report closeThrows .serverForceClose
    · cases ha
  | databaseSettles fails =>
    simp only [Shutdown.next] at ha
    split_ifs at ha with hclosing
    cases ha
    have hmono : StageInv { s with database := .after fails } :=
      h.stage.mono rfl rfl rfl (fun hc => hc) (fun _ _ hi => hi) (.inr ⟨hclosing, Resource.ended_after fails⟩) (.inl rfl)
    have hkeep : Inv { s with database := .after fails } :=
      h.keep rfl rfl rfl (fun kind => by cases kind <;> rfl) hmono
    exact hkeep.report fails .databaseClose
  | telemetrySettles fails =>
    simp only [Shutdown.next] at ha
    split_ifs at ha with hclosing
    cases ha
    have hmono : StageInv { s with telemetry := .after fails } :=
      h.stage.mono rfl rfl rfl (fun hc => hc) (fun _ _ hi => hi) (.inl rfl) (.inr ⟨hclosing, Resource.ended_after fails⟩)
    have hkeep : Inv { s with telemetry := .after fails } :=
      h.keep rfl rfl rfl (fun kind => by cases kind <;> rfl) hmono
    exact hkeep.report fails .telemetryClose
  | finalized =>
    simp only [Shutdown.next] at ha
    split at ha
    · next drained hs =>
      split_ifs at ha with hclosed
      cases ha
      exact h.finish hs fun _ => hclosed
    · cases ha
  | finalizerGraceOver =>
    simp only [Shutdown.next] at ha
    split at ha
    · next drained hs =>
      cases ha
      exact h.finish hs fun hfalse => by cases hfalse
    · cases ha

theorem Inv.run (h : Run (fun s a t => Shutdown.next s a = some t) Shutdown.start as s) : Inv s :=
  h.invariant (fun _ _ _ hs ha => hs.next ha) Inv.start

/-- A close that has failed has been reported. -/
structure Reported (s : State) : Prop where
  database : s.database = .failed → .databaseClose ∈ s.errors
  telemetry : s.telemetry = .failed → .telemetryClose ∈ s.errors

theorem Reported.keep (h : Reported s) (hdatabase : t.database = .failed → s.database = .failed)
    (htelemetry : t.telemetry = .failed → s.telemetry = .failed) (herrors : s.errors ⊆ t.errors) : Reported t :=
  ⟨fun hd => herrors (h.database (hdatabase hd)), fun ht => herrors (h.telemetry (htelemetry ht))⟩

theorem Reported.next (h : Reported s) {a : Act} (ha : next s a = some t) : Reported t := by
  cases a <;> simp only [Shutdown.next] at ha
  case runRequest | runJob =>
    split_ifs at ha <;> cases ha <;> exact h.keep id id (List.Subset.refl _)
  case settle i =>
    split at ha
    · next w hw =>
      split_ifs at ha
      cases ha
      unfold State.settle
      cases w.kind <;> exact h.keep id id (List.Subset.refl _)
    · cases ha
  case shutdown =>
    split_ifs at ha <;> cases ha
    · exact h.keep id id (List.Subset.trans (List.subset_append_left _ _) (List.subset_append_left _ _))
    · exact h
  case serverCallback result =>
    split_ifs at ha
    cases result <;> cases ha
    · exact h.keep id id (List.Subset.refl _)
    · exact h.keep id id (List.Subset.refl _)
    · exact h.keep id id (List.subset_append_left _ _)
  case graceful =>
    split at ha <;> (try split_ifs at ha) <;> cases ha
    exact h.keep (fun hd => by cases hd) (fun ht => by cases ht) (List.Subset.refl _)
  case graceOver =>
    split at ha <;> cases ha
    exact h.keep (fun hd => by cases hd) (fun ht => by cases ht) (List.subset_append_left _ _)
  case databaseSettles fails =>
    split_ifs at ha
    cases ha
    refine ⟨fun hd => ?_, fun ht => List.mem_append_left _ (h.telemetry ht)⟩
    cases fails with
    | true => exact List.mem_append_right _ List.mem_cons_self
    | false => cases hd
  case telemetrySettles fails =>
    split_ifs at ha
    cases ha
    refine ⟨fun hd => List.mem_append_left _ (h.database hd), fun ht => ?_⟩
    cases fails with
    | true => exact List.mem_append_right _ List.mem_cons_self
    | false => cases ht
  case finalized | finalizerGraceOver =>
    split at ha <;> (try split_ifs at ha) <;> cases ha <;> exact h.keep id id (List.Subset.refl _)

theorem Reported.run (h : Run (fun s a t => Shutdown.next s a = some t) Shutdown.start as s) : Reported s :=
  h.invariant (fun _ _ _ hs ha => hs.next ha) ⟨fun hd => (by cases hd), fun ht => by cases ht⟩

/-- Nothing is admitted once the shutdown has begun. -/
theorem next_refuses (hs : s.accepting = false) {a : Act} (ha : next s a = some t) :
    t.accepting = false ∧ t.works.length = s.works.length := by
  cases a <;> simp only [Shutdown.next] at ha
  case runRequest | runJob =>
    rw [if_neg (by simp [hs])] at ha
    cases ha
    exact ⟨hs, rfl⟩
  case settle i =>
    split at ha
    · next w hw =>
      split_ifs at ha
      cases ha
      unfold State.settle
      cases w.kind <;> exact ⟨hs, List.length_set⟩
    · cases ha
  case shutdown =>
    split_ifs at ha <;> cases ha
    · exact ⟨rfl, rfl⟩
    · exact ⟨hs, rfl⟩
  case serverCallback result =>
    split_ifs at ha
    cases result <;> cases ha <;> exact ⟨hs, rfl⟩
  case databaseSettles | telemetrySettles =>
    split_ifs at ha
    cases ha
    exact ⟨hs, rfl⟩
  case graceful | graceOver | finalized | finalizerGraceOver =>
    split at ha <;> (try split_ifs at ha) <;> cases ha <;> exact ⟨hs, rfl⟩

theorem run_refuses (h : Run (fun s a t => Shutdown.next s a = some t) s as t) (hs : s.accepting = false) :
    t.accepting = false ∧ t.works.length = s.works.length := by
  induction h with
  | nil => exact ⟨hs, rfl⟩
  | cons ha _ ih =>
    obtain ⟨haccepting, hlength⟩ := next_refuses hs ha
    obtain ⟨haccepting', hlength'⟩ := ih haccepting
    exact ⟨haccepting', hlength'.trans hlength⟩

end Nehemiah.Shutdown
