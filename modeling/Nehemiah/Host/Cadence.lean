import Nehemiah.Lib.Run
import Nehemiah.Billing.Metering

/-!
# The cadence of checkpoints

`controlPlaneClient.Run` with its heartbeat interval and its backoff, `checkpointMetering`,
`ShutdownPreserve` and the starts and finals of leases in between, on one monotonic clock.  The control
plane takes a checkpoint less than four seconds after the last report of its lease for a forgery.  The loop
keeps that distance while its syncs succeed, since the heartbeat interval is at least five seconds; it does
not look at when a lease started, and after a failed sync it comes back in one second.  `checkpoints_spaced`
is about the runs without such steps.
-/

namespace Nehemiah.Host.Cadence

open Nehemiah.Lib
open Nehemiah.Billing (HostUsageObservationKind minimumCheckpointRuntimeDeltaNs nanosecondsPerSecond)

def second : ℕ := nanosecondsPerSecond

/-- The configured interval, within the bounds that the start of the daemon checks. -/
structure HeartbeatInterval where
  ns : ℕ
  bounds : 5 * second ≤ ns ∧ ns ≤ 20 * second

/-- The wait after a sync that succeeded. -/
def HeartbeatInterval.delay (interval : HeartbeatInterval) : ℕ :=
  if interval.ns = 0 then 10 * second else interval.ns

def initialBackoff : ℕ := second

def maximumBackoff : ℕ := 30 * second

def nextBackoff (backoff : ℕ) : ℕ :=
  if backoff < maximumBackoff then min (2 * backoff) maximumBackoff else backoff

/-- `machineMeteringState` of a live lease. -/
structure Meter where
  lease : String
  startMonotonicNs : ℕ
  lastMonotonicNs : ℕ

def Meter.lastRuntimeNs (m : Meter) : ℕ := m.lastMonotonicNs - m.startMonotonicNs

structure Report where
  lease : String
  kind : HostUsageObservationKind
  runtimeNs : ℕ

inductive Pc
  | down
  /-- In `synchronizeOnce`, before its checkpoint. -/
  | syncing
  /-- In `synchronizeOnce`, after its checkpoint. -/
  | submitting (checkpointed : Bool)
  | waiting (timer : ℕ)
  /-- `Run` has returned, the daemon has not. -/
  | stopped
deriving DecidableEq

/-- `emitted` are the observations appended to the outbox, newest first, with those already acknowledged. -/
structure State where
  now : ℕ
  meters : List Meter
  emitted : List Report
  backoff : ℕ
  pc : Pc

def State.initial (now : ℕ) : State := ⟨now, [], [], initialBackoff, .down⟩

/-- One pass over the live leases: how long it took, and when in it each lease read the clock. -/
structure Pass where
  ok : Bool
  took : ℕ
  offset : String → ℕ

def Pass.reading (p : Pass) (now : ℕ) (lease : String) : ℕ := now + min (p.offset lease) p.took

inductive Action
  | tick (ns : ℕ)
  | start (lease : String)
  /-- A final reads the clock, or falls back on the last reading. -/
  | finish (lease : String) (exact : Bool)
  | run
  | checkpoint (p : Pass)
  | synced (ok : Bool)
  | timer
  | stop
  | shutdownPreserve (p : Pass)
  | crash

def Meter.sampled (m : Meter) (monotonic : ℕ) : Meter := { m with lastMonotonicNs := monotonic }

def Meter.report (m : Meter) (kind : HostUsageObservationKind) : Report := ⟨m.lease, kind, m.lastRuntimeNs⟩

/-- A pass that fails restores the meters and truncates the outbox. -/
def State.checkpointMetering (s : State) (p : Pass) : State :=
  if p.ok then
    let meters := s.meters.map fun m => m.sampled (p.reading s.now m.lease)
    { s with now := s.now + p.took, meters := meters, emitted := meters.map (·.report .checkpoint) ++ s.emitted }
  else { s with now := s.now + p.took }

def State.live (s : State) (lease : String) : Bool := s.meters.any (·.lease == lease)

def State.recordMeterStart (s : State) (lease : String) : State :=
  let m : Meter := ⟨lease, s.now, s.now⟩
  { s with meters := m :: s.meters, emitted := m.report .start :: s.emitted }

def State.finish (s : State) (lease : String) (exact : Bool) : State :=
  { s with
    meters := s.meters.filter (·.lease != lease)
    emitted := ((s.meters.filter (·.lease == lease)).map fun m =>
      (m.sampled (if exact then s.now else m.lastMonotonicNs)).report .final) ++ s.emitted }

/-- What `Run` does with the answer of a sync. -/
def State.synced (s : State) (interval : HeartbeatInterval) (ok : Bool) : State :=
  if ok then { s with backoff := initialBackoff, pc := .waiting (s.now + interval.delay) }
  else { s with backoff := nextBackoff s.backoff, pc := .waiting (s.now + s.backoff) }

/-- A sync whose checkpoint failed fails, and so does one that found no enrollment. -/
def Pc.maySync : Pc → Bool → Bool
  | .syncing, ok => !ok
  | .submitting checkpointed, ok => checkpointed || !ok
  | _, _ => false

def Pc.running : Pc → Bool
  | .down | .stopped => false
  | _ => true

def Pc.due : Pc → ℕ → Bool
  | .waiting timer, now => decide (timer ≤ now)
  | _, _ => false

def next (interval : HeartbeatInterval) (s : State) : Action → Option State
  | .tick ns => some { s with now := s.now + ns }
  | .start lease => if s.live lease then none else some (s.recordMeterStart lease)
  | .finish lease exact => some (s.finish lease exact)
  | .run => if s.pc = .down then some { s with backoff := initialBackoff, pc := .syncing } else none
  | .checkpoint p =>
    if s.pc = .syncing then some { s.checkpointMetering p with pc := .submitting p.ok } else none
  | .synced ok => if s.pc.maySync ok then some (s.synced interval ok) else none
  | .timer => if s.pc.due s.now then some { s with pc := .syncing } else none
  | .stop => if s.pc.running then some { s with pc := .stopped } else none
  | .shutdownPreserve p =>
    if s.pc = .stopped then some { s.checkpointMetering p with pc := .down } else none
  | .crash => some { s with pc := .down }

/-- The runtime of the last report of a lease. -/
def previous (emitted : List Report) (lease : String) : Option ℕ :=
  (emitted.find? (·.lease == lease)).map (·.runtimeNs)

/-- Every checkpoint is at least four seconds of runtime above the report of its lease before it. -/
def Spaced : List Report → Prop
  | [] => True
  | r :: earlier =>
    (r.kind = .checkpoint →
      ∃ runtime, previous earlier r.lease = some runtime ∧ runtime + minimumCheckpointRuntimeDeltaNs ≤ r.runtimeNs)
      ∧ Spaced earlier

/-- No live lease has reported in the four seconds before `time`. -/
def Rested (s : State) (time : ℕ) : Prop :=
  ∀ m ∈ s.meters, m.lastMonotonicNs + minimumCheckpointRuntimeDeltaNs ≤ time

instance (s : State) (time : ℕ) : Decidable (Rested s time) :=
  inferInstanceAs (Decidable (∀ m ∈ s.meters, m.lastMonotonicNs + minimumCheckpointRuntimeDeltaNs ≤ time))

/-- Four seconds are left until the next checkpoint can come. -/
def Pc.leavesTime : Pc → ℕ → Bool
  | .syncing, _ => false
  | .waiting timer, now => decide (now + minimumCheckpointRuntimeDeltaNs ≤ timer)
  | _, _ => true

/-- A lease does not start within four seconds of the sync that comes next, a sync does not fail when its
backoff ends less than four seconds after a report, and the daemon neither starts its loop nor preserves its
machines within four seconds of a report. -/
def Unhurried (s : State) : Action → Prop
  | .start _ => s.pc.leavesTime s.now
  | .synced ok => ok = false → Rested s (s.now + s.backoff)
  | .run | .shutdownPreserve _ => Rested s s.now
  | _ => True

instance (s : State) (a : Action) : Decidable (Unhurried s a) :=
  match a with
  | .start _ => inferInstanceAs (Decidable (s.pc.leavesTime s.now = true))
  | .synced ok => inferInstanceAs (Decidable (ok = false → Rested s (s.now + s.backoff)))
  | .run | .shutdownPreserve _ => inferInstanceAs (Decidable (Rested s s.now))
  | .tick _ | .finish _ _ | .checkpoint _ | .timer | .stop | .crash => .isTrue trivial

/-! ### What the guard keeps -/

/-- When the next checkpoint can come, every live lease has rested. -/
def Ready (s : State) : Prop :=
  match s.pc with
  | .syncing => Rested s s.now
  | .waiting timer => Rested s timer
  | _ => True

structure Inv (s : State) : Prop where
  clock : ∀ m ∈ s.meters, m.startMonotonicNs ≤ m.lastMonotonicNs ∧ m.lastMonotonicNs ≤ s.now
  leases : (s.meters.map (·.lease)).Nodup
  known : ∀ m ∈ s.meters, previous s.emitted m.lease = some m.lastRuntimeNs
  spaced : Spaced s.emitted
  ready : Ready s

variable {s : State} {interval : HeartbeatInterval}

theorem Rested.mono {t t' : ℕ} (h : Rested s t) (ht : t ≤ t') : Rested s t' :=
  fun m hm => (h m hm).trans ht

@[simp] theorem previous_cons_self (r : Report) (e : List Report) : previous (r :: e) r.lease = some r.runtimeNs := by
  simp [previous]

variable {e : List Report} {lease : String} {identity : MachineIdentity}

theorem previous_cons_ne {r : Report} (h : r.lease ≠ lease) : previous (r :: e) lease = previous e lease := by
  simp [previous, h]

/-- Reports of other leases do not change the last report of a lease. -/
theorem previous_append {later : List Report} (h : ∀ r ∈ later, r.lease ≠ lease) :
    previous (later ++ e) lease = previous e lease := by
  induction later with
  | nil => rfl
  | cons r later ih =>
    rw [List.cons_append, previous_cons_ne (h r List.mem_cons_self)]
    exact ih fun r' hr' => h r' (List.mem_cons_of_mem _ hr')

theorem spaced_append {later : List Report} (hkind : ∀ r ∈ later, r.kind ≠ .checkpoint) (he : Spaced e) :
    Spaced (later ++ e) := by
  induction later with
  | nil => exact he
  | cons r later ih =>
    exact ⟨fun hr => absurd hr (hkind r List.mem_cons_self),
      ih fun r' hr' => hkind r' (List.mem_cons_of_mem _ hr')⟩

section pass

variable {e : List Report} {reading : String → ℕ}

/-- The reports of one pass over leases that have rested. -/
theorem spaced_pass {meters : List Meter} (he : Spaced e) (hleases : (meters.map (·.lease)).Nodup)
    (hknown : ∀ m ∈ meters, previous e m.lease = some m.lastRuntimeNs)
    (hclock : ∀ m ∈ meters, m.startMonotonicNs ≤ m.lastMonotonicNs)
    (hrest : ∀ m ∈ meters, m.lastMonotonicNs + minimumCheckpointRuntimeDeltaNs ≤ reading m.lease) :
    Spaced ((meters.map fun m => m.sampled (reading m.lease)).map (·.report .checkpoint) ++ e) := by
  induction meters with
  | nil => exact he
  | cons m meters ih =>
    obtain ⟨hm, hleases⟩ := List.nodup_cons.mp hleases
    refine ⟨fun _ => ⟨m.lastRuntimeNs, ?_, ?_⟩, ih hleases (fun m' hm' => hknown m' (List.mem_cons_of_mem _ hm'))
      (fun m' hm' => hclock m' (List.mem_cons_of_mem _ hm')) fun m' hm' => hrest m' (List.mem_cons_of_mem _ hm')⟩
    · -- the other reports of the pass are of other leases
      have hother : ∀ r ∈ (meters.map fun m => m.sampled (reading m.lease)).map (·.report .checkpoint),
          r.lease ≠ m.lease := by
        intro r hr heq
        simp only [List.map_map, List.mem_map] at hr
        obtain ⟨m', hm', rfl⟩ := hr
        exact hm (List.mem_map.mpr ⟨m', hm', heq⟩)
      exact (previous_append hother).trans (hknown m List.mem_cons_self)
    · have hclock := hclock m List.mem_cons_self
      have hrest := hrest m List.mem_cons_self
      simp only [Meter.report, Meter.lastRuntimeNs, Meter.sampled]
      omega

theorem previous_pass (reading : String → ℕ) {meters : List Meter} (hleases : (meters.map (·.lease)).Nodup)
    {m : Meter} (hm : m ∈ meters) :
    previous ((meters.map fun m => m.sampled (reading m.lease)).map (·.report .checkpoint) ++ e) m.lease =
      some (m.sampled (reading m.lease)).lastRuntimeNs := by
  induction meters with
  | nil => cases hm
  | cons m' meters ih =>
    obtain ⟨hm', hleases⟩ := List.nodup_cons.mp hleases
    rcases List.mem_cons.mp hm with rfl | hm
    · exact previous_cons_self _ _
    · have hne : m'.lease ≠ m.lease := fun heq => hm' (List.mem_map.mpr ⟨m, hm, heq.symm⟩)
      exact (previous_cons_ne hne).trans (ih hleases hm)

end pass

/-- Nothing but the clock moved. -/
theorem Inv.later (h : Inv s) (ns : ℕ) : Inv { s with now := s.now + ns } where
  clock := fun m hm => ⟨(h.clock m hm).1, (h.clock m hm).2.trans (Nat.le_add_right _ _)⟩
  leases := h.leases
  known := h.known
  spaced := h.spaced
  ready := by
    have hready := h.ready
    unfold Ready at hready ⊢
    split at hready
    · rename_i hpc
      simp only [hpc]
      exact fun m hm => (hready m hm).trans (Nat.le_add_right _ _)
    · rename_i timer hpc
      simp only [hpc]
      exact hready
    · trivial

/-- The loop moved on, and the leases have rested for its next checkpoint. -/
theorem Inv.moved (h : Inv s) (backoff : ℕ) (pc : Pc) (hready : Ready { s with backoff := backoff, pc := pc }) :
    Inv { s with backoff := backoff, pc := pc } :=
  ⟨h.clock, h.leases, h.known, h.spaced, hready⟩

theorem Inv.checkpointMetering (h : Inv s) (hrest : Rested s s.now) (p : Pass) {pc : Pc}
    (hpc : ∀ t : State, Ready { t with pc := pc }) : Inv { s.checkpointMetering p with pc := pc } := by
  have hreading : ∀ lease, s.now ≤ p.reading s.now lease ∧ p.reading s.now lease ≤ s.now + p.took :=
    fun lease => ⟨Nat.le_add_right _ _, Nat.add_le_add_left (min_le_right _ _) _⟩
  unfold State.checkpointMetering
  split
  · refine ⟨?_, ?_, ?_, ?_, hpc _⟩
    · intro m hm
      obtain ⟨m₀, hm₀, rfl⟩ := List.mem_map.mp hm
      have hclock := h.clock m₀ hm₀
      exact ⟨hclock.1.trans (hclock.2.trans (hreading m₀.lease).1), (hreading m₀.lease).2⟩
    · have hsame : (s.meters.map fun m => m.sampled (p.reading s.now m.lease)).map (·.lease) =
          s.meters.map (·.lease) := by
        rw [List.map_map]
        rfl
      exact hsame ▸ h.leases
    · intro m hm
      obtain ⟨m₀, hm₀, rfl⟩ := List.mem_map.mp hm
      have hprevious := previous_pass (e := s.emitted) (p.reading s.now) h.leases hm₀
      exact hprevious
    · exact spaced_pass h.spaced h.leases h.known (fun m hm => (h.clock m hm).1)
        fun m hm => (hrest m hm).trans (hreading m.lease).1
  · exact (h.moved s.backoff pc (hpc _)).later p.took

theorem Inv.recordMeterStart (h : Inv s) (hlive : s.live lease = false) (hguard : Unhurried s (.start lease)) :
    Inv (s.recordMeterStart lease) := by
  have hother : ∀ m ∈ s.meters, lease ≠ m.lease := by
    intro m hm heq
    have hany := List.any_eq_false.mp hlive m hm
    exact hany (by simp [heq])
  refine ⟨?_, ?_, ?_, ?_, ?_⟩
  · intro m hm
    rcases List.mem_cons.mp hm with rfl | hm
    · exact ⟨le_rfl, le_rfl⟩
    · exact h.clock m hm
  · refine List.nodup_cons.mpr ⟨?_, h.leases⟩
    intro hmem
    obtain ⟨m, hm, heq⟩ := List.mem_map.mp hmem
    exact hother m hm heq.symm
  · intro m hm
    rcases List.mem_cons.mp hm with rfl | hm
    · exact previous_cons_self _ _
    · exact (previous_cons_ne (hother m hm)).trans (h.known m hm)
  · exact ⟨fun hkind => absurd hkind (by simp [Meter.report]), h.spaced⟩
  · have hready := h.ready
    unfold Ready at hready ⊢
    unfold Unhurried at hguard
    unfold State.recordMeterStart
    cases hpc : s.pc with
    | syncing => simp [hpc, Pc.leavesTime] at hguard
    | waiting timer =>
      simp only [hpc, Pc.leavesTime, decide_eq_true_eq] at hready hguard ⊢
      intro m hm
      rcases List.mem_cons.mp hm with rfl | hm
      · exact hguard
      · exact hready m hm
    | down => trivial
    | submitting _ => trivial
    | stopped => trivial

/-- Leases that end take nothing from the others. -/
theorem Inv.finish (h : Inv s) (lease : String) (exact : Bool) : Inv (s.finish lease exact) := by
  have hkept : ∀ m ∈ (s.finish lease exact).meters, m ∈ s.meters ∧ m.lease ≠ lease := by
    intro m hm
    obtain ⟨hm, hne⟩ := List.mem_filter.mp hm
    exact ⟨hm, by simpa using hne⟩
  have hfinals : ∀ r ∈ (s.meters.filter (·.lease == lease)).map fun m =>
      (m.sampled (if exact then s.now else m.lastMonotonicNs)).report .final,
      r.lease = lease ∧ r.kind = .final := by
    intro r hr
    obtain ⟨m, hm, rfl⟩ := List.mem_map.mp hr
    exact ⟨eq_of_beq (List.mem_filter.mp hm).2, rfl⟩
  refine ⟨fun m hm => h.clock m (hkept m hm).1, h.leases.sublist (List.filter_sublist.map _), ?_, ?_, ?_⟩
  · intro m hm
    refine (previous_append ?_).trans (h.known m (hkept m hm).1)
    exact fun r hr heq => (hkept m hm).2 (heq.symm.trans (hfinals r hr).1)
  · exact spaced_append (fun r hr hkind => by rw [(hfinals r hr).2] at hkind; cases hkind) h.spaced
  · have hready := h.ready
    unfold Ready at hready ⊢
    have hpc : (s.finish lease exact).pc = s.pc := rfl
    rw [hpc]
    split at hready
    · exact fun m hm => hready m (hkept m hm).1
    · exact fun m hm => hready m (hkept m hm).1
    · trivial

/-- Between a sync that succeeded and the next one every lease rests. -/
theorem Inv.synced (h : Inv s) {ok : Bool} (hguard : Unhurried s (.synced ok)) : Inv (s.synced interval ok) := by
  unfold State.synced
  split
  · refine h.moved initialBackoff (.waiting (s.now + interval.delay)) ?_
    intro m hm
    have hclock := (h.clock m hm).2
    have hdelay : 5 * second ≤ interval.delay := by
      have hbounds := interval.bounds.1
      unfold HeartbeatInterval.delay
      split
      · exact Nat.mul_le_mul_right _ (by decide)
      · exact hbounds
    -- the only place that compares the two programs: five seconds here, four seconds there
    have hwait : s.now + minimumCheckpointRuntimeDeltaNs ≤ s.now + interval.delay := by
      refine Nat.add_le_add_left (le_trans ?_ hdelay) _
      simp [minimumCheckpointRuntimeDeltaNs, second, nanosecondsPerSecond]
    exact (Nat.add_le_add_right hclock _).trans hwait
  · rename_i hok
    exact h.moved (nextBackoff s.backoff) (.waiting (s.now + s.backoff)) (hguard (by simpa using hok))

theorem Inv.next {t : State} {a : Action} (h : Inv s) (hstep : next interval s a = some t) (hguard : Unhurried s a) :
    Inv t := by
  cases a with
  | tick ns =>
    cases hstep
    exact h.later ns
  | start lease =>
    simp only [Cadence.next] at hstep
    split at hstep
    · cases hstep
    · rename_i hlive
      cases hstep
      exact h.recordMeterStart (by simpa using hlive) hguard
  | finish lease exact =>
    cases hstep
    exact h.finish lease exact
  | run =>
    simp only [Cadence.next, Option.ite_none_right_eq_some, Option.some.injEq] at hstep
    obtain ⟨-, rfl⟩ := hstep
    exact h.moved initialBackoff .syncing hguard
  | checkpoint p =>
    simp only [Cadence.next, Option.ite_none_right_eq_some, Option.some.injEq] at hstep
    obtain ⟨hpc, rfl⟩ := hstep
    have hrest : Rested s s.now := by
      have hready := h.ready
      simpa only [Ready, hpc] using hready
    exact h.checkpointMetering hrest p fun _ => trivial
  | synced ok =>
    simp only [Cadence.next, Option.ite_none_right_eq_some, Option.some.injEq] at hstep
    obtain ⟨-, rfl⟩ := hstep
    exact h.synced hguard
  | timer =>
    simp only [Cadence.next, Option.ite_none_right_eq_some, Option.some.injEq] at hstep
    obtain ⟨hdue, rfl⟩ := hstep
    refine h.moved s.backoff .syncing ?_
    have hready := h.ready
    unfold Ready at hready
    unfold Pc.due at hdue
    split at hdue
    · rename_i timer now hpc
      simp only [hpc] at hready
      exact Rested.mono hready (by simpa using hdue)
    · cases hdue
  | stop =>
    simp only [Cadence.next, Option.ite_none_right_eq_some, Option.some.injEq] at hstep
    obtain ⟨-, rfl⟩ := hstep
    exact h.moved s.backoff .stopped trivial
  | shutdownPreserve p =>
    simp only [Cadence.next, Option.ite_none_right_eq_some, Option.some.injEq] at hstep
    obtain ⟨-, rfl⟩ := hstep
    exact h.checkpointMetering hguard p fun _ => trivial
  | crash =>
    cases hstep
    exact h.moved s.backoff .down trivial

theorem inv_initial (now : ℕ) : Inv (State.initial now) where
  clock := fun m hm => by cases hm
  leases := List.nodup_nil
  known := fun m hm => by cases hm
  spaced := trivial
  ready := trivial

theorem run_inv {now : ℕ} {as : List Action}
    (h : RunIn (fun s a t => next interval s a = some t) (fun s a _ => Unhurried s a) (State.initial now) as s) :
    Inv s :=
  h.invariant (fun _ _ _ hinv hstep hguard => hinv.next hstep hguard) (inv_initial now)

/-- Every checkpoint that is among the reports keeps its distance. -/
theorem Spaced.checkpoint {later earlier : List Report} {r : Report} (h : Spaced e) (he : e = later ++ r :: earlier)
    (hkind : r.kind = .checkpoint) :
    ∃ runtime, previous earlier r.lease = some runtime ∧ runtime + minimumCheckpointRuntimeDeltaNs ≤ r.runtimeNs := by
  induction later generalizing e with
  | nil =>
    subst he
    exact h.1 hkind
  | cons r' later ih =>
    subst he
    exact ih h.2 rfl

/-! ### The rule of the control plane -/

open Nehemiah.Billing (observationIntegrityReason MachineIdentity MeterState Counters defensibleElapsedNs
  maximumEgress prematureFinal)

/-- A checkpoint that keeps its distance does not exceed the rate, unless it claims more runtime than the
control plane has seen pass. -/
theorem spaced_passes_rule {state : MeterState} {c : Counters} {receivedAt : ℤ}
    (hdelta : state.lastRuntimeNs + minimumCheckpointRuntimeDeltaNs ≤ c.runtimeNs)
    (helapsed : c.runtimeNs ≤ defensibleElapsedNs identity receivedAt) :
    observationIntegrityReason identity state c receivedAt ≠ some .observationRateExceeded := by
  have hslow : ¬ defensibleElapsedNs identity receivedAt < c.runtimeNs := Nat.not_lt.mpr helapsed
  have hspaced : ¬ c.runtimeNs - state.lastRuntimeNs < minimumCheckpointRuntimeDeltaNs := by omega
  simp only [observationIntegrityReason, hslow, hspaced, and_false, if_false]
  split_ifs <;> simp

/-- A checkpoint that does not is refused. -/
theorem hurried_breaks_rule {state : MeterState} {c : Counters} {receivedAt : ℤ} (hkind : c.kind = .checkpoint)
    (hstart : state.startSeen = true) (hruntime : state.lastRuntimeNs ≤ c.runtimeNs)
    (hegress : state.lastEgressBytes ≤ c.egressBytes)
    (hegressBound : c.egressBytes ≤ maximumEgress (defensibleElapsedNs identity receivedAt))
    (hdelta : c.runtimeNs < state.lastRuntimeNs + minimumCheckpointRuntimeDeltaNs) :
    observationIntegrityReason identity state c receivedAt = some .observationRateExceeded := by
  have hforward : ¬ (c.runtimeNs < state.lastRuntimeNs ∨ c.egressBytes < state.lastEgressBytes) := by omega
  have hclose : c.runtimeNs - state.lastRuntimeNs < minimumCheckpointRuntimeDeltaNs := by omega
  have hlow : ¬ maximumEgress (defensibleElapsedNs identity receivedAt) < c.egressBytes := Nat.not_lt.mpr hegressBound
  simp only [observationIntegrityReason, hstart, hforward, hclose, hkind, hlow]
  simp

/-- **Cadence.**  In a run whose steps are unhurried, every checkpoint of a lease is at least four seconds of
runtime above the report of the lease before it, so that the control plane does not take it for a forgery. -/
theorem checkpoints_spaced (interval : HeartbeatInterval) (now : ℕ) (as : List Action) (s : State)
    (h : RunIn (fun s a t => next interval s a = some t) (fun s a _ => Unhurried s a) (State.initial now) as s)
    (later earlier : List Report) (r : Report) (he : s.emitted = later ++ r :: earlier) (hkind : r.kind = .checkpoint) :
    ∃ runtime, previous earlier r.lease = some runtime ∧ runtime + minimumCheckpointRuntimeDeltaNs ≤ r.runtimeNs ∧
      ∀ (identity : MachineIdentity) (state : MeterState) (c : Counters) (receivedAt : ℤ),
        c.runtimeNs = r.runtimeNs → state.lastRuntimeNs = runtime →
          c.runtimeNs ≤ defensibleElapsedNs identity receivedAt →
            observationIntegrityReason identity state c receivedAt ≠ some .observationRateExceeded := by
  obtain ⟨runtime, hprevious, hdelta⟩ := (run_inv h).spaced.checkpoint he hkind
  refine ⟨runtime, hprevious, hdelta, ?_⟩
  intro identity state c receivedAt hc hstate helapsed
  exact spaced_passes_rule (by omega) helapsed

def tenSeconds : HeartbeatInterval := ⟨10 * second, by decide⟩

def instantly : Pass := ⟨true, 0, fun _ => 0⟩

/-- A lease starts right after a sync, and the next heartbeat comes ten seconds later. -/
def steady : List Action :=
  [.run, .checkpoint instantly, .synced true, .start "lease", .tick (10 * second), .timer, .checkpoint instantly]

theorem steady_spaced : ∃ runtime, previous [⟨"lease", .start, 0⟩] "lease" = some runtime ∧
    runtime + minimumCheckpointRuntimeDeltaNs ≤ 10 * second ∧
      ∀ (identity : MachineIdentity) (state : MeterState) (c : Counters) (receivedAt : ℤ),
        c.runtimeNs = 10 * second → state.lastRuntimeNs = runtime →
          c.runtimeNs ≤ defensibleElapsedNs identity receivedAt →
            observationIntegrityReason identity state c receivedAt ≠ some .observationRateExceeded :=
  checkpoints_spaced tenSeconds 0 steady
    ⟨10 * second, [⟨"lease", 0, 10 * second⟩], [⟨"lease", .checkpoint, 10 * second⟩, ⟨"lease", .start, 0⟩],
      initialBackoff, .submitting true⟩
    (RunIn.of_execIn rfl) [] [⟨"lease", .start, 0⟩] ⟨"lease", .checkpoint, 10 * second⟩ rfl rfl

/-- The lease starts one second before the heartbeat. -/
def hurried : List Action :=
  [.run, .checkpoint instantly, .synced true, .tick (9 * second), .start "lease", .tick second, .timer,
    .checkpoint instantly]

/-- Every sync succeeds, and the first checkpoint of the lease is one second above its start: the control plane
refuses it in whatever state the start has left. -/
theorem late_start_exceeds : ∃ s : State,
    Run (fun s a t => next tenSeconds s a = some t) (State.initial 0) hurried s ∧
      s.emitted = [⟨"lease", .checkpoint, second⟩, ⟨"lease", .start, 0⟩] ∧ ¬ Spaced s.emitted ∧
      ∀ (identity : MachineIdentity) (state : MeterState) (c : Counters) (receivedAt : ℤ),
        c.kind = .checkpoint → c.runtimeNs = second → state.startSeen = true → state.lastRuntimeNs = 0 →
          state.lastEgressBytes ≤ c.egressBytes →
            c.egressBytes ≤ maximumEgress (defensibleElapsedNs identity receivedAt) →
              observationIntegrityReason identity state c receivedAt = some .observationRateExceeded := by
  have hclose : second < 0 + minimumCheckpointRuntimeDeltaNs := by decide
  refine ⟨⟨10 * second, [⟨"lease", 9 * second, 10 * second⟩],
    [⟨"lease", .checkpoint, second⟩, ⟨"lease", .start, 0⟩], initialBackoff, .submitting true⟩,
    Run.of_exec rfl, rfl, ?_, ?_⟩
  · rintro ⟨hspaced, -⟩
    obtain ⟨runtime, hprevious, hdelta⟩ := hspaced rfl
    have hstart : previous [⟨"lease", .start, 0⟩] "lease" = some 0 := rfl
    cases hstart.symm.trans hprevious
    exact absurd hdelta (Nat.not_le.mpr hclose)
  · intro identity state c receivedAt hkind hruntime hseen hlast hegress hegressBound
    exact hurried_breaks_rule hkind hseen (by omega) hegress hegressBound (by rw [hruntime, hlast]; exact hclose)

end Nehemiah.Host.Cadence
