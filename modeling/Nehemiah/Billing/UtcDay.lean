import Mathlib
import Nehemiah.Lib.Tiling

/-!
# UTC days and the split of a monotonic interval at UTC midnights

`splitRuntimeAtUtcMidnight` of `billing/metering.ts` walks a cursor of nanoseconds from one UTC
midnight to the next.  The calendar arithmetic it calls (`getUTCFullYear`, `getUTCMonth`, `getUTCDate`
and `Date.UTC`) is written out below as ECMAScript defines it, the two-digit-year rule of `Date.UTC`
included: a year from `0` to `99` names a year of the twentieth century.

An instant is an integer of milliseconds since the epoch, a cursor an integer of nanoseconds.  Proved:

* the walk terminates within its day count (`splitLoop_complete`), so the fuel is no restriction;
* no nanosecond is lost (`split_runtime_sum`);
* the period starts increase strictly (`split_ordered`), which is what the
  `UNIQUE (observation_id, dimension, period_start)` constraint of the raw events needs;
* the segments tile the interval (`split_tiles`), each with a runtime of its own (`split_runtime_pos`).
-/

namespace Nehemiah.Billing

open Nehemiah.Lib

def nanosecondsPerMillisecond : ℤ := 1000000

def nanosecondsPerSecond : ℕ := 1000000000

def msPerDay : ℤ := 86400000

def nanosecondsPerDay : ℤ := msPerDay * nanosecondsPerMillisecond

/-! ### Calendar -/

/-- The day number of the first of January of year `y` (`DayFromYear`). -/
def dayFromYear (y : ℤ) : ℤ :=
  365 * (y - 1970) + (y - 1969) / 4 - (y - 1901) / 100 + (y - 1601) / 400

def inLeapYear (y : ℤ) : Bool := dayFromYear (y + 1) - dayFromYear y == 366

/-- The year a day number falls in: an estimate from the mean year, corrected by one. -/
def yearFromDay (d : ℤ) : ℤ :=
  let y := (d + 719528) * 400 / 146097
  if d < dayFromYear y then y - 1
  else if dayFromYear (y + 1) ≤ d then y + 1
  else y

/-- Day within the year on which month `m` (from `0`) starts. -/
def monthStart (leap : Bool) (m : ℕ) : ℤ :=
  [0, 31, 59, 90, 120, 151, 181, 212, 243, 273, 304, 334].getD m 334
    + if leap && 2 ≤ m then 1 else 0

/-- The last month that has started by day `d` of the year. -/
def monthFromDay (leap : Bool) (d : ℤ) : ℕ :=
  ((List.range 12).filter fun m => monthStart leap m ≤ d).length - 1

def getUTCFullYear (t : ℤ) : ℤ := yearFromDay (t / msPerDay)

def getUTCMonth (t : ℤ) : ℕ :=
  let y := getUTCFullYear t
  monthFromDay (inLeapYear y) (t / msPerDay - dayFromYear y)

def getUTCDate (t : ℤ) : ℤ :=
  let y := getUTCFullYear t
  t / msPerDay - dayFromYear y - monthStart (inLeapYear y) (getUTCMonth t) + 1

/-- `Date.UTC(year, month, date)`.  A year from `0` to `99` is read as `1900 + year`. -/
def dateUTC (year : ℤ) (month : ℕ) (date : ℤ) : ℤ :=
  let y := if 0 ≤ year ∧ year ≤ 99 then 1900 + year else year
  (dayFromYear y + monthStart (inLeapYear y) month + date - 1) * msPerDay

/-- The midnight `splitRuntimeAtUtcMidnight` cuts at from the instant `t`. -/
def nextUtcMidnight (t : ℤ) : ℤ :=
  dateUTC (getUTCFullYear t) (getUTCMonth t) (getUTCDate t + 1)

theorem monthStart_true (m : ℕ) :
    monthStart true m = monthStart false m + if 2 ≤ m then 1 else 0 := by
  by_cases hm : 2 ≤ m <;> simp [monthStart, hm]

theorem monthStart_leap_le (leap leap' : Bool) (m : ℕ) :
    monthStart leap m ≤ monthStart leap' m + 1 := by
  have h := monthStart_true m
  cases leap <;> cases leap' <;> split_ifs at h <;> omega

/-- Outside the years `0` to `99` the cut is the midnight that ends the day of `t`. -/
theorem nextUtcMidnight_eq (t : ℤ) (h : ¬ (0 ≤ getUTCFullYear t ∧ getUTCFullYear t ≤ 99)) :
    nextUtcMidnight t = (t / msPerDay + 1) * msPerDay := by
  simp only [nextUtcMidnight, dateUTC, getUTCDate, if_neg h]
  congr 1
  ring

/-- In the years `0` to `99` the cut lies nineteen centuries later. -/
theorem nextUtcMidnight_quirk (t : ℤ) (h : 0 ≤ getUTCFullYear t ∧ getUTCFullYear t ≤ 99) :
    (t / msPerDay + 1) * msPerDay ≤ nextUtcMidnight t := by
  simp only [nextUtcMidnight, dateUTC, getUTCDate, if_pos h]
  set y := getUTCFullYear t
  have hm := monthStart_leap_le (inLeapYear y) (inLeapYear (1900 + y)) (getUTCMonth t)
  have hy : dayFromYear y + 365 ≤ dayFromYear (1900 + y) := by
    unfold dayFromYear; omega
  refine mul_le_mul_of_nonneg_right ?_ (by decide)
  omega

theorem nextUtcMidnight_ge (t : ℤ) : (t / msPerDay + 1) * msPerDay ≤ nextUtcMidnight t := by
  by_cases h : 0 ≤ getUTCFullYear t ∧ getUTCFullYear t ≤ 99
  · exact nextUtcMidnight_quirk t h
  · rw [nextUtcMidnight_eq t h]

theorem lt_nextUtcMidnight (t : ℤ) : t < nextUtcMidnight t := by
  have h := nextUtcMidnight_ge t
  unfold msPerDay at h
  omega

theorem nextUtcMidnight_whole_day (t : ℤ) : ∃ k : ℤ, nextUtcMidnight t = k * msPerDay :=
  ⟨_, rfl⟩

/-! ### The split -/

/-- `new Date(Number(value / 1_000_000n))`: `BigInt` division rounds towards zero. -/
def timestampFromNanoseconds (value : ℤ) : ℤ := value.tdiv nanosecondsPerMillisecond

structure UsageSegment where
  index : ℕ
  start : ℤ
  stop : ℤ
  runtimeNs : ℕ
deriving DecidableEq

/-- The `while (cursor < terminal)` loop. -/
def splitLoop : ℕ → ℤ → ℤ → ℕ → List UsageSegment
  | 0, _, _, _ => []
  | fuel + 1, cursor, terminal, index =>
    if cursor < terminal then
      let cursorDate := timestampFromNanoseconds cursor
      let nextMidnight := nextUtcMidnight cursorDate * nanosecondsPerMillisecond
      let stop := if nextMidnight < terminal then nextMidnight else terminal
      { index := index
        start := timestampFromNanoseconds cursor
        stop := timestampFromNanoseconds stop
        runtimeNs := (stop - cursor).toNat } :: splitLoop fuel stop terminal (index + 1)
    else []

/-- Split a monotonic interval at UTC midnights without losing a nanosecond.  A duration covers at
most one day more than its whole days, and at most one cut more than that. -/
def splitRuntimeAtUtcMidnight (start : ℤ) (durationNs : ℕ) : List UsageSegment :=
  let cursor := start * nanosecondsPerMillisecond
  splitLoop (durationNs / 86400000000000 + 2) cursor (cursor + durationNs) 0

/-- One turn of the loop: the segment it pushes and the cursor it goes on from. -/
def nextCut (cursor terminal : ℤ) : ℤ :=
  let nextMidnight := nextUtcMidnight (timestampFromNanoseconds cursor) * nanosecondsPerMillisecond
  if nextMidnight < terminal then nextMidnight else terminal

theorem splitLoop_succ (fuel : ℕ) (cursor terminal : ℤ) (index : ℕ) (h : cursor < terminal) :
    splitLoop (fuel + 1) cursor terminal index =
      { index := index
        start := timestampFromNanoseconds cursor
        stop := timestampFromNanoseconds (nextCut cursor terminal)
        runtimeNs := (nextCut cursor terminal - cursor).toNat }
        :: splitLoop fuel (nextCut cursor terminal) terminal (index + 1) := by
  simp only [splitLoop, if_pos h, nextCut]

theorem splitLoop_done (fuel : ℕ) (cursor terminal : ℤ) (index : ℕ) (h : ¬ cursor < terminal) :
    splitLoop fuel cursor terminal index = [] := by
  cases fuel with
  | zero => rfl
  | succ fuel => simp only [splitLoop, if_neg h]

theorem timestamp_bounds (v : ℤ) :
    v - nanosecondsPerMillisecond < timestampFromNanoseconds v * nanosecondsPerMillisecond ∧
      timestampFromNanoseconds v * nanosecondsPerMillisecond < v + nanosecondsPerMillisecond := by
  unfold timestampFromNanoseconds nanosecondsPerMillisecond
  rcases le_total 0 v with hv | hv
  · rw [Int.tdiv_eq_ediv_of_nonneg hv]; omega
  · obtain ⟨u, rfl⟩ : ∃ u, v = -u := ⟨-v, by ring⟩
    rw [Int.neg_tdiv, Int.tdiv_eq_ediv_of_nonneg (by omega)]; omega

/-- The cursor moves forward, and never past the end. -/
theorem nextCut_bounds (cursor terminal : ℤ) (h : cursor < terminal) :
    cursor < nextCut cursor terminal ∧ nextCut cursor terminal ≤ terminal := by
  have ht := (timestamp_bounds cursor).1
  have hm := lt_nextUtcMidnight (timestampFromNanoseconds cursor)
  unfold nanosecondsPerMillisecond at ht
  simp only [nextCut, nanosecondsPerMillisecond]
  split_ifs <;> constructor <;> omega

/-- From a whole millisecond the loop cuts at a whole millisecond that lies ahead, or it is done. -/
theorem nextCut_whole (c terminal : ℤ) :
    nextCut (c * nanosecondsPerMillisecond) terminal = terminal ∨
      nextCut (c * nanosecondsPerMillisecond) terminal
        = nextUtcMidnight c * nanosecondsPerMillisecond := by
  have hdate : timestampFromNanoseconds (c * nanosecondsPerMillisecond) = c := by
    rw [timestampFromNanoseconds, Int.mul_tdiv_cancel _ (by decide)]
  simp only [nextCut, hdate]
  split_ifs with hcut
  · exact Or.inr rfl
  · exact Or.inl rfl

/-- Where no midnight is left before the end, the next cut is the end. -/
theorem nextCut_last {c terminal : ℤ} (hlt : c * nanosecondsPerMillisecond < terminal)
    (h : terminal - (c / msPerDay + 1) * nanosecondsPerDay ≤ (0 : ℕ) * nanosecondsPerDay) :
    nextCut (c * nanosecondsPerMillisecond) terminal = terminal := by
  have hge := nextUtcMidnight_ge c
  rcases nextCut_whole c terminal with hn | hn
  · exact hn
  · have hb := (nextCut_bounds _ _ hlt).2
    simp only [nanosecondsPerDay, msPerDay, nanosecondsPerMillisecond, Nat.cast_zero] at *
    omega

/-- The day after a midnight is covered by one turn less. -/
theorem nextUtcMidnight_covered {c terminal : ℤ} {fuel : ℕ}
    (h : terminal - (c / msPerDay + 1) * nanosecondsPerDay ≤ (fuel + 1 : ℕ) * nanosecondsPerDay) :
    terminal - (nextUtcMidnight c / msPerDay + 1) * nanosecondsPerDay ≤ fuel * nanosecondsPerDay := by
  have hge := nextUtcMidnight_ge c
  obtain ⟨k, hk⟩ := nextUtcMidnight_whole_day c
  have hday : nextUtcMidnight c / msPerDay = k := by
    rw [hk, Int.mul_ediv_cancel _ (by decide)]
  rw [hday]
  simp only [nanosecondsPerDay, msPerDay, nanosecondsPerMillisecond] at *
  push_cast at h
  omega

/-- **Termination.**  Once the fuel covers the midnights left between the cursor and the end, the loop
runs to its own exit: every turn but the last reaches a midnight, and each midnight is a day on. -/
theorem splitLoop_complete (fuel : ℕ) : ∀ (c terminal : ℤ) (index : ℕ),
    terminal - (c / msPerDay + 1) * nanosecondsPerDay ≤ fuel * nanosecondsPerDay →
    ((splitLoop (fuel + 1) (c * nanosecondsPerMillisecond) terminal index).map
      (·.runtimeNs)).sum = (terminal - c * nanosecondsPerMillisecond).toNat := by
  induction fuel with
  | zero =>
    intro c terminal index h
    by_cases hlt : c * nanosecondsPerMillisecond < terminal
    · rw [splitLoop_succ 0 _ _ index hlt, nextCut_last hlt h]
      simp [splitLoop]
    · rw [splitLoop_done _ _ _ _ hlt, List.map_nil, List.sum_nil]
      omega
  | succ fuel ih =>
    intro c terminal index h
    by_cases hlt : c * nanosecondsPerMillisecond < terminal
    · have hb := nextCut_bounds _ _ hlt
      rw [splitLoop_succ (fuel + 1) _ _ index hlt, List.map_cons, List.sum_cons]
      rcases nextCut_whole c terminal with hn | hn
      · rw [hn, splitLoop_done _ _ _ _ (lt_irrefl terminal)]
        simp
      · -- the cut is a midnight at least one day after the day of `c`
        have hrest := ih (nextUtcMidnight c) terminal (index + 1) (nextUtcMidnight_covered h)
        rw [hn] at hb ⊢
        rw [hrest]
        show (_ - _ : ℤ).toNat + _ = _
        omega
    · rw [splitLoop_done _ _ _ _ hlt, List.map_nil, List.sum_nil]
      omega

/-- **No nanosecond is lost.** -/
theorem split_runtime_sum (start : ℤ) (durationNs : ℕ) :
    ((splitRuntimeAtUtcMidnight start durationNs).map (·.runtimeNs)).sum = durationNs := by
  rw [splitRuntimeAtUtcMidnight, splitLoop_complete]
  · omega
  · simp only [nanosecondsPerDay, msPerDay, nanosecondsPerMillisecond]
    push_cast
    omega

/-- The order of the segments: later ones start later and carry a larger index. -/
def UsageSegment.Before (a b : UsageSegment) : Prop := a.start < b.start ∧ a.index < b.index

/-- Every segment of the loop starts at or after its cursor, and the segments are in order. -/
theorem splitLoop_ordered (fuel : ℕ) : ∀ (c terminal : ℤ) (index : ℕ),
    (splitLoop fuel (c * nanosecondsPerMillisecond) terminal index).Pairwise UsageSegment.Before ∧
      ∀ seg ∈ splitLoop fuel (c * nanosecondsPerMillisecond) terminal index,
        c ≤ seg.start ∧ index ≤ seg.index := by
  induction fuel with
  | zero => intro c terminal index; simp [splitLoop]
  | succ fuel ih =>
    intro c terminal index
    by_cases hlt : c * nanosecondsPerMillisecond < terminal
    · have hdate : timestampFromNanoseconds (c * nanosecondsPerMillisecond) = c := by
        rw [timestampFromNanoseconds, Int.mul_tdiv_cancel _ (by decide)]
      rw [splitLoop_succ fuel _ _ index hlt, hdate]
      rcases nextCut_whole c terminal with hn | hn
      · rw [hn, splitLoop_done _ _ _ _ (lt_irrefl terminal)]
        simp
      · obtain ⟨hpw, hge⟩ := ih (nextUtcMidnight c) terminal (index + 1)
        have hlater := lt_nextUtcMidnight c
        rw [hn]
        refine ⟨?_, ?_⟩
        · rw [List.pairwise_cons]
          refine ⟨?_, hpw⟩
          intro seg hseg
          have := hge seg hseg
          exact ⟨lt_of_lt_of_le hlater this.1, this.2⟩
        · intro seg hseg
          rcases List.mem_cons.mp hseg with rfl | hseg
          · exact ⟨le_refl c, le_refl index⟩
          · have := hge seg hseg
            omega
    · rw [splitLoop_done _ _ _ _ hlt]
      simp

/-- **Period starts increase strictly**, and so do the indices in the event keys. -/
theorem split_ordered (start : ℤ) (durationNs : ℕ) :
    (splitRuntimeAtUtcMidnight start durationNs).Pairwise UsageSegment.Before :=
  (splitLoop_ordered _ start _ 0).1

theorem timestamp_whole (c : ℤ) : timestampFromNanoseconds (c * nanosecondsPerMillisecond) = c := by
  rw [timestampFromNanoseconds, Int.mul_tdiv_cancel _ (by decide)]

theorem timestamp_mono {a b : ℤ} (h : a ≤ b) : timestampFromNanoseconds a ≤ timestampFromNanoseconds b :=
  Int.tdiv_le_tdiv (by decide) h

/-- The loop tiles what is left: with enough fuel its segments lead from the cursor to the end. -/
theorem splitLoop_tiles (fuel : ℕ) : ∀ (c terminal : ℤ) (index : ℕ),
    c * nanosecondsPerMillisecond ≤ terminal →
    terminal - (c / msPerDay + 1) * nanosecondsPerDay ≤ fuel * nanosecondsPerDay →
    Tiles c ((splitLoop (fuel + 1) (c * nanosecondsPerMillisecond) terminal index).map
      fun seg => (seg.start, seg.stop)) (timestampFromNanoseconds terminal) := by
  induction fuel with
  | zero =>
    intro c terminal index hle h
    by_cases hlt : c * nanosecondsPerMillisecond < terminal
    · rw [splitLoop_succ 0 _ _ index hlt, nextCut_last hlt h, timestamp_whole]
      refine tiles_single ?_
      rw [← timestamp_whole c]
      exact timestamp_mono hle
    · rw [splitLoop_done _ _ _ _ hlt, ← le_antisymm hle (not_lt.mp hlt), timestamp_whole]
      exact rfl
  | succ fuel ih =>
    intro c terminal index hle h
    by_cases hlt : c * nanosecondsPerMillisecond < terminal
    · have hb := nextCut_bounds _ _ hlt
      rw [splitLoop_succ (fuel + 1) _ _ index hlt, List.map_cons, timestamp_whole]
      rcases nextCut_whole c terminal with hn | hn
      · rw [hn, splitLoop_done _ _ _ _ (lt_irrefl terminal)]
        refine tiles_single ?_
        rw [← timestamp_whole c]
        exact timestamp_mono hle
      · -- the cut is a midnight at least one day after the day of `c`
        rw [hn] at hb ⊢
        rw [timestamp_whole]
        exact ⟨rfl, (lt_nextUtcMidnight c).le,
          ih (nextUtcMidnight c) terminal (index + 1) hb.2 (nextUtcMidnight_covered h)⟩
    · rw [splitLoop_done _ _ _ _ hlt, ← le_antisymm hle (not_lt.mp hlt), timestamp_whole]
      exact rfl

/-- **The segments tile the interval.** -/
theorem split_tiles (start : ℤ) (durationNs : ℕ) :
    Tiles start ((splitRuntimeAtUtcMidnight start durationNs).map fun seg => (seg.start, seg.stop))
      (timestampFromNanoseconds (start * nanosecondsPerMillisecond + durationNs)) := by
  refine splitLoop_tiles _ start _ 0 (by omega) ?_
  simp only [nanosecondsPerDay, msPerDay, nanosecondsPerMillisecond]
  push_cast
  omega

theorem splitLoop_runtime_pos (fuel : ℕ) : ∀ (cursor terminal : ℤ) (index : ℕ),
    ∀ seg ∈ splitLoop fuel cursor terminal index, 0 < seg.runtimeNs := by
  induction fuel with
  | zero =>
    intro cursor terminal index seg hseg
    cases hseg
  | succ fuel ih =>
    intro cursor terminal index seg hseg
    by_cases hlt : cursor < terminal
    · rw [splitLoop_succ fuel _ _ index hlt] at hseg
      have hb := (nextCut_bounds _ _ hlt).1
      rcases List.mem_cons.mp hseg with rfl | hseg
      · show 0 < (nextCut cursor terminal - cursor).toNat
        omega
      · exact ih _ _ _ seg hseg
    · rw [splitLoop_done _ _ _ _ hlt] at hseg
      cases hseg

theorem split_runtime_pos (start : ℤ) (durationNs : ℕ) :
    ∀ seg ∈ splitRuntimeAtUtcMidnight start durationNs, 0 < seg.runtimeNs :=
  splitLoop_runtime_pos _ _ _ _

end Nehemiah.Billing
