import Nehemiah.Billing.Effects

/-!
# When the split at UTC midnights is exact

`splitRuntimeAtUtcMidnight` again, with the range of `Date`: a cut past `maxTimeValue` is `NaN`, and
`BigInt(NaN)` throws.  The split is exact when the interval ends within the range and crosses no midnight of
the years `0` to `99`, whose cuts `Date.UTC` puts in the twentieth century, and only then
(`split_exact_iff`).
-/

namespace Nehemiah.Billing

open Nehemiah.Lib

/-- The last time value of a `Date`. -/
def maxTimeValue : ℤ := 8640000000000000

/-- The loop of `splitRuntimeAtUtcMidnight` over time values; `none` is the `RangeError`. -/
def splitLoop? : ℕ → ℤ → ℤ → ℕ → Option (List UsageSegment)
  | 0, _, _, _ => some []
  | fuel + 1, cursor, terminal, index =>
    if cursor < terminal then
      let cursorDate := timestampFromNanoseconds cursor
      if maxTimeValue < nextUtcMidnight cursorDate then none
      else
        let nextMidnight := nextUtcMidnight cursorDate * nanosecondsPerMillisecond
        let stop := if nextMidnight < terminal then nextMidnight else terminal
        (splitLoop? fuel stop terminal (index + 1)).map
          ({ index := index
             start := timestampFromNanoseconds cursor
             stop := timestampFromNanoseconds stop
             runtimeNs := (stop - cursor).toNat } :: ·)
    else some []

def splitRuntimeAtUtcMidnight? (start : ℤ) (durationNs : ℕ) : Option (List UsageSegment) :=
  let cursor := start * nanosecondsPerMillisecond
  splitLoop? (durationNs / 86400000000000 + 2) cursor (cursor + durationNs) 0

/-- An exact split: nothing lost, end to end, every segment within one UTC day, and starts that increase,
so that the rows of an observation that has none yet are all inserted. -/
structure ExactSplit (start : ℤ) (durationNs : ℕ) (segments : List UsageSegment) : Prop where
  runtime : (segments.map (·.runtimeNs)).sum = durationNs
  contiguous : Tiles start (segments.map fun seg => (seg.start, seg.stop))
    (timestampFromNanoseconds (start * nanosecondsPerMillisecond + durationNs))
  day : ∀ seg ∈ segments, ∀ k : ℤ, seg.start < k * msPerDay →
    seg.start * nanosecondsPerMillisecond + seg.runtimeNs ≤ k * nanosecondsPerDay
  increasing : segments.Pairwise fun a b => a.start < b.start
  kept : ∀ (db : Db) (identity : MachineIdentity) (o : StoredObservation),
    (∀ r ∈ db.rawEvents, r.observationId ≠ o.id ∧ r.eventKey.observationId ≠ o.id) →
    ∃ db', appendProjections db (segments.flatMap (segmentEvents identity o)) = .ok db' ∧
      db'.rawEvents = db.rawEvents ++ stored (segments.flatMap (segmentEvents identity o))

def SplitsExactly (start : ℤ) (durationNs : ℕ) : Prop :=
  ∃ segments, splitRuntimeAtUtcMidnight? start durationNs = some segments ∧
    ExactSplit start durationNs segments

/-- The interval ends within the range of `Date`, and at or before every midnight after its start that ends
a day of the years `0` to `99`. -/
def WellDated (start : ℤ) (durationNs : ℕ) : Prop :=
  start * nanosecondsPerMillisecond + durationNs ≤ maxTimeValue * nanosecondsPerMillisecond ∧
    ∀ day, start / msPerDay ≤ day → 0 ≤ yearFromDay day → yearFromDay day ≤ 99 →
      start * nanosecondsPerMillisecond + durationNs ≤ (day + 1) * nanosecondsPerDay

/-! ### The cuts of the years 0 to 99 -/

theorem yearFromDay_early {d : ℤ} (h : yearFromDay d ≤ 99) : d < 0 := by
  simp only [yearFromDay] at h
  split_ifs at h <;> omega

theorem nextUtcMidnight_late {t : ℤ} (h0 : 0 ≤ getUTCFullYear t) (h99 : getUTCFullYear t ≤ 99) :
    (t / msPerDay + 1) * msPerDay < nextUtcMidnight t ∧ nextUtcMidnight t ≤ maxTimeValue := by
  have hearly := yearFromDay_early h99
  simp only [nextUtcMidnight, dateUTC, getUTCDate, if_pos (And.intro h0 h99)]
  set y := getUTCFullYear t
  have hm := monthStart_leap_le (inLeapYear y) (inLeapYear (1900 + y)) (getUTCMonth t)
  have hm' := monthStart_leap_le (inLeapYear (1900 + y)) (inLeapYear y) (getUTCMonth t)
  have hy : dayFromYear y + 365 ≤ dayFromYear (1900 + y) ∧
      dayFromYear (1900 + y) ≤ dayFromYear y + 700000 := by
    unfold dayFromYear
    omega
  constructor
  · refine mul_lt_mul_of_pos_right ?_ (by decide)
    omega
  · show _ ≤ 100000000 * msPerDay
    refine mul_le_mul_of_nonneg_right ?_ (by decide)
    omega

/-! ### The range -/

theorem splitLoop?_succ (fuel : ℕ) (c terminal : ℤ) (index : ℕ)
    (h : c * nanosecondsPerMillisecond < terminal) :
    splitLoop? (fuel + 1) (c * nanosecondsPerMillisecond) terminal index =
      if maxTimeValue < nextUtcMidnight c then none
      else (splitLoop? fuel (nextCut (c * nanosecondsPerMillisecond) terminal) terminal (index + 1)).map
        ({ index := index
           start := c
           stop := timestampFromNanoseconds (nextCut (c * nanosecondsPerMillisecond) terminal)
           runtimeNs := (nextCut (c * nanosecondsPerMillisecond) terminal
             - c * nanosecondsPerMillisecond).toNat } :: ·) := by
  simp only [splitLoop?, if_pos h, nextCut, timestamp_whole]

theorem splitLoop?_done (fuel : ℕ) (cursor terminal : ℤ) (index : ℕ) (h : ¬ cursor < terminal) :
    splitLoop? fuel cursor terminal index = some [] := by
  cases fuel with
  | zero => rfl
  | succ fuel => simp only [splitLoop?, if_neg h]

/-- Where every cut is in the range, the loop is the one over all instants. -/
theorem splitLoop?_some (fuel : ℕ) : ∀ (c terminal : ℤ) (index : ℕ) (segments : List UsageSegment),
    splitLoop? fuel (c * nanosecondsPerMillisecond) terminal index = some segments →
    segments = splitLoop fuel (c * nanosecondsPerMillisecond) terminal index := by
  induction fuel with
  | zero =>
    intro c terminal index segments h
    cases h
    rfl
  | succ fuel ih =>
    intro c terminal index segments h
    by_cases hlt : c * nanosecondsPerMillisecond < terminal
    · rw [splitLoop?_succ fuel c terminal index hlt] at h
      rw [splitLoop_succ fuel _ _ index hlt, timestamp_whole]
      split_ifs at h
      obtain ⟨rest, hrest, rfl⟩ := Option.map_eq_some_iff.mp h
      congr 1
      rcases nextCut_whole c terminal with hn | hn
      · rw [hn, splitLoop?_done _ _ _ _ (lt_irrefl terminal)] at hrest
        cases hrest
        rw [hn, splitLoop_done _ _ _ _ (lt_irrefl terminal)]
      · rw [hn] at hrest ⊢
        exact ih _ _ _ _ hrest
    · rw [splitLoop?_done _ _ _ _ hlt] at h
      cases h
      rw [splitLoop_done _ _ _ _ hlt]

/-- A loop that does not throw ends within the range. -/
theorem splitLoop?_range (fuel : ℕ) : ∀ (c terminal : ℤ) (index : ℕ) (segments : List UsageSegment),
    c * nanosecondsPerMillisecond < terminal →
    terminal - (c / msPerDay + 1) * nanosecondsPerDay ≤ fuel * nanosecondsPerDay →
    splitLoop? (fuel + 1) (c * nanosecondsPerMillisecond) terminal index = some segments →
    terminal ≤ maxTimeValue * nanosecondsPerMillisecond := by
  induction fuel with
  | zero =>
    intro c terminal index segments hlt hfuel h
    rw [splitLoop?_succ 0 c terminal index hlt] at h
    have hge := nextUtcMidnight_ge c
    split_ifs at h with hmax
    simp only [nanosecondsPerDay, msPerDay, nanosecondsPerMillisecond, Nat.cast_zero] at *
    omega
  | succ fuel ih =>
    intro c terminal index segments hlt hfuel h
    rw [splitLoop?_succ (fuel + 1) c terminal index hlt] at h
    split_ifs at h with hmax
    obtain ⟨rest, hrest, _⟩ := Option.map_eq_some_iff.mp h
    by_cases hcut : nextUtcMidnight c * nanosecondsPerMillisecond < terminal
    · -- the cut is a midnight, and the loop goes on from it
      have hn : nextCut (c * nanosecondsPerMillisecond) terminal
          = nextUtcMidnight c * nanosecondsPerMillisecond := by
        simp only [nextCut, timestamp_whole, if_pos hcut]
      rw [hn] at hrest
      exact ih (nextUtcMidnight c) terminal (index + 1) rest hcut (nextUtcMidnight_covered hfuel) hrest
    · simp only [nanosecondsPerMillisecond] at *
      omega

/-- What is left of an interval stays well dated when the cursor moves on. -/
def WellDatedFrom (c terminal : ℤ) : Prop :=
  terminal ≤ maxTimeValue * nanosecondsPerMillisecond ∧
    ∀ day, c / msPerDay ≤ day → 0 ≤ yearFromDay day → yearFromDay day ≤ 99 →
      terminal ≤ (day + 1) * nanosecondsPerDay

theorem WellDatedFrom.mono {c c' terminal : ℤ} (h : WellDatedFrom c terminal) (hc : c ≤ c') :
    WellDatedFrom c' terminal := by
  refine ⟨h.1, fun day hday => h.2 day (le_trans ?_ hday)⟩
  exact Int.ediv_le_ediv (by decide) hc

/-- A cut before the end of a well-dated interval is the end of its UTC day. -/
theorem WellDatedFrom.cut {c terminal : ℤ} (h : WellDatedFrom c terminal)
    (hlt : c * nanosecondsPerMillisecond < terminal) :
    nextUtcMidnight c ≤ maxTimeValue ∧
      nextCut (c * nanosecondsPerMillisecond) terminal ≤ (c / msPerDay + 1) * nanosecondsPerDay := by
  simp only [nextCut, timestamp_whole]
  by_cases hy : 0 ≤ getUTCFullYear c ∧ getUTCFullYear c ≤ 99
  · refine ⟨(nextUtcMidnight_late hy.1 hy.2).2, ?_⟩
    have hend := h.2 (c / msPerDay) le_rfl hy.1 hy.2
    split_ifs with hcut
    · exact hcut.le.trans hend
    · exact hend
  · have hrange := h.1
    rw [nextUtcMidnight_eq c hy]
    simp only [maxTimeValue, nanosecondsPerDay, msPerDay, nanosecondsPerMillisecond] at *
    split_ifs <;> omega

theorem splitLoop?_wellDated (fuel : ℕ) : ∀ (c terminal : ℤ) (index : ℕ), WellDatedFrom c terminal →
    ∃ segments, splitLoop? fuel (c * nanosecondsPerMillisecond) terminal index = some segments ∧
      ∀ seg ∈ segments, ∀ k : ℤ, seg.start < k * msPerDay →
        seg.start * nanosecondsPerMillisecond + seg.runtimeNs ≤ k * nanosecondsPerDay := by
  induction fuel with
  | zero =>
    intro c terminal index _
    exact ⟨[], rfl, by simp⟩
  | succ fuel ih =>
    intro c terminal index h
    by_cases hlt : c * nanosecondsPerMillisecond < terminal
    · obtain ⟨hmax, hcut⟩ := h.cut hlt
      have hb := nextCut_bounds _ _ hlt
      have hrest : ∃ rest, splitLoop? fuel (nextCut (c * nanosecondsPerMillisecond) terminal) terminal
          (index + 1) = some rest ∧ ∀ seg ∈ rest, ∀ k : ℤ, seg.start < k * msPerDay →
            seg.start * nanosecondsPerMillisecond + seg.runtimeNs ≤ k * nanosecondsPerDay := by
        rcases nextCut_whole c terminal with hn | hn
        · rw [hn, splitLoop?_done _ _ _ _ (lt_irrefl terminal)]
          exact ⟨[], rfl, by simp⟩
        · rw [hn]
          exact ih (nextUtcMidnight c) terminal (index + 1) (h.mono (lt_nextUtcMidnight c).le)
      obtain ⟨rest, hsome, hdays⟩ := hrest
      refine ⟨_, by rw [splitLoop?_succ fuel c terminal index hlt, if_neg (not_lt.mpr hmax), hsome]; rfl, ?_⟩
      intro seg hseg k hk
      rcases List.mem_cons.mp hseg with rfl | hseg
      · -- the segment ends by the midnight that ends the day of its start
        have hday : c / msPerDay + 1 ≤ k := by
          show c / 86400000 + 1 ≤ k
          have hk' : c < k * 86400000 := hk
          omega
        have hend : (c / msPerDay + 1) * nanosecondsPerDay ≤ k * nanosecondsPerDay :=
          mul_le_mul_of_nonneg_right hday (by decide)
        show c * nanosecondsPerMillisecond + (Int.toNat _ : ℤ) ≤ _
        omega
      · exact hdays seg hseg k hk
    · rw [splitLoop?_done _ _ _ _ hlt]
      exact ⟨[], rfl, by simp⟩

/-- Past a midnight of the years `0` to `99` some segment runs across a midnight. -/
theorem splitLoop_crosses (fuel : ℕ) : ∀ (c terminal : ℤ) (index : ℕ) (day : ℤ),
    terminal - (c / msPerDay + 1) * nanosecondsPerDay ≤ fuel * nanosecondsPerDay →
    c / msPerDay ≤ day → 0 ≤ yearFromDay day → yearFromDay day ≤ 99 →
    (day + 1) * nanosecondsPerDay < terminal →
    ∃ seg ∈ splitLoop (fuel + 1) (c * nanosecondsPerMillisecond) terminal index, ∃ k : ℤ,
      seg.start < k * msPerDay ∧
        k * nanosecondsPerDay < seg.start * nanosecondsPerMillisecond + seg.runtimeNs := by
  induction fuel with
  | zero =>
    intro c terminal index day hfuel hday _ _ hcross
    exfalso
    simp only [nanosecondsPerDay, msPerDay, nanosecondsPerMillisecond, Nat.cast_zero] at *
    omega
  | succ fuel ih =>
    intro c terminal index day hfuel hday h0 h99 hcross
    have hlt : c * nanosecondsPerMillisecond < terminal := by
      simp only [nanosecondsPerDay, msPerDay, nanosecondsPerMillisecond] at *
      omega
    rw [splitLoop_succ (fuel + 1) _ _ index hlt, timestamp_whole]
    by_cases hy : 0 ≤ getUTCFullYear c ∧ getUTCFullYear c ≤ 99
    · -- the cut of the day of `c` lies past its midnight, and so does the end
      refine ⟨_, List.mem_cons_self, c / msPerDay + 1, ?_, ?_⟩
      · show c < (c / msPerDay + 1) * msPerDay
        simp only [msPerDay]
        omega
      · have hlate := (nextUtcMidnight_late hy.1 hy.2).1
        show _ < c * nanosecondsPerMillisecond + (Int.toNat _ : ℤ)
        simp only [nextCut, timestamp_whole]
        simp only [nanosecondsPerDay, msPerDay, nanosecondsPerMillisecond] at *
        split_ifs <;> omega
    · have hne : day ≠ c / msPerDay := by
        rintro rfl
        exact hy ⟨h0, h99⟩
      have hcut := nextUtcMidnight_eq c hy
      have hnext : nextUtcMidnight c / msPerDay = c / msPerDay + 1 := by
        rw [hcut, Int.mul_ediv_cancel _ (by decide)]
      have hn : nextCut (c * nanosecondsPerMillisecond) terminal
          = nextUtcMidnight c * nanosecondsPerMillisecond := by
        simp only [nextCut, timestamp_whole]
        refine if_pos ?_
        rw [hcut]
        simp only [nanosecondsPerDay, msPerDay, nanosecondsPerMillisecond] at *
        omega
      obtain ⟨seg, hseg, k, hk⟩ := ih (nextUtcMidnight c) terminal (index + 1) day
        (by
          rw [hnext]
          simp only [nanosecondsPerDay, msPerDay, nanosecondsPerMillisecond] at *
          push_cast at hfuel
          omega)
        (by omega) h0 h99 hcross
      rw [hn]
      exact ⟨seg, List.mem_cons_of_mem _ hseg, k, hk⟩

/-! ### The whole split -/

theorem split_fuel (start : ℤ) (durationNs : ℕ) :
    start * nanosecondsPerMillisecond + durationNs - (start / msPerDay + 1) * nanosecondsPerDay
      ≤ ((durationNs / 86400000000000 + 1 : ℕ) : ℤ) * nanosecondsPerDay := by
  simp only [nanosecondsPerDay, msPerDay, nanosecondsPerMillisecond]
  push_cast
  omega

theorem split?_some {start : ℤ} {durationNs : ℕ} {segments : List UsageSegment}
    (h : splitRuntimeAtUtcMidnight? start durationNs = some segments) :
    segments = splitRuntimeAtUtcMidnight start durationNs :=
  splitLoop?_some _ _ _ _ _ h

/-- The rows of the segments of a split are all inserted. -/
theorem split_kept (start : ℤ) (durationNs : ℕ) (db : Db) (identity : MachineIdentity)
    (o : StoredObservation)
    (hnew : ∀ r ∈ db.rawEvents, r.observationId ≠ o.id ∧ r.eventKey.observationId ≠ o.id) :
    ∃ db', appendProjections db
        ((splitRuntimeAtUtcMidnight start durationNs).flatMap (segmentEvents identity o)) = .ok db' ∧
      db'.rawEvents = db.rawEvents
        ++ stored ((splitRuntimeAtUtcMidnight start durationNs).flatMap (segmentEvents identity o)) := by
  have hpw : ((splitRuntimeAtUtcMidnight start durationNs).flatMap
      (segmentEvents identity o)).Pairwise RawUsageEvent.Distinct := by
    rw [List.pairwise_flatMap]
    refine ⟨fun seg _ => segmentEvents_pairwise identity o seg, ?_⟩
    exact (split_ordered start durationNs).imp fun {a b} hab => segmentEvents_distinct identity o a b hab
  have hd : ∀ r ∈ db.rawEvents, ∀ e ∈ (splitRuntimeAtUtcMidnight start durationNs).flatMap
      (segmentEvents identity o), r.Distinct e := by
    intro r hr e he
    obtain ⟨seg, _, he⟩ := List.mem_flatMap.mp he
    obtain ⟨heo, hek, _⟩ := segmentEvents_mem identity o seg e he
    obtain ⟨hro, hrk⟩ := hnew r hr
    refine ⟨?_, ?_⟩
    · intro h
      exact hrk (by rw [h, hek])
    · rintro ⟨h, _, _⟩
      exact hro (by rw [h, heo])
  obtain ⟨db', hok, ht⟩ := appendProjections_ok _ db hd hpw
  exact ⟨db', hok, congrArg Tables.rawEvents ht⟩

/-- **The split is exact for the well-dated intervals, and for no others.** -/
theorem split_exact_iff (start : ℤ) (durationNs : ℕ) (hpos : 0 < durationNs) :
    SplitsExactly start durationNs ↔ WellDated start durationNs := by
  have hlt : start * nanosecondsPerMillisecond < start * nanosecondsPerMillisecond + durationNs := by
    omega
  constructor
  · rintro ⟨segments, hsome, hexact⟩
    refine ⟨splitLoop?_range _ start _ 0 segments hlt (split_fuel start durationNs) hsome, ?_⟩
    intro day hday h0 h99
    by_contra hcross
    obtain ⟨seg, hseg, k, hk, hover⟩ := splitLoop_crosses _ start _ 0 day (split_fuel start durationNs)
      hday h0 h99 (not_le.mp hcross)
    have hmem : seg ∈ segments := by
      rw [split?_some hsome]
      exact hseg
    exact absurd (hexact.day seg hmem k hk) (not_le.mpr hover)
  · intro h
    obtain ⟨segments, hsome, hdays⟩ := splitLoop?_wellDated _ start _ 0 h
    refine ⟨segments, hsome, ?_⟩
    have heq : segments = splitRuntimeAtUtcMidnight start durationNs := split?_some hsome
    subst heq
    exact
      { runtime := split_runtime_sum start durationNs
        contiguous := split_tiles start durationNs
        day := hdays
        increasing := (split_ordered start durationNs).imp fun {a b} hab => hab.1
        kept := fun db identity o => split_kept start durationNs db identity o }

/-- Two milliseconds over a whole day, from the last millisecond of 2025. -/
theorem split_exact_new_year :
    0 < 86400002000000 ∧
      (SplitsExactly 1767225599999 86400002000000 ↔ WellDated 1767225599999 86400002000000) ∧
      WellDated 1767225599999 86400002000000 := by
  refine ⟨by decide, split_exact_iff _ _ (by decide), by decide, ?_⟩
  intro day hday _ h99
  have hearly := yearFromDay_early h99
  have hlate : (20453 : ℤ) ≤ day := hday
  omega

/-- Two days from the first of January of the year 50 are one segment, across a midnight. -/
theorem split_year_fifty :
    ¬ ∀ (start : ℤ) (durationNs : ℕ), 0 < durationNs → SplitsExactly start durationNs := by
  intro hall
  obtain ⟨segments, hsome, hexact⟩ := hall (-60589296000000) 172800000000000 (by decide)
  have hone : splitRuntimeAtUtcMidnight? (-60589296000000) 172800000000000
      = some [⟨0, -60589296000000, -60589123200000, 172800000000000⟩] := by decide +kernel
  rw [hone] at hsome
  cases hsome
  have hday := hexact.day _ List.mem_cons_self (-701264) (by decide)
  revert hday
  decide

end Nehemiah.Billing
