import Mathlib

/-!
# The REST limiter

A fixed number of slots, each with the start of its window and the requests admitted in it.  The slot of a
caller is chosen by the digest of its identity, so that two callers may share one.  A window starts with the first
request that finds none open, whoever sends it: the requests of the one caller move the windows of the other.

`collision_neverHelps` is when that can help the other, and `halfMinutes_helped` a sequence in which it does.  The
digest is a parameter, and requests come in the order of their times; the network that identifies a caller is given.
-/

namespace Nehemiah.DataPlane

/-- `windowStarted` is `none` while it is the zero time. -/
structure RestRateSlot where
  windowStarted : Option ℤ
  requests : ℕ

/-- A request at `now` starts a window of its own. -/
def RestRateSlot.startsWindow (state : RestRateSlot) (window now : ℤ) : Bool :=
  match state.windowStarted with
  | none => true
  | some started => decide (now < started) || decide (window ≤ now - started)

def RestRateSlot.retry (state : RestRateSlot) (window now : ℤ) : ℤ :=
  let retry := window - (now - state.windowStarted.getD 0)
  if retry ≤ 0 ∨ window < retry then 1000000000 else retry

def RestRateSlot.allow (state : RestRateSlot) (limit : ℕ) (window now : ℤ) : (Bool × ℤ) × RestRateSlot :=
  if state.startsWindow window now then ((true, 0), ⟨some now, 1⟩)
  else if state.requests < limit then ((true, 0), { state with requests := state.requests + 1 })
  else ((false, state.retry window now), state)

/-- `restRateLimiter` with `n` slots. -/
structure RestRateLimiter (n : ℕ) where
  slots : Fin n → RestRateSlot
  limit : ℕ
  window : ℤ

def newRESTRateLimiter (limit n : ℕ) (window : ℤ) : RestRateLimiter n := ⟨fun _ => ⟨none, 0⟩, limit, window⟩

section

variable {n : ℕ} [NeZero n] (sum256 : String → List UInt8)

/-- The slot of an identity: the first four bytes of its digest, modulo the number of slots. -/
def slotIndex (n : ℕ) [NeZero n] (identity : String) : Fin n :=
  Fin.ofNat n (((sum256 identity).take 4).foldl (fun word byte => word * 256 + byte.toNat) 0)

def RestRateLimiter.allow (l : RestRateLimiter n) (identity : String) (now : ℤ) :
    (Bool × ℤ) × RestRateLimiter n :=
  let index := slotIndex sum256 n identity
  let answer := (l.slots index).allow l.limit l.window now
  (answer.1, { l with slots := Function.update l.slots index answer.2 })

structure Arrival where
  identity : String
  now : ℤ

/-- The answers to a sequence of requests. -/
def RestRateLimiter.answers (l : RestRateLimiter n) : List Arrival → List (Arrival × Bool)
  | [] => []
  | x :: xs =>
    let answer := l.allow sum256 x.identity x.now
    (x, answer.1.1) :: RestRateLimiter.answers answer.2 xs

/-- How many requests of `identity` the limiter admits. -/
def RestRateLimiter.admitted (l : RestRateLimiter n) (identity : String) (arrivals : List Arrival) : ℕ :=
  (l.answers sum256 arrivals).countP fun answer => decide (answer.1.identity = identity) && answer.2

/-- The limiter after a sequence of requests. -/
def RestRateLimiter.after (l : RestRateLimiter n) (arrivals : List Arrival) : RestRateLimiter n :=
  arrivals.foldl (fun l x => (l.allow sum256 x.identity x.now).2) l

end

/-- The requests of two callers, in the order of time. -/
structure TwoCallers (a b : String) (arrivals : List Arrival) : Prop where
  ordered : arrivals.Pairwise fun x y => x.now ≤ y.now
  callers : ∀ x ∈ arrivals, x.identity = a ∨ x.identity = b

/-- On every prefix, the requests of the others do not raise what the limiter admits of `a`. -/
def NeverHelped {n : ℕ} [NeZero n] (sum256 : String → List UInt8) (l : RestRateLimiter n) (a : String)
    (arrivals : List Arrival) : Prop :=
  ∀ k, l.admitted sum256 a (arrivals.take k) ≤
    l.admitted sum256 a ((arrivals.take k).filter fun x => decide (x.identity = a))

/-- Every request of `b` finds the shared slot as `guard` says. -/
def FindsSlot {n : ℕ} [NeZero n] (guard : RestRateSlot → ℤ → Prop) (sum256 : String → List UInt8)
    (l : RestRateLimiter n) (b : String) (arrivals : List Arrival) : Prop :=
  ∀ before x rest, arrivals = before ++ x :: rest → x.identity = b →
    guard ((l.after sum256 before).slots (slotIndex sum256 n b)) x.now

/-- No request of `b` starts a window. -/
def FindsWindowOpen {n : ℕ} [NeZero n] (sum256 : String → List UInt8) (l : RestRateLimiter n) (b : String)
    (arrivals : List Arrival) : Prop :=
  FindsSlot (fun state now => state.startsWindow l.window now = false) sum256 l b arrivals

/-! ### One slot -/

namespace RestRateSlot

variable {state : RestRateSlot} {window now : ℤ} {limit : ℕ}

theorem allow_start (h : state.startsWindow window now = true) :
    state.allow limit window now = ((true, 0), ⟨some now, 1⟩) := by
  simp [allow, h]

theorem allow_count (h : state.startsWindow window now = false) (hr : state.requests < limit) :
    state.allow limit window now = ((true, 0), { state with requests := state.requests + 1 }) := by
  simp [allow, h, hr]

theorem allow_full (h : state.startsWindow window now = false) (hr : limit ≤ state.requests) :
    state.allow limit window now = ((false, state.retry window now), state) := by
  simp [allow, h, Nat.not_lt.mpr hr]

theorem startsWindow_false_iff :
    state.startsWindow window now = false ↔
      ∃ started, state.windowStarted = some started ∧ started ≤ now ∧ now - started < window := by
  cases hs : state.windowStarted with
  | none => simp [startsWindow, hs]
  | some started => simp [startsWindow, hs]

theorem startsWindow_true_iff :
    state.startsWindow window now = true ↔
      ∀ started, state.windowStarted = some started → now < started ∨ window ≤ now - started := by
  cases hs : state.windowStarted with
  | none => simp [startsWindow, hs]
  | some started => simp [startsWindow, hs]

/-- The slot has seen requests up to `last`, and its window counts at least the one that started it. -/
structure Seen (state : RestRateSlot) (last : ℤ) : Prop where
  started : ∀ started, state.windowStarted = some started → started ≤ last ∧ 1 ≤ state.requests

theorem Seen.later {last : ℤ} (h : state.Seen last) (hn : last ≤ now) : state.Seen now := by
  constructor
  intro started hs
  have := h.started started hs
  omega

theorem Seen.allow {last : ℤ} (limit : ℕ) (window : ℤ) (h : state.Seen last) (hn : last ≤ now) :
    (state.allow limit window now).2.Seen now := by
  by_cases hw : state.startsWindow window now = true
  · rw [allow_start hw]
    constructor
    intro started hs
    have : now = started := by simpa using hs
    simp [this]
  · have hw : state.startsWindow window now = false := by simpa using hw
    by_cases hr : state.requests < limit
    · rw [allow_count hw hr]
      constructor
      intro started hs
      have := h.started started hs
      simp only
      omega
    · rw [allow_full hw (by omega)]
      exact h.later hn

end RestRateSlot

/-! ### The shared slot beside the slot of the caller alone

A coupling relates the slot that both callers use to the one that the first caller would have for itself, with the
number of its requests that only the latter has admitted so far. -/

/-- What a coupling must survive: a request of the caller, and one of the other caller that `guard` lets through. -/
structure Coupling (limit : ℕ) (window : ℤ) (guard : RestRateSlot → ℤ → Prop)
    (I : ℕ → RestRateSlot → RestRateSlot → ℤ → Prop) : Prop where
  own : ∀ {c s t last now}, I c s t last → last ≤ now →
    ∃ c', (s.allow limit window now).1.1.toNat + c' = c + (t.allow limit window now).1.1.toNat ∧
      I c' (s.allow limit window now).2 (t.allow limit window now).2 now
  other : ∀ {c s t last now}, I c s t last → last ≤ now → guard s now →
    I c (s.allow limit window now).2 t now

section

variable {n : ℕ} [NeZero n] {sum256 : String → List UInt8}

@[simp] theorem RestRateLimiter.allow_limit (l : RestRateLimiter n) (identity : String) (now : ℤ) :
    (l.allow sum256 identity now).2.limit = l.limit := rfl

@[simp] theorem RestRateLimiter.allow_window (l : RestRateLimiter n) (identity : String) (now : ℤ) :
    (l.allow sum256 identity now).2.window = l.window := rfl

@[simp] theorem RestRateLimiter.allow_answer (l : RestRateLimiter n) (identity : String) (now : ℤ) :
    (l.allow sum256 identity now).1 =
      ((l.slots (slotIndex sum256 n identity)).allow l.limit l.window now).1 := rfl

@[simp] theorem RestRateLimiter.allow_slot (l : RestRateLimiter n) (identity : String) (now : ℤ) :
    (l.allow sum256 identity now).2.slots (slotIndex sum256 n identity) =
      ((l.slots (slotIndex sum256 n identity)).allow l.limit l.window now).2 := by
  simp [RestRateLimiter.allow]

@[simp] theorem RestRateLimiter.admitted_nil (l : RestRateLimiter n) (a : String) : l.admitted sum256 a [] = 0 := rfl

variable {a b : String} {xs : List Arrival} {guard : RestRateSlot → ℤ → Prop} {window : ℤ} {x : Arrival}
    {l : RestRateLimiter n} {I : ℕ → RestRateSlot → RestRateSlot → ℤ → Prop} {limit : ℕ}

theorem RestRateLimiter.admitted_own (l : RestRateLimiter n) (xs : List Arrival) (h : x.identity = a) :
    l.admitted sum256 a (x :: xs) =
      (l.allow sum256 x.identity x.now).1.1.toNat + (l.allow sum256 x.identity x.now).2.admitted sum256 a xs := by
  subst h
  show List.countP _ (_ :: _) = _
  rw [List.countP_cons, Nat.add_comm]
  congr 1
  generalize (l.allow sum256 x.identity x.now).1.1 = answer
  cases answer <;> simp

theorem RestRateLimiter.admitted_other (l : RestRateLimiter n) (xs : List Arrival) (h : x.identity ≠ a) :
    l.admitted sum256 a (x :: xs) = (l.allow sum256 x.identity x.now).2.admitted sum256 a xs := by
  simp [RestRateLimiter.admitted, RestRateLimiter.answers, h]

theorem TwoCallers.tail (h : TwoCallers a b (x :: xs)) : TwoCallers a b xs :=
  ⟨h.ordered.of_cons, fun y hy => h.callers y (List.mem_cons_of_mem _ hy)⟩

theorem TwoCallers.take (h : TwoCallers a b xs) (k : ℕ) : TwoCallers a b (xs.take k) :=
  ⟨h.ordered.sublist (List.take_sublist k xs), fun y hy => h.callers y (List.mem_of_mem_take hy)⟩

theorem FindsSlot.tail (h : FindsSlot guard sum256 l b (x :: xs)) :
    FindsSlot guard sum256 (l.allow sum256 x.identity x.now).2 b xs := by
  intro before y rest hxs hy
  exact h (x :: before) y rest (by simp [hxs]) hy

theorem FindsSlot.take (h : FindsSlot guard sum256 l b xs) (k : ℕ) : FindsSlot guard sum256 l b (xs.take k) := by
  intro before x rest hxs hx
  have split : xs = before ++ x :: (rest ++ xs.drop k) := by
    calc xs = xs.take k ++ xs.drop k := (List.take_append_drop k xs).symm
      _ = before ++ x :: (rest ++ xs.drop k) := by simp [hxs]
  exact h before x _ split hx

/-- **Run lemma.**  Coupled slots stay coupled over a sequence, so that the caller alone is admitted as often. -/
theorem Coupling.admitted_le (hab : slotIndex sum256 n b = slotIndex sum256 n a) (xs : List Arrival) :
    ∀ {l m : RestRateLimiter n} {c : ℕ} {last : ℤ}, Coupling l.limit l.window guard I →
      m.limit = l.limit → m.window = l.window → TwoCallers a b xs → (∀ x ∈ xs, last ≤ x.now) →
      FindsSlot guard sum256 l b xs →
      I c (l.slots (slotIndex sum256 n a)) (m.slots (slotIndex sum256 n a)) last →
      l.admitted sum256 a xs ≤ m.admitted sum256 a (xs.filter fun x => decide (x.identity = a)) + c := by
  induction xs with
  | nil => intro l m c last _ _ _ _ _ _ _; simp
  | cons x xs ih =>
    intro l m c last hI hlimit hwindow two after guarded h
    have hx : last ≤ x.now := after x List.mem_cons_self
    have later : ∀ y ∈ xs, x.now ≤ y.now := fun y hy => List.rel_of_pairwise_cons two.ordered hy
    by_cases hxa : x.identity = a
    · subst hxa
      obtain ⟨c', hc, hI'⟩ := hI.own h hx
      have rest := ih (l := (l.allow sum256 x.identity x.now).2) (m := (m.allow sum256 x.identity x.now).2)
        (c := c') hI (by simp [hlimit]) (by simp [hwindow]) two.tail later guarded.tail
        (by simpa [hlimit, hwindow] using hI')
      rw [List.filter_cons_of_pos (by simp), l.admitted_own xs rfl, m.admitted_own _ rfl]
      simp only [RestRateLimiter.allow_answer, hlimit, hwindow] at rest ⊢
      omega
    · have hxb : x.identity = b := (two.callers x List.mem_cons_self).resolve_left hxa
      have open' : guard (l.slots (slotIndex sum256 n b)) x.now := guarded [] x xs rfl hxb
      rw [hab] at open'
      have slot : (l.allow sum256 x.identity x.now).2.slots (slotIndex sum256 n a) =
          ((l.slots (slotIndex sum256 n a)).allow l.limit l.window x.now).2 := by
        rw [← hab, ← hxb]
        exact l.allow_slot x.identity x.now
      have rest := ih (l := (l.allow sum256 x.identity x.now).2) (m := m) (c := c) hI hlimit hwindow
        two.tail later guarded.tail (by rw [slot]; exact hI.other h hx open')
      rw [List.filter_cons_of_neg (by simpa using hxa), l.admitted_other xs hxa]
      exact rest

/-! ### With one request a window -/

/-- The windows of the caller alone start no later than the shared ones, as long as it has been admitted no more. -/
structure Earlier (c : ℕ) (s t : RestRateSlot) (last : ℤ) : Prop where
  shared : s.Seen last
  alone : t.Seen last
  earlier : c = 0 → ∀ started, t.windowStarted = some started → ∃ later, s.windowStarted = some later ∧ started ≤ later

theorem Earlier.coupling (window : ℤ) : Coupling 1 window (fun _ _ => True) Earlier := by
  constructor
  · intro c s t last now h hn
    have shared := h.shared.allow 1 window hn
    have alone := h.alone.allow 1 window hn
    by_cases hs : s.startsWindow window now = true
    · rw [RestRateSlot.allow_start hs] at shared ⊢
      by_cases ht : t.startsWindow window now = true
      · rw [RestRateSlot.allow_start ht] at alone ⊢
        exact ⟨c, by omega, shared, alone, fun _ started hst => ⟨now, rfl, by simp_all⟩⟩
      · -- the caller alone finds a window open, so it was ahead
        have ht : t.startsWindow window now = false := by simpa using ht
        obtain ⟨started, hst, hle, hlt⟩ := RestRateSlot.startsWindow_false_iff.mp ht
        have ahead : 0 < c := by
          by_contra hc
          obtain ⟨later, hl, hle'⟩ := h.earlier (by omega) started hst
          have := (RestRateSlot.startsWindow_true_iff.mp hs) later hl
          have := h.shared.started later hl
          omega
        have full : 1 ≤ t.requests := (h.alone.started started hst).2
        rw [RestRateSlot.allow_full ht full] at alone ⊢
        refine ⟨c - 1, by simp; omega, shared, alone, fun _ _ hst' => ⟨now, rfl, ?_⟩⟩
        exact (alone.started _ hst').1
    · have hs : s.startsWindow window now = false := by simpa using hs
      obtain ⟨later, hl, -, -⟩ := RestRateSlot.startsWindow_false_iff.mp hs
      rw [RestRateSlot.allow_full hs (h.shared.started later hl).2] at shared ⊢
      by_cases ht : t.startsWindow window now = true
      · rw [RestRateSlot.allow_start ht] at alone ⊢
        exact ⟨c + 1, by simp, shared, alone, fun hc => absurd hc (by omega)⟩
      · have ht : t.startsWindow window now = false := by simpa using ht
        obtain ⟨started, hst, -, -⟩ := RestRateSlot.startsWindow_false_iff.mp ht
        rw [RestRateSlot.allow_full ht (h.alone.started started hst).2] at alone ⊢
        exact ⟨c, by simp, shared, alone, h.earlier⟩
  · intro c s t last now h hn _
    have shared := h.shared.allow 1 window hn
    refine ⟨shared, h.alone.later hn, fun hc started hst => ?_⟩
    obtain ⟨later, hl, hle⟩ := h.earlier hc started hst
    have := h.shared.started later hl
    by_cases hs : s.startsWindow window now = true
    · rw [RestRateSlot.allow_start hs]
      exact ⟨now, rfl, by omega⟩
    · have hs : s.startsWindow window now = false := by simpa using hs
      rw [RestRateSlot.allow_full hs this.2]
      exact ⟨later, hl, hle⟩

/-! ### With windows that the other caller does not move -/

/-- The caller alone has a window that is over, or the shared one, with no more requests in it.  Only windows of a
single instant may differ. -/
structure Aligned (limit : ℕ) (window : ℤ) (_ : ℕ) (s t : RestRateSlot) (last : ℤ) : Prop where
  shared : s.Seen last
  alone : t.Seen last
  counted : t.requests ≤ limit
  same : s.windowStarted = t.windowStarted ∨ window = 1
  aligned : ∀ started, t.windowStarted = some started → ∃ later, s.windowStarted = some later ∧
    (started = later ∧ t.requests ≤ s.requests ∨ started + window ≤ later)

theorem Aligned.coupling (hlimit : 0 < limit) :
    Coupling limit window (fun state now => window = 1 ∨ state.startsWindow window now = false)
      (Aligned limit window) := by
  constructor
  · intro c s t last now h hn
    have shared := h.shared.allow limit window hn
    have alone := h.alone.allow limit window hn
    by_cases hs : s.startsWindow window now = true
    · -- both start a window now
      have ht : t.startsWindow window now = true := by
        rw [RestRateSlot.startsWindow_true_iff]
        intro started hst
        obtain ⟨later, hl, hcase⟩ := h.aligned started hst
        have := (RestRateSlot.startsWindow_true_iff.mp hs) later hl
        have := h.shared.started later hl
        omega
      rw [RestRateSlot.allow_start hs] at shared ⊢
      rw [RestRateSlot.allow_start ht] at alone ⊢
      refine ⟨c, by omega, shared, alone, hlimit, .inl rfl, fun started hst => ⟨now, rfl, .inl ⟨?_, le_rfl⟩⟩⟩
      simpa using hst.symm
    · have hs : s.startsWindow window now = false := by simpa using hs
      obtain ⟨later, hl, hle, hlt⟩ := RestRateSlot.startsWindow_false_iff.mp hs
      have counted : 1 ≤ s.requests := (h.shared.started later hl).2
      by_cases ht : t.startsWindow window now = true
      · -- only in a window of one instant, the present one
        have instant : window = 1 := by
          refine h.same.resolve_left fun same => ?_
          have := (RestRateSlot.startsWindow_true_iff.mp ht) later (same ▸ hl)
          omega
        rw [RestRateSlot.allow_start ht] at alone ⊢
        by_cases hr : s.requests < limit
        · rw [RestRateSlot.allow_count hs hr] at shared ⊢
          refine ⟨c, by simp [Nat.add_comm], shared, alone, hlimit, .inr instant, fun started hst => ⟨later, hl, .inl ⟨?_, ?_⟩⟩⟩
          · have : now = started := by simpa using hst
            omega
          · show 1 ≤ s.requests + 1
            omega
        · rw [RestRateSlot.allow_full hs (by omega)] at shared ⊢
          refine ⟨c + 1, by simp, shared, alone, hlimit, .inr instant, fun started hst => ⟨later, hl, .inl ⟨?_, counted⟩⟩⟩
          have : now = started := by simpa using hst
          omega
      · -- both find the same window open
        have ht : t.startsWindow window now = false := by simpa using ht
        obtain ⟨started, hst, hle', hlt'⟩ := RestRateSlot.startsWindow_false_iff.mp ht
        obtain ⟨later', hl', hcase⟩ := h.aligned started hst
        have hlater : later' = later := by simpa [hl] using hl'.symm
        subst hlater
        have same : started = later' ∧ t.requests ≤ s.requests := by
          refine hcase.resolve_right fun ended => ?_
          omega
        have starts : s.windowStarted = t.windowStarted := by rw [hl, hst, same.1]
        by_cases hr : s.requests < limit
        · rw [RestRateSlot.allow_count hs hr] at shared ⊢
          rw [RestRateSlot.allow_count ht (by omega)] at alone ⊢
          refine ⟨c, by simp [Nat.add_comm], shared, alone, ?_, .inl starts, fun _ hst' => ⟨later', hl, .inl ⟨?_, ?_⟩⟩⟩
          · show t.requests + 1 ≤ limit
            omega
          · exact (Option.some.inj (hst.symm.trans hst')).symm.trans same.1
          · show t.requests + 1 ≤ s.requests + 1
            omega
        · rw [RestRateSlot.allow_full hs (by omega)] at shared ⊢
          by_cases hr' : t.requests < limit
          · rw [RestRateSlot.allow_count ht hr'] at alone ⊢
            refine ⟨c + 1, by simp, shared, alone, ?_, .inl starts, fun _ hst' => ⟨later', hl, .inl ⟨?_, ?_⟩⟩⟩
            · show t.requests + 1 ≤ limit
              omega
            · exact (Option.some.inj (hst.symm.trans hst')).symm.trans same.1
            · show t.requests + 1 ≤ s.requests
              omega
          · rw [RestRateSlot.allow_full ht (by omega)] at alone ⊢
            exact ⟨c, by simp, shared, alone, h.counted, .inl starts, h.aligned⟩
  · intro c s t last now h hn guard
    have shared := h.shared.allow limit window hn
    by_cases hs : s.startsWindow window now = true
    · have instant : window = 1 := guard.resolve_right (by simp [hs])
      rw [RestRateSlot.allow_start hs] at shared ⊢
      refine ⟨shared, h.alone.later hn, h.counted, .inr instant, fun started hst => ⟨now, rfl, .inr ?_⟩⟩
      obtain ⟨later, hl, hcase⟩ := h.aligned started hst
      have := (RestRateSlot.startsWindow_true_iff.mp hs) later hl
      have := h.shared.started later hl
      omega
    · have hs : s.startsWindow window now = false := by simpa using hs
      by_cases hr : s.requests < limit
      · rw [RestRateSlot.allow_count hs hr] at shared ⊢
        refine ⟨shared, h.alone.later hn, h.counted, h.same, fun started hst => ?_⟩
        obtain ⟨later, hl, hcase⟩ := h.aligned started hst
        refine ⟨later, hl, hcase.imp_left fun same => ⟨same.1, ?_⟩⟩
        show t.requests ≤ s.requests + 1
        omega
      · rw [RestRateSlot.allow_full hs (by omega)] at shared ⊢
        exact ⟨shared, h.alone.later hn, h.counted, h.same, h.aligned⟩

/-! ### Which limits a collision respects -/

theorem FindsSlot.always (l : RestRateLimiter n) (b : String) (xs : List Arrival) :
    FindsSlot (fun _ _ => True) sum256 l b xs := fun _ _ _ _ _ => trivial

theorem FindsSlot.mono {guard' : RestRateSlot → ℤ → Prop} (h : ∀ state now, guard state now → guard' state now)
    (hf : FindsSlot guard sum256 l b xs) :
    FindsSlot guard' sum256 l b xs :=
  fun before x rest hxs hx => h _ _ (hf before x rest hxs hx)

/-- A coupling of empty slots bounds every prefix. -/
theorem Coupling.neverHelped (hab : slotIndex sum256 n a = slotIndex sum256 n b) (hI : Coupling limit window guard I)
    (empty : ∀ last, I 0 ⟨none, 0⟩ ⟨none, 0⟩ last) (two : TwoCallers a b xs)
    (guarded : FindsSlot guard sum256 (newRESTRateLimiter limit n window) b xs) :
    NeverHelped sum256 (newRESTRateLimiter limit n window) a xs := by
  intro k
  cases hxs : xs.take k with
  | nil => simp
  | cons x rest =>
    have two' := two.take k
    have guarded' := guarded.take k
    rw [hxs] at two' guarded'
    have first : ∀ y ∈ x :: rest, x.now ≤ y.now := by
      intro y hy
      rcases List.mem_cons.mp hy with rfl | hy
      · exact le_rfl
      · exact List.rel_of_pairwise_cons two'.ordered hy
    exact Coupling.admitted_le hab.symm (x :: rest) hI rfl rfl two' first guarded' (empty x.now)

theorem Earlier.empty (last : ℤ) : Earlier 0 ⟨none, 0⟩ ⟨none, 0⟩ last :=
  ⟨⟨by simp⟩, ⟨by simp⟩, by simp⟩

theorem Aligned.empty (limit : ℕ) (window : ℤ) (last : ℤ) : Aligned limit window 0 ⟨none, 0⟩ ⟨none, 0⟩ last :=
  ⟨⟨by simp⟩, ⟨by simp⟩, by simp, .inl rfl, by simp⟩

/-- A burst of one caller in an open window takes what is left of it. -/
theorem RestRateLimiter.admitted_burst (a : String) (now : ℤ) (j : ℕ) :
    ∀ l : RestRateLimiter n, (l.slots (slotIndex sum256 n a)).startsWindow l.window now = false →
      l.admitted sum256 a (List.replicate j ⟨a, now⟩) =
        min j (l.limit - (l.slots (slotIndex sum256 n a)).requests) := by
  induction j with
  | zero => intro l _; simp
  | succ j ih =>
    intro l hw
    rw [List.replicate_succ, l.admitted_own (a := a) (x := ⟨a, now⟩) _ rfl]
    have next := ih (l.allow sum256 a now).2
    simp only [allow_slot, allow_window, allow_limit] at next
    simp only [allow_answer]
    by_cases hr : (l.slots (slotIndex sum256 n a)).requests < l.limit
    · rw [RestRateSlot.allow_count hw hr] at next ⊢
      rw [next hw]
      simp
      omega
    · rw [RestRateSlot.allow_full hw (by omega)] at next ⊢
      rw [next hw]
      simp
      omega

/-- The requests of `a` at the end of the window that `b` started, after one inside it. -/
def straddle (a b : String) (limit : ℕ) (window : ℤ) : List Arrival :=
  ⟨b, 0⟩ :: ⟨a, 1⟩ :: List.replicate limit ⟨a, window⟩

theorem straddle_twoCallers (a b : String) (limit : ℕ) (hwindow : 0 < window) :
    TwoCallers a b (straddle a b limit window) := by
  constructor
  · simp only [straddle, List.pairwise_cons, List.mem_cons, List.mem_replicate]
    refine ⟨?_, ?_, List.pairwise_replicate_of_refl⟩
    · rintro x (rfl | ⟨-, rfl⟩)
      · simp
      · exact hwindow.le
    · rintro x ⟨-, rfl⟩
      show 1 ≤ window
      omega
  · intro x hx
    simp only [straddle, List.mem_cons, List.mem_replicate] at hx
    rcases hx with rfl | rfl | ⟨-, rfl⟩ <;> simp

/-- Alone, the caller has no more than the limit, since its window is not over when the burst comes. -/
theorem straddle_alone (hab : a ≠ b) (hlimit : 0 < limit) (hwindow : 0 < window) :
    (newRESTRateLimiter limit n window).admitted sum256 a
        ((straddle a b limit window).filter fun x => decide (x.identity = a)) = limit := by
  have own : (straddle a b limit window).filter (fun x => decide (x.identity = a)) =
      ⟨a, 1⟩ :: List.replicate limit ⟨a, window⟩ := by
    simp [straddle, hab.symm]
  have start : ((newRESTRateLimiter limit n window).slots (slotIndex sum256 n a)).startsWindow window 1 = true := rfl
  rw [own, RestRateLimiter.admitted_own (a := a) (x := ⟨a, 1⟩) _ _ rfl, RestRateLimiter.admitted_burst]
  · simp only [RestRateLimiter.allow_answer, RestRateLimiter.allow_slot]
    rw [show (newRESTRateLimiter limit n window).window = window from rfl, RestRateSlot.allow_start start]
    simp [newRESTRateLimiter]
    omega
  · simp only [RestRateLimiter.allow_slot, RestRateLimiter.allow_window]
    rw [show (newRESTRateLimiter limit n window).window = window from rfl, RestRateSlot.allow_start start,
      RestRateSlot.startsWindow_false_iff]
    exact ⟨1, rfl, by omega, by omega⟩

/-- A burst that starts a window fills it. -/
theorem RestRateLimiter.admitted_fresh_burst (a : String) (now : ℤ) (l : RestRateLimiter n) (hlimit : 0 < l.limit)
    (hwindow : 0 < l.window) (hw : (l.slots (slotIndex sum256 n a)).startsWindow l.window now = true) :
    l.admitted sum256 a (List.replicate l.limit ⟨a, now⟩) = l.limit := by
  obtain ⟨j, hj⟩ : ∃ j, l.limit = j + 1 := ⟨l.limit - 1, by omega⟩
  rw [hj, List.replicate_succ, l.admitted_own (a := a) (x := ⟨a, now⟩) _ rfl, RestRateLimiter.admitted_burst]
  · simp only [allow_answer, allow_slot, allow_limit]
    rw [RestRateSlot.allow_start hw, hj]
    simp [Nat.add_comm]
  · simp only [allow_slot, allow_window]
    rw [RestRateSlot.allow_start hw, RestRateSlot.startsWindow_false_iff]
    exact ⟨now, rfl, le_rfl, by omega⟩

/-- Beside the other caller, it has a request in the window of the other and then a window for its burst. -/
theorem straddle_shared (hab : a ≠ b) (same : slotIndex sum256 n a = slotIndex sum256 n b) (hlimit : 1 < limit)
    (hwindow : 1 < window) :
    (newRESTRateLimiter limit n window).admitted sum256 a (straddle a b limit window) = limit + 1 := by
  have first : ((newRESTRateLimiter limit n window).slots (slotIndex sum256 n b)).startsWindow window 0 = true := rfl
  -- the limiter after the request of `b`, and after the next of `a`
  generalize hl : ((newRESTRateLimiter limit n window).allow sum256 b 0).2 = l
  have limit_l : l.limit = limit := by rw [← hl]; rfl
  have window_l : l.window = window := by rw [← hl]; rfl
  have slot_l : l.slots (slotIndex sum256 n a) = ⟨some 0, 1⟩ := by
    rw [← hl, same, RestRateLimiter.allow_slot]
    exact congrArg Prod.snd (RestRateSlot.allow_start first)
  have second : (l.slots (slotIndex sum256 n a)).allow l.limit l.window 1 = ((true, 0), ⟨some 0, 2⟩) := by
    rw [slot_l, limit_l, window_l, RestRateSlot.allow_count _ hlimit]
    rw [RestRateSlot.startsWindow_false_iff]
    exact ⟨0, rfl, by omega, by omega⟩
  generalize hm : (l.allow sum256 a 1).2 = m
  have limit_m : m.limit = limit := by rw [← hm, ← limit_l]; rfl
  have window_m : m.window = window := by rw [← hm, ← window_l]; rfl
  have slot_m : m.slots (slotIndex sum256 n a) = ⟨some 0, 2⟩ := by
    rw [← hm, RestRateLimiter.allow_slot, second]
  have burst : m.admitted sum256 a _ = _ := m.admitted_fresh_burst a window (by omega) (by omega) (by
    rw [slot_m, window_m, RestRateSlot.startsWindow_true_iff]
    intro started hs
    have : 0 = started := by simpa using hs
    omega)
  rw [limit_m] at burst
  rw [straddle, RestRateLimiter.admitted_other _ _ hab.symm, hl,
    RestRateLimiter.admitted_own (a := a) (x := ⟨a, 1⟩) _ _ rfl, hm, burst, RestRateLimiter.allow_answer, second]
  exact Nat.add_comm 1 limit

/-- **Exactly the limits at which a collision cannot help.**  When each window holds one request, or lasts one
instant, no sequence of the other caller raises what is admitted of the first; otherwise some sequence does.  At
every limit, the requests of the other caller do no good as long as none of them starts a window. -/
theorem collision_neverHelps {a b : String} (hab : a ≠ b) (same : slotIndex sum256 n a = slotIndex sum256 n b)
    {limit : ℕ} {window : ℤ} (hlimit : 0 < limit) (hwindow : 0 < window) :
    ((∀ arrivals, TwoCallers a b arrivals → NeverHelped sum256 (newRESTRateLimiter limit n window) a arrivals) ↔
      limit = 1 ∨ window = 1) ∧
    ∀ arrivals, TwoCallers a b arrivals →
      FindsWindowOpen sum256 (newRESTRateLimiter limit n window) b arrivals →
      NeverHelped sum256 (newRESTRateLimiter limit n window) a arrivals := by
  have aligned : Coupling limit window _ _ := Aligned.coupling hlimit
  refine ⟨⟨fun never => ?_, ?_⟩, fun arrivals two opened => ?_⟩
  · by_contra larger
    have two := straddle_twoCallers a b limit hwindow
    have helped := never _ two (straddle a b limit window).length
    rw [List.take_length, straddle_alone hab hlimit hwindow,
      straddle_shared hab same (by omega) (by omega)] at helped
    omega
  · rintro (rfl | instant) arrivals two
    · exact (Earlier.coupling window).neverHelped same Earlier.empty two (FindsSlot.always _ _ _)
    · exact aligned.neverHelped same (Aligned.empty limit window) two
        ((FindsSlot.always _ _ _).mono fun _ _ _ => .inl instant)
  · exact aligned.neverHelped same (Aligned.empty limit window) two (opened.mono fun _ _ h => .inr h)

end

/-- The digests of two networks whose first four bytes agree modulo 1024. -/
def networkSum256 (identity : String) : List UInt8 :=
  if identity = "203.0.5.0/24" then
    [123, 250, 205, 239, 235, 215, 8, 244, 119, 72, 219, 129, 112, 22, 247, 145, 19, 97,
      247, 21, 66, 102, 26, 219, 25, 135, 27, 123, 210, 3, 3, 159]
  else if identity = "203.0.6.0/24" then
    [9, 72, 25, 239, 222, 250, 57, 208, 141, 92, 78, 183, 10, 108, 90, 198, 66, 181,
      210, 153, 106, 222, 243, 179, 250, 252, 80, 203, 71, 77, 167, 84]
  else []

/-- The first network starts a minute, in which the other finds the window open. -/
def oneMinute : List Arrival :=
  [⟨"203.0.5.0/24", 0⟩, ⟨"203.0.6.0/24", 10000000000⟩, ⟨"203.0.5.0/24", 20000000000⟩]

theorem oneMinute_open :
    FindsWindowOpen networkSum256 (newRESTRateLimiter 600 1024 60000000000) "203.0.6.0/24" oneMinute := by
  intro before x rest hxs hx
  obtain _ | ⟨y, before⟩ := before
  · obtain rfl := (List.cons.inj hxs).1
    exact absurd hx (by decide)
  obtain ⟨rfl, htail⟩ := List.cons.inj hxs
  obtain _ | ⟨z, before⟩ := before
  · obtain rfl := (List.cons.inj htail).1
    decide +kernel
  obtain _ | ⟨w, before⟩ := before
  · obtain rfl := (List.cons.inj (List.cons.inj htail).2).1
    exact absurd hx (by decide)
  · have hlength := congrArg List.length htail
    simp at hlength

theorem networks_neverHelp :
    "203.0.5.0/24" ≠ "203.0.6.0/24" ∧
    slotIndex networkSum256 1024 "203.0.5.0/24" = slotIndex networkSum256 1024 "203.0.6.0/24" ∧
    ((∀ arrivals, TwoCallers "203.0.5.0/24" "203.0.6.0/24" arrivals →
        NeverHelped networkSum256 (newRESTRateLimiter 600 1024 60000000000) "203.0.5.0/24" arrivals) ↔
      600 = 1 ∨ (60000000000 : ℤ) = 1) ∧
    NeverHelped networkSum256 (newRESTRateLimiter 600 1024 60000000000) "203.0.5.0/24" oneMinute := by
  have same : slotIndex networkSum256 1024 "203.0.5.0/24" = slotIndex networkSum256 1024 "203.0.6.0/24" := by
    decide +kernel
  obtain ⟨exactly, finds⟩ := collision_neverHelps (by decide) same (by decide : 0 < 600)
    (by decide : (0 : ℤ) < 60000000000)
  exact ⟨by decide, same, exactly, finds oneMinute ⟨by decide, by decide⟩ oneMinute_open⟩

/-- Two requests a minute: the other network starts the minute, so that the first has one request in it and, half a
minute after that, two more. -/
def halfMinutes : List Arrival :=
  [⟨"203.0.6.0/24", 0⟩, ⟨"203.0.5.0/24", 30000000000⟩, ⟨"203.0.5.0/24", 60000000000⟩,
    ⟨"203.0.5.0/24", 60000000000⟩]

theorem halfMinutes_helped :
    slotIndex networkSum256 1024 "203.0.5.0/24" = slotIndex networkSum256 1024 "203.0.6.0/24" ∧
    TwoCallers "203.0.5.0/24" "203.0.6.0/24" halfMinutes ∧
    ¬ NeverHelped networkSum256 (newRESTRateLimiter 2 1024 60000000000) "203.0.5.0/24" halfMinutes := by
  refine ⟨by decide +kernel, ⟨by decide, by decide⟩, fun never => ?_⟩
  have helped : ¬ (newRESTRateLimiter 2 1024 60000000000).admitted networkSum256 "203.0.5.0/24" (halfMinutes.take 4) ≤
      (newRESTRateLimiter 2 1024 60000000000).admitted networkSum256 "203.0.5.0/24"
        ((halfMinutes.take 4).filter fun x => decide (x.identity = "203.0.5.0/24")) := by
    decide +kernel
  exact helped (never 4)

end Nehemiah.DataPlane
