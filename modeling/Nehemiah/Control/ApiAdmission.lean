import Nehemiah.Lib.FixedWindow
import Nehemiah.Lib.Run
import Nehemiah.Lib.Query

/-!
# The admission of API requests

A request is counted in a row for each of its buckets, by one statement, and is admitted if none of the counts is over
its limit.  The rows are found by a hash of twenty bits, so that strangers may share one.  Times are in microseconds; a
statement has the time at which it began, so that statements may count out of the order of their times.

`window_limit` bounds what a bucket admits, `fewer_calls_admit` compares a sequence of calls with a part of it, and
`retry_after_suffices` is about the hint of a refusal.  Which buckets a request has, and in which slots, is outside the
model: the results are about any.
-/

namespace Nehemiah.ApiAdmission

open Lib

inductive AdmissionScope
  | preauthIp | preauthApiKey | preauthCredential | principal | organization | project
deriving DecidableEq

def maximumStoredCount : ℤ := 1000001

structure ApiRateLimitConfig where
  enabled : Bool
  windowSeconds : ℤ
  preAuthIpRequests : ℤ
  preAuthApiKeyRequests : ℤ
  principalRequests : ℤ
  organizationRequests : ℤ
  projectRequests : ℤ
  failClosed : Bool

/-- The limit that the buckets of a scope have. -/
def ApiRateLimitConfig.limit (config : ApiRateLimitConfig) : AdmissionScope → ℤ
  | .preauthIp => config.preAuthIpRequests
  | .preauthApiKey | .preauthCredential => config.preAuthApiKeyRequests
  | .principal => config.principalRequests
  | .organization => config.organizationRequests
  | .project => config.projectRequests

/-- What `loadApiRateLimit` accepts; a configured integer is positive. -/
def ApiRateLimitConfig.valid (config : ApiRateLimitConfig) : Bool :=
  decide (10 ≤ config.windowSeconds) && decide (config.windowSeconds ≤ 3600) &&
    [config.preAuthIpRequests, config.preAuthApiKeyRequests, config.principalRequests, config.organizationRequests,
      config.projectRequests].all fun limit => decide (1 ≤ limit) && decide (limit ≤ 1000000)

theorem ApiRateLimitConfig.valid.limit {config : ApiRateLimitConfig} (h : config.valid = true) (scope : AdmissionScope) :
    1 ≤ config.limit scope ∧ config.limit scope < maximumStoredCount := by
  simp only [ApiRateLimitConfig.valid, List.all_cons, List.all_nil, Bool.and_eq_true, decide_eq_true_eq, and_true] at h
  unfold maximumStoredCount
  cases scope <;> simp only [ApiRateLimitConfig.limit] <;> omega

theorem ApiRateLimitConfig.valid.windowSeconds {config : ApiRateLimitConfig} (h : config.valid = true) :
    0 < config.windowSeconds := by
  simp only [ApiRateLimitConfig.valid, Bool.and_eq_true, decide_eq_true_eq] at h
  omega

/-! ### Buckets -/

structure AdmissionBucket where
  scope : AdmissionScope
  slot : ℕ
deriving DecidableEq

/-! ### The statement -/

/-- `api_admission_windows`. -/
abbrev Db := AdmissionBucket → Option Window

structure Call where
  now : ℤ
  buckets : List AdmissionBucket

/-- The start of the window of `windowSeconds` that a time is in. -/
def windowStart (config : ApiRateLimitConfig) (now : ℤ) : ℤ :=
  now / (config.windowSeconds * 1000000) * (config.windowSeconds * 1000000)

def hitBucket (config : ApiRateLimitConfig) (db : Db) (now : ℤ) (b : AdmissionBucket) : Window :=
  Window.hit maximumStoredCount (windowStart config now) (db b)

/-- `applied`: the rows after the statement. -/
def Call.apply (config : ApiRateLimitConfig) (db : Db) (call : Call) : Db := fun b =>
  if b ∈ call.buckets then some (hitBucket config db call.now b) else db b

/-- `bool_and` of no rows is not true. -/
def Call.allowed (config : ApiRateLimitConfig) (db : Db) (call : Call) : Bool :=
  decide (call.buckets ≠ []) &&
    call.buckets.all fun b => decide ((hitBucket config db call.now b).count ≤ config.limit b.scope)

/-- The seconds until the window of a row is over, rounded up. -/
def secondsLeft (config : ApiRateLimitConfig) (now : ℤ) (w : Window) : ℤ :=
  max 1 (-((now - (w.start + config.windowSeconds * 1000000)) / 1000000))

def Call.retryAfterSeconds (config : ApiRateLimitConfig) (db : Db) (call : Call) : ℤ :=
  let exceeded := (call.buckets.map fun b => (b, hitBucket config db call.now b)).filter fun r =>
    decide (config.limit r.1.scope < r.2.count)
  min ((exceeded.map fun r => secondsLeft config call.now r.2).foldl max 1) config.windowSeconds

inductive Reply
  | admitted
  | rateLimitExceeded (retryAfterSeconds : ℤ)
  | unavailable
deriving DecidableEq

/-- `consume`, where the statement may fail. -/
def consume (config : ApiRateLimitConfig) (db : Db) (call : Call) (fails : Bool) : Db × Reply :=
  if config.enabled = false then (db, .admitted)
  else if fails then (db, if config.failClosed then .unavailable else .admitted)
  else (call.apply config db,
    if call.allowed config db then .admitted else .rateLimitExceeded (call.retryAfterSeconds config db))

/-! ### The limit of a window -/

/-- The rows, with what each bucket has counted: the windows of its calls, and whether they were admitted. -/
structure State where
  db : Db
  history : AdmissionBucket → List (ℤ × Bool)

def start : State := ⟨fun _ => none, fun _ => []⟩

structure Act where
  call : Call
  fails : Bool

def next (config : ApiRateLimitConfig) (s : State) (a : Act) : Option State :=
  some ⟨(consume config s.db a.call a.fails).1, fun b =>
    if config.enabled = true ∧ a.fails = false ∧ b ∈ a.call.buckets then
      s.history b ++ [((hitBucket config s.db a.call.now b).start,
        decide ((consume config s.db a.call a.fails).2 = .admitted))]
    else s.history b⟩

variable {config : ApiRateLimitConfig} {s t : State} {db : Db} {call : Call}

def Inv (config : ApiRateLimitConfig) (s : State) : Prop :=
  ∀ b, Window.Ledger maximumStoredCount (config.limit b.scope) (s.history b) (s.db b)

theorem Inv.next (hvalid : config.valid = true) (h : Inv config s) {a : Act} (ha : next config s a = some t) :
    Inv config t := by
  cases ha
  intro b
  obtain ⟨hpos, hcap⟩ := ApiRateLimitConfig.valid.limit hvalid b.scope
  by_cases henabled : config.enabled = false
  · simpa [consume, henabled] using h b
  · by_cases hfails : a.fails = true
    · simpa [consume, henabled, hfails] using h b
    · have henabled : config.enabled = true := by simpa using henabled
      have hfails : a.fails = false := by simpa using hfails
      by_cases hb : b ∈ a.call.buckets
      · have hwithin : a.call.allowed config s.db = true →
            (hitBucket config s.db a.call.now b).count ≤ config.limit b.scope := fun hallowed =>
          of_decide_eq_true (List.all_eq_true.mp (Bool.and_eq_true_iff.mp hallowed).2 b hb)
        have hhit := (h b).hit hcap (by omega) hwithin
        simpa [consume, henabled, hfails, hb, Call.apply, hitBucket] using hhit
      · simpa [consume, henabled, hfails, hb, Call.apply] using h b

/-- **The limit of a window.**  In every order of statements, whatever their times, and with strangers in the same
rows: no bucket admits more calls than its limit in one of its windows, and, where the admission is enabled and closed on
failure, a call that is admitted is counted in all of its buckets. -/
theorem window_limit (hvalid : config.valid = true) {as : List Act}
    (h : Run (fun s a t => next config s a = some t) start as s) :
    (∀ b x, (Window.admitted (s.history b) x : ℤ) ≤ config.limit b.scope) ∧
    (config.enabled = true → config.failClosed = true → ∀ a t, next config s a = some t →
      (consume config s.db a.call a.fails).2 = .admitted →
      ∀ b ∈ a.call.buckets, ∃ x, t.history b = s.history b ++ [(x, true)]) := by
  have hstart : Inv config start := fun b => .nil (by have := ApiRateLimitConfig.valid.limit hvalid b.scope; omega)
  have hinv : Inv config s := h.invariant (fun _ _ _ hs ha => hs.next hvalid ha) hstart
  refine ⟨fun b x => (hinv b).admitted x, fun henabled hclosed a t ha hadmitted b hb => ?_⟩
  cases ha
  have hfails : a.fails = false := by
    cases hf : a.fails with
    | false => rfl
    | true => simp [consume, henabled, hclosed, hf] at hadmitted
  refine ⟨(hitBucket config s.db a.call.now b).start, ?_⟩
  show (if config.enabled = true ∧ a.fails = false ∧ b ∈ a.call.buckets then
    s.history b ++ [(_, decide ((consume config s.db a.call a.fails).2 = .admitted))] else s.history b) = _
  rw [if_pos ⟨henabled, hfails, hb⟩, decide_eq_true hadmitted]

/-- Two strangers share a row: the third call is one too many, and so is a late one that counts in the next window. -/
theorem window_limit_reached :
    ∃ s : State, s.history ⟨.principal, 7⟩ = [(0, true), (0, true), (0, false), (60000000, true), (60000000, true),
        (60000000, false)] ∧
      (Window.admitted (s.history ⟨.principal, 7⟩) 0 : ℤ) ≤ 2 := by
  have h : Run (fun s a t => next ⟨true, 60, 1, 1, 2, 1, 1, true⟩ s a = some t) start
      [⟨⟨0, [⟨.principal, 7⟩]⟩, false⟩, ⟨⟨1, [⟨.principal, 7⟩]⟩, false⟩, ⟨⟨2, [⟨.principal, 7⟩]⟩, false⟩,
        ⟨⟨60000001, [⟨.principal, 7⟩]⟩, false⟩, ⟨⟨5, [⟨.principal, 7⟩]⟩, false⟩, ⟨⟨6, [⟨.principal, 7⟩]⟩, false⟩] _ :=
    Run.of_exec rfl
  exact ⟨_, by decide, (window_limit (by decide) h).1 ⟨.principal, 7⟩ 0⟩

/-! ### Statements in the order of their times -/

/-- The rows after some calls. -/
def after (config : ApiRateLimitConfig) (db : Db) (calls : List Call) : Db :=
  calls.foldl (fun db call => call.apply config db) db

/-- What every row is like while the statements run in the order of their times. -/
def Timely (config : ApiRateLimitConfig) (now : ℤ) (db : Db) : Prop :=
  ∀ b w, db b = some w → w.start ≤ windowStart config now ∧ 0 ≤ w.count ∧ w.count ≤ maximumStoredCount

variable {now now' : ℤ} {calls : List Call}

theorem windowStart_mono (hvalid : config.valid = true) (h : now ≤ now') :
    windowStart config now ≤ windowStart config now' := by
  have hpos := ApiRateLimitConfig.valid.windowSeconds hvalid
  unfold windowStart
  exact mul_le_mul_of_nonneg_right (Int.ediv_le_ediv (by omega) h) (by omega)

theorem Timely.mono (hvalid : config.valid = true) (h : Timely config now db) (hle : now ≤ now') :
    Timely config now' db := fun b w hw =>
  ⟨(h b w hw).1.trans (windowStart_mono hvalid hle), (h b w hw).2⟩

/-- A hit that is in time starts its window. -/
theorem Timely.hit (h : Timely config call.now db) (b : AdmissionBucket) :
    (hitBucket config db call.now b).start = windowStart config call.now ∧ 1 ≤ (hitBucket config db call.now b).count ∧
      (hitBucket config db call.now b).count ≤ maximumStoredCount := by
  have hone : 1 ≤ maximumStoredCount := by decide
  unfold hitBucket Window.hit
  cases hb : db b with
  | none => exact ⟨rfl, le_rfl, hone⟩
  | some w =>
    obtain ⟨hstart, hcount, hcap⟩ := h b w hb
    dsimp only
    split_ifs with hlt
    · exact ⟨rfl, le_rfl, hone⟩
    · refine ⟨by dsimp only; omega, ?_, min_le_right _ _⟩
      unfold maximumStoredCount at hcap ⊢
      dsimp only
      omega

theorem Timely.apply (h : Timely config call.now db) : Timely config call.now (call.apply config db) := by
  intro b w hw
  unfold Call.apply at hw
  split_ifs at hw
  · cases hw
    obtain ⟨hstart, hcount, hcap⟩ := h.hit b
    exact ⟨hstart.le, by omega, hcap⟩
  · exact h b w hw

/-- Calls that are left out leave every row with fewer hits. -/
theorem after_below (hvalid : config.valid = true) {calls' : List Call} (hsub : calls'.Sublist calls)
    (hsorted : calls.Pairwise fun c d => c.now ≤ d.now) {db db' : Db} (hbelow : ∀ b, Window.Below (db' b) (db b))
    (htimely : ∀ c ∈ calls, Timely config c.now db) :
    ∀ b, Window.Below (after config db' calls' b) (after config db calls b) := by
  induction hsub generalizing db db' with
  | slnil => exact hbelow
  | @cons calls' calls call _ ih =>
    have hcall := htimely call List.mem_cons_self
    refine ih (List.pairwise_cons.mp hsorted).2 (fun b => ?_) fun c hc =>
      hcall.apply.mono hvalid ((List.pairwise_cons.mp hsorted).1 c hc)
    show Window.Below (db' b) (if b ∈ call.buckets then some (hitBucket config db call.now b) else db b)
    split_ifs
    · exact (hbelow b).skip fun w hw => (hcall b w hw).2.2
    · exact hbelow b
  | @cons_cons calls' calls call _ ih =>
    have hcall := htimely call List.mem_cons_self
    refine ih (List.pairwise_cons.mp hsorted).2 (fun b => ?_) fun c hc =>
      hcall.apply.mono hvalid ((List.pairwise_cons.mp hsorted).1 c hc)
    show Window.Below (if b ∈ call.buckets then some (hitBucket config db' call.now b) else db' b)
      (if b ∈ call.buckets then some (hitBucket config db call.now b) else db b)
    split_ifs
    · exact (hbelow b).hit (by decide) (fun w hw => (hcall b w hw).1) fun w hw => (hcall b w hw).2.1
    · exact hbelow b

theorem after_timely (hvalid : config.valid = true) (hsorted : (calls.map Call.now ++ [now]).Pairwise (· ≤ ·)) {db : Db}
    (htimely : ∀ t ∈ calls.map Call.now ++ [now], Timely config t db) : Timely config now (after config db calls) := by
  induction calls generalizing db with
  | nil => exact htimely now List.mem_cons_self
  | cons call calls ih =>
    obtain ⟨hfirst, hrest⟩ := List.pairwise_cons.mp hsorted
    have hcall := htimely call.now List.mem_cons_self
    exact ih hrest fun t ht => hcall.apply.mono hvalid (hfirst t ht)

/-- No row has been counted in yet. -/
theorem timely_empty (config : ApiRateLimitConfig) (now : ℤ) : Timely config now fun _ => none := fun _ _ h => nomatch h

/-- **Other calls never help.**  Where the statements run in the order of their times, a call that is admitted after some
calls is admitted after any of them that are left out: those of strangers in the same rows can only take from it. -/
theorem fewer_calls_admit (hvalid : config.valid = true) {calls calls' : List Call} (hsub : calls'.Sublist calls)
    (hsorted : (calls.map Call.now ++ [call.now]).Pairwise (· ≤ ·))
    (h : call.allowed config (after config (fun _ => none) calls) = true) :
    call.allowed config (after config (fun _ => none) calls') = true := by
  have hcalls : calls.Pairwise fun c d => c.now ≤ d.now := List.pairwise_map.mp (List.pairwise_append.mp hsorted).1
  have hbelow := after_below hvalid hsub hcalls (fun b => Window.Below.refl none) fun c _ => timely_empty config c.now
  have htimely := after_timely hvalid hsorted fun t _ => timely_empty config t
  obtain ⟨hne, hall⟩ := Bool.and_eq_true_iff.mp h
  refine Bool.and_eq_true_iff.mpr ⟨hne, List.all_eq_true.mpr fun b hb => ?_⟩
  have hcount := of_decide_eq_true (List.all_eq_true.mp hall b hb)
  have hhit : Window.Below (some (hitBucket config (after config (fun _ => none) calls') call.now b))
      (some (hitBucket config (after config (fun _ => none) calls) call.now b)) :=
    (hbelow b).hit (by decide) (fun w hw => (htimely b w hw).1) fun w hw => (htimely b w hw).2.1
  have hsorted' : (calls'.map Call.now ++ [call.now]).Pairwise (· ≤ ·) :=
    hsorted.sublist ((hsub.map Call.now).append (List.Sublist.refl _))
  have htimely' := after_timely hvalid hsorted' fun t _ => timely_empty config t
  obtain hlt | ⟨-, hle⟩ := hhit
  · rw [(htimely'.hit b).1, (htimely.hit b).1] at hlt
    exact absurd hlt (lt_irrefl _)
  · exact decide_eq_true (hle.trans hcount)

/-- The third call of a stranger keeps the last one out of the row. -/
theorem fewer_calls_admit_shared :
    Call.allowed ⟨true, 60, 1, 1, 2, 1, 1, true⟩
      (after ⟨true, 60, 1, 1, 2, 1, 1, true⟩ (fun _ => none) [⟨3, [⟨.principal, 7⟩]⟩]) ⟨4, [⟨.principal, 7⟩]⟩ = true :=
  fewer_calls_admit (by decide)
    (show List.Sublist _ [⟨1, [⟨.principal, 8⟩]⟩, ⟨3, [⟨.principal, 7⟩]⟩] from List.sublist_cons_self _ _) (by decide)
    (by decide)

/-! ### The hint to retry -/

theorem le_foldl_max (l : List ℤ) (m : ℤ) : m ≤ l.foldl max m ∧ ∀ x ∈ l, x ≤ l.foldl max m := by
  induction l generalizing m with
  | nil => exact ⟨le_rfl, fun x hx => by cases hx⟩
  | cons y l ih =>
    obtain ⟨hm, hl⟩ := ih (max m y)
    refine ⟨(le_max_left m y).trans hm, fun x hx => ?_⟩
    obtain rfl | hx := List.mem_cons.mp hx
    · exact (le_max_right m x).trans hm
    · exact hl x hx

/-- After the seconds that are left the window of a row is over. -/
theorem secondsLeft_spec (config : ApiRateLimitConfig) (now : ℤ) (w : Window) :
    w.start + config.windowSeconds * 1000000 ≤ now + secondsLeft config now w * 1000000 := by
  unfold secondsLeft
  have hdiv := Int.ediv_mul_le (now - (w.start + config.windowSeconds * 1000000)) (by decide : (1000000 : ℤ) ≠ 0)
  rcases max_choice 1 (-((now - (w.start + config.windowSeconds * 1000000)) / 1000000)) with h | h
  · have hle := le_max_right 1 (-((now - (w.start + config.windowSeconds * 1000000)) / 1000000))
    omega
  · rw [h]
    omega

theorem windowStart_le (hvalid : config.valid = true) (now : ℤ) : windowStart config now ≤ now := by
  have hpos := ApiRateLimitConfig.valid.windowSeconds hvalid
  exact Int.ediv_mul_le now (by omega)

/-- A time at which a window is over is in a later one. -/
theorem windowStart_lt (hvalid : config.valid = true)
    (h : windowStart config now + config.windowSeconds * 1000000 ≤ now') :
    windowStart config now < windowStart config now' := by
  have hpos := ApiRateLimitConfig.valid.windowSeconds hvalid
  have hlt : now' < windowStart config now' + config.windowSeconds * 1000000 :=
    Int.lt_ediv_add_one_mul_self now' (by omega : (0 : ℤ) < config.windowSeconds * 1000000) |>.trans_eq (by
      unfold windowStart
      ring)
  omega

/-- The hint of a call that is refused is that of a row in the current window. -/
theorem retryAfterSeconds_spec (hvalid : config.valid = true) (htimely : Timely config call.now db)
    (hrefused : call.allowed config db = false) (hne : call.buckets ≠ []) :
    windowStart config call.now + config.windowSeconds * 1000000 ≤
      call.now + call.retryAfterSeconds config db * 1000000 := by
  have hpos := ApiRateLimitConfig.valid.windowSeconds hvalid
  obtain ⟨b, hb, hover⟩ : ∃ b ∈ call.buckets, config.limit b.scope < (hitBucket config db call.now b).count := by
    by_contra hnone
    push Not at hnone
    have hallowed : call.allowed config db = true :=
      Bool.and_eq_true_iff.mpr ⟨decide_eq_true hne, List.all_eq_true.mpr fun b hb => decide_eq_true (hnone b hb)⟩
    rw [hrefused] at hallowed
    cases hallowed
  have hstart := (htimely.hit b).1
  have hspec := secondsLeft_spec config call.now (hitBucket config db call.now b)
  rw [hstart] at hspec
  -- the row is in the current window, so that its rest is no longer than a window
  have hshort : secondsLeft config call.now (hitBucket config db call.now b) ≤ config.windowSeconds := by
    have hle := windowStart_le hvalid call.now
    have hvalid' : 10 ≤ config.windowSeconds := by
      simp only [ApiRateLimitConfig.valid, Bool.and_eq_true, decide_eq_true_eq] at hvalid
      exact hvalid.1.1
    have hdiv : -config.windowSeconds ≤ (call.now - (windowStart config call.now + config.windowSeconds * 1000000)) /
        1000000 := Int.le_ediv_of_mul_le (by decide) (by omega)
    unfold secondsLeft
    rw [hstart]
    omega
  have hmem : secondsLeft config call.now (hitBucket config db call.now b) ≤ call.retryAfterSeconds config db := by
    unfold Call.retryAfterSeconds
    refine le_min ?_ hshort
    refine (le_foldl_max _ 1).2 _ (List.mem_map.mpr ⟨(b, hitBucket config db call.now b), ?_, rfl⟩)
    exact List.mem_filter.mpr ⟨List.mem_map.mpr ⟨b, hb, rfl⟩, decide_eq_true hover⟩
  omega

theorem after_of_disjoint {b : AdmissionBucket} (h : ∀ c ∈ calls, b ∉ c.buckets) {db : Db} :
    after config db calls b = db b := by
  induction calls generalizing db with
  | nil => rfl
  | cons call calls ih =>
    have hrest : after config (call.apply config db) calls b = call.apply config db b :=
      ih fun c hc => h c (List.mem_cons_of_mem _ hc)
    exact hrest.trans (if_neg (h call List.mem_cons_self))

/-- **The hint suffices.**  Where the statements run in the order of their times, a call that is refused is admitted when
it comes again after the seconds that it was told, if no other call has been counted in its buckets since. -/
theorem retry_after_suffices (hvalid : config.valid = true) {calls between : List Call} {again : Call}
    (hsorted : (calls.map Call.now ++ [call.now]).Pairwise (· ≤ ·)) (hne : call.buckets ≠ [])
    (hrefused : call.allowed config (after config (fun _ => none) calls) = false)
    (hbetween : ∀ c ∈ between, ∀ b ∈ call.buckets, b ∉ c.buckets) (hsame : again.buckets = call.buckets)
    (hwait : call.now + call.retryAfterSeconds config (after config (fun _ => none) calls) * 1000000 ≤ again.now) :
    again.allowed config (after config (fun _ => none) (calls ++ call :: between)) = true := by
  have htimely := after_timely hvalid hsorted fun t _ => timely_empty config t
  have hover := windowStart_lt hvalid ((retryAfterSeconds_spec hvalid htimely hrefused hne).trans hwait)
  refine Bool.and_eq_true_iff.mpr ⟨decide_eq_true (by rwa [hsame]), List.all_eq_true.mpr fun b hb => ?_⟩
  rw [hsame] at hb
  have hrow : after config (fun _ => none) (calls ++ call :: between) b =
      some (hitBucket config (after config (fun _ => none) calls) call.now b) := by
    rw [after, List.foldl_append]
    show after config (call.apply config (after config (fun _ => none) calls)) between b = _
    rw [after_of_disjoint fun c hc => hbetween c hc b hb]
    exact if_pos hb
  have hlimit := (ApiRateLimitConfig.valid.limit hvalid b.scope).1
  refine decide_eq_true ?_
  rw [hitBucket, hrow, Window.hit, (htimely.hit b).1, if_pos hover]
  exact hlimit

theorem retry_after_suffices_next :
    Call.allowed ⟨true, 60, 1, 1, 1, 1, 1, true⟩ (after ⟨true, 60, 1, 1, 1, 1, 1, true⟩ (fun _ => none)
      ([⟨3000000, [⟨.principal, 7⟩]⟩] ++ ⟨4000000, [⟨.principal, 7⟩]⟩ :: [])) ⟨60000000, [⟨.principal, 7⟩]⟩ = true :=
  retry_after_suffices (by decide) (by decide) (by decide) (by decide) (by decide) rfl (by decide)

end Nehemiah.ApiAdmission
