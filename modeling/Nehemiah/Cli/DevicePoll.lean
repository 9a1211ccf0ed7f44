import Mathlib

/-!
# Polling for a device token

`pollDeviceToken` of the CLI with `exchangeDeviceCode`, `failure` and `parseToken`.  A round is what the world
does in one pass of the loop: how much longer than asked the sleep takes, how long the request takes and what
comes back.  Seconds and milliseconds are rationals, as `Retry-After` may be any number; `numeral` is
`Number` on strings, `none` where the result is not finite, and nothing below depends on what it is.

`poll_keeps_pace` says when the loop waits as the server asks and sends nothing after the expiry, that it ends, and which
scopes a token has; `bodyInterval_overlooked` has an interval that it overlooks and a sleep that overruns.  The cap on the
size of a body, and the rounding of the numbers, are outside the model.
-/

namespace Nehemiah.DevicePoll

/-! ### Values -/

/-- A field of the parsed body; arrays and objects are here by their string conversion. -/
inductive Json
  | undefined
  | null
  | bool (b : Bool)
  | num (q : ℚ)
  | str (s : String)
  | other (text : String)
deriving DecidableEq

/-- The value is a string and not empty. -/
def Json.string : Json → Option String
  | .str s => if s.isEmpty then none else some s
  | _ => none

def Json.positiveInteger : Json → Option ℕ
  | .num q => if q.den = 1 ∧ 0 < q ∧ q ≤ 2 ^ 53 - 1 then some q.num.toNat else none
  | _ => none

/-- The fields of the body that the client reads; `scopes` is `none` unless it is an array. -/
structure Body where
  error : Json
  title : Json
  interval : Json
  tokenType : Json
  accessToken : Json
  expiresIn : Json
  refreshToken : Json
  refreshExpiresIn : Json
  organizationId : Json
  projectId : Json
  scopes : Option (List Json)
deriving DecidableEq

structure Response where
  status : ℕ
  retryAfter : Option String
  value : Body
deriving DecidableEq

def Response.ok (r : Response) : Bool := 200 ≤ r.status && r.status ≤ 299

/-! ### Tokens -/

def hex (c : Char) : Bool := c.isDigit || ('a' ≤ c.toLower && c.toLower ≤ 'f')

def wordChar (c : Char) : Bool := c.isAlphanum || c == '_' || c == '-'

/-- A pattern of fixed length, one class of characters for each place. -/
def matchesAll (pattern : List (Char → Bool)) (text : String) : Bool :=
  text.toList.length == pattern.length && (pattern.zip text.toList).all fun p => p.1 p.2

def literal (text : String) : List (Char → Bool) := text.toList.map fun c c' => c'.toLower == c

def uuidPattern : List (Char → Bool) :=
  List.replicate 8 hex ++ literal "-" ++ List.replicate 4 hex ++ literal "-"
    ++ (fun c => '1' ≤ c && c ≤ '5') :: List.replicate 3 hex ++ literal "-"
    ++ (fun c => ['8', '9', 'a', 'b'].contains c.toLower) :: List.replicate 3 hex ++ literal "-"
    ++ List.replicate 12 hex

def opaquePattern (kind : String) : List (Char → Bool) :=
  literal "bc_" ++ literal kind ++ literal "_" ++ uuidPattern ++ literal "_" ++ List.replicate 43 wordChar

def supportedScopes : List String :=
  ["machines:read", "machines:write", "templates:read", "templates:write", "volumes:read", "volumes:write",
    "billing:read"]

structure DeviceToken where
  accessToken : String
  expiresIn : ℕ
  refreshToken : String
  refreshExpiresIn : ℕ
  organizationId : String
  projectId : String
  scopes : List String
deriving DecidableEq

/-- The strings among the elements of an array. -/
def stringScopes (scopes : Option (List Json)) : List String :=
  (scopes.getD []).filterMap fun
    | .str s => some s
    | _ => none

def parseToken (value : Body) : Option DeviceToken := do
  let accessToken ← value.accessToken.string
  let expiresIn ← value.expiresIn.positiveInteger
  let refreshToken ← value.refreshToken.string
  let refreshExpiresIn ← value.refreshExpiresIn.positiveInteger
  let organizationId ← value.organizationId.string
  let projectId ← value.projectId.string
  let scopes := stringScopes value.scopes
  if value.tokenType = .str "Bearer" ∧ matchesAll (opaquePattern "access") accessToken
      ∧ matchesAll (opaquePattern "refresh") refreshToken ∧ expiresIn ≤ 900 ∧ refreshExpiresIn ≤ 2592000
      ∧ matchesAll uuidPattern organizationId ∧ matchesAll uuidPattern projectId
      ∧ scopes ≠ [] ∧ scopes.length ≤ supportedScopes.length ∧ scopes.Nodup
      ∧ ∀ scope ∈ scopes, scope ∈ supportedScopes then
    some ⟨accessToken, expiresIn, refreshToken, refreshExpiresIn, organizationId, projectId, scopes⟩
  else none

/-! ### Failures -/

section

variable (numeral : String → Option ℚ)

/-- `Number` of a field of the body, `none` unless the result is finite. -/
def Json.number : Json → Option ℚ
  | .undefined => none
  | .null => some 0
  | .bool b => some (if b then 1 else 0)
  | .num q => some q
  | .str s => numeral s
  | .other text => numeral text

/-- `Number(response.headers.get('retry-after'))`: the header that is absent is `null`, and a number. -/
def Response.retryHeader (r : Response) : Option ℚ :=
  Json.number numeral (match r.retryAfter with
    | none => .null
    | some text => .str text)

def Response.retryAfterSeconds (r : Response) : Option ℚ :=
  (r.retryHeader numeral).orElse fun _ => r.value.interval.number numeral

def Response.code (r : Response) : String :=
  (r.value.error.string.orElse fun _ => r.value.title.string).getD "device_auth_failed"

/-! ### The loop -/

/-- The authorization that `requestDeviceCode` has accepted. -/
structure DeviceCode where
  expiresIn : ℕ
  interval : ℕ
  scopes : List String
  fresh : 0 < expiresIn ∧ expiresIn ≤ 600
  slow : 5 ≤ interval ∧ interval ≤ 60

inductive Answer
  /-- `post` threw before it fetched: the endpoint or the timeout was not valid. -/
  | unsent (code : String)
  | received (response : Response)
  /-- The request timed out or failed, or its body was too large, not JSON or not an object. -/
  | broken (code : String)
deriving DecidableEq

/-- What the world does in one pass of the loop; times are milliseconds. -/
structure Round where
  oversleep : ℚ
  took : ℚ
  answer : Answer
  later : 0 ≤ oversleep ∧ 0 ≤ took

structure Polling where
  now : ℚ
  intervalSeconds : ℚ

inductive Outcome
  | token (token : DeviceToken)
  | failed (code : String)
deriving DecidableEq

/-- A request that went out: how long the loop slept before it, when it was sent, and the answer. -/
structure Request where
  waited : ℚ
  sentAt : ℚ
  answer : Answer
deriving DecidableEq

def Polling.expired (s : Polling) (deadline : ℚ) : Prop := deadline < s.now + s.intervalSeconds * 1000

instance (s : Polling) (deadline : ℚ) : Decidable (s.expired deadline) :=
  inferInstanceAs (Decidable (deadline < s.now + s.intervalSeconds * 1000))

/-- The clock after the sleep. -/
def Polling.woken (s : Polling) (r : Round) : ℚ := s.now + s.intervalSeconds * 1000 + r.oversleep

/-- The interval after a failure: the loop goes on with it, or ends. -/
def nextInterval (intervalSeconds : ℚ) (response : Response) : Option ℚ :=
  if response.code = "authorization_pending" then
    some (max intervalSeconds ((response.retryAfterSeconds numeral).getD intervalSeconds))
  else if response.code = "slow_down" then
    some (max (intervalSeconds + 5) ((response.retryAfterSeconds numeral).getD 0))
  else none

/-- What the pass makes of the answer: an outcome, or the interval to go on with. -/
def conclude (requested : List String) (intervalSeconds : ℚ) : Answer → Outcome ⊕ ℚ
  | .unsent code | .broken code => .inl (.failed code)
  | .received response =>
    if response.ok then
      match parseToken response.value with
      | none => .inl (.failed "invalid_response")
      | some token =>
        if token.scopes.any fun scope => !requested.contains scope then .inl (.failed "invalid_response")
        else .inl (.token token)
    else
      match nextInterval numeral intervalSeconds response with
      | some interval => .inr interval
      | none => .inl (.failed response.code)

def Answer.sent : Answer → Bool
  | .unsent _ => false
  | _ => true

/-- The requests of the pass. -/
def Polling.requests (s : Polling) (r : Round) : List Request :=
  if r.answer.sent then [⟨s.intervalSeconds, s.woken r, r.answer⟩] else []

/-- The requests sent over the given rounds, and how the loop ended, `none` while it still goes on. -/
def poll (requested : List String) (deadline : ℚ) (s : Polling) : List Round → List Request × Option Outcome
  | [] => if s.expired deadline then ([], some (.failed "expired_token")) else ([], none)
  | r :: rest =>
    if s.expired deadline then ([], some (.failed "expired_token"))
    else
      match conclude numeral requested s.intervalSeconds r.answer with
      | .inl outcome => (s.requests r, some outcome)
      | .inr interval =>
        let later := poll requested deadline ⟨s.woken r + r.took, interval⟩ rest
        (s.requests r ++ later.1, later.2)

def DeviceCode.deadline (code : DeviceCode) (now : ℚ) : ℚ := now + code.expiresIn * 1000

def pollDeviceToken (code : DeviceCode) (now : ℚ) (rounds : List Round) : List Request × Option Outcome :=
  poll numeral code.scopes (code.deadline now) ⟨now, code.interval⟩ rounds

/-! ### The pace that the server asks for -/

/-- The interval that a response states: in the header, or where there is none in the body. -/
def Response.stated (r : Response) : Option ℚ :=
  match r.retryAfter with
  | none => r.value.interval.number numeral
  | some text => (numeral text).orElse fun _ => r.value.interval.number numeral

/-- The least wait after a request, when `floor` was the least wait before it. -/
def demanded (floor : ℚ) (q : Request) : ℚ :=
  match q.answer with
  | .received response =>
    let floor := max floor ((response.stated numeral).getD floor)
    if response.code = "slow_down" then max floor (q.waited + 5) else floor
  | _ => floor

/-- Each wait is at least what the server has asked for until then. -/
def Paced (floor : ℚ) : List Request → Prop
  | [] => True
  | q :: later => floor ≤ q.waited ∧ Paced (demanded numeral floor q) later

def InTime (deadline : ℚ) (requests : List Request) : Prop := ∀ q ∈ requests, q.sentAt ≤ deadline

/-- The interval after a failure whose header says nothing. -/
def Response.least (r : Response) (intervalSeconds : ℚ) : ℚ :=
  if r.code = "slow_down" then intervalSeconds + 5 else intervalSeconds

/-- The failure says pending or slow down without a `Retry-After`, and its body states more than the interval of the
loop, which a slow down makes five seconds longer. -/
def Response.overlooked (r : Response) (intervalSeconds : ℚ) : Prop :=
  r.ok = false ∧ r.retryAfter = none ∧ (r.code = "authorization_pending" ∨ r.code = "slow_down") ∧
    ∃ stated, r.value.interval.number numeral = some stated ∧ r.least intervalSeconds < stated

/-- The loop sends another request. -/
def Polling.goesOn (s : Polling) (deadline : ℚ) : List Round → Prop
  | [] => False
  | r :: _ => ¬ s.expired deadline ∧ r.answer.sent = true

/-- No sleep before a request ends after the expiry of the code, and no response before a request is overlooked. -/
def Heeded (requested : List String) (deadline : ℚ) (s : Polling) : List Round → Prop
  | [] => True
  | r :: rest =>
    ¬ s.expired deadline → (r.answer.sent = true → s.woken r ≤ deadline) ∧
      (∀ response, r.answer = .received response → response.overlooked numeral s.intervalSeconds →
        ¬ (Polling.mk (s.woken r + r.took) (response.least s.intervalSeconds)).goesOn deadline rest) ∧
      ∀ interval, conclude numeral requested s.intervalSeconds r.answer = .inr interval →
        Heeded requested deadline ⟨s.woken r + r.took, interval⟩ rest

/-! ### The interval -/

variable {numeral} {intervalSeconds interval : ℚ} {response : Response}

/-- The loop goes on after a failure that says pending or slow down, and never faster than before. -/
theorem conclude_inr {requested : List String} {answer : Answer}
    (h : conclude numeral requested intervalSeconds answer = .inr interval) :
    ∃ response, answer = .received response ∧ response.ok = false ∧
      nextInterval numeral intervalSeconds response = some interval := by
  cases answer with
  | unsent code => cases h
  | broken code => cases h
  | received response =>
    simp only [conclude] at h
    split at h
    · split at h
      · cases h
      · split at h <;> cases h
    · rename_i hok
      split at h
      · rename_i next hnext
        cases h
        exact ⟨response, rfl, Bool.not_eq_true _ ▸ hok, hnext⟩
      · cases h

/-- The header that is absent is read as zero. -/
theorem nextInterval_least (hslow : 0 ≤ intervalSeconds) (hheader : response.retryAfter = none)
    (hcode : response.code = "authorization_pending" ∨ response.code = "slow_down") :
    nextInterval numeral intervalSeconds response = some (response.least intervalSeconds) := by
  have hread : response.retryAfterSeconds numeral = some 0 := by
    simp only [Response.retryAfterSeconds, Response.retryHeader, hheader, Json.number]
    rfl
  unfold nextInterval Response.least
  rw [hread, Option.getD_some, Option.getD_some]
  rcases hcode with hcode | hcode
  · rw [if_pos hcode, if_neg (by rw [hcode]; decide), max_eq_left hslow]
  · rw [if_neg (by rw [hcode]; decide), if_pos hcode, if_pos hcode, max_eq_left (by linarith)]

theorem nextInterval_code (h : nextInterval numeral intervalSeconds response = some interval) :
    response.code = "authorization_pending" ∨ response.code = "slow_down" := by
  unfold nextInterval at h
  split at h
  · exact .inl ‹_›
  · split at h
    · exact .inr ‹_›
    · cases h

theorem nextInterval_ge (h : nextInterval numeral intervalSeconds response = some interval) :
    intervalSeconds ≤ interval ∧ (response.code = "slow_down" → intervalSeconds + 5 ≤ interval) := by
  unfold nextInterval at h
  split at h
  · rename_i hcode
    cases h
    exact ⟨le_max_left _ _, fun hslow => absurd (hcode.symm.trans hslow) (by decide)⟩
  · split at h
    · cases h
      have hmax := le_max_left (intervalSeconds + 5) ((response.retryAfterSeconds numeral).getD 0)
      exact ⟨by linarith, fun _ => hmax⟩
    · cases h

/-- What the client has read of a response that it does not overlook is kept. -/
theorem nextInterval_stated {stated : ℚ} (hslow : 0 ≤ intervalSeconds) (hok : response.ok = false)
    (h : nextInterval numeral intervalSeconds response = some interval)
    (hheeded : ¬ response.overlooked numeral intervalSeconds) (hstated : response.stated numeral = some stated) :
    stated ≤ interval := by
  cases hheader : response.retryAfter with
  | none =>
    have hcode := nextInterval_code h
    have hleast : response.least intervalSeconds = interval :=
      Option.some.inj ((nextInterval_least hslow hheader hcode).symm.trans h)
    by_contra hlt
    refine hheeded ⟨hok, hheader, hcode, stated, ?_, hleast ▸ not_le.mp hlt⟩
    simpa only [Response.stated, hheader] using hstated
  | some text =>
    -- with a header the client reads what the server states
    have hread : response.retryAfterSeconds numeral = some stated := by
      simpa only [Response.retryAfterSeconds, Response.retryHeader, Response.stated, Json.number, hheader] using hstated
    unfold nextInterval at h
    rw [hread] at h
    split at h
    · cases h
      exact le_max_right _ _
    · split at h
      · cases h
        exact le_max_right _ _
      · cases h

theorem demanded_le (sentAt : ℚ) {floor : ℚ} (hslow : 0 ≤ intervalSeconds) (hok : response.ok = false)
    (hfloor : floor ≤ intervalSeconds) (h : nextInterval numeral intervalSeconds response = some interval)
    (hheeded : ¬ response.overlooked numeral intervalSeconds) :
    demanded numeral floor ⟨intervalSeconds, sentAt, .received response⟩ ≤ interval := by
  obtain ⟨hkept, hlater⟩ := nextInterval_ge h
  have hstated : max floor ((response.stated numeral).getD floor) ≤ interval := by
    refine max_le (hfloor.trans hkept) ?_
    cases hs : response.stated numeral with
    | none => exact hfloor.trans hkept
    | some stated => exact nextInterval_stated hslow hok h hheeded hs
  simp only [demanded]
  split
  · rename_i hcode
    exact max_le hstated (hlater hcode)
  · exact hstated

/-- An overlooked interval is more than the loop goes on with. -/
theorem demanded_gt (floor sentAt : ℚ) (h : response.overlooked numeral intervalSeconds) :
    response.least intervalSeconds < demanded numeral floor ⟨intervalSeconds, sentAt, .received response⟩ := by
  obtain ⟨-, hheader, -, stated, hnumber, hlt⟩ := h
  have hstated : response.stated numeral = some stated := by simpa only [Response.stated, hheader] using hnumber
  have hmax : response.least intervalSeconds < max floor ((response.stated numeral).getD floor) := by
    rw [hstated]
    exact hlt.trans_le (le_max_right _ _)
  simp only [demanded]
  split
  · exact hmax.trans_le (le_max_left _ _)
  · exact hmax

/-! ### The run -/

section run

variable {requested : List String} {deadline floor : ℚ} {s : Polling} {r : Round} {rest rounds : List Round}

theorem poll_expired (h : s.expired deadline) :
    poll numeral requested deadline s rounds = ([], some (.failed "expired_token")) := by
  cases rounds with
  | nil => exact if_pos h
  | cons r rest => exact if_pos h

theorem poll_last {outcome : Outcome} (h : ¬ s.expired deadline)
    (hend : conclude numeral requested s.intervalSeconds r.answer = .inl outcome) :
    poll numeral requested deadline s (r :: rest) = (s.requests r, some outcome) := by
  simp only [poll, if_neg h, hend]

theorem poll_more {interval : ℚ} (h : ¬ s.expired deadline)
    (hmore : conclude numeral requested s.intervalSeconds r.answer = .inr interval) :
    poll numeral requested deadline s (r :: rest) =
      (s.requests r ++ (poll numeral requested deadline ⟨s.woken r + r.took, interval⟩ rest).1,
        (poll numeral requested deadline ⟨s.woken r + r.took, interval⟩ rest).2) := by
  simp only [poll, if_neg h, hmore]

/-- The first wait after a response is the interval that the loop went on with. -/
theorem poll_head (numeral : String → Option ℚ) (requested : List String) (h : s.goesOn deadline rounds) :
    ∃ q later, (poll numeral requested deadline s rounds).1 = q :: later ∧ q.waited = s.intervalSeconds := by
  cases rounds with
  | nil => exact h.elim
  | cons r rest =>
    obtain ⟨hexpired, hsent⟩ := h
    have hrequests : s.requests r = [⟨s.intervalSeconds, s.woken r, r.answer⟩] := if_pos hsent
    cases hc : conclude numeral requested s.intervalSeconds r.answer with
    | inl outcome =>
      rw [poll_last hexpired hc, hrequests]
      exact ⟨_, _, rfl, rfl⟩
    | inr interval =>
      rw [poll_more hexpired hc, hrequests]
      exact ⟨_, _, rfl, rfl⟩

theorem poll_silent (numeral : String → Option ℚ) (requested : List String) (h : ¬ s.goesOn deadline rounds) :
    (poll numeral requested deadline s rounds).1 = [] := by
  by_cases hexpired : s.expired deadline
  · rw [poll_expired hexpired]
  cases rounds with
  | nil => simp only [poll, if_neg hexpired]
  | cons r rest =>
    have hsent : ¬ r.answer.sent = true := fun hsent => h ⟨hexpired, hsent⟩
    cases hc : conclude numeral requested s.intervalSeconds r.answer with
    | inl outcome =>
      rw [poll_last hexpired hc]
      exact if_neg hsent
    | inr interval =>
      obtain ⟨response, hanswer, -, -⟩ := conclude_inr hc
      exact absurd (by rw [hanswer]; rfl) hsent

/-- What stays out of reach of the server does not matter. -/
theorem heeded_silent (h : ¬ s.goesOn deadline rounds) : Heeded numeral requested deadline s rounds := by
  cases rounds with
  | nil => trivial
  | cons r rest =>
    intro hexpired
    have hsent : ¬ r.answer.sent = true := fun hsent => h ⟨hexpired, hsent⟩
    have hunsent : ∀ response, r.answer ≠ .received response := fun _ hanswer => hsent (by rw [hanswer]; rfl)
    refine ⟨fun hs => absurd hs hsent, fun response hanswer => absurd hanswer (hunsent response), fun interval hc => ?_⟩
    obtain ⟨response, hanswer, -, -⟩ := conclude_inr hc
    exact absurd hanswer (hunsent response)

/-- Over any rounds the loop keeps the pace and the time exactly when nothing is overlooked. -/
theorem paced_iff (hslow : 0 ≤ s.intervalSeconds) (hfloor : floor ≤ s.intervalSeconds) :
    (Paced numeral floor (poll numeral requested deadline s rounds).1 ∧
        InTime deadline (poll numeral requested deadline s rounds).1) ↔
      Heeded numeral requested deadline s rounds := by
  induction rounds generalizing s floor with
  | nil =>
    have hsilent : ¬ s.goesOn deadline [] := id
    rw [poll_silent numeral requested hsilent]
    exact ⟨fun _ => trivial, fun _ => ⟨trivial, fun q hq => by cases hq⟩⟩
  | cons r rest ih =>
    by_cases hgo : s.goesOn deadline (r :: rest)
    swap
    · rw [poll_silent numeral requested hgo]
      exact ⟨fun _ => heeded_silent hgo, fun _ => ⟨trivial, fun q hq => by cases hq⟩⟩
    obtain ⟨hexpired, hsent⟩ := hgo
    have hrequests : s.requests r = [⟨s.intervalSeconds, s.woken r, r.answer⟩] := if_pos hsent
    cases hc : conclude numeral requested s.intervalSeconds r.answer with
    | inl outcome =>
      rw [poll_last hexpired hc, hrequests]
      constructor
      · rintro ⟨-, htime⟩ -
        refine ⟨fun _ => htime _ List.mem_cons_self, fun response hanswer hover => ?_, fun interval hinr => ?_⟩
        · have hnext : nextInterval numeral s.intervalSeconds response = _ :=
            nextInterval_least hslow hover.2.1 hover.2.2.1
          simp only [conclude, hanswer, hover.1, Bool.false_eq_true, if_false, hnext] at hc
          cases hc
        · rw [hc] at hinr
          cases hinr
      · intro hheeded
        refine ⟨⟨hfloor, trivial⟩, ?_⟩
        intro q hq
        rcases List.mem_singleton.mp hq with rfl
        exact (hheeded hexpired).1 hsent
    | inr interval =>
      obtain ⟨response, hanswer, hok, hnext⟩ := conclude_inr hc
      have hlater : 0 ≤ interval := hslow.trans (nextInterval_ge hnext).1
      have hleast : response.overlooked numeral s.intervalSeconds → response.least s.intervalSeconds = interval :=
        fun hover => Option.some.inj ((nextInterval_least hslow hover.2.1 hover.2.2.1).symm.trans hnext)
      have hreceived : ∀ {response'}, r.answer = .received response' → response' = response :=
        fun h => Answer.received.inj (h.symm.trans hanswer)
      rw [poll_more hexpired hc, hrequests, List.singleton_append]
      constructor
      · rintro ⟨hpaced, htime⟩ -
        have hnot : response.overlooked numeral s.intervalSeconds →
            ¬ (Polling.mk (s.woken r + r.took) (response.least s.intervalSeconds)).goesOn deadline rest := by
          intro hover hgo
          rw [hleast hover] at hgo
          obtain ⟨q, later, hpolled, hwaited⟩ := poll_head numeral requested hgo
          have hlow := hpaced.2
          rw [hpolled, hanswer] at hlow
          have hgt := demanded_gt floor (s.woken r) hover
          rw [hleast hover] at hgt
          have hle := hlow.1
          rw [hwaited] at hle
          exact absurd hle (not_le.mpr hgt)
        refine ⟨fun _ => htime _ List.mem_cons_self, fun response' hanswer' => hreceived hanswer' ▸ hnot, ?_⟩
        intro interval' hinr
        obtain rfl : interval = interval' := by
          rw [hc] at hinr
          exact Sum.inr.inj hinr
        by_cases hgo : (Polling.mk (s.woken r + r.took) interval).goesOn deadline rest
        · have hheeded : ¬ response.overlooked numeral s.intervalSeconds :=
            fun hover => hnot hover ((hleast hover).symm ▸ hgo)
          have hdemand := demanded_le (s.woken r) hslow hok hfloor hnext hheeded
          refine (ih (s := ⟨s.woken r + r.took, interval⟩) hlater hdemand).mp
            ⟨?_, fun q hq => htime q (List.mem_cons_of_mem _ hq)⟩
          have hrest := hpaced.2
          rw [hanswer] at hrest
          exact hrest
        · exact heeded_silent hgo
      · intro hheeded
        obtain ⟨htime, hover, hrest⟩ := hheeded hexpired
        by_cases hgo : (Polling.mk (s.woken r + r.took) interval).goesOn deadline rest
        · have hkept : ¬ response.overlooked numeral s.intervalSeconds :=
            fun ho => hover response hanswer ho ((hleast ho).symm ▸ hgo)
          have hdemand := demanded_le (s.woken r) hslow hok hfloor hnext hkept
          obtain ⟨hp, ht⟩ := (ih (s := ⟨s.woken r + r.took, interval⟩) hlater hdemand).mpr (hrest interval hc)
          refine ⟨⟨hfloor, ?_⟩, ?_⟩
          · rw [hanswer]
            exact hp
          · intro q hq
            rcases List.mem_cons.mp hq with rfl | hq
            · exact htime hsent
            · exact ht q hq
        · rw [poll_silent numeral requested hgo]
          refine ⟨⟨hfloor, trivial⟩, ?_⟩
          intro q hq
          rcases List.mem_singleton.mp hq with rfl
          exact htime hsent

/-- While the loop goes on, the code is not expired yet: each round has taken five seconds. -/
theorem poll_going (hs : 5 ≤ s.intervalSeconds) (h : (poll numeral requested deadline s rounds).2 = none) :
    s.now + (rounds.length + 1) * 5000 ≤ deadline := by
  induction rounds generalizing s with
  | nil =>
    by_cases hexpired : s.expired deadline
    · rw [poll_expired hexpired] at h
      cases h
    · have hleft := not_lt.mp hexpired
      simp only [List.length_nil, Nat.cast_zero]
      linarith
  | cons r rest ih =>
    by_cases hexpired : s.expired deadline
    · rw [poll_expired hexpired] at h
      cases h
    cases hc : conclude numeral requested s.intervalSeconds r.answer with
    | inl outcome =>
      rw [poll_last hexpired hc] at h
      cases h
    | inr interval =>
      rw [poll_more hexpired hc] at h
      obtain ⟨response, -, -, hnext⟩ := conclude_inr hc
      have hrest := ih (s := ⟨s.woken r + r.took, interval⟩) (hs.trans (nextInterval_ge hnext).1) h
      have hlater := r.later
      simp only [Polling.woken] at hrest
      simp only [List.length_cons, Nat.cast_add, Nat.cast_one]
      linarith

theorem poll_token {token : DeviceToken} (h : (poll numeral requested deadline s rounds).2 = some (.token token)) :
    ∀ scope ∈ token.scopes, scope ∈ requested := by
  induction rounds generalizing s with
  | nil =>
    simp only [poll] at h
    split at h <;> cases h
  | cons r rest ih =>
    by_cases hexpired : s.expired deadline
    · rw [poll_expired hexpired] at h
      cases h
    cases hc : conclude numeral requested s.intervalSeconds r.answer with
    | inr interval =>
      rw [poll_more hexpired hc] at h
      exact ih h
    | inl outcome =>
      rw [poll_last hexpired hc] at h
      cases h
      cases hanswer : r.answer with
      | unsent code =>
        rw [hanswer] at hc
        cases hc
      | broken code =>
        rw [hanswer] at hc
        cases hc
      | received response =>
        simp only [conclude, hanswer] at hc
        split at hc
        · split at hc
          · cases hc
          · split at hc
            · cases hc
            · rename_i hscopes
              cases hc
              simpa using hscopes
        · split at hc <;> cases hc

end run

/-- **Pace.**  Over every sequence of rounds the loop waits as the server asks and sends nothing after the expiry
exactly when no interval is overlooked and no sleep overruns; it ends within 120 rounds, and a token that it returns
has no scope that was not requested. -/
theorem poll_keeps_pace (numeral : String → Option ℚ) (code : DeviceCode) (now : ℚ) (rounds : List Round) :
    ((Paced numeral code.interval (pollDeviceToken numeral code now rounds).1 ∧
        InTime (code.deadline now) (pollDeviceToken numeral code now rounds).1) ↔
      Heeded numeral code.scopes (code.deadline now) ⟨now, code.interval⟩ rounds) ∧
    (120 ≤ rounds.length → (pollDeviceToken numeral code now rounds).2 ≠ none) ∧
    ∀ token, (pollDeviceToken numeral code now rounds).2 = some (.token token) →
      ∀ scope ∈ token.scopes, scope ∈ code.scopes := by
  have hslow : (5 : ℚ) ≤ code.interval := by exact_mod_cast code.slow.1
  refine ⟨paced_iff (s := ⟨now, code.interval⟩) (le_trans (by norm_num) hslow) le_rfl, ?_, fun token h => poll_token h⟩
  intro hlong hgoing
  have hleft := poll_going (s := ⟨now, code.interval⟩) hslow hgoing
  have hfresh : (code.expiresIn : ℚ) ≤ 600 := by exact_mod_cast code.fresh.2
  have hrounds : (120 : ℚ) ≤ rounds.length := by exact_mod_cast hlong
  simp only [DeviceCode.deadline] at hleft
  linarith

def sampleCode : DeviceCode := ⟨600, 5, ["machines:read"], by decide, by decide⟩

/-- An answer in the form of a problem, with an interval in its body and no header. -/
def pending (interval : ℚ) : Answer :=
  .received ⟨400, none, ⟨.str "authorization_pending", .str "authorization_pending", .num interval, .undefined,
    .undefined, .undefined, .undefined, .undefined, .undefined, .undefined, none⟩⟩

/-- The server asks to slow down, with twelve seconds in its header. -/
def slowDown : Answer :=
  .received ⟨400, some "12", ⟨.str "slow_down", .undefined, .num 10, .undefined, .undefined, .undefined, .undefined,
    .undefined, .undefined, .undefined, none⟩⟩

def grantedToken : DeviceToken where
  accessToken := "bc_access_00000000-0000-4000-8000-000000000001_AAAAAAAAAAAAAAAAAAAAAAAAAAAAAAAAAAAAAAAAAAA"
  expiresIn := 900
  refreshToken := "bc_refresh_00000000-0000-4000-8000-000000000002_BBBBBBBBBBBBBBBBBBBBBBBBBBBBBBBBBBBBBBBBBBB"
  refreshExpiresIn := 2592000
  organizationId := "00000000-0000-4000-8000-00000000000a"
  projectId := "00000000-0000-4000-8000-00000000000b"
  scopes := ["machines:read"]

def granted : Answer :=
  .received ⟨200, none, ⟨.undefined, .undefined, .undefined, .str "Bearer", .str grantedToken.accessToken, .num 900,
    .str grantedToken.refreshToken, .num 2592000, .str grantedToken.organizationId, .str grantedToken.projectId,
    some [.str "machines:read"]⟩⟩

def twelve (text : String) : Option ℚ := if text = "12" then some 12 else none

/-- Three requests, of which the second is told to slow down and the third gets the token. -/
def heededRounds : List Round :=
  [⟨0, 250, pending 5, le_rfl, by norm_num⟩, ⟨100, 0, slowDown, by norm_num, le_rfl⟩, ⟨0, 0, granted, le_rfl, le_rfl⟩]

theorem heededRounds_heeded :
    Heeded twelve sampleCode.scopes (sampleCode.deadline 0) ⟨0, sampleCode.interval⟩ heededRounds := by
  have hpending : conclude twelve sampleCode.scopes 5 (pending 5) = .inr 5 := by decide +kernel
  have hslower : conclude twelve sampleCode.scopes 5 slowDown = .inr 12 := by decide +kernel
  refine fun _ => ⟨fun _ => by norm_num [Polling.woken, DeviceCode.deadline, sampleCode], ?_, fun interval hc => ?_⟩
  · rintro _ ⟨⟩ ⟨-, -, -, stated, hnumber, hlt⟩
    have hleast : (5 : ℚ) < stated := by simpa [Response.least, Response.code, Json.string, sampleCode] using hlt
    rw [← Option.some.inj hnumber] at hleast
    exact absurd hleast (lt_irrefl 5)
  obtain rfl : 5 = interval := Sum.inr.inj (hpending.symm.trans hc)
  refine fun _ => ⟨fun _ => by norm_num [Polling.woken, DeviceCode.deadline, sampleCode], ?_, fun interval hc => ?_⟩
  · rintro _ ⟨⟩ ⟨-, hheader, -⟩
    cases hheader
  obtain rfl : 12 = interval := Sum.inr.inj (hslower.symm.trans hc)
  refine fun _ => ⟨fun _ => by norm_num [Polling.woken, DeviceCode.deadline, sampleCode], ?_, fun _ _ => trivial⟩
  rintro _ ⟨⟩ ⟨hok, -⟩
  cases hok

theorem poll_keeps_pace_heeded :
    (pollDeviceToken twelve sampleCode 0 heededRounds).1.map (fun q => (q.waited, q.sentAt)) =
      [(5, 5000), (5, 10350), (12, 22350)] ∧
    (pollDeviceToken twelve sampleCode 0 heededRounds).2 = some (.token grantedToken) ∧
    Paced twelve sampleCode.interval (pollDeviceToken twelve sampleCode 0 heededRounds).1 ∧
    InTime (sampleCode.deadline 0) (pollDeviceToken twelve sampleCode 0 heededRounds).1 :=
  ⟨by decide +kernel, by decide +kernel, (poll_keeps_pace twelve sampleCode 0 heededRounds).1.mpr heededRounds_heeded⟩

/-- The server asks for 30 seconds in the body, and the client comes back after 5; a sleep that takes ten minutes
longer is followed by a request. -/
theorem bodyInterval_overlooked :
    ¬ Paced (fun _ => none) sampleCode.interval (pollDeviceToken (fun _ => none) sampleCode 0
        [⟨0, 0, pending 30, le_rfl, le_rfl⟩, ⟨0, 0, pending 30, le_rfl, le_rfl⟩]).1 ∧
      ¬ InTime (sampleCode.deadline 0) (pollDeviceToken (fun _ => none) sampleCode 0
        [⟨600000, 0, pending 30, by norm_num, le_rfl⟩]).1 := by
  constructor
  · intro h
    have hpoll : (pollDeviceToken (fun _ => none) sampleCode 0
        [⟨0, 0, pending 30, le_rfl, le_rfl⟩, ⟨0, 0, pending 30, le_rfl, le_rfl⟩]).1 =
        [⟨5, 5000, pending 30⟩, ⟨5, 10000, pending 30⟩] := by decide +kernel
    rw [hpoll] at h
    have hsecond : (30 : ℚ) ≤ 5 := by
      refine le_trans ?_ h.2.1
      exact (le_max_right _ _)
    norm_num at hsecond
  · intro h
    have hpoll : (pollDeviceToken (fun _ => none) sampleCode 0
        [⟨600000, 0, pending 30, by norm_num, le_rfl⟩]).1 = [⟨5, 605000, pending 30⟩] := by decide +kernel
    rw [hpoll] at h
    have hlate := h _ List.mem_cons_self
    norm_num [DeviceCode.deadline, sampleCode] at hlate

end

end Nehemiah.DevicePoll
