import Nehemiah.Lib.Run

/-!
# The readiness cache of the gateway

Readiness requests share one probe of the control plane at a time: the request that finds no answer in the cache and no
probe under way runs one, with its own headers and its own context, and the answer is kept for all others.  The system
has any number of requests, each of which may be cancelled, and a control plane whose state changes as it likes.

* `readiness_answers`: what a request is told while no probe is disturbed, and that none waits for a fetch that is over.
* `cancelledProbe_answers_others`: the answer to a probe whose client went away is that of all others for a second.

An answer is kept from the end of its fetch on, so that the state which it tells may be older by the time of the fetch.
The transport of a probe is outside the model; only its outcome is given.
-/

namespace Nehemiah.DataPlane

open Lib

def readinessCacheTTL : ℤ := 1000000000

def readinessResponseLimit : ℕ := 16 * 1024

/-- `readinessResult`, without its expiry. -/
structure ReadinessResult where
  status : ℕ
  contentType : String
  retryAfter : String
  body : String
deriving DecidableEq

/-! ### One probe -/

structure UpstreamResponse where
  status : ℕ
  contentType : String
  retryAfter : String
  chunks : List String

/-- What comes of asking the control plane: a response, none (in time or not), or one that breaks off in its body. -/
inductive Exchange
  | response (response : UpstreamResponse)
  | unreachable (timeout : Bool)
  | reset

/-- What the request that runs the probe brings: its headers, and the identifier that the gateway gave it. -/
structure Probe (H : Type) where
  headers : H
  id : String
  deriving DecidableEq

structure BoundedReadinessWriter where
  body : String
  overflow : Bool

def BoundedReadinessWriter.write (w : BoundedReadinessWriter) (value : String) : BoundedReadinessWriter :=
  if w.overflow then w
  else if readinessResponseLimit < w.body.utf8ByteSize + value.utf8ByteSize then { w with overflow := true }
  else { w with body := w.body ++ value }

/-- `writeProblem`. -/
def problemResult (status : ℕ) (code detail id : String) : ReadinessResult where
  status := status
  contentType := "application/problem+json; charset=utf-8"
  retryAfter := ""
  body := "\x7b\"type\":\"https://docs.boringcomputers.com/problems/" ++ code ++ "\",\"title\":\"" ++ code ++
    "\",\"status\":" ++ toString status ++ ",\"detail\":\"" ++ detail ++ "\"" ++
    (if id = "" then "" else ",\"request_id\":\"" ++ id ++ "\"") ++ "\x7d\n"

/-- The `ErrorHandler` of the control proxy. -/
def proxyError (deadlineExceeded networkTimeout : Bool) (id : String) : ReadinessResult :=
  if deadlineExceeded then
    problemResult 504 "request_duration_exceeded" "The gateway request duration limit was reached." id
  else if networkTimeout then
    problemResult 408 "request_body_timeout" "The request body was not received before the deadline." id
  else problemResult 502 "control_plane_unavailable" "The control plane is unavailable." id

/-- `gateway.readinessResult` of a response. -/
def recordedResult (response : UpstreamResponse) : ReadinessResult :=
  let recorder := response.chunks.foldl BoundedReadinessWriter.write ⟨"", false⟩
  if recorder.overflow then
    ⟨502, "application/problem+json", "", "\x7b\"title\":\"control_plane_unavailable\",\"status\":502\x7d"⟩
  else ⟨response.status, response.contentType, response.retryAfter, recorder.body⟩

/-- How a probe ends: with the exchange, or with the context of its request, before the response (`interrupted`) or in
its body (`abandoned`). -/
inductive Ending
  | exchanged
  | interrupted (deadlineExceeded : Bool)
  | abandoned
  deriving DecidableEq

section

variable {S H : Type} (answer : S → Probe H → Exchange)

/-- `runReadinessFetch`: `none` is a panic, after which nothing is stored. -/
def runReadinessFetch (plane : S) (probe : Probe H) : Ending → Option ReadinessResult
  | .exchanged =>
    match answer plane probe with
    | .response response => some (recordedResult response)
    | .unreachable timeout => some (proxyError false timeout probe.id)
    | .reset => none
  | .interrupted deadlineExceeded => some (proxyError deadlineExceeded false probe.id)
  | .abandoned => none

end

/-! ### The requests and the cache -/

/-- Where a request is in `get`. -/
inductive Phase
  | trying
  | waiting (inFlight : ℕ)
  | fetching (inFlight : ℕ) (began : ℤ)
  | returned (result : ReadinessResult) (time : ℤ)
  | failed
  deriving DecidableEq

/-- A readiness request; `done` says that its context is. -/
structure Client (H : Type) where
  probe : Probe H
  done : Bool
  phase : Phase
  deriving DecidableEq

/-- The cache with its requests.  `past` and `fetches` record what the control plane was before, and the spans of the
fetches that are over. -/
structure Readiness (S H : Type) where
  now : ℤ
  plane : S
  past : List (ℤ × S)
  result : Option (ReadinessResult × ℤ)
  inFlight : Option ℕ
  opened : ℕ
  closed : List ℕ
  clients : List (Client H)
  fetches : List (ℤ × ℤ)

inductive ReadinessAct (S H : Type)
  | turn (now : ℤ) (plane : S)
  | arrive (probe : Probe H)
  | cancel (r : ℕ)
  | enter (r : ℕ)
  | wake (r : ℕ)
  | giveUp (r : ℕ)
  | finish (r : ℕ) (time : ℤ) (plane : S) (ending : Ending)

namespace Readiness

variable {S H : Type}

def start (now : ℤ) (plane : S) : Readiness S H := ⟨now, plane, [], none, none, 0, [], [], []⟩

/-- What the control plane has been, and when. -/
def states (s : Readiness S H) : List (ℤ × S) := (s.now, s.plane) :: s.past

def put (s : Readiness S H) (r : ℕ) (c : Client H) : Readiness S H := { s with clients := s.clients.set r c }

/-- The result in the cache, unless it has expired. -/
def hit (s : Readiness S H) : Option ReadinessResult :=
  match s.result with
  | some (result, expiresAt) => if s.now < expiresAt then some result else none
  | none => none

/-- The locked part of `get`. -/
def enter (s : Readiness S H) (r : ℕ) (c : Client H) : Readiness S H :=
  match s.hit, s.inFlight with
  | some result, _ => s.put r { c with phase := .returned result s.now }
  | none, some inFlight => s.put r { c with phase := .waiting inFlight }
  | none, none =>
    { s.put r { c with phase := .fetching s.opened s.now } with inFlight := some s.opened, opened := s.opened + 1 }

/-- What `get` does after the fetch. -/
def finish (s : Readiness S H) (r : ℕ) (c : Client H) (inFlight : ℕ) (began : ℤ) :
    Option ReadinessResult → Readiness S H
  | some result =>
    { s.put r { c with phase := .returned result s.now } with
      result := some (result, s.now + readinessCacheTTL)
      inFlight := none
      closed := inFlight :: s.closed
      fetches := (began, s.now) :: s.fetches }
  | none =>
    { s.put r { c with phase := .failed } with
      inFlight := none
      closed := inFlight :: s.closed
      fetches := (began, s.now) :: s.fetches }

variable (answer : S → Probe H → Exchange)

/-- One step.  A fetch may see any state that the control plane has had since it began. -/
def next [DecidableEq S] (s : Readiness S H) : ReadinessAct S H → Option (Readiness S H)
  | .turn now plane =>
    if s.now ≤ now then some { s with now := now, plane := plane, past := s.states } else none
  | .arrive probe => some { s with clients := s.clients ++ [⟨probe, false, .trying⟩] }
  | .cancel r =>
    match s.clients[r]? with
    | some c => some (s.put r { c with done := true })
    | none => none
  | .enter r =>
    match s.clients[r]? with
    | some c => if c.phase = .trying then some (s.enter r c) else none
    | none => none
  | .wake r =>
    match s.clients[r]? with
    | some c =>
      match c.phase with
      | .waiting inFlight => if inFlight ∈ s.closed then some (s.put r { c with phase := .trying }) else none
      | _ => none
    | none => none
  | .giveUp r =>
    match s.clients[r]? with
    | some c =>
      match c.phase with
      | .waiting _ => if c.done then some (s.put r { c with phase := .failed }) else none
      | _ => none
    | none => none
  | .finish r time plane ending =>
    match s.clients[r]? with
    | some c =>
      match c.phase with
      | .fetching inFlight began =>
        if (time, plane) ∈ s.states ∧ began ≤ time ∧ (ending ≠ .exchanged → c.done = true) then
          some (s.finish r c inFlight began (runReadinessFetch answer plane c.probe ending))
        else none
      | _ => none
    | none => none

/-! ### What the cache promises -/

/-- The answer of the control plane to the request's own probe, under some identifier, in a state that it had during a
fetch which ended within the time that answers are kept; a fetch may have taken long before that. -/
def Produced (s : Readiness S H) (c : Client H) (result : ReadinessResult) (time : ℤ) : Prop :=
  ∃ id at' plane began ended, (at', plane) ∈ s.states ∧ (began, ended) ∈ s.fetches ∧ began ≤ at' ∧ at' ≤ ended ∧
    ended ≤ time ∧ time < ended + readinessCacheTTL ∧
    runReadinessFetch answer plane { c.probe with id := id } .exchanged = some result

/-- The headers of the probe make no difference to the control plane in this state. -/
def HeadersIgnored (plane : S) : Prop :=
  ∀ (headers headers' : H) (id : String), answer plane ⟨headers, id⟩ = answer plane ⟨headers', id⟩

/-- A fetch that ends in a panic, or with the exchange, at a control plane that ignores the headers. -/
def Undisturbed (s : Readiness S H) : ReadinessAct S H → Prop
  | .finish r _ plane ending =>
    ending = .abandoned ∨
    ending = .exchanged ∧ (HeadersIgnored answer plane ∨ ∀ c, s.clients[r]? = some c → answer plane c.probe = .reset)
  | _ => True

/-- A fetch under way is the one of the marker, and a request waits only for such a fetch or for one that is over. -/
structure Barrier (s : Readiness S H) : Prop where
  marker : ∀ inFlight, s.inFlight = some inFlight →
    ∃ (r : ℕ) (c : Client H) (began : ℤ), s.clients[r]? = some c ∧ c.phase = .fetching inFlight began
  leader : ∀ (r : ℕ) (c : Client H) (inFlight : ℕ) (began : ℤ), s.clients[r]? = some c → c.phase = .fetching inFlight began →
    s.inFlight = some inFlight ∧
      ∀ (r' : ℕ) (c' : Client H) (inFlight' : ℕ) (began' : ℤ), s.clients[r']? = some c' → c'.phase = .fetching inFlight' began' → r' = r
  waiter : ∀ (r : ℕ) (c : Client H) (inFlight : ℕ), s.clients[r]? = some c → c.phase = .waiting inFlight →
    inFlight ∈ s.closed ∨ s.inFlight = some inFlight

/-! ### The steps -/

@[simp] theorem clients_put (s : Readiness S H) (r : ℕ) (c : Client H) : (s.put r c).clients = s.clients.set r c := rfl

variable {s t : Readiness S H} {r : ℕ} {c c' : Client H} {result : ReadinessResult} {a : ReadinessAct S H} {time : ℤ}

/-- After `put`, a request is the one that was put or one that was there. -/
theorem put_client {r' : ℕ} (h : (s.clients.set r c)[r']? = some c') :
    r' = r ∧ c' = c ∨ r' ≠ r ∧ s.clients[r']? = some c' := by
  rw [List.getElem?_set] at h
  split at h
  next hr =>
    split at h
    · exact .inl ⟨hr.symm, (Option.some.inj h).symm⟩
    · cases h
  next hr => exact .inr ⟨fun h => hr h.symm, h⟩

theorem put_self (c' : Client H) (h : s.clients[r]? = some c) : (s.clients.set r c')[r]? = some c' := by
  have : r < s.clients.length := (List.getElem?_eq_some_iff.mp h).1
  simp [this]

/-- What a step does, apart from what the actions that move one request have in common. -/
inductive Moves (s : Readiness S H) : ReadinessAct S H → Readiness S H → Prop
  | turn {now plane} : s.now ≤ now →
      Moves s (.turn now plane) { s with now := now, plane := plane, past := s.states }
  | arrive {probe} : Moves s (.arrive probe) { s with clients := s.clients ++ [⟨probe, false, .trying⟩] }
  | move {a : ReadinessAct S H} {r : ℕ} {c c' : Client H} : s.clients[r]? = some c → c'.probe = c.probe →
      (c'.phase = c.phase ∨ (∃ inFlight, c.phase = .waiting inFlight) ∧ (c'.phase = .trying ∨ c'.phase = .failed)) →
      Moves s a (s.put r c')
  | enter {r : ℕ} {c : Client H} : s.clients[r]? = some c → c.phase = .trying → Moves s (.enter r) (s.enter r c)
  | finish {r : ℕ} {time : ℤ} {plane ending} {c : Client H} {inFlight began} : s.clients[r]? = some c →
      c.phase = .fetching inFlight began → (time, plane) ∈ s.states → began ≤ time →
      Moves s (.finish r time plane ending)
        (s.finish r c inFlight began (runReadinessFetch answer plane c.probe ending))

theorem moves_of_next [DecidableEq S] (h : s.next answer a = some t) : Moves answer s a t := by
  cases a with
  | turn now plane =>
    simp only [next, Option.ite_none_right_eq_some, Option.some.injEq] at h
    obtain ⟨hle, rfl⟩ := h
    exact .turn hle
  | arrive probe =>
    simp only [next, Option.some.injEq] at h
    subst h
    exact .arrive
  | cancel r =>
    simp only [next] at h
    split at h
    next c hc =>
      cases h
      exact .move hc rfl (.inl rfl)
    · cases h
  | enter r =>
    simp only [next] at h
    split at h
    next c hc =>
      simp only [Option.ite_none_right_eq_some, Option.some.injEq] at h
      obtain ⟨hp, rfl⟩ := h
      exact .enter hc hp
    · cases h
  | wake r =>
    simp only [next] at h
    split at h
    next c hc =>
      split at h
      next inFlight hp =>
        simp only [Option.ite_none_right_eq_some, Option.some.injEq] at h
        obtain ⟨-, rfl⟩ := h
        exact .move hc rfl (.inr ⟨⟨inFlight, hp⟩, .inl rfl⟩)
      · cases h
    · cases h
  | giveUp r =>
    simp only [next] at h
    split at h
    next c hc =>
      split at h
      next inFlight hp =>
        simp only [Option.ite_none_right_eq_some, Option.some.injEq] at h
        obtain ⟨-, rfl⟩ := h
        exact .move hc rfl (.inr ⟨⟨inFlight, hp⟩, .inr rfl⟩)
      · cases h
    · cases h
  | finish r time plane ending =>
    simp only [next] at h
    split at h
    next c hc =>
      split at h
      next inFlight began hp =>
        simp only [Option.ite_none_right_eq_some, Option.some.injEq] at h
        obtain ⟨⟨hs, hle, -⟩, rfl⟩ := h
        exact .finish hc hp hs hle
      · cases h
    · cases h

/-! ### No request waits for a fetch that is over -/

theorem Barrier.start (now : ℤ) (plane : S) : Barrier (start now plane : Readiness S H) := by
  constructor <;> simp [Readiness.start]

/-- A request that is not fetching moves without starting to wait or to fetch. -/
theorem Barrier.put (h : Barrier s) (hc : s.clients[r]? = some c)
    (hp : c'.phase = c.phase ∨ (∀ inFlight began, c.phase ≠ .fetching inFlight began) ∧
      (∀ inFlight began, c'.phase ≠ .fetching inFlight began) ∧
      ∀ inFlight, c'.phase = .waiting inFlight → s.inFlight = some inFlight) :
    Barrier (s.put r c') := by
  have fetches : ∀ {r' : ℕ} {d : Client H} {inFlight : ℕ} {began : ℤ},
      (s.clients.set r c')[r']? = some d → d.phase = .fetching inFlight began →
      ∃ d', s.clients[r']? = some d' ∧ d'.phase = .fetching inFlight began := by
    intro r' d inFlight began hd hph
    rcases put_client hd with ⟨rfl, rfl⟩ | ⟨-, hd⟩
    · rcases hp with hp | ⟨-, hp, -⟩
      · exact ⟨c, hc, hp ▸ hph⟩
      · exact absurd hph (hp inFlight began)
    · exact ⟨d, hd, hph⟩
  constructor
  · intro inFlight hi
    obtain ⟨r', d, began, hd, hph⟩ := h.marker inFlight hi
    by_cases hr : r' = r
    · subst hr
      have hdc : d = c := Option.some.inj (hd.symm.trans hc)
      subst hdc
      rcases hp with hp | ⟨hp, -⟩
      · exact ⟨r', c', began, put_self c' hc, hp.trans hph⟩
      · exact absurd hph (hp inFlight began)
    · refine ⟨r', d, began, ?_, hph⟩
      rw [clients_put, List.getElem?_set_ne (fun h => hr h.symm)]
      exact hd
  · intro r' d inFlight began hd hph
    obtain ⟨d', hd', hph'⟩ := fetches hd hph
    refine ⟨(h.leader r' d' inFlight began hd' hph').1, fun r'' e _ _ he hpe => ?_⟩
    obtain ⟨e', he', hpe'⟩ := fetches he hpe
    exact (h.leader r' d' inFlight began hd' hph').2 r'' e' _ _ he' hpe'
  · intro r' d inFlight hd hph
    rcases put_client hd with ⟨rfl, rfl⟩ | ⟨-, hd⟩
    · rcases hp with hp | ⟨-, -, hp⟩
      · exact h.waiter r' c inFlight hc (hp ▸ hph)
      · exact .inr (hp inFlight hph)
    · exact h.waiter r' d inFlight hd hph

theorem Barrier.enter (h : Barrier s) (hc : s.clients[r]? = some c) (hp : c.phase = .trying) :
    Barrier (s.enter r c) := by
  unfold Readiness.enter
  split
  · exact h.put hc (.inr ⟨by simp [hp], by simp, by simp⟩)
  next hi => exact h.put hc (.inr ⟨by simp [hp], by simp, by simpa using hi⟩)
  next hi =>
    -- nobody is fetching, so that the new fetch is the only one
    have quiet : ∀ {r' : ℕ} {d : Client H} {inFlight : ℕ} {began : ℤ},
        s.clients[r']? = some d → d.phase ≠ .fetching inFlight began := by
      intro r' d inFlight began hd hph
      have := (h.leader r' d inFlight began hd hph).1
      rw [hi] at this
      cases this
    constructor
    · intro inFlight hf
      cases hf
      exact ⟨r, _, s.now, put_self _ hc, rfl⟩
    · intro r' d inFlight began hd hph
      rcases put_client hd with ⟨rfl, rfl⟩ | ⟨-, hd⟩
      · cases hph
        refine ⟨rfl, fun r'' e _ _ he hpe => ?_⟩
        rcases put_client he with ⟨rfl, -⟩ | ⟨-, he⟩
        · rfl
        · exact absurd hpe (quiet he)
      · exact absurd hph (quiet hd)
    · intro r' d inFlight hd hph
      rcases put_client hd with ⟨rfl, rfl⟩ | ⟨-, hd⟩
      · cases hph
      · rcases h.waiter r' d inFlight hd hph with hclosed | hf
        · exact .inl hclosed
        · rw [hi] at hf
          cases hf

theorem Barrier.finish (h : Barrier s) {inFlight : ℕ} {began : ℤ} (hc : s.clients[r]? = some c)
    (hp : c.phase = .fetching inFlight began) (result : Option ReadinessResult) :
    Barrier (s.finish r c inFlight began result) := by
  have alone : ∀ {r' : ℕ} {d : Client H} {inFlight' : ℕ} {began' : ℤ},
      r' ≠ r → s.clients[r']? = some d → d.phase ≠ .fetching inFlight' began' :=
    fun hr hd hph => hr ((h.leader r c inFlight began hc hp).2 _ _ _ _ hd hph)
  have ended : ∀ {r' : ℕ} {d : Client H} {inFlight' : ℕ}, s.clients[r']? = some d → d.phase = .waiting inFlight' →
      inFlight' ∈ inFlight :: s.closed := by
    intro r' d inFlight' hd hph
    rcases h.waiter r' d inFlight' hd hph with hclosed | hf
    · exact List.mem_cons_of_mem _ hclosed
    · rw [(h.leader r c inFlight began hc hp).1] at hf
      cases hf
      exact List.mem_cons_self
  cases result with
  | some result =>
    constructor
    · intro _ hf
      cases hf
    · intro r' d _ _ hd hph
      rcases put_client hd with ⟨-, rfl⟩ | ⟨hr, hd⟩
      · cases hph
      · exact absurd hph (alone hr hd)
    · intro r' d _ hd hph
      rcases put_client hd with ⟨-, rfl⟩ | ⟨-, hd⟩
      · cases hph
      · exact .inl (ended hd hph)
  | none =>
    constructor
    · intro _ hf
      cases hf
    · intro r' d _ _ hd hph
      rcases put_client hd with ⟨-, rfl⟩ | ⟨hr, hd⟩
      · cases hph
      · exact absurd hph (alone hr hd)
    · intro r' d _ hd hph
      rcases put_client hd with ⟨-, rfl⟩ | ⟨-, hd⟩
      · cases hph
      · exact .inl (ended hd hph)

theorem Barrier.arrive (h : Barrier s) (probe : Probe H) :
    Barrier { s with clients := s.clients ++ [⟨probe, false, .trying⟩] } := by
  have old : ∀ {r' : ℕ} {d : Client H}, (s.clients ++ [⟨probe, false, .trying⟩])[r']? = some d →
      d.phase ≠ .trying → s.clients[r']? = some d := by
    intro r' d hd hph
    rw [List.getElem?_append] at hd
    split at hd
    · exact hd
    · have hd : d ∈ [(⟨probe, false, .trying⟩ : Client H)] := List.mem_of_getElem? hd
      rw [List.mem_singleton] at hd
      subst hd
      exact absurd rfl hph
  constructor
  · intro inFlight hf
    obtain ⟨r, c, began, hc, hph⟩ := h.marker inFlight hf
    refine ⟨r, c, began, ?_, hph⟩
    rw [List.getElem?_append_left (List.getElem?_eq_some_iff.mp hc).1]
    exact hc
  · intro r c inFlight began hc hph
    have hc := old hc (by simp [hph])
    refine ⟨(h.leader r c inFlight began hc hph).1, fun r' c' _ _ hc' hph' => ?_⟩
    exact (h.leader r c inFlight began hc hph).2 r' c' _ _ (old hc' (by simp [hph'])) hph'
  · intro r c inFlight hc hph
    exact h.waiter r c inFlight (old hc (by simp [hph])) hph

/-- **Step lemma.** -/
theorem Barrier.next [DecidableEq S] (h : Barrier s) (hn : s.next answer a = some t) : Barrier t := by
  cases moves_of_next answer hn with
  | turn _ => exact ⟨h.marker, h.leader, h.waiter⟩
  | arrive => exact h.arrive _
  | move hc _ hp =>
    refine h.put hc (hp.imp_right ?_)
    rintro ⟨⟨inFlight, hw⟩, hp | hp⟩
    · exact ⟨by simp [hw], by simp [hp], by simp [hp]⟩
    · exact ⟨by simp [hw], by simp [hp], by simp [hp]⟩
  | enter hc hp => exact h.enter hc hp
  | finish hc hp _ _ => exact h.finish hc hp _

/-! ### Every answer is the control plane's own -/

/-- What is kept in the cache answers every probe, and what was returned answered the probe of its request. -/
structure Fresh (s : Readiness S H) : Prop where
  time : ∀ at' plane, (at', plane) ∈ s.states → at' ≤ s.now
  stored : ∀ result expiresAt, s.result = some (result, expiresAt) → ∃ id at' plane began ended,
    (at', plane) ∈ s.states ∧ (began, ended) ∈ s.fetches ∧ began ≤ at' ∧ at' ≤ ended ∧ ended ≤ s.now ∧
      expiresAt = ended + readinessCacheTTL ∧
      ∀ headers, runReadinessFetch answer plane ⟨headers, id⟩ .exchanged = some result
  returned : ∀ c ∈ s.clients, ∀ result time, c.phase = .returned result time → Produced answer s c result time

variable {answer}

/-- What was produced stays so while the record of the past grows, and for another client with the same probe. -/
theorem Produced.mono {d : Client H} (h : Produced answer s c result time) (hs : ∀ x ∈ s.states, x ∈ t.states)
    (hf : ∀ x ∈ s.fetches, x ∈ t.fetches) (hp : d.probe = c.probe) :
    Produced answer t d result time := by
  obtain ⟨id, at', plane, began, ended, hmem, hfetch, h1, h2, h3, h4, hres⟩ := h
  refine ⟨id, at', plane, began, ended, hs _ hmem, hf _ hfetch, h1, h2, h3, h4, ?_⟩
  rw [hp]
  exact hres

theorem Fresh.start (now : ℤ) (plane : S) : Fresh answer (start now plane : Readiness S H) := by
  constructor <;> simp [Readiness.start, states]

/-- One request moves; it may return what is produced. -/
theorem Fresh.put (h : Fresh answer s) (hc : s.clients[r]? = some c) (hprobe : c'.probe = c.probe)
    (hp : ∀ result time, c'.phase = .returned result time →
      c.phase = .returned result time ∨ Produced answer s c result time) : Fresh answer (s.put r c') := by
  refine ⟨h.time, h.stored, fun d hd result time hph => ?_⟩
  obtain ⟨r', hd⟩ := List.mem_iff_getElem?.mp hd
  rcases put_client hd with ⟨-, rfl⟩ | ⟨-, hd⟩
  · rcases hp result time hph with hph | hprod
    · exact (h.returned c (List.mem_of_getElem? hc) result time hph).mono (fun _ hx => hx) (fun _ hx => hx) hprobe
    · exact hprod.mono (fun _ hx => hx) (fun _ hx => hx) hprobe
  · exact (h.returned d (List.mem_of_getElem? hd) result time hph).mono (fun _ hx => hx) (fun _ hx => hx) rfl

/-- A hit answers the request's own probe. -/
theorem Fresh.hit (h : Fresh answer s) (hh : s.hit = some result) (c : Client H) :
    Produced answer s c result s.now := by
  unfold Readiness.hit at hh
  split at hh
  next kept expiresAt hres =>
    simp only [Option.ite_none_right_eq_some, Option.some.injEq] at hh
    obtain ⟨hlt, rfl⟩ := hh
    obtain ⟨id, at', plane, began, ended, hmem, hfetch, h1, h2, h3, rfl, hall⟩ := h.stored kept expiresAt hres
    exact ⟨id, at', plane, began, ended, hmem, hfetch, h1, h2, h3, hlt, hall c.probe.headers⟩
  · cases hh

theorem Fresh.enter (h : Fresh answer s) (hc : s.clients[r]? = some c) : Fresh answer (s.enter r c) := by
  unfold Readiness.enter
  split
  next result hh =>
    refine h.put hc rfl fun result' time hph => .inr ?_
    cases hph
    exact h.hit hh c
  next => exact h.put hc rfl fun _ _ hph => by cases hph
  next =>
    have : Fresh answer (s.put r { c with phase := .fetching s.opened s.now }) :=
      h.put hc rfl fun _ _ hph => by cases hph
    exact ⟨this.time, this.stored, this.returned⟩

/-- What an undisturbed fetch brings, it brings for every probe. -/
theorem fetch_all {plane : S} {ending : Ending} (hc : s.clients[r]? = some c)
    (hg : Undisturbed answer s (.finish r time plane ending))
    (hres : runReadinessFetch answer plane c.probe ending = some result) (headers : H) :
    runReadinessFetch answer plane ⟨headers, c.probe.id⟩ .exchanged = some result := by
  rcases hg with rfl | ⟨rfl, hignored | hreset⟩
  · cases hres
  · rw [← hres]
    simp only [runReadinessFetch, hignored headers c.probe.headers c.probe.id]
  · simp [runReadinessFetch, hreset c hc] at hres

theorem Fresh.finish (h : Fresh answer s) {inFlight : ℕ} {began : ℤ} {plane : S} {ending : Ending}
    (hc : s.clients[r]? = some c) (hmem : (time, plane) ∈ s.states) (hb : began ≤ time)
    (hg : Undisturbed answer s (.finish r time plane ending)) :
    Fresh answer (s.finish r c inFlight began (runReadinessFetch answer plane c.probe ending)) := by
  have hnow : time ≤ s.now := h.time _ _ hmem
  have hpos : (0 : ℤ) < readinessCacheTTL := by decide
  cases hres : runReadinessFetch answer plane c.probe ending with
  | some result =>
    have all := fetch_all hc hg hres
    constructor
    · exact h.time
    · intro result' expiresAt hs
      cases hs
      exact ⟨c.probe.id, time, plane, began, s.now, hmem, List.mem_cons_self, hb, hnow, le_rfl, rfl, all⟩
    · intro d hd result' time' hph
      obtain ⟨r', hd⟩ := List.mem_iff_getElem?.mp hd
      rcases put_client hd with ⟨-, rfl⟩ | ⟨-, hd⟩
      · cases hph
        exact ⟨c.probe.id, time, plane, began, s.now, hmem, List.mem_cons_self, hb, hnow, le_rfl,
          lt_add_of_pos_right _ hpos, all c.probe.headers⟩
      · exact (h.returned d (List.mem_of_getElem? hd) result' time' hph).mono (fun _ hx => hx)
          (fun _ hx => List.mem_cons_of_mem _ hx) rfl
  | none =>
    have moved : Fresh answer (s.put r { c with phase := .failed }) := h.put hc rfl fun _ _ hph => by cases hph
    constructor
    · exact moved.time
    · intro result expiresAt hs
      obtain ⟨id, at', plane', began', ended, hm, hf, rest⟩ := moved.stored result expiresAt hs
      exact ⟨id, at', plane', began', ended, hm, List.mem_cons_of_mem _ hf, rest⟩
    · intro d hd result' time' hph
      exact (moved.returned d hd result' time' hph).mono (fun _ hx => hx) (fun _ hx => List.mem_cons_of_mem _ hx) rfl

/-- **Step lemma.** -/
theorem Fresh.next [DecidableEq S] (h : Fresh answer s) (hn : s.next answer a = some t) (hg : Undisturbed answer s a) :
    Fresh answer t := by
  cases moves_of_next answer hn with
  | @turn now plane hle =>
    have grow : ∀ x ∈ s.states, x ∈ (now, plane) :: s.states := fun x hx => List.mem_cons_of_mem _ hx
    constructor
    · intro at' plane' hm
      rcases List.mem_cons.mp hm with hm | hm
      · cases hm
        exact le_rfl
      · exact (h.time _ _ hm).trans hle
    · intro result expiresAt hs
      obtain ⟨id, at', plane', began, ended, hm, hf, h1, h2, h3, rest⟩ := h.stored result expiresAt hs
      exact ⟨id, at', plane', began, ended, grow _ hm, hf, h1, h2, h3.trans hle, rest⟩
    · intro c hc result time hph
      exact (h.returned c hc result time hph).mono grow (fun _ hx => hx) rfl
  | arrive =>
    refine ⟨h.time, h.stored, fun c hc result time hph => ?_⟩
    rcases List.mem_append.mp hc with hc | hc
    · exact (h.returned c hc result time hph).mono (fun _ hx => hx) (fun _ hx => hx) rfl
    · rw [List.mem_singleton] at hc
      subst hc
      cases hph
  | move hc hprobe hp =>
    refine h.put hc hprobe fun result time hph => .inl ?_
    rcases hp with hp | ⟨-, hp | hp⟩
    · exact hp ▸ hph
    · rw [hp] at hph
      cases hph
    · rw [hp] at hph
      cases hph
  | enter hc _ => exact h.enter hc
  | finish hc _ hm hb => exact h.finish hc hm hb hg

/-- **What others do makes no difference, as long as no probe is disturbed.**  While every fetch that stores an answer
ended with its exchange, at a control plane that ignored its headers, every result returned is the answer of the
control plane to the request's own probe.  In every run, a fetch under way is the one of the marker, and a request
waits only for a fetch under way or for one that is over, after which it goes on. -/
theorem readiness_answers [DecidableEq S] (answer : S → Probe H → Exchange) (now : ℤ) (plane : S) :
    (∀ acts s, RunIn (fun s a t => s.next answer a = some t) (fun s a _ => Undisturbed answer s a)
        (start now plane : Readiness S H) acts s →
      ∀ c ∈ s.clients, ∀ result time, c.phase = .returned result time → Produced answer s c result time) ∧
    ∀ acts s, Run (fun s a t => s.next answer a = some t) (start now plane : Readiness S H) acts s → Barrier s := by
  refine ⟨fun acts s h => ?_, fun acts s h => ?_⟩
  · exact (h.invariant (fun _ _ _ hs hn hg => hs.next hn hg) (Fresh.start now plane)).returned
  · exact h.invariant (fun _ _ _ hs hn => hs.next answer hn) (Barrier.start now plane)

/-- `readyz` of the control plane, whose state is whether the database answers. -/
def readyz (ready : Bool) (probe : Probe Unit) : Exchange :=
  if ready then .response ⟨200, "application/json; charset=utf-8", "", ["\x7b\"ok\":true\x7d"]⟩
  else
    .response ⟨503, "application/problem+json", "",
      ["\x7b\"type\":\"https://docs.boringcomputers.com/problems/not_ready\",\"title\":\"not_ready\",\"status\":503," ++
        "\"detail\":\"The control plane database is unavailable.\",\"request_id\":\"" ++ probe.id ++ "\"\x7d"]⟩

theorem readyz_headersIgnored (ready : Bool) : HeadersIgnored readyz ready := fun _ _ _ => rfl

theorem readyz_status {probe : Probe Unit} (h : runReadinessFetch readyz true probe .exchanged = some result) :
    result.status = 200 := by
  simp only [runReadinessFetch, readyz, if_true, Option.some.injEq] at h
  subst h
  decide +kernel

/-- The second request is answered from the probe of the first. -/
theorem readiness_answers_shared :
    ∃ s, Run (fun s a t => s.next readyz a = some t) (start 0 true)
        [.arrive ⟨(), "a"⟩, .arrive ⟨(), "b"⟩, .enter 0, .finish 0 0 true .exchanged, .enter 1] s ∧
      s.clients[1]? = some ⟨⟨(), "b"⟩, false, .returned ⟨200, "application/json; charset=utf-8", "",
        "\x7b\"ok\":true\x7d"⟩ 0⟩ ∧
      (∀ c ∈ s.clients, ∀ result time, c.phase = .returned result time → Produced readyz s c result time) := by
  have h : (exec (next readyz) (start 0 true)
      [.arrive ⟨(), "a"⟩, .arrive ⟨(), "b"⟩, .enter 0, .finish 0 0 true .exchanged, .enter 1]).any
      (fun s => decide (s.clients[1]? = some ⟨⟨(), "b"⟩, false, .returned ⟨200, "application/json; charset=utf-8", "",
        "\x7b\"ok\":true\x7d"⟩ 0⟩)) = true := by
    decide +kernel
  obtain ⟨s, hrun, hs⟩ := Run.of_test h
  refine ⟨s, hrun, hs, (readiness_answers readyz 0 true).1 _ s (hrun.guarded fun a ha s t => ?_)⟩
  simp only [List.mem_cons, List.not_mem_nil, or_false] at ha
  rcases ha with rfl | rfl | rfl | rfl | rfl
  · trivial
  · trivial
  · trivial
  · exact .inr ⟨rfl, .inl (readyz_headersIgnored true)⟩
  · trivial

/-- The first client goes away while its probe is under way: the second, which does not, is told for a second that the
control plane is unavailable. -/
theorem cancelledProbe_answers_others :
    ∃ s, Run (fun s a t => s.next readyz a = some t) (start 0 true)
        [.arrive ⟨(), "a"⟩, .arrive ⟨(), "b"⟩, .enter 0, .cancel 0, .finish 0 0 true (.interrupted false), .enter 1] s ∧
      ∃ c ∈ s.clients, c.done = false ∧ ∃ result time, c.phase = .returned result time ∧
        ¬ Produced readyz s c result time := by
  have h : (exec (next readyz) (start 0 true)
      [.arrive ⟨(), "a"⟩, .arrive ⟨(), "b"⟩, .enter 0, .cancel 0, .finish 0 0 true (.interrupted false), .enter 1]).any
      (fun s => decide (s.states = [(0, true)] ∧
        s.clients[1]? = some ⟨⟨(), "b"⟩, false, .returned (proxyError false false "a") 0⟩)) = true := by
    decide +kernel
  obtain ⟨s, hrun, hstates, hclient⟩ := Run.of_test h
  refine ⟨s, hrun, _, List.mem_of_getElem? hclient, rfl, _, _, rfl, ?_⟩
  rintro ⟨id, at', plane, began, ended, hmem, -, -, -, -, -, hres⟩
  rw [hstates, List.mem_singleton] at hmem
  cases hmem
  have := readyz_status hres
  simp [proxyError, problemResult] at this

end Readiness

end Nehemiah.DataPlane
