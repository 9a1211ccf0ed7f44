import Mathlib
import Nehemiah.Lib.Lease
import Nehemiah.Lib.Run
import Nehemiah.Lib.Text

/-!
# Stream admission

`StreamAdmissionService`: the leases that gateways and volume brokers hold while a stream is open.  `acquire`
is taken apart into its statements, each with the `statement_timestamp()` at which the server received it, so
that time passes between any two of them; `release` and `reapExpired` are single statements.

The row of the organization stays locked from the first statement on, and no other admission of the
organization commits in the meantime.  A renewal counts nothing for itself, and need not: its lease was live
when the expired leases were taken out, and the leases beside it have only become fewer since
(`Acquire.Sound`).  So the limits hold at every instant (`stream_limits_hold`).
-/

namespace Nehemiah.Streams

open Lib

/-! ### Tables -/

inductive StreamAuthorityKind
  | machineCapability | volumeCapability
  deriving DecidableEq

structure StreamAdmissionRequest where
  id : String
  organizationId : String
  projectId : String
  authorityKind : StreamAuthorityKind
  authorityId : String
  instanceId : String
  bandwidthBytesPerSecond : ℕ

/-- A row of `gateway_stream_leases`; its identities are UUIDs as the database prints them. -/
structure Lease where
  id : String
  organizationId : String
  projectId : String
  authorityKind : StreamAuthorityKind
  authorityId : String
  gatewayInstanceId : String
  bandwidthBytesPerSecond : ℕ
  expiresAt : ℕ

/-- `max_gateway_streams` and `max_gateway_bandwidth_bps`. -/
structure StreamLimit where
  maxGatewayStreams : ℕ
  maxGatewayBandwidthBps : ℕ

structure OrganizationRow where
  id : String
  limit : StreamLimit

structure ProjectRow where
  id : String
  organizationId : String
  limit : StreamLimit

/-- The organizations and projects, which do not change. -/
structure Tenants where
  organizations : List OrganizationRow
  projects : List ProjectRow
  organizations_key : (organizations.map (·.id)).Nodup
  projects_key : (projects.map (·.id)).Nodup

/-- Streams and bytes per second. -/
abbrev Usage := ℕ × ℕ

def StreamLimit.bound (limit : StreamLimit) : Usage := (limit.maxGatewayStreams, limit.maxGatewayBandwidthBps)

def Lease.usage (l : Lease) : Usage := (1, l.bandwidthBytesPerSecond)

/-- The unexpired leases of a scope. -/
def usage (scope : Lease → Bool) (t : ℕ) (leases : List Lease) : Usage :=
  load Lease.expiresAt Lease.usage scope t leases

def ofOrganization (organizationId : String) (l : Lease) : Bool := l.organizationId == organizationId

def ofProject (organizationId projectId : String) (l : Lease) : Bool :=
  l.organizationId == organizationId && l.projectId == projectId

/-! ### Requests -/

namespace StreamAdmissionRequest

variable (r : StreamAdmissionRequest)

def validate : Bool :=
  isUuid r.id && isUuid r.organizationId && isUuid r.projectId && isToken 127 r.instanceId
    && isToken 254 r.authorityId && decide (1 ≤ r.bandwidthBytesPerSecond)
    && decide (r.bandwidthBytesPerSecond ≤ 1073741824)

/-- The row that the request inserts. -/
def lease (expiresAt : ℕ) : Lease :=
  { id := uuidValue r.id, organizationId := uuidValue r.organizationId, projectId := uuidValue r.projectId,
    authorityKind := r.authorityKind, authorityId := r.authorityId, gatewayInstanceId := r.instanceId,
    bandwidthBytesPerSecond := r.bandwidthBytesPerSecond, expiresAt }

/-- The row is of this request, by the texts that the database prints. -/
def replays (current : Lease) : Bool :=
  decide (current.organizationId = r.organizationId ∧ current.projectId = r.projectId
    ∧ current.authorityKind = r.authorityKind ∧ current.authorityId = r.authorityId
    ∧ current.gatewayInstanceId = r.instanceId
    ∧ current.bandwidthBytesPerSecond = r.bandwidthBytesPerSecond)

/-- The `WHERE` of the upsert. -/
def renews (row : Lease) : Bool :=
  decide (row.organizationId = uuidValue r.organizationId ∧ row.projectId = uuidValue r.projectId
    ∧ row.authorityKind = r.authorityKind ∧ row.authorityId = r.authorityId
    ∧ row.gatewayInstanceId = r.instanceId ∧ row.bandwidthBytesPerSecond = r.bandwidthBytesPerSecond)

/-- `(1, bandwidth)`. -/
def usage : Usage := (1, r.bandwidthBytesPerSecond)

end StreamAdmissionRequest

/-- `leaseSeconds`, in microseconds. -/
def leaseMicroseconds : ℕ := 15 * 1000000

/-! ### The statements of `acquire` -/

/-- The next statement of an admission and what the earlier ones have returned. -/
inductive Statement
  | organization
  | project (organizationLimit : Option StreamLimit)
  | cleanup (organizationLimit projectLimit : StreamLimit)
  | existing (organizationLimit projectLimit : StreamLimit)
  | usage (organizationLimit projectLimit : StreamLimit) (current : Option Lease)
  | upsert (organizationLimit projectLimit : StreamLimit) (current : Option Lease)
  | commit (organizationLimit projectLimit : StreamLimit) (lease : Lease)

/-- An admission in progress.  `timestamp` is the `statement_timestamp()` of the next statement, once the
server has received it, and `deleted` are the leases that the transaction has deleted. -/
structure Acquire where
  request : StreamAdmissionRequest
  statement : Statement
  timestamp : Option ℕ
  deleted : List String

namespace Acquire

variable (a : Acquire)

def organizationId : String := uuidValue a.request.organizationId

def projectId : String := uuidValue a.request.projectId

def leaseId : String := uuidValue a.request.id

/-- The row of the organization is locked. -/
def holds : Bool :=
  match a.statement with
  | .organization | .project none => false
  | _ => true

/-- The row of the lease is locked. -/
def locks (id : String) : Bool :=
  a.deleted.contains id || match a.statement with
    | .usage _ _ (some _) | .upsert _ _ (some _) | .commit _ _ _ => a.leaseId == id
    | _ => false

/-- The rows that the transaction sees. -/
def visible (leases : List Lease) : List Lease := leases.filter fun l => !a.deleted.contains l.id

def next (statement : Statement) : Option Acquire := some { a with statement, timestamp := none }

/-- A statement of the transaction; `none` when `acquire` throws. -/
def run (tenants : Tenants) (leases : List Lease) (t : ℕ) : Option Acquire :=
  match a.statement with
  | .organization =>
    a.next (.project ((tenants.organizations.find? fun o => decide (o.id = a.organizationId)).map (·.limit)))
  | .project organizationLimit =>
    match organizationLimit, tenants.projects.find? fun p => decide (p.id = a.projectId)
        && p.organizationId == a.organizationId with
    | some organizationLimit, some project => a.next (.cleanup organizationLimit project.limit)
    | _, _ => none
  | .cleanup o p =>
    let expired := leases.filter fun l => l.organizationId == a.organizationId && decide (l.expiresAt ≤ t)
    Acquire.next { a with deleted := expired.map (·.id) } (.existing o p)
  | .existing o p =>
    match (a.visible leases).find? fun l => l.id == a.leaseId with
    | some current => if a.request.replays current then a.next (.usage o p (some current)) else none
    | none => a.next (.usage o p none)
  | .usage o p current =>
    let additional := if current.isSome then 0 else a.request.usage
    if Streams.usage (ofOrganization a.organizationId) t (a.visible leases) + additional ≤ o.bound
        ∧ Streams.usage (ofProject a.organizationId a.projectId) t (a.visible leases) + additional ≤ p.bound then
      a.next (.upsert o p current)
    else none
  | .upsert o p _ =>
    match (a.visible leases).find? fun l => l.id == a.leaseId with
    | none => a.next (.commit o p (a.request.lease (t + leaseMicroseconds)))
    | some row =>
      if a.request.renews row then a.next (.commit o p { row with expiresAt := t + leaseMicroseconds }) else none
  | .commit _ _ _ => none

/-- What the transaction leaves when it commits. -/
def committed (leases : List Lease) (lease : Lease) : List Lease :=
  (a.visible leases).filter (fun l => !(l.id == lease.id)) ++ [lease]

end Acquire

/-! ### The system -/

/-- The database and the admissions in progress on the connections of the pools. -/
structure State (n : ℕ) where
  now : ℕ
  leases : List Lease
  acquires : Fin n → Option Acquire

inductive Action (n : ℕ)
  | elapse (duration : ℕ)
  | acquire (c : Fin n) (request : StreamAdmissionRequest)
  /-- The server receives the next statement of a transaction. -/
  | receive (c : Fin n)
  /-- The server has executed it. -/
  | run (c : Fin n)
  | rollback (c : Fin n)
  | release (id instanceId : String)
  | reapExpired (limit : ℕ)

namespace State

variable {n : ℕ} (s : State n)

/-- Another transaction has locked the row. -/
def lockedByOther (c : Fin n) (id : String) : Bool :=
  decide (∃ d, d ≠ c ∧ (s.acquires d).any (·.locks id) = true)

def locked (id : String) : Bool := decide (∃ d, (s.acquires d).any (·.locks id) = true)

/-- The statement waits for a lock. -/
def waits (c : Fin n) (a : Acquire) (t : ℕ) : Bool :=
  match a.statement with
  | .organization => decide (∃ d, d ≠ c ∧
      (s.acquires d).any (fun b => b.holds && b.organizationId == a.organizationId) = true)
  | .cleanup _ _ => s.leases.any fun l => l.organizationId == a.organizationId && decide (l.expiresAt ≤ t)
      && s.lockedByOther c l.id
  | .existing _ _ => (a.visible s.leases).any (fun l => l.id == a.leaseId) && s.lockedByOther c a.leaseId
  | .upsert _ _ _ => s.lockedByOther c a.leaseId
  | _ => false

def set (c : Fin n) (a : Option Acquire) : State n := { s with acquires := Function.update s.acquires c a }

/-- The expired leases that nobody has locked, the oldest first. -/
def reapable (limit : ℕ) : List String :=
  (((s.leases.filter fun l => decide (l.expiresAt ≤ s.now) && !s.locked l.id).mergeSort fun l m =>
    decide (l.expiresAt < m.expiresAt) || l.expiresAt == m.expiresAt && decide (l.id ≤ m.id)).take limit).map (·.id)

def step (tenants : Tenants) : Action n → Option (State n)
  | .elapse duration => some { s with now := s.now + duration }
  | .acquire c request =>
    if s.acquires c = none ∧ request.validate then some (s.set c (some ⟨request, .organization, none, []⟩))
    else none
  | .receive c =>
    match s.acquires c with
    | some a => if a.timestamp = none then some (s.set c (some { a with timestamp := some s.now })) else none
    | none => none
  | .run c =>
    match s.acquires c with
    | none => none
    | some a =>
      match a.timestamp with
      | none => none
      | some t =>
        if s.waits c a t then none
        else
          match a.statement with
          | .commit _ _ lease => some { s.set c none with leases := a.committed s.leases lease }
          | _ => some (s.set c (a.run tenants s.leases t))
  | .rollback c => some (s.set c none)
  | .release id instanceId =>
    let row : Lease → Bool := fun l => l.id == uuidValue id && l.gatewayInstanceId == instanceId
    if s.leases.any (fun l => row l && s.locked l.id) then none
    else some { s with leases := s.leases.filter fun l => !row l }
  | .reapExpired limit => some { s with leases := s.leases.filter fun l => !(s.reapable limit).contains l.id }

end State

/-! ### What a run keeps -/

/-- Every organization and every project is within its limit. -/
def Within (tenants : Tenants) (t : ℕ) (leases : List Lease) : Prop :=
  (∀ o ∈ tenants.organizations, usage (ofOrganization o.id) t leases ≤ o.limit.bound) ∧
  ∀ p ∈ tenants.projects, usage (ofProject p.organizationId p.id) t leases ≤ p.limit.bound

section Usage

variable {t t' : ℕ} {leases leases' : List Lease} {scope : Lease → Bool} {l : Lease}

theorem usage_nonneg (l : Lease) : 0 ≤ l.usage := ⟨Nat.zero_le _, Nat.zero_le _⟩

theorem usage_antitone (h : t ≤ t') : usage scope t' leases ≤ usage scope t leases :=
  load_antitone usage_nonneg h

theorem usage_of_sublist (h : (leases'.filter scope).Sublist (leases.filter scope)) :
    usage scope t leases' ≤ usage scope t leases :=
  load_of_sublist usage_nonneg h

theorem usage_filter_le (q : Lease → Bool) : usage scope t (leases.filter q) ≤ usage scope t leases :=
  usage_of_sublist (List.filter_sublist.filter scope)

theorem usage_append : usage scope t (leases ++ leases') = usage scope t leases + usage scope t leases' :=
  load_append

theorem usage_singleton_le (l : Lease) : usage scope t [l] ≤ if scope l then l.usage else 0 := by
  rw [usage, load_singleton]
  cases scope l with
  | false => exact le_rfl
  | true =>
    rw [Bool.true_and, if_pos rfl]
    split_ifs
    exacts [le_rfl, usage_nonneg l]

end Usage

namespace Acquire

/-- The limits that the admission has read. -/
structure Limited (tenants : Tenants) (a : Acquire) (o p : StreamLimit) : Prop where
  organization : ⟨a.organizationId, o⟩ ∈ tenants.organizations
  project : ⟨a.projectId, a.organizationId, p⟩ ∈ tenants.projects

/-- The leases leave room for something more at the time. -/
def Margin (a : Acquire) (o p : StreamLimit) (additional : Usage) (t : ℕ) (leases : List Lease) : Prop :=
  Streams.usage (ofOrganization a.organizationId) t leases + additional ≤ o.bound ∧
    Streams.usage (ofProject a.organizationId a.projectId) t leases + additional ≤ p.bound

/-- What an admission knows before its next statement. -/
def Sound (tenants : Tenants) (now : ℕ) (leases : List Lease) (a : Acquire) : Prop :=
  (∀ t, a.timestamp = some t → t ≤ now) ∧
  match a.statement with
  | .organization | .project none => True
  | .project (some o) => ⟨a.organizationId, o⟩ ∈ tenants.organizations
  | .cleanup o p => a.Limited tenants o p ∧ ∀ t, a.timestamp = some t → a.Margin o p 0 t leases
  | .existing o p => a.Limited tenants o p ∧ ∃ t ≤ now, a.Margin o p 0 t leases ∧
      ∀ l ∈ a.visible leases, l.organizationId = a.organizationId → t < l.expiresAt
  | .usage o p none => a.Limited tenants o p ∧
      ∀ l ∈ a.visible leases, l.organizationId = a.organizationId → l.id ≠ a.leaseId
  -- The lease that is renewed was live when the usage was last known to be within the limits.
  | .usage o p (some _) | .upsert o p (some _) => a.Limited tenants o p ∧
      (∃ l ∈ a.visible leases, l.id = a.leaseId) ∧ ∃ t ≤ now, a.Margin o p 0 t leases ∧
      ∀ l ∈ a.visible leases, l.organizationId = a.organizationId → t < l.expiresAt
  | .upsert o p none => a.Limited tenants o p ∧
      (∀ l ∈ a.visible leases, l.organizationId = a.organizationId → l.id ≠ a.leaseId) ∧
      ∃ t ≤ now, a.Margin o p a.request.usage t (a.visible leases)
  | .commit o p lease => a.Limited tenants o p ∧
      (lease.id = a.leaseId ∧ lease.organizationId = a.organizationId ∧ lease.projectId = a.projectId) ∧
      ∃ t ≤ now, a.Margin o p lease.usage t ((a.visible leases).filter fun l => !(l.id == lease.id))

/-- Nothing is added to the organization of the admission, and the rows that it has locked are kept. -/
structure Frame (a : Acquire) (leases leases' : List Lease) : Prop where
  sub : (leases'.filter (ofOrganization a.organizationId)).Sublist
    (leases.filter (ofOrganization a.organizationId))
  kept : ∀ l ∈ leases, a.locks l.id = true → l ∈ leases'

section Sound

variable {a a' : Acquire} {tenants : Tenants} {now now' t : ℕ} {leases leases' : List Lease} {o p : StreamLimit}
  {additional : Usage} {l lease : Lease}

theorem mem_visible : l ∈ a.visible leases ↔ l ∈ leases ∧ l.id ∉ a.deleted := by
  simp [visible]

theorem filter_sub (h : (leases'.filter (ofOrganization a.organizationId)).Sublist
      (leases.filter (ofOrganization a.organizationId))) (q : Lease → Bool) :
    ((leases'.filter q).filter (ofOrganization a.organizationId)).Sublist
      ((leases.filter q).filter (ofOrganization a.organizationId)) := by
  rw [List.filter_comm (ofOrganization a.organizationId) q leases',
    List.filter_comm (ofOrganization a.organizationId) q leases]
  exact h.filter q

theorem Margin.sub (h : a.Margin o p additional t leases)
    (hsub : (leases'.filter (ofOrganization a.organizationId)).Sublist
      (leases.filter (ofOrganization a.organizationId))) : a.Margin o p additional t leases' := by
  have hproject : (leases'.filter (ofProject a.organizationId a.projectId)).Sublist
      (leases.filter (ofProject a.organizationId a.projectId)) := by
    have hsplit : ofProject a.organizationId a.projectId
        = fun l => l.projectId == a.projectId && ofOrganization a.organizationId l :=
      funext fun l => Bool.and_comm _ _
    rw [hsplit, ← List.filter_filter, ← List.filter_filter]
    exact hsub.filter _
  exact ⟨(add_le_add_left (usage_of_sublist hsub) _).trans h.1,
    (add_le_add_left (usage_of_sublist hproject) _).trans h.2⟩

theorem Frame.mem (h : a.Frame leases leases') (hl : l ∈ leases') (horg : l.organizationId = a.organizationId) :
    l ∈ leases :=
  (List.mem_filter.mp (h.sub.subset (List.mem_filter.mpr ⟨hl, by simp [ofOrganization, horg]⟩))).1

theorem Frame.visible (h : a.Frame leases leases') (hl : l ∈ a.visible leases')
    (horg : l.organizationId = a.organizationId) : l ∈ a.visible leases := by
  obtain ⟨hmem, hid⟩ := mem_visible.mp hl
  exact mem_visible.mpr ⟨h.mem hmem horg, hid⟩

/-- What an admission knows survives what happens beside it. -/
theorem Sound.frame (h : a.Sound tenants now leases) (hf : a.holds = true → a.Frame leases leases')
    (hnow : now ≤ now') : a.Sound tenants now' leases' := by
  obtain ⟨htime, h⟩ := h
  refine ⟨fun t ht => (htime t ht).trans hnow, ?_⟩
  cases hstmt : a.statement with
  | organization => trivial
  | project o =>
    cases o with
    | none => trivial
    | some o => simpa only [hstmt] using h
  | cleanup o p =>
    simp only [holds, hstmt, forall_true_left] at h hf
    exact ⟨h.1, fun t ht => (h.2 t ht).sub hf.sub⟩
  | existing o p =>
    simp only [holds, hstmt, forall_true_left] at h hf
    obtain ⟨hlim, t, ht, hmargin, hlive⟩ := h
    exact ⟨hlim, t, ht.trans hnow, hmargin.sub hf.sub, fun l hl horg => hlive l (hf.visible hl horg) horg⟩
  | usage o p current =>
    simp only [holds, hstmt, forall_true_left] at h hf
    cases current with
    | none => exact ⟨h.1, fun l hl horg => h.2 l (hf.visible hl horg) horg⟩
    | some current =>
      obtain ⟨hlim, ⟨l, hl, hid⟩, t, ht, hmargin, hlive⟩ := h
      obtain ⟨hmem, hdel⟩ := mem_visible.mp hl
      have hkept := hf.kept l hmem (by simp [locks, hstmt, hid])
      exact ⟨hlim, ⟨l, mem_visible.mpr ⟨hkept, hdel⟩, hid⟩, t, ht.trans hnow, hmargin.sub hf.sub,
        fun l hl horg => hlive l (hf.visible hl horg) horg⟩
  | upsert o p current =>
    simp only [holds, hstmt, forall_true_left] at h hf
    cases current with
    | none =>
      obtain ⟨hlim, habsent, t, ht, hmargin⟩ := h
      exact ⟨hlim, fun l hl horg => habsent l (hf.visible hl horg) horg, t, ht.trans hnow,
        hmargin.sub (filter_sub hf.sub _)⟩
    | some current =>
      obtain ⟨hlim, ⟨l, hl, hid⟩, t, ht, hmargin, hlive⟩ := h
      obtain ⟨hmem, hdel⟩ := mem_visible.mp hl
      have hkept := hf.kept l hmem (by simp [locks, hstmt, hid])
      exact ⟨hlim, ⟨l, mem_visible.mpr ⟨hkept, hdel⟩, hid⟩, t, ht.trans hnow, hmargin.sub hf.sub,
        fun l hl horg => hlive l (hf.visible hl horg) horg⟩
  | commit o p lease =>
    simp only [holds, hstmt, forall_true_left] at h hf
    obtain ⟨hlim, hids, t, ht, hmargin⟩ := h
    exact ⟨hlim, hids, t, ht.trans hnow, hmargin.sub (filter_sub (filter_sub hf.sub _) _)⟩

theorem next_some {statement : Statement} (h : a.next statement = some a') :
    a' = { a with statement, timestamp := none } :=
  (Option.some.inj h).symm

variable {scope : Lease → Bool}

theorem usage_visible_le : Streams.usage scope t (a.visible leases) ≤ Streams.usage scope t leases :=
  usage_filter_le _

/-- **The statements of an admission.**  Each leaves what the next one relies on. -/
theorem Sound.run (h : a.Sound tenants now leases) (ht : a.timestamp = some t)
    (hrun : a.run tenants leases t = some a') : a'.Sound tenants now leases := by
  obtain ⟨htime, h⟩ := h
  have hnow := htime t ht
  have hnone (t' : ℕ) (h : none = some t') : t' ≤ now := nomatch h
  cases hstmt : a.statement with
  | organization =>
    simp only [Acquire.run, hstmt] at hrun
    rw [next_some hrun]
    refine ⟨hnone, ?_⟩
    cases hfind : tenants.organizations.find? fun o => decide (o.id = a.organizationId) with
    | none => trivial
    | some row =>
      obtain ⟨hmem, hid⟩ := (find?_key_iff tenants.organizations_key).mp hfind
      show (⟨a.organizationId, row.limit⟩ : OrganizationRow) ∈ tenants.organizations
      rw [← hid]
      exact hmem
  | project organizationLimit =>
    simp only [Acquire.run, hstmt] at h hrun
    split at hrun
    · next o row hfind =>
      rw [next_some hrun]
      have hrow := List.find?_some hfind
      simp only [Bool.and_eq_true, decide_eq_true_eq, beq_iff_eq] at hrow
      refine ⟨hnone, ⟨h, ?_⟩, fun t h => nomatch h⟩
      show (⟨a.projectId, a.organizationId, row.limit⟩ : ProjectRow) ∈ tenants.projects
      rw [← hrow.1, ← hrow.2]
      exact List.mem_of_find?_eq_some hfind
    · cases hrun
  | cleanup o p =>
    simp only [Acquire.run, hstmt] at h hrun
    rw [next_some hrun]
    refine ⟨hnone, ⟨h.1.organization, h.1.project⟩, t, hnow, h.2 t ht, fun l hl horg => ?_⟩
    obtain ⟨hmem, hdel⟩ := mem_visible.mp hl
    by_contra hexpired
    refine hdel (List.mem_map_of_mem (List.mem_filter.mpr ⟨hmem, ?_⟩))
    simpa using ⟨horg, not_lt.mp hexpired⟩
  | existing o p =>
    simp only [Acquire.run, hstmt] at h hrun
    obtain ⟨hlim, hrest⟩ := h
    cases hfind : (a.visible leases).find? fun l => l.id == a.leaseId with
    | none =>
      rw [hfind] at hrun
      rw [next_some hrun]
      have habsent (l : Lease) (hl : l ∈ a.visible leases) : l.id ≠ a.leaseId := by
        simpa using List.find?_eq_none.mp hfind l hl
      exact ⟨hnone, ⟨hlim.organization, hlim.project⟩, fun l hl _ => habsent l hl⟩
    | some current =>
      rw [hfind] at hrun
      dsimp only at hrun
      split_ifs at hrun
      rw [next_some hrun]
      have hid : current.id = a.leaseId := by simpa using List.find?_some hfind
      exact ⟨hnone, ⟨hlim.organization, hlim.project⟩, ⟨current, List.mem_of_find?_eq_some hfind, hid⟩, hrest⟩
  | usage o p current =>
    simp only [Acquire.run, hstmt] at h hrun
    cases current with
    | none =>
      simp only [Option.isSome_none, Bool.false_eq_true, if_false] at hrun
      split_ifs at hrun with hfits
      rw [next_some hrun]
      exact ⟨hnone, ⟨h.1.organization, h.1.project⟩, h.2, t, hnow, hfits⟩
    | some current =>
      obtain ⟨hlim, hrest⟩ := h
      simp only [Option.isSome_some, if_true] at hrun
      split_ifs at hrun
      rw [next_some hrun]
      exact ⟨hnone, ⟨hlim.organization, hlim.project⟩, hrest⟩
  | upsert o p current =>
    simp only [Acquire.run, hstmt] at h hrun
    cases hfind : (a.visible leases).find? fun l => l.id == a.leaseId with
    | none =>
      rw [hfind] at hrun
      rw [next_some hrun]
      cases current with
      | none =>
        obtain ⟨hlim, -, t', ht', hmargin⟩ := h
        exact ⟨hnone, ⟨hlim.organization, hlim.project⟩, ⟨rfl, rfl, rfl⟩, t', ht',
          hmargin.sub (List.filter_sublist.filter _)⟩
      | some current =>
        obtain ⟨-, ⟨l, hl, hid⟩, -⟩ := h
        exact absurd hid (by simpa using List.find?_eq_none.mp hfind l hl)
    | some row =>
      rw [hfind] at hrun
      dsimp only at hrun
      split_ifs at hrun with hrenews
      simp only [StreamAdmissionRequest.renews, decide_eq_true_eq] at hrenews
      obtain ⟨horg, hproject, -⟩ := hrenews
      have hid : row.id = a.leaseId := by simpa using List.find?_some hfind
      have hrow := List.mem_of_find?_eq_some hfind
      rw [next_some hrun]
      cases current with
      | none => exact absurd hid (h.2.1 row hrow horg)
      | some current =>
        obtain ⟨hlim, -, t', ht', hmargin, hlive⟩ := h
        have hback {scope : Lease → Bool} (hscope : scope row = true) : Streams.usage scope t'
            ((a.visible leases).filter fun l => !(l.id == row.id)) + row.usage ≤ Streams.usage scope t' leases :=
          (load_without_add_le usage_nonneg hrow (beq_self_eq_true row.id) hscope (hlive row hrow horg)).trans
            usage_visible_le
        rw [Margin, add_zero, add_zero] at hmargin
        have horganization : ofOrganization a.organizationId row = true := beq_iff_eq.mpr horg
        have hscope : ofProject a.organizationId a.projectId row = true :=
          Bool.and_eq_true_iff.mpr ⟨horganization, beq_iff_eq.mpr hproject⟩
        exact ⟨hnone, ⟨hlim.organization, hlim.project⟩, ⟨hid, horg, hproject⟩, t', ht',
          (hback horganization).trans hmargin.1, (hback hscope).trans hmargin.2⟩
  | commit o p lease =>
    simp only [Acquire.run, hstmt] at hrun
    cases hrun

theorem Limited.margin (h : a.Limited tenants o p) (hw : Within tenants now leases) :
    a.Margin o p 0 now leases := by
  rw [Margin, add_zero, add_zero]
  exact ⟨hw.1 ⟨a.organizationId, o⟩ h.organization, hw.2 ⟨a.projectId, a.organizationId, p⟩ h.project⟩

/-- When the server receives the `DELETE`, the leases are within the limits. -/
theorem Sound.receive (h : a.Sound tenants now leases) (hw : Within tenants now leases) :
    Acquire.Sound tenants now leases { a with timestamp := some now } := by
  obtain ⟨-, h⟩ := h
  refine ⟨fun t ht => (Option.some.inj ht).ge, ?_⟩
  cases hstmt : a.statement with
  | cleanup o p =>
    simp only [hstmt] at h
    refine ⟨⟨h.1.organization, h.1.project⟩, fun t ht => ?_⟩
    cases ht
    exact h.1.margin hw
  | organization => trivial
  | project o =>
    cases o with
    | none => trivial
    | some o =>
      simp only [hstmt] at h
      exact h
  | existing o p =>
    simp only [hstmt] at h
    exact ⟨⟨h.1.organization, h.1.project⟩, h.2⟩
  | usage o p current =>
    simp only [hstmt] at h
    cases current <;> exact ⟨⟨h.1.organization, h.1.project⟩, h.2⟩
  | upsert o p current =>
    simp only [hstmt] at h
    cases current <;> exact ⟨⟨h.1.organization, h.1.project⟩, h.2⟩
  | commit o p lease =>
    simp only [hstmt] at h
    exact ⟨⟨h.1.organization, h.1.project⟩, h.2⟩

/-- A statement keeps the organization, and leaves it locked or locks it. -/
theorem run_holds (hrun : a.run tenants leases t = some a') :
    a.holds = true ∨ a.statement = .organization := by
  cases hstmt : a.statement with
  | organization => exact Or.inr rfl
  | project o =>
    cases o with
    | none => simp [Acquire.run, hstmt] at hrun
    | some o => exact Or.inl (by simp [holds, hstmt])
  | _ => exact Or.inl (by simp [holds, hstmt])

theorem run_request (hrun : a.run tenants leases t = some a') : a'.request = a.request := by
  cases hstmt : a.statement <;> simp only [Acquire.run, hstmt] at hrun <;> try split at hrun
  all_goals try split_ifs at hrun
  all_goals cases hrun
  all_goals rfl

/-- The rows that a statement locks. -/
theorem run_locks (hrun : a.run tenants leases t = some a') {id : String} (h : a'.locks id = true) :
    a.locks id = true ∨ match a.statement with
      | .cleanup _ _ => ∃ l ∈ leases, l.id = id ∧ l.organizationId = a.organizationId ∧ l.expiresAt ≤ t
      | .existing _ _ => id = a.leaseId ∧ ∃ l ∈ a.visible leases, l.id = id
      | .upsert _ _ _ => id = a.leaseId
      | _ => False := by
  have hdeleted (hid : a.deleted.contains id = true) : a.locks id = true := by
    rw [locks, hid, Bool.true_or]
  cases hstmt : a.statement with
  | organization =>
    simp only [Acquire.run, hstmt] at hrun
    rw [next_some hrun] at h
    exact Or.inl (hdeleted (by simpa [locks] using h))
  | project organizationLimit =>
    simp only [Acquire.run, hstmt] at hrun
    split at hrun
    · rw [next_some hrun] at h
      exact Or.inl (hdeleted (by simpa [locks] using h))
    · cases hrun
  | cleanup o p =>
    simp only [Acquire.run, hstmt] at hrun
    rw [next_some hrun] at h
    simp only [locks, Bool.or_false, List.contains_iff_mem] at h
    obtain ⟨l, hl, rfl⟩ := List.mem_map.mp h
    obtain ⟨hmem, hl⟩ := List.mem_filter.mp hl
    exact Or.inr ⟨l, hmem, rfl, by simpa using hl⟩
  | existing o p =>
    simp only [Acquire.run, hstmt] at hrun
    cases hfind : (a.visible leases).find? fun l => l.id == a.leaseId with
    | none =>
      rw [hfind] at hrun
      rw [next_some hrun] at h
      exact Or.inl (hdeleted (by simpa [locks] using h))
    | some current =>
      rw [hfind] at hrun
      dsimp only at hrun
      split_ifs at hrun
      rw [next_some hrun] at h
      rcases Bool.or_eq_true_iff.mp h with h | h
      · exact Or.inl (hdeleted h)
      · have hid : current.id = a.leaseId := by simpa using List.find?_some hfind
        have hthis : a.leaseId = id := beq_iff_eq.mp h
        exact Or.inr ⟨hthis.symm, current, List.mem_of_find?_eq_some hfind, hid.trans hthis⟩
  | usage o p current =>
    simp only [Acquire.run, hstmt] at hrun
    cases current with
    | none =>
      simp only [Option.isSome_none, Bool.false_eq_true, if_false] at hrun
      split_ifs at hrun
      rw [next_some hrun] at h
      exact Or.inl (hdeleted (by simpa [locks] using h))
    | some current =>
      simp only [Option.isSome_some, if_true] at hrun
      split_ifs at hrun
      rw [next_some hrun] at h
      rw [locks, hstmt]
      exact Or.inl h
  | upsert o p current =>
    have hcommit {lease : Lease} (hnext : a.next (.commit o p lease) = some a') :
        a.locks id = true ∨ id = a.leaseId := by
      rw [next_some hnext] at h
      rcases Bool.or_eq_true_iff.mp h with h | h
      · exact Or.inl (hdeleted h)
      · exact Or.inr (beq_iff_eq.mp h).symm
    simp only [Acquire.run, hstmt] at hrun
    split at hrun
    · exact hcommit hrun
    · split_ifs at hrun
      exact hcommit hrun
  | commit o p lease =>
    simp only [Acquire.run, hstmt] at hrun
    cases hrun

/-- What a commit leaves of a scope. -/
theorem usage_committed_le (h : t ≤ now) :
    Streams.usage scope now (a.committed leases lease)
      ≤ Streams.usage scope t ((a.visible leases).filter fun l => !(l.id == lease.id))
        + if scope lease then lease.usage else 0 := by
  rw [committed, usage_append]
  exact add_le_add (usage_antitone h) (usage_singleton_le lease)

/-- A commit adds nothing to another organization. -/
theorem committed_sub (h : scope lease = false) :
    ((a.committed leases lease).filter scope).Sublist (leases.filter scope) := by
  rw [committed, List.filter_append, List.filter_cons_of_neg (by simp [h]), List.filter_nil, List.append_nil]
  exact (List.filter_sublist.trans List.filter_sublist).filter scope

end Sound

end Acquire

/-! ### Every run -/

namespace State

variable {n : ℕ} {tenants : Tenants} {s u : State n} {c d : Fin n} {a a' b : Acquire} {t : ℕ}

/-- What every reachable state satisfies. -/
structure Good (tenants : Tenants) (s : State n) : Prop where
  within : Within tenants s.now s.leases
  homed : ∀ l ∈ s.leases, ∃ p ∈ tenants.projects, p.id = l.projectId ∧ p.organizationId = l.organizationId
  sound : ∀ c a, s.acquires c = some a → a.Sound tenants s.now s.leases
  organizations : ∀ c d a b, c ≠ d → s.acquires c = some a → s.acquires d = some b → a.holds = true →
    b.holds = true → a.organizationId ≠ b.organizationId
  rows : ∀ c d a b, c ≠ d → s.acquires c = some a → s.acquires d = some b → ∀ id, a.locks id = true →
    b.locks id = false

/-- No admission is in progress, and every organization and project is within its limit. -/
structure Start (tenants : Tenants) (s : State n) : Prop where
  within : Within tenants s.now s.leases
  homed : ∀ l ∈ s.leases, ∃ p ∈ tenants.projects, p.id = l.projectId ∧ p.organizationId = l.organizationId
  idle : ∀ c, s.acquires c = none

theorem Start.good (h : s.Start tenants) : s.Good tenants where
  within := h.within
  homed := h.homed
  sound c a ha := by rw [h.idle c] at ha; cases ha
  organizations c d a b _ ha := by rw [h.idle c] at ha; cases ha
  rows c d a b _ ha := by rw [h.idle c] at ha; cases ha

theorem Within.mono {leases leases' : List Lease} {now now' : ℕ} (h : Within tenants now leases)
    (hsub : leases'.Sublist leases) (hnow : now ≤ now') : Within tenants now' leases' :=
  ⟨fun o ho => ((usage_antitone hnow).trans (usage_of_sublist (hsub.filter _))).trans (h.1 o ho),
    fun p hp => ((usage_antitone hnow).trans (usage_of_sublist (hsub.filter _))).trans (h.2 p hp)⟩

/-- Time passes, and leases that nobody has locked are taken out. -/
theorem Good.shrink {leases' : List Lease} {now' : ℕ} (h : s.Good tenants) (hnow : s.now ≤ now')
    (hsub : leases'.Sublist s.leases) (hkept : ∀ l ∈ s.leases, s.locked l.id = true → l ∈ leases') :
    Good tenants { s with now := now', leases := leases' } where
  within := Within.mono h.within hsub hnow
  homed l hl := h.homed l (hsub.subset hl)
  sound c a ha := (h.sound c a ha).frame (fun _ => ⟨hsub.filter _, fun l hl hlock =>
    hkept l hl (decide_eq_true ⟨c, by rw [show s.acquires c = some a from ha]; exact hlock⟩)⟩) hnow
  organizations := h.organizations
  rows := h.rows

/-- One connection goes on with what it holds, or with what nobody else holds. -/
theorem Good.set (h : s.Good tenants) {o : Option Acquire}
    (hsound : ∀ a', o = some a' → a'.Sound tenants s.now s.leases)
    (hholds : ∀ a', o = some a' → a'.holds = true → ∀ d b, d ≠ c → s.acquires d = some b → b.holds = true →
      b.organizationId ≠ a'.organizationId)
    (hlocks : ∀ a', o = some a' → ∀ id, a'.locks id = true → ∀ d b, d ≠ c → s.acquires d = some b →
      b.locks id = false) : (s.set c o).Good tenants where
  within := h.within
  homed := h.homed
  sound d b hb := by
    rcases eq_or_ne d c with rfl | hd
    · exact hsound b (by simpa [State.set] using hb)
    · exact h.sound d b (by simpa [State.set, hd] using hb)
  organizations d e b b' hde hb hb' hhold hhold' := by
    rcases eq_or_ne d c with rfl | hd
    · exact (hholds b (by simpa [State.set] using hb) hhold e b' hde.symm
        (by simpa [State.set, hde.symm] using hb') hhold').symm
    · have hb₀ : s.acquires d = some b := by simpa [State.set, hd] using hb
      rcases eq_or_ne e c with rfl | he
      · exact hholds b' (by simpa [State.set] using hb') hhold' d b hd hb₀ hhold
      · exact h.organizations d e b b' hde hb₀ (by simpa [State.set, he] using hb') hhold hhold'
  rows d e b b' hde hb hb' id hlock := by
    rcases eq_or_ne d c with rfl | hd
    · exact hlocks b (by simpa [State.set] using hb) id hlock e b' hde.symm
        (by simpa [State.set, hde.symm] using hb')
    · have hb₀ : s.acquires d = some b := by simpa [State.set, hd] using hb
      rcases eq_or_ne e c with rfl | he
      · by_contra hlock'
        have hfree := hlocks b' (by simpa [State.set] using hb') id (by simpa using hlock') d b hd hb₀
        rw [hlock] at hfree
        exact Bool.noConfusion hfree
      · exact h.rows d e b b' hde hb₀ (by simpa [State.set, he] using hb') id hlock

theorem Good.clear (h : s.Good tenants) : (s.set c none).Good tenants :=
  h.set (fun _ h => nomatch h) (fun _ h => nomatch h) (fun _ h => nomatch h)

/-- A row that the statement did not wait for is locked by nobody else. -/
theorem lockedByOther_false {id : String} (h : s.lockedByOther c id = false) (hd : d ≠ c)
    (hb : s.acquires d = some b) : b.locks id = false := by
  by_contra hlock
  refine absurd (of_decide_eq_false h) (not_not.mpr ⟨d, hd, ?_⟩)
  rw [hb]
  simpa using hlock

/-- A statement other than the commit. -/
theorem Good.run (h : s.Good tenants) (ha : s.acquires c = some a) (ht : a.timestamp = some t)
    (hwait : s.waits c a t = false) : (s.set c (a.run tenants s.leases t)).Good tenants := by
  refine h.set (fun a' hrun => (h.sound c a ha).run ht hrun) (fun a' hrun _ d b hd hb hhold => ?_)
    (fun a' hrun id hlock d b hd hb => ?_)
  · have horg : a'.organizationId = a.organizationId := by
      rw [Acquire.organizationId, Acquire.run_request hrun, Acquire.organizationId]
    rw [horg]
    rcases Acquire.run_holds hrun with hheld | hstmt
    · exact h.organizations d c b a hd hb ha hhold hheld
    · intro heq
      simp only [waits, hstmt] at hwait
      refine absurd (of_decide_eq_false hwait) (not_not.mpr ⟨d, hd, ?_⟩)
      rw [hb]
      simpa using ⟨hhold, heq⟩
  · rcases Acquire.run_locks hrun hlock with hheld | hnew
    · by_contra hlock'
      have hfree := h.rows d c b a hd hb ha id (by simpa using hlock')
      rw [hheld] at hfree
      exact Bool.noConfusion hfree
    · cases hstmt : a.statement with
      | cleanup o p =>
        simp only [waits, hstmt] at hwait hnew
        obtain ⟨l, hl, rfl, horg, hexpired⟩ := hnew
        have hfree := List.any_eq_false.mp hwait l hl
        exact lockedByOther_false (by simpa [horg, hexpired] using hfree) hd hb
      | existing o p =>
        simp only [waits, hstmt] at hwait hnew
        obtain ⟨rfl, l, hl, hid⟩ := hnew
        have hany : ((a.visible s.leases).any fun l => l.id == a.leaseId) = true :=
          List.any_eq_true.mpr ⟨l, hl, beq_iff_eq.mpr hid⟩
        rw [hany, Bool.true_and] at hwait
        exact lockedByOther_false hwait hd hb
      | upsert o p current =>
        simp only [waits, hstmt] at hwait hnew
        rw [hnew]
        exact lockedByOther_false hwait hd hb
      | _ => simp only [hstmt] at hnew

/-- **The commit.**  The new lease fits beside the others, which the lock has kept from growing. -/
theorem Good.commit {o p : StreamLimit} {lease : Lease} (h : s.Good tenants) (ha : s.acquires c = some a)
    (hstmt : a.statement = .commit o p lease) :
    Good tenants { s.set c none with leases := a.committed s.leases lease } := by
  have hsound := (h.sound c a ha).2
  simp only [hstmt] at hsound
  obtain ⟨hlim, ⟨hid, horg, hproject⟩, t, ht, hmargin⟩ := hsound
  have hclear := h.clear (c := c)
  refine ⟨⟨fun row hrow => ?_, fun row hrow => ?_⟩, fun l hl => ?_, fun d b hb => ?_, hclear.organizations,
    hclear.rows⟩
  · -- The organization of the lease is within its limit, and no other organization has changed.
    rcases eq_or_ne row.id a.organizationId with heq | hne
    · have hrow' : row = ⟨a.organizationId, o⟩ := key_inj tenants.organizations_key hrow hlim.organization heq
      refine (Acquire.usage_committed_le ht).trans ?_
      rw [hrow', if_pos (show ofOrganization a.organizationId lease = true from beq_iff_eq.mpr horg)]
      exact hmargin.1
    · have hother : ofOrganization row.id lease = false :=
        beq_false_of_ne (fun heq => hne (by rw [← horg, heq]))
      exact (usage_of_sublist (Acquire.committed_sub hother)).trans (h.within.1 row hrow)
  · rcases eq_or_ne row.id a.projectId with heq | hne
    · have hrow' : row = ⟨a.projectId, a.organizationId, p⟩ :=
        key_inj tenants.projects_key hrow hlim.project heq
      have hscope : ofProject a.organizationId a.projectId lease = true :=
        Bool.and_eq_true_iff.mpr ⟨beq_iff_eq.mpr horg, beq_iff_eq.mpr hproject⟩
      refine (Acquire.usage_committed_le ht).trans ?_
      rw [hrow', if_pos hscope]
      exact hmargin.2
    · have hother : ofProject row.organizationId row.id lease = false := by
        have hproj : (lease.projectId == row.id) = false := beq_false_of_ne fun heq => hne (by rw [← hproject, heq])
        rw [ofProject, hproj, Bool.and_false]
      exact (usage_of_sublist (Acquire.committed_sub hother)).trans (h.within.2 row hrow)
  · rcases List.mem_append.mp hl with hl | hl
    · exact h.homed l (Acquire.mem_visible.mp (List.mem_filter.mp hl).1).1
    · rw [List.mem_singleton.mp hl]
      exact ⟨_, hlim.project, hproject.symm, horg.symm⟩
  · -- What the other admissions know is about other organizations and other rows.
    have hd : d ≠ c := by
      rintro rfl
      simp [State.set] at hb
    have hb₀ : s.acquires d = some b := by simpa [State.set, hd] using hb
    have hheld : a.holds = true := by simp [Acquire.holds, hstmt]
    refine (h.sound d b hb₀).frame (fun hhold => ⟨Acquire.committed_sub ?_, fun l hl hlock => ?_⟩) le_rfl
    · have hne := h.organizations d c b a hd hb₀ ha hhold hheld
      exact beq_false_of_ne fun heq => hne (by rw [← horg, heq])
    · have hfree := h.rows d c b a hd hb₀ ha l.id hlock
      simp only [Acquire.locks, hstmt, Bool.or_eq_false_iff, List.contains_eq_mem, decide_eq_false_iff_not,
        beq_eq_false_iff_ne] at hfree
      refine List.mem_append_left _ (List.mem_filter.mpr ⟨Acquire.mem_visible.mpr ⟨hl, hfree.1⟩, ?_⟩)
      rw [hid]
      simpa using hfree.2.symm

/-- **One step.** -/
theorem Good.step {action : Action n} (h : s.Good tenants) (hstep : s.step tenants action = some u) :
    u.Good tenants := by
  cases action with
  | elapse duration =>
    cases hstep
    exact h.shrink (Nat.le_add_right _ _) (List.Sublist.refl _) fun l hl _ => hl
  | acquire c request =>
    simp only [State.step] at hstep
    split_ifs at hstep
    cases hstep
    refine h.set (fun a' ha' => ?_) (fun a' ha' hhold => ?_) (fun a' ha' id hlock => ?_)
    · cases ha'
      exact ⟨fun t ht => (Option.some_ne_none t ht.symm).elim, trivial⟩
    · cases ha'
      exact absurd hhold Bool.false_ne_true
    · cases ha'
      exact absurd hlock Bool.false_ne_true
  | receive c =>
    simp only [State.step] at hstep
    split at hstep
    · next a ha =>
      split_ifs at hstep
      cases hstep
      refine h.set (fun a' ha' => ?_) (fun a' ha' hhold d b hd hb hhold' => ?_) (fun a' ha' id hlock d b hd hb => ?_)
      · cases ha'
        exact (h.sound c a ha).receive h.within
      · cases ha'
        exact h.organizations d c b a hd hb ha hhold' hhold
      · cases ha'
        by_contra hlock'
        have hfree := h.rows d c b a hd hb ha id (by simpa using hlock')
        rw [show a.locks id = true from hlock] at hfree
        exact Bool.noConfusion hfree
    · cases hstep
  | run c =>
    simp only [State.step] at hstep
    split at hstep
    · cases hstep
    · next a ha =>
      split at hstep
      · cases hstep
      · next t ht =>
        split_ifs at hstep with hwait
        split at hstep
        · next o p lease hstmt =>
          cases hstep
          exact h.commit ha hstmt
        · cases hstep
          exact h.run ha ht (by simpa using hwait)
  | rollback c =>
    cases hstep
    exact h.clear
  | release id instanceId =>
    simp only [State.step] at hstep
    split_ifs at hstep with hlocked
    cases hstep
    refine h.shrink le_rfl List.filter_sublist fun l hl hlock => List.mem_filter.mpr ⟨hl, ?_⟩
    by_contra hrow
    exact hlocked (List.any_eq_true.mpr ⟨l, hl, by simpa [hlock] using hrow⟩)
  | reapExpired limit =>
    cases hstep
    refine h.shrink le_rfl List.filter_sublist fun l hl hlock => List.mem_filter.mpr ⟨hl, ?_⟩
    have hfree : l.id ∉ s.reapable limit := by
      intro hmem
      obtain ⟨m, hm, hid⟩ := List.mem_map.mp hmem
      have hm := (List.mem_filter.mp (List.mem_mergeSort.mp (List.mem_of_mem_take hm))).2
      rw [hid, hlock] at hm
      simp at hm
    simpa using hfree

end State

/-- Whatever the order of the statements of acquisitions, renewals, releases and reaps, and however much time
passes between them, the unexpired leases of every organization and of every project are within its limits. -/
theorem stream_limits_hold {n : ℕ} {tenants : Tenants} {s u : State n} {actions : List (Action n)}
    (h : Run (fun s a t => s.step tenants a = some t) s actions u) (hs : s.Start tenants) :
    (∀ o ∈ tenants.organizations, usage (fun l => l.organizationId == o.id) u.now u.leases ≤
      (o.limit.maxGatewayStreams, o.limit.maxGatewayBandwidthBps)) ∧
    ∀ p ∈ tenants.projects, usage (fun l => l.projectId == p.id) u.now u.leases ≤
      (p.limit.maxGatewayStreams, p.limit.maxGatewayBandwidthBps) := by
  have hgood : u.Good tenants := h.invariant (fun _ _ _ hgood hstep => hgood.step hstep) hs.good
  refine ⟨hgood.within.1, fun p hp => ?_⟩
  -- A lease of the project is a lease of its organization, because the two are one foreign key.
  have hsame : usage (fun l => l.projectId == p.id) u.now u.leases
      = usage (ofProject p.organizationId p.id) u.now u.leases := by
    refine sumWhere_congr fun l hl => ?_
    obtain ⟨q, hq, hid, horg⟩ := hgood.homed l hl
    have hscope : ofProject p.organizationId p.id l = (l.projectId == p.id) := by
      rw [ofProject]
      cases heq : l.projectId == p.id with
      | false => rw [Bool.and_false]
      | true =>
        have hqp : q = p := key_inj tenants.projects_key hq hp (hid.trans (beq_iff_eq.mp heq))
        rw [← horg, hqp, beq_self_eq_true, Bool.true_and]
    rw [hscope]
  rw [hsame]
  exact hgood.within.2 p hp

/-- One stream of ten bytes per second is all that the organization and its project may have. -/
def sampleTenants : Tenants where
  organizations := [⟨"00000000-0000-4000-8000-000000000001", ⟨1, 10⟩⟩]
  projects := [⟨"00000000-0000-4000-8000-000000000002", "00000000-0000-4000-8000-000000000001", ⟨1, 10⟩⟩]
  organizations_key := by decide
  projects_key := by decide

def sampleRequest (id : String) : StreamAdmissionRequest :=
  { id, organizationId := "00000000-0000-4000-8000-000000000001",
    projectId := "00000000-0000-4000-8000-000000000002", authorityKind := .machineCapability, authorityId := "m1",
    instanceId := "gw1", bandwidthBytesPerSecond := 10 }

/-- A stream is admitted.  While it is renewed, its lease expires between the cleanup and the count, and another
gateway asks for a stream. -/
def sampleActions : List (Action 2) :=
  let first := "00000000-0000-4000-8000-00000000000a"
  let second := "00000000-0000-4000-8000-00000000000b"
  let statement (c : Fin 2) : List (Action 2) := [.receive c, .run c]
  [.acquire 0 (sampleRequest first)] ++ (List.replicate 7 (statement 0)).flatten
    ++ [.elapse 14999999, .acquire 0 (sampleRequest first), .acquire 1 (sampleRequest second), .receive 1]
    ++ (List.replicate 3 (statement 0)).flatten ++ [.elapse 1] ++ (List.replicate 4 (statement 0)).flatten ++ [.run 1]

theorem stream_limits_hold_renewal :
    ∃ u : State 2, usage (fun l => l.organizationId == "00000000-0000-4000-8000-000000000001") u.now u.leases = (1, 10) ∧
      usage (fun l => l.projectId == "00000000-0000-4000-8000-000000000002") u.now u.leases ≤ (1, 10) := by
  have hstart : State.Start sampleTenants (⟨0, [], fun _ => none⟩ : State 2) :=
    ⟨⟨by decide, by decide⟩, fun l hl => absurd hl List.not_mem_nil, fun _ => rfl⟩
  have hrun : ∃ u : State 2, Run (fun s a t => s.step sampleTenants a = some t) ⟨0, [], fun _ => none⟩ sampleActions u ∧
      usage (fun l => l.organizationId == "00000000-0000-4000-8000-000000000001") u.now u.leases = (1, 10) :=
    Run.of_test (by decide +kernel)
  obtain ⟨u, hrun, husage⟩ := hrun
  exact ⟨u, husage, (stream_limits_hold hrun hstart).2 _ (List.mem_singleton_self _)⟩

end Nehemiah.Streams
