import Nehemiah.Control.Streams

/-!
# Renewals of stream leases

What a gateway may rely on when it renews the lease of a stream: while the lease is unexpired, neither a reap nor a cleanup
takes its row, and no later commit puts an earlier expiry there.  Two transactions of one organization do not overlap after
their first statement, so the one that commits later has the later timestamp.
-/

namespace Nehemiah.Streams

open Lib

/-! ### What an action does -/

/-- What a statement leaves of its transaction: it is the cleanup, it has the lease to commit, or neither. -/
inductive Acquire.Runs (leases : List Lease) (t : ℕ) (a : Acquire) : Acquire → Prop
  | plain {statement : Statement} (hcommit : ∀ o p lease, statement ≠ .commit o p lease) :
    Runs leases t a { a with statement, timestamp := none }
  | cleanup {statement : Statement} (hcommit : ∀ o p lease, statement ≠ .commit o p lease) :
    Runs leases t a ⟨a.request, statement, none,
      (leases.filter fun l => l.organizationId == a.organizationId && decide (l.expiresAt ≤ t)).map (·.id)⟩
  | insert (o p : StreamLimit) (hholds : a.holds = true) :
    Runs leases t a { a with statement := .commit o p (a.request.lease (t + leaseMicroseconds)), timestamp := none }
  | renew (o p : StreamLimit) {row : Lease} (hholds : a.holds = true) (hrow : row ∈ leases) (hid : row.id = a.leaseId) :
    Runs leases t a { a with statement := .commit o p { row with expiresAt := t + leaseMicroseconds }, timestamp := none }

theorem Acquire.runs_of_run {tenants : Tenants} {leases : List Lease} {t : ℕ} {a a' : Acquire}
    (h : a.run tenants leases t = some a') : a.Runs leases t a' := by
  have hplain : ∀ {statement : Statement}, a.next statement = some a' → (∀ o p lease, statement ≠ .commit o p lease) →
      a.Runs leases t a' := by
    intro statement hnext hcommit
    rw [next_some hnext]
    exact .plain hcommit
  cases hstmt : a.statement with
  | organization =>
    simp only [Acquire.run, hstmt] at h
    exact hplain h (by simp)
  | project organizationLimit =>
    simp only [Acquire.run, hstmt] at h
    split at h
    · exact hplain h (by simp)
    · cases h
  | cleanup o p =>
    simp only [Acquire.run, hstmt] at h
    rw [next_some h]
    exact .cleanup (by simp)
  | existing o p =>
    simp only [Acquire.run, hstmt] at h
    split at h
    · split_ifs at h
      exact hplain h (by simp)
    · exact hplain h (by simp)
  | usage o p current =>
    simp only [Acquire.run, hstmt] at h
    split_ifs at h <;> exact hplain h (by simp)
  | upsert o p current =>
    have hholds : a.holds = true := by simp [Acquire.holds, hstmt]
    simp only [Acquire.run, hstmt] at h
    split at h
    · rw [next_some h]
      exact .insert o p hholds
    · next row hfind =>
      split_ifs at h
      rw [next_some h]
      exact .renew o p hholds (mem_visible.mp (List.mem_of_find?_eq_some hfind)).1 (by simpa using List.find?_some hfind)
  | commit o p lease =>
    simp only [Acquire.run, hstmt] at h
    cases h

namespace State

/-- What an action leaves, and when it can happen. -/
inductive Does {n : ℕ} (tenants : Tenants) (s : State n) : Action n → State n → Prop
  | elapse (duration : ℕ) : Does tenants s (.elapse duration) { s with now := s.now + duration }
  | acquire {c : Fin n} {request : StreamAdmissionRequest} (hfree : s.acquires c = none)
      (hvalid : request.validate = true) :
    Does tenants s (.acquire c request) (s.set c (some ⟨request, .organization, none, []⟩))
  | receive {c : Fin n} {a : Acquire} (ha : s.acquires c = some a) (ht : a.timestamp = none) :
    Does tenants s (.receive c) (s.set c (some { a with timestamp := some s.now }))
  | run {c : Fin n} {a : Acquire} {t : ℕ} (ha : s.acquires c = some a) (ht : a.timestamp = some t)
      (hwait : s.waits c a t = false) (hcommit : ∀ o p lease, a.statement ≠ .commit o p lease) :
    Does tenants s (.run c) (s.set c (a.run tenants s.leases t))
  | commit {c : Fin n} {a : Acquire} {o p : StreamLimit} {lease : Lease} (ha : s.acquires c = some a)
      (ht : a.timestamp ≠ none) (hstmt : a.statement = .commit o p lease) :
    Does tenants s (.run c) { s.set c none with leases := a.committed s.leases lease }
  | rollback (c : Fin n) : Does tenants s (.rollback c) (s.set c none)
  | release {id instanceId : String}
      (hfree : ∀ l ∈ s.leases, l.id = uuidValue id → l.gatewayInstanceId = instanceId → s.locked l.id = false) :
    Does tenants s (.release id instanceId)
      { s with leases := s.leases.filter fun l => !(l.id == uuidValue id && l.gatewayInstanceId == instanceId) }
  | reapExpired (limit : ℕ) :
    Does tenants s (.reapExpired limit) { s with leases := s.leases.filter fun l => !(s.reapable limit).contains l.id }

theorem does_of_step {n : ℕ} {tenants : Tenants} {s u : State n} {action : Action n}
    (h : s.step tenants action = some u) : s.Does tenants action u := by
  cases action with
  | elapse duration =>
    cases h
    exact .elapse duration
  | acquire c request =>
    simp only [State.step] at h
    split_ifs at h with hok
    cases h
    exact .acquire hok.1 hok.2
  | receive c =>
    simp only [State.step] at h
    split at h
    · next a ha =>
      split_ifs at h with ht
      cases h
      exact .receive ha ht
    · cases h
  | run c =>
    simp only [State.step] at h
    split at h
    · cases h
    · next a ha =>
      split at h
      · cases h
      · next t ht =>
        split_ifs at h with hwait
        split at h
        · next o p lease hstmt =>
          cases h
          exact .commit ha (by simp [ht]) hstmt
        · next hcommit =>
          cases h
          exact .run ha ht (Bool.eq_false_iff.mpr hwait) hcommit
  | rollback c =>
    cases h
    exact .rollback c
  | release id instanceId =>
    simp only [State.step] at h
    split_ifs at h with hlocked
    cases h
    refine .release fun l hl hid hinstance => ?_
    by_contra hlock
    exact hlocked (List.any_eq_true.mpr ⟨l, hl, by simpa [hid, hinstance] using hlock⟩)
  | reapExpired limit =>
    cases h
    exact .reapExpired limit

end State

/-! ### Timestamps -/

/-- What an admission knows of the expiries of the rows. -/
structure Acquire.Timed (now : ℕ) (leases : List Lease) (a : Acquire) : Prop where
  stamp : a.holds = true → ∀ t, a.timestamp = some t → ∀ l ∈ leases, l.organizationId = a.organizationId →
    l.expiresAt ≤ t + leaseMicroseconds
  commit : ∀ o p lease, a.statement = .commit o p lease → lease.expiresAt ≤ now + leaseMicroseconds ∧
    ∀ l ∈ leases, l.organizationId = a.organizationId → l.expiresAt ≤ lease.expiresAt
  spent : ∀ id ∈ a.deleted, ∀ l ∈ leases, l.id = id → l.expiresAt ≤ now

namespace State

variable {n : ℕ} {tenants : Tenants} {s u : State n} {c d : Fin n} {a a' b : Acquire} {t : ℕ}

structure Timed (s : State n) : Prop where
  key : (s.leases.map (·.id)).Nodup
  rows : ∀ l ∈ s.leases, l.expiresAt ≤ s.now + leaseMicroseconds
  acquires : ∀ c a, s.acquires c = some a → a.Timed s.now s.leases

theorem set_acquires (s : State n) (c : Fin n) (o : Option Acquire) (d : Fin n) :
    (s.set c o).acquires d = if d = c then o else s.acquires d :=
  Function.update_apply _ _ _ _

theorem Timed.set (h : s.Timed) {o : Option Acquire} (ho : ∀ a, o = some a → a.Timed s.now s.leases) :
    (s.set c o).Timed where
  key := h.key
  rows := h.rows
  acquires d a hd := by
    rw [set_acquires] at hd
    split_ifs at hd
    · exact ho a hd
    · exact h.acquires d a hd

/-- Time passes, and rows are taken out. -/
theorem Timed.shrink (h : s.Timed) {now' : ℕ} {leases' : List Lease} (hnow : s.now ≤ now')
    (hsub : leases'.Sublist s.leases) : Timed { s with now := now', leases := leases' } where
  key := h.key.sublist (hsub.map _)
  rows l hl := (h.rows l (hsub.subset hl)).trans (Nat.add_le_add_right hnow _)
  acquires c a ha := by
    obtain ⟨hstamp, hcommit, hspent⟩ := h.acquires c a ha
    refine ⟨fun hholds t ht l hl => hstamp hholds t ht l (hsub.subset hl), fun o p lease hs => ?_, fun id hid l hl hl' => ?_⟩
    · obtain ⟨hle, hrows⟩ := hcommit o p lease hs
      exact ⟨hle.trans (Nat.add_le_add_right hnow _), fun l hl => hrows l (hsub.subset hl)⟩
    · exact (hspent id hid l (hsub.subset hl) hl').trans hnow

/-- A statement other than the commit. -/
theorem Timed.run (h : s.Timed) (hgood : s.Good tenants) (ha : s.acquires c = some a) (ht : a.timestamp = some t)
    (hrun : a.run tenants s.leases t = some a') : a'.Timed s.now s.leases := by
  obtain ⟨hstamp, -, hspent⟩ := h.acquires c a ha
  have hnow := (hgood.sound c a ha).1 t ht
  cases Acquire.runs_of_run hrun with
  | plain hcommit => exact ⟨fun _ t ht => (by cases ht), fun o p lease hs => absurd hs (hcommit o p lease), hspent⟩
  | cleanup hcommit =>
    refine ⟨fun _ t ht => (by cases ht), fun o p lease hs => absurd hs (hcommit o p lease), fun id hid l hl hl' => ?_⟩
    obtain ⟨m, hm, hm'⟩ := List.mem_map.mp hid
    obtain ⟨hmem, hexpired⟩ := List.mem_filter.mp hm
    have heq : l = m := key_inj h.key hl hmem (hl'.trans hm'.symm)
    rw [heq]
    simp only [Bool.and_eq_true, decide_eq_true_eq] at hexpired
    exact hexpired.2.trans hnow
  | insert _ _ hholds =>
    refine ⟨fun _ t ht => (by cases ht), fun o p lease hs => ?_, hspent⟩
    cases hs
    exact ⟨Nat.add_le_add_right hnow _, hstamp hholds t ht⟩
  | renew _ _ hholds =>
    refine ⟨fun _ t ht => (by cases ht), fun o p lease hs => ?_, hspent⟩
    cases hs
    exact ⟨Nat.add_le_add_right hnow _, hstamp hholds t ht⟩

theorem mem_committed {leases : List Lease} {lease l : Lease} (hl : l ∈ a.committed leases lease) :
    l = lease ∨ l ∈ leases ∧ l.id ≠ lease.id := by
  obtain hl | hl := List.mem_append.mp hl
  · obtain ⟨hmem, hne⟩ := List.mem_filter.mp hl
    exact .inr ⟨(Acquire.mem_visible.mp hmem).1, by simpa using hne⟩
  · exact .inl (List.mem_singleton.mp hl)

theorem Timed.commit {o p : StreamLimit} {lease : Lease} (h : s.Timed) (hgood : s.Good tenants)
    (ha : s.acquires c = some a) (hstmt : a.statement = .commit o p lease) :
    Timed { s.set c none with leases := a.committed s.leases lease } := by
  have hsound := (hgood.sound c a ha).2
  simp only [hstmt] at hsound
  obtain ⟨-, ⟨hid, horg, -⟩, -⟩ := hsound
  obtain ⟨hbound, hrows⟩ := (h.acquires c a ha).commit o p lease hstmt
  have hheld : a.holds = true := by simp [Acquire.holds, hstmt]
  have hlocks : a.locks lease.id = true := by simp [Acquire.locks, hstmt, hid]
  refine ⟨?_, fun l hl => ?_, fun d b hd => ?_⟩
  · show ((a.committed s.leases lease).map (·.id)).Nodup
    rw [Acquire.committed, List.map_append, List.nodup_append]
    refine ⟨h.key.sublist ((List.filter_sublist.trans List.filter_sublist).map _), List.nodup_singleton _, ?_⟩
    intro x hx y hy
    obtain ⟨l, hl, rfl⟩ := List.mem_map.mp hx
    rw [List.mem_singleton.mp hy]
    simpa using (List.mem_filter.mp hl).2
  · obtain rfl | ⟨hl, -⟩ := mem_committed hl
    · exact hbound
    · exact h.rows l hl
  · -- the others are of other organizations and have locked other rows
    have hb : (s.set c none).acquires d = some b := hd
    rw [set_acquires] at hb
    split_ifs at hb with hne
    obtain ⟨hstamp, hcommit, hspent⟩ := h.acquires d b hb
    have hother : b.holds = true → ∀ l ∈ a.committed s.leases lease, l.organizationId = b.organizationId →
        l ∈ s.leases := by
      intro hholds l hl hlo
      obtain rfl | ⟨hl, -⟩ := mem_committed hl
      · exact absurd (hlo.symm.trans horg) (hgood.organizations d c b a hne hb ha hholds hheld)
      · exact hl
    refine ⟨fun hholds t ht l hl hlo => hstamp hholds t ht l (hother hholds l hl hlo) hlo, fun o' p' lease' hs => ?_,
      fun id hdel l hl hl' => ?_⟩
    · obtain ⟨hle, hall⟩ := hcommit o' p' lease' hs
      have hholds : b.holds = true := by simp [Acquire.holds, hs]
      exact ⟨hle, fun l hl hlo => hall l (hother hholds l hl hlo) hlo⟩
    · obtain rfl | ⟨hl, -⟩ := mem_committed hl
      · have hb' : b.locks l.id = true := by simp [Acquire.locks, hl', hdel]
        have hfree := hgood.rows c d a b (Ne.symm hne) ha hb l.id hlocks
        rw [hb'] at hfree
        cases hfree
      · exact hspent id hdel l hl hl'

theorem Timed.step {action : Action n} (h : s.Timed) (hgood : s.Good tenants)
    (hstep : s.step tenants action = some u) : u.Timed := by
  cases does_of_step hstep with
  | elapse duration => exact h.shrink (Nat.le_add_right _ _) (List.Sublist.refl _)
  | acquire =>
    refine h.set fun a ha => ?_
    cases ha
    exact ⟨fun hholds => absurd hholds Bool.false_ne_true, fun o p lease hs => (by cases hs), fun id hid => by cases hid⟩
  | receive ha =>
    obtain ⟨-, hcommit, hspent⟩ := h.acquires _ _ ha
    refine h.set fun a' ha' => ?_
    cases ha'
    refine ⟨fun _ t ht l hl _ => ?_, hcommit, hspent⟩
    cases ht
    exact h.rows l hl
  | run ha ht => exact h.set fun a' ha' => h.run hgood ha ht ha'
  | commit ha _ hstmt => exact h.commit hgood ha hstmt
  | rollback c => exact h.set fun a ha => by cases ha
  | release => exact h.shrink le_rfl List.filter_sublist
  | reapExpired limit => exact h.shrink le_rfl List.filter_sublist

/-! ### The lease of one stream -/

/-- Whatever has the id of the request is of the request. -/
structure Owned (s : State n) (r : StreamAdmissionRequest) : Prop where
  rows : ∀ l ∈ s.leases, l.id = uuidValue r.id → l = r.lease l.expiresAt
  acquires : ∀ c a, s.acquires c = some a → a.leaseId = uuidValue r.id → a.request = r ∧
    ∀ o p lease, a.statement = .commit o p lease → lease = r.lease lease.expiresAt

/-- A time to come until which the lease of the request has been promised. -/
def Backed (s : State n) (r : StreamAdmissionRequest) (e : ℕ) : Prop :=
  s.now < e → ∃ l ∈ s.leases, l = r.lease l.expiresAt ∧ e ≤ l.expiresAt

end State

/-- Whatever is acquired under the id of the request is the request. -/
def Action.Respects {n : ℕ} (r : StreamAdmissionRequest) : Action n → Prop
  | .acquire _ request => uuidValue request.id = uuidValue r.id → request = r
  | _ => True

/-- The id of the request is not released. -/
def Action.Spares {n : ℕ} (r : StreamAdmissionRequest) : Action n → Prop
  | .release id _ => uuidValue id ≠ uuidValue r.id
  | _ => True

namespace State

variable {n : ℕ} {tenants : Tenants} {s u : State n} {c d : Fin n} {a a' b : Acquire} {t : ℕ}
  {r : StreamAdmissionRequest}

theorem Owned.shrink (h : s.Owned r) {now' : ℕ} {leases' : List Lease} (hsub : leases'.Sublist s.leases) :
    Owned { s with now := now', leases := leases' } r :=
  ⟨fun l hl => h.rows l (hsub.subset hl), h.acquires⟩

theorem Owned.set (h : s.Owned r) {o : Option Acquire} (ho : ∀ a, o = some a → a.leaseId = uuidValue r.id →
    a.request = r ∧ ∀ o p lease, a.statement = .commit o p lease → lease = r.lease lease.expiresAt) :
    (s.set c o).Owned r where
  rows := h.rows
  acquires d a hd := by
    rw [set_acquires] at hd
    split_ifs at hd
    · exact ho a hd
    · exact h.acquires d a hd

theorem Owned.run (h : s.Owned r) (ha : s.acquires c = some a) (hrun : a.run tenants s.leases t = some a')
    (hid : a'.leaseId = uuidValue r.id) :
    a'.request = r ∧ ∀ o p lease, a'.statement = .commit o p lease → lease = r.lease lease.expiresAt := by
  have hreq := Acquire.run_request hrun
  have hida : a.leaseId = uuidValue r.id := by
    rw [Acquire.leaseId, ← hreq]
    exact hid
  obtain ⟨hr, -⟩ := h.acquires c a ha hida
  refine ⟨hreq.trans hr, fun o p lease hs => ?_⟩
  cases Acquire.runs_of_run hrun with
  | plain hcommit => exact absurd hs (hcommit o p lease)
  | cleanup hcommit => exact absurd hs (hcommit o p lease)
  | insert =>
    cases hs
    rw [hr]
    rfl
  | @renew _ _ row _ hrow hrowid =>
    cases hs
    rw [h.rows row hrow (hrowid.trans hida)]
    rfl

theorem Owned.step {action : Action n} (h : s.Owned r) (hrespects : action.Respects r) (hgood : s.Good tenants)
    (hstep : s.step tenants action = some u) : u.Owned r := by
  cases does_of_step hstep with
  | elapse duration => exact h.shrink (List.Sublist.refl _)
  | acquire =>
    refine h.set fun a ha hid => ?_
    cases ha
    exact ⟨hrespects hid, fun o p lease hs => by cases hs⟩
  | @receive c a ha =>
    refine h.set fun a' ha' hid => ?_
    cases ha'
    exact h.acquires c a ha hid
  | run ha => exact h.set fun a' ha' hid => h.run ha ha' hid
  | @commit c a o p lease ha _ hstmt =>
    have hsound := (hgood.sound c a ha).2
    simp only [hstmt] at hsound
    obtain ⟨-, ⟨hid, -⟩, -⟩ := hsound
    have hset : (s.set c none).Owned r := h.set fun a ha => by cases ha
    refine ⟨fun l hl hlid => ?_, hset.acquires⟩
    obtain rfl | ⟨hl, -⟩ := mem_committed hl
    · exact (h.acquires c a ha (hid.symm.trans hlid)).2 o p l hstmt
    · exact h.rows l hl hlid
  | rollback c => exact h.set fun a ha => by cases ha
  | release => exact h.shrink List.filter_sublist
  | reapExpired limit => exact h.shrink List.filter_sublist

/-- **What has been promised stays.**  Other transactions neither take the row of the request nor shorten its lease. -/
theorem Backed.step {action : Action n} {e : ℕ} (h : s.Backed r e) (hspares : action.Spares r) (hgood : s.Good tenants)
    (htimed : s.Timed) (howned : s.Owned r) (hstep : s.step tenants action = some u) : u.Backed r e := by
  -- the row is kept by whatever leaves the time and takes out only other rows and expired ones
  have hkeep : ∀ leases' : List Lease, (∀ l ∈ s.leases, s.now < l.expiresAt → l.id = uuidValue r.id → l ∈ leases') →
      s.now < e → ∃ l ∈ leases', l = r.lease l.expiresAt ∧ e ≤ l.expiresAt := by
    intro leases' hall hnow
    obtain ⟨l, hl, hrow, hle⟩ := h hnow
    refine ⟨l, hall l hl (hnow.trans_le hle) ?_, hrow, hle⟩
    rw [hrow]
    rfl
  cases does_of_step hstep with
  | elapse duration => exact fun hnow => h ((Nat.le_add_right _ _).trans_lt hnow)
  | acquire => exact h
  | receive => exact h
  | run => exact h
  | @commit c a o p lease ha _ hstmt =>
    have hsound := (hgood.sound c a ha).2
    simp only [hstmt] at hsound
    obtain ⟨-, ⟨hid, horg, -⟩, -⟩ := hsound
    intro hnow
    obtain ⟨l, hl, hrow, hle⟩ := h hnow
    have hnow' : s.now < l.expiresAt := lt_of_lt_of_le hnow hle
    have hlid : l.id = uuidValue r.id := by rw [hrow]; rfl
    by_cases hsame : lease.id = l.id
    · -- a renewal of this lease, which has the later timestamp
      obtain ⟨hreq, hlease⟩ := howned.acquires c a ha (hid.symm.trans (hsame.trans hlid))
      have hlorg : l.organizationId = a.organizationId := by
        rw [hrow, Acquire.organizationId, hreq]
        rfl
      exact ⟨lease, List.mem_append_right _ List.mem_cons_self, hlease o p lease hstmt,
        hle.trans (((htimed.acquires c a ha).commit o p lease hstmt).2 l hl hlorg)⟩
    · refine ⟨l, List.mem_append_left _ (List.mem_filter.mpr ⟨Acquire.mem_visible.mpr ⟨hl, fun hdel => ?_⟩, ?_⟩),
        hrow, hle⟩
      · exact absurd ((htimed.acquires c a ha).spent l.id hdel l hl rfl) (not_le.mpr hnow')
      · simpa using fun h => hsame h.symm
  | rollback => exact h
  | @release id instanceId =>
    refine hkeep _ fun l hl _ hlid => List.mem_filter.mpr ⟨hl, ?_⟩
    have hne : uuidValue id ≠ uuidValue r.id := hspares
    simp only [Bool.not_eq_true', Bool.and_eq_false_iff, beq_eq_false_iff_ne]
    exact .inl fun heq => hne (heq.symm.trans hlid)
  | reapExpired limit =>
    refine hkeep _ fun l hl hlive _ => List.mem_filter.mpr ⟨hl, ?_⟩
    have hfree : l.id ∉ s.reapable limit := by
      intro hmem
      obtain ⟨m, hm, hid⟩ := List.mem_map.mp hmem
      have hm := List.mem_filter.mp (List.mem_mergeSort.mp (List.mem_of_mem_take hm))
      have heq : m = l := key_inj htimed.key hm.1 hl hid
      simp only [Bool.and_eq_true, decide_eq_true_eq] at hm
      rw [heq] at hm
      exact absurd hlive (not_lt.mpr hm.2.1)
    simpa using hfree

end State

end Nehemiah.Streams
