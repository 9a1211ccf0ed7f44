import Nehemiah.Lib.Slots
import Nehemiah.Lib.Query

/-!
# Who may have requests under way

The gateway admits a REST request if fewer than a maximum are under way, in all and from its source, and a stream if its
tenant has fewer connections than a maximum.  The limits of a tenant are dropped when it has had no connection for an
hour, and made anew when it comes back, so that a release may be about limits that are no longer the ones in the map.
`TenantLimiter.Inv` says that this never happens: the limits that a connection holds are those that the map has for its
tenant.  The results are `rest_active_exact` and `tenant_connections_exact`.
-/

namespace Nehemiah.DataPlane

open Lib Http

/-! ### Requests -/

/-- `restActiveLimiter.acquire`. -/
def restActiveAcquire (maximumTotal maximumPeer : ℤ) (l : Slots Text) (peer : Text) : Option (Slots Text) :=
  l.acquire maximumTotal maximumPeer peer

/-- The sources that have an entry. -/
def entriesOf (l : Slots Text) : Set Text := {peer | (l.byKey peer).isSome}

/-- **Requests under way are counted exactly.**  In every order of requests and releases, a request is refused only
when a maximum is under way, and the sources with an entry are those that have a request under way. -/
theorem rest_active_exact {maximumTotal maximumPeer : ℤ} (ht : 0 ≤ maximumTotal) (hp : 0 ≤ maximumPeer)
    {as : List (DeskAct Text)} {s : Desk Text}
    (h : Run (fun s a t => Desk.next maximumTotal maximumPeer s a = some t) Desk.start as s) :
    (s.held.length ≤ maximumTotal ∧ ∀ peer, (s.heldFor peer : ℤ) ≤ maximumPeer) ∧
    (∀ peer, restActiveAcquire maximumTotal maximumPeer s.slots peer = none ↔
      maximumTotal ≤ s.held.length ∨ maximumPeer ≤ s.heldFor peer) ∧
    entriesOf s.slots = {peer | peer ∈ s.held} ∧ ((entriesOf s.slots).ncard : ℤ) ≤ maximumTotal := by
  have hexact := Desk.Exact.run h
  have htotal : (s.held.length : ℤ) ≤ maximumTotal := by
    have := hexact.total
    rwa [max_eq_left ht] at this
  have hentries : entriesOf s.slots = {peer | peer ∈ s.held} := Set.ext fun peer => hexact.isSome_byKey
  refine ⟨⟨htotal, fun peer => ?_⟩, fun peer => hexact.acquire_eq_none, hentries, ?_⟩
  · have hpeer : (s.heldFor peer : ℤ) ≤ max maximumPeer 0 := hexact.byKey peer
    rwa [max_eq_left hp] at hpeer
  · have hcard : (entriesOf s.slots).ncard ≤ s.held.length := by
      have hset : entriesOf s.slots = (s.held.toFinset : Set Text) := by
        rw [hentries]
        ext peer
        simp
      rw [hset, Set.ncard_coe_finset]
      exact s.held.toFinset_card_le
    omega

theorem rest_active_exact_refused :
    ∃ s : Desk Text, restActiveAcquire 2 1 s.slots ['a'] = none ∧ s.held = [['a']] ∧
      (entriesOf s.slots).ncard ≤ (2 : ℤ) := by
  have h : Run (fun s a t => Desk.next 2 1 s a = some t) Desk.start
      [.acquire ['a'], .acquire ['b'], .release 1, .release 1, .acquire ['a']] _ := Run.of_exec rfl
  obtain ⟨-, hrefused, -, hcard⟩ := rest_active_exact (by decide) (by decide) h
  exact ⟨_, (hrefused ['a']).mpr (.inr (by decide)), rfl, hcard⟩

/-! ### Connections of a tenant -/

structure TenantLimitState where
  active : ℤ
  lastSeen : ℤ

/-- A release function, with the connection that it is about. -/
structure Connection where
  organization : Text
  project : Text
  state : ℕ
  released : Bool

def tenantKey (organization project : Text) : Text := organization ++ Char.ofNat 0 :: project

def Connection.key (c : Connection) : Text := tenantKey c.organization c.project

/-- The map is to pointers, which the release functions hold as well. -/
structure TenantLimiter where
  entries : Text → Option ℕ
  heap : ℕ → TenantLimitState
  allocated : ℕ
  connections : List Connection

namespace TenantLimiter

def start : TenantLimiter := ⟨fun _ => none, fun _ => ⟨0, 0⟩, 0, []⟩

/-- Limits that have had no connection for longer than `idleTTL` are dropped. -/
def sweep (idleTTL now : ℤ) (l : TenantLimiter) : TenantLimiter :=
  { l with
    entries := fun key => (l.entries key).filter fun p =>
      !(decide ((l.heap p).active = 0) && decide (idleTTL < now - (l.heap p).lastSeen)) }

/-- The limits of a tenant, which are made if there are none. -/
def stateFor (l : TenantLimiter) (key : Text) : TenantLimiter × ℕ :=
  match l.entries key with
  | some p => (l, p)
  | none =>
    ({ l with
      entries := Function.update l.entries key (some l.allocated)
      heap := Function.update l.heap l.allocated ⟨0, 0⟩
      allocated := l.allocated + 1 }, l.allocated)

/-- `tenantLimiter.acquire`; the connection is at the end of the list if it is admitted. -/
def acquire (maxConnections idleTTL now : ℤ) (l : TenantLimiter) (organization project : Text) : TenantLimiter × Bool :=
  let (l', p) := (l.sweep idleTTL now).stateFor (tenantKey organization project)
  if maxConnections ≤ (l'.heap p).active then
    ({ l' with heap := Function.update l'.heap p ⟨(l'.heap p).active, now⟩ }, false)
  else
    ({ l' with
      heap := Function.update l'.heap p ⟨(l'.heap p).active + 1, now⟩
      connections := l'.connections ++ [⟨organization, project, p, false⟩] }, true)

/-- A release function is called, perhaps again. -/
def release (now : ℤ) (l : TenantLimiter) (i : ℕ) : Option TenantLimiter :=
  match l.connections[i]? with
  | none => none
  | some c =>
    if c.released then some l
    else some { l with
      heap := Function.update l.heap c.state ⟨(l.heap c.state).active - 1, now⟩
      connections := l.connections.set i { c with released := true } }

inductive Act
  | acquire (now : ℤ) (organization project : Text)
  | release (now : ℤ) (i : ℕ)

def next (maxConnections idleTTL : ℤ) (l : TenantLimiter) : Act → Option TenantLimiter
  | .acquire now organization project => some (l.acquire maxConnections idleTTL now organization project).1
  | .release now i => l.release now i

/-- The connections that hold given limits. -/
def holders (l : TenantLimiter) (p : ℕ) : ℕ := l.connections.countP fun c => !c.released && decide (c.state = p)

/-- The connections that a tenant has open. -/
def openBy (l : TenantLimiter) (key : Text) : ℕ := l.connections.countP fun c => !c.released && decide (c.key = key)

/-- The map has the limits that the open connections hold, and these count them. -/
structure Inv (maxConnections : ℤ) (l : TenantLimiter) : Prop where
  allocated : ∀ key p, l.entries key = some p → p < l.allocated
  inj : ∀ key key' p, l.entries key = some p → l.entries key' = some p → key = key'
  active : ∀ p, (l.heap p).active = l.holders p
  current : ∀ c ∈ l.connections, c.released = false → l.entries c.key = some c.state
  bound : ∀ p, (l.heap p).active ≤ max maxConnections 0

variable {maxConnections idleTTL now : ℤ} {l l' : TenantLimiter} {key : Text} {p : ℕ}

theorem Inv.start : Inv maxConnections start where
  allocated _ _ h := by cases h
  inj _ _ _ h := by cases h
  active _ := rfl
  current c hc := by cases hc
  bound _ := le_max_right _ _

/-- Limits that a connection holds are in use. -/
theorem Inv.pos (h : Inv maxConnections l) {c : Connection} (hc : c ∈ l.connections) (hr : c.released = false) :
    0 < (l.heap c.state).active := by
  have hpos : 0 < l.holders c.state := List.countP_pos_iff.mpr ⟨c, hc, by simp [hr]⟩
  rw [h.active]
  omega

theorem sweep_entries (hp : (l.sweep idleTTL now).entries key = some p) : l.entries key = some p := by
  have hfilter : (l.entries key).filter _ = some p := hp
  exact (Option.filter_eq_some_iff.mp hfilter).1

theorem Inv.sweep (h : Inv maxConnections l) (idleTTL now : ℤ) : Inv maxConnections (l.sweep idleTTL now) where
  allocated key p hp := h.allocated key p (sweep_entries hp)
  inj key key' p hp hp' := h.inj key key' p (sweep_entries hp) (sweep_entries hp')
  active := h.active
  current c hc hr := by
    have hne : (l.heap c.state).active ≠ 0 := (h.pos hc hr).ne'
    show (l.entries c.key).filter _ = _
    rw [h.current c hc hr]
    simp [hne]
  bound := h.bound

theorem update_eq_some {entries : Text → Option ℕ} {key' : Text} {q : ℕ} :
    Function.update entries key (some q) key' = some p ↔ key' = key ∧ q = p ∨ key' ≠ key ∧ entries key' = some p := by
  by_cases hkey : key' = key
  · subst hkey
    simp
  · simp [hkey]

theorem stateFor_connections (l : TenantLimiter) (key : Text) :
    (l.stateFor key).1.connections = l.connections := by
  unfold stateFor
  split <;> rfl

/-- The tenant has the limits that are found or made for it. -/
theorem stateFor_entries (l : TenantLimiter) (key : Text) :
    (l.stateFor key).1.entries key = some (l.stateFor key).2 := by
  unfold stateFor
  split
  · next p hp => exact hp
  · exact Function.update_self ..

theorem Inv.stateFor (h : Inv maxConnections l) (key : Text) : Inv maxConnections (l.stateFor key).1 := by
  unfold TenantLimiter.stateFor
  split
  · exact h
  · next hnone =>
    have hfree : ∀ key' p, l.entries key' = some p → p ≠ l.allocated := fun key' p hp => (h.allocated key' p hp).ne
    have hunheld : l.holders l.allocated = 0 := by
      refine List.countP_eq_zero.mpr fun c hc hheld => ?_
      simp only [Bool.and_eq_true, Bool.not_eq_true', decide_eq_true_eq] at hheld
      exact hfree _ _ (h.current c hc hheld.1) hheld.2
    refine ⟨fun key' p hp => ?_, fun key' key'' p hp hp' => ?_, fun p => ?_, fun c hc hr => ?_, fun p => ?_⟩
    · show p < l.allocated + 1
      obtain ⟨-, rfl⟩ | ⟨-, hp⟩ := update_eq_some.mp hp
      · omega
      · have := h.allocated key' p hp
        omega
    · obtain ⟨hkey, rfl⟩ | ⟨-, hp⟩ := update_eq_some.mp hp
      · obtain ⟨hkey', -⟩ | ⟨-, hp'⟩ := update_eq_some.mp hp'
        · rw [hkey, hkey']
        · exact absurd rfl (hfree _ _ hp')
      · obtain ⟨-, rfl⟩ | ⟨-, hp'⟩ := update_eq_some.mp hp'
        · exact absurd rfl (hfree _ _ hp)
        · exact h.inj _ _ _ hp hp'
    · show (Function.update l.heap l.allocated ⟨0, 0⟩ p).active = l.holders p
      by_cases hp : p = l.allocated
      · subst hp
        rw [Function.update_self, hunheld]
        rfl
      · rw [Function.update_of_ne hp, h.active]
    · have hcurrent := h.current c hc hr
      have hkey : c.key ≠ key := by
        rintro hkey
        rw [hkey, hnone] at hcurrent
        cases hcurrent
      exact (Function.update_of_ne hkey ..).trans hcurrent
    · show (Function.update l.heap l.allocated ⟨0, 0⟩ p).active ≤ _
      by_cases hp : p = l.allocated
      · subst hp
        rw [Function.update_self]
        exact le_max_right _ _
      · rw [Function.update_of_ne hp]
        exact h.bound p

/-- What the limits of a tenant become, where its connections become the given ones. -/
theorem Inv.update (h : Inv maxConnections l) (hp : l.entries key = some p) {connections : List Connection} {active : ℤ}
    (hkey : ∀ c ∈ connections, c.released = false → c ∈ l.connections ∨ c.key = key ∧ c.state = p)
    (hactive : active = connections.countP fun c => !c.released && decide (c.state = p))
    (hother : ∀ q, q ≠ p → (connections.countP fun c => !c.released && decide (c.state = q)) = l.holders q)
    (hbound : active ≤ max maxConnections 0) :
    Inv maxConnections { l with heap := Function.update l.heap p ⟨active, now⟩, connections := connections } where
  allocated := h.allocated
  inj := h.inj
  active q := by
    show (Function.update l.heap p ⟨active, now⟩ q).active = (connections.countP _ : ℕ)
    by_cases hq : q = p
    · subst hq
      rw [Function.update_self]
      exact hactive
    · rw [Function.update_of_ne hq, h.active, hother q hq]
  current c hc hr := by
    show l.entries c.key = some c.state
    obtain hold | ⟨hck, hcp⟩ := hkey c hc hr
    · exact h.current c hold hr
    · rw [hck, hcp, hp]
  bound q := by
    show (Function.update l.heap p ⟨active, now⟩ q).active ≤ _
    by_cases hq : q = p
    · subst hq
      rw [Function.update_self]
      exact hbound
    · rw [Function.update_of_ne hq]
      exact h.bound q

theorem Inv.acquire (h : Inv maxConnections l) (organization project : Text) :
    Inv maxConnections (l.acquire maxConnections idleTTL now organization project).1 := by
  have hfound := (h.sweep idleTTL now).stateFor (tenantKey organization project)
  have hentry := stateFor_entries (l.sweep idleTTL now) (tenantKey organization project)
  unfold TenantLimiter.acquire
  generalize (l.sweep idleTTL now).stateFor (tenantKey organization project) = found at hfound hentry
  obtain ⟨l', p⟩ := found
  have hactive : (l'.heap p).active = l'.holders p := hfound.active p
  dsimp only at hfound hentry ⊢
  split_ifs with hfull
  · exact hfound.update hentry (fun c hc _ => .inl hc) hactive (fun _ _ => rfl) (hfound.bound p)
  · refine hfound.update hentry (fun c hc _ => ?_) ?_ (fun q hq => ?_) (by omega)
    · obtain hc | hc := List.mem_append.mp hc
      · exact .inl hc
      · rw [List.mem_singleton.mp hc]
        exact .inr ⟨rfl, rfl⟩
    · rw [List.countP_append, hactive, holders]
      simp
    · rw [List.countP_append, holders]
      simp [hq.symm]

theorem Inv.release (h : Inv maxConnections l) {i : ℕ} (hs : l.release now i = some l') : Inv maxConnections l' := by
  unfold TenantLimiter.release at hs
  split at hs
  · cases hs
  · next c hc =>
    split_ifs at hs with hr
    · cases hs
      exact h
    · cases hs
      have hopen : c.released = false := by simpa using hr
      obtain ⟨hi, hget⟩ := List.getElem?_eq_some_iff.mp hc
      have hmem : c ∈ l.connections := List.mem_of_getElem? hc
      have hactive : (l.heap c.state).active = l.holders c.state := h.active c.state
      have hbound := h.bound c.state
      have hpos := h.pos hmem hopen
      have hcount : ∀ q, ((l.connections.set i { c with released := true }).countP
          fun c => !c.released && decide (c.state = q)) = l.holders q - if c.state = q then 1 else 0 := by
        intro q
        rw [List.countP_set hi, hget]
        simp [hopen, holders]
      refine h.update (h.current c hmem hopen) (fun d hd hdr => ?_) ?_ (fun q hq => ?_) (by omega)
      · obtain hd | rfl := List.mem_or_eq_of_mem_set hd
        · exact .inl hd
        · cases hdr
      · rw [hcount, if_pos rfl]
        omega
      · rw [hcount, if_neg fun h => hq h.symm, Nat.sub_zero]

theorem Inv.run {as : List Act}
    (hrun : Run (fun l a l' => next maxConnections idleTTL l a = some l') TenantLimiter.start as l) :
    Inv maxConnections l :=
  hrun.invariant (fun l a l' h hs => by
    cases a with
    | acquire now organization project =>
      cases hs
      exact h.acquire organization project
    | release now i => exact h.release hs) Inv.start

/-- The connections of a tenant are those that hold the limits that the map has for it. -/
theorem Inv.openBy (h : Inv maxConnections l) (key : Text) :
    l.openBy key = match l.entries key with
      | some p => l.holders p
      | none => 0 := by
  cases hkey : l.entries key with
  | none =>
    refine List.countP_eq_zero.mpr fun c hc hopen => ?_
    simp only [Bool.and_eq_true, Bool.not_eq_true', decide_eq_true_eq] at hopen
    have hcurrent := h.current c hc hopen.1
    rw [hopen.2, hkey] at hcurrent
    cases hcurrent
  | some p =>
    refine List.countP_congr fun c hc => ?_
    simp only [Bool.and_eq_true, Bool.not_eq_true', decide_eq_true_eq]
    refine and_congr_right fun hr => ⟨fun hck => ?_, fun hcp => ?_⟩
    · have hcurrent := h.current c hc hr
      rw [hck, hkey, Option.some.injEq] at hcurrent
      exact hcurrent.symm
    · have hcurrent := h.current c hc hr
      rw [hcp] at hcurrent
      exact h.inj _ _ _ hcurrent hkey

/-- The limits that an acquisition looks at count the open connections of the tenant. -/
theorem Inv.active_stateFor (h : Inv maxConnections l) (key : Text) :
    ((l.stateFor key).1.heap (l.stateFor key).2).active = l.openBy key := by
  have hfound := h.stateFor key
  have hopen := hfound.openBy key
  rw [stateFor_entries, TenantLimiter.openBy, stateFor_connections] at hopen
  rw [hfound.active]
  exact congrArg Nat.cast hopen.symm

theorem Inv.acquire_eq_false (h : Inv maxConnections l) (organization project : Text) :
    (l.acquire maxConnections idleTTL now organization project).2 = false ↔
      maxConnections ≤ l.openBy (tenantKey organization project) := by
  have hactive := (h.sweep idleTTL now).active_stateFor (tenantKey organization project)
  have hopen : (l.sweep idleTTL now).openBy (tenantKey organization project) =
      l.openBy (tenantKey organization project) := rfl
  rw [hopen] at hactive
  unfold TenantLimiter.acquire
  generalize (l.sweep idleTTL now).stateFor (tenantKey organization project) = found at hactive ⊢
  obtain ⟨l', p⟩ := found
  dsimp only at hactive ⊢
  rw [hactive]
  split_ifs with hfull
  · exact iff_of_true rfl hfull
  · exact iff_of_false (by simp) hfull

end TenantLimiter

/-- Tenants have keys of their own, since the name of an organization has no zero in it. -/
theorem tenantKey_inj {organization organization' project project' : Text} (h : Char.ofNat 0 ∉ organization)
    (h' : Char.ofNat 0 ∉ organization') (hkey : tenantKey organization project = tenantKey organization' project') :
    organization = organization' ∧ project = project' := by
  induction organization generalizing organization' with
  | nil =>
    cases organization' with
    | nil => exact ⟨rfl, (List.cons.inj hkey).2⟩
    | cons c organization' =>
      rw [(List.cons.inj hkey).1] at h'
      exact absurd List.mem_cons_self h'
  | cons c organization ih =>
    cases organization' with
    | nil =>
      rw [← (List.cons.inj hkey).1] at h
      exact absurd List.mem_cons_self h
    | cons c' organization' =>
      obtain ⟨hc, hrest⟩ := List.cons.inj hkey
      obtain ⟨horganization, hproject⟩ :=
        ih (fun hm => h (List.mem_cons_of_mem _ hm)) (fun hm => h' (List.mem_cons_of_mem _ hm)) hrest
      exact ⟨by rw [hc, horganization], hproject⟩

namespace TenantLimiter

/-- The connections that are open for a project of an organization. -/
def openFor (l : TenantLimiter) (organization project : Text) : ℕ :=
  l.connections.countP fun c => !c.released && decide (c.organization = organization ∧ c.project = project)

/-- The organizations that streams are opened for have no zero in their names. -/
def Named (as : List Act) : Prop :=
  ∀ now organization project, Act.acquire now organization project ∈ as → Char.ofNat 0 ∉ organization

variable {maxConnections idleTTL : ℤ} {l l' : TenantLimiter}

/-- A step adds at most a connection of the organization that it is for. -/
theorem next_organization {a : Act} (hs : next maxConnections idleTTL l a = some l') {c : Connection}
    (hc : c ∈ l'.connections) :
    (∃ d ∈ l.connections, d.organization = c.organization) ∨ ∃ now project, a = .acquire now c.organization project := by
  cases a with
  | acquire now organization project =>
    cases hs
    unfold acquire at hc
    have hconnections := stateFor_connections (l.sweep idleTTL now) (tenantKey organization project)
    generalize (l.sweep idleTTL now).stateFor (tenantKey organization project) = found at hc hconnections
    obtain ⟨l', p⟩ := found
    dsimp only at hc hconnections
    have hold : ∀ c, c ∈ l'.connections → ∃ d ∈ l.connections, d.organization = c.organization :=
      fun c hc => ⟨c, by rwa [hconnections] at hc, rfl⟩
    split_ifs at hc
    · exact .inl (hold c hc)
    · obtain hc | hc := List.mem_append.mp hc
      · exact .inl (hold c hc)
      · rw [List.mem_singleton.mp hc]
        exact .inr ⟨now, project, rfl⟩
  | release now i =>
    change l.release now i = some l' at hs
    unfold release at hs
    split at hs
    · cases hs
    · next d hd =>
      split_ifs at hs
      · cases hs
        exact .inl ⟨c, hc, rfl⟩
      · cases hs
        obtain hc | rfl := List.mem_or_eq_of_mem_set hc
        · exact .inl ⟨c, hc, rfl⟩
        · exact .inl ⟨d, List.mem_of_getElem? hd, rfl⟩

theorem Named.organization {as : List Act} (hn : Named as)
    (hrun : Run (fun l a l' => next maxConnections idleTTL l a = some l') TenantLimiter.start as l) :
    ∀ c ∈ l.connections, Char.ofNat 0 ∉ c.organization := by
  have hguarded : RunIn (fun l a l' => next maxConnections idleTTL l a = some l')
      (fun _ a _ => ∀ now organization project, a = .acquire now organization project → Char.ofNat 0 ∉ organization)
      TenantLimiter.start as l :=
    hrun.guarded fun a ha _ _ now organization project hact => hn now organization project (hact ▸ ha)
  have hstep : ∀ (l : TenantLimiter) a (l' : TenantLimiter), (∀ c ∈ l.connections, Char.ofNat 0 ∉ c.organization) →
      next maxConnections idleTTL l a = some l' →
      (∀ now organization project, a = .acquire now organization project → Char.ofNat 0 ∉ organization) →
      ∀ c ∈ l'.connections, Char.ofNat 0 ∉ c.organization := by
    intro l a l' hl hs hact c hc
    obtain ⟨d, hd, hdc⟩ | ⟨now, project, rfl⟩ := next_organization hs hc
    · rw [← hdc]
      exact hl d hd
    · exact hact now _ project rfl
  exact hguarded.invariant hstep fun c hc => by cases hc

theorem openBy_eq_openFor (hl : ∀ c ∈ l.connections, Char.ofNat 0 ∉ c.organization) {organization : Text}
    (h : Char.ofNat 0 ∉ organization) (project : Text) :
    l.openBy (tenantKey organization project) = l.openFor organization project := by
  refine List.countP_congr fun c hc => ?_
  simp only [Bool.and_eq_true, Bool.not_eq_true', decide_eq_true_eq]
  refine and_congr_right fun _ => ⟨fun hkey => tenantKey_inj (hl c hc) h hkey, ?_⟩
  rintro ⟨rfl, rfl⟩
  rfl

end TenantLimiter

/-- **The connections of a tenant are counted exactly.**  In every order of streams that start and end, whatever the
clock shows and however often the limits of idle tenants are dropped, a tenant has at most `maxConnections` open, and is
refused one only when it has that many; the names of organizations have no NUL.  Two open connections hold the same
limits just when they are of the same tenant.  These have a limiter of the bandwidth, which the router drops: each stream
has one of its own. -/
theorem tenant_connections_exact {maxConnections idleTTL : ℤ} (hm : 0 ≤ maxConnections) {as : List TenantLimiter.Act}
    (hn : TenantLimiter.Named as) {l : TenantLimiter}
    (h : Run (fun l a l' => TenantLimiter.next maxConnections idleTTL l a = some l') TenantLimiter.start as l) :
    (∀ organization project, Char.ofNat 0 ∉ organization →
      l.openFor organization project ≤ maxConnections ∧
      ∀ now, (l.acquire maxConnections idleTTL now organization project).2 = false ↔
        maxConnections ≤ l.openFor organization project) ∧
    ∀ c ∈ l.connections, ∀ d ∈ l.connections, c.released = false → d.released = false →
      (c.state = d.state ↔ c.organization = d.organization ∧ c.project = d.project) := by
  have hinv := TenantLimiter.Inv.run h
  have hnamed := hn.organization h
  refine ⟨fun organization project ho => ?_, fun c hc d hd hcr hdr => ⟨fun hstate => ?_, fun hcd => ?_⟩⟩
  · have hopen := TenantLimiter.openBy_eq_openFor hnamed ho project
    refine ⟨?_, fun now => ?_⟩
    · have hactive := hinv.active_stateFor (tenantKey organization project)
      have hbound := (hinv.stateFor (tenantKey organization project)).bound
        (l.stateFor (tenantKey organization project)).2
      rw [hactive, hopen, max_eq_left hm] at hbound
      exact hbound
    · rw [hinv.acquire_eq_false, hopen]
  · have hc' := hinv.current c hc hcr
    have hd' := hinv.current d hd hdr
    rw [hstate] at hc'
    exact tenantKey_inj (hnamed c hc) (hnamed d hd) (hinv.inj _ _ _ hc' hd')
  · have hkey : c.key = d.key := by rw [Connection.key, Connection.key, hcd.1, hcd.2]
    have hc' := hinv.current c hc hcr
    rw [hkey, hinv.current d hd hdr] at hc'
    exact (Option.some.inj hc').symm

/-- The limits of the first project are dropped while it is idle, and it has one connection again. -/
theorem tenant_connections_exact_swept :
    ∃ l : TenantLimiter, (l.acquire 1 10 41 ['o'] ['p']).2 = false ∧ l.openFor ['o'] ['p'] ≤ (1 : ℤ) := by
  have h : Run (fun l a l' => TenantLimiter.next 1 10 l a = some l') TenantLimiter.start
      [.acquire 0 ['o'] ['p'], .release 1 0, .acquire 20 ['o'] ['q'], .release 21 0, .acquire 40 ['o'] ['p']] _ :=
    Run.of_exec rfl
  have hn : TenantLimiter.Named [.acquire 0 ['o'] ['p'], .release 1 0, .acquire 20 ['o'] ['q'], .release 21 0,
      .acquire 40 ['o'] ['p']] := by
    intro now organization project hmem
    simp only [List.mem_cons, reduceCtorEq, List.not_mem_nil, or_false, false_or, TenantLimiter.Act.acquire.injEq] at hmem
    obtain ⟨-, rfl, -⟩ | ⟨-, rfl, -⟩ | ⟨-, rfl, -⟩ := hmem <;> decide
  obtain ⟨hbound, hrefused⟩ := (tenant_connections_exact (by decide) hn h).1 ['o'] ['p'] (by decide)
  exact ⟨_, (hrefused 41).mpr (by decide), hbound⟩

end Nehemiah.DataPlane
