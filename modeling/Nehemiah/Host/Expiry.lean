import Nehemiah.Host.Registry

/-!
# Extension and expiry

`ExtendInternal`, the TTL timers and the sweep of `StartReaper` (`machine.go`).  A timer is armed for an
instant and names a machine; stopping it takes it from the armed ones, but a callback that has fired waits
for the lock and cannot be recalled.  The sweep collects the ids of the expired machines under the lock and
reaps them one by one, releasing it in between.  So a reap is decided in one state and carried out in a
later one, and `reap` does not look at `ExpiresAt` again.

* `reaped_on_time`: in every run in which no extension moves the expiry of a machine whose reap is already
  under way, a machine is removed only once its expiry has passed, and so have all the extensions that were
  acknowledged for it.
* `extension_overtaken`: without the condition, a run in which the timer has fired, the extension is
  acknowledged, and the callback removes the machine.
-/

namespace Nehemiah.Host

open Billing Manager Nehemiah.Lib

/-! ### Timers -/

/-- A `time.AfterFunc` that has not fired; `handle` is the value that `Stop` is called on. -/
structure Timer where
  handle : ℕ
  id : String
  due : Time

structure ExpiryState where
  manager : Manager
  now : Time
  timers : List Timer
  nextTimer : ℕ
  /-- The field `timer` of a machine object. -/
  timerOf : ℕ → Option ℕ
  /-- The callbacks that have fired and wait for the lock. -/
  waiting : List String
  /-- What the sweep has collected and not reaped yet. -/
  sweep : List String
  /-- Ghost: the machines that `reap` removed, as they were, and when. -/
  removed : List (Machine × Time)

namespace ExpiryState

/-- `timer.Stop()`. -/
def stop (s : ExpiryState) (handle : Option ℕ) : ExpiryState :=
  { s with timers := s.timers.filter fun t => some t.handle != handle }

/-- `m.timer = time.AfterFunc(…)`; a timer that the field held before is not stopped by this. -/
def arm (s : ExpiryState) (r : ℕ) (id : String) (due : Time) : ExpiryState :=
  { s with
    timers := s.timers ++ [⟨s.nextTimer, id, due⟩]
    nextTimer := s.nextTimer + 1
    timerOf := Function.update s.timerOf r (some s.nextTimer) }

/-- The extension would move the expiry of the machine. -/
def moves (s : ExpiryState) (id leaseId key : String) (target : Time) : Option ℕ :=
  match s.manager.find id with
  | none => none
  | some r =>
    let m := s.manager.objects r
    if m.leaseId = "" ∨ leaseId ≠ m.leaseId ∨ (m.extendOperations.lookup key).isSome ∨ m.persistent = true
        ∨ ¬ m.expiresAt < target then none
    else some r

/-- `ExtendInternal` after its checks. -/
def extendInternal (s : ExpiryState) (cfg : Config) (id leaseId key : String) (target : Time)
    (fault : SaveFault) : ExpiryState :=
  let extended := { s with manager := (s.manager.extend cfg id leaseId key target s.now fault).1 }
  match s.moves id leaseId key target with
  | none => extended
  | some r => (extended.stop (s.timerOf r)).arm r id target

/-- `reap` with its timers: a failed one is tried again five seconds later, a removed machine is torn
down. -/
def reap (s : ExpiryState) (cfg : Config) (id : String) (reading : Reading) (fault : SaveFault) :
    ExpiryState :=
  match s.manager.find id, s.manager.reap cfg id reading s.now fault with
  | some r, (mgr, .done _) =>
    { { s with manager := mgr }.stop (s.timerOf r) with
      removed := s.removed ++ [(s.manager.objects r, s.now)] }
  | some r, (mgr, .failed) => { s with manager := mgr }.arm r id (s.now + 5)
  | _, (mgr, _) => { s with manager := mgr }

/-- The ids that the sweep collects at the instant `readAt`. -/
def expired (s : ExpiryState) (readAt : Time) : List String :=
  (s.manager.machines.map fun r => (s.manager.objects r).id).filter fun id =>
    (s.manager.find id).any fun r =>
      !(s.manager.objects r).persistent && (s.manager.objects r).expiresAt < readAt

end ExpiryState

/-! ### Steps -/

inductive ExpiryAct
  | tick (now : Time)
  /-- `ExtendInternal`, which read the clock at `checkedAt` before it took the lock. -/
  | extend (id leaseId key : String) (target checkedAt : Time) (fault : SaveFault)
  | fire (handle : ℕ)
  /-- A fired callback gets the lock. -/
  | callback (id : String) (reading : Reading) (fault : SaveFault)
  /-- The sweep collects its list, in the order of the map. -/
  | collect (readAt : Time) (ids : List String)
  /-- The sweep reaps the next machine of its list. -/
  | sweepNext (reading : Reading) (fault : SaveFault)

/-- The absolute expiry that `ExtendInternal` accepts. -/
def validTarget (cfg : Config) (target checkedAt : Time) : Bool :=
  checkedAt < target && target ≤ checkedAt + cfg.maxTtl + 300

def ExpiryState.step (cfg : Config) (s : ExpiryState) : ExpiryAct → Option ExpiryState
  | .tick now => if s.now ≤ now then some { s with now := now } else none
  | .extend id leaseId key target checkedAt fault =>
    if checkedAt ≤ s.now && validTarget cfg target checkedAt then
      some (s.extendInternal cfg id leaseId key target fault)
    else none
  | .fire handle =>
    match s.timers.find? (·.handle == handle) with
    | some t =>
      if t.due ≤ s.now then
        some { s with
          timers := s.timers.filter (·.handle != handle)
          waiting := s.waiting ++ [t.id] }
      else none
    | none => none
  | .callback id reading fault =>
    if id ∈ s.waiting then some ({ s with waiting := s.waiting.erase id }.reap cfg id reading fault)
    else none
  | .collect readAt ids =>
    if s.sweep.isEmpty && readAt ≤ s.now && ids.isPerm (s.expired readAt) then
      some { s with sweep := ids }
    else none
  | .sweepNext reading fault =>
    match s.sweep with
    | id :: rest => some ({ s with sweep := rest }.reap cfg id reading fault)
    | [] => none

def ExpiryStep (cfg : Config) (s : ExpiryState) (a : ExpiryAct) (s' : ExpiryState) : Prop :=
  s.step cfg a = some s'

/-- A reap of the machine is under way: a callback has fired, the sweep has it on its list, or a timer
other than the machine's own is armed for it. -/
def ExpiryState.reapUnderWay (s : ExpiryState) (r : ℕ) (id : String) : Bool :=
  s.waiting.contains id || s.sweep.contains id ||
    s.timers.any fun t => t.id == id && s.timerOf r != some t.handle

/-- **The condition.**  An extension that moves the expiry of a machine finds no reap of it under way. -/
def ExtensionInTime (s : ExpiryState) : ExpiryAct → ExpiryState → Prop
  | .extend id leaseId key target _ _, _ =>
    ∀ r, s.moves id leaseId key target = some r → s.reapUnderWay r id = false
  | _, _ => True

/-! ### Terms of a machine -/

/-- What an expiry is decided on. -/
structure SameTerms (m m' : Machine) : Prop where
  id : m'.id = m.id
  expiresAt : m'.expiresAt = m.expiresAt
  persistent : m'.persistent = m.persistent
  extendOperations : m'.extendOperations = m.extendOperations

theorem SameTerms.refl (m : Machine) : SameTerms m m := ⟨rfl, rfl, rfl, rfl⟩

theorem SameTerms.trans {a b c : Machine} (h : SameTerms a b) (h' : SameTerms b c) : SameTerms a c :=
  ⟨h'.id.trans h.id, h'.expiresAt.trans h.expiresAt, h'.persistent.trans h.persistent,
    h'.extendOperations.trans h.extendOperations⟩

/-- From `mgr` to `x`: terms stay, and what is found was found before. -/
structure Manager.KeepsTerms (mgr x : Manager) : Prop where
  terms : ∀ r, SameTerms (mgr.objects r) (x.objects r)
  found : ∀ id r, x.find id = some r → mgr.find id = some r

namespace Manager.KeepsTerms

variable {mgr x y : Manager}

theorem of_same (hm : x.machines = mgr.machines)
    (ht : ∀ r, SameTerms (mgr.objects r) (x.objects r)) : mgr.KeepsTerms x :=
  ⟨ht, fun id r h => by rwa [find_congr hm (fun r => (ht r).id)] at h⟩

theorem refl (mgr : Manager) : mgr.KeepsTerms mgr := of_same rfl fun _ => .refl _

theorem trans (h : mgr.KeepsTerms x) (h' : x.KeepsTerms y) : mgr.KeepsTerms y :=
  ⟨fun r => (h.terms r).trans (h'.terms r), fun id r hf => h.found id r (h'.found id r hf)⟩

theorem modifyMachine (mgr : Manager) (r : ℕ) (f : Machine → Machine) (hf : ∀ m, SameTerms m (f m)) :
    mgr.KeepsTerms (mgr.modifyMachine r f) := by
  refine of_same rfl fun r' => ?_
  by_cases h : r' = r
  · subst h
    rw [show (mgr.modifyMachine r' f).objects r' = f (mgr.objects r') from Function.update_self ..]
    exact hf _
  · rw [show (mgr.modifyMachine r f).objects r' = mgr.objects r' from Function.update_of_ne h _ _]
    exact .refl _

theorem unregister (mgr : Manager) (id : String) : mgr.KeepsTerms (mgr.unregister id) := by
  refine ⟨fun _ => .refl _, fun id' r h => ?_⟩
  rw [find_unregister] at h
  split_ifs at h
  exact h

theorem sample (mgr : Manager) (r : ℕ) (terminal : Bool) (reading : Reading) :
    mgr.KeepsTerms (mgr.sample r terminal reading).1 := by
  have hs := sample_sampled mgr r terminal reading
  generalize mgr.sample r terminal reading = z at hs ⊢
  have hemit : ∀ s reserved os healthy, mgr.KeepsTerms (mgr.emit r s reserved os healthy) := by
    intro s reserved os healthy
    refine of_same rfl fun r' => ?_
    by_cases h : r' = r
    · subst h
      rw [emit_object]
      exact ⟨rfl, rfl, rfl, rfl⟩
    · rw [emit_object_of_ne mgr h]
      exact .refl _
  cases hs with
  | skipped _ => exact .refl mgr
  | failed s healthy _ => exact hemit s _ [] healthy
  | emitted _ _ _ s healthy _ _ _ _ => exact hemit _ _ _ healthy

end Manager.KeepsTerms

/-- **What `reap` does to the registry**: terms stay; when it is done the machine is gone. -/
theorem reap_terms (mgr : Manager) (cfg : Config) (id : String) (reading : Reading) (now : Time)
    (fault : SaveFault) :
    mgr.KeepsTerms (mgr.reap cfg id reading now fault).1 ∧
      ∀ r, (mgr.reap cfg id reading now fault).2 = .done r →
        (mgr.reap cfg id reading now fault).1.find id = none := by
  unfold Manager.reap
  split
  · exact ⟨.refl mgr, fun r h => nomatch h⟩
  · next r hr =>
    have hid := (find_some hr).2
    have hundo : ∀ x : Manager, mgr.KeepsTerms x →
        mgr.KeepsTerms { x.setMetering r (mgr.objects r).metering with
          meteringOutbox := x.meteringOutbox.take mgr.meteringOutbox.length } := by
      intro x hx
      have hset : x.KeepsTerms (x.setMetering r (mgr.objects r).metering) :=
        .modifyMachine x r _ fun m => ⟨rfl, rfl, rfl, rfl⟩
      exact (hx.trans hset).trans (.of_same rfl fun _ => .refl _)
    have hs := KeepsTerms.sample mgr r true reading
    dsimp only
    split
    · next x heq =>
      rw [heq] at hs
      exact ⟨hundo x hs, fun _ h => nomatch h⟩
    · next x heq =>
      rw [heq] at hs
      have hgone : ∀ y ok, ((x.unregister id).transition r (some (mgr.objects r).status) .stopped
          "ttl_expired").persist cfg now fault = (y, ok) → mgr.KeepsTerms y ∧ y.find id = none := by
        intro y ok hy
        have hy₁ : y = (((x.unregister id).transition r (some (mgr.objects r).status) .stopped
            "ttl_expired").persist cfg now fault).1 := by rw [hy]
        have hsame : (x.unregister id).KeepsTerms y := by
          rw [hy₁]
          exact .of_same rfl fun _ => .refl _
        refine ⟨(hs.trans (.unregister x id)).trans hsame, ?_⟩
        have hfind : y.find id = (x.unregister id).find id := by
          rw [hy₁]
          exact find_congr rfl (fun _ => rfl) id
        rw [hfind, find_unregister, if_pos rfl]
      split
      · next y hy =>
        obtain ⟨hk, hnone⟩ := hgone y true hy
        exact ⟨hk, fun _ _ => hnone⟩
      · next y hy =>
        obtain ⟨hk, _⟩ := hgone y false hy
        refine ⟨hundo _ ⟨hk.terms, fun id' r' h => ?_⟩, fun _ h => nomatch h⟩
        rw [find_register] at h
        split_ifs at h with hx
        · cases h
          rw [hx, (hk.terms r).id, hid]
          exact hr
        · exact hk.found id' r' h

/-! ### Extension -/

/-- The machine with the operation on record. -/
def Machine.extended (m : Machine) (key : String) (target : Time) : Machine :=
  { m with
    extendOperations := m.extendOperations ++ [(key, target)]
    expiresAt := if !m.persistent && m.expiresAt < target then target else m.expiresAt }

/-- **What an extension does**: nothing, or it records its target with the machine, and moves the expiry
and the timer when the target lies beyond it. -/
inductive Extended (s : ExpiryState) (id leaseId key : String) (target : Time) : ExpiryState → Prop
  | unchanged : Extended s id leaseId key target s
  | recorded (r : ℕ) (x : Manager) (hr : s.manager.find id = some r) (hm : x.machines = s.manager.machines)
      (ho : x.objects = Function.update s.manager.objects r ((s.manager.objects r).extended key target))
      (hstay : (s.manager.objects r).persistent = true ∨ target ≤ (s.manager.objects r).expiresAt) :
      Extended s id leaseId key target { s with manager := x }
  | moved (r : ℕ) (x : Manager) (hr : s.manager.find id = some r) (hm : x.machines = s.manager.machines)
      (ho : x.objects = Function.update s.manager.objects r ((s.manager.objects r).extended key target))
      (hmoves : s.moves id leaseId key target = some r)
      (hp : (s.manager.objects r).persistent = false) (hlt : (s.manager.objects r).expiresAt < target) :
      Extended s id leaseId key target
        (({ s with manager := x }.stop (s.timerOf r)).arm r id target)

theorem extendInternal_extended (s : ExpiryState) (cfg : Config) (id leaseId key : String) (target : Time)
    (fault : SaveFault) :
    Extended s id leaseId key target (s.extendInternal cfg id leaseId key target fault) := by
  cases hr : s.manager.find id with
  | none =>
    have h : s.extendInternal cfg id leaseId key target fault = s := by
      simp only [ExpiryState.extendInternal, ExpiryState.moves, Manager.extend, hr]
    rw [h]
    exact .unchanged
  | some r =>
    by_cases hlease : (s.manager.objects r).leaseId = "" ∨ leaseId ≠ (s.manager.objects r).leaseId
    · have h : s.extendInternal cfg id leaseId key target fault = s := by
        have hmoves : s.moves id leaseId key target = none := by
          simp only [ExpiryState.moves, hr]
          refine if_pos ?_
          rcases hlease with h | h
          · exact Or.inl h
          · exact Or.inr (Or.inl h)
        simp only [ExpiryState.extendInternal, hmoves, Manager.extend, hr, if_pos hlease]
      rw [h]
      exact .unchanged
    · cases hkey : (s.manager.objects r).extendOperations.lookup key with
      | some prior =>
        have h : s.extendInternal cfg id leaseId key target fault = s := by
          have hmoves : s.moves id leaseId key target = none := by
            simp only [ExpiryState.moves, hr]
            refine if_pos (Or.inr (Or.inr (Or.inl ?_)))
            rw [hkey]
            rfl
          simp only [ExpiryState.extendInternal, hmoves, Manager.extend, hr, if_neg hlease, hkey]
          split <;> rfl
        rw [h]
        exact .unchanged
      | none =>
        set x := (s.manager.extend cfg id leaseId key target s.now fault).1 with hx
        have hrec : x.machines = s.manager.machines ∧ x.objects
            = Function.update s.manager.objects r ((s.manager.objects r).extended key target) := by
          simp only [hx, Manager.extend, hr, if_neg hlease, hkey]
          exact ⟨rfl, rfl⟩
        push Not at hlease
        by_cases hmv : (s.manager.objects r).persistent = false ∧ (s.manager.objects r).expiresAt < target
        · have hmoves : s.moves id leaseId key target = some r := by
            simp only [ExpiryState.moves, hr, hkey, hmv.1, hmv.2, hlease.1, hlease.2]
            simp
          simp only [ExpiryState.extendInternal, hmoves, ← hx]
          exact .moved r x hr hrec.1 hrec.2 hmoves hmv.1 hmv.2
        · have hmoves : s.moves id leaseId key target = none := by
            simp only [ExpiryState.moves, hr]
            refine if_pos (Or.inr (Or.inr (Or.inr ?_)))
            by_cases hp : (s.manager.objects r).persistent = true
            · exact Or.inl hp
            · exact Or.inr fun hlt => hmv ⟨by simpa using hp, hlt⟩
          simp only [ExpiryState.extendInternal, hmoves, ← hx]
          refine .recorded r x hr hrec.1 hrec.2 ?_
          by_cases hp : (s.manager.objects r).persistent = true
          · exact Or.inl hp
          · exact Or.inr (not_lt.mp fun hlt => hmv ⟨by simpa using hp, hlt⟩)

/-- Recording an operation changes what nobody finds by. -/
theorem find_extended {mgr x : Manager} {r : ℕ} {key : String} {target : Time}
    (hm : x.machines = mgr.machines)
    (ho : x.objects = Function.update mgr.objects r ((mgr.objects r).extended key target)) (id : String) :
    x.find id = mgr.find id := by
  refine find_congr hm (fun r' => ?_) id
  rw [ho]
  by_cases h : r' = r
  · subst h
    rw [Function.update_self]
    rfl
  · rw [Function.update_of_ne h]

/-! ### The invariant -/

/-- The machine's own term is over by `t`, and so are the extensions acknowledged for it. -/
structure Over (m : Machine) (t : Time) : Prop where
  expiresAt : m.expiresAt ≤ t
  extensions : ∀ key target, (key, target) ∈ m.extendOperations → target ≤ t

/-- Whatever may still lead to a reap comes after the expiry of its machine. -/
structure Punctual (s : ExpiryState) : Prop where
  timers : ∀ t ∈ s.timers, ∀ r, s.manager.find t.id = some r → (s.manager.objects r).persistent = false →
    (s.manager.objects r).expiresAt ≤ t.due
  pending : ∀ id, id ∈ s.waiting ∨ id ∈ s.sweep → ∀ r, s.manager.find id = some r →
    (s.manager.objects r).persistent = false → (s.manager.objects r).expiresAt ≤ s.now
  honoured : ∀ id r, s.manager.find id = some r → (s.manager.objects r).persistent = false →
    ∀ key target, (key, target) ∈ (s.manager.objects r).extendOperations →
      target ≤ (s.manager.objects r).expiresAt
  removed : ∀ x ∈ s.removed, x.1.persistent = false → Over x.1 x.2

variable {s : ExpiryState}

theorem Punctual.keeps {x : Manager} (h : Punctual s) (hk : s.manager.KeepsTerms x) :
    Punctual { s with manager := x } where
  timers t ht r hr hp := by
    have hterms := hk.terms r
    rw [hterms.expiresAt]
    exact h.timers t ht r (hk.found _ _ hr) (hterms.persistent ▸ hp)
  pending id hid r hr hp := by
    have hterms := hk.terms r
    rw [hterms.expiresAt]
    exact h.pending id hid r (hk.found _ _ hr) (hterms.persistent ▸ hp)
  honoured id r hr hp key target hmem := by
    have hterms := hk.terms r
    rw [hterms.extendOperations] at hmem
    rw [hterms.expiresAt]
    exact h.honoured id r (hk.found _ _ hr) (hterms.persistent ▸ hp) key target hmem
  removed := h.removed

theorem Punctual.stop (h : Punctual s) (handle : Option ℕ) : Punctual (s.stop handle) :=
  { h with timers := fun t ht => h.timers t (List.mem_of_mem_filter ht) }

theorem Punctual.arm (h : Punctual s) (r : ℕ) (id : String) (due : Time)
    (hdue : ∀ r', s.manager.find id = some r' → (s.manager.objects r').persistent = false →
      (s.manager.objects r').expiresAt ≤ due) : Punctual (s.arm r id due) where
  timers t ht := by
    rcases List.mem_append.mp ht with ht | ht
    · exact h.timers t ht
    · rw [List.mem_singleton.mp ht]
      exact hdue
  pending := h.pending
  honoured := h.honoured
  removed := h.removed

/-- **A reap that is under way** keeps everything punctual: what it removes is over, and what it fails to
remove is tried again later. -/
theorem Punctual.reap (h : Punctual s) (cfg : Config) (id : String) (reading : Reading) (fault : SaveFault)
    (hover : ∀ r, s.manager.find id = some r → (s.manager.objects r).persistent = false →
      (s.manager.objects r).expiresAt ≤ s.now) : Punctual (s.reap cfg id reading fault) := by
  obtain ⟨hk, hgone⟩ := reap_terms s.manager cfg id reading s.now fault
  have hkept := h.keeps hk
  unfold ExpiryState.reap
  generalize s.manager.reap cfg id reading s.now fault = y at hk hgone hkept
  obtain ⟨mgr, answer⟩ := y
  cases hf : s.manager.find id with
  | none => exact hkept
  | some r =>
    cases answer with
    | absent => exact hkept
    | failed =>
      refine hkept.arm r id _ fun r' hr' hp => ?_
      have hterms := hk.terms r'
      rw [hterms.expiresAt]
      exact (hover r' (hk.found id r' hr') (hterms.persistent ▸ hp)).trans
        (le_add_of_nonneg_right (by norm_num))
    | done r' =>
      refine { hkept.stop (s.timerOf r) with removed := ?_ }
      intro x hx hp
      rcases List.mem_append.mp hx with hx | hx
      · exact h.removed x hx hp
      · rw [List.mem_singleton.mp hx] at hp ⊢
        have hle := hover r hf hp
        exact ⟨hle, fun key target hmem => (h.honoured id r hf hp key target hmem).trans hle⟩

section Extension

variable {s : ExpiryState} {id key : String} {target : Time} {r : ℕ} {x : Manager}

/-- A target within the expiry is only put on record. -/
theorem Punctual.recorded (h : Punctual s) (hr : s.manager.find id = some r)
    (hm : x.machines = s.manager.machines)
    (ho : x.objects = Function.update s.manager.objects r ((s.manager.objects r).extended key target))
    (hstay : (s.manager.objects r).persistent = true ∨ target ≤ (s.manager.objects r).expiresAt) :
    Punctual { s with manager := x } := by
  have hfind := find_extended hm ho
  have hexp : ∀ r', (x.objects r').persistent = (s.manager.objects r').persistent ∧
      (x.objects r').expiresAt = (s.manager.objects r').expiresAt := by
    intro r'
    rw [ho]
    by_cases hx : r' = r
    · subst hx
      rw [Function.update_self]
      refine ⟨rfl, if_neg ?_⟩
      rcases hstay with hp | hge
      · simp [hp]
      · simp [hge]
    · rw [Function.update_of_ne hx]
      exact ⟨rfl, rfl⟩
  refine ⟨?_, ?_, ?_, h.removed⟩
  · intro t ht r' hr' hp'
    rw [(hexp r').2]
    exact h.timers t ht r' ((hfind _).symm.trans hr') ((hexp r').1.symm.trans hp')
  · intro id' hid r' hr' hp'
    rw [(hexp r').2]
    exact h.pending id' hid r' ((hfind _).symm.trans hr') ((hexp r').1.symm.trans hp')
  · intro id' r' hr' hp' k t hmem
    have hp₀ := (hexp r').1.symm.trans hp'
    have hold := h.honoured id' r' ((hfind _).symm.trans hr') hp₀ k t
    rw [(hexp r').2]
    dsimp only at hmem
    rw [ho] at hmem
    by_cases hx : r' = r
    · subst hx
      rw [Function.update_self] at hmem
      rcases List.mem_append.mp hmem with hmem | hmem
      · exact hold hmem
      · cases List.mem_singleton.mp hmem
        exact hstay.resolve_left (by simp [hp₀])
    · rw [Function.update_of_ne hx] at hmem
      exact hold hmem

/-- A target beyond the expiry moves it; no reap of the machine is under way, and its own timer is
replaced. -/
theorem Punctual.moved (h : Punctual s) (hr : s.manager.find id = some r)
    (hm : x.machines = s.manager.machines)
    (ho : x.objects = Function.update s.manager.objects r ((s.manager.objects r).extended key target))
    (hp : (s.manager.objects r).persistent = false) (hlt : (s.manager.objects r).expiresAt < target)
    (hfree : s.reapUnderWay r id = false) :
    Punctual (({ s with manager := x }.stop (s.timerOf r)).arm r id target) := by
  have hfind := find_extended hm ho
  have hself : (x.objects r).expiresAt = target := by
    rw [ho, Function.update_self]
    exact if_pos (by simp [hp, hlt])
  have hother : ∀ r', r' ≠ r → x.objects r' = s.manager.objects r' := by
    intro r' hx
    rw [ho, Function.update_of_ne hx]
  simp only [ExpiryState.reapUnderWay, Bool.or_eq_false_iff, List.any_eq_false, Bool.and_eq_true,
    beq_iff_eq, bne_iff_ne, ne_eq, not_and, not_not, List.contains_eq_mem, decide_eq_false_iff_not]
    at hfree
  obtain ⟨⟨hwait, hsweep⟩, htimers⟩ := hfree
  have hown : ∀ id', s.manager.find id' = some r → id' = id := fun id' hf =>
    (find_some hf).2.symm.trans (find_some hr).2
  refine ⟨?_, ?_, ?_, h.removed⟩
  · intro t ht r' hr' hp'
    have hr₀ : s.manager.find t.id = some r' := (hfind _).symm.trans hr'
    rcases List.mem_append.mp ht with ht | ht
    · obtain ⟨hmem, hkeep⟩ := List.mem_filter.mp ht
      by_cases hx : r' = r
      · -- every timer of the machine is its own, and that one was stopped
        subst hx
        have hh := htimers t hmem (hown _ hr₀)
        exact absurd hh.symm (by simpa using hkeep)
      · show (x.objects r').expiresAt ≤ t.due
        rw [hother r' hx]
        exact h.timers t hmem r' hr₀ ((congrArg (·.persistent) (hother r' hx)).symm.trans hp')
    · rw [List.mem_singleton.mp ht] at hr₀ ⊢
      rw [hr] at hr₀
      cases hr₀
      exact hself.le
  · intro id' hid r' hr' hp'
    have hr₀ : s.manager.find id' = some r' := (hfind _).symm.trans hr'
    by_cases hx : r' = r
    · subst hx
      rw [hown _ hr₀] at hid
      exact absurd hid (not_or.mpr ⟨hwait, hsweep⟩)
    · show (x.objects r').expiresAt ≤ s.now
      rw [hother r' hx]
      exact h.pending id' hid r' hr₀ ((congrArg (·.persistent) (hother r' hx)).symm.trans hp')
  · intro id' r' hr' hp' k t hmem
    have hr₀ : s.manager.find id' = some r' := (hfind _).symm.trans hr'
    change (k, t) ∈ (x.objects r').extendOperations at hmem
    show t ≤ (x.objects r').expiresAt
    by_cases hx : r' = r
    · subst hx
      rw [hself]
      rw [ho, Function.update_self] at hmem
      rcases List.mem_append.mp hmem with hmem | hmem
      · exact (h.honoured id' r' hr₀ hp k t hmem).trans hlt.le
      · cases List.mem_singleton.mp hmem
        exact le_refl _
    · rw [hother r' hx] at hmem ⊢
      exact h.honoured id' r' hr₀ ((congrArg (·.persistent) (hother r' hx)).symm.trans hp') k t hmem

end Extension

/-- An extension that finds no reap under way. -/
theorem Punctual.extend (h : Punctual s) (cfg : Config) (id leaseId key : String) (target : Time) (fault : SaveFault)
    (hfree : ∀ r, s.moves id leaseId key target = some r → s.reapUnderWay r id = false) :
    Punctual (s.extendInternal cfg id leaseId key target fault) := by
  have hext := extendInternal_extended s cfg id leaseId key target fault
  generalize s.extendInternal cfg id leaseId key target fault = s' at hext
  cases hext with
  | unchanged => exact h
  | recorded r x hr hm ho hstay => exact h.recorded hr hm ho hstay
  | moved r x hr hm ho hmoves hp hlt => exact h.moved hr hm ho hp hlt (hfree r hmoves)

theorem punctual_step {cfg : Config} {s' : ExpiryState} {a : ExpiryAct} (hstep : ExpiryStep cfg s a s')
    (hg : ExtensionInTime s a s') (h : Punctual s) : Punctual s' := by
  unfold ExpiryStep at hstep
  cases a with
  | tick now =>
    simp only [ExpiryState.step] at hstep
    split_ifs at hstep with hle
    cases hstep
    exact { h with pending := fun id hid r hr hp => (h.pending id hid r hr hp).trans hle }
  | extend id leaseId key target checkedAt fault =>
    simp only [ExpiryState.step] at hstep
    split_ifs at hstep
    cases hstep
    exact h.extend cfg id leaseId key target fault hg
  | fire handle =>
    simp only [ExpiryState.step] at hstep
    split at hstep
    · next t ht =>
      split_ifs at hstep with hdue
      cases hstep
      have hmem := List.mem_of_find?_eq_some ht
      refine { h with timers := fun t' ht' => h.timers t' (List.mem_of_mem_filter ht'), pending := ?_ }
      intro id hid r hr hp
      rcases hid with hid | hid
      · rcases List.mem_append.mp hid with hid | hid
        · exact h.pending id (Or.inl hid) r hr hp
        · rw [List.mem_singleton.mp hid] at hr
          exact (h.timers t hmem r hr hp).trans hdue
      · exact h.pending id (Or.inr hid) r hr hp
    · cases hstep
  | callback id reading fault =>
    simp only [ExpiryState.step] at hstep
    split_ifs at hstep with hmem
    cases hstep
    have hless : Punctual { s with waiting := s.waiting.erase id } :=
      { h with pending := fun id' hid => h.pending id' (hid.imp_left List.mem_of_mem_erase) }
    exact hless.reap cfg id reading fault (h.pending id (Or.inl hmem))
  | collect readAt ids =>
    simp only [ExpiryState.step] at hstep
    split_ifs at hstep with hc
    cases hstep
    simp only [Bool.and_eq_true, decide_eq_true_eq, List.isPerm_iff] at hc
    refine { h with pending := ?_ }
    intro id hid r hr hp
    rcases hid with hid | hid
    · exact h.pending id (Or.inl hid) r hr hp
    · have hexp := (List.mem_filter.mp (hc.2.mem_iff.mp hid)).2
      rw [hr, Option.any_some, Bool.and_eq_true, decide_eq_true_eq] at hexp
      exact hexp.2.le.trans hc.1.2
  | sweepNext reading fault =>
    simp only [ExpiryState.step] at hstep
    split at hstep
    · next id rest heq =>
      cases hstep
      have hless : Punctual { s with sweep := rest } := by
        refine { h with pending := fun id' hid => h.pending id' (hid.imp_right fun hr => ?_) }
        rw [heq]
        exact List.mem_cons_of_mem id hr
      exact hless.reap cfg id reading fault
        (h.pending id (Or.inr (by rw [heq]; exact List.mem_cons_self)))
    · cases hstep

/-! ### Runs -/

/-- The state of a manager whose machines have their timers armed and nothing under way: each armed timer
is the own timer of its machine, due at its expiry. -/
structure ExpiryReady (s : ExpiryState) : Prop where
  waiting : s.waiting = []
  sweep : s.sweep = []
  removed : s.removed = []
  timers : ∀ t ∈ s.timers, ∀ r, s.manager.find t.id = some r →
    s.timerOf r = some t.handle ∧ t.due = (s.manager.objects r).expiresAt
  honoured : ∀ id r, s.manager.find id = some r → (s.manager.objects r).persistent = false →
    ∀ key target, (key, target) ∈ (s.manager.objects r).extendOperations →
      target ≤ (s.manager.objects r).expiresAt

theorem ExpiryReady.punctual (h : ExpiryReady s) : Punctual s where
  timers t ht r hr _ := (h.timers t ht r hr).2.ge
  pending id hid := by
    rw [h.waiting, h.sweep] at hid
    rcases hid with hid | hid <;> cases hid
  honoured := h.honoured
  removed x hx := by
    rw [h.removed] at hx
    cases hx

/-- **An extended machine is not reaped early**, in every run in which no extension moves the expiry of a
machine whose reap is already under way: what `reap` removes is over at that moment, and so is every
extension that was acknowledged for it. -/
theorem reaped_on_time (cfg : Config) (s₀ s : ExpiryState) (acts : List ExpiryAct)
    (hready : ExpiryReady s₀) (hrun : RunIn (ExpiryStep cfg) ExtensionInTime s₀ acts s) :
    ∀ m t, (m, t) ∈ s.removed → m.persistent = false →
      m.expiresAt ≤ t ∧ ∀ key target, (key, target) ∈ m.extendOperations → target ≤ t := by
  have hp : Punctual s := hrun.invariant (I := Punctual) (fun _ _ _ h hs hg => punctual_step hs hg h)
    hready.punctual
  intro m t hmem hnp
  have hover := hp.removed (m, t) hmem hnp
  exact ⟨hover.expiresAt, hover.extensions⟩

/-! ### A machine at the end of its term -/

instance (s : ExpiryState) (a : ExpiryAct) (s' : ExpiryState) : Decidable (ExtensionInTime s a s') :=
  match a with
  | .extend id leaseId key target _ _ =>
    match h : s.moves id leaseId key target with
    | none => isTrue fun r hr => by
        rw [h] at hr
        cases hr
    | some r => decidable_of_iff (s.reapUnderWay r id = false)
        ⟨fun hf r' hr' => by rw [h] at hr'; cases hr'; exact hf, fun hall => hall r h⟩
  | .tick _ => isTrue trivial
  | .fire _ => isTrue trivial
  | .callback _ _ _ => isTrue trivial
  | .collect _ _ => isTrue trivial
  | .sweepNext _ _ => isTrue trivial

/-- The state after a list of steps that all meet the condition, or all steps when `guarded` is off. -/
def ExpiryState.runs (cfg : Config) (guarded : Bool) (s : ExpiryState) : List ExpiryAct → Option ExpiryState
  | [] => some s
  | a :: rest =>
    match s.step cfg a with
    | none => none
    | some s' => if guarded → ExtensionInTime s a s' then s'.runs cfg guarded rest else none

theorem ExpiryState.runs_run {cfg : Config} {acts : List ExpiryAct} : ∀ {s s' : ExpiryState},
    s.runs cfg true acts = some s' → RunIn (ExpiryStep cfg) ExtensionInTime s acts s' := by
  induction acts with
  | nil =>
    intro s s' h
    cases h
    exact .nil s
  | cons a rest ih =>
    intro s s' h
    simp only [ExpiryState.runs] at h
    split at h
    · cases h
    · next s₁ hstep =>
      split_ifs at h with hg
      exact .cons hstep (hg trivial) (ih h)

theorem ExpiryState.runs_unguarded {cfg : Config} {acts : List ExpiryAct} : ∀ {s s' : ExpiryState},
    s.runs cfg false acts = some s' → Run (ExpiryStep cfg) s acts s' := by
  induction acts with
  | nil =>
    intro s s' h
    cases h
    exact .nil s
  | cons a rest ih =>
    intro s s' h
    simp only [ExpiryState.runs, Bool.false_eq_true, false_implies, if_true] at h
    split at h
    · cases h
    · next s₁ hstep => exact .cons hstep (ih h)

namespace Sample

def leased : Machine :=
  { id := hostMachineId 0
    status := .running
    ready := true
    expiresAt := 1000
    vcpus := 1
    memoryMb := 512
    diskMb := 1024
    leaseId := leaseId 0
    leaseGeneration := 1 }

/-- The machine's timer is armed for its expiry, in one second. -/
def expiring : ExpiryState :=
  { manager := ((fresh ⟨none, 0⟩ [] (some bootId)).allocate leased).1
    now := 999
    timers := [⟨0, hostMachineId 0, 1000⟩]
    nextTimer := 1
    timerOf := fun r => if r = 0 then some 0 else none
    waiting := []
    sweep := []
    removed := [] }

theorem expiring_ready : ExpiryReady expiring where
  waiting := rfl
  sweep := rfl
  removed := rfl
  timers t ht r hr := by
    have ht : t = ⟨0, hostMachineId 0, 1000⟩ := List.mem_singleton.mp ht
    subst ht
    have hr : some 0 = some r := hr
    cases hr
    exact ⟨rfl, rfl⟩
  honoured id r hr _ key target hmem := by
    have hmach : r = 0 := List.mem_singleton.mp (find_some hr).1
    subst hmach
    cases hmem

def extension : ExpiryAct := .extend (hostMachineId 0) (leaseId 0) "extend-a" 2000 999 .none

/-- The extension comes before the timer fires. -/
def extendedInTime : List ExpiryAct :=
  [extension, .tick 2000, .fire 1, .callback (hostMachineId 0) (reading 2000) .none]

/-- The timer has fired and waits for the lock when the extension is acknowledged. -/
def extendedLate : List ExpiryAct :=
  [.tick 1000, .fire 0, extension, .callback (hostMachineId 0) (reading 1000) .none]

end Sample

/-- The theorem at an extension in time: the machine is removed at the extended expiry. -/
theorem reaped_on_time_sample : ∃ s, Run (ExpiryStep Sample.config) Sample.expiring Sample.extendedInTime s ∧
    s.removed.length = 1 ∧ ∀ m t, (m, t) ∈ s.removed → m.persistent = false → m.expiresAt ≤ t := by
  have h : (Sample.expiring.runs Sample.config true Sample.extendedInTime).any
      (fun s => decide (s.removed.length = 1)) = true := by decide +kernel
  obtain ⟨s, hs, hlen⟩ := (Option.any_eq_true _ _).mp h
  have hrun := ExpiryState.runs_run hs
  exact ⟨s, hrun.run, of_decide_eq_true hlen, fun m t hm hp =>
    (reaped_on_time Sample.config Sample.expiring s _ Sample.expiring_ready hrun m t hm hp).1⟩

/-- **The extension is overtaken.**  Acknowledged while the callback waits, it does not keep the machine:
`reap` removes it a thousand seconds before the extended expiry. -/
theorem extension_overtaken :
    ¬ ∀ (cfg : Config) (s₀ s : ExpiryState) (acts : List ExpiryAct), ExpiryReady s₀ →
      Run (ExpiryStep cfg) s₀ acts s → ∀ m t, (m, t) ∈ s.removed → m.persistent = false →
        m.expiresAt ≤ t := by
  intro hall
  have h : (Sample.expiring.runs Sample.config false Sample.extendedLate).any (fun s =>
      s.removed.any fun x => !x.1.persistent && decide (x.2 < x.1.expiresAt)) = true := by decide +kernel
  obtain ⟨s, hs, hearly⟩ := (Option.any_eq_true _ _).mp h
  obtain ⟨⟨m, t⟩, hmem, hx⟩ := List.any_eq_true.mp hearly
  simp only [Bool.and_eq_true, Bool.not_eq_true', decide_eq_true_eq] at hx
  have hle := hall Sample.config Sample.expiring s _ Sample.expiring_ready
    (ExpiryState.runs_unguarded hs) m t hmem hx.1
  exact absurd hx.2 (not_lt.mpr hle)

end Nehemiah.Host
