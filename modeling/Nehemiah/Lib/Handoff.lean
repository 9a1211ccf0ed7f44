import Nehemiah.Lib.Run

/-!
# A semaphore that hands its slots over

Who comes while all slots are taken waits in a queue of bounded length, or is turned away.  Who leaves hands its slot
to the first in the queue, which goes on at some later time; the slot stays counted in between, so that nobody who comes
then can take it.

`Handoff.Exact` says that no slot is idle while somebody waits, and `Handoff.waits` that a place in the queue is left
after as many slots have been given back, whoever comes in the meantime.
-/

namespace Nehemiah.Lib

structure Handoff (κ : Type*) where
  active : ℤ
  waiters : List κ
  granted : List κ
  running : List κ

inductive HandoffAct (κ : Type*)
  | enter (k : κ)
  | resume (k : κ)
  | leave (k : κ)

namespace Handoff

variable {κ : Type*} {limit queueLimit : ℤ} {s t : Handoff κ} {k : κ}

def start : Handoff κ := ⟨0, [], [], []⟩

/-- Whether somebody who comes is turned away. -/
def busy (limit queueLimit : ℤ) (s : Handoff κ) : Bool :=
  decide (limit ≤ s.active) && decide (queueLimit ≤ s.waiters.length)

def next [DecidableEq κ] (limit queueLimit : ℤ) (s : Handoff κ) : HandoffAct κ → Option (Handoff κ)
  | .enter k =>
    if s.active < limit then some { s with active := s.active + 1, running := s.running ++ [k] }
    else if queueLimit ≤ s.waiters.length then some s
    else some { s with waiters := s.waiters ++ [k] }
  | .resume k =>
    if k ∈ s.granted then some { s with granted := s.granted.erase k, running := s.running ++ [k] } else none
  | .leave k =>
    if k ∈ s.running then
      match s.waiters with
      | [] => some { s with active := s.active - 1, running := s.running.erase k }
      | w :: ws => some { s with waiters := ws, granted := s.granted ++ [w], running := s.running.erase k }
    else none

/-- Who comes is turned away, and leaves everything as it was, just when all slots are taken and the queue is full. -/
theorem enter_refused [DecidableEq κ] (k : κ) :
    s.next limit queueLimit (.enter k) = some s ↔ s.busy limit queueLimit = true := by
  simp only [Handoff.next, busy, Bool.and_eq_true, decide_eq_true_eq]
  split_ifs with hroom hfull
  · refine ⟨fun h => ?_, fun h => absurd h.1 (not_le.mpr hroom)⟩
    have hactive := congrArg Handoff.active (Option.some.inj h)
    exact absurd hactive (by show s.active + 1 ≠ s.active; omega)
  · exact ⟨fun _ => ⟨not_lt.mp hroom, hfull⟩, fun _ => rfl⟩
  · refine ⟨fun h => ?_, fun h => absurd h.2 hfull⟩
    have hwaiters := congrArg (fun s => s.waiters.length) (Option.some.inj h)
    rw [List.length_append, List.length_singleton] at hwaiters
    omega

/-- The slots are those of who runs or is about to, and none is idle while somebody waits. -/
structure Exact (limit queueLimit : ℤ) (s : Handoff κ) : Prop where
  active : s.active = s.running.length + s.granted.length
  bound : s.active ≤ max limit 0
  queue : s.waiters.length ≤ max queueLimit 0
  full : s.waiters ≠ [] → limit ≤ s.active

theorem Exact.start : Exact limit queueLimit (start : Handoff κ) :=
  ⟨rfl, le_max_right _ _, le_max_right _ _, fun h => (h rfl).elim⟩

def leaves (as : List (HandoffAct κ)) : ℕ :=
  as.countP fun
    | .leave _ => true
    | _ => false

variable [DecidableEq κ]

theorem Exact.next (h : Exact limit queueLimit s) {a : HandoffAct κ} (ha : s.next limit queueLimit a = some t) :
    Exact limit queueLimit t := by
  have hactive := h.active
  have hbound := h.bound
  have hqueue := h.queue
  cases a with
  | enter k =>
    simp only [Handoff.next] at ha
    split_ifs at ha with hroom hfull <;> cases ha
    · refine ⟨?_, ?_, hqueue, fun hne => ?_⟩
      · rw [List.length_append, List.length_singleton]
        push_cast
        omega
      · show s.active + 1 ≤ max limit 0
        omega
      · have := h.full hne
        omega
    · exact h
    · refine ⟨hactive, hbound, ?_, fun _ => not_lt.mp hroom⟩
      rw [List.length_append, List.length_singleton]
      push_cast
      omega
  | resume k =>
    simp only [Handoff.next] at ha
    split_ifs at ha with hmem
    cases ha
    refine ⟨?_, hbound, hqueue, h.full⟩
    have hlen := List.length_erase_add_one hmem
    rw [List.length_append, List.length_singleton]
    push_cast
    omega
  | leave k =>
    simp only [Handoff.next] at ha
    split_ifs at ha with hmem
    have hlen := List.length_erase_add_one hmem
    cases hw : s.waiters with
    | nil =>
      rw [hw] at ha
      cases ha
      refine ⟨?_, ?_, le_max_right _ _, fun hne => (hne rfl).elim⟩
      · show s.active - 1 = (s.running.erase k).length + s.granted.length
        omega
      · show s.active - 1 ≤ _
        omega
    | cons w ws =>
      rw [hw] at ha
      cases ha
      have hlimit := h.full (by simp [hw])
      rw [hw, List.length_cons] at hqueue
      refine ⟨?_, hbound, ?_, fun _ => hlimit⟩
      · rw [List.length_append, List.length_singleton]
        push_cast
        omega
      · show (ws.length : ℤ) ≤ _
        push_cast at hqueue
        omega

theorem Exact.run {as : List (HandoffAct κ)}
    (h : Run (fun s a t => Handoff.next limit queueLimit s a = some t) (Handoff.start : Handoff κ) as s) :
    Exact limit queueLimit s :=
  h.invariant (fun _ _ _ hs ha => hs.next ha) .start

/-! ### The order -/

/-- A place in the queue moves up by one with a slot that is given back, and by nothing else. -/
theorem next_waiters {n : ℕ} (hn : s.waiters[n]? = some k) {a : HandoffAct κ}
    (ha : s.next limit queueLimit a = some t) (hle : leaves [a] ≤ n) : t.waiters[n - leaves [a]]? = some k := by
  cases a with
  | enter j =>
    show t.waiters[n]? = some k
    simp only [Handoff.next] at ha
    split_ifs at ha <;> cases ha
    · exact hn
    · exact hn
    · rw [List.getElem?_append_left (List.getElem?_eq_some_iff.mp hn).1]
      exact hn
  | resume j =>
    show t.waiters[n]? = some k
    simp only [Handoff.next] at ha
    split_ifs at ha
    cases ha
    exact hn
  | leave j =>
    have hle : 1 ≤ n := hle
    show t.waiters[n - 1]? = some k
    simp only [Handoff.next] at ha
    split_ifs at ha
    cases hw : s.waiters with
    | nil =>
      rw [hw] at hn
      cases hn
    | cons w ws =>
      rw [hw] at ha hn
      cases ha
      obtain ⟨m, rfl⟩ := Nat.exists_eq_add_of_le' hle
      exact hn

/-- **First come, first served.** -/
theorem waits {n : ℕ} (hn : s.waiters[n]? = some k) {as : List (HandoffAct κ)}
    (h : Run (fun s a t => Handoff.next limit queueLimit s a = some t) s as t) (hle : leaves as ≤ n) :
    t.waiters[n - leaves as]? = some k := by
  induction h generalizing n with
  | nil s => exact hn
  | @cons s u t a as ha _ ih =>
    have hcons : leaves (a :: as) = leaves [a] + leaves as := by
      rw [← List.singleton_append, leaves, List.countP_append]
      rfl
    rw [hcons] at hle ⊢
    have hrest := ih (next_waiters hn ha (by omega)) (by omega)
    rwa [Nat.sub_sub] at hrest

/-- The first in the queue gets the slot that is given back. -/
theorem next_granted (hk : s.waiters[0]? = some k) {j : κ} (ha : s.next limit queueLimit (.leave j) = some t) :
    t.granted = s.granted ++ [k] := by
  simp only [Handoff.next] at ha
  split_ifs at ha
  cases hw : s.waiters with
  | nil =>
    rw [hw] at hk
    cases hk
  | cons w ws =>
    rw [hw] at ha hk
    cases ha
    cases hk
    rfl

end Handoff

end Nehemiah.Lib
