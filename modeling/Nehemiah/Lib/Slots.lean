import Nehemiah.Lib.Run

/-!
# Counted slots

A semaphore that counts its holders, in all and for each key, with a bound on both.  A key without holders has no entry.
It hands out slots, and with each of them a function that gives it back; the function may be called any number of times
and does so once.

`Counts s held` says that the numbers are those of the holders.  Every step of a desk keeps it, so that the bounds
hold of the holders themselves (`Desk.Exact`).
-/

namespace Nehemiah.Lib

structure Slots (κ : Type*) where
  total : ℤ
  byKey : κ → Option ℤ

namespace Slots

variable {κ : Type*} [DecidableEq κ] {maximumTotal maximumKey : ℤ} {s t : Slots κ} {held held' : List κ} {k : κ}

def empty : Slots κ := ⟨0, fun _ => none⟩

/-- The entry of the map, which is zero where there is none. -/
def count (s : Slots κ) (k : κ) : ℤ := (s.byKey k).getD 0

def acquire (maximumTotal maximumKey : ℤ) (s : Slots κ) (k : κ) : Option (Slots κ) :=
  if maximumTotal ≤ s.total ∨ maximumKey ≤ s.count k then none
  else some ⟨s.total + 1, Function.update s.byKey k (some (s.count k + 1))⟩

def release (s : Slots κ) (k : κ) : Slots κ :=
  ⟨s.total - 1, Function.update s.byKey k (if s.count k - 1 = 0 then none else some (s.count k - 1))⟩

/-- The numbers are those of the holders. -/
structure Counts (s : Slots κ) (held : List κ) : Prop where
  total : s.total = held.length
  byKey : ∀ k, s.byKey k = if held.count k = 0 then none else some (held.count k : ℤ)

theorem Counts.empty : Counts (empty : Slots κ) [] := ⟨rfl, fun _ => rfl⟩

theorem Counts.perm (h : Counts s held) (hp : held.Perm held') : Counts s held' where
  total := by rw [h.total, hp.length_eq]
  byKey k := by rw [h.byKey, hp.count_eq]

theorem Counts.count (h : Counts s held) (k : κ) : s.count k = held.count k := by
  rw [Slots.count, h.byKey]
  split_ifs with hk
  · rw [hk]
    rfl
  · rfl

theorem Counts.acquire_eq_none (h : Counts s held) :
    acquire maximumTotal maximumKey s k = none ↔ maximumTotal ≤ held.length ∨ maximumKey ≤ held.count k := by
  rw [acquire, h.total, h.count]
  split_ifs with hb
  · exact iff_of_true rfl hb
  · exact iff_of_false (by simp) hb

theorem Counts.acquire (h : Counts s held) (ha : acquire maximumTotal maximumKey s k = some t) :
    Counts t (k :: held) := by
  unfold Slots.acquire at ha
  split_ifs at ha
  cases ha
  refine ⟨by simp [h.total], fun j => ?_⟩
  rw [List.count_cons]
  by_cases hj : j = k
  · subst hj
    simp [h.count]
  · have hkj : ¬k = j := fun h => hj h.symm
    show Function.update s.byKey k _ j = _
    rw [Function.update_of_ne hj, h.byKey]
    simp [hkj]

theorem Counts.release (h : Counts s (k :: held)) : Counts (s.release k) held := by
  have hcount : s.count k - 1 = held.count k := by
    rw [h.count, List.count_cons_self]
    omega
  refine ⟨?_, fun j => ?_⟩
  · show s.total - 1 = _
    rw [h.total, List.length_cons]
    omega
  · show Function.update s.byKey k _ j = _
    by_cases hj : j = k
    · subst hj
      rw [Function.update_self, hcount]
      simp
    · rw [Function.update_of_ne hj, h.byKey, List.count_cons_of_ne (fun h => hj h.symm)]

end Slots

/-! ### The desk -/

/-- The semaphore with the slots that it has handed out; the flag is the `sync.Once` of the release. -/
structure Desk (κ : Type*) where
  slots : Slots κ
  grants : List (κ × Bool)

inductive DeskAct (κ : Type*)
  | acquire (k : κ)
  | release (i : ℕ)

namespace Desk

section Held

variable {κ : Type*}

def heldBy (grants : List (κ × Bool)) : List κ := (grants.filter fun g => !g.2).map Prod.fst

/-- To give a slot back takes its key from those that are held. -/
theorem heldBy_set {grants : List (κ × Bool)} {i : ℕ} {k : κ} (h : grants[i]? = some (k, false)) :
    (heldBy grants).Perm (k :: heldBy (grants.set i (k, true))) := by
  induction grants generalizing i with
  | nil => simp at h
  | cons g grants ih =>
    cases i with
    | zero =>
      rw [List.getElem?_cons_zero, Option.some.injEq] at h
      subst h
      exact List.Perm.refl _
    | succ i =>
      rw [List.getElem?_cons_succ] at h
      have hrest := ih h
      obtain ⟨j, released⟩ := g
      cases released with
      | true => exact hrest
      | false => exact (hrest.cons j).trans (List.Perm.swap k j _)

theorem heldBy_concat (grants : List (κ × Bool)) (k : κ) :
    (heldBy (grants ++ [(k, false)])).Perm (k :: heldBy grants) := by
  rw [heldBy, List.filter_append, List.map_append]
  exact List.perm_append_singleton k _

end Held

variable {κ : Type*} [DecidableEq κ] {maximumTotal maximumKey : ℤ} {s t : Desk κ}

def start : Desk κ := ⟨.empty, []⟩

/-- An acquisition that is refused changes nothing, and neither does a release that is called again. -/
def next (maximumTotal maximumKey : ℤ) (s : Desk κ) : DeskAct κ → Option (Desk κ)
  | .acquire k =>
    match s.slots.acquire maximumTotal maximumKey k with
    | some slots => some ⟨slots, s.grants ++ [(k, false)]⟩
    | none => some s
  | .release i =>
    match s.grants[i]? with
    | some (k, false) => some ⟨s.slots.release k, s.grants.set i (k, true)⟩
    | some (_, true) => some s
    | none => none

/-- The keys of the slots that have not been given back. -/
def held (s : Desk κ) : List κ := heldBy s.grants

def heldFor (s : Desk κ) (k : κ) : ℕ := s.held.count k

/-- The numbers are those of the slots that are out, and these are within the bounds. -/
structure Exact (maximumTotal maximumKey : ℤ) (s : Desk κ) : Prop where
  counts : s.slots.Counts s.held
  total : s.held.length ≤ max maximumTotal 0
  byKey : ∀ k, (s.held.count k : ℤ) ≤ max maximumKey 0

theorem Exact.start : Exact maximumTotal maximumKey (start : Desk κ) :=
  ⟨.empty, le_max_right _ _, fun _ => le_max_right _ _⟩

theorem Exact.next (h : Exact maximumTotal maximumKey s) {a : DeskAct κ} (ha : s.next maximumTotal maximumKey a = some t) :
    Exact maximumTotal maximumKey t := by
  cases a with
  | acquire k =>
    simp only [Desk.next] at ha
    split at ha
    · next slots hslots =>
      cases ha
      have hperm : (heldBy (s.grants ++ [(k, false)])).Perm (k :: s.held) := heldBy_concat s.grants k
      have hroom : ¬(maximumTotal ≤ s.held.length ∨ maximumKey ≤ s.held.count k) := by
        rw [← h.counts.acquire_eq_none, hslots]
        exact Option.some_ne_none _
      refine ⟨(h.counts.acquire hslots).perm hperm.symm, ?_, fun j => ?_⟩
      · show ((heldBy (s.grants ++ [(k, false)])).length : ℤ) ≤ _
        rw [hperm.length_eq, List.length_cons]
        omega
      · show ((heldBy (s.grants ++ [(k, false)])).count j : ℤ) ≤ _
        rw [hperm.count_eq, List.count_cons]
        have hj := h.byKey j
        split_ifs with hjk
        · obtain rfl : k = j := by simpa using hjk
          omega
        · omega
    · cases ha
      exact h
  | release i =>
    simp only [Desk.next] at ha
    split at ha
    · next k hk =>
      cases ha
      have hperm : s.held.Perm (k :: heldBy (s.grants.set i (k, true))) := heldBy_set hk
      refine ⟨(h.counts.perm hperm).release, ?_, fun j => ?_⟩
      · have hlen := h.total
        rw [hperm.length_eq, List.length_cons] at hlen
        show ((heldBy (s.grants.set i (k, true))).length : ℤ) ≤ _
        omega
      · have hj := h.byKey j
        rw [hperm.count_eq, List.count_cons] at hj
        show ((heldBy (s.grants.set i (k, true))).count j : ℤ) ≤ _
        omega
    · cases ha
      exact h
    · cases ha

theorem Exact.acquire_eq_none (h : Exact maximumTotal maximumKey s) {k : κ} :
    s.slots.acquire maximumTotal maximumKey k = none ↔ maximumTotal ≤ s.held.length ∨ maximumKey ≤ s.heldFor k :=
  h.counts.acquire_eq_none

theorem Exact.isSome_byKey (h : Exact maximumTotal maximumKey s) {k : κ} :
    (s.slots.byKey k).isSome ↔ k ∈ s.held := by
  rw [h.counts.byKey, ← List.count_pos_iff]
  split_ifs with hk
  · exact iff_of_false (by simp) (by omega)
  · exact iff_of_true rfl (by omega)

theorem Exact.run {as : List (DeskAct κ)}
    (h : Run (fun s a t => Desk.next maximumTotal maximumKey s a = some t) (Desk.start : Desk κ) as s) :
    Exact maximumTotal maximumKey s :=
  h.invariant (fun _ _ _ hs ha => hs.next ha) .start

end Desk

end Nehemiah.Lib
