import Mathlib

/-!
# Locks of transactions

A table of transactions, each of which holds locks in a mode.  Two transactions exclude each other where they hold the
same resource and one of them holds it exclusively.  A transaction may take locks that no other excludes, and gives all
of them back when it ends; the table keeps the ones that have ended, without locks, so that every transaction keeps its
place.
-/

namespace Nehemiah.Lib

inductive LockMode
  | shared | exclusive

def LockMode.excludes : LockMode → LockMode → Bool
  | .shared, .shared => false
  | _, _ => true

section Locks

variable {ρ τ : Type*} [DecidableEq ρ]

/-- Some resource is held in modes that exclude each other. -/
def conflict (held held' : List (ρ × LockMode)) : Bool :=
  held.any fun l => held'.any fun l' => decide (l.1 = l'.1) && l.2.excludes l'.2

theorem conflict_comm (held held' : List (ρ × LockMode)) : conflict held held' = conflict held' held := by
  have hexcludes : ∀ m m' : LockMode, m.excludes m' = m'.excludes m := by
    intro m m'
    cases m <;> cases m' <;> rfl
  rw [Bool.eq_iff_iff]
  simp only [conflict, List.any_eq_true, Bool.and_eq_true, decide_eq_true_eq]
  constructor
  · rintro ⟨l, hl, l', hl', hr, hm⟩
    exact ⟨l', hl', l, hl, hr.symm, by rwa [hexcludes]⟩
  · rintro ⟨l, hl, l', hl', hr, hm⟩
    exact ⟨l', hl', l, hl, hr.symm, by rwa [hexcludes]⟩

theorem conflict_of_mem {held held' : List (ρ × LockMode)} {r : ρ} {m m' : LockMode} (h : (r, m) ∈ held)
    (h' : (r, m') ∈ held') (hm : m.excludes m' = true) : conflict held held' = true := by
  simp only [conflict, List.any_eq_true, Bool.and_eq_true, decide_eq_true_eq]
  exact ⟨_, h, _, h', rfl, hm⟩

theorem conflict_nil (held : List (ρ × LockMode)) : conflict held [] = false := by simp [conflict]

variable (locks : τ → List (ρ × LockMode))

/-- No other transaction than the `i`-th stands in the way of the locks. -/
def lockable (table : List τ) (i : ℕ) (wanted : List (ρ × LockMode)) : Bool :=
  (List.range table.length).all fun j => decide (j = i) || (table[j]?).all fun x => !conflict wanted (locks x)

/-- Transactions do not hold locks that exclude each other. -/
def Exclusion (table : List τ) : Prop :=
  ∀ (i j : ℕ) (x y : τ), i ≠ j → table[i]? = some x → table[j]? = some y → conflict (locks x) (locks y) = false

variable {locks} {table : List τ}

theorem lockable_iff {i : ℕ} {wanted : List (ρ × LockMode)} :
    lockable locks table i wanted = true ↔ ∀ j y, j ≠ i → table[j]? = some y → conflict wanted (locks y) = false := by
  simp only [lockable, List.all_eq_true, List.mem_range, Bool.or_eq_true, decide_eq_true_eq]
  constructor
  · intro h j y hne hy
    have hj := (h j (List.getElem?_eq_some_iff.mp hy).1).resolve_left hne
    rw [hy] at hj
    simpa using hj
  · intro h j hj
    by_cases hji : j = i
    · exact .inl hji
    · refine .inr ?_
      cases hy : table[j]? with
      | none => rfl
      | some y => simp [h j y hji hy]

theorem Exclusion.set (h : Exclusion locks table) {i : ℕ} {x : τ} (hx : lockable locks table i (locks x) = true) :
    Exclusion locks (table.set i x) := by
  have hfree := lockable_iff.mp hx
  intro j k y z hne hy hz
  rw [List.getElem?_set] at hy hz
  split_ifs at hy hz with hj _ hk
  · exact absurd (hj.symm.trans hk) hne
  · cases hy
    exact hfree k z (fun hki => hk hki.symm) hz
  · cases hz
    rw [conflict_comm]
    exact hfree j y (fun hji => hj hji.symm) hy
  · exact h j k y z hne hy hz

theorem Exclusion.append (h : Exclusion locks table) {x : τ} (hx : lockable locks table table.length (locks x) = true) :
    Exclusion locks (table ++ [x]) := by
  have hfree := lockable_iff.mp hx
  have hget : ∀ j y, (table ++ [x])[j]? = some y → table[j]? = some y ∨ j = table.length ∧ y = x := by
    intro j y hy
    rw [List.getElem?_append] at hy
    split_ifs at hy with hj
    · exact .inl hy
    · obtain ⟨hlt, hval⟩ := List.getElem?_eq_some_iff.mp hy
      rw [List.length_singleton] at hlt
      exact .inr ⟨by omega, by simpa using hval.symm⟩
  intro j k y z hne hy hz
  obtain hy' | ⟨rfl, rfl⟩ := hget j y hy
  · obtain hz' | ⟨rfl, rfl⟩ := hget k z hz
    · exact h j k y z hne hy' hz'
    · rw [conflict_comm]
      exact hfree j y hne hy'
  · obtain hz' | ⟨rfl, -⟩ := hget k z hz
    · exact hfree k z hne.symm hz'
    · exact absurd rfl hne

end Locks

end Nehemiah.Lib
