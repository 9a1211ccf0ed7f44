import Mathlib

/-!
# Half-open periods end to end

`Tiles a ps b`: the periods `ps`, read as half-open intervals from their first to their second component,
cover the stretch from `a` to `b` without gap or overlap, in order.  An empty list tiles the empty
stretch.  Tilings compose, and the periods of a tiling are pairwise disjoint.
-/

namespace Nehemiah.Lib

variable {α : Type*}

def Tiles [LE α] : α → List (α × α) → α → Prop
  | a, [], b => a = b
  | a, p :: ps, b => p.1 = a ∧ p.1 ≤ p.2 ∧ Tiles p.2 ps b

section Preorder

variable [Preorder α] {a b c : α} {ps qs : List (α × α)}

theorem Tiles.append (h : Tiles a ps b) (h' : Tiles b qs c) : Tiles a (ps ++ qs) c := by
  induction ps generalizing a with
  | nil =>
    cases h
    exact h'
  | cons p ps ih =>
    obtain ⟨h1, h2, h3⟩ := h
    exact ⟨h1, h2, ih h3⟩

theorem tiles_single (h : a ≤ b) : Tiles a [(a, b)] b := ⟨rfl, h, rfl⟩

/-- Adding a period at the end. -/
theorem Tiles.snoc (h : Tiles a ps b) (hbc : b ≤ c) : Tiles a (ps ++ [(b, c)]) c :=
  h.append (tiles_single hbc)

/-- Every period lies within the stretch. -/
theorem Tiles.mem (h : Tiles a ps b) : a ≤ b ∧ ∀ p ∈ ps, a ≤ p.1 ∧ p.1 ≤ p.2 ∧ p.2 ≤ b := by
  induction ps generalizing a with
  | nil =>
    cases h
    exact ⟨le_refl _, fun p hp => nomatch hp⟩
  | cons p ps ih =>
    obtain ⟨rfl, h2, h3⟩ := h
    obtain ⟨hle, hmem⟩ := ih h3
    refine ⟨h2.trans hle, fun q hq => ?_⟩
    rcases List.mem_cons.mp hq with rfl | hq
    · exact ⟨le_refl _, h2, hle⟩
    · obtain ⟨m1, m2, m3⟩ := hmem q hq
      exact ⟨h2.trans m1, m2, m3⟩

theorem Tiles.start_eq (h : Tiles a ps b) (p : α × α) (hp : ps.head? = some p) : p.1 = a := by
  cases ps with
  | nil => cases hp
  | cons q ps =>
    cases hp
    exact h.1

theorem Tiles.end_eq (h : Tiles a ps b) (p : α × α) (hp : ps.getLast? = some p) : p.2 = b := by
  induction ps generalizing a with
  | nil => cases hp
  | cons q ps ih =>
    obtain ⟨_, _, h3⟩ := h
    cases ps with
    | nil =>
      cases hp
      exact h3
    | cons r ps =>
      rw [List.getLast?_cons_cons] at hp
      exact ih h3 hp

/-- An earlier period ends before a later one starts. -/
theorem Tiles.ordered (h : Tiles a ps b) : ps.Pairwise fun p q => p.2 ≤ q.1 := by
  induction ps generalizing a with
  | nil => exact List.Pairwise.nil
  | cons p ps ih =>
    obtain ⟨_, _, h3⟩ := h
    exact List.Pairwise.cons (fun q hq => (h3.mem.2 q hq).1) (ih h3)

end Preorder

/-- **The periods of a tiling are pairwise disjoint.** -/
theorem Tiles.disjoint [LinearOrder α] {a b : α} {ps : List (α × α)} (h : Tiles a ps b) :
    ps.Pairwise fun p q => Disjoint (Set.Ico p.1 p.2) (Set.Ico q.1 q.2) := by
  refine h.ordered.imp fun {p q} hpq => ?_
  rw [Set.Ico_disjoint_Ico]
  exact (min_le_left _ _).trans (hpq.trans (le_max_right _ _))

end Nehemiah.Lib
