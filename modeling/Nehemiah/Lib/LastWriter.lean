import Mathlib

/-!
# Last writer wins

A register keeps, of the events it is shown, the one with the greatest key.  What it holds does not depend
on the order in which the events come, nor on how often each of them comes (`isLatest_congr`); a new event
takes over when its key is greater than the key of the event that the register holds, and changes nothing
otherwise.
-/

namespace Nehemiah.Lib

variable {ε κ : Type*} [LinearOrder κ]

/-- The event is one of them, and none of them is later. -/
def IsLatest (key : ε → κ) (es : List ε) (e : ε) : Prop := e ∈ es ∧ ∀ e' ∈ es, key e' ≤ key e

variable {key : ε → κ} {es es' : List ε} {e e' p : ε}

theorem isLatest_congr (h : ∀ e, e ∈ es ↔ e ∈ es') : IsLatest key es e ↔ IsLatest key es' e := by
  simp only [IsLatest, h]

theorem isLatest_exists (h : es ≠ []) : ∃ e, IsLatest key es e := by
  have hsome : List.argmax key es ≠ none := mt List.argmax_eq_none.mp h
  obtain ⟨e, he⟩ := Option.ne_none_iff_exists'.mp hsome
  exact ⟨e, List.argmax_mem he, fun e' he' => List.le_of_mem_argmax he' he⟩

/-- A later event takes over. -/
theorem isLatest_concat_of_lt (hp : IsLatest key es p) (hlt : key p < key e) :
    IsLatest key (es ++ [e]) e' ↔ e' = e := by
  constructor
  · rintro ⟨hmem, hmax⟩
    rcases List.mem_append.mp hmem with hmem | hmem
    · have hle := hmax e (List.mem_append_right _ (List.mem_singleton_self e))
      exact absurd (hle.trans (hp.2 e' hmem)) (not_le.mpr hlt)
    · exact List.mem_singleton.mp hmem
  · rintro rfl
    refine ⟨List.mem_append_right _ (List.mem_singleton_self e'), fun x hx => ?_⟩
    rcases List.mem_append.mp hx with hx | hx
    · exact (hp.2 x hx).trans hlt.le
    · rw [List.mem_singleton.mp hx]

/-- An earlier event changes nothing. -/
theorem isLatest_concat_of_gt (hp : IsLatest key es p) (hgt : key e < key p) :
    IsLatest key (es ++ [e]) e' ↔ IsLatest key es e' := by
  constructor
  · rintro ⟨hmem, hmax⟩
    refine ⟨?_, fun x hx => hmax x (List.mem_append_left _ hx)⟩
    rcases List.mem_append.mp hmem with hmem | hmem
    · exact hmem
    · rw [List.mem_singleton.mp hmem] at hmax
      exact absurd (hmax p (List.mem_append_left _ hp.1)) (not_le.mpr hgt)
  · rintro ⟨hmem, hmax⟩
    refine ⟨List.mem_append_left _ hmem, fun x hx => ?_⟩
    rcases List.mem_append.mp hx with hx | hx
    · exact hmax x hx
    · rw [List.mem_singleton.mp hx]
      exact hgt.le.trans (hmax p hp.1)

/-- The first event of a register. -/
theorem isLatest_singleton : IsLatest key [e] e' ↔ e' = e := by
  constructor
  · exact fun h => List.mem_singleton.mp h.1
  · rintro rfl
    refine ⟨List.mem_singleton_self e', fun x hx => ?_⟩
    rw [List.mem_singleton.mp hx]

end Nehemiah.Lib
