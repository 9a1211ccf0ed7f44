import Mathlib

/-!
# Frontiers

Messages numbered from `1` arrive in any order.  The frontier of the numbers seen so far is the length
of their gapless prefix: everything up to it has arrived, the number after it has not.  A receiver that
processes in sequence has processed exactly the messages up to the frontier.
-/

namespace Nehemiah.Lib

/-- The gapless prefix of the numbers seen, at most `n`. -/
def frontier (n : ℕ) (seen : List ℕ) : ℕ :=
  Nat.findGreatest (fun c => ∀ i < c, i + 1 ∈ seen) n

theorem frontier_le (n : ℕ) (seen : List ℕ) : frontier n seen ≤ n := Nat.findGreatest_le n

variable {seen : List ℕ} {n : ℕ}

theorem mem_of_le_frontier {k : ℕ} (hk : 1 ≤ k) (h : k ≤ frontier n seen) : k ∈ seen := by
  have hspec : ∀ i < frontier n seen, i + 1 ∈ seen :=
    Nat.findGreatest_spec (P := fun c => ∀ i < c, i + 1 ∈ seen) (Nat.zero_le n)
      (fun i hi => absurd hi (Nat.not_lt_zero i))
  have := hspec (k - 1) (by omega)
  rwa [Nat.sub_add_cancel hk] at this

theorem le_frontier {c : ℕ} (hc : c ≤ n) (h : ∀ k, 1 ≤ k → k ≤ c → k ∈ seen) : c ≤ frontier n seen := by
  refine Nat.le_findGreatest hc fun i hi => ?_
  exact h (i + 1) (by omega) (by omega)

/-- The number after the frontier has not arrived. -/
theorem succ_frontier_notMem (hseen : ∀ k ∈ seen, k ≤ n) : frontier n seen + 1 ∉ seen := by
  intro hmem
  have hle : frontier n seen + 1 ≤ n := hseen _ hmem
  have : frontier n seen + 1 ≤ frontier n seen := le_frontier hle fun k h1 h2 => by
    rcases Nat.lt_or_ge (frontier n seen) k with h | h
    · rwa [show k = frontier n seen + 1 by omega]
    · exact mem_of_le_frontier h1 h
  omega

theorem frontier_mono {seen' : List ℕ} (h : ∀ k ∈ seen, k ∈ seen') : frontier n seen ≤ frontier n seen' :=
  le_frontier (frontier_le n seen) fun _ h1 h2 => h _ (mem_of_le_frontier h1 h2)

/-- When everything has arrived there is no gap. -/
theorem frontier_complete (h : ∀ k, 1 ≤ k → k ≤ n → k ∈ seen) : frontier n seen = n :=
  le_antisymm (frontier_le n seen) (le_frontier (le_refl n) h)

theorem frontier_nil (n : ℕ) : frontier n [] = 0 := by
  by_contra h
  have hone : 1 ∈ ([] : List ℕ) := mem_of_le_frontier (n := n) (le_refl 1) (by omega)
  cases hone

/-- Numbers seen, in the order of their first arrival. -/
def see (seen : List ℕ) (k : ℕ) : List ℕ := if k ∈ seen then seen else seen ++ [k]

theorem mem_see {j k : ℕ} : j ∈ see seen k ↔ j ∈ seen ∨ j = k := by
  unfold see
  split_ifs with h
  · constructor
    · exact Or.inl
    · rintro (hj | rfl)
      · exact hj
      · exact h
  · simp

/-- A repeated arrival moves nothing. -/
theorem see_of_mem {k : ℕ} (h : k ∈ seen) : see seen k = seen := if_pos h

end Nehemiah.Lib
