import Mathlib

/-!
# Rank in a list

The rank of an element is the number of elements with a greater key.  In a list that is sorted by distinct keys the
last `n` elements are those of rank below `n`, so that dropping all but the last `n` can be told from the keys
alone, without the sorting.
-/

namespace Nehemiah.Lib

variable {α κ : Type*} [LinearOrder κ] (key : α → κ)

def rank (l : List α) (a : α) : ℕ := l.countP fun b => decide (key a < key b)

/-- The elements but the last `n`, and the last `n`. -/
def allBut (n : ℕ) (l : List α) : List α := l.take (l.length - n)

def final (n : ℕ) (l : List α) : List α := l.drop (l.length - n)

def sortBy (l : List α) : List α := l.mergeSort fun a b => decide (key a ≤ key b)

variable {key} {l l' : List α} {a : α} {n : ℕ}

theorem sortBy_perm : (sortBy key l).Perm l := List.mergeSort_perm _ _

theorem sortBy_pairwise : (sortBy key l).Pairwise fun a b => key a ≤ key b := by
  have hsorted := @List.pairwise_mergeSort α (fun a b => decide (key a ≤ key b))
    (fun a b c hab hbc => decide_eq_true ((of_decide_eq_true hab).trans (of_decide_eq_true hbc)))
    (fun a b => by simpa using le_total (key a) (key b)) l
  exact hsorted.imp fun h => of_decide_eq_true h

/-- Distinct keys are sorted strictly. -/
theorem sortBy_strict (h : (l.map key).Nodup) : (sortBy key l).Pairwise fun a b => key a < key b := by
  have hnodup : ((sortBy key l).map key).Nodup := (sortBy_perm.map key).nodup_iff.mpr h
  have hne : (sortBy key l).Pairwise fun a b => key a ≠ key b := List.pairwise_map.mp hnodup
  exact sortBy_pairwise.imp₂ (fun _ _ hle hne => lt_of_le_of_ne hle hne) hne

theorem rank_perm (h : l.Perm l') : rank key l a = rank key l' a := h.countP_eq _

theorem allBut_append_final : allBut n l ++ final n l = l := List.take_append_drop _ _

theorem final_length : (final n l).length = min n l.length := by
  simp only [final, List.length_drop]
  omega

theorem rank_split : rank key l a = rank key (allBut n l) a + rank key (final n l) a := by
  conv_lhs => rw [← allBut_append_final (l := l) (n := n)]
  exact List.countP_append

theorem allBut_lt_final (h : l.Pairwise fun a b => key a < key b) :
    ∀ x ∈ allBut n l, ∀ y ∈ final n l, key x < key y :=
  (List.pairwise_append.mp (by rwa [allBut_append_final])).2.2

theorem final_rank (h : l.Pairwise fun a b => key a < key b) (ha : a ∈ final n l) : rank key l a < n := by
  have hsplit : rank key l a = rank key (allBut n l) a + rank key (final n l) a := rank_split
  have hbelow := allBut_lt_final (n := n) h
  have hnone : rank key (allBut n l) a = 0 :=
    List.countP_eq_zero.mpr fun b hb => by simpa using (hbelow b hb a ha).le
  -- the element itself is not above itself
  have hself : rank key (final n l) a < (final n l).length := by
    refine lt_of_le_of_ne (List.countP_le_length) fun hall => ?_
    have habove := List.countP_eq_length.mp hall a ha
    simp at habove
  rw [final_length] at hself
  omega

theorem allBut_rank (h : l.Pairwise fun a b => key a < key b) (ha : a ∈ allBut n l) : n ≤ rank key l a := by
  have hsplit : rank key l a = rank key (allBut n l) a + rank key (final n l) a := rank_split
  have habove := allBut_lt_final (n := n) h
  have hall : rank key (final n l) a = (final n l).length :=
    List.countP_eq_length.mpr fun b hb => by simpa using habove a ha b hb
  have hlong : n ≤ l.length := by
    by_contra hshort
    have hempty : allBut n l = [] := by simp [allBut, Nat.sub_eq_zero_of_le (not_le.mp hshort).le]
    rw [hempty] at ha
    cases ha
  rw [final_length, min_eq_left hlong] at hall
  omega

/-- **Rank.**  Of a list with distinct keys, the last `n` in the sorted order are those of rank below `n`. -/
theorem mem_final_sortBy (h : (l.map key).Nodup) : a ∈ final n (sortBy key l) ↔ a ∈ l ∧ rank key l a < n := by
  have hstrict := sortBy_strict h
  constructor
  · intro ha
    refine ⟨sortBy_perm.mem_iff.mp (List.drop_subset _ _ ha), ?_⟩
    have hperm : rank key (sortBy key l) a = rank key l a := rank_perm sortBy_perm
    exact hperm ▸ final_rank hstrict ha
  · rintro ⟨ha, hrank⟩
    have hmem : a ∈ sortBy key l := sortBy_perm.mem_iff.mpr ha
    rw [← allBut_append_final (l := sortBy key l) (n := n)] at hmem
    rcases List.mem_append.mp hmem with hlow | hhigh
    · have hge := allBut_rank hstrict hlow
      rw [rank_perm sortBy_perm] at hge
      omega
    · exact hhigh

theorem mem_allBut_sortBy (h : (l.map key).Nodup) : a ∈ allBut n (sortBy key l) ↔ a ∈ l ∧ n ≤ rank key l a := by
  have hstrict := sortBy_strict h
  constructor
  · intro ha
    refine ⟨sortBy_perm.mem_iff.mp (List.take_subset _ _ ha), ?_⟩
    have hperm : rank key (sortBy key l) a = rank key l a := rank_perm sortBy_perm
    exact hperm ▸ allBut_rank hstrict ha
  · rintro ⟨ha, hrank⟩
    have hmem : a ∈ sortBy key l := sortBy_perm.mem_iff.mpr ha
    rw [← allBut_append_final (l := sortBy key l) (n := n)] at hmem
    rcases List.mem_append.mp hmem with hlow | hhigh
    · exact hlow
    · have hlt := ((mem_final_sortBy h).mp hhigh).2
      omega

/-- In a sorted list the elements up to the first that fails the test are those below which every one passes it. -/
theorem mem_takeWhile_sorted {p : α → Bool} (h : l.Pairwise fun a b => key a < key b) :
    a ∈ l.takeWhile p ↔ a ∈ l ∧ ∀ b ∈ l, key b ≤ key a → p b = true := by
  induction l with
  | nil => simp
  | cons c l ih =>
    obtain ⟨hc, hl⟩ := List.pairwise_cons.mp h
    cases hp : p c with
    | false =>
      rw [List.takeWhile_cons_of_neg (by simp [hp])]
      constructor
      · intro ha
        cases ha
      · rintro ⟨ha, hall⟩
        have hle : key c ≤ key a := by
          rcases List.mem_cons.mp ha with rfl | ha
          · exact le_rfl
          · exact (hc a ha).le
        rw [hall c List.mem_cons_self hle] at hp
        cases hp
    | true =>
      rw [List.takeWhile_cons_of_pos hp, List.mem_cons, List.mem_cons, ih hl]
      constructor
      · rintro (rfl | ⟨ha, hall⟩)
        · refine ⟨.inl rfl, ?_⟩
          intro b hb hba
          rcases List.mem_cons.mp hb with rfl | hb
          · exact hp
          · exact absurd hba (not_le.mpr (hc b hb))
        · refine ⟨.inr ha, ?_⟩
          intro b hb hba
          rcases List.mem_cons.mp hb with rfl | hb
          · exact hp
          · exact hall b hb hba
      · rintro ⟨rfl | ha, hall⟩
        · exact .inl rfl
        · exact .inr ⟨ha, fun b hb => hall b (List.mem_cons_of_mem _ hb)⟩

end Nehemiah.Lib
