import Mathlib

/-!
# Tables

A table is the list of its rows.  `updateWhere` is an `UPDATE … SET … WHERE`, `sumWhere` a
`SELECT sum(…) … WHERE` that is zero when no row matches, and a key is a column whose values are distinct.

The one law of the module is `sumWhere_updateWhere`: an update takes from a sum what its rows were worth
before and adds what they are worth after.  With a key it speaks of a single row
(`sumWhere_updateWhere_key`).
-/

namespace Nehemiah.Lib

variable {ρ κ M : Type*}

def updateWhere (p : ρ → Bool) (f : ρ → ρ) (rows : List ρ) : List ρ :=
  rows.map fun r => if p r then f r else r

section Update

variable {p : ρ → Bool} {f : ρ → ρ} {rows : List ρ}

theorem mem_updateWhere {r' : ρ} :
    r' ∈ updateWhere p f rows ↔ ∃ r ∈ rows, (if p r then f r else r) = r' :=
  List.mem_map

theorem map_updateWhere {key : ρ → κ} (hkey : ∀ r, key (f r) = key r) :
    (updateWhere p f rows).map key = rows.map key := by
  rw [updateWhere, List.map_map]
  refine List.map_congr_left fun r _ => ?_
  show key (if p r then f r else r) = key r
  split_ifs
  · exact hkey r
  · rfl

theorem updateWhere_congr {g : ρ → ρ} (h : ∀ r ∈ rows, p r = true → f r = g r) :
    updateWhere p f rows = updateWhere p g rows := by
  refine List.map_congr_left fun r hr => ?_
  split_ifs with hp
  exacts [h r hr hp, rfl]

/-- What every row has and the update keeps, every row has afterwards. -/
theorem forall_updateWhere {P : ρ → Prop} (h : ∀ r ∈ rows, P r) (hf : ∀ r ∈ rows, p r = true → P (f r)) :
    ∀ r ∈ updateWhere p f rows, P r := by
  intro r' hr'
  obtain ⟨r, hr, rfl⟩ := mem_updateWhere.mp hr'
  split_ifs with hp
  · exact hf r hr hp
  · exact h r hr

/-- A lookup that the update does not disturb finds the updated row. -/
theorem find?_updateWhere {q : ρ → Bool} (hq : ∀ r, q (f r) = q r) :
    (updateWhere p f rows).find? q = (rows.find? q).map fun r => if p r then f r else r := by
  induction rows with
  | nil => rfl
  | cons r rows ih =>
    have hr : q (if p r then f r else r) = q r := by split_ifs; exacts [hq r, rfl]
    show ((if p r then f r else r) :: updateWhere p f rows).find? q = _
    cases h : q r with
    | true => simp [h, hr]
    | false => simp [h, hr, ih]

end Update

variable {key : ρ → κ} {rows : List ρ}

/-- In a table with a key, a lookup by the key of a row finds the row. -/
theorem find?_key [DecidableEq κ] (hn : (rows.map key).Nodup) {r : ρ} (hr : r ∈ rows) :
    rows.find? (fun x => decide (key x = key r)) = some r := by
  induction rows with
  | nil => cases hr
  | cons x rows ih =>
    obtain ⟨hx, hn⟩ := List.nodup_cons.mp hn
    obtain rfl | hr := List.mem_cons.mp hr
    · simp
    · have hne : key x ≠ key r := fun h => hx (h ▸ List.mem_map_of_mem hr)
      simp [hne, ih hn hr]

theorem find?_key_iff [DecidableEq κ] (hn : (rows.map key).Nodup) {k : κ} {r : ρ} :
    rows.find? (fun x => decide (key x = k)) = some r ↔ r ∈ rows ∧ key r = k := by
  constructor
  · intro h
    exact ⟨List.mem_of_find?_eq_some h, by simpa using List.find?_some h⟩
  · rintro ⟨hr, rfl⟩
    exact find?_key hn hr

/-- Rows of one key are one row. -/
theorem key_inj (hn : (rows.map key).Nodup) {r r' : ρ} (hr : r ∈ rows) (hr' : r' ∈ rows) (h : key r = key r') :
    r = r' :=
  List.inj_on_of_nodup_map hn hr hr' h

/-! ### Sums -/

section Sum

variable [AddCommMonoid M]

def sumWhere (p : ρ → Bool) (v : ρ → M) (rows : List ρ) : M :=
  (rows.map fun r => if p r then v r else 0).sum

variable {p q : ρ → Bool} {v w : ρ → M} {f : ρ → ρ} {rows : List ρ}

@[simp] theorem sumWhere_nil : sumWhere p v [] = 0 := rfl

@[simp] theorem sumWhere_cons (r : ρ) :
    sumWhere p v (r :: rows) = (if p r then v r else 0) + sumWhere p v rows := rfl

@[simp] theorem sumWhere_append (rows' : List ρ) :
    sumWhere p v (rows ++ rows') = sumWhere p v rows + sumWhere p v rows' := by
  simp [sumWhere]

theorem sumWhere_congr (h : ∀ r ∈ rows, (if p r then v r else 0) = if q r then w r else 0) :
    sumWhere p v rows = sumWhere q w rows := by
  rw [sumWhere, sumWhere, List.map_congr_left h]

theorem sumWhere_eq_zero (h : ∀ r ∈ rows, p r = true → v r = 0) : sumWhere p v rows = 0 := by
  refine List.sum_eq_zero fun x hx => ?_
  obtain ⟨r, hr, rfl⟩ := List.mem_map.mp hx
  split_ifs with hp
  exacts [h r hr hp, rfl]

theorem sumWhere_const {c : M} (h : ∀ r ∈ rows, p r = true ∧ v r = c) :
    sumWhere p v rows = rows.length • c := by
  induction rows with
  | nil => simp
  | cons r rows ih =>
    obtain ⟨hp, hv⟩ := h r List.mem_cons_self
    rw [sumWhere_cons, if_pos hp, hv, ih fun x hx => h x (List.mem_cons_of_mem r hx), List.length_cons,
      succ_nsmul']

/-- A sum of functions, at an argument. -/
theorem sumWhere_apply {ι : Type*} {v : ρ → ι → M} (i : ι) :
    sumWhere p v rows i = sumWhere p (fun r => v r i) rows := by
  induction rows with
  | nil => rfl
  | cons r rows ih =>
    rw [sumWhere_cons, sumWhere_cons, Pi.add_apply, ih]
    split_ifs <;> rfl

/-- **An update and a sum.** -/
theorem sumWhere_updateWhere :
    sumWhere p v (updateWhere q f rows) + sumWhere (fun r => q r && p r) v rows =
      sumWhere p v rows + sumWhere (fun r => q r && p (f r)) (fun r => v (f r)) rows := by
  induction rows with
  | nil => rfl
  | cons r rows ih =>
    have hcons : updateWhere q f (r :: rows) = (if q r then f r else r) :: updateWhere q f rows := rfl
    have hhead : (if p (if q r then f r else r) then v (if q r then f r else r) else 0)
        + (if q r && p r then v r else 0)
        = (if p r then v r else 0) + if q r && p (f r) then v (f r) else 0 := by
      cases q r with
      | false => simp
      | true => simp [add_comm]
    rw [hcons, sumWhere_cons, sumWhere_cons, sumWhere_cons, sumWhere_cons, add_add_add_comm, ih, hhead,
      add_add_add_comm]

variable {key : ρ → κ} {r : ρ}

theorem sumWhere_key [DecidableEq κ] (hn : (rows.map key).Nodup) (hr : r ∈ rows) :
    sumWhere (fun x => decide (key x = key r) && p x) v rows = if p r then v r else 0 := by
  induction rows with
  | nil => cases hr
  | cons x rows ih =>
    obtain ⟨hx, hn⟩ := List.nodup_cons.mp hn
    rw [sumWhere_cons]
    obtain rfl | hr := List.mem_cons.mp hr
    · have hrest : sumWhere (fun x => decide (key x = key r) && p x) v rows = 0 := by
        refine sumWhere_eq_zero fun y hy hpy => absurd ?_ hx
        simp only [Bool.and_eq_true, decide_eq_true_eq] at hpy
        exact hpy.1 ▸ List.mem_map_of_mem hy
      rw [hrest, add_zero]
      simp
    · have hne : key x ≠ key r := fun h => hx (h ▸ List.mem_map_of_mem hr)
      simp [hne, ih hn hr]

/-- **An update of one row and a sum.** -/
theorem sumWhere_updateWhere_key [DecidableEq κ] (hn : (rows.map key).Nodup) (hr : r ∈ rows) :
    sumWhere p v (updateWhere (fun x => decide (key x = key r)) f rows) + (if p r then v r else 0) =
      sumWhere p v rows + if p (f r) then v (f r) else 0 := by
  have h : sumWhere p v (updateWhere (fun x => decide (key x = key r)) f rows) + _ = _ := sumWhere_updateWhere
  rwa [sumWhere_key hn hr, sumWhere_key hn hr] at h

/-- **A change of what one row is worth, and a sum.** -/
theorem sumWhere_change_key [DecidableEq κ] (hn : (rows.map key).Nodup) (hr : r ∈ rows)
    (hv : ∀ x ∈ rows, key x ≠ key r → w x = v x) :
    sumWhere p w rows + (if p r then v r else 0) = sumWhere p v rows + if p r then w r else 0 := by
  induction rows with
  | nil => cases hr
  | cons x rows ih =>
    obtain ⟨hx, hn⟩ := List.nodup_cons.mp hn
    obtain rfl | hr := List.mem_cons.mp hr
    · have hrest : sumWhere p w rows = sumWhere p v rows := by
        refine sumWhere_congr fun y hy => ?_
        have hne : key y ≠ key r := fun h => hx (h ▸ List.mem_map_of_mem hy)
        rw [hv y (List.mem_cons_of_mem r hy) hne]
      rw [sumWhere_cons, sumWhere_cons, hrest, add_right_comm, add_comm (if p r then w r else 0),
        add_right_comm]
    · have hne : key x ≠ key r := fun h => hx (h ▸ List.mem_map_of_mem hr)
      have ih := ih hn hr fun y hy => hv y (List.mem_cons_of_mem x hy)
      rw [sumWhere_cons, sumWhere_cons, hv x List.mem_cons_self hne, add_assoc, add_assoc, ih]

/-- An update that leaves alone what the sum reads. -/
theorem sumWhere_updateWhere_same (hp : ∀ r ∈ rows, q r = true → p (f r) = p r)
    (hv : ∀ r ∈ rows, q r = true → p r = true → v (f r) = v r) :
    sumWhere p v (updateWhere q f rows) = sumWhere p v rows := by
  rw [sumWhere, updateWhere, List.map_map]
  refine congrArg List.sum (List.map_congr_left fun r hr => ?_)
  show (if p (if q r then f r else r) then v (if q r then f r else r) else 0) = if p r then v r else 0
  split_ifs with hq h h' h'
  · exact hv r hr hq h'
  · rw [hp r hr hq] at h
    exact absurd h h'
  · rw [hp r hr hq] at h
    exact absurd h' h
  all_goals rfl

variable [PartialOrder M] [IsOrderedAddMonoid M]

theorem sumWhere_nonneg (h : ∀ r ∈ rows, p r = true → 0 ≤ v r) : 0 ≤ sumWhere p v rows := by
  refine List.sum_nonneg fun x hx => ?_
  obtain ⟨r, hr, rfl⟩ := List.mem_map.mp hx
  split_ifs with hp
  exacts [h r hr hp, le_rfl]

/-- A sum of fewer nonnegative rows is smaller. -/
theorem sumWhere_mono (hq : ∀ r ∈ rows, q r = true → p r = true) (h : ∀ r ∈ rows, p r = true → 0 ≤ v r) :
    sumWhere q v rows ≤ sumWhere p v rows := by
  refine List.sum_le_sum fun r hr => ?_
  split_ifs with h₁ h₂ h₂
  · exact le_rfl
  · exact absurd (hq r hr h₁) h₂
  · exact h r hr h₂
  · exact le_rfl

/-- An update that brings no row in and raises none lowers a sum. -/
theorem sumWhere_updateWhere_le (hp : ∀ r ∈ rows, q r = true → p (f r) = true → p r = true)
    (hv : ∀ r ∈ rows, q r = true → p (f r) = true → v (f r) ≤ v r) (h : ∀ r ∈ rows, p r = true → 0 ≤ v r) :
    sumWhere p v (updateWhere q f rows) ≤ sumWhere p v rows := by
  rw [sumWhere, updateWhere, List.map_map]
  refine List.sum_le_sum fun r hr => ?_
  show (if p (if q r then f r else r) then v (if q r then f r else r) else 0) ≤ if p r then v r else 0
  by_cases hq : q r = true
  · rw [if_pos hq]
    by_cases hf : p (f r) = true
    · rw [if_pos hf, if_pos (hp r hr hq hf)]
      exact hv r hr hq hf
    · rw [if_neg hf]
      split_ifs with h'
      exacts [h r hr h', le_rfl]
  · rw [if_neg hq]

theorem le_sumWhere (hr : r ∈ rows) (hp : p r = true) (h : ∀ r ∈ rows, p r = true → 0 ≤ v r) :
    v r ≤ sumWhere p v rows := by
  have hmem : (if p r then v r else 0) ∈ rows.map fun r => if p r then v r else 0 :=
    List.mem_map_of_mem hr
  rw [if_pos hp] at hmem
  refine List.single_le_sum (fun x hx => ?_) _ hmem
  obtain ⟨r', hr', rfl⟩ := List.mem_map.mp hx
  split_ifs with hp'
  exacts [h r' hr' hp', le_rfl]

/-- Rows whose keys are all listed are worth no more than what the listed keys are worth. -/
theorem sumWhere_le_sum_keys [DecidableEq κ] {keys : List κ} (h : ∀ r ∈ rows, p r = true → key r ∈ keys)
    (hv : ∀ r ∈ rows, 0 ≤ v r) :
    sumWhere p v rows ≤ (keys.map fun k => sumWhere (fun r => decide (key r = k)) v rows).sum := by
  induction rows with
  | nil => simp
  | cons r rows ih =>
    have hr := hv r List.mem_cons_self
    have hrest := ih (fun x hx => h x (List.mem_cons_of_mem r hx)) fun x hx => hv x (List.mem_cons_of_mem r hx)
    simp only [sumWhere_cons, List.sum_map_add]
    refine add_le_add ?_ hrest
    have hnonneg : ∀ x ∈ keys.map fun k => if decide (key r = k) = true then v r else 0, 0 ≤ x := by
      intro x hx
      obtain ⟨k, _, rfl⟩ := List.mem_map.mp hx
      split_ifs
      exacts [hr, le_rfl]
    split_ifs with hp
    · refine List.single_le_sum hnonneg _ ?_
      have hmem : (if decide (key r = key r) = true then v r else 0) ∈
          keys.map fun k => if decide (key r = k) = true then v r else 0 :=
        List.mem_map_of_mem (h r List.mem_cons_self hp)
      rwa [if_pos (decide_eq_true rfl)] at hmem
    · exact List.sum_nonneg hnonneg

/-- Different keys have different rows. -/
theorem sum_keys_le_sumWhere [DecidableEq κ] {keys : List κ} (hn : keys.Nodup) (hv : ∀ r ∈ rows, 0 ≤ v r) :
    (keys.map fun k => sumWhere (fun r => decide (key r = k)) v rows).sum ≤ sumWhere (fun _ => true) v rows := by
  induction rows with
  | nil => simp
  | cons r rows ih =>
    have hr := hv r List.mem_cons_self
    simp only [sumWhere_cons, List.sum_map_add, if_true]
    refine add_le_add ?_ (ih fun x hx => hv x (List.mem_cons_of_mem r hx))
    clear ih
    induction keys with
    | nil => simpa using hr
    | cons k keys ihk =>
      obtain ⟨hk, hn⟩ := List.nodup_cons.mp hn
      rw [List.map_cons, List.sum_cons]
      by_cases hkey : key r = k
      · have hrest : (keys.map fun k => if decide (key r = k) = true then v r else 0).sum = 0 := by
          refine List.sum_eq_zero fun x hx => ?_
          obtain ⟨k', hk', rfl⟩ := List.mem_map.mp hx
          have hne : key r ≠ k' := fun h => hk (hkey ▸ h ▸ hk')
          rw [decide_eq_false hne, if_neg Bool.false_ne_true]
        rw [hrest, add_zero, if_pos (decide_eq_true hkey)]
      · rw [decide_eq_false hkey, if_neg Bool.false_ne_true, zero_add]
        exact ihk hn

end Sum

end Nehemiah.Lib
