import Nehemiah.Lib.Table

/-!
# Leases

A lease weighs something until it expires.  The load of a scope is what its live leases weigh: it falls as
time passes (`load_antitone`) and as leases are taken out (`load_of_sublist`), so a bound of the load at one
instant is a bound at every later one while nothing is added.  A lease that was live when the load was
measured can be put back at its own weight (`load_without_add_le`), also after it has expired.
-/

namespace Nehemiah.Lib

variable {ρ τ M : Type*} [LinearOrder τ] [AddCommMonoid M]

/-- What the leases of the scope that are live at the time weigh. -/
def load (expiry : ρ → τ) (weight : ρ → M) (scope : ρ → Bool) (t : τ) (rows : List ρ) : M :=
  sumWhere (fun r => scope r && decide (t < expiry r)) weight rows

variable {expiry : ρ → τ} {weight : ρ → M} {scope : ρ → Bool} {t t' : τ} {rows rows' : List ρ}

theorem sumWhere_filter {p q : ρ → Bool} {v : ρ → M} :
    sumWhere p v (rows.filter q) = sumWhere (fun r => q r && p r) v rows := by
  induction rows with
  | nil => rfl
  | cons r rows ih =>
    rw [List.filter_cons]
    cases hq : q r with
    | true => rw [if_pos rfl, sumWhere_cons, sumWhere_cons, ih, hq, Bool.true_and]
    | false => simpa [hq] using ih

theorem sumWhere_split {p q : ρ → Bool} {v : ρ → M} :
    sumWhere (fun r => q r && p r) v rows + sumWhere (fun r => !q r && p r) v rows = sumWhere p v rows := by
  induction rows with
  | nil => exact add_zero 0
  | cons r rows ih =>
    rw [sumWhere_cons, sumWhere_cons, sumWhere_cons, add_add_add_comm, ih]
    cases q r <;> simp

theorem load_append : load expiry weight scope t (rows ++ rows')
    = load expiry weight scope t rows + load expiry weight scope t rows' :=
  sumWhere_append rows'

theorem load_filter_scope (rows : List ρ) :
    load expiry weight scope t (rows.filter scope) = load expiry weight scope t rows := by
  rw [load, sumWhere_filter]
  exact sumWhere_congr fun r _ => by cases scope r <;> rfl

theorem load_singleton (r : ρ) :
    load expiry weight scope t [r] = if (scope r && decide (t < expiry r)) = true then weight r else 0 :=
  add_zero _

variable [PartialOrder M] [IsOrderedAddMonoid M]

theorem load_antitone (hw : ∀ r, 0 ≤ weight r) (h : t ≤ t') :
    load expiry weight scope t' rows ≤ load expiry weight scope t rows := by
  refine sumWhere_mono (fun r _ hr => ?_) fun r _ _ => hw r
  simp only [Bool.and_eq_true, decide_eq_true_eq] at hr ⊢
  exact ⟨hr.1, h.trans_lt hr.2⟩

theorem load_of_sublist (hw : ∀ r, 0 ≤ weight r)
    (h : (rows'.filter scope).Sublist (rows.filter scope)) :
    load expiry weight scope t rows' ≤ load expiry weight scope t rows := by
  rw [← load_filter_scope rows', ← load_filter_scope rows]
  refine (h.map _).sum_le_sum fun x hx => ?_
  obtain ⟨r, -, rfl⟩ := List.mem_map.mp hx
  split_ifs
  exacts [hw r, le_rfl]

/-- A live lease can be put back where it was. -/
theorem load_without_add_le (hw : ∀ r, 0 ≤ weight r) {same : ρ → Bool} {r : ρ} (hr : r ∈ rows)
    (hsame : same r = true) (hscope : scope r = true) (hlive : t < expiry r) :
    load expiry weight scope t (rows.filter fun x => !same x) + weight r ≤ load expiry weight scope t rows := by
  have hone : weight r ≤ sumWhere (fun x => same x && (scope x && decide (t < expiry x))) weight rows :=
    le_sumWhere hr (by simp [hsame, hscope, hlive]) fun x _ _ => hw x
  calc load expiry weight scope t (rows.filter fun x => !same x) + weight r
      = sumWhere (fun x => !same x && (scope x && decide (t < expiry x))) weight rows + weight r := by
        rw [load, sumWhere_filter]
    _ ≤ sumWhere (fun x => !same x && (scope x && decide (t < expiry x))) weight rows
          + sumWhere (fun x => same x && (scope x && decide (t < expiry x))) weight rows := by
        gcongr
    _ = load expiry weight scope t rows := by
        rw [add_comm, sumWhere_split, load]

/-- Holders of different live leases weigh no more than the leases. -/
theorem sum_le_load {α κ : Type*} [DecidableEq κ] (hw : ∀ r, 0 ≤ weight r) {key : ρ → κ} {holds : α → κ} {w : α → M}
    {xs : List α} (hn : (xs.map holds).Nodup)
    (h : ∀ x ∈ xs, ∃ r ∈ rows, key r = holds x ∧ scope r = true ∧ t < expiry r ∧ weight r = w x) :
    (xs.map w).sum ≤ load expiry weight scope t rows := by
  induction xs generalizing rows with
  | nil =>
    rw [List.map_nil, List.sum_nil]
    exact sumWhere_nonneg fun r _ _ => hw r
  | cons x xs ih =>
    obtain ⟨r, hr, hkey, hscope, hlive, hweight⟩ := h x List.mem_cons_self
    rw [List.map_cons, List.nodup_cons] at hn
    have hrest : (xs.map w).sum ≤ load expiry weight scope t (rows.filter fun y => !decide (key y = holds x)) := by
      refine ih hn.2 fun y hy => ?_
      obtain ⟨r', hr', hkey', hrest'⟩ := h y (List.mem_cons_of_mem _ hy)
      have hne : key r' ≠ holds x := fun heq => hn.1 (by
        rw [← heq, hkey']
        exact List.mem_map_of_mem hy)
      exact ⟨r', List.mem_filter.mpr ⟨hr', by simpa using hne⟩, hkey', hrest'⟩
    rw [List.map_cons, List.sum_cons, add_comm, ← hweight]
    refine (add_le_add_left hrest _).trans ?_
    exact load_without_add_le hw hr (decide_eq_true hkey) hscope hlive

end Nehemiah.Lib
