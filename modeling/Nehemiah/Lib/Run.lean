import Mathlib

/-!
# Labelled runs

A system is a relation `step s a t`: from state `s` the action `a` may lead to `t`.  A run is a list of
actions with the states they lead through.  The module collects the induction rules that the
developments over such systems use: an invariant of every step is an invariant of every run, also when
the steps of the run are known to satisfy a guard, and a fact that every step establishes of its own
transition holds of every transition of a run.
-/

namespace Nehemiah.Lib

variable {σ α : Type*} (step : σ → α → σ → Prop)

inductive Run : σ → List α → σ → Prop
  | nil (s : σ) : Run s [] s
  | cons {s t u : σ} {a : α} {as : List α} (h : step s a t) (rest : Run t as u) : Run s (a :: as) u

/-- Every transition of the run satisfies `guard`. -/
inductive RunIn (guard : σ → α → σ → Prop) : σ → List α → σ → Prop
  | nil (s : σ) : RunIn guard s [] s
  | cons {s t u : σ} {a : α} {as : List α} (h : step s a t) (g : guard s a t)
      (rest : RunIn guard t as u) : RunIn guard s (a :: as) u

variable {step} {guard : σ → α → σ → Prop} {s u : σ} {as : List α} {next : σ → α → Option σ}

theorem RunIn.run (h : RunIn step guard s as u) : Run step s as u := by
  induction h with
  | nil s => exact .nil s
  | cons h _ _ ih => exact .cons h ih

theorem RunIn.mono {guard' : σ → α → σ → Prop} (hg : ∀ s a t, guard s a t → guard' s a t)
    (h : RunIn step guard s as u) : RunIn step guard' s as u := by
  induction h with
  | nil s => exact .nil s
  | cons h g _ ih => exact .cons h (hg _ _ _ g) ih

variable {I : σ → Prop}

/-- **Invariant rule.**  What every step preserves, every run preserves. -/
theorem Run.invariant (hstep : ∀ s a t, I s → step s a t → I t) (h : Run step s as u) (hs : I s) : I u := by
  induction h with
  | nil s => exact hs
  | cons h _ ih => exact ih (hstep _ _ _ hs h)

/-- **Guarded invariant rule.** -/
theorem RunIn.invariant (hstep : ∀ s a t, I s → step s a t → guard s a t → I t) (h : RunIn step guard s as u)
    (hs : I s) : I u := by
  induction h with
  | nil s => exact hs
  | cons h g _ ih => exact ih (hstep _ _ _ hs h g)

theorem Run.append {t : σ} {bs : List α} (h : Run step s as t) (h' : Run step t bs u) : Run step s (as ++ bs) u := by
  induction h with
  | nil s => exact h'
  | cons h _ ih => exact .cons h (ih h')

/-- A run of one relation is a run of any relation that allows its steps. -/
theorem Run.imp {step' : σ → α → σ → Prop} (hstep : ∀ s a t, step s a t → step' s a t) (h : Run step s as u) :
    Run step' s as u := by
  induction h with
  | nil s => exact .nil s
  | cons h _ ih => exact .cons (hstep _ _ _ h) ih

variable (step) in
/-- A state that a run from `s` to `u` goes through. -/
def Visited (s : σ) (as : List α) (u x : σ) : Prop := ∃ bs cs, as = bs ++ cs ∧ Run step s bs x ∧ Run step x cs u

/-- **Invariant rule with history.**  What every step of the run preserves, where it may use that its states are
states of the run. -/
theorem Run.along (h : Run step s as u) (hs : I s)
    (hstep : ∀ x a y, Visited step s as u x → Visited step s as u y → step x a y → I x → I y) : I u := by
  have hrest : ∀ {x : σ} {cs : List α}, Run step x cs u → ∀ bs, as = bs ++ cs → Run step s bs x → I x → I u := by
    intro x cs hrun
    induction hrun with
    | nil x => exact fun _ _ _ hx => hx
    | @cons x y _ a cs hxy hy ih =>
      intro bs has hbs hx
      have has' : as = (bs ++ [a]) ++ cs := by rw [has, List.append_assoc, List.singleton_append]
      have hbs' : Run step s (bs ++ [a]) y := hbs.append (.cons hxy (.nil y))
      exact ih h hstep (bs ++ [a]) has' hbs' (hstep x a y ⟨bs, a :: cs, has, hbs, .cons hxy hy⟩
        ⟨bs ++ [a], cs, has', hbs', hy⟩ hxy hx)
  exact hrest h [] rfl (.nil s) hs

/-- The state that a list of actions leads to, when the next state is a function. -/
def exec (next : σ → α → Option σ) : σ → List α → Option σ
  | s, [] => some s
  | s, a :: as => (next s a).bind fun t => exec next t as

theorem Run.of_exec (h : exec next s as = some u) : Run (fun s a t => next s a = some t) s as u := by
  induction as generalizing s with
  | nil =>
    cases h
    exact .nil _
  | cons a as ih =>
    obtain ⟨t, ht, hrest⟩ := Option.bind_eq_some_iff.mp h
    exact .cons ht (ih hrest)

/-- The guard of a run that is known from its actions. -/
theorem Run.guarded (h : Run step s as u) (hg : ∀ a ∈ as, ∀ s t, guard s a t) : RunIn step guard s as u := by
  induction h with
  | nil s => exact .nil s
  | cons h _ ih =>
    exact .cons h (hg _ List.mem_cons_self _ _) (ih fun a ha => hg a (List.mem_cons_of_mem _ ha))

/-- The state after a list of actions whose steps all meet a guard. -/
def execIn (next : σ → α → Option σ) (guard : σ → α → σ → Prop) [∀ s a t, Decidable (guard s a t)] :
    σ → List α → Option σ
  | s, [] => some s
  | s, a :: as => (next s a).bind fun t => if guard s a t then execIn next guard t as else none

theorem RunIn.of_execIn [∀ s a t, Decidable (guard s a t)] (h : execIn next guard s as = some u) :
    RunIn (fun s a t => next s a = some t) guard s as u := by
  induction as generalizing s with
  | nil =>
    cases h
    exact .nil _
  | cons a as ih =>
    obtain ⟨t, ht, hrest⟩ := Option.bind_eq_some_iff.mp h
    split at hrest
    · next hg => exact .cons ht hg (ih hrest)
    · cases hrest

/-- A guarded run whose last state passes a test. -/
theorem RunIn.of_test [∀ s a t, Decidable (guard s a t)] {test : σ → Prop} [DecidablePred test]
    (h : (execIn next guard s as).any (fun u => decide (test u)) = true) :
    ∃ u, RunIn (fun s a t => next s a = some t) guard s as u ∧ test u := by
  cases hu : execIn next guard s as with
  | none =>
    rw [hu] at h
    cases h
  | some u =>
    rw [hu] at h
    exact ⟨u, .of_execIn hu, of_decide_eq_true h⟩

/-- A run whose last state passes a test. -/
theorem Run.of_test {test : σ → Prop} [DecidablePred test]
    (h : (exec next s as).any (fun u => decide (test u)) = true) :
    ∃ u, Run (fun s a t => next s a = some t) s as u ∧ test u := by
  cases hu : exec next s as with
  | none =>
    rw [hu] at h
    cases h
  | some u =>
    rw [hu] at h
    exact ⟨u, .of_exec hu, of_decide_eq_true h⟩

end Nehemiah.Lib
