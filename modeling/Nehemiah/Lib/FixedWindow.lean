import Mathlib

/-!
# Fixed windows

A counter that starts anew with each window and stops at a cap.  Hits may arrive with the windows out of order: one that
is late counts in the window that the counter is in.

`Ledger` relates the counter to the history of its hits, each with the window in which it was counted and whether it was
admitted: where only hits with a count within the limit are admitted, no window has more of them than the limit.
`Window.Below` compares the counter with one that has had more hits.
-/

namespace Nehemiah.Lib

structure Window where
  start : ℤ
  count : ℤ

namespace Window

def hit (cap start : ℤ) : Option Window → Window
  | none => ⟨start, 1⟩
  | some w => if w.start < start then ⟨start, 1⟩ else ⟨w.start, min (w.count + 1) cap⟩

variable {cap limit start : ℤ} {o : Option Window} {log : List (ℤ × Bool)}

/-! ### The history -/

/-- The hits that were counted in a window. -/
def hits (log : List (ℤ × Bool)) (x : ℤ) : ℕ := log.countP fun e => decide (e.1 = x)

/-- Those of them that were admitted. -/
def admitted (log : List (ℤ × Bool)) (x : ℤ) : ℕ := log.countP fun e => decide (e.1 = x) && e.2

theorem admitted_le_hits (log : List (ℤ × Bool)) (x : ℤ) : admitted log x ≤ hits log x :=
  List.countP_mono_left fun _ _ h => (Bool.and_eq_true_iff.mp h).1

theorem hits_concat (log : List (ℤ × Bool)) (y x : ℤ) (b : Bool) :
    hits (log ++ [(y, b)]) x = hits log x + if y = x then 1 else 0 := by
  rw [hits, List.countP_append, List.countP_singleton, hits]
  simp only [decide_eq_true_eq]

theorem admitted_concat (log : List (ℤ × Bool)) (y x : ℤ) (b : Bool) :
    admitted (log ++ [(y, b)]) x = admitted log x + if y = x ∧ b = true then 1 else 0 := by
  rw [admitted, List.countP_append, List.countP_singleton, admitted]
  simp only [Bool.and_eq_true, decide_eq_true_eq]

/-- The counter counts the hits of the last window up to the cap, and no window has more admitted than the limit. -/
structure Ledger (cap limit : ℤ) (log : List (ℤ × Bool)) (o : Option Window) : Prop where
  empty : o = none → log = []
  last : ∀ w, o = some w → ∀ x, w.start < x → hits log x = 0
  count : ∀ w, o = some w → w.count = min (hits log w.start : ℤ) cap
  admitted : ∀ x, (admitted log x : ℤ) ≤ limit

theorem Ledger.nil (h : 0 ≤ limit) : Ledger cap limit [] none :=
  ⟨fun _ => rfl, fun _ h => (nomatch h), fun _ h => (nomatch h), fun _ => h⟩

/-- What a hit does to the counter, in terms of the history. -/
theorem Ledger.hit_count (h : Ledger cap limit log o) (hcap : 1 ≤ cap) :
    (hit cap start o).count = min ((hits log (hit cap start o).start : ℤ) + 1) cap := by
  cases o with
  | none =>
    rw [h.empty rfl]
    show (1 : ℤ) = min ((0 : ℕ) + 1 : ℤ) cap
    omega
  | some w =>
    unfold hit
    dsimp only
    split_ifs with hlt
    · rw [h.last w rfl start hlt]
      show (1 : ℤ) = min ((0 : ℕ) + 1 : ℤ) cap
      omega
    · have hcount := h.count w rfl
      dsimp only
      omega

theorem Ledger.hit_last (h : Ledger cap limit log o) {x : ℤ} (hx : (hit cap start o).start < x) : hits log x = 0 := by
  cases o with
  | none =>
    rw [h.empty rfl]
    rfl
  | some w =>
    unfold hit at hx
    dsimp only at hx
    split_ifs at hx with hlt
    · exact h.last w rfl x (hlt.trans hx)
    · exact h.last w rfl x hx

/-- A hit that is admitted only within the limit keeps the ledger. -/
theorem Ledger.hit (h : Ledger cap limit log o) (hcap : limit < cap) (hlimit : 0 ≤ limit) {b : Bool}
    (hb : b = true → (Window.hit cap start o).count ≤ limit) :
    Ledger cap limit (log ++ [((Window.hit cap start o).start, b)]) (some (Window.hit cap start o)) := by
  have hcount : (Window.hit cap start o).count = min ((hits log (Window.hit cap start o).start : ℤ) + 1) cap :=
    h.hit_count (by omega)
  refine ⟨fun hnone => (nomatch hnone), fun w hw x hx => ?_, fun w hw => ?_, fun x => ?_⟩
  · cases hw
    rw [hits_concat, h.hit_last hx, if_neg hx.ne]
  · cases hw
    rw [hits_concat, if_pos rfl, hcount]
    push_cast
    rfl
  · have hx := h.admitted x
    rw [admitted_concat]
    split_ifs with hnew
    · -- the count is that of the hits, which the cap has not cut off
      obtain ⟨rfl, hadmitted⟩ := hnew
      have hle := admitted_le_hits log (Window.hit cap start o).start
      have := hb hadmitted
      push_cast
      omega
    · omega

/-! ### More hits -/

/-- The first counter has had fewer hits: it is in an earlier window, or has counted less in the same one. -/
def Below : Option Window → Option Window → Prop
  | none, _ => True
  | some _, none => False
  | some v, some w => v.start < w.start ∨ v.start = w.start ∧ v.count ≤ w.count

theorem Below.refl (o : Option Window) : Below o o := by
  cases o with
  | none => trivial
  | some w => exact .inr ⟨rfl, le_rfl⟩

def Capped (cap : ℤ) (o : Option Window) : Prop := ∀ w, o = some w → w.count ≤ cap

variable {o' : Option Window}

/-- A hit that only the second counter has keeps it ahead. -/
theorem Below.skip (h : Below o o') (hcap : Capped cap o') : Below o (some (hit cap start o')) := by
  cases o with
  | none => trivial
  | some v =>
    cases o' with
    | none => exact h.elim
    | some w =>
      have hw := hcap w rfl
      unfold hit Below at *
      dsimp only at *
      split_ifs with hlt
      · obtain h | h := h
        · exact .inl (h.trans hlt)
        · exact .inl (by rw [h.1]; exact hlt)
      · dsimp only
        omega

/-- A hit that both have, in a window that is not over. -/
theorem Below.hit (h : Below o o') (hcap : 1 ≤ cap) (hstart : ∀ w, o' = some w → w.start ≤ start)
    (hcount : ∀ w, o' = some w → 0 ≤ w.count) :
    Below (some (Window.hit cap start o)) (some (Window.hit cap start o')) := by
  cases o' with
  | none =>
    cases o with
    | none => exact .inr ⟨rfl, le_rfl⟩
    | some v => exact h.elim
  | some w =>
    have hw := hstart w rfl
    have hw' := hcount w rfl
    cases o with
    | none =>
      unfold Window.hit Below
      dsimp only
      split_ifs
      · exact .inr ⟨rfl, le_rfl⟩
      · dsimp only
        omega
    | some v =>
      unfold Window.hit Below at *
      dsimp only at *
      split_ifs <;> dsimp only <;> omega

end Window

end Nehemiah.Lib
