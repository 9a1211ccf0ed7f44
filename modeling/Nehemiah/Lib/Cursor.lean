import Mathlib

/-!
# Cursors over a bounded log

A log is appended to and never rewritten, and the numbers of its entries increase; a window keeps its last
entries.  A reader polls the window with the number of the last entry that it saw.

* `Increasing.inj`: a number belongs to one entry.
* `Reader.Faithful.poll`: the reader receives every entry at most once, and misses none as long as the window
  reaches back to its cursor at every poll.
-/

namespace Nehemiah.Lib

variable {α : Type*} (num : α → ℕ)

/-- The numbers of the entries increase. -/
def Increasing (l : List α) : Prop := l.Pairwise fun a b => num a < num b

instance (l : List α) : Decidable (Increasing num l) := inferInstanceAs (Decidable (l.Pairwise _))

/-- The window holds the last entries of the log. -/
structure Retained (full window : List α) : Prop where
  increasing : Increasing num full
  suffix : window <:+ full
  nonempty : full ≠ [] → window ≠ []

/-- The entries after a cursor. -/
def after (window : List α) (cursor : ℕ) : List α := window.filter fun e => decide (cursor < num e)

/-- The window reaches back to the cursor. -/
def reaches (window : List α) (cursor : ℕ) : Bool := window.head?.all fun e => decide (num e ≤ cursor + 1)

section Increasing

variable {num} {l l' : List α} {e e' : α}

/-- A number belongs to one entry. -/
theorem Increasing.inj (h : Increasing num l) (he : e ∈ l) (he' : e' ∈ l) (heq : num e = num e') : e = e' := by
  have hnodup : (l.map num).Nodup := List.pairwise_map.mpr (h.imp fun hlt => ne_of_lt hlt)
  exact List.inj_on_of_nodup_map hnodup he he' heq

theorem increasing_append :
    Increasing num (l ++ l') ↔ Increasing num l ∧ Increasing num l' ∧ ∀ a ∈ l, ∀ b ∈ l', num a < num b :=
  List.pairwise_append

theorem increasing_concat : Increasing num (l ++ [e]) ↔ Increasing num l ∧ ∀ a ∈ l, num a < num e := by
  rw [increasing_append]
  constructor
  · rintro ⟨hl, _, hlt⟩
    exact ⟨hl, fun a ha => hlt a ha e (List.mem_singleton_self e)⟩
  · rintro ⟨hl, hlt⟩
    refine ⟨hl, List.pairwise_singleton _ _, fun a ha b hb => ?_⟩
    rw [List.mem_singleton.mp hb]
    exact hlt a ha

/-- The last entry has the greatest number. -/
theorem Increasing.le_last (h : Increasing num l) {last : α} (hlast : l.getLast? = some last) (he : e ∈ l) :
    num e ≤ num last := by
  obtain ⟨ys, rfl⟩ := List.getLast?_eq_some_iff.mp hlast
  rcases List.mem_append.mp he with he | he
  · exact ((increasing_concat.mp h).2 e he).le
  · rw [List.mem_singleton.mp he]

theorem mem_after {window : List α} {cursor : ℕ} : e ∈ after num window cursor ↔ e ∈ window ∧ cursor < num e := by
  simp [after]

end Increasing

section Retained

variable {num} {full window : List α} {e : α}

theorem Retained.mem (h : Retained num full window) (he : e ∈ window) : e ∈ full := h.suffix.mem he

theorem Retained.window_increasing (h : Retained num full window) : Increasing num window :=
  h.increasing.sublist h.suffix.sublist

/-- What has left the window has a smaller number than all that is in it. -/
theorem Retained.older (h : Retained num full window) (he : e ∈ full) (hnot : e ∉ window) {b : α}
    (hb : b ∈ window) : num e < num b := by
  obtain ⟨front, rfl⟩ := h.suffix
  exact (increasing_append.mp h.increasing).2.2 e ((List.mem_append.mp he).resolve_right hnot) b hb

/-- **Within the window nothing is missing.** -/
theorem Retained.mem_of_reaches (h : Retained num full window) {cursor : ℕ}
    (hreaches : reaches num window cursor = true) (he : e ∈ full) (hlt : cursor < num e) : e ∈ window := by
  by_contra hnot
  cases hw : window with
  | nil => exact h.nonempty (List.ne_nil_of_mem he) hw
  | cons first rest =>
    have hfirst : first ∈ window := by rw [hw]; exact List.mem_cons_self
    have hle : num first ≤ cursor + 1 := by
      rw [hw] at hreaches
      simpa [reaches] using hreaches
    have := h.older he hnot hfirst
    omega

/-- A new entry, and the oldest entries may leave. -/
theorem Retained.push (h : Retained num full window) {window' : List α} (hnew : ∀ a ∈ full, num a < num e)
    (hsuffix : window' <:+ window ++ [e]) (hnonempty : window' ≠ []) : Retained num (full ++ [e]) window' := by
  refine ⟨increasing_concat.mpr ⟨h.increasing, hnew⟩, ?_, fun _ => hnonempty⟩
  obtain ⟨front, hfront⟩ := h.suffix
  refine hsuffix.trans ⟨front, ?_⟩
  rw [← List.append_assoc, hfront]

end Retained

/-! ### Readers -/

/-- A reader has seen the entries up to its cursor.  `kept` says that the window reached back to the cursor
at every poll. -/
structure Reader (α : Type*) where
  cursor : ℕ
  received : List α
  kept : Bool

def Reader.connect (start : ℕ) : Reader α := ⟨start, [], true⟩

/-- The reader polls the window. -/
def Reader.poll (r : Reader α) (window : List α) : Reader α :=
  { cursor := ((after num window r.cursor).getLast?.map num).getD r.cursor
    received := r.received ++ after num window r.cursor
    kept := r.kept && reaches num window r.cursor }

/-- The reader has received each entry of the log after its start at most once, and, if the window always
reached back to its cursor, every one up to its cursor. -/
structure Reader.Faithful (start : ℕ) (full : List α) (r : Reader α) : Prop where
  from_start : r.cursor = start ∨ ∃ e ∈ full, num e = r.cursor
  after_start : start ≤ r.cursor
  genuine : ∀ e ∈ r.received, e ∈ full ∧ start < num e ∧ num e ≤ r.cursor
  once : Increasing num r.received
  complete : r.kept = true → ∀ e ∈ full, start < num e → num e ≤ r.cursor → e ∈ r.received

namespace Reader.Faithful

variable {num} {start : ℕ} {full window : List α} {r : Reader α}

theorem connect (num : α → ℕ) (start : ℕ) (full : List α) : Faithful num start full (Reader.connect start) := by
  refine ⟨Or.inl rfl, le_refl start, fun e he => (List.not_mem_nil he).elim, List.Pairwise.nil, ?_⟩
  intro _ e _ hlt hle
  exact absurd hle (not_le.mpr hlt)

/-- Entries that come later have numbers after the cursor. -/
theorem grow (h : Faithful num start full r) {new : List α} (hnew : ∀ a ∈ full, ∀ b ∈ new, num a < num b) :
    Faithful num start (full ++ new) r := by
  refine ⟨?_, h.after_start, fun e he => ?_, h.once, fun hkept e he hlt hle => ?_⟩
  · rcases h.from_start with hs | ⟨e, he, heq⟩
    · exact Or.inl hs
    · exact Or.inr ⟨e, List.mem_append_left _ he, heq⟩
  · obtain ⟨hmem, hrange⟩ := h.genuine e he
    exact ⟨List.mem_append_left _ hmem, hrange⟩
  · rcases List.mem_append.mp he with he | he
    · exact h.complete hkept e he hlt hle
    · rcases h.from_start with hs | ⟨a, ha, heq⟩
      · rw [hs] at hle
        exact absurd hle (not_le.mpr hlt)
      · have := hnew a ha e he
        omega

end Reader.Faithful

/-- A poll leaves the cursor, when nothing is new, or moves it to the last entry of the window. -/
theorem Reader.poll_cursor {num : α → ℕ} {window : List α} (h : Increasing num window) (r : Reader α) :
    (r.poll num window).cursor = r.cursor ∧ after num window r.cursor = [] ∧ (∀ e ∈ window, num e ≤ r.cursor) ∨
      r.cursor < (r.poll num window).cursor ∧ (∃ e ∈ window, num e = (r.poll num window).cursor) ∧
        ∀ e ∈ window, num e ≤ (r.poll num window).cursor := by
  cases hlast : (after num window r.cursor).getLast? with
  | none =>
    have hnil : after num window r.cursor = [] := List.getLast?_eq_none_iff.mp hlast
    refine Or.inl ⟨?_, hnil, fun e he => ?_⟩
    · rw [Reader.poll, hlast]
      rfl
    · by_contra hlt
      have hmem : e ∈ after num window r.cursor := mem_after.mpr ⟨he, not_le.mp hlt⟩
      rw [hnil] at hmem
      cases hmem
  | some last =>
    have hcursor : (r.poll num window).cursor = num last := by
      rw [Reader.poll, hlast]
      rfl
    have hmem : last ∈ after num window r.cursor := List.mem_of_getLast? hlast
    obtain ⟨hwindow, hlt⟩ := mem_after.mp hmem
    rw [hcursor]
    refine Or.inr ⟨hlt, ⟨last, hwindow, rfl⟩, fun e he => ?_⟩
    by_cases hnew : r.cursor < num e
    · have hinc : Increasing num (after num window r.cursor) := h.sublist List.filter_sublist
      exact hinc.le_last hlast (mem_after.mpr ⟨he, hnew⟩)
    · exact (not_lt.mp hnew).trans hlt.le

namespace Reader.Faithful

variable {num} {start : ℕ} {full window : List α} {r : Reader α}

/-- After a poll the cursor has passed every entry of the log. -/
theorem poll_passes (hr : Retained num full window) {e : α} (he : e ∈ full) :
    num e ≤ (r.poll num window).cursor := by
  have hle : ∀ a ∈ window, num a ≤ (r.poll num window).cursor := by
    rcases r.poll_cursor hr.window_increasing with ⟨heq, _, hle⟩ | ⟨_, _, hle⟩
    · rw [heq]
      exact hle
    · exact hle
  by_cases hw : e ∈ window
  · exact hle e hw
  · obtain ⟨b, hb⟩ := List.exists_mem_of_ne_nil window (hr.nonempty (List.ne_nil_of_mem he))
    exact (hr.older he hw hb).le.trans (hle b hb)

/-- **A poll keeps the reader faithful.** -/
theorem poll (h : Faithful num start full r) (hr : Retained num full window) :
    Faithful num start full (r.poll num window) := by
  have hmoves : r.cursor ≤ (r.poll num window).cursor := by
    rcases r.poll_cursor hr.window_increasing with ⟨heq, _, _⟩ | ⟨hlt, _, _⟩
    · exact heq.ge
    · exact hlt.le
  refine ⟨?_, h.after_start.trans hmoves, fun e he => ?_, ?_, fun hkept e he hlt _ => ?_⟩
  · rcases r.poll_cursor hr.window_increasing with ⟨heq, _, _⟩ | ⟨_, ⟨e, he, heq⟩, _⟩
    · rw [heq]
      exact h.from_start
    · exact Or.inr ⟨e, hr.mem he, heq⟩
  · rcases List.mem_append.mp he with he | he
    · obtain ⟨hmem, hlt, hle⟩ := h.genuine e he
      exact ⟨hmem, hlt, hle.trans hmoves⟩
    · obtain ⟨hwindow, hlt⟩ := mem_after.mp he
      exact ⟨hr.mem hwindow, lt_of_le_of_lt h.after_start hlt, poll_passes hr (hr.mem hwindow)⟩
  · refine increasing_append.mpr ⟨h.once, hr.window_increasing.sublist List.filter_sublist, fun a ha b hb => ?_⟩
    exact lt_of_le_of_lt (h.genuine a ha).2.2 (mem_after.mp hb).2
  · -- what the reader has not passed before is still in the window
    obtain ⟨hbefore, hreaches⟩ := Bool.and_eq_true_iff.mp hkept
    by_cases hold : num e ≤ r.cursor
    · exact List.mem_append_left _ (h.complete hbefore e he hlt hold)
    · have hnew : r.cursor < num e := not_le.mp hold
      exact List.mem_append_right _ (mem_after.mpr ⟨hr.mem_of_reaches hreaches he hnew, hnew⟩)

end Reader.Faithful

end Nehemiah.Lib
