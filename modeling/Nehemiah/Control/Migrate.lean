import Nehemiah.Lib.Header
import Nehemiah.Lib.Run
import Nehemiah.Lib.Query

/-!
# The migrations of the database

A process that migrates takes an advisory lock of its session, refuses a database with migrations that its build does not
have, and goes through the migrations of its build in order: one that is recorded must have the checksum of the build, and
one that is not is applied and recorded in one transaction.  Processes may start, fail and die at any time, and the lock
of one that dies is free again.

What a migration does to the schema is a parameter, and so is the checksum.

`migrated_exactly` is that one process at most is inside the lock, and which rows it leaves; `migrations_in_order` is what
has been applied when the builds are parts of one history.
-/

namespace Nehemiah.Migrate

open Lib Http

structure Migration where
  name : Text
  sql : Text
deriving DecidableEq

/-- A row of `schema_migrations`; rows of an older version have no checksum. -/
structure Row where
  name : Text
  checksum : Option Text

/-- Where a process is. -/
inductive Phase (σ : Type*)
  | ready
  | locked
  | selecting (i : ℕ)
  | applying (i : ℕ) (schema : σ)
  | migrated
  | failed

/-- A process, with the migrations of its build in the order of their names. -/
structure Process (σ : Type*) where
  build : List Migration
  phase : Phase σ

/-- The database, the lock and the processes; `applied` are the migrations whose transactions have committed. -/
structure State (σ : Type*) where
  schema : σ
  rows : List Row
  applied : List Migration
  lock : Option ℕ
  processes : List (Process σ)

inductive Act
  | spawn (build : List Migration)
  | lock (p : ℕ)
  | check (p : ℕ)
  | select (p : ℕ)
  | commit (p : ℕ)
  | die (p : ℕ)

section Step

variable {σ : Type*} (exec : Text → σ → Option σ) (checksum : Text → Text)

def State.setPhase (s : State σ) (p : ℕ) (phase : Phase σ) : State σ :=
  { s with processes := s.processes.modify p fun q => { q with phase := phase } }

/-- The process ends, and its session with it. -/
def State.close (s : State σ) (p : ℕ) (phase : Phase σ) : State σ :=
  { s.setPhase p phase with lock := if s.lock = some p then none else s.lock }

/-- `UPDATE schema_migrations SET checksum ... WHERE name ... AND checksum IS NULL`. -/
def adopt (rows : List Row) (name checksum : Text) : List Row :=
  rows.map fun r => if r.name = name ∧ r.checksum = none then { r with checksum := some checksum } else r

/-- The statements about one migration, up to the commit of its transaction. -/
def State.selectMigration (s : State σ) (p i : ℕ) (m : Migration) : State σ :=
  match s.rows.find? fun r => decide (r.name = m.name) with
  | none =>
    match exec m.sql s.schema with
    | some schema => s.setPhase p (.applying i schema)
    | none => s.close p .failed
  | some prior =>
    match prior.checksum with
    | none => { s.setPhase p (.selecting (i + 1)) with rows := adopt s.rows m.name (checksum m.sql) }
    | some c => if c = checksum m.sql then s.setPhase p (.selecting (i + 1)) else s.close p .failed

def next (s : State σ) : Act → Option (State σ)
  | .spawn build => some { s with processes := s.processes ++ [⟨build, .ready⟩] }
  | .lock p =>
    match s.processes[p]? with
    | some ⟨_, .ready⟩ =>
      if s.lock = none then some { s.setPhase p .locked with lock := some p } else some (s.setPhase p .failed)
    | _ => none
  | .check p =>
    match s.processes[p]? with
    | some ⟨build, .locked⟩ =>
      -- rows that the build does not have are refused
      if s.rows.all fun r => decide (r.name ∈ build.map Migration.name) then some (s.setPhase p (.selecting 0))
      else some (s.close p .failed)
    | _ => none
  | .select p =>
    match s.processes[p]? with
    | some ⟨build, .selecting i⟩ =>
      match build[i]? with
      | some m => some (s.selectMigration exec checksum p i m)
      | none => some (s.close p .migrated)
    | _ => none
  | .commit p =>
    match s.processes[p]? with
    | some ⟨build, .applying i schema⟩ =>
      match build[i]? with
      | some m =>
        some { s.setPhase p (.selecting (i + 1)) with
          schema := schema
          rows := s.rows ++ [⟨m.name, some (checksum m.sql)⟩]
          applied := s.applied ++ [m] }
      | none => none
    | _ => none
  | .die p =>
    match s.processes[p]? with
    | some ⟨_, .migrated⟩ | none => none
    | some _ => some (s.close p .failed)

end Step

/-! ### Who holds the lock -/

variable {σ : Type*} {exec : Text → σ → Option σ} {checksum : Text → Text}

/-- Between the lock and the end. -/
def Phase.holds : Phase σ → Prop
  | .locked | .selecting _ | .applying _ _ => True
  | _ => False

/-- What a process has found of the database, or done to it, under the lock. -/
def Knows (exec : Text → σ → Option σ) (checksum : Text → Text) (schema : σ) (rows : List Row) (q : Process σ) : Prop :=
  let known := (∀ r ∈ rows, r.name ∈ q.build.map Migration.name)
  let recorded (i : ℕ) := ∀ j m, j < i → q.build[j]? = some m → (⟨m.name, some (checksum m.sql)⟩ : Row) ∈ rows
  match q.phase with
  | .selecting i => known ∧ recorded i
  | .applying i pending =>
    known ∧ recorded i ∧ ∃ m, q.build[i]? = some m ∧ m.name ∉ rows.map Row.name ∧ exec m.sql schema = some pending
  | _ => True

/-- The schema is what the migrations that were applied make of the first one, and they are recorded in their order. -/
structure Inv (exec : Text → σ → Option σ) (checksum : Text → Text) (first : σ) (s : State σ) : Prop where
  holder : ∀ p q, s.processes[p]? = some q → (q.phase.holds ↔ s.lock = some p)
  bound : ∀ p, s.lock = some p → p < s.processes.length
  nodup : (s.rows.map Row.name).Nodup
  record : s.rows.map Row.name = s.applied.map Migration.name
  schema : s.applied.foldlM (fun schema m => exec m.sql schema) first = some s.schema
  knows : ∀ q ∈ s.processes, Knows exec checksum s.schema s.rows q

variable {first : σ} {s t : State σ} {p : ℕ} {q : Process σ}

theorem getElem?_setPhase (s : State σ) (p : ℕ) (phase : Phase σ) (j : ℕ) :
    (s.setPhase p phase).processes[j]? =
      if p = j then s.processes[j]?.map fun q => { q with phase := phase } else s.processes[j]? := by
  rw [State.setPhase, List.getElem?_modify]
  split_ifs <;> simp [*]

variable {phase : Phase σ} {history : List Migration}

/-- One process that does not hold the lock before or after its step. -/
theorem Inv.setPhase (h : Inv exec checksum first s) (hq : s.processes[p]? = some q)
    (hold : phase.holds ↔ q.phase.holds) (hk : Knows exec checksum s.schema s.rows ⟨q.build, phase⟩) :
    Inv exec checksum first (s.setPhase p phase) where
  holder j r hr := by
    rw [getElem?_setPhase] at hr
    split_ifs at hr with hj
    · subst hj
      rw [hq] at hr
      cases hr
      exact hold.trans (h.holder p q hq)
    · exact h.holder j r hr
  bound j hj := by
    rw [State.setPhase, List.length_modify]
    exact h.bound j hj
  nodup := h.nodup
  record := h.record
  schema := h.schema
  knows r hr := by
    obtain ⟨j, hr⟩ := List.mem_iff_getElem?.mp hr
    rw [getElem?_setPhase] at hr
    split_ifs at hr with hj
    · subst hj
      rw [hq] at hr
      cases hr
      exact hk
    · exact h.knows r (List.mem_of_getElem? hr)

/-- A process that takes the lock, or gives it back. -/
theorem Inv.setLock (h : Inv exec checksum first s) (hq : s.processes[p]? = some q) {lock : Option ℕ}
    (hold : phase.holds ↔ lock = some p) (hother : ∀ j, j ≠ p → (lock = some j ↔ s.lock = some j))
    (hk : Knows exec checksum s.schema s.rows ⟨q.build, phase⟩) :
    Inv exec checksum first { s.setPhase p phase with lock := lock } where
  holder j r hr := by
    rw [getElem?_setPhase] at hr
    split_ifs at hr with hj
    · subst hj
      rw [hq] at hr
      cases hr
      exact hold
    · exact (h.holder j r hr).trans (hother j fun hjp => hj hjp.symm).symm
  bound j hj := by
    show j < (s.setPhase p phase).processes.length
    rw [State.setPhase, List.length_modify]
    by_cases hjp : j = p
    · rw [hjp]
      exact (List.getElem?_eq_some_iff.mp hq).1
    · exact h.bound j ((hother j hjp).mp hj)
  nodup := h.nodup
  record := h.record
  schema := h.schema
  knows r hr := by
    obtain ⟨j, hr⟩ := List.mem_iff_getElem?.mp hr
    rw [getElem?_setPhase] at hr
    split_ifs at hr with hj
    · subst hj
      rw [hq] at hr
      cases hr
      exact hk
    · exact h.knows r (List.mem_of_getElem? hr)

theorem Inv.close (h : Inv exec checksum first s) (hq : s.processes[p]? = some q) (hp : ¬phase.holds)
    (hk : Knows exec checksum s.schema s.rows ⟨q.build, phase⟩) : Inv exec checksum first (s.close p phase) := by
  refine h.setLock hq ⟨fun hholds => absurd hholds hp, fun hlock => ?_⟩ (fun j hj => ?_) hk
  · split_ifs at hlock with hs
    exact absurd hlock hs
  · split_ifs with hs
    · rw [hs]
      simp [hj.symm]
    · exact Iff.rfl

theorem knows_of_not_holds (hq : ¬q.phase.holds) (schema : σ) (rows : List Row) : Knows exec checksum schema rows q := by
  obtain ⟨build, phase⟩ := q
  cases phase <;> first | trivial | exact absurd trivial hq

variable {applied build : List Migration} {m : Migration}

/-- What the holder of the lock writes is not known to others. -/
theorem Inv.write (h : Inv exec checksum first s) (hq : s.processes[p]? = some q) (hholds : q.phase.holds)
    (hphase : phase.holds) {schema : σ} {rows : List Row} (hnodup : (rows.map Row.name).Nodup)
    (hrecord : rows.map Row.name = applied.map Migration.name)
    (hschema : applied.foldlM (fun schema m => exec m.sql schema) first = some schema)
    (hk : Knows exec checksum schema rows ⟨q.build, phase⟩) :
    Inv exec checksum first { s.setPhase p phase with schema := schema, rows := rows, applied := applied } where
  holder j r hr := by
    rw [getElem?_setPhase] at hr
    split_ifs at hr with hj
    · subst hj
      rw [hq] at hr
      cases hr
      exact ⟨fun _ => (h.holder p q hq).mp hholds, fun _ => hphase⟩
    · exact h.holder j r hr
  bound j hj := by
    show j < (s.setPhase p phase).processes.length
    rw [State.setPhase, List.length_modify]
    exact h.bound j hj
  nodup := hnodup
  record := hrecord
  schema := hschema
  knows r hr := by
    obtain ⟨j, hr⟩ := List.mem_iff_getElem?.mp hr
    rw [getElem?_setPhase] at hr
    split_ifs at hr with hj
    · subst hj
      rw [hq] at hr
      cases hr
      exact hk
    · refine knows_of_not_holds (fun hother => hj ?_) _ _
      have hp := (h.holder p q hq).mp hholds
      rw [(h.holder j r hr).mp hother] at hp
      exact (Option.some.inj hp).symm

theorem map_adopt (rows : List Row) (name c : Text) : (adopt rows name c).map Row.name = rows.map Row.name := by
  rw [adopt, List.map_map]
  refine List.map_congr_left fun r _ => ?_
  rw [Function.comp_apply]
  split_ifs <;> rfl

/-- The rows that have a checksum stay, and so do those of other migrations. -/
theorem mem_adopt {rows : List Row} {name c : Text} {r : Row} (hr : r ∈ rows) (hc : r.checksum ≠ none) :
    r ∈ adopt rows name c :=
  List.mem_map.mpr ⟨r, hr, if_neg fun h => hc h.2⟩

theorem Inv.selectMigration (h : Inv exec checksum first s) {i : ℕ} (hq : s.processes[p]? = some ⟨build, .selecting i⟩)
    (hm : build[i]? = some m) :
    Inv exec checksum first (s.selectMigration exec checksum p i m) := by
  obtain ⟨hknown, hrecorded⟩ := h.knows _ (List.mem_of_getElem? hq)
  have hclose : Inv exec checksum first (s.close p .failed) := h.close hq not_false trivial
  -- what the next round knows, when the row of this migration has been found or written
  have hnext : ∀ rows : List Row, (∀ r ∈ s.rows, r.checksum ≠ none → r ∈ rows) → rows.map Row.name = s.rows.map Row.name →
      (⟨m.name, some (checksum m.sql)⟩ : Row) ∈ rows → Knows exec checksum s.schema rows ⟨build, .selecting (i + 1)⟩ := by
    intro rows hkeep hnames hrow
    refine ⟨fun r hr => ?_, fun j m' hj hm' => ?_⟩
    · have hname : r.name ∈ s.rows.map Row.name := by
        rw [← hnames]
        exact List.mem_map_of_mem hr
      obtain ⟨old, hold, hsame⟩ := List.mem_map.mp hname
      rw [← hsame]
      exact hknown old hold
    · obtain hlt | rfl := Nat.lt_succ_iff_lt_or_eq.mp hj
      · exact hkeep _ (hrecorded j m' hlt hm') (by simp)
      · rw [hm] at hm'
        cases hm'
        exact hrow
  unfold State.selectMigration
  cases hfound : s.rows.find? fun r => decide (r.name = m.name) with
  | none =>
    dsimp only
    cases hexec : exec m.sql s.schema with
    | none => exact hclose
    | some schema =>
      refine h.setPhase hq Iff.rfl ⟨hknown, hrecorded, m, hm, fun hmem => ?_, hexec⟩
      obtain ⟨r, hr, hname⟩ := List.mem_map.mp hmem
      exact absurd (List.find?_eq_none.mp hfound r hr) (by simp [hname])
  | some prior =>
    have hprior := List.mem_of_find?_eq_some hfound
    have hname := List.find?_some hfound
    have hname := of_decide_eq_true hname
    dsimp only
    cases hchecksum : prior.checksum with
    | none =>
      refine h.write hq trivial (show (Phase.selecting (i + 1) : Phase σ).holds from trivial)
        (by rw [map_adopt]; exact h.nodup) (by rw [map_adopt]; exact h.record) h.schema
        (hnext _ (fun r hr hc => mem_adopt hr hc) (map_adopt _ _ _) ?_)
      exact List.mem_map.mpr ⟨prior, hprior, by rw [if_pos ⟨hname, hchecksum⟩, ← hname]⟩
    | some c =>
      dsimp only
      split_ifs with hsame
      · refine h.setPhase hq Iff.rfl (hnext _ (fun r hr _ => hr) rfl ?_)
        rw [← hsame, ← hname, ← hchecksum]
        exact hprior
      · exact hclose

theorem Inv.next (h : Inv exec checksum first s) {a : Act} (ha : next exec checksum s a = some t) :
    Inv exec checksum first t := by
  cases a with
  | spawn build =>
    cases ha
    have hget : ∀ j r, (s.processes ++ [(⟨build, .ready⟩ : Process σ)])[j]? = some r →
        s.processes[j]? = some r ∨ j = s.processes.length ∧ r = ⟨build, .ready⟩ := by
      intro j r hr
      rw [List.getElem?_append] at hr
      split_ifs at hr with hj
      · exact .inl hr
      · obtain ⟨hlt, hval⟩ := List.getElem?_eq_some_iff.mp hr
        rw [List.length_singleton] at hlt
        exact .inr ⟨by omega, by simpa using hval.symm⟩
    refine ⟨fun j r hr => ?_, fun j hj => ?_, h.nodup, h.record, h.schema, fun r hr => ?_⟩
    · obtain hr | ⟨rfl, rfl⟩ := hget j r hr
      · exact h.holder j r hr
      · exact ⟨fun hfalse => hfalse.elim, fun hlock => absurd (h.bound _ hlock) (lt_irrefl _)⟩
    · have := h.bound j hj
      rw [List.length_append, List.length_singleton]
      omega
    · obtain hr | hr := List.mem_append.mp hr
      · exact h.knows r hr
      · rw [List.mem_singleton.mp hr]
        trivial
  | lock p =>
    simp only [Migrate.next] at ha
    split at ha
    · next build hq =>
      split_ifs at ha with hfree <;> cases ha
      · refine h.setLock hq (iff_of_true trivial rfl) (fun j hj => ?_) trivial
        rw [hfree]
        simp [hj.symm]
      · exact h.setPhase hq Iff.rfl trivial
    · cases ha
  | check p =>
    simp only [Migrate.next] at ha
    split at ha
    · next build hq =>
      split_ifs at ha with hknown <;> cases ha
      · refine h.setPhase hq Iff.rfl ⟨fun r hr => ?_, fun j m hj => absurd hj (Nat.not_lt_zero j)⟩
        exact of_decide_eq_true (List.all_eq_true.mp hknown r hr)
      · exact h.close hq not_false trivial
    · cases ha
  | select p =>
    simp only [Migrate.next] at ha
    split at ha
    · next build i hq =>
      split at ha <;> cases ha
      · next m hm => exact h.selectMigration hq hm
      · exact h.close hq not_false trivial
    · cases ha
  | commit p =>
    simp only [Migrate.next] at ha
    split at ha
    · next build i schema hq =>
      obtain ⟨hknown, hrecorded, m, hm, hnew, hexec⟩ := h.knows _ (List.mem_of_getElem? hq)
      rw [hm] at ha
      cases ha
      refine h.write hq trivial (show (Phase.selecting (i + 1) : Phase σ).holds from trivial) ?_ ?_ ?_
        ⟨fun r hr => ?_, fun j m' hj hm' => ?_⟩
      · rw [List.map_append, List.map_singleton, List.nodup_append]
        refine ⟨h.nodup, List.nodup_singleton _, fun x hx y hy => ?_⟩
        rw [List.mem_singleton.mp hy]
        rintro rfl
        exact hnew hx
      · rw [List.map_append, List.map_append, h.record]
        rfl
      · rw [List.foldlM_append, h.schema]
        simp [hexec]
      · obtain hr | hr := List.mem_append.mp hr
        · exact hknown r hr
        · rw [List.mem_singleton.mp hr]
          exact List.mem_map_of_mem (List.mem_of_getElem? hm)
      · obtain hlt | rfl := Nat.lt_succ_iff_lt_or_eq.mp hj
        · exact List.mem_append_left _ (hrecorded j m' hlt hm')
        · have hm' : build[j]? = some m' := hm'
          rw [hm] at hm'
          cases hm'
          exact List.mem_append_right _ List.mem_cons_self
    · cases ha
  | die p =>
    simp only [Migrate.next] at ha
    split at ha
    · cases ha
    · cases ha
    · next q _ hq =>
      cases ha
      exact h.close hq not_false trivial

/-! ### Results -/

/-- The database before the runs, which an older version may have migrated without checksums. -/
def start (legacy : List Migration) (schema : σ) : State σ :=
  ⟨schema, legacy.map fun m => ⟨m.name, none⟩, legacy, none, []⟩

/-- An older version has applied these migrations. -/
structure Legacy (exec : Text → σ → Option σ) (first : σ) (legacy : List Migration) (schema : σ) : Prop where
  nodup : (legacy.map Migration.name).Nodup
  applied : legacy.foldlM (fun schema m => exec m.sql schema) first = some schema

theorem Inv.start {legacy : List Migration} {schema : σ} (h : Legacy exec first legacy schema) :
    Inv exec checksum first (start legacy schema) where
  holder j r hr := by cases hr
  bound j hj := by cases hj
  nodup := by
    show ((legacy.map fun m => (⟨m.name, none⟩ : Row)).map Row.name).Nodup
    rw [List.map_map]
    exact h.nodup
  record := by
    show (legacy.map fun m => (⟨m.name, none⟩ : Row)).map Row.name = _
    rw [List.map_map]
    rfl
  schema := h.applied
  knows q hq := by cases hq

/-- **A run that succeeds leaves what its build has.**  Whatever other processes do, of whatever builds, and wherever they
die: at most one process is between the lock and its end, and when one has gone through its build, before it gives the
lock back, the rows are those of the migrations of its build with its checksums, and no others. -/
theorem migrated_exactly {legacy : List Migration} {schema : σ} (hlegacy : Legacy exec first legacy schema)
    {as : List Act}
    (h : Run (fun s a t => Migrate.next exec checksum s a = some t) (Migrate.start legacy schema) as s) :
    (∀ (p p' : ℕ) (q q' : Process σ), s.processes[p]? = some q → s.processes[p']? = some q' → q.phase.holds →
      q'.phase.holds → p = p') ∧
    ∀ (p : ℕ) (build : List Migration) (i : ℕ), s.processes[p]? = some ⟨build, .selecting i⟩ → build.length ≤ i →
      ∀ r, r ∈ s.rows ↔ ∃ m ∈ build, r = ⟨m.name, some (checksum m.sql)⟩ := by
  have hinv : Inv exec checksum first s := h.invariant (fun _ _ _ hs ha => hs.next ha) (Inv.start hlegacy)
  refine ⟨fun p p' q q' hq hq' hp hp' => ?_, fun p build i hq hi r => ?_⟩
  · have hlock := (hinv.holder p q hq).mp hp
    rw [(hinv.holder p' q' hq').mp hp'] at hlock
    exact (Option.some.inj hlock).symm
  · obtain ⟨hknown, hrecorded⟩ := hinv.knows _ (List.mem_of_getElem? hq)
    have hrow : ∀ m ∈ build, (⟨m.name, some (checksum m.sql)⟩ : Row) ∈ s.rows := fun m hm => by
      obtain ⟨j, hj⟩ := List.mem_iff_getElem?.mp hm
      exact hrecorded j m ((List.getElem?_eq_some_iff.mp hj).1.trans_le hi) hj
    constructor
    · intro hr
      obtain ⟨m, hm, hname⟩ := List.mem_map.mp (hknown r hr)
      exact ⟨m, hm, List.inj_on_of_nodup_map hinv.nodup hr (hrow m hm) hname.symm⟩
    · rintro ⟨m, hm, rfl⟩
      exact hrow m hm

/-- The first process gives the row of an older version its checksum; the second one, which has another text for that
migration, has found the lock taken. -/
theorem migrated_exactly_mismatch :
    ∃ s : State (List Text), s.processes.map Process.build = [[⟨['1'], ['a']⟩], [⟨['1'], ['b']⟩]] ∧
      (∀ r, r ∈ s.rows ↔ ∃ m ∈ [(⟨['1'], ['a']⟩ : Migration)], r = ⟨m.name, some m.sql.reverse⟩) := by
  have h : Run (fun s a t => Migrate.next (fun sql (schema : List Text) => some (schema ++ [sql])) List.reverse s a = some t)
      (Migrate.start [⟨['1'], ['a']⟩] [['a']])
      [.spawn [⟨['1'], ['a']⟩], .spawn [⟨['1'], ['b']⟩], .lock 0, .lock 1, .check 0, .select 0] _ := Run.of_exec rfl
  have hlegacy : Legacy (fun sql (schema : List Text) => some (schema ++ [sql])) [] [⟨['1'], ['a']⟩] [['a']] :=
    ⟨by decide, rfl⟩
  exact ⟨_, rfl, (migrated_exactly hlegacy h).2 0 _ 1 rfl (le_refl _)⟩

/-! ### The order of the migrations -/

/-- The migrations that have been applied are the first ones of the history that all builds are parts of. -/
structure InOrder (history : List Migration) (s : State σ) : Prop where
  applied : s.applied <+: history
  builds : ∀ q ∈ s.processes, q.build <+: history

theorem inj_of_nodup (hn : (history.map Migration.name).Nodup) {i j : ℕ} {m' : Migration} (hi : history[i]? = some m)
    (hj : history[j]? = some m') (hname : m.name = m'.name) : i = j := by
  have hi' : (history.map Migration.name)[i]? = some m.name := by rw [List.getElem?_map, hi]; rfl
  have hj' : (history.map Migration.name)[j]? = some m.name := by rw [List.getElem?_map, hj, hname]; rfl
  have hlt : i < (history.map Migration.name).length := (List.getElem?_eq_some_iff.mp hi').1
  exact (List.getElem?_inj hlt hn).mp (hi'.trans hj'.symm)

/-- A migration that is not recorded, while those before it in the build are, is the next one of the history. -/
theorem next_of_history (hn : (history.map Migration.name).Nodup) (happlied : applied <+: history)
    (hbuild : build <+: history) {i : ℕ} (hm : build[i]? = some m) (hnew : m.name ∉ applied.map Migration.name)
    (hbefore : ∀ j m', j < i → build[j]? = some m' → m'.name ∈ applied.map Migration.name) :
    applied ++ [m] <+: history := by
  have hget : ∀ {l : List Migration}, l <+: history → ∀ {j : ℕ} {x : Migration}, l[j]? = some x → history[j]? = some x :=
    fun hl _ _ hx => by
      obtain ⟨rest, rfl⟩ := hl
      rw [List.getElem?_append_left (List.getElem?_eq_some_iff.mp hx).1]
      exact hx
  have hlen : applied.length = i := by
    refine le_antisymm (not_lt.mp fun hlt => hnew ?_) (not_lt.mp fun hlt => ?_)
    · -- the history has one migration at each place
      have hi := hget happlied (List.getElem?_eq_getElem hlt)
      rw [hget hbuild hm] at hi
      rw [Option.some.inj hi]
      exact List.mem_map_of_mem (List.getElem_mem hlt)
    · have hlt' : applied.length < build.length := hlt.trans (List.getElem?_eq_some_iff.mp hm).1
      obtain ⟨x, hx, hname⟩ := List.mem_map.mp (hbefore _ _ hlt (List.getElem?_eq_getElem hlt'))
      obtain ⟨k, hk⟩ := List.mem_iff_getElem?.mp hx
      have heq := inj_of_nodup hn (hget happlied hk) (hget hbuild (List.getElem?_eq_getElem hlt')) hname
      rw [heq] at hk
      exact absurd (List.getElem?_eq_some_iff.mp hk).1 (lt_irrefl _)
  have htake : applied = history.take i := by
    rw [← hlen]
    exact List.prefix_iff_eq_take.mp happlied
  obtain ⟨hlt, heq⟩ := List.getElem?_eq_some_iff.mp (hget hbuild hm)
  rw [htake, ← heq, List.take_append_getElem hlt]
  exact List.take_prefix _ _

theorem mem_setPhase_build {r : Process σ} (hr : r ∈ (s.setPhase p phase).processes) :
    ∃ q ∈ s.processes, q.build = r.build := by
  obtain ⟨j, hr⟩ := List.mem_iff_getElem?.mp hr
  rw [getElem?_setPhase] at hr
  split_ifs at hr
  · obtain ⟨q, hq, rfl⟩ := Option.map_eq_some_iff.mp hr
    exact ⟨q, List.mem_of_getElem? hq, rfl⟩
  · exact ⟨r, List.mem_of_getElem? hr, rfl⟩

/-- A step that applies no migration keeps the builds. -/
theorem InOrder.setPhase (h : InOrder history s) (phase : Phase σ) :
    InOrder history (s.setPhase p phase) where
  applied := h.applied
  builds r hr := by
    obtain ⟨q, hq, hb⟩ := mem_setPhase_build hr
    rw [← hb]
    exact h.builds q hq

theorem InOrder.close (h : InOrder history s) (phase : Phase σ) : InOrder history (s.close p phase) :=
  ⟨h.applied, (h.setPhase phase).builds⟩

theorem InOrder.selectMigration (h : InOrder history s) (i : ℕ) (m : Migration) :
    InOrder history (s.selectMigration exec checksum p i m) := by
  unfold State.selectMigration
  split
  · split
    · exact h.setPhase _
    · exact h.close _
  · split
    · exact ⟨h.applied, (h.setPhase _).builds⟩
    · split_ifs
      · exact h.setPhase _
      · exact h.close _

theorem InOrder.next (hn : (history.map Migration.name).Nodup) (h : InOrder history s)
    (hinv : Inv exec checksum first s) {a : Act} (hbuild : ∀ build, a = .spawn build → build <+: history)
    (ha : Migrate.next exec checksum s a = some t) : InOrder history t := by
  cases a with
  | spawn build =>
    cases ha
    refine ⟨h.applied, fun q hq => ?_⟩
    obtain hq | hq := List.mem_append.mp hq
    · exact h.builds q hq
    · rw [List.mem_singleton.mp hq]
      exact hbuild build rfl
  | lock p =>
    simp only [Migrate.next] at ha
    split at ha
    · split_ifs at ha <;> cases ha
      · exact ⟨h.applied, (h.setPhase _).builds⟩
      · exact h.setPhase _
    · cases ha
  | check p =>
    simp only [Migrate.next] at ha
    split at ha
    · split_ifs at ha <;> cases ha
      · exact h.setPhase _
      · exact h.close _
    · cases ha
  | select p =>
    simp only [Migrate.next] at ha
    split at ha
    · split at ha <;> cases ha
      · exact h.selectMigration _ _
      · exact h.close _
    · cases ha
  | commit p =>
    simp only [Migrate.next] at ha
    split at ha
    · next build i schema hq =>
      obtain ⟨-, hrecorded, m, hm, hnew, -⟩ := hinv.knows _ (List.mem_of_getElem? hq)
      rw [hm] at ha
      cases ha
      refine ⟨?_, (h.setPhase _).builds⟩
      rw [hinv.record] at hnew
      refine next_of_history hn h.applied (h.builds _ (List.mem_of_getElem? hq)) hm hnew fun j m' hj hm' => ?_
      rw [← hinv.record]
      exact List.mem_map_of_mem (hrecorded j m' hj hm')
    · cases ha
  | die p =>
    simp only [Migrate.next] at ha
    split at ha
    · cases ha
    · cases ha
    · cases ha
      exact h.close _

theorem InOrder.run (hn : (history.map Migration.name).Nodup) {as : List Act}
    (h : Run (fun s a t => Migrate.next exec checksum s a = some t) s as t)
    (hbuilds : ∀ build, Act.spawn build ∈ as → build <+: history) (hinv : Inv exec checksum first s)
    (hs : InOrder history s) : InOrder history t := by
  induction h with
  | nil s => exact hs
  | cons ha _ ih =>
    refine ih (fun build hb => hbuilds build (List.mem_cons_of_mem _ hb)) (hinv.next ha) (hs.next hn hinv ?_ ha)
    rintro build rfl
    exact hbuilds build List.mem_cons_self

/-- A beginning that has all the names is all of it. -/
theorem eq_of_begins {l l' : List Migration} (h : l <+: l') (hn : (l'.map Migration.name).Nodup)
    (hnames : ∀ m ∈ l', m.name ∈ l.map Migration.name) : l = l' := by
  obtain ⟨rest, rfl⟩ := h
  cases rest with
  | nil => exact (List.append_nil l).symm
  | cons m rest =>
    have hm := hnames m (List.mem_append_right _ List.mem_cons_self)
    rw [List.map_append, List.nodup_append] at hn
    exact absurd rfl (hn.2.2 m.name hm m.name (List.mem_map_of_mem List.mem_cons_self))

/-- **Migrations are applied once, in order.**  When every build has the first migrations of one history, so has the
database at every time: what has been applied is a beginning of the history, each once, the schema is what they make of
the first one, and when a process has come to the end of its build, what is applied is its build. -/
theorem migrations_in_order {history legacy : List Migration} {schema : σ} (hlegacy : Legacy exec first legacy schema)
    (hn : (history.map Migration.name).Nodup) (hl : legacy <+: history) {as : List Act}
    (hbuilds : ∀ build, Act.spawn build ∈ as → build <+: history)
    (h : Run (fun s a t => Migrate.next exec checksum s a = some t) (Migrate.start legacy schema) as s) :
    (∃ n, s.applied = history.take n ∧ s.rows.map Row.name = (history.take n).map Migration.name ∧
      (history.take n).foldlM (fun schema m => exec m.sql schema) first = some s.schema) ∧
    ∀ (p : ℕ) (build : List Migration) (i : ℕ), s.processes[p]? = some ⟨build, .selecting i⟩ → build.length ≤ i →
      s.applied = build := by
  have hinv : Inv exec checksum first s := h.invariant (fun _ _ _ hs ha => hs.next ha) (Inv.start hlegacy)
  have horder : InOrder history s := InOrder.run hn h hbuilds (Inv.start hlegacy) ⟨hl, fun q hq => by cases hq⟩
  have htake := List.prefix_iff_eq_take.mp horder.applied
  refine ⟨⟨_, htake, ?_, ?_⟩, fun p build i hq hi => ?_⟩
  · rw [← htake]
    exact hinv.record
  · rw [← htake]
    exact hinv.schema
  · obtain ⟨hknown, hrecorded⟩ := hinv.knows _ (List.mem_of_getElem? hq)
    have hbuild := horder.builds _ (List.mem_of_getElem? hq)
    have happlied : ∀ m ∈ s.applied, m.name ∈ build.map Migration.name := fun m hm => by
      have hname : m.name ∈ s.rows.map Row.name := by
        rw [hinv.record]
        exact List.mem_map_of_mem hm
      obtain ⟨r, hr, hname⟩ := List.mem_map.mp hname
      rw [← hname]
      exact hknown r hr
    have hall : ∀ m ∈ build, m.name ∈ s.applied.map Migration.name := fun m hm => by
      obtain ⟨j, hj⟩ := List.mem_iff_getElem?.mp hm
      rw [← hinv.record]
      exact List.mem_map_of_mem (hrecorded j m ((List.getElem?_eq_some_iff.mp hj).1.trans_le hi) hj)
    obtain hab | hba := List.prefix_or_prefix_of_prefix horder.applied hbuild
    · exact eq_of_begins hab (hn.sublist (hbuild.sublist.map _)) hall
    · exact (eq_of_begins hba (hn.sublist (horder.applied.sublist.map _)) happlied).symm

/-- The first process dies after its commit, the second finds the lock taken, the third has a newer build. -/
theorem migrations_in_order_restarted :
    ∃ s : State (List Text), s.applied = [(⟨['1'], ['a']⟩ : Migration), ⟨['2'], ['b']⟩, ⟨['3'], ['c']⟩] ∧
      s.schema = [['a'], ['b'], ['c']] := by
  have hlegacy : Legacy (fun sql (schema : List Text) => some (schema ++ [sql])) [] [⟨['1'], ['a']⟩] [['a']] :=
    ⟨by decide, rfl⟩
  have hbuilds : ∀ build, Act.spawn build ∈ [Act.spawn [⟨['1'], ['a']⟩, ⟨['2'], ['b']⟩], .lock 0, .check 0, .select 0,
      .spawn [⟨['1'], ['a']⟩], .lock 1, .select 0, .commit 0, .die 0,
      .spawn [⟨['1'], ['a']⟩, ⟨['2'], ['b']⟩, ⟨['3'], ['c']⟩], .lock 2, .check 2, .select 2, .select 2, .select 2,
      .commit 2] → build <+: [⟨['1'], ['a']⟩, ⟨['2'], ['b']⟩, ⟨['3'], ['c']⟩] := by
    intro build hb
    simp only [List.mem_cons, List.not_mem_nil, Act.spawn.injEq, reduceCtorEq, false_or, or_false] at hb
    obtain rfl | rfl | rfl := hb <;> decide
  have h : Run (fun s a t => Migrate.next (fun sql (schema : List Text) => some (schema ++ [sql])) List.reverse s a = some t)
      (Migrate.start [⟨['1'], ['a']⟩] [['a']])
      [.spawn [⟨['1'], ['a']⟩, ⟨['2'], ['b']⟩], .lock 0, .check 0, .select 0, .spawn [⟨['1'], ['a']⟩], .lock 1, .select 0,
        .commit 0, .die 0, .spawn [⟨['1'], ['a']⟩, ⟨['2'], ['b']⟩, ⟨['3'], ['c']⟩], .lock 2, .check 2, .select 2, .select 2,
        .select 2, .commit 2]
      ⟨[['a'], ['b'], ['c']], [⟨['1'], some ['a']⟩, ⟨['2'], some ['b']⟩, ⟨['3'], some ['c']⟩],
        [⟨['1'], ['a']⟩, ⟨['2'], ['b']⟩, ⟨['3'], ['c']⟩], some 2, [⟨[⟨['1'], ['a']⟩, ⟨['2'], ['b']⟩], .failed⟩,
          ⟨[⟨['1'], ['a']⟩], .failed⟩, ⟨[⟨['1'], ['a']⟩, ⟨['2'], ['b']⟩, ⟨['3'], ['c']⟩], .selecting 3⟩]⟩ :=
    Run.of_exec rfl
  have hdone := migrations_in_order hlegacy (by decide) (by decide) hbuilds h
  exact ⟨_, hdone.2 2 _ 3 rfl (le_refl _), rfl⟩

end Nehemiah.Migrate
