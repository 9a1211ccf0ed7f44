import Nehemiah.Lib.Run

/-!
# The credential lock of the CLI

`withCredentialLock` of `credential-lock.ts`: a directory is the lock, `owner.json` in it names the holder,
and a second directory lets one waiter at a time break a lock that is too old or whose owner is dead.  Every
call to the file system is a step of its own; between two of them other processes run, the clock is set and
processes die.  Directories are removed by name, whoever made them.

Each call of `withCredentialLock` is a caller, and its index is its token.  Who made a directory is a ghost.
The lock is exclusive in every run in which no directory is given up while its maker still works under it
(`lock_exclusive`); it is not in general (`overtaken_lock_shared`).
-/

namespace Nehemiah.Cli

open Lib

def maximumWaitMs : ℤ := 30000

def initializationGraceMs : ℤ := 5000

def maximumLeaseAgeMs : ℤ := 300000

structure LockOwner where
  pid : ℕ
  token : ℕ
deriving DecidableEq

/-- The lock directory; its `owner` is the file `owner.json`, which may be unreadable. -/
structure LockDirectory where
  maker : ℕ
  mtime : ℤ
  owner : Option (Option LockOwner)

structure ReaperDirectory where
  maker : ℕ
  mtime : ℤ

/-- Where a caller stands: the file-system call it makes next. -/
inductive Pc
  /-- `mkdir(lockDirectory)` -/
  | acquiring
  /-- `writeFile(owner.json)` -/
  | writing
  /-- `rm(lockDirectory)` after a failed write; `collided` when it failed with `EEXIST` -/
  | discarding (collided : Bool)
  /-- `stat(reaperDirectory)` -/
  | sweeping
  /-- `rm(reaperDirectory)` for its age -/
  | clearing
  /-- `mkdir(reaperDirectory)` -/
  | reserving
  /-- `readOwner(lockDirectory)` -/
  | inspecting
  /-- `processExists(owner.pid)` -/
  | probing (owner : LockOwner)
  /-- `stat(lockDirectory)` -/
  | aging (milliseconds : ℤ)
  /-- `rm(lockDirectory)` of an abandoned lock -/
  | breaking
  /-- `rm(reaperDirectory)` of its own -/
  | leaving (failed : Bool)
  /-- the deadline and the delay before the next attempt -/
  | waiting
  /-- the operation -/
  | executing
  /-- `readOwner(lockDirectory)` after the operation -/
  | checking
  /-- `rm(lockDirectory)` after the operation -/
  | releasing
  | returned
  | failed
deriving DecidableEq

structure Caller where
  pid : ℕ
  deadline : ℤ
  pc : Pc
  live : Bool
  /-- Heartbeats that have fired and not reached the directory. -/
  beats : List ℤ

structure LockState where
  now : ℤ
  lock : Option LockDirectory
  reaper : Option ReaperDirectory
  callers : List Caller

inductive LockAct
  /-- The wall clock is set. -/
  | clock (now : ℤ)
  /-- A process calls `withCredentialLock`. -/
  | call (pid : ℕ)
  | crash (i : ℕ)
  /-- The next call of caller `i` to the file system. -/
  | go (i : ℕ)
  /-- The answer of `processExists`. -/
  | probe (i : ℕ) (exists' : Bool)
  /-- The next call of caller `i` fails; a failed write may leave a file that cannot be read. -/
  | fault (i : ℕ) (torn : Bool)
  /-- The heartbeat of caller `i` fires. -/
  | beat (i : ℕ)
  /-- The `k`-th of its pending heartbeats reaches the directory. -/
  | touch (i k : ℕ)

namespace LockState

/-- `directoryOlderThan` of a directory that exists. -/
def olderThan (s : LockState) (mtime milliseconds : ℤ) : Bool := decide (milliseconds < s.now - mtime)

/-- `readOwner`. -/
def readOwner (s : LockState) : Option LockOwner := s.lock.bind fun d => d.owner.join

/-- Caller `i` goes on as `c`. -/
def put (s : LockState) (i : ℕ) (c : Caller) : LockState := { s with callers := s.callers.set i c }

/-- The next step of caller `i`, which stands as `c`. -/
def go (s : LockState) (i : ℕ) (c : Caller) : Option LockState :=
  match c.pc with
  | .acquiring =>
    match s.lock with
    | none => some { s.put i { c with pc := .writing } with lock := some ⟨i, s.now, none⟩ }
    | some _ => some (s.put i { c with pc := .sweeping })
  | .writing =>
    match s.lock with
    | none => some (s.put i { c with pc := .discarding false })
    | some d =>
      if d.owner.isSome then some (s.put i { c with pc := .discarding true })
      else
        some { s.put i { c with pc := .executing } with
          lock := some { d with mtime := s.now, owner := some (some ⟨c.pid, i⟩) } }
  | .discarding collided =>
    some { s.put i { c with pc := if collided then .sweeping else .failed } with lock := none }
  | .sweeping =>
    if s.reaper.any fun d => s.olderThan d.mtime initializationGraceMs then
      some (s.put i { c with pc := .clearing })
    else some (s.put i { c with pc := .reserving })
  | .clearing => some { s.put i { c with pc := .reserving } with reaper := none }
  | .reserving =>
    match s.reaper with
    | none => some { s.put i { c with pc := .inspecting } with reaper := some ⟨i, s.now⟩ }
    | some _ => some (s.put i { c with pc := .waiting })
  | .inspecting =>
    match s.readOwner with
    | some owner => some (s.put i { c with pc := .probing owner })
    | none => some (s.put i { c with pc := .aging initializationGraceMs })
  | .aging milliseconds =>
    if s.lock.any fun d => s.olderThan d.mtime milliseconds then some (s.put i { c with pc := .breaking })
    else some (s.put i { c with pc := .leaving false })
  | .breaking => some { s.put i { c with pc := .leaving false } with lock := none }
  | .leaving failed =>
    some { s.put i { c with pc := if failed then .failed else .waiting } with reaper := none }
  | .waiting => some (s.put i { c with pc := if c.deadline ≤ s.now then .failed else .acquiring })
  | .executing => some (s.put i { c with pc := .checking })
  | .checking =>
    some (s.put i { c with pc := if s.readOwner = some ⟨c.pid, i⟩ then .releasing else .returned })
  | .releasing => some { s.put i { c with pc := .returned } with lock := none }
  | .probing _ | .returned | .failed => none

/-- The next step of caller `i` throws. -/
def fault (s : LockState) (i : ℕ) (c : Caller) (torn : Bool) : Option LockState :=
  match c.pc with
  | .writing => some { s.put i { c with pc := .discarding false } with
      lock := s.lock.map fun d => if torn && d.owner.isNone then { d with owner := some none } else d }
  | .acquiring | .discarding _ | .sweeping | .clearing | .reserving | .leaving _ =>
    some (s.put i { c with pc := .failed })
  | .inspecting | .aging _ | .breaking => some (s.put i { c with pc := .leaving true })
  | .checking | .releasing => some (s.put i { c with pc := .returned })
  | .probing _ | .waiting | .executing | .returned | .failed => none

/-- One step, `none` when it is not enabled. -/
def step (s : LockState) (a : LockAct) : Option LockState :=
  match a with
  | .clock now => some { s with now := now }
  | .call pid => some { s with callers := s.callers ++ [⟨pid, s.now + maximumWaitMs, .acquiring, true, []⟩] }
  | .crash i => (s.callers[i]?).map fun c => s.put i { c with live := false }
  | .go i => do
    let c ← s.callers[i]?
    if c.live then s.go i c else none
  | .probe i exists' => do
    let c ← s.callers[i]?
    match c.pc with
    | .probing owner =>
      -- a process that runs is found
      if !c.live || !exists' && s.callers.any (fun c => c.live && c.pid == owner.pid) then none
      else some (s.put i { c with pc := if exists' then .aging maximumLeaseAgeMs else .breaking })
    | _ => none
  | .fault i torn => do
    let c ← s.callers[i]?
    if c.live then s.fault i c torn else none
  | .beat i => do
    let c ← s.callers[i]?
    if c.live && c.pc == .executing then some (s.put i { c with beats := c.beats ++ [s.now] }) else none
  | .touch i k => do
    let c ← s.callers[i]?
    let t ← c.beats[k]?
    if c.live then
      some { s.put i { c with beats := c.beats.eraseIdx k } with
        lock := s.lock.map fun d => { d with mtime := t } }
    else none

end LockState

def LockStep (s : LockState) (a : LockAct) (s' : LockState) : Prop := s.step a = some s'

/-- No directory and no call yet. -/
def LockState.initial (now : ℤ) : LockState := { now := now, lock := none, reaper := none, callers := [] }

/-! ### Who holds what -/

/-- From the `mkdir` of the lock directory until the caller is done with it. -/
def Pc.holds : Pc → Bool
  | .writing | .discarding _ | .executing | .checking | .releasing => true
  | _ => false

/-- From the `mkdir` of the reaper directory to its removal. -/
def Pc.reaps : Pc → Bool
  | .inspecting | .probing _ | .aging _ | .breaking | .leaving _ => true
  | _ => false

/-- The next call removes the lock directory. -/
def Pc.removes : Pc → Bool
  | .discarding _ | .breaking | .releasing => true
  | _ => false

namespace LockState

/-- A live caller that stands at a place of this kind. -/
def at' (s : LockState) (place : Pc → Bool) (i : ℕ) : Bool := (s.callers[i]?).any fun c => c.live && place c.pc

def holds (s : LockState) (i : ℕ) : Bool := s.at' Pc.holds i

def reaps (s : LockState) (i : ℕ) : Bool := s.at' Pc.reaps i

def breaks (s : LockState) (i : ℕ) : Bool := s.at' (· == .breaking) i

def executes (s : LockState) (i : ℕ) : Bool := s.at' (· == .executing) i

def removes (s : LockState) (i : ℕ) : Bool := s.at' Pc.removes i

/-- The lock is exclusive, and no caller is about to remove the directory of another one. -/
structure Exclusive (s : LockState) : Prop where
  executes : ∀ i j, s.executes i = true → s.executes j = true → i = j
  removes : ∀ i j, s.removes i = true → s.holds j = true → i = j

end LockState

/-- The lock directory is not judged too old while a live caller that made it is not done with it; an owner is
found dead while the directory is still that owner's; and the reaper directory that is removed for its age is
not that of a live caller still reaping. -/
def LockState.unhurried (s : LockState) (a : LockAct) : Bool :=
  match a with
  | .go i => (s.callers[i]?).all fun c =>
    match c.pc with
    | .aging milliseconds => s.lock.all fun d => !(s.olderThan d.mtime milliseconds && s.holds d.maker)
    | .clearing => s.reaper.all fun d => !s.reaps d.maker
    | _ => true
  | .probe i false => (s.callers[i]?).all fun c =>
    match c.pc with
    | .probing owner => s.readOwner == some owner
    | _ => true
  | _ => true

/-- **The condition** on a step. -/
def Unhurried (s : LockState) (a : LockAct) (_ : LockState) : Prop := s.unhurried a = true

instance (s : LockState) (a : LockAct) (s' : LockState) : Decidable (Unhurried s a s') :=
  inferInstanceAs (Decidable (_ = true))

/-! ### The invariant -/

namespace LockState

def lockMaker (s : LockState) : Option ℕ := s.lock.map (·.maker)

def reaperMaker (s : LockState) : Option ℕ := s.reaper.map (·.maker)

/-- Whoever holds the lock made the directory that is there, and so does whoever reaps; a lock that is about
to be broken is there, and nobody holds it. -/
structure Inv (s : LockState) : Prop where
  holder : ∀ i, s.holds i = true → s.lockMaker = some i
  reaper : ∀ i, s.reaps i = true → s.reaperMaker = some i
  breaking : ∀ k, s.breaks k = true → s.lock.isSome ∧ ∀ i, s.holds i = false
  made : ∀ d, s.lock = some d → d.maker < s.callers.length
  written : ∀ d owner, s.lock = some d → d.owner = some (some owner) →
    owner.token = d.maker ∧ ∀ c, s.callers[d.maker]? = some c → c.pid = owner.pid

variable {s : LockState} {i : ℕ} {c : Caller}

theorem at'_iff {place : Pc → Bool} :
    s.at' place i = true ↔ ∃ c, s.callers[i]? = some c ∧ c.live = true ∧ place c.pc = true := by
  simp only [at', Option.any_eq_true, Bool.and_eq_true]

theorem at'_of {place : Pc → Bool} (hi : s.callers[i]? = some c) (hlive : c.live = true) (hpc : place c.pc = true) :
    s.at' place i = true :=
  at'_iff.mpr ⟨c, hi, hlive, hpc⟩

/-- What a place says of the callers after one of them goes on. -/
theorem at'_put (hi : s.callers[i]? = some c) (c' : Caller) (lock : Option LockDirectory)
    (reaper : Option ReaperDirectory) (place : Pc → Bool) (j : ℕ) :
    ({ s.put i c' with lock := lock, reaper := reaper } : LockState).at' place j
      = if j = i then c'.live && place c'.pc else s.at' place j := by
  have hlt : i < s.callers.length := (List.getElem?_eq_some_iff.mp hi).1
  by_cases hj : j = i
  · subst hj
    simp [at', put, hlt]
  · simp [at', put, List.getElem?_set_ne (Ne.symm hj), hj]

theorem breaks_reaps (h : s.breaks i = true) : s.reaps i = true := by
  obtain ⟨c, hi, hlive, hpc⟩ := at'_iff.mp h
  exact at'_of hi hlive (by rw [beq_iff_eq.mp hpc]; rfl)

/-- **One caller goes on.**  The makers of the directories change only where no other caller minds. -/
theorem Inv.put (h : s.Inv) (hi : s.callers[i]? = some c) (c' : Caller) (hpid : c'.pid = c.pid)
    (lock : Option LockDirectory) (reaper : Option ReaperDirectory)
    (hmade : ∀ d, lock = some d → d.maker < s.callers.length)
    (hwritten : ∀ d owner, lock = some d → d.owner = some (some owner) →
      owner.token = d.maker ∧ ∀ x, s.callers[d.maker]? = some x → x.pid = owner.pid)
    (hown : c'.live = true → c'.pc.holds = true → lock.map (·.maker) = some i)
    (hothers : ∀ j, j ≠ i → s.holds j = true → lock.map (·.maker) = s.lockMaker)
    (hownReaper : c'.live = true → c'.pc.reaps = true → reaper.map (·.maker) = some i)
    (hreapers : ∀ j, j ≠ i → s.reaps j = true → reaper.map (·.maker) = s.reaperMaker)
    (hbreak : c'.live = true → c'.pc = .breaking → lock.isSome ∧ ∀ j, j ≠ i → s.holds j = false)
    (hbreaking : ∀ k, k ≠ i → s.breaks k = true → lock.isSome ∧ (c'.live && c'.pc.holds) = false) :
    Inv { s.put i c' with lock := lock, reaper := reaper } := by
  refine ⟨?_, ?_, ?_, ?_, ?_⟩
  · intro j hj
    rw [holds, at'_put hi] at hj
    split_ifs at hj with hji
    · rw [Bool.and_eq_true] at hj
      exact hji ▸ hown hj.1 hj.2
    · exact (hothers j hji hj).trans (h.holder j hj)
  · intro j hj
    rw [reaps, at'_put hi] at hj
    split_ifs at hj with hji
    · rw [Bool.and_eq_true] at hj
      exact hji ▸ hownReaper hj.1 hj.2
    · exact (hreapers j hji hj).trans (h.reaper j hj)
  · intro k hk
    rw [breaks, at'_put hi] at hk
    split_ifs at hk with hki
    · simp only [Bool.and_eq_true, beq_iff_eq] at hk
      obtain ⟨hthere, hnone⟩ := hbreak hk.1 hk.2
      refine ⟨hthere, fun j => ?_⟩
      rw [holds, at'_put hi]
      split_ifs with hji
      · rw [hk.2]
        exact Bool.and_false _
      · exact hnone j hji
    · obtain ⟨hthere, hnot⟩ := hbreaking k hki hk
      refine ⟨hthere, fun j => ?_⟩
      rw [holds, at'_put hi]
      split_ifs with hji
      · exact hnot
      · exact (h.breaking k hk).2 j
  · intro d hd
    show d.maker < (s.callers.set i c').length
    rw [List.length_set]
    exact hmade d hd
  · intro d owner hd howner
    obtain ⟨htoken, hall⟩ := hwritten d owner hd howner
    refine ⟨htoken, fun x hx => ?_⟩
    have hx' : (s.callers.set i c')[d.maker]? = some x := hx
    by_cases hdi : d.maker = i
    · have hlt : i < s.callers.length := (List.getElem?_eq_some_iff.mp hi).1
      rw [hdi, List.getElem?_set_self hlt] at hx'
      cases hx'
      exact hpid.trans (hall c (by rw [hdi]; exact hi))
    · rw [List.getElem?_set_ne (Ne.symm hdi)] at hx'
      exact hall x hx'

/-- A caller that goes on without a change of the directories, to a place where it holds or reaps only what it
did before. -/
theorem Inv.goOn (h : s.Inv) (hi : s.callers[i]? = some c) (c' : Caller) (hpid : c'.pid = c.pid)
    (hlive : c'.live = true → c.live = true) (hholds : c'.pc.holds = true → c.pc.holds = true)
    (hreaps : c'.pc.reaps = true → c.pc.reaps = true)
    (hbreak : c'.live = true → c'.pc = .breaking → s.lock.isSome ∧ ∀ j, s.holds j = false) :
    Inv (s.put i c') := by
  refine h.put hi c' hpid s.lock s.reaper h.made h.written ?_ (fun _ _ _ => rfl) ?_ (fun _ _ _ => rfl) ?_ ?_
  · exact fun hl hp => h.holder i (at'_of hi (hlive hl) (hholds hp))
  · exact fun hl hp => h.reaper i (at'_of hi (hlive hl) (hreaps hp))
  · exact fun hl hp => ⟨(hbreak hl hp).1, fun j _ => (hbreak hl hp).2 j⟩
  · intro k _ hk
    refine ⟨(h.breaking k hk).1, ?_⟩
    cases hl : c'.live with
    | false => rfl
    | true =>
      cases hp : c'.pc.holds with
      | false => rfl
      | true =>
        have hi' := at'_of hi (hlive hl) (hholds hp)
        exact absurd ((h.breaking k hk).2 i) (by rw [holds, hi']; decide)

/-- The same for a place that is neither the lock's nor the reaper's, or the same as before. -/
theorem Inv.goTo (h : s.Inv) (hi : s.callers[i]? = some c) (pc : Pc) (hholds : pc.holds = false ∨ c.pc.holds = true)
    (hreaps : pc.reaps = false ∨ c.pc.reaps = true) (hbreak : pc ≠ .breaking) : Inv (s.put i { c with pc := pc }) := by
  refine h.goOn hi { c with pc := pc } rfl (fun hl => hl) ?_ ?_ (fun _ hb => absurd hb hbreak)
  · intro hp
    rcases hholds with hno | hyes
    · exact absurd (hno.symm.trans hp) (by decide)
    · exact hyes
  · intro hr
    rcases hreaps with hno | hyes
    · exact absurd (hno.symm.trans hr) (by decide)
    · exact hyes

theorem Inv.holds_unique (h : s.Inv) {j : ℕ} (hi : s.holds i = true) (hj : s.holds j = true) : i = j :=
  Option.some.inj ((h.holder i hi).symm.trans (h.holder j hj))

theorem Inv.reaps_unique (h : s.Inv) {j : ℕ} (hi : s.reaps i = true) (hj : s.reaps j = true) : i = j :=
  Option.some.inj ((h.reaper i hi).symm.trans (h.reaper j hj))

theorem Inv.not_breaking (h : s.Inv) {k : ℕ} (hi : s.holds i = true) : s.breaks k ≠ true := by
  intro hk
  have hno := (h.breaking k hk).2 i
  rw [hi] at hno
  cases hno

/-- The caller that holds the lock removes its directory. -/
theorem Inv.removeOwn (h : s.Inv) (hi : s.callers[i]? = some c) (hholds : s.holds i = true) (c' : Caller)
    (hpid : c'.pid = c.pid) (hpc : c'.pc.holds = false) (hreaps : c'.pc.reaps = false) :
    Inv { s.put i c' with lock := none } := by
  refine h.put hi c' hpid none s.reaper ?_ ?_ ?_ ?_ ?_ (fun _ _ _ => rfl) ?_ ?_
  · intro d hd
    cases hd
  · intro d owner hd
    cases hd
  · intro _ hp
    rw [hpc] at hp
    cases hp
  · exact fun j hj hother => absurd (h.holds_unique hother hholds) hj
  · intro _ hp
    rw [hreaps] at hp
    cases hp
  · intro _ hp
    rw [hp] at hreaps
    cases hreaps
  · exact fun k _ hk => absurd hk (h.not_breaking hholds)

/-- The reaper directory goes away where no other caller reaps. -/
theorem Inv.clear (h : s.Inv) (hi : s.callers[i]? = some c) (c' : Caller) (hpid : c'.pid = c.pid)
    (hpc : c'.pc.holds = false) (hreaps : c'.pc.reaps = false) (hothers : ∀ j, j ≠ i → s.reaps j ≠ true) :
    Inv { s.put i c' with reaper := none } := by
  refine h.put hi c' hpid s.lock none h.made h.written ?_ (fun _ _ _ => rfl) ?_ ?_ ?_ ?_
  · intro _ hp
    rw [hpc] at hp
    cases hp
  · intro _ hp
    rw [hreaps] at hp
    cases hp
  · exact fun j hj hother => absurd hother (hothers j hj)
  · intro _ hp
    rw [hp] at hreaps
    cases hreaps
  · exact fun k _ hk => ⟨(h.breaking k hk).1, by rw [hpc, Bool.and_false]⟩

section Steps

variable {s s' : LockState} {i : ℕ} {c : Caller} (h : s.Inv) (hi : s.callers[i]? = some c)

include h hi

theorem Inv.acquire (hpc : c.pc = .acquiring) (hs' : s.go i c = some s') : s'.Inv := by
  simp only [go, hpc] at hs'
  have hlt : i < s.callers.length := (List.getElem?_eq_some_iff.mp hi).1
  cases hlock : s.lock with
  | none =>
    simp only [hlock, Option.some.injEq] at hs'
    subst hs'
    have hnobody : ∀ j, s.holds j ≠ true := by
      intro j hj
      have hmaker := h.holder j hj
      rw [lockMaker, hlock] at hmaker
      cases hmaker
    refine h.put hi { c with pc := .writing } rfl (some ⟨i, s.now, none⟩) s.reaper ?_ ?_ (fun _ _ => rfl) ?_ ?_
      (fun _ _ _ => rfl) ?_ ?_
    · intro d hd
      cases hd
      exact hlt
    · intro d owner hd howner
      cases hd
      cases howner
    · exact fun j _ hj => absurd hj (hnobody j)
    · intro _ hp
      cases hp
    · intro _ hp
      cases hp
    · intro k _ hk
      have hthere := (h.breaking k hk).1
      rw [hlock] at hthere
      cases hthere
  | some d =>
    simp only [hlock, Option.some.injEq] at hs'
    exact hs' ▸ h.goTo hi .sweeping (Or.inl rfl) (Or.inl rfl) (by decide)

theorem Inv.reserve (hpc : c.pc = .reserving) (hs' : s.go i c = some s') : s'.Inv := by
  simp only [go, hpc] at hs'
  cases hreaper : s.reaper with
  | none =>
    simp only [hreaper, Option.some.injEq] at hs'
    subst hs'
    have hnobody : ∀ j, s.reaps j ≠ true := by
      intro j hj
      have hmaker := h.reaper j hj
      rw [reaperMaker, hreaper] at hmaker
      cases hmaker
    refine h.put hi { c with pc := .inspecting } rfl s.lock (some ⟨i, s.now⟩) h.made h.written ?_
      (fun _ _ _ => rfl) (fun _ _ => rfl) ?_ ?_ ?_
    · intro _ hp
      cases hp
    · exact fun j _ hj => absurd hj (hnobody j)
    · intro _ hp
      cases hp
    · exact fun k _ hk => absurd (breaks_reaps hk) (hnobody k)
  | some d =>
    simp only [hreaper, Option.some.injEq] at hs'
    exact hs' ▸ h.goTo hi .waiting (Or.inl rfl) (Or.inl rfl) (by decide)

/-- A lock that is judged too old is nobody's. -/
theorem Inv.age {milliseconds : ℤ} (hpc : c.pc = .aging milliseconds) (hg : s.unhurried (.go i) = true)
    (hs' : s.go i c = some s') : s'.Inv := by
  simp only [go, hpc] at hs'
  simp only [unhurried, hi, Option.all_some, hpc] at hg
  split at hs'
  · next hold =>
    cases hs'
    refine h.goOn hi { c with pc := .breaking } rfl (fun hl => hl) ?_ (fun _ => by rw [hpc]; rfl) ?_
    · intro hp
      cases hp
    · intro _ _
      cases hlock : s.lock with
      | none =>
        rw [hlock] at hold
        cases hold
      | some d =>
        simp only [hlock, Option.any_some, Option.all_some] at hold hg
        refine ⟨rfl, fun j => ?_⟩
        by_contra hj
        rw [Bool.not_eq_false] at hj
        have hmaker := h.holder j hj
        rw [lockMaker, hlock] at hmaker
        have hdj : d.maker = j := Option.some.inj hmaker
        rw [hold, hdj, hj] at hg
        cases hg
  · exact Option.some.inj hs' ▸ h.goTo hi (.leaving false) (Or.inl rfl) (Or.inr (by rw [hpc]; rfl)) (by simp)

/-- An owner is found alive, or it is dead and the lock is nobody's. -/
theorem Inv.probe {owner : LockOwner} {exists' : Bool} (hpc : c.pc = .probing owner)
    (hg : s.unhurried (.probe i exists') = true)
    (hfound : exists' = false → ∀ x ∈ s.callers, x.live = true → x.pid ≠ owner.pid) :
    Inv (s.put i { c with pc := if exists' then .aging maximumLeaseAgeMs else .breaking }) := by
  have hreaps : c.pc.reaps = true := by rw [hpc]; rfl
  cases exists' with
  | true => exact h.goTo hi (.aging maximumLeaseAgeMs) (Or.inl rfl) (Or.inr hreaps) (by simp)
  | false =>
    refine h.goOn hi { c with pc := .breaking } rfl (fun hl => hl) ?_ (fun _ => hreaps) ?_
    · intro hp
      cases hp
    · intro _ _
      simp only [unhurried, hi, Option.all_some, hpc, beq_iff_eq] at hg
      obtain ⟨d, hd, howner⟩ := Option.bind_eq_some_iff.mp hg
      have howner' : d.owner = some (some owner) := by
        cases hfile : d.owner with
        | none =>
          rw [hfile] at howner
          cases howner
        | some file =>
          rw [hfile] at howner
          exact congrArg some howner
      obtain ⟨_, hpid⟩ := h.written d owner hd howner'
      refine ⟨by rw [hd]; rfl, fun j => ?_⟩
      by_contra hj
      rw [Bool.not_eq_false] at hj
      have hmaker := h.holder j hj
      rw [lockMaker, hd] at hmaker
      obtain ⟨x, hx, hxlive, _⟩ := at'_iff.mp hj
      have hdj : d.maker = j := Option.some.inj hmaker
      exact hfound rfl x (List.mem_of_getElem? hx) hxlive (hpid x (by rw [hdj]; exact hx))

variable (hlive : c.live = true)

include hlive

theorem Inv.write (hpc : c.pc = .writing) (hs' : s.go i c = some s') : s'.Inv := by
  simp only [go, hpc] at hs'
  have hholds : s.holds i = true := at'_of hi hlive (by rw [hpc]; rfl)
  have hdiscard : ∀ collided, Inv (s.put i { c with pc := .discarding collided }) := fun collided =>
    h.goTo hi (.discarding collided) (Or.inr (by rw [hpc]; rfl)) (Or.inl rfl) (by simp)
  cases hlock : s.lock with
  | none =>
    simp only [hlock, Option.some.injEq] at hs'
    exact hs' ▸ hdiscard false
  | some d =>
    simp only [hlock] at hs'
    have hmaker : d.maker = i := by
      have hmaker := h.holder i hholds
      rw [lockMaker, hlock] at hmaker
      exact Option.some.inj hmaker
    split at hs'
    · exact Option.some.inj hs' ▸ hdiscard true
    · cases hs'
      refine h.put hi { c with pc := .executing } rfl
        (some { d with mtime := s.now, owner := some (some ⟨c.pid, i⟩) }) s.reaper ?_ ?_ ?_ ?_ ?_
        (fun _ _ _ => rfl) ?_ ?_
      · intro d' hd'
        cases hd'
        exact h.made d hlock
      · intro d' owner hd' howner
        cases hd'
        cases howner
        refine ⟨hmaker.symm, fun x hx => ?_⟩
        have hx' : s.callers[i]? = some x := hmaker ▸ hx
        rw [hi] at hx'
        cases hx'
        rfl
      · exact fun _ _ => congrArg some hmaker
      · intro j _ _
        rw [lockMaker, hlock]
        rfl
      · intro _ hp
        cases hp
      · intro _ hp
        cases hp
      · exact fun k _ hk => absurd hk (h.not_breaking hholds)

/-- The removal of an abandoned lock. -/
theorem Inv.break (hpc : c.pc = .breaking) (hs' : s.go i c = some s') : s'.Inv := by
  simp only [go, hpc, Option.some.injEq] at hs'
  subst hs'
  have hbreaks : s.breaks i = true := at'_of hi hlive (by rw [hpc]; rfl)
  have hreaps := breaks_reaps hbreaks
  refine h.put hi { c with pc := .leaving false } rfl none s.reaper ?_ ?_ ?_ ?_ ?_ (fun _ _ _ => rfl) ?_ ?_
  · intro d hd
    cases hd
  · intro d owner hd
    cases hd
  · intro _ hp
    cases hp
  · intro j _ hj
    have hno := (h.breaking i hbreaks).2 j
    rw [hj] at hno
    cases hno
  · exact fun _ _ => h.reaper i hreaps
  · intro _ hp
    cases hp
  · exact fun k hk hother => absurd (h.reaps_unique (breaks_reaps hother) hreaps) hk

theorem Inv.go (hg : s.unhurried (.go i) = true) (hs' : s.go i c = some s') : s'.Inv := by
  cases hpc : c.pc with
  | acquiring => exact h.acquire hi hpc hs'
  | writing => exact h.write hi hlive hpc hs'
  | reserving => exact h.reserve hi hpc hs'
  | breaking => exact h.break hi hlive hpc hs'
  | aging milliseconds => exact h.age hi hpc hg hs'
  | discarding collided =>
    simp only [LockState.go, hpc, Option.some.injEq] at hs'
    subst hs'
    refine h.removeOwn hi (at'_of hi hlive (by rw [hpc]; rfl)) _ rfl ?_ ?_
    · cases collided <;> rfl
    · cases collided <;> rfl
  | releasing =>
    simp only [LockState.go, hpc, Option.some.injEq] at hs'
    subst hs'
    exact h.removeOwn hi (at'_of hi hlive (by rw [hpc]; rfl)) _ rfl rfl rfl
  | clearing =>
    simp only [LockState.go, hpc, Option.some.injEq] at hs'
    subst hs'
    refine h.clear hi _ rfl rfl rfl ?_
    intro j _ hj
    simp only [unhurried, hi, Option.all_some, hpc] at hg
    have hmaker := h.reaper j hj
    cases hreaper : s.reaper with
    | none =>
      rw [reaperMaker, hreaper] at hmaker
      cases hmaker
    | some d =>
      rw [reaperMaker, hreaper] at hmaker
      have hdj : d.maker = j := Option.some.inj hmaker
      rw [hreaper, Option.all_some, hdj, hj] at hg
      cases hg
  | leaving failed =>
    simp only [LockState.go, hpc, Option.some.injEq] at hs'
    subst hs'
    refine h.clear hi _ rfl ?_ ?_ ?_
    · cases failed <;> rfl
    · cases failed <;> rfl
    · exact fun j hj hother => hj (h.reaps_unique hother (at'_of hi hlive (by rw [hpc]; rfl)))
  | sweeping =>
    simp only [LockState.go, hpc] at hs'
    split at hs'
    · exact Option.some.inj hs' ▸ h.goTo hi .clearing (Or.inl rfl) (Or.inl rfl) (by decide)
    · exact Option.some.inj hs' ▸ h.goTo hi .reserving (Or.inl rfl) (Or.inl rfl) (by decide)
  | inspecting =>
    simp only [LockState.go, hpc] at hs'
    have hreaps : c.pc.reaps = true := by rw [hpc]; rfl
    split at hs'
    · exact Option.some.inj hs' ▸ h.goTo hi (.probing _) (Or.inl rfl) (Or.inr hreaps) (by simp)
    · exact Option.some.inj hs' ▸ h.goTo hi (.aging _) (Or.inl rfl) (Or.inr hreaps) (by simp)
  | waiting =>
    simp only [LockState.go, hpc, Option.some.injEq] at hs'
    subst hs'
    split
    · exact h.goTo hi .failed (Or.inl rfl) (Or.inl rfl) (by decide)
    · exact h.goTo hi .acquiring (Or.inl rfl) (Or.inl rfl) (by decide)
  | executing =>
    simp only [LockState.go, hpc, Option.some.injEq] at hs'
    exact hs' ▸ h.goTo hi .checking (Or.inr (by rw [hpc]; rfl)) (Or.inl rfl) (by decide)
  | checking =>
    simp only [LockState.go, hpc, Option.some.injEq] at hs'
    subst hs'
    have hholds : c.pc.holds = true := by rw [hpc]; rfl
    split
    · exact h.goTo hi .releasing (Or.inr hholds) (Or.inl rfl) (by decide)
    · exact h.goTo hi .returned (Or.inr hholds) (Or.inl rfl) (by decide)
  | probing owner =>
    simp only [LockState.go, hpc] at hs'
    cases hs'
  | returned =>
    simp only [LockState.go, hpc] at hs'
    cases hs'
  | failed =>
    simp only [LockState.go, hpc] at hs'
    cases hs'

/-- A call that throws. -/
theorem Inv.fault {torn : Bool} (hs' : s.fault i c torn = some s') : s'.Inv := by
  cases hpc : c.pc with
  | writing =>
    simp only [LockState.fault, hpc, Option.some.injEq] at hs'
    subst hs'
    have hholds : s.holds i = true := at'_of hi hlive (by rw [hpc]; rfl)
    have hmaker : (s.lock.map fun d => if torn && d.owner.isNone then { d with owner := some none } else d).map
        (·.maker) = s.lockMaker := by
      rw [lockMaker, Option.map_map]
      congr 1
      funext d
      simp only [Function.comp_apply]
      split <;> rfl
    refine h.put hi { c with pc := .discarding false } rfl _ s.reaper ?_ ?_ ?_ (fun _ _ _ => hmaker) ?_
      (fun _ _ _ => rfl) ?_ ?_
    · intro d hd
      obtain ⟨d₀, hd₀, rfl⟩ := Option.map_eq_some_iff.mp hd
      have hlt := h.made d₀ hd₀
      split <;> exact hlt
    · intro d owner hd howner
      obtain ⟨d₀, hd₀, rfl⟩ := Option.map_eq_some_iff.mp hd
      split at howner
      · cases howner
      · next hkeep =>
        rw [if_neg hkeep]
        exact h.written d₀ owner hd₀ howner
    · exact fun _ _ => hmaker.trans (h.holder i hholds)
    · intro _ hr
      cases hr
    · intro _ hb
      cases hb
    · exact fun k _ hk => absurd hk (h.not_breaking hholds)
  | acquiring | discarding _ | sweeping | clearing | reserving | leaving _ =>
    simp only [LockState.fault, hpc, Option.some.injEq] at hs'
    exact hs' ▸ h.goTo hi .failed (Or.inl rfl) (Or.inl rfl) (by decide)
  | inspecting | aging _ | breaking =>
    simp only [LockState.fault, hpc, Option.some.injEq] at hs'
    exact hs' ▸ h.goTo hi (.leaving true) (Or.inl rfl) (Or.inr (by rw [hpc]; rfl)) (by simp)
  | checking | releasing =>
    simp only [LockState.fault, hpc, Option.some.injEq] at hs'
    exact hs' ▸ h.goTo hi .returned (Or.inl rfl) (Or.inl rfl) (by decide)
  | probing _ | waiting | executing | returned | failed =>
    simp only [LockState.fault, hpc, reduceCtorEq] at hs'

end Steps

/-- A directory that only changes its time. -/
theorem Inv.touch (h : s.Inv) (t : ℤ) : Inv { s with lock := s.lock.map fun d => { d with mtime := t } } := by
  have hmaker : (s.lock.map fun d => { d with mtime := t : LockDirectory }).map (·.maker) = s.lockMaker := by
    rw [lockMaker, Option.map_map]
    rfl
  refine ⟨fun i hi => hmaker.trans (h.holder i hi), h.reaper, ?_, ?_, ?_⟩
  · intro k hk
    obtain ⟨hthere, hnone⟩ := h.breaking k hk
    exact ⟨by rw [Option.isSome_map]; exact hthere, hnone⟩
  · intro d hd
    obtain ⟨d₀, hd₀, rfl⟩ := Option.map_eq_some_iff.mp hd
    exact h.made d₀ hd₀
  · intro d owner hd howner
    obtain ⟨d₀, hd₀, rfl⟩ := Option.map_eq_some_iff.mp hd
    exact h.written d₀ owner hd₀ howner

/-- A call of `withCredentialLock` begins outside of both sections. -/
theorem Inv.call (h : s.Inv) (x : Caller) (hholds : x.pc.holds = false) (hreaps : x.pc.reaps = false) :
    Inv { s with callers := s.callers ++ [x] } := by
  have hat : ∀ (place : Pc → Bool) (j : ℕ), place x.pc = false →
      ({ s with callers := s.callers ++ [x] } : LockState).at' place j = true → s.at' place j = true := by
    intro place j hx hj
    obtain ⟨c, hc, hlive, hp⟩ := at'_iff.mp hj
    have hc' : (s.callers ++ [x])[j]? = some c := hc
    rw [List.getElem?_append] at hc'
    split at hc'
    · exact at'_of hc' hlive hp
    · have hcx : c = x := List.mem_singleton.mp (List.mem_of_getElem? hc')
      rw [hcx, hx] at hp
      cases hp
  have hbreaks : (x.pc == .breaking) = false := by
    cases hpc : x.pc <;> first | rfl | (rw [hpc] at hreaps; cases hreaps)
  refine ⟨fun i hi => h.holder i (hat _ i hholds hi), fun i hi => h.reaper i (hat _ i hreaps hi), ?_, ?_, ?_⟩
  · intro k hk
    obtain ⟨hthere, hnone⟩ := h.breaking k (hat _ k hbreaks hk)
    refine ⟨hthere, fun i => ?_⟩
    by_contra hi
    rw [Bool.not_eq_false] at hi
    have hno := hnone i
    rw [holds, hat _ i hholds hi] at hno
    cases hno
  · intro d hd
    have hlt := h.made d hd
    show d.maker < (s.callers ++ [x]).length
    rw [List.length_append]
    omega
  · intro d owner hd howner
    obtain ⟨htoken, hpid⟩ := h.written d owner hd howner
    refine ⟨htoken, fun c hc => hpid c ?_⟩
    have hc' : (s.callers ++ [x])[d.maker]? = some c := hc
    rwa [List.getElem?_append_left (h.made d hd)] at hc'

/-- **Every step under the condition keeps the invariant.** -/
theorem Inv.step {s' : LockState} {a : LockAct} (h : s.Inv) (hg : s.unhurried a = true) (hs' : s.step a = some s') :
    s'.Inv := by
  cases a with
  | clock now =>
    cases hs'
    exact ⟨h.holder, h.reaper, h.breaking, h.made, h.written⟩
  | call pid =>
    cases hs'
    exact h.call _ rfl rfl
  | crash i =>
    obtain ⟨c, hi, rfl⟩ := Option.map_eq_some_iff.mp hs'
    refine h.goOn hi { c with live := false } rfl ?_ (fun hp => hp) (fun hr => hr) ?_
    · intro hl
      cases hl
    · intro hl
      cases hl
  | go i =>
    obtain ⟨c, hi, hs'⟩ := Option.bind_eq_some_iff.mp hs'
    split at hs'
    · next hlive => exact h.go hi hlive hg hs'
    · cases hs'
  | probe i exists' =>
    obtain ⟨c, hi, hs'⟩ := Option.bind_eq_some_iff.mp hs'
    split at hs'
    · next owner hpc =>
      split at hs'
      · cases hs'
      · next hfound =>
        simp only [Bool.or_eq_true, Bool.not_eq_true', Bool.and_eq_true, List.any_eq_true, beq_iff_eq, not_or,
          not_and, not_exists, Bool.not_eq_false] at hfound
        exact Option.some.inj hs' ▸ h.probe hi hpc hg fun he x hx => hfound.2 he x hx
    · cases hs'
  | fault i torn =>
    obtain ⟨c, hi, hs'⟩ := Option.bind_eq_some_iff.mp hs'
    split at hs'
    · next hlive => exact h.fault hi hlive hs'
    · cases hs'
  | beat i =>
    obtain ⟨c, hi, hs'⟩ := Option.bind_eq_some_iff.mp hs'
    split at hs'
    · next hbeat =>
      simp only [Bool.and_eq_true, beq_iff_eq] at hbeat
      refine Option.some.inj hs' ▸ h.goOn hi { c with beats := c.beats ++ [s.now] } rfl (fun hl => hl)
        (fun hp => hp) (fun hr => hr) (fun _ hb => ?_)
      exact absurd (hbeat.2.symm.trans hb) (by decide)
    · cases hs'
  | touch i k =>
    obtain ⟨c, hi, hs'⟩ := Option.bind_eq_some_iff.mp hs'
    obtain ⟨t, _, hs'⟩ := Option.bind_eq_some_iff.mp hs'
    split at hs'
    · next hlive =>
      have hput : (s.put i { c with beats := c.beats.eraseIdx k }).Inv := by
        refine h.goOn hi { c with beats := c.beats.eraseIdx k } rfl (fun hl => hl) (fun hp => hp)
          (fun hr => hr) (fun hl hb => h.breaking i (at'_of hi hl ?_))
        exact beq_iff_eq.mpr hb
      exact Option.some.inj hs' ▸ hput.touch t
    · cases hs'

theorem Inv.initial (now : ℤ) : (LockState.initial now).Inv := by
  have hnone : ∀ (place : Pc → Bool) (i : ℕ), (LockState.initial now).at' place i ≠ true := by
    intro place i hi
    obtain ⟨c, hc, _⟩ := at'_iff.mp hi
    cases hc
  refine ⟨fun i hi => absurd hi (hnone _ i), fun i hi => absurd hi (hnone _ i), fun i hi => absurd hi (hnone _ i),
    ?_, ?_⟩
  · intro d hd
    cases hd
  · intro d owner hd
    cases hd

theorem Inv.exclusive (h : s.Inv) : s.Exclusive := by
  refine ⟨?_, ?_⟩
  · intro i j hi hj
    have hexec : ∀ k, s.executes k = true → s.holds k = true := by
      intro k hk
      obtain ⟨c, hc, hlive, hpc⟩ := at'_iff.mp hk
      exact at'_of hc hlive (by rw [beq_iff_eq.mp hpc]; rfl)
    exact h.holds_unique (hexec i hi) (hexec j hj)
  · intro i j hi hj
    obtain ⟨c, hc, hlive, hpc⟩ := at'_iff.mp hi
    cases hp : c.pc with
    | discarding _ => exact h.holds_unique (at'_of hc hlive (by rw [hp]; rfl)) hj
    | releasing => exact h.holds_unique (at'_of hc hlive (by rw [hp]; rfl)) hj
    | breaking =>
      have hno := (h.breaking i (at'_of hc hlive (by rw [hp]; rfl))).2 j
      rw [hj] at hno
      cases hno
    | _ =>
      rw [hp] at hpc
      cases hpc

end LockState

/-- **The lock is exclusive** in every run whose steps are unhurried, and nobody removes the directory of
another caller. -/
theorem lock_exclusive (now : ℤ) (acts : List LockAct) (s : LockState)
    (h : RunIn LockStep Unhurried (LockState.initial now) acts s) : s.Exclusive :=
  (RunIn.invariant (I := LockState.Inv) (fun _ _ _ hinv hstep hg => hinv.step hg hstep) h
    (LockState.Inv.initial now)).exclusive

namespace Sample

/-- Caller `i` takes the free lock. -/
def take (i : ℕ) : List LockAct := [.go i, .go i]

/-- Caller `i` finds the lock taken and reads who owns it. -/
def inspect (i : ℕ) : List LockAct := [.go i, .go i, .go i, .go i]

/-- A caller dies during its operation; the next one finds it dead and takes its place. -/
def recovery : List LockAct :=
  [.call 10, .call 11] ++ take 0 ++ inspect 1 ++ [.crash 0, .probe 1 false, .go 1, .go 1, .go 1] ++ take 1

/-- Between the read of the owner and the look at its process the owner finishes and a third caller takes the
lock. -/
def overtaken : List LockAct :=
  [.call 10, .call 11, .call 12] ++ take 0 ++ inspect 1
    ++ [.go 0, .go 0, .go 0, .crash 0] ++ take 2 ++ [.probe 1 false, .go 1, .go 1, .go 1] ++ take 1

end Sample

/-- The lock of a dead caller is broken, and exclusive for the next one. -/
theorem lock_exclusive_recovery : ∃ s, RunIn LockStep Unhurried (LockState.initial 0) Sample.recovery s ∧
    s.executes 1 = true ∧ s.Exclusive := by
  have h : (execIn LockState.step Unhurried (LockState.initial 0) Sample.recovery).any
      (fun s => decide (s.executes 1 = true)) = true := by decide +kernel
  obtain ⟨s, hrun, hexec⟩ := RunIn.of_test h
  exact ⟨s, hrun, hexec, lock_exclusive 0 Sample.recovery s hrun⟩

/-- The lock of the third caller is removed, and two callers execute at once. -/
theorem overtaken_lock_shared :
    ¬ ∀ (now : ℤ) (acts : List LockAct) (s : LockState),
      Run LockStep (LockState.initial now) acts s → s.Exclusive := by
  intro hall
  have h : (exec LockState.step (LockState.initial 0) Sample.overtaken).any
      (fun s => decide (s.executes 1 = true ∧ s.executes 2 = true)) = true := by decide +kernel
  obtain ⟨s, hrun, h1, h2⟩ := Run.of_test h
  exact absurd ((hall 0 Sample.overtaken s hrun).executes 1 2 h1 h2) (by decide)

end Nehemiah.Cli
