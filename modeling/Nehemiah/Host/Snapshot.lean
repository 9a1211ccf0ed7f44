import Mathlib

/-!
# Snapshotting a running machine

`fcDriver.CreateSnapshot`: pause, snapshot, resume, move the two files out of the jail, copy the disk.  A call of
the Firecracker API takes effect before its reply, after the client has given up on it, or never; only a call that
was answered is known to have taken effect.  What may go wrong is given beforehand, as the faults of the attempt.

* `snapshot_sound`: after an attempt the source runs, and an error has left nothing behind, exactly when the faults are
  harmless.
* `refusedResume_strands`: attempts that leave the source paused, or a directory, or a file in the jail.

Outside the model are the contents of the files (`Host.Clones` has those of a fork), the texts of the errors, and what the
callers do with them.
-/

namespace Nehemiah.Snapshot

/-- The places of an attempt: below the run directory, or in the chroot of the source. -/
inductive Place
  | snapDir | snapFile | memFile | rootfs | jailSnap | jailMem
deriving DecidableEq

/-- In the directory of the snapshot, or the directory itself. -/
def Place.inSnapDir : Place → Bool
  | .snapDir | .snapFile | .memFile | .rootfs => true
  | .jailSnap | .jailMem => false

structure Source where
  running : Bool
  files : Place → Bool

inductive Effect
  | never | now | later
deriving DecidableEq

/-- A call of the API that changes the state of the machine. -/
structure Call where
  effect : Effect
  ok : Bool
  answered : ok = true → effect = .now

/-- `PUT /snapshot/create`, which may have written either file when it fails, or still be writing it. -/
structure CreateCall where
  snap : Effect
  mem : Effect
  ok : Bool
  answered : ok = true → snap = .now ∧ mem = .now

/-- Moving one file out of the jail: the rename, the copy in its place, and the removal after a copy. -/
structure Move where
  rename : Bool
  copy : Bool
  remove : Bool

def Move.ok (m : Move) : Bool := m.rename || m.copy

/-- What goes wrong in an attempt. -/
structure Faults where
  mkdir : Bool
  pause : Call
  create : CreateCall
  resume : Call
  moveSnap : Move
  moveMem : Move
  copyRootfs : Bool
  /-- `os.RemoveAll` of the directory; one that fails leaves the directory, and what `kept` says of its files. -/
  removeAll : Bool
  kept : Place → Bool

/-- The errors of `CreateSnapshot` by the step that they name. -/
inductive SnapshotError
  | mkdir | pause | create | stage

/-- The error tells the caller that the machine does not run.  None does: each names the step that failed, the failure
of the resume is logged and not returned. -/
def SnapshotError.saysPaused : SnapshotError → Bool
  | .mkdir | .pause | .create | .stage => false

/-- The source when the function returns, and once every call of the attempt has come to rest. -/
structure Outcome where
  error : Option SnapshotError
  atReturn : Source
  atRest : Source

/-! ### Steps -/

def Source.add (s : Source) (p : Place) : Source := { s with files := Function.update s.files p true }

def Source.remove (s : Source) (p : Place) : Source := { s with files := Function.update s.files p false }

/-- The call changes the machine before the client goes on. -/
def Source.called (s : Source) (c : Call) (running : Bool) : Source :=
  if c.effect = .now then { s with running := running } else s

/-- The call changes the machine after the client has given up. -/
def Source.calledLate (s : Source) (c : Call) (running : Bool) : Source :=
  if c.effect = .later then { s with running := running } else s

def snapPath (jailed : Bool) : Place := if jailed then .jailSnap else .snapFile

def memPath (jailed : Bool) : Place := if jailed then .jailMem else .memFile

def Source.written (s : Source) (e : Effect) (p : Place) : Source := if e = .now then s.add p else s

/-- A file that is written late needs its directory. -/
def Source.writtenLate (s : Source) (e : Effect) (p : Place) : Source :=
  if e = .later ∧ (p.inSnapDir = true → s.files .snapDir = true) then s.add p else s

def Source.removeAll (s : Source) (f : Faults) : Source :=
  { s with files := fun p => if p.inSnapDir then !f.removeAll && s.files p && (p == .snapDir || f.kept p) else s.files p }

/-- One file of the loop that stages the snapshot. -/
def Source.moveOut (s : Source) (m : Move) (source target : Place) : Source :=
  if m.rename then (s.remove source).add target
  else if m.remove then (s.add target).remove source
  else s.add target

def createSnapshot (jailed : Bool) (f : Faults) (s : Source) : Outcome :=
  if !f.mkdir then ⟨some .mkdir, s, s⟩
  else
    let s := s.add .snapDir
    let s := s.called f.pause false
    if !f.pause.ok then ⟨some .pause, s, s.calledLate f.pause false⟩
    else
      let s := (s.written f.create.snap (snapPath jailed)).written f.create.mem (memPath jailed)
      let s := s.called f.resume true
      if !f.create.ok then
        let s := s.removeAll f
        let later := (s.writtenLate f.create.snap (snapPath jailed)).writtenLate f.create.mem (memPath jailed)
        ⟨some .create, s, later.calledLate f.resume true⟩
      else if jailed && !f.moveSnap.ok then
        let s := (s.add .snapFile).removeAll f
        ⟨some .stage, s, s.calledLate f.resume true⟩
      else
        let s := if jailed then s.moveOut f.moveSnap .jailSnap .snapFile else s
        if jailed && !f.moveMem.ok then
          let s := (s.add .memFile).removeAll f
          ⟨some .stage, s, s.calledLate f.resume true⟩
        else
          let s := if jailed then s.moveOut f.moveMem .jailMem .memFile else s
          let s := if f.copyRootfs then s.add .rootfs else s
          ⟨none, s, s.calledLate f.resume true⟩

/-- A source that runs, and nothing of the attempt yet. -/
def fresh : Source := ⟨true, fun _ => false⟩

/-! ### The promise -/

/-- The machine runs from the return on, or the caller has been told that it does not; and an error leaves nothing
behind. -/
structure Outcome.Sound (o : Outcome) : Prop where
  running : (o.atReturn.running = true ∧ o.atRest.running = true) ∨ ∃ e, o.error = some e ∧ e.saysPaused = true
  clean : o.error ≠ none → ∀ p, o.atReturn.files p = false ∧ o.atRest.files p = false

/-- The directory could not be made; or the pause was answered, the resume took effect before the client went on, and
then either the snapshot was answered and its files were moved out of the jail, or it was not, left nothing in the
jail, then or later, and the directory could be removed. -/
def Faults.harmless (f : Faults) (jailed : Bool) : Prop :=
  f.mkdir = false ∨
    f.pause.ok = true ∧ f.resume.effect = .now ∧
      (f.create.ok = true ∧ (jailed = true → f.moveSnap.ok = true ∧ f.moveMem.ok = true) ∨
        f.create.ok = false ∧ f.removeAll = true ∧
          (jailed = true → f.create.snap = .never ∧ f.create.mem = .never))

/-! ### Files and calls -/

section

variable {s : Source} {f : Faults} {c : Call} {m : Move} {e : Effect} {p q : Place}

@[simp] theorem add_running : (s.add p).running = s.running := rfl

@[simp] theorem remove_running : (s.remove p).running = s.running := rfl

@[simp] theorem removeAll_running : (s.removeAll f).running = s.running := rfl

@[simp] theorem written_running : (s.written e p).running = s.running := by
  unfold Source.written
  split <;> rfl

@[simp] theorem writtenLate_running : (s.writtenLate e p).running = s.running := by
  unfold Source.writtenLate
  split <;> rfl

@[simp] theorem moveOut_running : (s.moveOut m p q).running = s.running := by
  unfold Source.moveOut
  split
  · rfl
  · split <;> rfl

@[simp] theorem called_files {running : Bool} : (s.called c running).files = s.files := by
  unfold Source.called
  split <;> rfl

@[simp] theorem calledLate_files {running : Bool} : (s.calledLate c running).files = s.files := by
  unfold Source.calledLate
  split <;> rfl

theorem add_files : (s.add p).files q = (q == p || s.files q) := by
  by_cases h : q = p
  · subst h
    simp [Source.add]
  · simp [Source.add, h]

theorem written_files : (s.written e p).files q = (e == .now && q == p || s.files q) := by
  unfold Source.written
  split
  · rename_i he
    rw [add_files, he]
    rfl
  · rename_i he
    have hne : (e == Effect.now) = false := by simpa using he
    rw [hne]
    rfl

theorem writtenLate_files :
    (s.writtenLate e p).files q =
      (e == .later && (!p.inSnapDir || s.files .snapDir) && q == p || s.files q) := by
  unfold Source.writtenLate
  split
  · rename_i h
    have hdir : (!p.inSnapDir || s.files .snapDir) = true := by
      cases hp : p.inSnapDir with
      | false => rfl
      | true => exact h.2 hp
    rw [add_files, h.1, hdir]
    rfl
  · rename_i h
    have hoff : (e == Effect.later && (!p.inSnapDir || s.files .snapDir)) = false := by
      rw [Bool.eq_false_iff]
      intro hon
      simp only [Bool.and_eq_true, beq_iff_eq, Bool.or_eq_true, Bool.not_eq_true'] at hon
      refine h ⟨hon.1, fun hp => ?_⟩
      rcases hon.2 with hout | hdir
      · rw [hp] at hout
        cases hout
      · exact hdir
    rw [hoff]
    rfl

theorem writtenLate_keeps (h : s.files q = true) : (s.writtenLate e p).files q = true := by
  rw [writtenLate_files, h, Bool.or_true]

/-- A late file reaches the jail, whose directory stays. -/
theorem writtenLate_jail (hp : p.inSnapDir = false) : (s.writtenLate .later p).files p = true := by
  simp [writtenLate_files, hp]

/-- The jail is not part of the directory that is removed. -/
theorem removeAll_jail (h : p.inSnapDir = false) : (s.removeAll f).files p = s.files p := by
  simp [Source.removeAll, h]

theorem removeAll_done (h : f.removeAll = true) (hp : p.inSnapDir = true) : (s.removeAll f).files p = false := by
  simp [Source.removeAll, h, hp]

theorem removeAll_dir (h : f.removeAll = false) : (s.removeAll f).files .snapDir = s.files .snapDir := by
  simp [Source.removeAll, h, Place.inSnapDir]

/-- Moving another file out of the jail leaves the memory file there. -/
theorem moveOut_files (hp : q ≠ p) (ht : s.files q = true) {target : Place} :
    (s.moveOut m p target).files q = true := by
  unfold Source.moveOut
  split
  · rw [add_files]
    simp [Source.remove, hp, ht]
  · split
    · simp [Source.remove, hp, add_files, ht]
    · rw [add_files, ht, Bool.or_true]

/-- The machine runs at the return and after it exactly when the resume was in time. -/
theorem resumed_iff (hpaused : s.running = false) :
    (s.called c true).running = true ↔ c.effect = .now := by
  unfold Source.called
  split
  · rename_i h
    exact ⟨fun _ => h, fun _ => rfl⟩
  · rename_i h
    rw [hpaused]
    exact ⟨fun hf => absurd hf Bool.false_ne_true, fun hc => absurd hc h⟩

theorem calledLate_running (h : s.running = true) : (s.calledLate c true).running = true := by
  unfold Source.calledLate
  split
  · rfl
  · exact h

end

/-! ### The attempt -/

section attempt

variable {jailed : Bool} {f : Faults}

/-- The source when the snapshot call has been answered or given up on, and the resume made. -/
def resumed (jailed : Bool) (f : Faults) : Source :=
  ((((fresh.add .snapDir).called f.pause false).written f.create.snap (snapPath jailed)).written f.create.mem
    (memPath jailed)).called f.resume true

theorem resumed_running (hpause : f.pause.ok = true) : (resumed jailed f).running = true ↔ f.resume.effect = .now := by
  refine resumed_iff ?_
  have hnow := f.pause.answered hpause
  simp [Source.called, hnow]

theorem resumed_snapDir : (resumed jailed f).files .snapDir = true := by
  simp only [resumed, called_files, written_files, add_files, beq_self_eq_true, Bool.true_or, Bool.or_true]

/-- A snapshot that was answered has put the memory file where it belongs. -/
theorem resumed_mem (hcreate : f.create.ok = true) : (resumed jailed f).files (memPath jailed) = true := by
  have hnow := (f.create.answered hcreate).2
  simp only [resumed, called_files, written_files, hnow, beq_self_eq_true, Bool.and_self, Bool.true_or]

theorem createSnapshot_pause (hmkdir : f.mkdir = true) (hpause : f.pause.ok = false) :
    ¬ (createSnapshot jailed f fresh).Sound := by
  intro h
  have herror : (createSnapshot jailed f fresh).error = some .pause := by simp [createSnapshot, hmkdir, hpause]
  have hdir := (h.clean (by rw [herror]; exact Option.some_ne_none _) .snapDir).1
  simp [createSnapshot, hmkdir, hpause, add_files] at hdir

/-- An error leaves nothing when the outcome says so of each place. -/
theorem sound_iff {o : Outcome} (herror : ∀ e, o.error = some e → e.saysPaused = false) :
    o.Sound ↔ (o.atReturn.running = true ∧ o.atRest.running = true) ∧
      (o.error ≠ none → ∀ p, o.atReturn.files p = false ∧ o.atRest.files p = false) := by
  constructor
  · rintro ⟨hrunning | ⟨e, he, hsays⟩, hclean⟩
    · exact ⟨hrunning, hclean⟩
    · rw [herror e he] at hsays
      cases hsays
  · rintro ⟨hrunning, hclean⟩
    exact ⟨.inl hrunning, hclean⟩

theorem saysPaused_false (e : SnapshotError) : e.saysPaused = false := by cases e <;> rfl

/-- What is in the jail when the snapshot call is over. -/
theorem resumed_jail {p : Place} (hp : p.inSnapDir = false) :
    (resumed jailed f).files p =
      (f.create.mem == .now && p == memPath jailed || f.create.snap == .now && p == snapPath jailed) := by
  have hne : (p == Place.snapDir) = false := by cases p <;> first | rfl | cases hp
  simp only [resumed, called_files, written_files, add_files, hne, fresh, Bool.or_false]

theorem createFailed_left (h : ∀ p, ((resumed jailed f).removeAll f).files p = false ∧
    ((((resumed jailed f).removeAll f).writtenLate f.create.snap (snapPath jailed)).writtenLate f.create.mem
      (memPath jailed)).files p = false) :
    f.removeAll = true ∧ (jailed = true → f.create.snap = .never ∧ f.create.mem = .never) := by
  constructor
  · by_contra hfails
    have hdir := (h .snapDir).1
    rw [removeAll_dir (Bool.eq_false_iff.mpr hfails), resumed_snapDir] at hdir
    cases hdir
  · rintro rfl
    have hsnap := h .jailSnap
    have hmem := h .jailMem
    rw [removeAll_jail rfl, resumed_jail rfl] at hsnap hmem
    constructor
    · cases he : f.create.snap with
      | never => rfl
      | now =>
        rw [he] at hsnap
        exact absurd hsnap.1 (by cases f.create.mem <;> decide)
      | later =>
        rw [he] at hsnap
        exact absurd (writtenLate_keeps (writtenLate_jail rfl)) (Bool.eq_false_iff.mp hsnap.2)
    · cases he : f.create.mem with
      | never => rfl
      | now =>
        rw [he] at hmem
        exact absurd hmem.1 (by cases f.create.snap <;> decide)
      | later =>
        rw [he] at hmem
        exact absurd (writtenLate_jail rfl) (Bool.eq_false_iff.mp hmem.2)

/-- A file that is still being written finds no directory once that is removed. -/
theorem createFailed_clean (hremove : f.removeAll = true)
    (hjail : jailed = true → f.create.snap = .never ∧ f.create.mem = .never) (p : Place) :
    ((resumed jailed f).removeAll f).files p = false ∧
      ((((resumed jailed f).removeAll f).writtenLate f.create.snap (snapPath jailed)).writtenLate f.create.mem
        (memPath jailed)).files p = false := by
  have hnone : ((resumed jailed f).removeAll f).files p = false := by
    cases hp : p.inSnapDir with
    | true => exact removeAll_done hremove hp
    | false =>
      rw [removeAll_jail hp, resumed_jail hp]
      cases jailed with
      | true =>
        obtain ⟨hsnap, hmem⟩ := hjail rfl
        rw [hsnap, hmem]
        rfl
      | false =>
        have hm : (p == memPath false) = false := by cases p <;> first | rfl | cases hp
        have hs : (p == snapPath false) = false := by cases p <;> first | rfl | cases hp
        rw [hm, hs, Bool.and_false, Bool.and_false]
        rfl
  refine ⟨hnone, ?_⟩
  have hdir : ((resumed jailed f).removeAll f).files .snapDir = false := removeAll_done hremove rfl
  rw [writtenLate_files, writtenLate_files, writtenLate_files, hnone, hdir]
  cases jailed with
  | true =>
    obtain ⟨hsnap, hmem⟩ := hjail rfl
    rw [hsnap, hmem]
    rfl
  | false => simp [snapPath, memPath, Place.inSnapDir]

/-! ### The promise is kept when the faults are harmless -/

theorem createSnapshot_createFailed (hmkdir : f.mkdir = true) (hpause : f.pause.ok = true) (hcreate : f.create.ok = false) :
    createSnapshot jailed f fresh = ⟨some .create, (resumed jailed f).removeAll f,
      ((((resumed jailed f).removeAll f).writtenLate f.create.snap (snapPath jailed)).writtenLate f.create.mem
        (memPath jailed)).calledLate f.resume true⟩ := by
  simp only [createSnapshot, hmkdir, hpause, hcreate, resumed, Bool.not_true, Bool.not_false, if_true,
    Bool.false_eq_true, if_false]

theorem createFailed_iff (hmkdir : f.mkdir = true) (hpause : f.pause.ok = true) (hcreate : f.create.ok = false) :
    (createSnapshot jailed f fresh).Sound ↔
      f.resume.effect = .now ∧ f.removeAll = true ∧
        (jailed = true → f.create.snap = .never ∧ f.create.mem = .never) := by
  rw [sound_iff fun e _ => saysPaused_false e, createSnapshot_createFailed hmkdir hpause hcreate]
  constructor
  · rintro ⟨⟨hrunning, -⟩, hclean⟩
    refine ⟨(resumed_running hpause).mp hrunning, createFailed_left ?_⟩
    intro p
    have hp := hclean (Option.some_ne_none _) p
    rw [calledLate_files] at hp
    exact hp
  · rintro ⟨heffect, hremove, hjail⟩
    have hrunning : (resumed jailed f).running = true := (resumed_running hpause).mpr heffect
    refine ⟨⟨hrunning, calledLate_running (by simpa using hrunning)⟩, ?_⟩
    intro _ p
    rw [calledLate_files]
    exact createFailed_clean hremove hjail p

/-- A snapshot that could not be moved out of the jail leaves its memory file there. -/
theorem stageFailed_unsound {o : Outcome} {s : Source} (ho : o.atReturn = s.removeAll f) (herror : o.error = some .stage)
    (hmem : s.files .jailMem = true) : ¬ o.Sound := by
  intro h
  have hleft := (h.clean (by rw [herror]; exact Option.some_ne_none _) .jailMem).1
  rw [ho, removeAll_jail rfl, hmem] at hleft
  cases hleft

/-- The source after the staging, when every file could be moved. -/
def staged (jailed : Bool) (f : Faults) : Source :=
  let s := if jailed then (resumed jailed f).moveOut f.moveSnap .jailSnap .snapFile else resumed jailed f
  let s := if jailed then s.moveOut f.moveMem .jailMem .memFile else s
  if f.copyRootfs then s.add .rootfs else s

theorem staged_running : (staged jailed f).running = (resumed jailed f).running := by
  unfold staged
  cases jailed <;> cases f.copyRootfs <;> simp

theorem createSnapshot_staged (hmkdir : f.mkdir = true) (hpause : f.pause.ok = true) (hcreate : f.create.ok = true)
    (hstage : jailed = true → f.moveSnap.ok = true ∧ f.moveMem.ok = true) :
    createSnapshot jailed f fresh = ⟨none, staged jailed f, (staged jailed f).calledLate f.resume true⟩ := by
  have hsnap : (jailed && !f.moveSnap.ok) = false := by
    cases hj : jailed with
    | false => rfl
    | true => rw [(hstage hj).1]; rfl
  have hmem : (jailed && !f.moveMem.ok) = false := by
    cases hj : jailed with
    | false => rfl
    | true => rw [(hstage hj).2]; rfl
  simp only [createSnapshot, hmkdir, hpause, hcreate, hsnap, hmem, Bool.not_true, Bool.false_eq_true, if_false]
  rfl

theorem createSnapshot_unstaged (hmkdir : f.mkdir = true) (hpause : f.pause.ok = true) (hcreate : f.create.ok = true)
    (hstage : ¬ (f.moveSnap.ok = true ∧ f.moveMem.ok = true)) : ¬ (createSnapshot true f fresh).Sound := by
  have hmem : (resumed true f).files .jailMem = true := resumed_mem hcreate
  cases hsnap : f.moveSnap.ok with
  | false =>
    have hrun : createSnapshot true f fresh = ⟨some .stage, ((resumed true f).add .snapFile).removeAll f,
        (((resumed true f).add .snapFile).removeAll f).calledLate f.resume true⟩ := by
      simp only [createSnapshot, hmkdir, hpause, hcreate, hsnap, Bool.not_true, Bool.not_false, Bool.and_self,
        Bool.false_eq_true, if_false, if_true]
      rfl
    rw [hrun]
    refine stageFailed_unsound rfl rfl ?_
    rw [add_files, hmem, Bool.or_true]
  | true =>
    have hmove : f.moveMem.ok = false := Bool.eq_false_iff.mpr fun hm => hstage ⟨hsnap, hm⟩
    have hrun : createSnapshot true f fresh =
        ⟨some .stage, (((resumed true f).moveOut f.moveSnap .jailSnap .snapFile).add .memFile).removeAll f,
          ((((resumed true f).moveOut f.moveSnap .jailSnap .snapFile).add .memFile).removeAll f).calledLate
            f.resume true⟩ := by
      simp only [createSnapshot, hmkdir, hpause, hcreate, hsnap, hmove, Bool.not_true, Bool.not_false, Bool.and_self,
        Bool.and_false, Bool.false_eq_true, if_false, if_true]
      rfl
    rw [hrun]
    refine stageFailed_unsound rfl rfl ?_
    rw [add_files, moveOut_files (by decide) hmem, Bool.or_true]

theorem created_iff (hmkdir : f.mkdir = true) (hpause : f.pause.ok = true) (hcreate : f.create.ok = true) :
    (createSnapshot jailed f fresh).Sound ↔
      f.resume.effect = .now ∧ (jailed = true → f.moveSnap.ok = true ∧ f.moveMem.ok = true) := by
  by_cases hstage : jailed = true → f.moveSnap.ok = true ∧ f.moveMem.ok = true
  · rw [sound_iff fun e _ => saysPaused_false e, createSnapshot_staged hmkdir hpause hcreate hstage]
    constructor
    · rintro ⟨⟨hrunning, -⟩, -⟩
      exact ⟨(resumed_running hpause).mp (staged_running.symm.trans hrunning), hstage⟩
    · rintro ⟨heffect, -⟩
      have hrunning : (staged jailed f).running = true := staged_running.trans ((resumed_running hpause).mpr heffect)
      exact ⟨⟨hrunning, calledLate_running hrunning⟩, fun herror => absurd rfl herror⟩
  · obtain ⟨rfl, hfailed⟩ := Classical.not_imp.mp hstage
    exact ⟨fun h => absurd h (createSnapshot_unstaged hmkdir hpause hcreate hfailed), fun h => absurd h.2 hstage⟩

/-- **Snapshots.**  After an attempt the source runs and an error has left nothing behind exactly when the faults of the
attempt are harmless. -/
theorem snapshot_sound (jailed : Bool) (f : Faults) : (createSnapshot jailed f fresh).Sound ↔ f.harmless jailed := by
  unfold Faults.harmless
  cases hmkdir : f.mkdir with
  | false =>
    have hrun : createSnapshot jailed f fresh = ⟨some .mkdir, fresh, fresh⟩ := by
      simp only [createSnapshot, hmkdir, Bool.not_false, if_true]
    rw [hrun]
    exact ⟨fun _ => .inl rfl, fun _ => ⟨.inl ⟨rfl, rfl⟩, fun _ _ => ⟨rfl, rfl⟩⟩⟩
  | true =>
    cases hpause : f.pause.ok with
    | false => simp [createSnapshot_pause hmkdir hpause]
    | true =>
      cases hcreate : f.create.ok with
      | false => simp [createFailed_iff hmkdir hpause hcreate]
      | true => simp [created_iff hmkdir hpause hcreate]

/-- Every call is answered, and every file operation succeeds. -/
def noFaults : Faults where
  mkdir := true
  pause := ⟨.now, true, fun _ => rfl⟩
  create := ⟨.now, .now, true, fun _ => ⟨rfl, rfl⟩⟩
  resume := ⟨.now, true, fun _ => rfl⟩
  moveSnap := ⟨true, true, true⟩
  moveMem := ⟨true, true, true⟩
  copyRootfs := true
  removeAll := true
  kept := fun _ => false

/-- The resume is refused, and the caller gets the snapshot of a machine that stands still; the pause is given up on
and comes through, and the directory stays as well; a snapshot that is refused after its first file leaves that in
the jail. -/
theorem refusedResume_strands :
    (¬ (createSnapshot true { noFaults with resume := ⟨.never, false, fun h => (by cases h)⟩ } fresh).Sound ∧
      (createSnapshot true { noFaults with resume := ⟨.never, false, fun h => (by cases h)⟩ } fresh).error = none ∧
      (createSnapshot true { noFaults with resume := ⟨.never, false, fun h => (by cases h)⟩ } fresh).atRest.running
        = false) ∧
    (createSnapshot true { noFaults with pause := ⟨.now, false, fun h => (by cases h)⟩ } fresh).atRest.running = false ∧
    (createSnapshot true { noFaults with pause := ⟨.now, false, fun h => (by cases h)⟩ } fresh).atRest.files .snapDir
      = true ∧
    (createSnapshot true { noFaults with create := ⟨.now, .never, false, fun h => (by cases h)⟩ } fresh).atRest.files
      .jailSnap = true := by
  refine ⟨⟨?_, rfl, rfl⟩, rfl, rfl, rfl⟩
  rintro ⟨⟨hrunning, -⟩ | ⟨e, he, -⟩, -⟩
  · cases hrunning
  · cases he

end attempt

end Nehemiah.Snapshot
