import Nehemiah.Lib.Run

/-!
# Saves and uploads to a local volume

`handleSaveVolume` and `handlePutVolumeFile` over `Storage.ListFiles` and `Storage.PutFile`, any number of each
at the same time.  A request lists the volume and puts its object in two steps, and the object store replaces an
object in one.  A save streams what the guest's `tar` writes: the guest closes the connection when `tar` is gone,
however it went, so an archive that was cut off may end like one that is complete (`volume_sound`).
-/

namespace Nehemiah.VolumeSave

open Lib

abbrev Bytes := List UInt8

def volumeFileCap : ℕ := 64 * 2 ^ 20

def volumeSnapshot : String := "snapshot.tgz"

/-! ### The volume -/

/-- The files of a volume under their cleaned paths. -/
abbrev Volume := List (String × Bytes)

/-- The total that `ListFiles` answers. -/
def used (v : Volume) : ℕ := (v.map fun f => f.2.length).sum

def others (v : Volume) (path : String) : Volume := v.filter fun f => f.1 != path

def put (v : Volume) (path : String) (data : Bytes) : Volume := (path, data) :: others v path

def file (v : Volume) (path : String) : Option Bytes := (v.find? fun f => f.1 == path).map (·.2)

/-! ### The guest's stream -/

/-- What came of the archive that the guest was to produce, and whether the connection then failed or was closed. -/
structure Stream where
  archive : Bytes
  delivered : Bytes
  broken : Bool
  arrived : delivered <+: archive

/-- What `PutObject` reads through the limit of the quota, `none` when its read fails. -/
def Stream.read (stream : Stream) (quota : ℕ) : Option Bytes :=
  if quota ≤ stream.delivered.length then some (stream.delivered.take quota)
  else if stream.broken then none
  else some stream.delivered

/-! ### Requests -/

inductive Answer
  | ok
  | error (status : ℕ) (message : String)
deriving DecidableEq

inductive Pc
  | started
  /-- `ListFiles` has answered. -/
  | listed (used : ℕ)
  /-- The request is answered; the snapshot before and after its last step. -/
  | answered (answer : Answer) (before after : Option Bytes)

inductive Request
  | upload (path : String) (data : Bytes)
  | save (stream : Stream)

structure Task where
  request : Request
  pc : Pc

structure State where
  volume : Volume
  tasks : List Task

inductive Action
  | arrive (request : Request)
  | list (i : ℕ) (ok : Bool)
  | put (i : ℕ) (ok : Bool)

/-- The answer when the listing, the reader or the put fails. -/
def Request.unstored : Request → Answer
  | .upload _ _ => .error 502 "couldn't store the file"
  | .save _ => .error 502 "couldn't save to the volume"

/-- The size that the request declares to `PutFile`; a save has none. -/
def Request.size : Request → Option ℕ
  | .upload _ data => some data.length
  | .save _ => none

def Request.path : Request → String
  | .upload path _ => path
  | .save _ => volumeSnapshot

/-- The object that the request puts, `none` when its reader fails. -/
def Request.object (request : Request) (quota : ℕ) : Option Bytes :=
  match request with
  | .upload _ data => some data
  | .save stream => stream.read quota

/-- A body over the cap is refused before anything is asked of the store. -/
def Request.tooBig : Request → Bool
  | .upload _ data => decide (volumeFileCap < data.length)
  | .save _ => false

def State.snapshot (s : State) : Option Bytes := file s.volume volumeSnapshot

def State.set (s : State) (i : ℕ) (request : Request) (pc : Pc) : State :=
  { s with tasks := s.tasks.set i ⟨request, pc⟩ }

/-- The request ends without having touched the volume. -/
def State.refuse (s : State) (i : ℕ) (request : Request) (answer : Answer) : State :=
  s.set i request (.answered answer s.snapshot s.snapshot)

/-- The quota check of `PutFile`, which a request without a size passes. -/
def exceeds (quota used : ℕ) : Option ℕ → Bool
  | some size => decide (quota < used + size)
  | none => false

/-- The second half of `PutFile`, after its listing. -/
def State.putFile (s : State) (quota i : ℕ) (request : Request) (ok : Bool) : State :=
  match request.object quota with
  | none => s.refuse i request request.unstored
  | some data =>
    if ok then
      let volume := put s.volume request.path data
      { s with volume := volume }.set i request (.answered .ok s.snapshot (file volume volumeSnapshot))
    else s.refuse i request request.unstored

def step (quota : ℕ) (s : State) : Action → Option State
  | .arrive request =>
    some { s with
      tasks := s.tasks ++ [⟨request,
        if request.tooBig then .answered (.error 413 "file too big (64 MiB max)") s.snapshot s.snapshot
        else .started⟩] }
  | .list i ok =>
    match s.tasks[i]? with
    | some ⟨request, .started⟩ =>
      if !ok then some (s.refuse i request request.unstored)
      else if exceeds quota (used s.volume) request.size then
        some (s.refuse i request (.error 413 "the volume is full"))
      else some (s.set i request (.listed (used s.volume)))
    | _ => none
  | .put i ok =>
    match s.tasks[i]? with
    | some ⟨request, .listed _⟩ => some (s.putFile quota i request ok)
    | _ => none

def initial (volume : Volume) : State := ⟨volume, []⟩

/-! ### What a save promises -/

/-- The answer of a request says what became of the snapshot: a save that is ok has stored the whole archive, and
a save that is not has left the snapshot. -/
def Task.honest (task : Task) : Prop :=
  match task with
  | ⟨.save stream, .answered .ok _ after⟩ => after = some stream.archive
  | ⟨.save _, .answered (.error _ _) before after⟩ => after = before
  | _ => True

structure Sound (quota : ℕ) (s : State) : Prop where
  honest : ∀ task ∈ s.tasks, task.honest
  within : used s.volume ≤ quota

/-- The archive came whole and the limit does not cut it, or the connection fails before the limit. -/
def Stream.whole (stream : Stream) (quota : ℕ) : Prop :=
  stream.delivered = stream.archive ∧ stream.archive.length ≤ quota
    ∨ stream.broken = true ∧ stream.delivered.length < quota

instance (stream : Stream) (quota : ℕ) : Decidable (stream.whole quota) :=
  inferInstanceAs (Decidable (_ ∨ _))

/-- What the request is about to put fits beside the other files. -/
def Request.fits (request : Request) (quota : ℕ) (v : Volume) : Prop :=
  match request with
  | .upload path data => used (others v path) + data.length ≤ quota
  | .save stream =>
    stream.broken = true ∧ stream.delivered.length < quota
      ∨ used (others v volumeSnapshot) + stream.delivered.length ≤ quota

/-- A save is put only when its archive comes whole and fits beside the other files; an upload only while the
volume has not grown since it was listed, or when it fits nevertheless. -/
def Careful (quota : ℕ) (s : State) : Action → Prop
  | .put i _ =>
    match s.tasks[i]? with
    | some ⟨.save stream, .listed _⟩ => stream.whole quota ∧ (Request.save stream).fits quota s.volume
    | some ⟨.upload path data, .listed listed⟩ =>
      used s.volume ≤ listed ∨ (Request.upload path data).fits quota s.volume
    | _ => True
  | _ => True

/-! ### The volume and the stream -/

theorem used_others_le (v : Volume) (path : String) : used (others v path) ≤ used v := by
  induction v with
  | nil => exact le_rfl
  | cons f v ih =>
    unfold used others at ih ⊢
    rw [List.filter_cons]
    split
    · simp only [List.map_cons, List.sum_cons]
      exact Nat.add_le_add_left ih _
    · simp only [List.map_cons, List.sum_cons]
      exact ih.trans (Nat.le_add_left _ _)

theorem used_put (v : Volume) (path : String) (data : Bytes) :
    used (put v path data) = data.length + used (others v path) := by
  simp only [used, put, List.map_cons, List.sum_cons]

theorem file_put_self (v : Volume) (path : String) (data : Bytes) : file (put v path data) path = some data := by
  simp [file, put]

/-- The reader fails or gives the whole archive exactly when the stream is whole. -/
theorem Stream.read_whole (stream : Stream) (quota : ℕ) :
    stream.whole quota ↔ ∀ data, stream.read quota = some data → data = stream.archive := by
  have harrived := stream.arrived
  have hlength := harrived.length_le
  unfold Stream.whole Stream.read
  split
  · rename_i hlong
    constructor
    · rintro (⟨hall, hfits⟩ | ⟨-, hshort⟩) data hdata
      · cases hdata
        rw [hall] at hlong ⊢
        exact List.take_of_length_le hfits
      · omega
    · intro h
      have htake := h _ rfl
      have hcount : stream.archive.length = quota := by
        rw [← htake, List.length_take]
        omega
      exact .inl ⟨harrived.eq_of_length_le (hcount.le.trans hlong), hcount.le⟩
  · rename_i hshort
    split
    · rename_i hbroken
      exact ⟨fun _ data hdata => (by cases hdata), fun _ => .inr ⟨hbroken, not_le.mp hshort⟩⟩
    · rename_i hclosed
      constructor
      · rintro (⟨hall, -⟩ | ⟨hbroken, -⟩) data hdata
        · cases hdata
          exact hall
        · exact absurd hbroken hclosed
      · intro h
        have hall := h _ rfl
        refine .inl ⟨hall, ?_⟩
        rw [← hall]
        exact (not_le.mp hshort).le

variable {quota : ℕ} {s : State} {request : Request}

theorem Stream.read_length {stream : Stream} {data : Bytes} (h : stream.read quota = some data) :
    data.length ≤ stream.delivered.length ∧ ¬ (stream.broken = true ∧ stream.delivered.length < quota) := by
  unfold Stream.read at h
  split at h
  · rename_i hlong
    cases h
    exact ⟨List.length_take_le' _ _, fun hshort => by omega⟩
  · split at h
    · cases h
    · rename_i hclosed
      cases h
      exact ⟨le_rfl, fun hbroken => hclosed hbroken.1⟩

/-! ### Steps -/

/-- What every state of a run has: the listing of an upload that is under way was within the quota. -/
def Task.checked (quota : ℕ) (task : Task) : Prop :=
  match task with
  | ⟨.upload _ data, .listed listed⟩ => listed + data.length ≤ quota
  | _ => True

/-- A failed save has left the snapshot. -/
def Task.failedClean (task : Task) : Prop :=
  match task with
  | ⟨.save _, .answered (.error _ _) before after⟩ => after = before
  | _ => True

/-- What a step does to a volume and its tasks. -/
inductive Stepped (quota : ℕ) (s : State) : Action → State → Prop
  | arrived (task : Task) {request : Request} (htask : task.pc = .started ∨
      ∃ answer, answer ≠ .ok ∧ task.pc = .answered answer s.snapshot s.snapshot) :
      Stepped quota s (.arrive request) { s with tasks := s.tasks ++ [task] }
  | refused (i : ℕ) (request : Request) (a : Action) {answer : Answer} (hanswer : answer ≠ .ok) :
      Stepped quota s a (s.refuse i request answer)
  | listed (i : ℕ) (request : Request) (hroom : exceeds quota (used s.volume) request.size = false) :
      Stepped quota s (.list i true) (s.set i request (.listed (used s.volume)))
  | stored (i : ℕ) (request : Request) (listed : ℕ) {data : Bytes} (htask : s.tasks[i]? = some ⟨request, .listed listed⟩)
      (hdata : request.object quota = some data) :
      Stepped quota s (.put i true) ({ s with volume := put s.volume request.path data }.set i request
        (.answered .ok s.snapshot (file (put s.volume request.path data) volumeSnapshot)))

theorem stepped {t : State} {a : Action} (h : step quota s a = some t) : Stepped quota s a t := by
  have hunstored : ∀ request : Request, request.unstored ≠ .ok := by
    intro request
    cases request <;> exact Answer.noConfusion
  cases a with
  | arrive request =>
    cases h
    refine .arrived _ ?_
    dsimp only
    split
    · exact .inr ⟨_, by decide, rfl⟩
    · exact .inl rfl
  | list i ok =>
    simp only [step] at h
    split at h
    · rename_i request htask
      split at h
      · cases h
        exact .refused i request _ (hunstored request)
      · rename_i hok
        obtain rfl : ok = true := by simpa using hok
        split at h
        · cases h
          exact .refused i request _ (by decide)
        · rename_i hroom
          cases h
          exact .listed i request (by simpa using hroom)
    · cases h
  | put i ok =>
    simp only [step] at h
    split at h
    · rename_i request listed htask
      unfold State.putFile at h
      split at h
      · cases h
        exact .refused i request _ (hunstored request)
      · rename_i data hdata
        split at h
        · rename_i hok
          subst hok
          cases h
          exact .stored i request listed htask hdata
        · cases h
          exact .refused i request _ (hunstored request)
    · cases h

theorem mem_set {i : ℕ} {pc : Pc} {task : Task} (h : task ∈ (s.set i request pc).tasks) :
    task ∈ s.tasks ∨ task = ⟨request, pc⟩ :=
  List.mem_or_eq_of_mem_set h

structure Inv (quota : ℕ) (s : State) : Prop extends Sound quota s where
  checked : ∀ task ∈ s.tasks, task.checked quota

/-- A request that ends without having touched the volume is honest. -/
theorem refused_honest {answer : Answer} {snapshot : Option Bytes} (h : answer ≠ .ok) :
    (Task.mk request (.answered answer snapshot snapshot)).honest := by
  cases request with
  | upload path data => trivial
  | save stream =>
    cases answer with
    | ok => exact absurd rfl h
    | error status message => exact rfl

theorem Inv.refuse {i : ℕ} {answer : Answer} (h : Inv quota s) (hanswer : answer ≠ .ok) :
    Inv quota (s.refuse i request answer) where
  honest := by
    intro task htask
    rcases mem_set htask with htask | rfl
    · exact h.honest task htask
    · exact refused_honest hanswer
  within := h.within
  checked := by
    intro task htask
    rcases mem_set htask with htask | rfl
    · exact h.checked task htask
    · cases request <;> trivial

/-- What a careful request puts is within the quota. -/
theorem stored_within {i listed : ℕ} {data : Bytes} (h : Inv quota s)
    (htask : s.tasks[i]? = some ⟨request, .listed listed⟩) (hdata : request.object quota = some data)
    (hcareful : Careful quota s (.put i true)) : used (put s.volume request.path data) ≤ quota := by
  rw [used_put]
  simp only [Careful, htask] at hcareful
  cases request with
  | upload path bytes =>
    cases hdata
    have hchecked := h.checked _ (List.mem_of_getElem? htask)
    have hothers := used_others_le s.volume path
    simp only [Task.checked] at hchecked
    simp only [Request.fits] at hcareful
    simp only [Request.path]
    rcases hcareful with hgrown | hfits <;> omega
  | save stream =>
    obtain ⟨hlength, hread⟩ := Stream.read_length hdata
    simp only [Request.fits] at hcareful
    simp only [Request.path]
    rcases hcareful.2 with hbroken | hfits
    · exact absurd hbroken hread
    · omega

theorem Inv.step {t : State} {a : Action} (h : Inv quota s) (hstep : step quota s a = some t)
    (hcareful : Careful quota s a) : Inv quota t := by
  cases stepped hstep with
  | arrived task htask =>
    obtain ⟨request, pc⟩ := task
    refine ⟨⟨?_, h.within⟩, ?_⟩
    · intro task hmem
      rcases List.mem_append.mp hmem with hmem | hmem
      · exact h.honest task hmem
      · rcases List.mem_singleton.mp hmem with rfl
        rcases htask with rfl | ⟨answer, hanswer, rfl⟩
        · cases request <;> trivial
        · exact refused_honest hanswer
    · intro task hmem
      rcases List.mem_append.mp hmem with hmem | hmem
      · exact h.checked task hmem
      · rcases List.mem_singleton.mp hmem with rfl
        rcases htask with rfl | ⟨answer, hanswer, rfl⟩ <;> cases request <;> trivial
  | refused i request _ hanswer => exact h.refuse hanswer
  | listed i request hroom =>
    refine ⟨⟨?_, h.within⟩, ?_⟩
    · intro task hmem
      rcases mem_set hmem with hmem | rfl
      · exact h.honest task hmem
      · cases request <;> trivial
    · intro task hmem
      rcases mem_set hmem with hmem | rfl
      · exact h.checked task hmem
      · cases request with
        | upload path data => simpa [Task.checked, exceeds, Request.size] using hroom
        | save stream => trivial
  | stored i request listed htask hdata =>
    refine ⟨⟨?_, stored_within h htask hdata hcareful⟩, ?_⟩
    · intro task hmem
      rcases mem_set hmem with hmem | rfl
      · exact h.honest task hmem
      · cases request with
        | upload path data => trivial
        | save stream =>
          simp only [Careful, htask] at hcareful
          -- the archive is whole, so what was read is the archive
          rw [(stream.read_whole quota).mp hcareful.1 _ hdata]
          exact file_put_self _ _ _
    · intro task hmem
      rcases mem_set hmem with hmem | rfl
      · exact h.checked task hmem
      · cases request <;> trivial

/-- No condition is needed for a save that fails. -/
theorem failedClean_step {t : State} {a : Action} (h : ∀ task ∈ s.tasks, task.failedClean)
    (hstep : step quota s a = some t) : ∀ task ∈ t.tasks, task.failedClean := by
  cases stepped hstep with
  | arrived task htask =>
    obtain ⟨request, pc⟩ := task
    intro task hmem
    rcases List.mem_append.mp hmem with hmem | hmem
    · exact h task hmem
    · rcases List.mem_singleton.mp hmem with rfl
      rcases htask with rfl | ⟨answer, -, rfl⟩
      · cases request <;> trivial
      · cases request <;> cases answer <;> trivial
  | refused i request _ hanswer =>
    intro task hmem
    rcases mem_set hmem with hmem | rfl
    · exact h task hmem
    · rename_i answer
      cases request <;> cases answer <;> trivial
  | listed i request hroom =>
    intro task hmem
    rcases mem_set hmem with hmem | rfl
    · exact h task hmem
    · cases request <;> trivial
  | stored i request listed htask hdata =>
    intro task hmem
    rcases mem_set hmem with hmem | rfl
    · exact h task hmem
    · cases request <;> trivial

/-- **Volumes.**  A save that fails leaves the snapshot, in every run; in a run whose puts are careful, a save that
answers ok has stored the whole archive, and the files of the volume are within its quota. -/
theorem volume_sound (quota : ℕ) (volume : Volume) (hvolume : used volume ≤ quota) (actions : List Action) (s : State) :
    (Run (fun s a t => step quota s a = some t) (initial volume) actions s →
      ∀ task ∈ s.tasks, task.failedClean) ∧
    (RunIn (fun s a t => step quota s a = some t) (fun s a _ => Careful quota s a) (initial volume) actions s →
      Sound quota s) := by
  constructor
  · intro h
    exact h.invariant (fun _ _ _ hs hstep => failedClean_step hs hstep) fun task hmem => by cases hmem
  · intro h
    have hinitial : Inv quota (initial volume) :=
      ⟨⟨fun task hmem => (by cases hmem), hvolume⟩, fun task hmem => (by cases hmem)⟩
    exact (h.invariant (fun _ _ _ hs hstep hcareful => hs.step hstep hcareful) hinitial).toSound

/-- The guest's `tar` is killed after the first byte of three; two uploads of three bytes list the volume before either
puts. -/
def crowded : List Action :=
  [.arrive (.save ⟨[1, 2, 3], [1], false, ⟨[2, 3], rfl⟩⟩), .list 0 true, .put 0 true,
    .arrive (.upload "a" [4, 4, 4]), .arrive (.upload "b" [5, 5, 5]), .list 1 true, .list 2 true, .put 1 true,
    .put 2 true]

/-- The save answers ok with the one byte that came, and the volume ends with seven bytes of four. -/
theorem crowded_unsound : ∃ s : State, Run (fun s a t => step 4 s a = some t) (initial []) crowded s ∧
    (∃ task ∈ s.tasks, task.pc = .answered .ok none (some [1]) ∧ ¬ task.honest) ∧ used s.volume = 7 := by
  refine ⟨⟨[("b", [5, 5, 5]), ("a", [4, 4, 4]), (volumeSnapshot, [1])],
    [⟨.save ⟨[1, 2, 3], [1], false, ⟨[2, 3], rfl⟩⟩, .answered .ok none (some [1])⟩,
      ⟨.upload "a" [4, 4, 4], .answered .ok (some [1]) (some [1])⟩,
      ⟨.upload "b" [5, 5, 5], .answered .ok (some [1]) (some [1])⟩]⟩, Run.of_exec rfl, ?_, rfl⟩
  refine ⟨_, List.mem_cons_self, rfl, ?_⟩
  intro h
  have hsame : (some [1] : Option Bytes) = some [1, 2, 3] := h
  cases hsame

/-- A save of three bytes into a volume that holds one. -/
def saved : List Action := [.arrive (.save ⟨[1, 2, 3], [1, 2, 3], false, ⟨[], rfl⟩⟩), .list 0 true, .put 0 true]

theorem saved_sound : ∃ s : State, s.volume = [(volumeSnapshot, [1, 2, 3]), ("a", [4])] ∧ Sound 4 s := by
  refine ⟨⟨[(volumeSnapshot, [1, 2, 3]), ("a", [4])],
    [⟨.save ⟨[1, 2, 3], [1, 2, 3], false, ⟨[], rfl⟩⟩, .answered .ok none (some [1, 2, 3])⟩]⟩, rfl, ?_⟩
  refine (volume_sound 4 [("a", [4])] (by decide) saved _).2 ?_
  refine .cons rfl trivial (.cons rfl trivial (.cons rfl ?_ (.nil _)))
  exact ⟨.inl ⟨rfl, by decide⟩, .inr (by decide)⟩

end Nehemiah.VolumeSave
