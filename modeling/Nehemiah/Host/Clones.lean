import Nehemiah.Host.Snapshot

/-!
# Forks as clones of their source

`fcDriver.CreateSnapshot` with the contents that it captures, `bootMachine` from its directory, and the two callers,
`runManagedFork` and `BranchN`.  The guest of the source writes to its memory and its disk whenever it is not paused,
and the copy of the disk reads one block after the other; the calls, the copies and the restores fail as is given
beforehand.  `Child.Clone` is the promise, `Vm.sameDisk` when the disk of a child is that of the snapshot;
`forks_start_from_source` says from what every reported child starts, `runManagedFork_clones` and `branchN_clones` exactly
when all are clones.  Replays of a fork, and what a child does once it is ready, are outside.
-/

namespace Nehemiah.Clones

open Snapshot (SnapshotError Call fresh)

variable {M B : Type}

/-- The source; the disk is a list of blocks. -/
structure Vm (M B : Type) where
  running : Bool
  memory : M
  disk : List B

/-- What happens to the source between two steps of the host: the guest writes, or a call that an attempt has given up
takes effect. -/
inductive Act (M B : Type)
  | memory (m : M)
  | block (i : ℕ) (b : B)
  | late (running : Bool)

def Vm.act (v : Vm M B) : Act M B → Vm M B
  | .memory m => if v.running then { v with memory := m } else v
  | .block i b => if v.running then { v with disk := v.disk.set i b } else v
  | .late running => { v with running := running }

def Vm.acts (v : Vm M B) (acts : List (Act M B)) : Vm M B := acts.foldl Vm.act v

/-- The source at every moment of the given time. -/
def Vm.seen (v : Vm M B) (acts : List (Act M B)) : List (Vm M B) := acts.scanl Vm.act v

/-- `before` lies between the request and the pause, and `busy i` before the block `i` is read by the copy of the disk;
the first of them reaches back to the resume. -/
structure Schedule (M B : Type) where
  before : List (Act M B)
  busy : ℕ → List (Act M B)

/-- The call changes the machine before the client goes on. -/
def Vm.called (v : Vm M B) (c : Call) (running : Bool) : Vm M B :=
  if c.effect = .now then { v with running := running } else v

/-- The source when the block `i` is read. -/
def Vm.atRead (v : Vm M B) (busy : ℕ → List (Act M B)) : ℕ → Vm M B
  | 0 => v.acts (busy 0)
  | i + 1 => (v.atRead busy i).acts (busy (i + 1))

@[simp] theorem act_length (v : Vm M B) (a : Act M B) : (v.act a).disk.length = v.disk.length := by
  cases a with
  | memory m =>
    simp only [Vm.act]
    split <;> rfl
  | block i b =>
    simp only [Vm.act]
    split
    · exact List.length_set
    · rfl
  | late running => rfl

@[simp] theorem acts_length (v : Vm M B) (acts : List (Act M B)) : (v.acts acts).disk.length = v.disk.length := by
  induction acts generalizing v with
  | nil => rfl
  | cons a acts ih => exact (ih (v.act a)).trans (act_length v a)

@[simp] theorem atRead_length (v : Vm M B) (busy : ℕ → List (Act M B)) (i : ℕ) :
    (v.atRead busy i).disk.length = v.disk.length := by
  induction i with
  | zero => exact acts_length v (busy 0)
  | succ i ih => exact (acts_length _ _).trans ih

/-- `cp` of the disk of a machine that may run: every block as it is when it is read. -/
def Vm.copyReflink (v : Vm M B) (busy : ℕ → List (Act M B)) : List B :=
  List.ofFn fun i : Fin v.disk.length => (v.atRead busy i).disk.get (i.cast (atRead_length v busy i).symm)

/-! ### The snapshot -/

/-- What goes wrong in a request before its children are booted: the calls and the moves of the snapshot, and what a
copy of the disk that fails leaves, which is no file or the first blocks. -/
structure Faults where
  sourceCurrent : Bool
  calls : Snapshot.Faults
  leftRootfs : Option ℕ
  template : Bool

/-- The directory of a snapshot: what one call writes to `snapshot_file` and `mem_file`, and `rootfs.ext4`. -/
structure SnapDir (M B : Type) where
  memory : M
  rootfs : Option (List B)

/-- The source while the snapshot is taken. -/
def Vm.taken (v : Vm M B) (f : Faults) (w : Schedule M B) : Vm M B := (v.acts w.before).called f.calls.pause false

def Vm.resumed (v : Vm M B) (f : Faults) (w : Schedule M B) : Vm M B := (v.taken f w).called f.calls.resume true

/-- `rootfs.ext4` after the copy. -/
def Vm.rootfs (v : Vm M B) (f : Faults) (w : Schedule M B) : Option (List B) :=
  if f.calls.copyRootfs then some ((v.resumed f w).copyReflink w.busy)
  else f.leftRootfs.map fun n => ((v.resumed f w).copyReflink w.busy).take n

def createSnapshot (jailed : Bool) (f : Faults) (w : Schedule M B) (v : Vm M B) : Except SnapshotError (SnapDir M B) :=
  match (Snapshot.createSnapshot jailed f.calls fresh).error with
  | some e => .error e
  | none => .ok ⟨(v.taken f w).memory, v.rootfs f w⟩

/-! ### Booting from it -/

/-- The daemon, and what the children of the request have in common. A mebibyte has `mebibyte` blocks; a quota or a
size that is not positive is zero. `grow` is what `os.Truncate` and `resize2fs` make of an overlay. -/
structure Host (B : Type) where
  jailed : Bool
  managed : Bool
  nic : Bool
  mebibyte : ℕ
  overlayQuotaMB : ℕ
  diskMB : ℕ
  templateRootfs : Option (List B)
  baseRootfs : List B
  grow : ℕ → List B → List B
  grow_length : ∀ n overlay, overlay.length ≤ n → (grow n overlay).length = n

/-- The steps up to the staging of the jail that fail. -/
structure LaunchFaults where
  prepare : Bool
  copyOverlay : Bool
  grow : Bool
  start : Bool
  socket : Bool
  stage : Bool

/-- The calls that fail when a child is booted; `again` and `coldBoot` are those of the boot in place of a restore. -/
structure BootFaults where
  launch : LaunchFaults
  tap : Bool
  load : Bool
  rebind : Bool
  resume : Bool
  again : LaunchFaults
  coldBoot : Bool

/-- What fails for one child, from its boot to its readiness. -/
structure ChildFaults where
  boot : BootFaults
  place : Bool
  address : Bool
  policy : Bool
  save : Bool
  ready : Bool

inductive Mode
  | coldboot | snapshot

/-- A child as it starts; one that is booted cold has no memory image. -/
structure Child (M B : Type) where
  mode : Mode
  memory : Option M
  disk : List B

/-- The base image fits the quota and the disk that was asked for. -/
def Host.enforceOverlayQuota (h : Host B) (base : List B) : Bool :=
  decide (h.overlayQuotaMB ≠ 0 ∧ base.length ≤ h.overlayQuotaMB * h.mebibyte ∧
    (h.diskMB ≠ 0 → base.length ≤ h.diskMB * h.mebibyte))

def Host.resizeOverlay (h : Host B) (fails : Bool) (overlay : List B) : Option (List B) :=
  if h.diskMB = 0 then some overlay
  else if overlay.length = h.diskMB * h.mebibyte then some overlay
  else if h.diskMB * h.mebibyte < overlay.length then none
  else if fails then none
  else some (h.grow (h.diskMB * h.mebibyte) overlay)

/-- `bootMachine` up to the machine that waits for its API: the overlay. -/
def Host.launch (h : Host B) (l : LaunchFaults) (base : List B) : Option (List B) :=
  if l.prepare || !h.enforceOverlayQuota base || l.copyOverlay then none
  else (h.resizeOverlay l.grow base).filter fun _ => !(l.start || l.socket || h.jailed && l.stage)

def restoreSnapshot (k : BootFaults) (dir : SnapDir M B) : Option M :=
  if k.load || k.rebind || k.resume then none else some dir.memory

/-- The base image of a machine that is booted without a snapshot. -/
def Host.coldRootfs (h : Host B) : List B := h.templateRootfs.getD h.baseRootfs

/-- `bootMachine` without a snapshot, as it is called when a restore fails. -/
def Host.bootCold (h : Host B) (k : BootFaults) : Option (Child M B) :=
  (h.launch k.again h.coldRootfs).bind fun overlay => if k.coldBoot then none else some ⟨.coldboot, none, overlay⟩

def Host.bootMachine (h : Host B) (k : BootFaults) (dir : SnapDir M B) : Option (Child M B) :=
  (h.launch k.launch (dir.rootfs.getD h.baseRootfs)).bind fun overlay =>
    if k.tap then none
    else match restoreSnapshot k dir with
      | some memory => some ⟨.snapshot, some memory, overlay⟩
      | none => h.bootCold k

/-! ### The callers -/

inductive ForkError
  | sourceNotReady | snapshotUnavailable | batchFailed | invalidResources

/-- A child of `runManagedFork` passes the steps after its boot. -/
def ChildFaults.forks (k : ChildFaults) (h : Host B) : Bool :=
  !(!h.jailed && h.managed && k.place || k.address || h.nic && k.policy || k.save || k.ready)

/-- A child of `BranchN` passes the steps after its boot; without a control plane, what fails there is only logged. -/
def ChildFaults.branches (k : ChildFaults) (h : Host B) : Bool :=
  !(h.managed && (!h.jailed && k.place || h.nic && (k.address || k.policy)))

/-- The children of `runManagedFork`, which are all there or none. -/
def Host.bootChildren (h : Host B) (dir : SnapDir M B) : List ChildFaults → Option (List (Child M B))
  | [] => some []
  | k :: ks =>
    match (h.bootMachine k.boot dir).filter fun _ => k.forks h with
    | none => none
    | some c => (h.bootChildren dir ks).map (c :: ·)

def runManagedFork (h : Host B) (f : Faults) (w : Schedule M B) (v : Vm M B) (children : List ChildFaults) :
    Except ForkError (List (Child M B)) :=
  if !f.sourceCurrent then .error .sourceNotReady
  else match createSnapshot h.jailed f w v with
    | .error _ => .error .snapshotUnavailable
    | .ok dir =>
      match h.bootChildren dir children with
      | none => .error .batchFailed
      | some forked => .ok forked

def branchN (h : Host B) (f : Faults) (w : Schedule M B) (v : Vm M B) (children : List ChildFaults) :
    Except ForkError (List (Child M B)) :=
  if !f.sourceCurrent then .error .snapshotUnavailable
  else match createSnapshot h.jailed f w v with
    | .error _ => .error .snapshotUnavailable
    | .ok dir =>
      if !f.template then .error .invalidResources
      else
        let booted := children.filterMap fun k => (h.bootMachine k.boot dir).filter fun _ => k.branches h
        if booted.isEmpty then .error .snapshotUnavailable else .ok booted

/-! ### The promise -/

/-- The source at the moments between the request and the end of the copy. -/
def Vm.instants (v : Vm M B) (f : Faults) (w : Schedule M B) : List (Vm M B) :=
  v.seen w.before ++ v.taken f w :: (v.resumed f w).seen ((List.range v.disk.length).flatMap w.busy)

/-- The child goes on from the memory image, with the disk that the source had at the same moment, which is the one that
the image was taken with. -/
structure Child.Clone (c : Child M B) (v : Vm M B) (f : Faults) (w : Schedule M B) : Prop where
  restored : c.mode = .snapshot
  common : ∃ u ∈ v.instants f w, c.memory = some u.memory ∧ c.disk = u.disk
  taken : c.disk = (v.taken f w).disk

/-- The snapshot is taken: its directory is made, the pause and the snapshot are answered, and with a jail both files are
moved out of it. -/
def Faults.captures (f : Faults) (jailed : Bool) : Prop :=
  f.calls.mkdir = true ∧ f.calls.pause.ok = true ∧ f.calls.create.ok = true ∧
    (jailed = true → f.calls.moveSnap.ok = true ∧ f.calls.moveMem.ok = true)

def BootFaults.restores (k : BootFaults) : Prop := k.load = false ∧ k.rebind = false ∧ k.resume = false

/-- Every block is read as it was when the snapshot was taken. -/
def Vm.undisturbed (v : Vm M B) (f : Faults) (w : Schedule M B) : Prop :=
  ∀ i, i < v.disk.length → ((v.resumed f w).atRead w.busy i).disk[i]? = (v.taken f w).disk[i]?

/-- The image from which a child gets its overlay. -/
def Vm.baseOf (v : Vm M B) (f : Faults) (w : Schedule M B) (h : Host B) : List B := (v.rootfs f w).getD h.baseRootfs

/-- The disk is copied while no block changes, and the overlay needs no growing; or it is not copied, and what takes its
place is the same. -/
def Vm.sameDisk (v : Vm M B) (f : Faults) (w : Schedule M B) (h : Host B) : Prop :=
  (f.calls.copyRootfs = true →
    (h.diskMB = 0 ∨ v.disk.length = h.diskMB * h.mebibyte) ∧ v.undisturbed f w) ∧
  (f.calls.copyRootfs = false → h.resizeOverlay false (v.baseOf f w h) = some (v.taken f w).disk)

/-- The child goes on from the memory that the source had at a moment of the request, and with the disk of that moment
when the copy has it. -/
structure Child.Restored (c : Child M B) (v : Vm M B) (f : Faults) (w : Schedule M B) (h : Host B) : Prop where
  mode : c.mode = .snapshot
  source : ∃ u ∈ v.instants f w, c.memory = some u.memory ∧ (v.sameDisk f w h → c.disk = u.disk)

/-- The child starts anew from the base image, as its mode says. -/
structure Child.Cold (c : Child M B) (h : Host B) : Prop where
  mode : c.mode = .coldboot
  memory : c.memory = none
  disk : h.resizeOverlay false h.coldRootfs = some c.disk

/-- A boot from the image comes to its end, restored or cold. -/
def BootFaults.comesUp (k : BootFaults) (h : Host B) (base : List B) : Prop :=
  (h.launch k.launch base).isSome = true ∧ k.tap = false ∧
    (k.restores ∨ (h.launch k.again h.coldRootfs).isSome = true ∧ k.coldBoot = false)

section

variable {h : Host B} {f : Faults} {w : Schedule M B} {v : Vm M B} {k : BootFaults} {dir : SnapDir M B} {c : Child M B}

/-! ### The copy of the disk -/

@[simp] theorem called_disk {call : Call} {running : Bool} : (v.called call running).disk = v.disk := by
  unfold Vm.called
  split <;> rfl

theorem taken_length : (v.taken f w).disk.length = v.disk.length := by
  rw [Vm.taken, called_disk, acts_length]

theorem resumed_disk : (v.resumed f w).disk = (v.taken f w).disk := called_disk

theorem copyReflink_length (v : Vm M B) (busy : ℕ → List (Act M B)) : (v.copyReflink busy).length = v.disk.length :=
  List.length_ofFn

theorem copyReflink_getElem? {busy : ℕ → List (Act M B)} {i : ℕ} (hi : i < v.disk.length) :
    (v.copyReflink busy)[i]? = (v.atRead busy i).disk[i]? := by
  have hread : i < (v.atRead busy i).disk.length := (atRead_length v busy i).symm ▸ hi
  rw [Vm.copyReflink, List.getElem?_ofFn, dif_pos hi, List.getElem?_eq_getElem hread]
  rfl

/-- The copy is the disk of the snapshot exactly when no block is read that has changed. -/
theorem copy_eq_iff : (v.resumed f w).copyReflink w.busy = (v.taken f w).disk ↔ v.undisturbed f w := by
  have hlength : (v.resumed f w).disk.length = v.disk.length := by rw [resumed_disk, taken_length]
  constructor
  · intro heq i hi
    rw [← heq, copyReflink_getElem? (hlength ▸ hi)]
  · intro hsame
    apply List.ext_getElem?
    intro i
    by_cases hi : i < v.disk.length
    · rw [copyReflink_getElem? (hlength ▸ hi), hsame i hi]
    · rw [List.getElem?_eq_none, List.getElem?_eq_none]
      · rw [taken_length]
        exact not_lt.mp hi
      · rw [copyReflink_length, hlength]
        exact not_lt.mp hi

/-! ### The snapshot -/

variable {jailed : Bool} {overlay : List B} {forked : List (Child M B)}

theorem error_none : (Snapshot.createSnapshot jailed f.calls fresh).error = none ↔ f.captures jailed := by
  unfold Faults.captures Snapshot.createSnapshot
  cases jailed <;> cases f.calls.mkdir <;> cases f.calls.pause.ok <;> cases f.calls.create.ok <;>
    cases f.calls.moveSnap.ok <;> cases f.calls.moveMem.ok <;> simp

theorem createSnapshot_captures (hcaptures : f.captures jailed) :
    createSnapshot jailed f w v = .ok ⟨(v.taken f w).memory, v.rootfs f w⟩ := by
  rw [createSnapshot, error_none.mpr hcaptures]

theorem createSnapshot_ok (hdir : createSnapshot jailed f w v = .ok dir) :
    f.captures jailed ∧ dir = ⟨(v.taken f w).memory, v.rootfs f w⟩ := by
  unfold createSnapshot at hdir
  split at hdir
  · cases hdir
  · rename_i hnone
    cases hdir
    exact ⟨error_none.mp hnone, rfl⟩

/-! ### One child -/

theorem resizeOverlay_calm {fails : Bool} {base : List B} (hsome : h.resizeOverlay fails base = some overlay) :
    h.resizeOverlay false base = some overlay := by
  cases fails with
  | false => exact hsome
  | true =>
    unfold Host.resizeOverlay at hsome ⊢
    split
    · rename_i hzero
      rwa [if_pos hzero] at hsome
    · rename_i hzero
      rw [if_neg hzero] at hsome
      split
      · rename_i hfits
        rwa [if_pos hfits] at hsome
      · rename_i hfits
        rw [if_neg hfits] at hsome
        split at hsome <;> cases hsome

theorem launch_some {l : LaunchFaults} {base : List B} (hsome : h.launch l base = some overlay) :
    h.resizeOverlay false base = some overlay := by
  unfold Host.launch at hsome
  split at hsome
  · cases hsome
  · exact resizeOverlay_calm (Option.eq_some_of_filter_eq_some hsome)

/-- An overlay of the copied disk is that disk only where nothing was grown. -/
theorem resizeOverlay_same {copied disk : List B} (hlength : copied.length = disk.length)
    (hsome : h.resizeOverlay false copied = some overlay) :
    overlay = disk ↔ (h.diskMB = 0 ∨ disk.length = h.diskMB * h.mebibyte) ∧ copied = disk := by
  unfold Host.resizeOverlay at hsome
  split at hsome
  · rename_i hzero
    cases hsome
    exact ⟨fun heq => ⟨.inl hzero, heq⟩, fun heq => heq.2⟩
  · rename_i hzero
    split at hsome
    · rename_i hfits
      cases hsome
      exact ⟨fun heq => ⟨.inr (hlength ▸ hfits), heq⟩, fun heq => heq.2⟩
    · rename_i hfits
      split at hsome
      · cases hsome
      · rename_i hlarge
        rw [if_neg Bool.false_ne_true] at hsome
        cases hsome
        have hgrown := h.grow_length _ copied (not_lt.mp hlarge)
        constructor
        · intro heq
          rw [heq, ← hlength] at hgrown
          exact absurd hgrown hfits
        · rintro ⟨hzero' | hfits', -⟩
          · exact absurd hzero' hzero
          · exact absurd (hlength.trans hfits') hfits

theorem overlay_same (hsome : h.resizeOverlay false (v.baseOf f w h) = some overlay) :
    overlay = (v.taken f w).disk ↔ v.sameDisk f w h := by
  unfold Vm.sameDisk
  cases hcopy : f.calls.copyRootfs with
  | true =>
    have hbase : v.baseOf f w h = (v.resumed f w).copyReflink w.busy := by
      rw [Vm.baseOf, Vm.rootfs, if_pos hcopy, Option.getD_some]
    rw [hbase] at hsome
    have hlength : ((v.resumed f w).copyReflink w.busy).length = (v.taken f w).disk.length := by
      rw [copyReflink_length, resumed_disk]
    rw [resizeOverlay_same hlength hsome, copy_eq_iff, taken_length]
    exact ⟨fun hsame => ⟨fun _ => hsame, fun hno => (by cases hno)⟩, fun hsame => hsame.1 rfl⟩
  | false =>
    rw [hsome]
    constructor
    · rintro rfl
      exact ⟨fun hno => (by cases hno), fun _ => rfl⟩
    · intro hsame
      exact Option.some_injective _ (hsame.2 rfl)

theorem restoreSnapshot_restores (hrestores : k.restores) : restoreSnapshot k dir = some dir.memory := by
  obtain ⟨hload, hrebind, hresume⟩ := hrestores
  simp [restoreSnapshot, hload, hrebind, hresume]

theorem restoreSnapshot_refused (hrestores : ¬ k.restores) : restoreSnapshot k dir = none := by
  unfold restoreSnapshot
  rw [if_pos]
  by_contra hno
  simp only [Bool.or_eq_true, not_or, Bool.not_eq_true] at hno
  exact hrestores ⟨hno.1.1, hno.1.2, hno.2⟩

theorem bootCold_mode (hcold : h.bootCold k = some c) : c.mode = .coldboot := by
  obtain ⟨overlay, -, hboot⟩ := Option.bind_eq_some_iff.mp hcold
  split at hboot
  · cases hboot
  · cases hboot
    rfl

/-- A child is restored onto its overlay, or booted cold because the restore was refused. -/
theorem bootMachine_cases (hboot : h.bootMachine k dir = some c) :
    ∃ overlay, h.launch k.launch (dir.rootfs.getD h.baseRootfs) = some overlay ∧ k.tap = false ∧
      (k.restores ∧ c = ⟨.snapshot, some dir.memory, overlay⟩ ∨ ¬ k.restores ∧ h.bootCold k = some c) := by
  obtain ⟨overlay, hlaunch, hrest⟩ := Option.bind_eq_some_iff.mp hboot
  cases htap : k.tap with
  | true =>
    rw [if_pos htap] at hrest
    cases hrest
  | false =>
    rw [if_neg (by rw [htap]; exact Bool.false_ne_true)] at hrest
    refine ⟨overlay, hlaunch, rfl, ?_⟩
    by_cases hrestores : k.restores
    · rw [restoreSnapshot_restores hrestores] at hrest
      exact .inl ⟨hrestores, (Option.some_injective _ hrest).symm⟩
    · rw [restoreSnapshot_refused hrestores] at hrest
      exact .inr ⟨hrestores, hrest⟩

theorem bootMachine_isSome : (h.bootMachine k dir).isSome = true ↔ k.comesUp h (dir.rootfs.getD h.baseRootfs) := by
  constructor
  · intro hsome
    obtain ⟨c, hboot⟩ := Option.isSome_iff_exists.mp hsome
    obtain ⟨overlay, hlaunch, htap, ⟨hrestores, -⟩ | ⟨-, hcold⟩⟩ := bootMachine_cases hboot
    · exact ⟨Option.isSome_of_eq_some hlaunch, htap, .inl hrestores⟩
    · obtain ⟨again, hagain, hrest⟩ := Option.bind_eq_some_iff.mp hcold
      refine ⟨Option.isSome_of_eq_some hlaunch, htap, .inr ⟨Option.isSome_of_eq_some hagain, ?_⟩⟩
      cases hcoldBoot : k.coldBoot with
      | false => rfl
      | true =>
        rw [if_pos hcoldBoot] at hrest
        cases hrest
  · rintro ⟨hlaunch, htap, hrest⟩
    obtain ⟨overlay, hoverlay⟩ := Option.isSome_iff_exists.mp hlaunch
    rw [Host.bootMachine, hoverlay, Option.bind_some, if_neg (by rw [htap]; exact Bool.false_ne_true)]
    by_cases hrestores : k.restores
    · rw [restoreSnapshot_restores hrestores]
      rfl
    · obtain ⟨hagain, hcoldBoot⟩ := hrest.resolve_left hrestores
      obtain ⟨again, hcold⟩ := Option.isSome_iff_exists.mp hagain
      rw [restoreSnapshot_refused hrestores]
      simp [Host.bootCold, hcold, hcoldBoot]

/-- Either way a child says what it is. -/
theorem child_starts (hboot : h.bootMachine k ⟨(v.taken f w).memory, v.rootfs f w⟩ = some c) :
    (k.restores ∧ c.Restored v f w h) ∨ (¬ k.restores ∧ c.Cold h) := by
  obtain ⟨overlay, hlaunch, -, ⟨hrestores, rfl⟩ | ⟨hrefused, hcold⟩⟩ := bootMachine_cases hboot
  · have hsame := overlay_same (v := v) (f := f) (w := w) (launch_some hlaunch)
    exact .inl ⟨hrestores, rfl, v.taken f w, List.mem_append_right _ List.mem_cons_self, rfl, hsame.mpr⟩
  · obtain ⟨overlay, hagain, hrest⟩ := Option.bind_eq_some_iff.mp hcold
    split at hrest
    · cases hrest
    · cases hrest
      exact .inr ⟨hrefused, rfl, rfl, launch_some hagain⟩

/-- A child that has come up is a clone exactly when it was restored and has the disk of the snapshot. -/
theorem clone_iff (hboot : h.bootMachine k ⟨(v.taken f w).memory, v.rootfs f w⟩ = some c) :
    c.Clone v f w ↔ k.restores ∧ v.sameDisk f w h := by
  obtain ⟨overlay, hlaunch, -, ⟨hrestores, rfl⟩ | ⟨hrefused, hcold⟩⟩ := bootMachine_cases hboot
  · have hsame := overlay_same (v := v) (f := f) (w := w) (launch_some hlaunch)
    constructor
    · intro hclone
      exact ⟨hrestores, hsame.mp hclone.taken⟩
    · rintro ⟨-, hdisk⟩
      have htaken := hsame.mpr hdisk
      exact ⟨rfl, ⟨v.taken f w, List.mem_append_right _ List.mem_cons_self, rfl, htaken⟩, htaken⟩
  · constructor
    · intro hclone
      have hmode := hclone.restored
      rw [bootCold_mode hcold] at hmode
      cases hmode
    · rintro ⟨hrestores, -⟩
      exact absurd hrestores hrefused

/-! ### All children -/

variable {ks : List ChildFaults}

theorem bootChildren_some (hforked : h.bootChildren dir ks = some forked) :
    (∀ k ∈ ks, k.forks h = true ∧ ∃ c ∈ forked, h.bootMachine k.boot dir = some c) ∧
      ∀ c ∈ forked, ∃ k ∈ ks, h.bootMachine k.boot dir = some c := by
  induction ks generalizing forked with
  | nil =>
    cases hforked
    exact ⟨fun k hk => absurd hk List.not_mem_nil, fun c hc => absurd hc List.not_mem_nil⟩
  | cons k ks ih =>
    unfold Host.bootChildren at hforked
    split at hforked
    · cases hforked
    · rename_i c hc
      obtain ⟨hboot, hforks⟩ := Option.filter_eq_some_iff.mp hc
      obtain ⟨rest, hrest, rfl⟩ := Option.map_eq_some_iff.mp hforked
      obtain ⟨hall, hback⟩ := ih hrest
      constructor
      · intro k' hk'
        rcases List.mem_cons.mp hk' with rfl | hk'
        · exact ⟨hforks, c, List.mem_cons_self, hboot⟩
        · obtain ⟨hforks', c', hc', hboot'⟩ := hall k' hk'
          exact ⟨hforks', c', List.mem_cons_of_mem _ hc', hboot'⟩
      · intro c' hc'
        rcases List.mem_cons.mp hc' with rfl | hc'
        · exact ⟨k, List.mem_cons_self, hboot⟩
        · obtain ⟨k', hk', hboot'⟩ := hback c' hc'
          exact ⟨k', List.mem_cons_of_mem _ hk', hboot'⟩

theorem bootChildren_total (hall : ∀ k ∈ ks, (h.bootMachine k.boot dir).isSome = true ∧ k.forks h = true) :
    ∃ forked, h.bootChildren dir ks = some forked := by
  induction ks with
  | nil => exact ⟨[], rfl⟩
  | cons k ks ih =>
    obtain ⟨hsome, hforks⟩ := hall k List.mem_cons_self
    obtain ⟨c, hboot⟩ := Option.isSome_iff_exists.mp hsome
    obtain ⟨rest, hrest⟩ := ih fun k' hk' => hall k' (List.mem_cons_of_mem _ hk')
    refine ⟨c :: rest, ?_⟩
    rw [Host.bootChildren, hboot, Option.filter_some, if_pos hforks, hrest]
    rfl

theorem runManagedFork_ok (hrun : runManagedFork h f w v ks = .ok forked) :
    f.sourceCurrent = true ∧ f.captures h.jailed ∧
      ∀ c ∈ forked, ∃ k ∈ ks, (∀ k ∈ ks, k.boot.comesUp h (v.baseOf f w h) ∧ k.forks h = true) ∧
        h.bootMachine k.boot ⟨(v.taken f w).memory, v.rootfs f w⟩ = some c := by
  unfold runManagedFork at hrun
  split at hrun
  · cases hrun
  · rename_i hcurrent
    split at hrun
    · cases hrun
    · rename_i dir hdir
      obtain ⟨hcaptures, rfl⟩ := createSnapshot_ok hdir
      split at hrun
      · cases hrun
      · rename_i forked' hforked
        cases hrun
        obtain ⟨hall, hback⟩ := bootChildren_some hforked
        refine ⟨by simpa using hcurrent, hcaptures, fun c hc => ?_⟩
        obtain ⟨k, hk, hboot⟩ := hback c hc
        refine ⟨k, hk, fun k hk => ?_, hboot⟩
        obtain ⟨hforks, c, -, hboot⟩ := hall k hk
        exact ⟨bootMachine_isSome.mp (Option.isSome_of_eq_some hboot), hforks⟩

/-- The children of `runManagedFork` are clones of the source exactly when, whenever all of them come up, each has been
restored and has the disk of the snapshot: its copy was read before the guest changed a block and no overlay grows, or
what takes the place of a failed copy is the same (`Vm.sameDisk`). -/
theorem runManagedFork_clones {ks : List ChildFaults} :
    (∀ forked, runManagedFork h f w v ks = .ok forked → ∀ c ∈ forked, c.Clone v f w) ↔
      (f.sourceCurrent = true → f.captures h.jailed →
        (∀ k ∈ ks, k.boot.comesUp h (v.baseOf f w h) ∧ k.forks h = true) →
        ∀ k ∈ ks, k.boot.restores ∧ v.sameDisk f w h) := by
  constructor
  · intro hclones hcurrent hcaptures hall k hk
    have hdir := createSnapshot_captures (w := w) (v := v) hcaptures
    have hup : ∀ k ∈ ks, (h.bootMachine k.boot ⟨(v.taken f w).memory, v.rootfs f w⟩).isSome = true ∧ k.forks h = true :=
      fun k hk => ⟨bootMachine_isSome.mpr (hall k hk).1, (hall k hk).2⟩
    obtain ⟨forked, hforked⟩ := bootChildren_total hup
    have hrun : runManagedFork h f w v ks = .ok forked := by
      simp only [runManagedFork, hcurrent, hdir, hforked, Bool.not_true, Bool.false_eq_true, if_false]
    obtain ⟨-, c, hc, hboot⟩ := (bootChildren_some hforked).1 k hk
    exact (clone_iff hboot).mp (hclones forked hrun c hc)
  · intro hgood forked hrun c hc
    obtain ⟨hcurrent, hcaptures, hall⟩ := runManagedFork_ok hrun
    obtain ⟨k, hk, hup, hboot⟩ := hall c hc
    exact (clone_iff hboot).mpr (hgood hcurrent hcaptures hup k hk)

theorem branchN_ok {booted : List (Child M B)} (hrun : branchN h f w v ks = .ok booted) :
    f.sourceCurrent = true ∧ f.captures h.jailed ∧ f.template = true ∧
      ∀ c ∈ booted, ∃ k ∈ ks, k.branches h = true ∧
        h.bootMachine k.boot ⟨(v.taken f w).memory, v.rootfs f w⟩ = some c := by
  unfold branchN at hrun
  split at hrun
  · cases hrun
  · rename_i hcurrent
    split at hrun
    · cases hrun
    · rename_i dir hdir
      obtain ⟨hcaptures, rfl⟩ := createSnapshot_ok hdir
      split at hrun
      · cases hrun
      · rename_i htemplate
        dsimp only at hrun
        split at hrun
        · cases hrun
        · cases hrun
          refine ⟨by simpa using hcurrent, hcaptures, by simpa using htemplate, fun c hc => ?_⟩
          obtain ⟨k, hk, hkept⟩ := List.mem_filterMap.mp hc
          obtain ⟨hboot, hbranches⟩ := Option.filter_eq_some_iff.mp hkept
          exact ⟨k, hk, hbranches, hboot⟩

/-- The children of `BranchN` are clones exactly when, if the template is found, every one that comes up has been restored
and has the disk of the snapshot (`Vm.sameDisk`). -/
theorem branchN_clones {ks : List ChildFaults} :
    (∀ booted, branchN h f w v ks = .ok booted → ∀ c ∈ booted, c.Clone v f w) ↔
      (f.sourceCurrent = true → f.captures h.jailed → f.template = true →
        ∀ k ∈ ks, k.boot.comesUp h (v.baseOf f w h) → k.branches h = true →
          k.boot.restores ∧ v.sameDisk f w h) := by
  constructor
  · intro hclones hcurrent hcaptures htemplate k hk hup hbranches
    have hdir := createSnapshot_captures (w := w) (v := v) hcaptures
    have hsome : (h.bootMachine k.boot ⟨(v.taken f w).memory, v.rootfs f w⟩).isSome = true := bootMachine_isSome.mpr hup
    obtain ⟨c, hboot⟩ := Option.isSome_iff_exists.mp hsome
    have hmem : c ∈ ks.filterMap fun k =>
        (h.bootMachine k.boot ⟨(v.taken f w).memory, v.rootfs f w⟩).filter fun _ => k.branches h :=
      List.mem_filterMap.mpr ⟨k, hk, Option.filter_eq_some_iff.mpr ⟨hboot, hbranches⟩⟩
    have hrun : branchN h f w v ks = .ok (ks.filterMap fun k =>
        (h.bootMachine k.boot ⟨(v.taken f w).memory, v.rootfs f w⟩).filter fun _ => k.branches h) := by
      simp only [branchN, hcurrent, hdir, htemplate, Bool.not_true, Bool.false_eq_true, if_false]
      rw [if_neg]
      intro hempty
      rw [List.isEmpty_iff.mp hempty] at hmem
      cases hmem
    exact (clone_iff hboot).mp (hclones _ hrun c hmem)
  · intro hgood booted hrun c hc
    obtain ⟨hcurrent, hcaptures, htemplate, hall⟩ := branchN_ok hrun
    obtain ⟨k, hk, hbranches, hboot⟩ := hall c hc
    have hup := bootMachine_isSome.mp (Option.isSome_of_eq_some hboot)
    exact (clone_iff hboot).mpr (hgood hcurrent hcaptures htemplate k hk hup hbranches)

end

/-- **Forks.**  Whatever the guest writes and whatever fails, a child that `runManagedFork` or `BranchN` reports goes on
from the memory that the source had at a moment of the request, and with the disk of that moment when it was copied
before the guest changed a block; or its restore was refused, and its mode says that it was booted from a base image. -/
theorem forks_start_from_source (h : Host B) (f : Faults) (w : Schedule M B) (v : Vm M B) (ks : List ChildFaults)
    (reported : List (Child M B)) (c : Child M B)
    (hreported : runManagedFork h f w v ks = .ok reported ∨ branchN h f w v ks = .ok reported) (hc : c ∈ reported) :
    ∃ k ∈ ks, (k.boot.restores ∧ c.Restored v f w h) ∨ (¬ k.boot.restores ∧ c.Cold h) := by
  rcases hreported with hforked | hbooted
  · obtain ⟨-, -, hall⟩ := runManagedFork_ok hforked
    obtain ⟨k, hk, -, hboot⟩ := hall c hc
    exact ⟨k, hk, child_starts hboot⟩
  · obtain ⟨-, -, -, hall⟩ := branchN_ok hbooted
    obtain ⟨k, hk, -, hboot⟩ := hall c hc
    exact ⟨k, hk, child_starts hboot⟩

/-! A guest with two blocks that writes the second one as soon as it runs again. -/

def calm : Faults := ⟨true, Snapshot.noFaults, none, true⟩

def launched : LaunchFaults := ⟨false, false, false, false, false, false⟩

def restored : ChildFaults := ⟨⟨launched, false, false, false, false, launched, false⟩, false, false, false, false, false⟩

/-- Firecracker refuses to load the snapshot. -/
def refused : ChildFaults := ⟨⟨launched, false, true, false, false, launched, false⟩, false, false, false, false, false⟩

def jailedHost : Host ℕ :=
  { jailed := true
    managed := true
    nic := false
    mebibyte := 1
    overlayQuotaMB := 4
    diskMB := 2
    templateRootfs := none
    baseRootfs := [7, 8]
    grow := fun n overlay => overlay.takeD n 0
    grow_length := fun n overlay _ => List.takeD_length n overlay 0 }

def source : Vm ℕ ℕ := ⟨true, 0, [1, 2]⟩

def idle : Schedule ℕ ℕ := ⟨[], fun _ => []⟩

def writing : Schedule ℕ ℕ := ⟨[], fun i => if i = 1 then [.memory 1, .block 1 3] else []⟩

/-- The guest writes before the pause, and to a block that has been read already after the resume. -/
def touching : Schedule ℕ ℕ := ⟨[.memory 5, .block 0 9], fun i => if i = 1 then [.memory 6, .block 0 4] else []⟩

theorem restored_starts : ∃ c : Child ℕ ℕ, runManagedFork jailedHost calm touching source [restored] = .ok [c] ∧
    c.Restored source calm touching jailedHost ∧ c.memory = some 5 ∧ c.disk = [9, 2] := by
  obtain ⟨k, hk, hrestored | hcold⟩ := forks_start_from_source jailedHost calm touching source [restored]
    [⟨.snapshot, some 5, [9, 2]⟩] ⟨.snapshot, some 5, [9, 2]⟩ (.inl rfl) List.mem_cons_self
  · exact ⟨_, rfl, hrestored.2, rfl, rfl⟩
  · have hmode := hcold.2.mode
    cases hmode

/-- A child whose restore is refused is booted from the base image, and both callers report it. With a guest that writes,
the disk of a child is one that the source never had beside the memory of the child. -/
theorem cold_reported :
    (runManagedFork jailedHost calm idle source [refused] = .ok [⟨.coldboot, none, [7, 8]⟩] ∧
      branchN jailedHost calm idle source [refused] = .ok [⟨.coldboot, none, [7, 8]⟩] ∧
      ¬ (Child.mk .coldboot none [7, 8]).Clone source calm idle) ∧
    runManagedFork jailedHost calm writing source [restored] = .ok [⟨.snapshot, some 0, [1, 3]⟩] ∧
      ∀ u ∈ source.instants calm writing, ¬ (u.memory = 0 ∧ u.disk = [1, 3]) := by
  refine ⟨⟨rfl, rfl, fun hclone => ?_⟩, rfl, by decide⟩
  have hmode := hclone.restored
  cases hmode

end Nehemiah.Clones
