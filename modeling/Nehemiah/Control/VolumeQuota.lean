import Nehemiah.Control.Volumes

/-!
# Storage quotas

Admissions, removals, the enqueueing of expired volumes and the deletion worker, each in its own transaction.  An
admission holds the lock of its organization from its reads to its insert, and any other transaction may commit in
between.  The store is the brokered one: it deletes at the retention boundary, and answers a deletion once it lists no
object under the prefix.  A reading of the clock may be used at any later moment.

`storage_quota_holds` is what the admissions keep.  Whether the organization can pay is given with each admission; an
object may be uploaded at any time, whatever its grant says, and its bytes are outside the model.
-/

namespace Nehemiah.Volumes

open Lib

/-- A claimed deletion job on its way through the worker. -/
structure Delivery where
  volumeId : String
  objectPrefix : String
  deleteAfter : ℤ
  attemptCount : ℕ
  claimToken : String
  confirmed : Bool

/-- `admissions` are the rows about to be inserted, each under the lock of its organization; `objects` are the keys of
the store, with the prefix that each belongs to; `confirmed` are the prefixes under which the store has listed nothing
to a delivery. -/
structure Quotas where
  db : Db
  now : ℤ
  admissions : List Volume
  deliveries : List Delivery
  objects : List (String × String)
  confirmed : List String

inductive QuotaAction
  | tick (t : ℤ)
  | admitCreate (input : CreateInput) (id : String) (createdAt : ℤ) (affordable : Bool)
  | commitAdmission (organizationId : String)
  | abortAdmission (organizationId : String)
  | enqueueDeletion (id organizationId : String) (projectId : Option String) (requestedAt : ℤ) (observedSizeBytes : ℕ)
  | removeDefers (id : String) (readAt : ℤ)
  | enqueueExpired (ids : List String) (readAt : ℤ) (limit : ℕ)
  | claim (ids : List String) (readAt : ℤ) (limit : ℕ) (claimToken : String) (claimTtlSeconds : ℤ)
  | retain (i : ℕ) (readAt : ℤ)
  | deletePass (i : ℕ) (deleted : List (String × String))
  | confirm (i : ℕ)
  | complete (i : ℕ) (readAt : ℤ)
  | fail (i : ℕ) (readAt : ℤ)
  | upload (objectPrefix key : String)

namespace Db

def volume? (db : Db) (id : String) : Option Volume := db.volumes.find? fun v => decide (v.id = id)

def updateVolume (db : Db) (id : String) (f : Volume → Volume) : Db :=
  { db with volumes := updateWhere (fun v => decide (v.id = id)) f db.volumes }

def updateJobs (db : Db) (p : VolumeDeletionJob → Bool) (f : VolumeDeletionJob → VolumeDeletionJob) : Db :=
  { db with jobs := updateWhere p f db.jobs }

/-- `INSERT … ON CONFLICT (volume_id) DO NOTHING`. -/
def insertJob (db : Db) (job : VolumeDeletionJob) : Db :=
  if db.jobs.any fun j => decide (j.volumeId = job.volumeId) then db else { db with jobs := db.jobs ++ [job] }

def newJob (v : Volume) (requestedAt : ℤ) : VolumeDeletionJob where
  volumeId := v.id
  organizationId := v.organizationId
  projectId := v.projectId
  deleteAfter := requestedAt + volumeDeletionRetentionSeconds * 1000
  requestedAt := requestedAt
  nextAttemptAt := requestedAt
  attemptCount := 0
  claimToken := none
  claimExpiresAt := none
  scheduledAt := none
  lastErrorCode := none

/-- A removal marks the volume once; a repeated one keeps the first request. -/
def enqueueDeletion (db : Db) (id organizationId : String) (projectId : Option String) (requestedAt : ℤ)
    (observedSizeBytes : ℕ) : Db :=
  match db.volume? id with
  | none => db
  | some v =>
    if v.organizationId = organizationId ∧ projectId.all (fun p => decide (p = v.projectId)) then
      (db.updateVolume id fun v =>
        { v with deletedAt := some (v.deletedAt.getD requestedAt), observedSizeBytes := observedSizeBytes }).insertJob
          (newJob v (v.deletedAt.getD requestedAt))
    else db

/-- The volumes that `enqueueExpiredDeletions` may pick. -/
def expired (db : Db) (readAt : ℤ) (id : String) : Bool :=
  (db.volume? id).any fun v => v.deletedAt.isNone && decide (v.expiresAt ≤ readAt)

def enqueueExpiredOne (db : Db) (id : String) : Db :=
  match db.volume? id with
  | none => db
  | some v =>
    (db.updateVolume id fun v =>
      { v with deletedAt := some v.expiresAt, observedSizeBytes := min v.observedSizeBytes v.sizeLimitBytes }).insertJob
        (newJob v v.expiresAt)

/-- The jobs that `claimDeletionJobs` may pick. -/
def claimable (db : Db) (readAt : ℤ) (id : String) : Bool :=
  db.jobs.any fun j => decide (j.volumeId = id) && j.scheduledAt.isNone && decide (j.nextAttemptAt ≤ readAt) &&
    (j.claimToken.isNone || j.claimExpiresAt.any fun t => decide (t ≤ readAt))

def claimOne (db : Db) (readAt : ℤ) (claimToken : String) (claimTtlSeconds : ℤ) (id : String) : Db :=
  db.updateJobs (fun j => decide (j.volumeId = id)) fun j =>
    { j with
      claimToken := some claimToken
      claimExpiresAt := some (readAt + claimTtlSeconds * 1000)
      attemptCount := j.attemptCount + 1 }

/-- The claimed job, joined with its volume. -/
def deliveryOf (db : Db) (claimToken id : String) : Option Delivery :=
  match db.jobs.find? fun j => decide (j.volumeId = id), db.volume? id with
  | some j, some v => some ⟨id, v.objectPrefix, j.deleteAfter, j.attemptCount, claimToken, false⟩
  | _, _ => none

def deferDeletion (db : Db) (volumeId : String) (nextAttemptAt : ℤ) (claimToken : Option String) (errorCode : String) : Db :=
  db.updateJobs (fun j => decide (j.volumeId = volumeId) && j.scheduledAt.isNone &&
      claimToken.all fun token => decide (j.claimToken = some token)) fun j =>
    { j with
      nextAttemptAt := max j.nextAttemptAt nextAttemptAt
      attemptCount := j.attemptCount + if claimToken.isNone then 1 else 0
      claimToken := none
      claimExpiresAt := none
      lastErrorCode := some errorCode }

def markDeletionScheduled (db : Db) (volumeId : String) (scheduledAt : ℤ) : Db :=
  db.updateJobs (fun j => decide (j.volumeId = volumeId)) fun j =>
    { j with
      scheduledAt := some (j.scheduledAt.getD (max scheduledAt j.requestedAt))
      claimToken := none
      claimExpiresAt := none
      lastErrorCode := none }

end Db

def volumeDeletionRetryDelayMs (attemptCount : ℕ) : ℤ := min (60 * 60 * 1000) (1000 * 2 ^ min (attemptCount - 1) 12)

namespace Quotas

/-- The lock of the organization is taken by `admitCreate`, which reads the allocations and keeps it. -/
def admitCreate (s : Quotas) (input : CreateInput) (id : String) (createdAt : ℤ) (affordable : Bool) : Option Quotas :=
  match validateCreate input with
  | .error _ => some s
  | .ok request =>
    let v := newVolume request input.idempotencyKey id createdAt
    if createdAt ≤ s.now ∧ ∀ a ∈ s.admissions, a.organizationId ≠ v.organizationId then
      match s.db.admission v affordable with
      | .ok none => some { s with admissions := s.admissions ++ [v] }
      | _ => some s
    else none

/-- The insert and the commit; an identifier that is taken violates the primary key. -/
def commitAdmission (s : Quotas) (organizationId : String) : Option Quotas :=
  match s.admissions.find? fun a => decide (a.organizationId = organizationId) with
  | none => none
  | some v =>
    if v.id ∈ s.db.volumes.map Volume.id then none
    else some { s with
      db := s.db.insert v
      admissions := s.admissions.filter fun a => decide (a.organizationId ≠ organizationId) }

def abortAdmission (s : Quotas) (organizationId : String) : Quotas :=
  { s with admissions := s.admissions.filter fun a => decide (a.organizationId ≠ organizationId) }

def removeDefers (s : Quotas) (id : String) : Option Quotas :=
  (s.db.jobs.find? fun j => decide (j.volumeId = id)).map fun j =>
    { s with db := s.db.deferDeletion id j.deleteAfter none "volume_retention_pending" }

def enqueueExpired (s : Quotas) (ids : List String) (readAt : ℤ) (limit : ℕ) : Option Quotas :=
  if 1 ≤ limit ∧ limit ≤ 1000 ∧ ids.length ≤ limit ∧ ids.Nodup ∧ ∀ id ∈ ids, s.db.expired readAt id then
    some { s with db := ids.foldl Db.enqueueExpiredOne s.db }
  else none

def claim (s : Quotas) (ids : List String) (readAt : ℤ) (limit : ℕ) (claimToken : String) (claimTtlSeconds : ℤ) :
    Option Quotas :=
  if 1 ≤ limit ∧ limit ≤ 1000 ∧ 1 ≤ claimTtlSeconds ∧ claimTtlSeconds ≤ 3600 ∧ ids.length ≤ limit ∧ ids.Nodup ∧
      ∀ id ∈ ids, s.db.claimable readAt id then
    let db := ids.foldl (fun db id => db.claimOne readAt claimToken claimTtlSeconds id) s.db
    some { s with db, deliveries := s.deliveries ++ ids.filterMap (db.deliveryOf claimToken) }
  else none

/-- The delivery of a job before its retention boundary. -/
def retain (s : Quotas) (i : ℕ) (readAt : ℤ) : Option Quotas :=
  match s.deliveries[i]? with
  | some d =>
    if d.deleteAfter > readAt then
      some { s with
        db := s.db.deferDeletion d.volumeId d.deleteAfter (some d.claimToken) "volume_retention_pending"
        deliveries := s.deliveries.eraseIdx i }
    else none
  | none => none

/-- One `DeleteObjects` request of `scheduleDeletion`, of which the store may carry out any part. -/
def deletePass (s : Quotas) (i : ℕ) (deleted : List (String × String)) : Option Quotas :=
  match s.deliveries[i]? with
  | some d =>
    if d.deleteAfter ≤ s.now ∧ ∀ o ∈ deleted, o.1 = d.objectPrefix then
      some { s with objects := s.objects.filter fun o => decide (o ∉ deleted) }
    else none
  | none => none

/-- The last listing of `scheduleDeletion` is empty. -/
def confirm (s : Quotas) (i : ℕ) : Option Quotas :=
  match s.deliveries[i]? with
  | some d =>
    if d.deleteAfter ≤ s.now ∧ ∀ o ∈ s.objects, o.1 ≠ d.objectPrefix then
      some { s with
        deliveries := s.deliveries.set i { d with confirmed := true }
        confirmed := d.objectPrefix :: s.confirmed }
    else none
  | none => none

def complete (s : Quotas) (i : ℕ) (readAt : ℤ) : Option Quotas :=
  match s.deliveries[i]? with
  | some d =>
    if d.confirmed then
      some { s with db := s.db.markDeletionScheduled d.volumeId readAt, deliveries := s.deliveries.eraseIdx i }
    else none
  | none => none

/-- A request of the delivery failed, or its answer was lost. -/
def fail (s : Quotas) (i : ℕ) (readAt : ℤ) : Option Quotas :=
  match s.deliveries[i]? with
  | some d =>
    some { s with
      db := s.db.deferDeletion d.volumeId (readAt + volumeDeletionRetryDelayMs d.attemptCount) (some d.claimToken)
        "volume_deletion_schedule_failed"
      deliveries := s.deliveries.eraseIdx i }
  | none => none

end Quotas

def quotaStep (s : Quotas) : QuotaAction → Option Quotas
  | .tick t => if s.now ≤ t then some { s with now := t } else none
  | .admitCreate input id createdAt affordable => s.admitCreate input id createdAt affordable
  | .commitAdmission organizationId => s.commitAdmission organizationId
  | .abortAdmission organizationId => some (s.abortAdmission organizationId)
  | .enqueueDeletion id organizationId projectId requestedAt observedSizeBytes =>
    some { s with db := s.db.enqueueDeletion id organizationId projectId requestedAt observedSizeBytes }
  | .removeDefers id _ => s.removeDefers id
  | .enqueueExpired ids readAt limit => if readAt ≤ s.now then s.enqueueExpired ids readAt limit else none
  | .claim ids readAt limit claimToken claimTtlSeconds =>
    if readAt ≤ s.now then s.claim ids readAt limit claimToken claimTtlSeconds else none
  | .retain i readAt => s.retain i readAt
  | .deletePass i deleted => s.deletePass i deleted
  | .confirm i => s.confirm i
  | .complete i readAt => s.complete i readAt
  | .fail i readAt => s.fail i readAt
  | .upload objectPrefix key => some { s with objects := (objectPrefix, key) :: s.objects }

/-- No volume has been admitted yet. -/
def noVolumes (organizations : List Organization) (projects : List Project) (now : ℤ) : Quotas :=
  ⟨⟨organizations, projects, [], []⟩, now, [], [], [], []⟩

/-- An organization, or one of its projects. -/
structure Scope where
  organizationId : String
  projectId : Option String

namespace Scope

def covers (c : Scope) (v : Volume) : Bool :=
  decide (v.organizationId = c.organizationId) && c.projectId.all fun p => decide (v.projectId = p)

end Scope

def Db.limit? (db : Db) (c : Scope) : Option ℕ :=
  match c.projectId with
  | none => (db.organization? c.organizationId).map fun o => o.maxStorageMb * mebibyte
  | some p => (db.project? p c.organizationId).map fun p => p.maxStorageMb * mebibyte

/-- The bytes of the volumes whose objects may still exist: those that were admitted and not completely deleted. -/
def Db.allocated (db : Db) (c : Scope) : ℕ :=
  sumWhere (fun v => c.covers v && !db.scheduled v) Volume.sizeLimitBytes db.volumes

/-! ## What a transaction may do to the rows -/

/-- What is never updated in a row of `volumes`. -/
structure Volume.Same (v v' : Volume) : Prop where
  id : v'.id = v.id
  organizationId : v'.organizationId = v.organizationId
  projectId : v'.projectId = v.projectId
  objectPrefix : v'.objectPrefix = v.objectPrefix
  sizeLimitBytes : v'.sizeLimitBytes = v.sizeLimitBytes

/-- Rows keep their identities, jobs stay, and a deletion becomes complete only for the volumes in `done`. -/
structure Db.Settles (done : String → Prop) (db db' : Db) : Prop where
  organizations : db'.organizations = db.organizations
  projects : db'.projects = db.projects
  volumes : ∃ g : Volume → Volume, db'.volumes = db.volumes.map g ∧ ∀ v : Volume, v.Same (g v)
  kept : ∀ j ∈ db.jobs, ∃ j' ∈ db'.jobs, j'.volumeId = j.volumeId ∧
    (j.scheduledAt.isSome = true → j'.scheduledAt.isSome = true)
  owned : ∀ j' ∈ db'.jobs, (∃ j ∈ db.jobs, j.volumeId = j'.volumeId) ∨ ∃ v ∈ db.volumes, v.id = j'.volumeId
  completes : ∀ j' ∈ db'.jobs, j'.scheduledAt.isSome = true →
    (∃ j ∈ db.jobs, j.volumeId = j'.volumeId ∧ j.scheduledAt.isSome = true) ∨ done j'.volumeId

section Settles

variable {done : String → Prop} {db db' db'' : Db}

theorem Volume.Same.refl (v : Volume) : v.Same v := ⟨rfl, rfl, rfl, rfl, rfl⟩

variable {v v' : Volume}

theorem Volume.Same.trans {v'' : Volume} (h : v.Same v') (h' : v'.Same v'') : v.Same v'' :=
  ⟨h'.id.trans h.id, h'.organizationId.trans h.organizationId, h'.projectId.trans h.projectId,
    h'.objectPrefix.trans h.objectPrefix, h'.sizeLimitBytes.trans h.sizeLimitBytes⟩

theorem Db.Settles.refl (db : Db) : db.Settles done db where
  organizations := rfl
  projects := rfl
  volumes := ⟨fun v => v, (List.map_id _).symm, Volume.Same.refl⟩
  kept := fun j hj => ⟨j, hj, rfl, fun h => h⟩
  owned := fun j hj => Or.inl ⟨j, hj, rfl⟩
  completes := fun j hj hsome => Or.inl ⟨j, hj, rfl, hsome⟩

theorem Db.Settles.trans (h : db.Settles done db') (h' : db'.Settles done db'') : db.Settles done db'' where
  organizations := h'.organizations.trans h.organizations
  projects := h'.projects.trans h.projects
  volumes := by
    obtain ⟨g, hg, hsame⟩ := h.volumes
    obtain ⟨g', hg', hsame'⟩ := h'.volumes
    refine ⟨fun v => g' (g v), ?_, fun v => (hsame v).trans (hsame' (g v))⟩
    rw [hg', hg, List.map_map]
    rfl
  kept := by
    intro j hj
    obtain ⟨j', hj', hid, hs⟩ := h.kept j hj
    obtain ⟨j'', hj'', hid', hs'⟩ := h'.kept j' hj'
    exact ⟨j'', hj'', hid'.trans hid, fun hj => hs' (hs hj)⟩
  owned := by
    intro j'' hj''
    rcases h'.owned j'' hj'' with ⟨j', hj', hid'⟩ | ⟨v', hv', hid'⟩
    · rw [← hid']
      exact h.owned j' hj'
    · obtain ⟨g, hg, hsame⟩ := h.volumes
      rw [hg] at hv'
      obtain ⟨v, hv, rfl⟩ := List.mem_map.mp hv'
      exact Or.inr ⟨v, hv, (hsame v).id.symm.trans hid'⟩
  completes := by
    intro j'' hj'' hsome
    rcases h'.completes j'' hj'' hsome with ⟨j', hj', hid', hsome'⟩ | hdone
    · rw [← hid']
      exact h.completes j' hj' hsome'
    · exact Or.inr hdone

theorem settles_updateVolume {f : Volume → Volume} (id : String) (hf : ∀ v : Volume, v.Same (f v)) :
    db.Settles done (db.updateVolume id f) where
  organizations := rfl
  projects := rfl
  volumes := by
    refine ⟨fun v => if decide (v.id = id) then f v else v, rfl, ?_⟩
    intro v
    dsimp only
    split
    · exact hf v
    · exact Volume.Same.refl v
  kept := fun j hj => ⟨j, hj, rfl, fun h => h⟩
  owned := fun j hj => Or.inl ⟨j, hj, rfl⟩
  completes := fun j hj hsome => Or.inl ⟨j, hj, rfl, hsome⟩

/-- An update of jobs that sets `scheduled_at` only for the volumes in `done`, and never clears it. -/
theorem settles_updateJobs {p : VolumeDeletionJob → Bool} {f : VolumeDeletionJob → VolumeDeletionJob}
    (hid : ∀ j, (f j).volumeId = j.volumeId)
    (hkept : ∀ j, j.scheduledAt.isSome = true → (f j).scheduledAt.isSome = true)
    (hdone : ∀ j, p j = true → (f j).scheduledAt.isSome = true → j.scheduledAt.isSome = true ∨ done j.volumeId) :
    db.Settles done (db.updateJobs p f) where
  organizations := rfl
  projects := rfl
  volumes := ⟨fun v => v, (List.map_id _).symm, Volume.Same.refl⟩
  kept := by
    intro j hj
    refine ⟨if p j then f j else j, List.mem_map_of_mem hj, ?_⟩
    split
    · exact ⟨hid j, hkept j⟩
    · exact ⟨rfl, fun h => h⟩
  owned := by
    intro j' hj'
    obtain ⟨j, hj, rfl⟩ := List.mem_map.mp hj'
    refine Or.inl ⟨j, hj, ?_⟩
    split
    · exact (hid j).symm
    · rfl
  completes := by
    intro j' hj' hsome
    obtain ⟨j, hj, rfl⟩ := List.mem_map.mp hj'
    by_cases hp : p j = true
    · rw [if_pos hp] at hsome ⊢
      rw [hid j]
      exact (hdone j hp hsome).imp_left fun hs => ⟨j, hj, rfl, hs⟩
    · rw [if_neg hp] at hsome ⊢
      exact Or.inl ⟨j, hj, rfl, hsome⟩

theorem settles_insertJob {job : VolumeDeletionJob} (hnone : job.scheduledAt = none)
    (hv : ∃ v ∈ db.volumes, v.id = job.volumeId) : db.Settles done (db.insertJob job) := by
  unfold Db.insertJob
  split
  · exact Db.Settles.refl db
  · refine ⟨rfl, rfl, ⟨fun v => v, (List.map_id _).symm, Volume.Same.refl⟩, ?_, ?_, ?_⟩
    · intro j hj
      exact ⟨j, List.mem_append_left _ hj, rfl, fun h => h⟩
    · intro j' hj'
      rcases List.mem_append.mp hj' with hj | hj
      · exact Or.inl ⟨j', hj, rfl⟩
      · obtain rfl := List.mem_singleton.mp hj
        exact Or.inr hv
    · intro j' hj' hsome
      rcases List.mem_append.mp hj' with hj | hj
      · exact Or.inl ⟨j', hj, rfl, hsome⟩
      · obtain rfl := List.mem_singleton.mp hj
        rw [hnone] at hsome
        cases hsome

theorem settles_foldl {f : Db → String → Db} (ids : List String) (hf : ∀ (db : Db) (id : String), db.Settles done (f db id)) :
    db.Settles done (ids.foldl f db) := by
  induction ids generalizing db with
  | nil => exact Db.Settles.refl db
  | cons id ids ih => exact (hf db id).trans ih

theorem mem_of_volume? {id : String} (h : db.volume? id = some v) : v ∈ db.volumes ∧ v.id = id :=
  ⟨List.mem_of_find?_eq_some h, by simpa using List.find?_some h⟩

/-- Marking a volume and inserting its job. -/
theorem settles_enqueue {id : String} {f : Volume → Volume} {requestedAt : ℤ} (hv : db.volume? id = some v)
    (hf : ∀ v : Volume, v.Same (f v)) :
    db.Settles done ((db.updateVolume id f).insertJob (Db.newJob v requestedAt)) := by
  obtain ⟨hmem, hid⟩ := mem_of_volume? hv
  apply (settles_updateVolume id hf).trans
  apply settles_insertJob rfl
  refine ⟨f v, ?_, (hf v).id⟩
  have hmap : (if decide (v.id = id) then f v else v) ∈ updateWhere (fun v => decide (v.id = id)) f db.volumes :=
    List.mem_map_of_mem hmem
  rwa [if_pos (decide_eq_true hid)] at hmap

theorem settles_enqueueDeletion (id organizationId : String) (projectId : Option String) (requestedAt : ℤ)
    (observedSizeBytes : ℕ) :
    db.Settles done (db.enqueueDeletion id organizationId projectId requestedAt observedSizeBytes) := by
  unfold Db.enqueueDeletion
  split
  · exact Db.Settles.refl db
  · next v hv =>
    split
    · exact settles_enqueue hv fun v => ⟨rfl, rfl, rfl, rfl, rfl⟩
    · exact Db.Settles.refl db

theorem settles_enqueueExpiredOne (db : Db) (id : String) : db.Settles done (db.enqueueExpiredOne id) := by
  unfold Db.enqueueExpiredOne
  split
  · exact Db.Settles.refl db
  · next v hv => exact settles_enqueue hv fun v => ⟨rfl, rfl, rfl, rfl, rfl⟩

theorem settles_claimOne (readAt : ℤ) (claimToken : String) (claimTtlSeconds : ℤ) (db : Db) (id : String) :
    db.Settles done (db.claimOne readAt claimToken claimTtlSeconds id) :=
  settles_updateJobs (fun _ => rfl) (fun _ h => h) fun _ _ h => Or.inl h

theorem settles_deferDeletion (volumeId : String) (nextAttemptAt : ℤ) (claimToken : Option String) (errorCode : String) :
    db.Settles done (db.deferDeletion volumeId nextAttemptAt claimToken errorCode) :=
  settles_updateJobs (fun _ => rfl) (fun _ h => h) fun _ _ h => Or.inl h

theorem settles_markDeletionScheduled {volumeId : String} (scheduledAt : ℤ) (hdone : done volumeId) :
    db.Settles done (db.markDeletionScheduled volumeId scheduledAt) := by
  refine settles_updateJobs ?_ ?_ ?_
  · exact fun _ => rfl
  · exact fun _ _ => rfl
  intro j hp _
  rw [of_decide_eq_true hp]
  exact Or.inr hdone

/-- Once a deletion is complete it stays so. -/
theorem Db.Settles.scheduled (h : db.Settles done db') (hid : v'.id = v.id) (hv : db.scheduled v = true) :
    db'.scheduled v' = true := by
  unfold Db.scheduled at hv ⊢
  rw [List.any_eq_true] at hv ⊢
  obtain ⟨j, hj, hjv⟩ := hv
  rw [Bool.and_eq_true, decide_eq_true_iff] at hjv
  obtain ⟨j', hj', hjid, hsome⟩ := h.kept j hj
  refine ⟨j', hj', ?_⟩
  rw [Bool.and_eq_true, decide_eq_true_iff]
  exact ⟨hjid.trans (hjv.1.trans hid.symm), hsome hjv.2⟩

theorem Scope.covers_same (c : Scope) (h : v.Same v') : c.covers v' = c.covers v := by
  unfold Scope.covers
  rw [h.organizationId, h.projectId]

theorem Db.Settles.allocated_le (h : db.Settles done db') (c : Scope) : db'.allocated c ≤ db.allocated c := by
  obtain ⟨g, hg, hsame⟩ := h.volumes
  unfold Db.allocated sumWhere
  rw [hg, List.map_map]
  apply List.sum_le_sum
  intro v _
  show (if c.covers (g v) && !db'.scheduled (g v) then (g v).sizeLimitBytes else 0) ≤
    if c.covers v && !db.scheduled v then v.sizeLimitBytes else 0
  rw [c.covers_same (hsame v), (hsame v).sizeLimitBytes]
  by_cases hs : db.scheduled v = true
  · rw [h.scheduled (hsame v).id hs]
    simp
  · by_cases hc : (c.covers v && !db'.scheduled (g v)) = true
    · rw [if_pos hc]
      rw [Bool.and_eq_true] at hc
      simp [hc.1, hs]
    · rw [if_neg hc]
      exact Nat.zero_le _

theorem Db.Settles.limit? (h : db.Settles done db') (c : Scope) : db'.limit? c = db.limit? c := by
  unfold Db.limit? Db.organization? Db.project?
  rw [h.organizations, h.projects]

end Settles

/-! ## The invariant -/

/-- The bytes of the scope that are allocated or about to be. -/
def Quotas.held (s : Quotas) (c : Scope) : ℕ := s.db.allocated c + sumWhere c.covers Volume.sizeLimitBytes s.admissions

structure Quotas.Inv (s : Quotas) : Prop where
  ids : (s.db.volumes.map Volume.id).Nodup
  owned : ∀ j ∈ s.db.jobs, ∃ v ∈ s.db.volumes, v.id = j.volumeId
  completed : ∀ j ∈ s.db.jobs, j.scheduledAt.isSome = true → ∀ v ∈ s.db.volumes, v.id = j.volumeId →
    v.objectPrefix ∈ s.confirmed
  deliveries : ∀ d ∈ s.deliveries, ∃ v ∈ s.db.volumes, v.id = d.volumeId ∧ v.objectPrefix = d.objectPrefix
  confirmed : ∀ d ∈ s.deliveries, d.confirmed = true → d.objectPrefix ∈ s.confirmed
  quota : ∀ c limit, s.db.limit? c = some limit → s.held c ≤ limit

namespace Quotas

section Steps

variable {s t : Quotas} {done : String → Prop} {db : Db} {deliveries : List Delivery}

theorem Inv.settled (h : s.Inv) (done : String → Prop) (hdb : s.db.Settles done db)
    (hdone : ∀ id, done id → ∀ v ∈ s.db.volumes, v.id = id → v.objectPrefix ∈ s.confirmed) :
    Inv { s with db := db } := by
  obtain ⟨g, hg, hsame⟩ := hdb.volumes
  have hmem {v : Volume} (hv : v ∈ s.db.volumes) : g v ∈ db.volumes := by
    rw [hg]
    exact List.mem_map_of_mem hv
  refine ⟨?_, ?_, ?_, ?_, h.confirmed, ?_⟩
  · show (db.volumes.map Volume.id).Nodup
    have hid : Volume.id ∘ g = Volume.id := by
      funext v
      exact (hsame v).id
    rw [hg, List.map_map, hid]
    exact h.ids
  · intro j' hj'
    rcases hdb.owned j' hj' with ⟨j, hj, hid⟩ | ⟨v, hv, hid⟩
    · obtain ⟨v, hv, hvid⟩ := h.owned j hj
      exact ⟨g v, hmem hv, (hsame v).id.trans (hvid.trans hid)⟩
    · exact ⟨g v, hmem hv, (hsame v).id.trans hid⟩
  · intro j' hj' hsome v' hv' hid'
    have hv'' : v' ∈ s.db.volumes.map g := hg ▸ hv'
    obtain ⟨v, hv, rfl⟩ := List.mem_map.mp hv''
    rw [(hsame v).objectPrefix]
    have hvid : v.id = j'.volumeId := (hsame v).id.symm.trans hid'
    rcases hdb.completes j' hj' hsome with ⟨j, hj, hid, hs⟩ | hd
    · exact h.completed j hj hs v hv (hvid.trans hid.symm)
    · exact hdone j'.volumeId hd v hv hvid
  · intro d hd
    obtain ⟨v, hv, hid, hobject⟩ := h.deliveries d hd
    exact ⟨g v, hmem hv, (hsame v).id.trans hid, (hsame v).objectPrefix.trans hobject⟩
  · intro c limit hlimit
    have hlimit' : s.db.limit? c = some limit := (hdb.limit? c).symm.trans hlimit
    exact (Nat.add_le_add_right (hdb.allocated_le c) _).trans (h.quota c limit hlimit')

/-- Deliveries come and go; a new one has read its volume. -/
theorem Inv.delivered (h : s.Inv) (hd : ∀ d ∈ deliveries, d ∈ s.deliveries ∨
    (∃ v ∈ s.db.volumes, v.id = d.volumeId ∧ v.objectPrefix = d.objectPrefix) ∧ (d.confirmed = true → d.objectPrefix ∈ s.confirmed)) :
    Inv { s with deliveries := deliveries } := by
  refine ⟨h.ids, h.owned, h.completed, ?_, ?_, h.quota⟩
  · intro d hmem
    rcases hd d hmem with hold | hnew
    · exact h.deliveries d hold
    · exact hnew.1
  · intro d hmem
    rcases hd d hmem with hold | hnew
    · exact h.confirmed d hold
    · exact hnew.2

theorem Inv.erased (h : s.Inv) (i : ℕ) : Inv { s with deliveries := s.deliveries.eraseIdx i } :=
  h.delivered fun _ hd => Or.inl (List.mem_of_mem_eraseIdx hd)

variable {v : Volume}

theorem counted_of_not_scheduled {db : Db} {now : ℤ} (h : db.scheduled v = false) : db.counted now v = true := by
  unfold Db.counted
  rw [h]
  simp

/-- The admission query counts every volume whose deletion is not complete. -/
theorem allocated_le_organization (db : Db) (organizationId : String) (now : ℤ) :
    db.allocated ⟨organizationId, none⟩ ≤ db.organizationAllocated organizationId now := by
  apply sumWhere_mono
  · intro v _ hv
    simp only [Scope.covers, Option.all_none, Bool.and_true, Bool.and_eq_true, Bool.not_eq_true'] at hv
    rw [Bool.and_eq_true]
    exact ⟨hv.1, counted_of_not_scheduled hv.2⟩
  · exact fun _ _ _ => Nat.zero_le _

theorem allocated_le_project (db : Db) (organizationId projectId : String) (now : ℤ) :
    db.allocated ⟨organizationId, some projectId⟩ ≤ db.projectAllocated organizationId projectId now := by
  apply sumWhere_mono
  · intro v _ hv
    simp only [Scope.covers, Option.all_some, Bool.and_eq_true, decide_eq_true_eq, Bool.not_eq_true'] at hv
    simp only [Bool.and_eq_true, decide_eq_true_eq]
    exact ⟨hv.1, counted_of_not_scheduled hv.2⟩
  · exact fun _ _ _ => Nat.zero_le _

/-- A row that passes the admission fits the limits of the scopes it is in. -/
theorem admission_fits {db : Db} {affordable : Bool} (h : db.admission v affordable = .ok none) {c : Scope} {limit : ℕ}
    (hc : c.covers v = true) (hlimit : db.limit? c = some limit) : db.allocated c + v.sizeLimitBytes ≤ limit := by
  obtain ⟨organization, project, horg, hproj, _, hfits, hfits'⟩ := Db.admission_none h
  obtain ⟨organizationId, projectId⟩ := c
  unfold Scope.covers at hc
  rw [Bool.and_eq_true, decide_eq_true_iff] at hc
  dsimp only at hc
  obtain ⟨hco, hcp⟩ := hc
  cases projectId with
  | none =>
    have hlimit' : (db.organization? organizationId).map (fun o => o.maxStorageMb * mebibyte) = some limit := hlimit
    rw [← hco, horg, Option.map_some, Option.some.injEq] at hlimit'
    rw [← hlimit', ← hco]
    exact (Nat.add_le_add_right (allocated_le_organization db _ _) _).trans hfits
  | some projectId =>
    have hlimit' : (db.project? projectId organizationId).map (fun p => p.maxStorageMb * mebibyte) = some limit := hlimit
    rw [Option.all_some, decide_eq_true_iff] at hcp
    rw [← hco, ← hcp, hproj, Option.map_some, Option.some.injEq] at hlimit'
    rw [← hlimit', ← hco, ← hcp]
    exact (Nat.add_le_add_right (allocated_le_project db _ _ _) _).trans hfits'

theorem covers_organization {c : Scope} (h : c.covers v = true) : v.organizationId = c.organizationId := by
  unfold Scope.covers at h
  rw [Bool.and_eq_true, decide_eq_true_iff] at h
  exact h.1

/-- Under a free lock nothing of the organization is about to be inserted. -/
theorem admissions_eq_zero {c : Scope} {admissions : List Volume}
    (h : ∀ a ∈ admissions, a.organizationId ≠ c.organizationId) :
    sumWhere c.covers Volume.sizeLimitBytes admissions = 0 := by
  apply sumWhere_eq_zero
  intro a ha hc
  exact absurd (covers_organization hc) (h a ha)

theorem Inv.admitCreate {input : CreateInput} {id : String} {createdAt : ℤ} {affordable : Bool} (h : s.Inv)
    (hs : s.admitCreate input id createdAt affordable = some t) : t.Inv := by
  unfold Quotas.admitCreate at hs
  cases hrequest : validateCreate input with
  | error error =>
    rw [hrequest] at hs
    cases hs
    exact h
  | ok request =>
    rw [hrequest] at hs
    dsimp only at hs
    split at hs
    case isFalse => cases hs
    case isTrue hfree =>
      split at hs
      · next hadmitted =>
        cases hs
        refine ⟨h.ids, h.owned, h.completed, h.deliveries, h.confirmed, ?_⟩
        intro c limit hlimit
        show s.db.allocated c + sumWhere c.covers Volume.sizeLimitBytes (s.admissions ++ [_]) ≤ limit
        rw [sumWhere_append, sumWhere_cons, sumWhere_nil, Nat.add_zero]
        by_cases hc : c.covers (newVolume request input.idempotencyKey id createdAt) = true
        · rw [if_pos hc, admissions_eq_zero, Nat.zero_add]
          · exact admission_fits hadmitted hc hlimit
          · rw [← covers_organization hc]
            exact hfree.2
        · rw [if_neg hc, Nat.add_zero]
          exact h.quota c limit hlimit
      · cases hs
        exact h

theorem sumWhere_filter_le {p q : Volume → Bool} (rows : List Volume) :
    sumWhere p Volume.sizeLimitBytes (rows.filter q) ≤ sumWhere p Volume.sizeLimitBytes rows := by
  induction rows with
  | nil => exact Nat.le_refl _
  | cons r rows ih =>
    by_cases hr : q r = true
    · rw [List.filter_cons_of_pos hr, sumWhere_cons, sumWhere_cons]
      exact Nat.add_le_add_left ih _
    · rw [List.filter_cons_of_neg hr, sumWhere_cons]
      exact ih.trans (Nat.le_add_left _ _)

theorem Inv.aborted (h : s.Inv) (organizationId : String) : (s.abortAdmission organizationId).Inv := by
  refine ⟨h.ids, h.owned, h.completed, h.deliveries, h.confirmed, ?_⟩
  intro c limit hlimit
  exact (Nat.add_le_add_left (sumWhere_filter_le s.admissions) _).trans (h.quota c limit hlimit)

theorem allocated_insert_le (db : Db) (v : Volume) (c : Scope) :
    (db.insert v).allocated c ≤ db.allocated c + if c.covers v then v.sizeLimitBytes else 0 := by
  show sumWhere (fun v => c.covers v && !db.scheduled v) Volume.sizeLimitBytes (db.volumes ++ [v]) ≤ _
  rw [sumWhere_append, sumWhere_cons, sumWhere_nil, Nat.add_zero]
  apply Nat.add_le_add_left
  by_cases hc : c.covers v = true
  · rw [if_pos hc]
    split
    · exact Nat.le_refl _
    · exact Nat.zero_le _
  · simp [hc]

theorem Inv.committed {organizationId : String} (h : s.Inv) (hs : s.commitAdmission organizationId = some t) : t.Inv := by
  unfold Quotas.commitAdmission at hs
  split at hs
  · cases hs
  split at hs
  · cases hs
  next v hfind hfresh =>
    cases hs
    have hmem := List.mem_of_find?_eq_some hfind
    have hvorg : v.organizationId = organizationId := by simpa using List.find?_some hfind
    refine ⟨?_, ?_, ?_, ?_, h.confirmed, ?_⟩
    · show ((s.db.volumes ++ [v]).map Volume.id).Nodup
      rw [List.map_append, List.map_singleton, List.nodup_append]
      refine ⟨h.ids, List.nodup_singleton _, ?_⟩
      intro a ha b hb hab
      exact hfresh (List.mem_singleton.mp hb ▸ hab ▸ ha)
    · intro j hj
      obtain ⟨w, hw, hid⟩ := h.owned j hj
      exact ⟨w, List.mem_append_left _ hw, hid⟩
    · intro j hj hsome w hw hid
      rcases List.mem_append.mp hw with hw | hw
      · exact h.completed j hj hsome w hw hid
      · obtain rfl := List.mem_singleton.mp hw
        obtain ⟨u, hu, huid⟩ := h.owned j hj
        exact absurd (List.mem_map_of_mem hu) (huid.trans hid.symm ▸ hfresh)
    · intro d hd
      obtain ⟨w, hw, hid⟩ := h.deliveries d hd
      exact ⟨w, List.mem_append_left _ hw, hid⟩
    · intro c limit hlimit
      have hquota : s.held c ≤ limit := h.quota c limit hlimit
      apply le_trans ?_ hquota
      show (s.db.insert v).allocated c + sumWhere c.covers Volume.sizeLimitBytes (s.admissions.filter _) ≤
        s.db.allocated c + sumWhere c.covers Volume.sizeLimitBytes s.admissions
      have hinsert := allocated_insert_le s.db v c
      by_cases hc : c.covers v = true
      · have hrest : sumWhere c.covers Volume.sizeLimitBytes
            (s.admissions.filter fun a => decide (a.organizationId ≠ organizationId)) = 0 := by
          apply admissions_eq_zero
          intro a ha
          rw [← covers_organization hc, hvorg]
          exact of_decide_eq_true (List.mem_filter.mp ha).2
        have hv : v.sizeLimitBytes ≤ sumWhere c.covers Volume.sizeLimitBytes s.admissions :=
          le_sumWhere hmem hc fun _ _ _ => Nat.zero_le _
        rw [if_pos hc] at hinsert
        omega
      · have hrest := sumWhere_filter_le (p := c.covers) (q := fun a => decide (a.organizationId ≠ organizationId)) s.admissions
        rw [if_neg hc] at hinsert
        omega

theorem Inv.claimed {ids : List String} {readAt : ℤ} {limit : ℕ} {claimToken : String} {claimTtlSeconds : ℤ} (h : s.Inv)
    (hs : s.claim ids readAt limit claimToken claimTtlSeconds = some t) : t.Inv := by
  unfold Quotas.claim at hs
  split at hs
  case isFalse => cases hs
  case isTrue =>
    cases hs
    have hclaimed : Inv { s with db := ids.foldl (fun db id => db.claimOne readAt claimToken claimTtlSeconds id) s.db } := by
      apply h.settled (fun _ => False) (settles_foldl ids (settles_claimOne readAt claimToken claimTtlSeconds))
      intro id hid
      cases hid
    apply hclaimed.delivered
    intro d hd
    rcases List.mem_append.mp hd with hd | hd
    · exact Or.inl hd
    · obtain ⟨id, _, hd⟩ := List.mem_filterMap.mp hd
      unfold Db.deliveryOf at hd
      split at hd
      · next j v _ hv =>
        cases hd
        obtain ⟨hmem, hid⟩ := mem_of_volume? hv
        exact Or.inr ⟨⟨v, hmem, hid, rfl⟩, nofun⟩
      · cases hd

theorem Inv.deferred (h : s.Inv) (volumeId : String) (nextAttemptAt : ℤ) (claimToken : Option String) (errorCode : String) :
    Inv { s with db := s.db.deferDeletion volumeId nextAttemptAt claimToken errorCode } := by
  apply h.settled (fun _ => False) (settles_deferDeletion volumeId nextAttemptAt claimToken errorCode)
  intro id hid
  cases hid

theorem Inv.confirms {i : ℕ} (h : s.Inv) (hs : s.confirm i = some t) : t.Inv := by
  unfold Quotas.confirm at hs
  split at hs
  case h_2 => cases hs
  case h_1 d hd =>
    split at hs
    case isFalse => cases hs
    case isTrue =>
      cases hs
      have hgrown : Inv { s with confirmed := d.objectPrefix :: s.confirmed } := by
        refine ⟨h.ids, h.owned, ?_, h.deliveries, ?_, h.quota⟩
        · intro j hj hsome v hv hid
          exact List.mem_cons_of_mem _ (h.completed j hj hsome v hv hid)
        · intro d' hd' hc
          exact List.mem_cons_of_mem _ (h.confirmed d' hd' hc)
      apply hgrown.delivered
      intro d' hd'
      rcases List.mem_or_eq_of_mem_set hd' with hd' | rfl
      · exact Or.inl hd'
      · exact Or.inr ⟨h.deliveries d (List.mem_of_getElem? hd), fun _ => List.mem_cons_self⟩

/-- A completion follows the empty listing of the volume's prefix. -/
theorem Inv.completes {i : ℕ} {readAt : ℤ} (h : s.Inv) (hs : s.complete i readAt = some t) : t.Inv := by
  unfold Quotas.complete at hs
  split at hs
  case h_2 => cases hs
  case h_1 d hd =>
    split at hs
    case isFalse => cases hs
    case isTrue hconfirmed =>
      cases hs
      have hmem := List.mem_of_getElem? hd
      have hmarked : Inv { s with db := s.db.markDeletionScheduled d.volumeId readAt } := by
        apply h.settled (fun id => id = d.volumeId) (settles_markDeletionScheduled readAt rfl)
        intro id hid v hv hvid
        obtain ⟨w, hw, hwid, hobject⟩ := h.deliveries d hmem
        obtain rfl := key_inj h.ids hv hw (hvid.trans (hid.trans hwid.symm))
        rw [hobject]
        exact h.confirmed d hmem hconfirmed
      exact hmarked.erased i

theorem Inv.step {a : QuotaAction} (h : s.Inv) (hs : quotaStep s a = some t) : t.Inv := by
  cases a with
  | tick now =>
    unfold quotaStep at hs
    dsimp only at hs
    split at hs
    · cases hs
      exact ⟨h.ids, h.owned, h.completed, h.deliveries, h.confirmed, h.quota⟩
    · cases hs
  | admitCreate input id createdAt affordable => exact h.admitCreate hs
  | commitAdmission organizationId => exact h.committed hs
  | abortAdmission organizationId =>
    cases hs
    exact h.aborted organizationId
  | enqueueDeletion id organizationId projectId requestedAt observedSizeBytes =>
    cases hs
    apply h.settled (fun _ => False) (settles_enqueueDeletion id organizationId projectId requestedAt observedSizeBytes)
    intro id hid
    cases hid
  | removeDefers id readAt =>
    obtain ⟨j, _, rfl⟩ := Option.map_eq_some_iff.mp hs
    exact h.deferred id j.deleteAfter none "volume_retention_pending"
  | enqueueExpired ids readAt limit =>
    unfold quotaStep at hs
    dsimp only at hs
    split at hs
    case isFalse => cases hs
    case isTrue =>
      unfold Quotas.enqueueExpired at hs
      split at hs
      case isFalse => cases hs
      case isTrue =>
        cases hs
        apply h.settled (fun _ => False) (settles_foldl ids settles_enqueueExpiredOne)
        intro id hid
        cases hid
  | claim ids readAt limit claimToken claimTtlSeconds =>
    unfold quotaStep at hs
    dsimp only at hs
    split at hs
    · exact h.claimed hs
    · cases hs
  | retain i readAt =>
    change s.retain i readAt = some t at hs
    unfold Quotas.retain at hs
    split at hs
    case h_2 => cases hs
    case h_1 d _ =>
      split at hs
      · cases hs
        exact (h.deferred d.volumeId d.deleteAfter (some d.claimToken) "volume_retention_pending").erased i
      · cases hs
  | deletePass i deleted =>
    change s.deletePass i deleted = some t at hs
    unfold Quotas.deletePass at hs
    split at hs
    case h_2 => cases hs
    case h_1 d _ =>
      split at hs
      · cases hs
        exact ⟨h.ids, h.owned, h.completed, h.deliveries, h.confirmed, h.quota⟩
      · cases hs
  | confirm i => exact h.confirms hs
  | complete i readAt => exact h.completes hs
  | fail i readAt =>
    change s.fail i readAt = some t at hs
    unfold Quotas.fail at hs
    split at hs
    case h_2 => cases hs
    case h_1 d _ =>
      cases hs
      exact (h.deferred d.volumeId _ (some d.claimToken) "volume_deletion_schedule_failed").erased i
  | upload objectPrefix key =>
    cases hs
    exact ⟨h.ids, h.owned, h.completed, h.deliveries, h.confirmed, h.quota⟩

theorem inv_noVolumes (organizations : List Organization) (projects : List Project) (now : ℤ) :
    (noVolumes organizations projects now).Inv where
  ids := List.nodup_nil
  owned _ hj := nomatch hj
  completed _ hj := nomatch hj
  deliveries _ hd := nomatch hd
  confirmed _ hd := nomatch hd
  quota _ _ _ := Nat.zero_le _

/-- A volume that the admission query no longer counts was deleted completely. -/
theorem Inv.returned (h : s.Inv) (hv : v ∈ s.db.volumes) {now : ℤ} (hc : s.db.counted now v = false) :
    v.objectPrefix ∈ s.confirmed := by
  unfold Db.counted Db.scheduled at hc
  rw [Bool.or_eq_false_iff, Bool.not_eq_false', List.any_eq_true] at hc
  obtain ⟨j, hj, hjv⟩ := hc.2
  rw [Bool.and_eq_true, decide_eq_true_iff] at hjv
  exact h.completed j hj hjv.2 v hv hjv.1.symm

end Steps

end Quotas

/-- **Storage quotas hold.**  In every state of every run, the volumes of an organization, and those of each of its
projects, whose deletion is not complete fit the limit, and a volume whose bytes an admission at any time would return
to the quota is one under whose prefix the store has listed nothing to a deletion. -/
theorem storage_quota_holds {organizations : List Organization} {projects : List Project} {start : ℤ}
    {actions : List QuotaAction} {s : Quotas}
    (h : Run (fun s a t => quotaStep s a = some t) (noVolumes organizations projects start) actions s) :
    (∀ c limit, s.db.limit? c = some limit → s.db.allocated c ≤ limit) ∧
      ∀ v ∈ s.db.volumes, ∀ now, s.db.counted now v = false → v.objectPrefix ∈ s.confirmed := by
  have hinv : s.Inv := h.invariant (fun _ _ _ hi hs => hi.step hs) (Quotas.inv_noVolumes organizations projects start)
  refine ⟨?_, fun v hv now hc => hinv.returned hv hc⟩
  intro c limit hlimit
  exact (Nat.le_add_right _ _).trans (hinv.quota c limit hlimit)

def sampleCreate (idempotencyKey : String) : CreateInput where
  organizationId := "00000000-0000-4000-8000-00000000000a"
  projectId := "00000000-0000-4000-8000-00000000000b"
  sizeLimitMb := some 1
  ttlSeconds := none
  grantTtlSeconds := none
  idempotencyKey := idempotencyKey

def samplePrefix : String :=
  "organizations/00000000-0000-4000-8000-00000000000a/projects/00000000-0000-4000-8000-00000000000b/volumes/vol_1/"

/-- A second volume is refused while the first one is counted, and admitted after its deletion.  The store deletes one of
the two objects of the first, fails, and deletes the other when the deletion is tried again. -/
def sampleActions : List QuotaAction :=
  [.admitCreate (sampleCreate "first") "vol_1" 0 true, .commitAdmission "00000000-0000-4000-8000-00000000000a",
    .upload samplePrefix "a.tar", .admitCreate (sampleCreate "second") "vol_2" 0 true, .upload samplePrefix "b.tar",
    .enqueueDeletion "vol_1" "00000000-0000-4000-8000-00000000000a" none 0 0, .removeDefers "vol_1" 0,
    .tick 604800000, .claim ["vol_1"] 604800000 100 "token" 60, .deletePass 0 [(samplePrefix, "a.tar")],
    .fail 0 604800000, .tick 604802000, .claim ["vol_1"] 604802000 100 "token" 60,
    .deletePass 0 [(samplePrefix, "b.tar")], .confirm 0, .complete 0 604802000,
    .admitCreate (sampleCreate "third") "vol_3" 604802000 true, .commitAdmission "00000000-0000-4000-8000-00000000000a"]

theorem storage_quota_holds_sample :
    ∃ s : Quotas, s.db.volumes.map Volume.id = ["vol_1", "vol_3"] ∧ s.confirmed = [samplePrefix] ∧
      (∀ c limit, s.db.limit? c = some limit → s.db.allocated c ≤ limit) ∧
      ∀ v ∈ s.db.volumes, ∀ now, s.db.counted now v = false → v.objectPrefix ∈ s.confirmed := by
  have hrun : ∃ s, Run (fun s a t => quotaStep s a = some t)
      (noVolumes [⟨"00000000-0000-4000-8000-00000000000a", 1⟩]
        [⟨"00000000-0000-4000-8000-00000000000b", "00000000-0000-4000-8000-00000000000a", 1⟩] 0) sampleActions s ∧
      s.db.volumes.map Volume.id = ["vol_1", "vol_3"] ∧ s.confirmed = [samplePrefix] :=
    Run.of_test (by decide +kernel)
  obtain ⟨s, hrun, hids, hconfirmed⟩ := hrun
  exact ⟨s, hids, hconfirmed, storage_quota_holds hrun⟩

end Nehemiah.Volumes
