import Mathlib
import Nehemiah.Lib.Run
import Nehemiah.Lib.Table
import Nehemiah.Lib.Text

/-!
# Volumes

The rows of `volumes` and `volume_deletion_jobs`, the checks of a create request, and the transaction that admits a
volume under the storage quotas of its organization and project.  Times are in milliseconds; the hash of a create
request is represented by the fields that it digests.
-/

namespace Nehemiah.Volumes

open Lib

def mebibyte : ℕ := 1048576
def maximumVolumeBytes : ℤ := 1099511627776
def defaultVolumeSizeLimitMb : ℤ := 10240
def defaultVolumeTtlSeconds : ℤ := 30 * 24 * 60 * 60
def maximumVolumeTtlSeconds : ℤ := 365 * 24 * 60 * 60
def volumeDeletionRetentionSeconds : ℤ := 7 * 24 * 60 * 60
def defaultVolumeGrantTtlSeconds : ℤ := 300
def maximumVolumeGrantTtlSeconds : ℤ := 900

inductive VolumeError
  | invalidVolumeRequest (message : String)
  | volumeProjectNotFound (message : String)
  | storageQuotaExceeded (message : String)
  | idempotencyConflict (message : String)
  | volumeInfrastructureUnavailable (message : String)
  | volumeIntegrityFailed (message : String)
  /-- The spend cap of the organization refuses the commitment. -/
  | billing

/-- The fields that `create_request_hash` digests. -/
structure RequestHash where
  organizationId : String
  projectId : String
  sizeLimitMb : ℤ
  ttlSeconds : ℤ
  grantTtlSeconds : ℤ
deriving DecidableEq

structure Volume where
  id : String
  organizationId : String
  projectId : String
  objectPrefix : String
  sizeLimitBytes : ℕ
  observedSizeBytes : ℕ
  createdAt : ℤ
  expiresAt : ℤ
  deletedAt : Option ℤ
  idempotencyKey : String
  createRequestHash : RequestHash

structure VolumeDeletionJob where
  volumeId : String
  organizationId : String
  projectId : String
  deleteAfter : ℤ
  requestedAt : ℤ
  nextAttemptAt : ℤ
  attemptCount : ℕ
  claimToken : Option String
  claimExpiresAt : Option ℤ
  scheduledAt : Option ℤ
  lastErrorCode : Option String

structure Organization where
  id : String
  maxStorageMb : ℕ

structure Project where
  id : String
  organizationId : String
  maxStorageMb : ℕ

structure Db where
  organizations : List Organization
  projects : List Project
  volumes : List Volume
  jobs : List VolumeDeletionJob

/-! ## The create request -/

structure CreateInput where
  organizationId : String
  projectId : String
  sizeLimitMb : Option ℤ
  ttlSeconds : Option ℤ
  grantTtlSeconds : Option ℤ
  idempotencyKey : String

def validIdempotencyKey (key : String) : Bool :=
  decide (key.toList ≠ []) && decide (key.toList.length ≤ 128) &&
    key.toList.all fun c => c.isAlphanum || "._:-".toList.contains c

def validateGrantTtl (ttlSeconds : ℤ) : Except VolumeError Unit :=
  if ttlSeconds < 1 ∨ ttlSeconds > maximumVolumeGrantTtlSeconds then
    .error (.invalidVolumeRequest "grant_ttl_seconds must be an integer from 1 to 900.")
  else .ok ()

/-- The request with its defaults, as it is hashed. -/
def validateCreate (input : CreateInput) : Except VolumeError RequestHash :=
  let sizeLimitMb := input.sizeLimitMb.getD defaultVolumeSizeLimitMb
  let ttlSeconds := input.ttlSeconds.getD defaultVolumeTtlSeconds
  let grantTtlSeconds := input.grantTtlSeconds.getD defaultVolumeGrantTtlSeconds
  if !isUuid input.organizationId || !isUuid input.projectId then
    .error (.invalidVolumeRequest "organization_id and project_id must be UUIDs.")
  else if !validIdempotencyKey input.idempotencyKey then
    .error (.invalidVolumeRequest "A valid Idempotency-Key header is required.")
  else if sizeLimitMb < 1 ∨ sizeLimitMb * mebibyte > maximumVolumeBytes then
    .error (.invalidVolumeRequest "size_limit_mb must be an integer from 1 to 1048576.")
  else if ttlSeconds < 3600 ∨ ttlSeconds > maximumVolumeTtlSeconds then
    .error (.invalidVolumeRequest "ttl_seconds must be an integer from 3600 to 31536000.")
  else
    match validateGrantTtl grantTtlSeconds with
    | .error error => .error error
    | .ok () => .ok ⟨input.organizationId, input.projectId, sizeLimitMb, ttlSeconds, grantTtlSeconds⟩

/-- The row that a create request asks for, with the drawn identifier. -/
def newVolume (request : RequestHash) (idempotencyKey id : String) (createdAt : ℤ) : Volume where
  id := id
  organizationId := request.organizationId
  projectId := request.projectId
  objectPrefix := "organizations/" ++ request.organizationId ++ "/projects/" ++ request.projectId ++ "/volumes/" ++ id ++ "/"
  sizeLimitBytes := request.sizeLimitMb.toNat * mebibyte
  observedSizeBytes := 0
  createdAt := createdAt
  expiresAt := createdAt + request.ttlSeconds * 1000
  deletedAt := none
  idempotencyKey := idempotencyKey
  createRequestHash := request

/-! ## Admission -/

namespace Db

/-- The deletion of the volume is complete. -/
def scheduled (db : Db) (v : Volume) : Bool :=
  db.jobs.any fun j => decide (j.volumeId = v.id) && j.scheduledAt.isSome

/-- The admission query still counts the volume. -/
def counted (db : Db) (now : ℤ) (v : Volume) : Bool :=
  decide (v.deletedAt.getD v.expiresAt + volumeDeletionRetentionSeconds * 1000 > now) || !db.scheduled v

def organizationAllocated (db : Db) (organizationId : String) (now : ℤ) : ℕ :=
  sumWhere (fun v => decide (v.organizationId = organizationId) && db.counted now v) Volume.sizeLimitBytes db.volumes

def projectAllocated (db : Db) (organizationId projectId : String) (now : ℤ) : ℕ :=
  sumWhere (fun v => decide (v.organizationId = organizationId ∧ v.projectId = projectId) && db.counted now v)
    Volume.sizeLimitBytes db.volumes

def organization? (db : Db) (id : String) : Option Organization := db.organizations.find? fun o => decide (o.id = id)

def project? (db : Db) (id organizationId : String) : Option Project :=
  db.projects.find? fun p => decide (p.id = id ∧ p.organizationId = organizationId)

def existing? (db : Db) (v : Volume) : Option Volume :=
  db.volumes.find? fun r => decide (r.organizationId = v.organizationId ∧ r.projectId = v.projectId ∧
    r.idempotencyKey = v.idempotencyKey)

/-- What `admitCreate` decides under the locks of the organization and the project: an earlier volume of the same
request, or (`none`) that the new row may be inserted.  `affordable` is the answer of the billing admission. -/
def admission (db : Db) (v : Volume) (affordable : Bool) : Except VolumeError (Option Volume) :=
  match db.organization? v.organizationId with
  | none => .error (.volumeProjectNotFound "Project not found.")
  | some organization =>
    match db.project? v.projectId v.organizationId with
    | none => .error (.volumeProjectNotFound "Project not found.")
    | some project =>
      match db.existing? v with
      | some existing =>
        if existing.createRequestHash ≠ v.createRequestHash then
          .error (.idempotencyConflict "Idempotency-Key was already used with a different volume request.")
        else .ok (some existing)
      | none =>
        if !affordable then .error .billing
        else if db.projectAllocated v.organizationId v.projectId v.createdAt + v.sizeLimitBytes >
              project.maxStorageMb * mebibyte ∨
            db.organizationAllocated v.organizationId v.createdAt + v.sizeLimitBytes >
              organization.maxStorageMb * mebibyte then
          .error (.storageQuotaExceeded "The storage allocation exceeds the project or organization quota.")
        else .ok none

/-- The insertion of an admitted row; its identifier is a new one. -/
def insert (db : Db) (v : Volume) : Db := { db with volumes := db.volumes ++ [v] }

variable {db : Db} {v : Volume} {affordable : Bool}

/-- An admission without an earlier volume fits both quotas. -/
theorem admission_none (h : db.admission v affordable = .ok none) : ∃ organization project,
    db.organization? v.organizationId = some organization ∧ db.project? v.projectId v.organizationId = some project ∧
      db.existing? v = none ∧
      db.organizationAllocated v.organizationId v.createdAt + v.sizeLimitBytes ≤ organization.maxStorageMb * mebibyte ∧
      db.projectAllocated v.organizationId v.projectId v.createdAt + v.sizeLimitBytes ≤ project.maxStorageMb * mebibyte := by
  unfold admission at h
  cases horg : db.organization? v.organizationId with
  | none =>
    rw [horg] at h
    cases h
  | some organization =>
    cases hproj : db.project? v.projectId v.organizationId with
    | none =>
      rw [horg, hproj] at h
      cases h
    | some project =>
      rw [horg, hproj] at h
      cases hex : db.existing? v with
      | some existing =>
        rw [hex] at h
        dsimp only at h
        split at h <;> cases h
      | none =>
        rw [hex] at h
        dsimp only at h
        split at h
        · cases h
        · split at h
          · cases h
          · next hquota =>
            push Not at hquota
            exact ⟨organization, project, rfl, rfl, rfl, hquota.2, hquota.1⟩

end Db

end Nehemiah.Volumes
