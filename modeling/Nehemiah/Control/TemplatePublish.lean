import Mathlib
import Nehemiah.Lib.Run
import Nehemiah.Lib.Text

/-!
# Template publication

A publication exports a machine on its host, uploads the export under an object key of its own, verifies the stored
object and registers it as a row of `templates`.  Whatever fails after the draw of the key is compensated by deleting
the object.  The store, the database and any number of publications take their steps in any order; requests to the
store and the database may fail, and their answers may be lost.  What is registered is kept (`registered_artifact_kept`).

The discard of the host's export, which neither the store nor the rows see, is left out.
-/

namespace Nehemiah.Templates

open Lib

abbrev Bytes := List UInt8

inductive Architecture
  | x86_64
  | aarch64

structure Artifact where
  checksum : String
  sizeBytes : ℕ
deriving DecidableEq

structure ManifestArtifact where
  objectKey : String
  checksum : String
  sizeBytes : ℕ

structure TemplateManifest where
  schemaVersion : ℕ
  format : String
  architecture : Architecture
  sourceMachineId : String
  artifact : ManifestArtifact

structure Template where
  id : String
  organizationId : String
  projectId : String
  name : String
  version : String
  hostTemplateName : String
  sourceMachineId : String
  manifest : TemplateManifest
  objectKey : String
  checksum : String
  sizeBytes : ℕ
  createdAt : ℤ
  deleted : Bool

structure TemplateSourceMachine where
  id : String
  organizationId : String
  projectId : String
  state : String
  ready : Bool
  architecture : Architecture
  hostId : Option String
  hostAddress : Option String
  hostMachineId : Option String
  expiresAt : ℤ

inductive Method
  | get
  | put
deriving DecidableEq

/-- The parts of a grant's URL that are looked at. -/
structure Url where
  protocol : String
  username : String
  password : String

/-- A grant of the store; `url` is `none` when the text does not parse. -/
structure ScopedObjectGrant where
  method : Method
  url : Option Url
  expiresAt : ℤ

inductive PublishError
  | invalidTemplateRequest (message : String)
  | templateSourceNotFound (message : String)
  | templateSourceNotReady (message : String)
  | templateVersionConflict (message : String)
  | templateInfrastructureUnavailable (message : String)
  | templateIntegrityFailed (message : String)
  /-- The error of the database client, thrown on as it is. -/
  | database

/-! ## Checks -/

/-- `^[first][rest]{0,most}$`. -/
def segment (first rest : Char → Bool) (most : ℕ) (value : List Char) : Bool :=
  match value with
  | [] => false
  | c :: cs => first c && decide (cs.length ≤ most) && cs.all rest

def isLowerAlnum (c : Char) : Bool := c.isLower || c.isDigit

def templateNamePattern (value : String) : Bool :=
  segment isLowerAlnum (fun c => isLowerAlnum c || "._-".toList.contains c) 62 value.toList

def templateVersionPattern (value : String) : Bool :=
  segment Char.isAlphanum (fun c => c.isAlphanum || "._+-".toList.contains c) 63 value.toList

def tenantSegmentPattern (value : String) : Bool :=
  segment Char.isAlphanum (fun c => c.isAlphanum || "_-".toList.contains c) 127 value.toList

def machineIdPattern (value : String) : Bool :=
  value.toList.take 2 == "m_".toList &&
    segment (fun c => c.isAlphanum || "_-".toList.contains c) (fun c => c.isAlphanum || "_-".toList.contains c) 125
      (value.toList.drop 2)

def validTemplateChecksum (value : String) : Bool :=
  value.toList.take 7 == "sha256:".toList && (value.toList.drop 7).length == 64 &&
    (value.toList.drop 7).all fun c => c.isDigit || decide ('a' ≤ c ∧ c ≤ 'f')

def maximumArtifactBytes : ℕ := 5 * 1024 * 1024 * 1024

def validArtifact (value : Artifact) : Bool :=
  validTemplateChecksum value.checksum && decide (0 < value.sizeBytes) && decide (value.sizeBytes ≤ maximumArtifactBytes)

def invalidGrant : PublishError :=
  .templateInfrastructureUnavailable "Object storage returned an invalid scoped grant."

def validateScopedObjectGrant (grant : ScopedObjectGrant) (method : Method) (now : ℤ) : Except PublishError Unit :=
  match grant.url with
  | none => .error invalidGrant
  | some parsed =>
    if grant.method ≠ method ∨ parsed.protocol ≠ "https:" ∨ parsed.username ≠ "" ∨ parsed.password ≠ "" ∨
        grant.expiresAt ≤ now ∨ grant.expiresAt - now > 15 * 60 * 1000 then .error invalidGrant
    else .ok ()

structure PublishInput where
  organizationId : String
  projectId : String
  machineId : String
  name : String
  version : String

def safeObjectKey (input : PublishInput) (id : String) : Except PublishError String :=
  if !tenantSegmentPattern input.organizationId || !tenantSegmentPattern input.projectId then
    .error (.invalidTemplateRequest "organization and project identifiers are invalid")
  else
    .ok ("organizations/" ++ input.organizationId ++ "/projects/" ++ input.projectId ++ "/templates/" ++ input.name ++
      "/" ++ input.version ++ "/" ++ id ++ "/snapshot.tar.zst")

/-- The checks before the first query; the name and the version are trimmed. -/
def validateInput (configured : Bool) (input : PublishInput) : Except PublishError PublishInput :=
  let name := jsTrim input.name
  let version := jsTrim input.version
  if !templateNamePattern name then
    .error (.invalidTemplateRequest "name must be 1-63 lowercase letters, numbers, dots, underscores, or dashes")
  else if !templateVersionPattern version then
    .error (.invalidTemplateRequest "version must be an immutable 1-64 character identifier")
  else if !machineIdPattern input.machineId then .error (.invalidTemplateRequest "machineId is invalid")
  else if !configured then
    .error (.templateInfrastructureUnavailable "Durable template publication is not configured on this control plane.")
  else .ok { input with name, version }

def versionConflict : PublishError := .templateVersionConflict "This template name and version already exist."

def findVersion (rows : List Template) (input : PublishInput) : Bool :=
  rows.any fun r => decide (r.organizationId = input.organizationId ∧ r.projectId = input.projectId ∧
    r.name = input.name ∧ r.version = input.version)

def validateSource (input : PublishInput) (machine : Option TemplateSourceMachine) (now : ℤ) :
    Except PublishError TemplateSourceMachine :=
  match machine with
  | none => .error (.templateSourceNotFound "The source machine was not found.")
  | some m =>
    if m.organizationId ≠ input.organizationId ∨ m.projectId ≠ input.projectId then
      .error (.templateSourceNotFound "The source machine was not found.")
    else if m.state ≠ "running" ∨ !m.ready ∨ m.expiresAt ≤ now ∨ m.hostId.getD "" = "" ∨ m.hostAddress.getD "" = "" ∨
        m.hostMachineId.getD "" = "" then
      .error (.templateSourceNotReady "The source machine must be ready and running.")
    else .ok m

/-! ## The state of a publication -/

/-- What a publication has drawn and read by the time it enters its `try` block. -/
structure Job where
  input : PublishInput
  machine : TemplateSourceMachine
  id : String
  exportId : String
  hostTemplateName : String
  objectKey : String
  now : ℤ

/-- What the host answers to an export. -/
structure HostExport where
  exportId : String
  artifact : Artifact

/-- How far the database has come with an `INSERT` statement. -/
inductive Statement
  | sent
  | committed
  | refused (error : PublishError)

inductive Phase
  | searching (input : PublishInput)
  | resolving (input : PublishInput)
  | exporting (job : Job)
  | granting (job : Job) (artifact : Artifact)
  | uploading (job : Job) (artifact : Artifact)
  | verifying (job : Job) (artifact : Artifact)
  | inserting (job : Job) (template : Template) (statement : Statement)
  | published (job : Job) (template : Template)
  /-- In the `catch` block, or past it; `running` is an `INSERT` whose answer was lost before it was executed. -/
  | compensating (job : Job) (error : PublishError) (running : Option Template)
  | rejected (error : PublishError)

/-- A grant that the store has issued: it accepts one object under the key, with this checksum and size. -/
structure IssuedGrant where
  objectKey : String
  artifact : Artifact
deriving DecidableEq

structure State where
  configured : Bool
  rows : List Template
  store : List (String × Bytes)
  grants : List IssuedGrant
  publications : List Phase

def State.object? (s : State) (objectKey : String) : Option Bytes := s.store.lookup objectKey

def Phase.job? : Phase → Option Job
  | .exporting job | .granting job _ | .uploading job _ | .verifying job _ | .inserting job _ _ | .published job _
  | .compensating job _ _ => some job
  | .searching _ | .resolving _ | .rejected _ => none

inductive Action
  | publish (input : PublishInput)
  | search (i : ℕ)
  | resolve (i : ℕ) (machine : Option TemplateSourceMachine) (checkedAt now : ℤ) (id hostTemplateName : String)
  | exported (i : ℕ) (answer : Option HostExport)
  | granted (i : ℕ) (answer : Option ScopedObjectGrant)
  | putObject (grant : IssuedGrant) (bytes : Bytes)
  | uploaded (i : ℕ) (answer : Option Artifact)
  | stat (i : ℕ) (answered : Bool)
  | executeInsert (i : ℕ) (accepted : Bool)
  | insertAnswered (i : ℕ)
  | insertLost (i : ℕ)
  | deleteObject (i : ℕ)
  | remove (id : String)

/-! ## Steps -/

def publishStarts (configured : Bool) (input : PublishInput) : Phase :=
  match validateInput configured input with
  | .error error => .rejected error
  | .ok input => .searching input

def searches (rows : List Template) : Phase → Option Phase
  | .searching input => some (if findVersion rows input then .rejected versionConflict else .resolving input)
  | _ => none

/-- The `-`-free text of the identifier names the export. -/
def exportIdOf (id : String) : String := "te_" ++ String.ofList (id.toList.filter (· ≠ '-'))

def resolves (machine : Option TemplateSourceMachine) (checkedAt now : ℤ) (id hostTemplateName : String) :
    Phase → Option Phase
  | .resolving input =>
    match validateSource input machine checkedAt with
    | .error error => some (.rejected error)
    | .ok machine =>
      match safeObjectKey input id with
      | .error error => some (.rejected error)
      | .ok objectKey => some (.exporting ⟨input, machine, id, exportIdOf id, hostTemplateName, objectKey, now⟩)
  | _ => none

def exports (answer : Option HostExport) : Phase → Option Phase
  | .exporting job =>
    match answer with
    | none =>
      some (.compensating job
        (.templateInfrastructureUnavailable "The source host could not export a durable template.") none)
    | some hostExport =>
      if hostExport.exportId ≠ job.exportId ∨ !validArtifact hostExport.artifact then
        some (.compensating job
          (.templateIntegrityFailed "The host returned invalid template artifact metadata.") none)
      else some (.granting job hostExport.artifact)
  | _ => none

def obtainsGrant (answer : Option ScopedObjectGrant) : Phase → Option Phase
  | .granting job artifact =>
    match answer with
    | none =>
      some (.compensating job
        (.templateInfrastructureUnavailable "Durable object storage could not issue an upload capability.") none)
    | some grant =>
      match validateScopedObjectGrant grant .put job.now with
      | .error error => some (.compensating job error none)
      | .ok () => some (.uploading job artifact)
  | _ => none

def uploads (answer : Option Artifact) : Phase → Option Phase
  | .uploading job artifact =>
    match answer with
    | none =>
      some (.compensating job
        (.templateInfrastructureUnavailable "The source host could not upload its immutable template export.") none)
    | some hostArtifact =>
      if !validArtifact hostArtifact ∨ hostArtifact ≠ artifact then
        some (.compensating job
          (.templateIntegrityFailed "The host upload did not match its immutable export.") none)
      else some (.verifying job artifact)
  | _ => none

def templateOf (job : Job) (stored : Artifact) : Template where
  id := job.id
  organizationId := job.input.organizationId
  projectId := job.input.projectId
  name := job.input.name
  version := job.input.version
  hostTemplateName := job.hostTemplateName
  sourceMachineId := job.machine.id
  manifest := {
    schemaVersion := 1
    format := "firecracker-snapshot-v1"
    architecture := job.machine.architecture
    sourceMachineId := job.machine.id
    artifact := ⟨job.objectKey, stored.checksum, stored.sizeBytes⟩ }
  objectKey := job.objectKey
  checksum := stored.checksum
  sizeBytes := stored.sizeBytes
  createdAt := job.now
  deleted := false

/-- `stored` is what the store answers about the object, `none` when the request fails or there is no object. -/
def verifies (stored : Option Artifact) : Phase → Option Phase
  | .verifying job artifact =>
    match stored with
    | none =>
      some (.compensating job
        (.templateInfrastructureUnavailable "Durable object storage could not verify the uploaded template.") none)
    | some storedArtifact =>
      if !validArtifact storedArtifact ∨ storedArtifact ≠ artifact then
        some (.compensating job
          (.templateIntegrityFailed "The durable artifact does not match the host checksum and size.") none)
      else some (.inserting job (templateOf job storedArtifact) .sent)
  | _ => none

/-- The unique columns of `templates`. -/
def isUniqueViolation (rows : List Template) (t : Template) : Bool :=
  rows.any fun r => decide (r.id = t.id ∨ r.hostTemplateName = t.hostTemplateName ∨
    (r.projectId = t.projectId ∧ r.name = t.name ∧ r.version = t.version))

/-- The database executes the statement, with or without the client still waiting; `accepted` stands for the other
constraints and for failures of the database. -/
def executes (rows : List Template) (accepted : Bool) : Phase → Option (List Template × Phase)
  | .inserting job t .sent =>
    if isUniqueViolation rows t then some (rows, .inserting job t (.refused versionConflict))
    else if accepted then some (rows ++ [t], .inserting job t .committed)
    else some (rows, .inserting job t (.refused .database))
  | .compensating job error (some t) =>
    if !isUniqueViolation rows t && accepted then some (rows ++ [t], .compensating job error none)
    else some (rows, .compensating job error none)
  | _ => none

def insertAnswers : Phase → Option Phase
  | .inserting job t .committed => some (.published job t)
  | .inserting job _ (.refused error) => some (.compensating job error none)
  | _ => none

/-- The client gives up on the statement: the connection failed, before or after it was executed. -/
def insertLoses : Phase → Option Phase
  | .inserting job t .sent => some (.compensating job .database (some t))
  | .inserting job _ _ => some (.compensating job .database none)
  | _ => none

/-- The key that the `catch` block of the publication deletes. -/
def Phase.deletes? : Phase → Option String
  | .compensating job _ _ => some job.objectKey
  | _ => none

/-- An identifier of `randomUUID` that no publication has drawn. -/
def State.Fresh (s : State) (id : String) : Prop :=
  isUuid id = true ∧ ∀ p ∈ s.publications, ∀ job ∈ p.job?, job.id ≠ id

instance (s : State) (id : String) : Decidable (s.Fresh id) := by
  unfold State.Fresh
  infer_instance

namespace State

def advance (s : State) (i : ℕ) (next : Phase → Option Phase) : Option State :=
  (s.publications[i]?.bind next).map fun p => { s with publications := s.publications.set i p }

/-- The store accepts the object if its bytes are those that the grant is bound to and there is none under the key. -/
def putObject (digest : Bytes → String) (s : State) (grant : IssuedGrant) (bytes : Bytes) : Option State :=
  if grant ∈ s.grants ∧ digest bytes = grant.artifact.checksum ∧ bytes.length = grant.artifact.sizeBytes ∧
      s.object? grant.objectKey = none then
    some { s with store := (grant.objectKey, bytes) :: s.store }
  else none

/-- The request of `publish` for a grant; an issued grant may be used also when the answer is lost. -/
def grant (s : State) (i : ℕ) (answer : Option ScopedObjectGrant) : Option State :=
  match s.publications[i]? with
  | some (.granting job artifact) =>
    { s with grants := ⟨job.objectKey, artifact⟩ :: s.grants }.advance i (obtainsGrant answer)
  | _ => none

def statArtifact (digest : Bytes → String) (s : State) (objectKey : String) : Option Artifact :=
  (s.object? objectKey).map fun bytes => ⟨digest bytes, bytes.length⟩

def stat (digest : Bytes → String) (s : State) (i : ℕ) (answered : Bool) : Option State :=
  s.advance i fun p => verifies (if answered then p.job?.bind fun job => s.statArtifact digest job.objectKey else none) p

def executeInsert (s : State) (i : ℕ) (accepted : Bool) : Option State :=
  (s.publications[i]?.bind (executes s.rows accepted)).map fun (rows, p) =>
    { s with rows, publications := s.publications.set i p }

def deleteObject (s : State) (i : ℕ) : Option State :=
  (s.publications[i]?.bind Phase.deletes?).map fun objectKey =>
    { s with store := s.store.filter fun o => o.1 ≠ objectKey }

/-- The soft delete of `remove`, for a template that its transaction found unused. -/
def remove (s : State) (id : String) : State :=
  { s with rows := s.rows.map fun r => if r.id = id then { r with deleted := true } else r }

end State

def step (digest : Bytes → String) (s : State) : Action → Option State
  | .publish input => some { s with publications := s.publications ++ [publishStarts s.configured input] }
  | .search i => s.advance i (searches s.rows)
  | .resolve i machine checkedAt now id hostTemplateName =>
    if s.Fresh id then s.advance i (resolves machine checkedAt now id hostTemplateName) else none
  | .exported i answer => s.advance i (exports answer)
  | .granted i answer => s.grant i answer
  | .putObject grant bytes => s.putObject digest grant bytes
  | .uploaded i answer => s.advance i (uploads answer)
  | .stat i answered => s.stat digest i answered
  | .executeInsert i accepted => s.executeInsert i accepted
  | .insertAnswered i => s.advance i insertAnswers
  | .insertLost i => s.advance i insertLoses
  | .deleteObject i => s.deleteObject i
  | .remove id => some (s.remove id)

def initial (configured : Bool) : State := ⟨configured, [], [], [], []⟩

/-- The object that the row names exists, and its bytes have the checksum of the row's manifest. -/
def Kept (digest : Bytes → String) (s : State) (row : Template) : Prop :=
  ∃ bytes, s.object? row.objectKey = some bytes ∧ digest bytes = row.manifest.artifact.checksum

def Phase.committed : Phase → Bool
  | .inserting _ _ .committed => true
  | _ => false

def Phase.abandoned : Phase → Bool
  | .compensating _ _ (some _) => true
  | _ => false

/-- No `INSERT` that commits fails without the answer of the database: the client does not give up on a statement that
has committed, and a statement that the client has given up on is not executed. -/
def Answered (s : State) (a : Action) (_ : State) : Prop :=
  match a with
  | .insertLost i => s.publications[i]?.any Phase.committed = false
  | .executeInsert i _ => s.publications[i]?.any Phase.abandoned = false
  | _ => True

instance (s : State) (a : Action) (t : State) : Decidable (Answered s a t) := by
  unfold Answered
  split <;> infer_instance

/-! ## Object keys -/

theorem isUuid_length {id : String} (h : isUuid id = true) : id.toList.length = 36 := by
  unfold isUuid at h
  rw [Bool.and_eq_true, beq_iff_eq] at h
  exact h.1.trans (by decide)

/-- Publications with different identifiers have different object keys. -/
theorem safeObjectKey_inj {input input' : PublishInput} {id id' key : String} (hid : isUuid id = true)
    (hid' : isUuid id' = true) (h : safeObjectKey input id = .ok key) (h' : safeObjectKey input' id' = .ok key) :
    id = id' := by
  unfold safeObjectKey at h h'
  split at h
  · cases h
  split at h'
  · cases h'
  have heq := (Except.ok.inj h).trans (Except.ok.inj h').symm
  have hchars := congrArg String.toList heq
  simp only [String.toList_append] at hchars
  have hlen : id.toList.length = id'.toList.length := (isUuid_length hid).trans (isUuid_length hid').symm
  have hkeys := List.append_inj_left' hchars rfl
  exact String.toList_inj.mp (List.append_inj_right' hkeys hlen)

/-! ## The invariant -/

/-- The template of a phase whose row is in the table. -/
def Phase.registered? : Phase → Option Template
  | .inserting _ t .committed | .published _ t => some t
  | _ => none

/-- The template that a phase is about to register, or has registered. -/
def Phase.verified? : Phase → Option (Job × Template)
  | .inserting job t _ | .published job t => some (job, t)
  | _ => none

structure Job.Keyed (job : Job) : Prop where
  id : isUuid job.id = true
  objectKey : safeObjectKey job.input job.id = .ok job.objectKey

section Invariant

variable (digest : Bytes → String)

structure Inv (s : State) : Prop where
  keyed : ∀ (i : ℕ) (p : Phase), s.publications[i]? = some p → ∀ job ∈ p.job?, job.Keyed
  drawn : ∀ (i j : ℕ) (p q : Phase), s.publications[i]? = some p → s.publications[j]? = some q →
    ∀ job ∈ p.job?, ∀ job' ∈ q.job?, job.id = job'.id → i = j
  verified : ∀ (i : ℕ) (p : Phase), s.publications[i]? = some p → ∀ v ∈ p.verified?,
    v.2.objectKey = v.1.objectKey ∧ Kept digest s v.2
  rows : ∀ r ∈ s.rows, ∃ (i : ℕ) (p : Phase) (t : Template), s.publications[i]? = some p ∧ t ∈ p.registered? ∧
    r.objectKey = t.objectKey ∧ r.manifest = t.manifest

variable {digest} {s t : State} {i : ℕ} {p p' : Phase}

theorem Phase.verified_of_registered {t : Template} (h : t ∈ p.registered?) : ∃ job, (job, t) ∈ p.verified? := by
  cases p with
  | inserting job t' statement =>
    cases statement with
    | committed => exact ⟨job, by cases h; rfl⟩
    | sent => cases h
    | refused => cases h
  | published job t' => exact ⟨job, by cases h; rfl⟩
  | _ => cases h

theorem Phase.job_of_verified {v : Job × Template} (h : v ∈ p.verified?) : v.1 ∈ p.job? := by
  cases p with
  | inserting job t' statement =>
    cases h
    rfl
  | published job t' =>
    cases h
    rfl
  | _ => cases h

theorem forall_mem_none {α : Type} {P : α → Prop} : ∀ a ∈ (none : Option α), P a := fun _ h => nomatch h

theorem getElem?_set_cases {ps : List Phase} {j : ℕ} {q : Phase} (h : (ps.set i p')[j]? = some q) :
    i = j ∧ q = p' ∨ i ≠ j ∧ ps[j]? = some q := by
  rw [List.getElem?_set] at h
  by_cases hij : i = j
  · rw [if_pos hij] at h
    split at h
    · exact Or.inl ⟨hij, (Option.some.inj h).symm⟩
    · cases h
  · rw [if_neg hij] at h
    exact Or.inr ⟨hij, h⟩

/-- The invariant after one publication moved on: it keeps what it has drawn, or draws a fresh identifier. -/
theorem Inv.moved (h : Inv digest s) (hp : s.publications[i]? = some p)
    (hjob : p'.job? = p.job? ∨ ∀ job ∈ p'.job?, job.Keyed ∧ ∀ q ∈ s.publications, ∀ job' ∈ q.job?, job'.id ≠ job.id)
    (hverified : ∀ v ∈ p'.verified?, v.2.objectKey = v.1.objectKey ∧ Kept digest s v.2)
    (hregistered : ∀ t ∈ p.registered?, t ∈ p'.registered?) :
    Inv digest { s with publications := s.publications.set i p' } := by
  have hlt : i < s.publications.length := (List.getElem?_eq_some_iff.mp hp).1
  have hat : (s.publications.set i p')[i]? = some p' := by
    rw [List.getElem?_set, if_pos rfl, if_pos hlt]
  refine ⟨?_, ?_, ?_, ?_⟩
  · intro j q hq job hj
    rcases getElem?_set_cases hq with ⟨rfl, rfl⟩ | ⟨_, hq⟩
    · rcases hjob with hsame | hfresh
      · exact h.keyed i p hp job (hsame ▸ hj)
      · exact (hfresh job hj).1
    · exact h.keyed j q hq job hj
  · intro j k q q' hq hq' job hj job' hj' hid
    rcases getElem?_set_cases hq with ⟨rfl, rfl⟩ | ⟨_, hqs⟩ <;>
      rcases getElem?_set_cases hq' with ⟨rfl, rfl⟩ | ⟨_, hqs'⟩
    · rfl
    · rcases hjob with hsame | hfresh
      · exact h.drawn i k p q' hp hqs' job (hsame ▸ hj) job' hj' hid
      · exact absurd hid.symm ((hfresh job hj).2 q' (List.mem_of_getElem? hqs') job' hj')
    · rcases hjob with hsame | hfresh
      · exact h.drawn j i q p hqs hp job hj job' (hsame ▸ hj') hid
      · exact absurd hid ((hfresh job' hj').2 q (List.mem_of_getElem? hqs) job hj)
    · exact h.drawn j k q q' hqs hqs' job hj job' hj' hid
  · intro j q hq v hv
    rcases getElem?_set_cases hq with ⟨rfl, rfl⟩ | ⟨_, hq⟩
    · exact hverified v hv
    · exact h.verified j q hq v hv
  · intro r hr
    obtain ⟨j, q, t, hq, ht, hrow⟩ := h.rows r hr
    by_cases hij : i = j
    · subst hij
      obtain rfl := Option.some.inj (hp.symm.trans hq)
      exact ⟨i, p', t, hat, hregistered t ht, hrow⟩
    · refine ⟨j, q, t, ?_, ht, hrow⟩
      show (s.publications.set i p')[j]? = some q
      rw [List.getElem?_set, if_neg hij]
      exact hq

variable {next : Phase → Option Phase} {answer : Option ScopedObjectGrant}

theorem Inv.advance (h : Inv digest s) (hs : s.advance i next = some t)
    (hnext : ∀ p p', s.publications[i]? = some p → next p = some p' →
      (p'.job? = p.job? ∨ ∀ job ∈ p'.job?, job.Keyed ∧ ∀ q ∈ s.publications, ∀ job' ∈ q.job?, job'.id ≠ job.id) ∧
      (∀ v ∈ p'.verified?, v.2.objectKey = v.1.objectKey ∧ Kept digest s v.2) ∧
      ∀ t ∈ p.registered?, t ∈ p'.registered?) : Inv digest t := by
  obtain ⟨p', hp', rfl⟩ := Option.map_eq_some_iff.mp hs
  obtain ⟨p, hp, hnp⟩ := Option.bind_eq_some_iff.mp hp'
  obtain ⟨hjob, hverified, hregistered⟩ := hnext p p' hp hnp
  exact h.moved hp hjob hverified hregistered

/-- A phase from which nothing was registered, moving to one that registers nothing. -/
theorem Inv.advance_unregistered (h : Inv digest s) (hs : s.advance i next = some t)
    (hnext : ∀ p p', next p = some p' → p'.job? = p.job? ∧ p'.verified? = none ∧ p.registered? = none) :
    Inv digest t := by
  apply h.advance hs
  intro p p' _ hp
  obtain ⟨hjob, hverified, hregistered⟩ := hnext p p' hp
  refine ⟨Or.inl hjob, ?_, ?_⟩
  · intro v hv
    rw [hverified] at hv
    cases hv
  · intro t ht
    rw [hregistered] at ht
    cases ht

theorem searches_spec {rows : List Template} (h : searches rows p = some p') :
    p'.job? = p.job? ∧ p'.verified? = none ∧ p.registered? = none := by
  cases p with
  | searching input =>
    cases h
    by_cases hfound : findVersion rows input = true
    · rw [if_pos hfound]
      exact ⟨rfl, rfl, rfl⟩
    · rw [if_neg hfound]
      exact ⟨rfl, rfl, rfl⟩
  | _ => cases h

theorem exports_spec {answer : Option HostExport} (h : exports answer p = some p') :
    p'.job? = p.job? ∧ p'.verified? = none ∧ p.registered? = none := by
  cases p with
  | exporting job =>
    cases answer with
    | none =>
      cases h
      exact ⟨rfl, rfl, rfl⟩
    | some hostExport =>
      unfold exports at h
      dsimp only at h
      split at h
      · cases h
        exact ⟨rfl, rfl, rfl⟩
      · cases h
        exact ⟨rfl, rfl, rfl⟩
  | _ => cases h

theorem obtainsGrant_spec (h : obtainsGrant answer p = some p') :
    p'.job? = p.job? ∧ p'.verified? = none ∧ p.registered? = none := by
  cases p with
  | granting job artifact =>
    cases answer with
    | none =>
      cases h
      exact ⟨rfl, rfl, rfl⟩
    | some grant =>
      unfold obtainsGrant at h
      dsimp only at h
      split at h
      · cases h
        exact ⟨rfl, rfl, rfl⟩
      · cases h
        exact ⟨rfl, rfl, rfl⟩
  | _ => cases h

theorem uploads_spec {answer : Option Artifact} (h : uploads answer p = some p') :
    p'.job? = p.job? ∧ p'.verified? = none ∧ p.registered? = none := by
  cases p with
  | uploading job artifact =>
    cases answer with
    | none =>
      cases h
      exact ⟨rfl, rfl, rfl⟩
    | some hostArtifact =>
      unfold uploads at h
      dsimp only at h
      split at h
      · cases h
        exact ⟨rfl, rfl, rfl⟩
      · cases h
        exact ⟨rfl, rfl, rfl⟩
  | _ => cases h

theorem Inv.resolved {machine : Option TemplateSourceMachine} {checkedAt now : ℤ} {id hostTemplateName : String}
    (h : Inv digest s) (hfresh : s.Fresh id)
    (hs : s.advance i (resolves machine checkedAt now id hostTemplateName) = some t) : Inv digest t := by
  apply h.advance hs
  intro p p' _ hp
  cases p with
  | resolving input =>
    unfold resolves at hp
    dsimp only at hp
    split at hp
    · cases hp
      exact ⟨Or.inl rfl, forall_mem_none, forall_mem_none⟩
    · split at hp
      · cases hp
        exact ⟨Or.inl rfl, forall_mem_none, forall_mem_none⟩
      · next objectKey hkey =>
        cases hp
        refine ⟨Or.inr ?_, forall_mem_none, forall_mem_none⟩
        intro job hjob
        obtain rfl := Option.some.inj hjob
        exact ⟨⟨hfresh.1, hkey⟩, hfresh.2⟩
  | _ => cases hp

/-- What was verified is what the store held. -/
theorem Inv.verifies {answered : Bool} (h : Inv digest s) (hs : s.stat digest i answered = some t) : Inv digest t := by
  apply h.advance hs
  intro p p' _ hp
  cases p with
  | verifying job artifact =>
    generalize hstored : (if answered = true then (Phase.verifying job artifact).job?.bind fun job =>
      s.statArtifact digest job.objectKey else none) = stored at hp
    unfold Templates.verifies at hp
    cases stored with
    | none =>
      cases hp
      exact ⟨Or.inl rfl, forall_mem_none, forall_mem_none⟩
    | some storedArtifact =>
      dsimp only at hp
      split at hp
      · cases hp
        exact ⟨Or.inl rfl, forall_mem_none, forall_mem_none⟩
      · cases hp
        refine ⟨Or.inl rfl, ?_, forall_mem_none⟩
        intro v hv
        obtain rfl := Option.some.inj hv
        refine ⟨rfl, ?_⟩
        cases answered with
        | false => cases hstored
        | true =>
          obtain ⟨bytes, hbytes, rfl⟩ := Option.map_eq_some_iff.mp hstored
          exact ⟨bytes, hbytes, rfl⟩
  | _ => cases hp

theorem Inv.answered (h : Inv digest s) (hs : s.advance i insertAnswers = some t) : Inv digest t := by
  apply h.advance hs
  intro p p' hi hp
  cases p with
  | inserting job template statement =>
    cases statement with
    | sent => cases hp
    | committed =>
      cases hp
      exact ⟨Or.inl rfl, fun v hv => h.verified i _ hi v hv, fun _ ht => ht⟩
    | refused error =>
      cases hp
      exact ⟨Or.inl rfl, forall_mem_none, forall_mem_none⟩
  | _ => cases hp

/-- The answer that is lost is not that of a committed statement. -/
theorem Inv.lost (h : Inv digest s) (hs : s.advance i insertLoses = some t)
    (hg : s.publications[i]?.any Phase.committed = false) : Inv digest t := by
  apply h.advance hs
  intro p p' hi hp
  cases p with
  | inserting job template statement =>
    cases statement with
    | sent =>
      cases hp
      exact ⟨Or.inl rfl, forall_mem_none, forall_mem_none⟩
    | committed =>
      rw [hi] at hg
      cases hg
    | refused error =>
      cases hp
      exact ⟨Or.inl rfl, forall_mem_none, forall_mem_none⟩
  | _ => cases hp

theorem Inv.executed {accepted : Bool} (h : Inv digest s) (hs : s.executeInsert i accepted = some t)
    (hg : s.publications[i]?.any Phase.abandoned = false) : Inv digest t := by
  obtain ⟨⟨rows, p'⟩, hp', rfl⟩ := Option.map_eq_some_iff.mp hs
  obtain ⟨p, hp, hnp⟩ := Option.bind_eq_some_iff.mp hp'
  have hlt : i < s.publications.length := (List.getElem?_eq_some_iff.mp hp).1
  cases p with
  | inserting job template statement =>
    cases statement with
    | committed => cases hnp
    | refused error => cases hnp
    | sent =>
      have hrefused (error : PublishError) :
          Inv digest { s with publications := s.publications.set i (.inserting job template (.refused error)) } :=
        h.moved hp (Or.inl rfl) (fun v hv => h.verified i _ hp v hv) forall_mem_none
      unfold executes at hnp
      dsimp only at hnp
      split at hnp
      · cases hnp
        exact hrefused versionConflict
      split at hnp
      · cases hnp
        have hmoved : Inv digest { s with publications := s.publications.set i (.inserting job template .committed) } :=
          h.moved hp (Or.inl rfl) (fun v hv => h.verified i _ hp v hv) forall_mem_none
        refine ⟨hmoved.keyed, hmoved.drawn, hmoved.verified, ?_⟩
        intro r hr
        rcases List.mem_append.mp hr with hr | hr
        · exact hmoved.rows r hr
        · obtain rfl := List.mem_singleton.mp hr
          refine ⟨i, .inserting job r .committed, r, ?_, rfl, rfl, rfl⟩
          show (s.publications.set i _)[i]? = _
          rw [List.getElem?_set, if_pos rfl, if_pos hlt]
      · cases hnp
        exact hrefused .database
  | compensating job error running =>
    cases running with
    | none => cases hnp
    | some template =>
      rw [hp] at hg
      cases hg
  | _ => cases hnp

theorem Kept.put {grant : IssuedGrant} {bytes : Bytes} {row : Template} (h : Kept digest s row)
    (hnone : s.object? grant.objectKey = none) :
    Kept digest { s with store := (grant.objectKey, bytes) :: s.store } row := by
  obtain ⟨stored, hstored, hdigest⟩ := h
  refine ⟨stored, ?_, hdigest⟩
  show ((grant.objectKey, bytes) :: s.store).lookup row.objectKey = some stored
  rw [List.lookup_cons]
  by_cases hkey : row.objectKey = grant.objectKey
  · rw [hkey, hnone] at hstored
    cases hstored
  · rw [beq_eq_false_iff_ne.mpr hkey]
    exact hstored

theorem lookup_filter_ne {store : List (String × Bytes)} {key key' : String} (h : key ≠ key') :
    (store.filter fun o => decide (o.1 ≠ key')).lookup key = store.lookup key := by
  induction store with
  | nil => rfl
  | cons o store ih =>
    by_cases ho : o.1 = key'
    · have hne : (key == o.1) = false := beq_eq_false_iff_ne.mpr fun hko => h (hko.trans ho)
      rw [List.filter_cons_of_neg (by simp [ho]), ih, List.lookup_cons, hne]
    · rw [List.filter_cons_of_pos (by simp [ho]), List.lookup_cons, List.lookup_cons, ih]

theorem Inv.put {grant : IssuedGrant} {bytes : Bytes} (h : Inv digest s) (hs : s.putObject digest grant bytes = some t) :
    Inv digest t := by
  unfold State.putObject at hs
  split at hs
  case isFalse => cases hs
  case isTrue hguard =>
    cases hs
    refine ⟨h.keyed, h.drawn, ?_, h.rows⟩
    intro j p hp v hv
    obtain ⟨hkey, hkept⟩ := h.verified j p hp v hv
    exact ⟨hkey, hkept.put hguard.2.2.2⟩

theorem Phase.compensates_of_deletes {key : String} (h : p.deletes? = some key) :
    ∃ job error running, p = .compensating job error running ∧ job.objectKey = key := by
  cases p with
  | compensating job error running => exact ⟨job, error, running, rfl, Option.some.inj h⟩
  | _ => cases h

/-- A publication that failed deletes no object but its own. -/
theorem Inv.deleted (h : Inv digest s) (hs : s.deleteObject i = some t) : Inv digest t := by
  obtain ⟨key, hkey, rfl⟩ := Option.map_eq_some_iff.mp hs
  obtain ⟨p, hp, hdeletes⟩ := Option.bind_eq_some_iff.mp hkey
  obtain ⟨job, error, running, rfl, rfl⟩ := Phase.compensates_of_deletes hdeletes
  refine ⟨h.keyed, h.drawn, ?_, h.rows⟩
  intro j q hq v hv
  obtain ⟨hown, bytes, hbytes, hdigest⟩ := h.verified j q hq v hv
  have hv' := Phase.job_of_verified hv
  refine ⟨hown, bytes, ?_, hdigest⟩
  have hne : v.2.objectKey ≠ job.objectKey := by
    intro heq
    have hjob := h.keyed i _ hp job rfl
    have hother := h.keyed j q hq v.1 hv'
    have hid : v.1.id = job.id := by
      apply safeObjectKey_inj hother.id hjob.id hother.objectKey
      rw [← hown, heq]
      exact hjob.objectKey
    obtain rfl := h.drawn j i q _ hq hp v.1 hv' job rfl hid
    obtain rfl := Option.some.inj (hp.symm.trans hq)
    cases hv
  exact (lookup_filter_ne hne).trans hbytes

theorem Inv.removed (h : Inv digest s) (id : String) : Inv digest (s.remove id) := by
  refine ⟨h.keyed, h.drawn, h.verified, ?_⟩
  intro r' hr'
  obtain ⟨r, hr, rfl⟩ := List.mem_map.mp hr'
  obtain ⟨j, p, t, hp, ht, hkey, hmanifest⟩ := h.rows r hr
  refine ⟨j, p, t, hp, ht, ?_⟩
  split
  · exact ⟨hkey, hmanifest⟩
  · exact ⟨hkey, hmanifest⟩

theorem Inv.published (h : Inv digest s) (input : PublishInput) :
    Inv digest { s with publications := s.publications ++ [publishStarts s.configured input] } := by
  have hstart : (publishStarts s.configured input).job? = none ∧ (publishStarts s.configured input).verified? = none := by
    unfold publishStarts
    split
    · exact ⟨rfl, rfl⟩
    · exact ⟨rfl, rfl⟩
  have hold {j : ℕ} {q : Phase} (hq : (s.publications ++ [publishStarts s.configured input])[j]? = some q) :
      s.publications[j]? = some q ∨ q = publishStarts s.configured input := by
    rw [List.getElem?_append] at hq
    split at hq
    · exact Or.inl hq
    · exact Or.inr (List.mem_singleton.mp (List.mem_of_getElem? hq))
  refine ⟨?_, ?_, ?_, ?_⟩
  · intro j q hq job hjob
    rcases hold hq with hq | rfl
    · exact h.keyed j q hq job hjob
    · exact nomatch hstart.1.symm.trans hjob
  · intro j k q q' hq hq' job hjob job' hjob' hid
    rcases hold hq with hqs | rfl
    · rcases hold hq' with hqs' | rfl
      · exact h.drawn j k q q' hqs hqs' job hjob job' hjob' hid
      · exact nomatch hstart.1.symm.trans hjob'
    · exact nomatch hstart.1.symm.trans hjob
  · intro j q hq v hv
    rcases hold hq with hq | rfl
    · exact h.verified j q hq v hv
    · exact nomatch hstart.2.symm.trans hv
  · intro r hr
    obtain ⟨j, p, t, hp, hrow⟩ := h.rows r hr
    exact ⟨j, p, t, (List.getElem?_append_left (List.getElem?_eq_some_iff.mp hp).1).trans hp, hrow⟩

theorem Inv.granted (h : Inv digest s) (hs : s.grant i answer = some t) : Inv digest t := by
  unfold State.grant at hs
  split at hs
  case h_2 => cases hs
  case h_1 job artifact hp =>
    have hgrants : Inv digest { s with grants := ⟨job.objectKey, artifact⟩ :: s.grants } :=
      ⟨h.keyed, h.drawn, h.verified, h.rows⟩
    exact hgrants.advance_unregistered hs fun _ _ => obtainsGrant_spec

theorem Inv.step {a : Action} (h : Inv digest s) (hs : step digest s a = some t) (hg : Answered s a t) : Inv digest t := by
  cases a with
  | publish input =>
    cases hs
    exact h.published input
  | search i => exact h.advance_unregistered hs fun _ _ => searches_spec
  | resolve i machine checkedAt now id hostTemplateName =>
    unfold Templates.step at hs
    dsimp only at hs
    split at hs
    case isFalse => cases hs
    case isTrue hfresh => exact h.resolved hfresh hs
  | exported i answer => exact h.advance_unregistered hs fun _ _ => exports_spec
  | granted i answer => exact h.granted hs
  | putObject grant bytes => exact h.put hs
  | uploaded i answer => exact h.advance_unregistered hs fun _ _ => uploads_spec
  | stat i answered => exact h.verifies hs
  | executeInsert i accepted => exact h.executed hs hg
  | insertAnswered i => exact h.answered hs
  | insertLost i => exact h.lost hs hg
  | deleteObject i => exact h.deleted hs
  | remove id =>
    cases hs
    exact h.removed id

theorem inv_initial (configured : Bool) : Inv digest (initial configured) where
  keyed _ _ hp := nomatch hp
  drawn _ _ _ _ hp := nomatch hp
  verified _ _ hp := nomatch hp
  rows _ hr := nomatch hr

theorem Inv.kept (h : Inv digest s) {row : Template} (hrow : row ∈ s.rows) : Kept digest s row := by
  obtain ⟨i, p, t, hp, ht, hkey, hmanifest⟩ := h.rows row hrow
  obtain ⟨job, hv⟩ := Phase.verified_of_registered ht
  obtain ⟨_, bytes, hbytes, hdigest⟩ := h.verified i p hp (job, t) hv
  exact ⟨bytes, by rw [hkey]; exact hbytes, by rw [hmanifest]; exact hdigest⟩

/-- **Registered templates keep their artifacts.**  In every run in which no `INSERT` that commits fails without the
answer of the database, the object of each row exists and has the row's checksum. -/
theorem registered_artifact_kept {configured : Bool} {actions : List Action}
    (h : RunIn (fun s a t => Templates.step digest s a = some t) Answered (initial configured) actions s)
    {row : Template} (hrow : row ∈ s.rows) : Kept digest s row :=
  (h.invariant (fun _ _ _ hi hs hg => hi.step hs hg) (inv_initial configured)).kept hrow

end Invariant

/-! ## Two publications under one name -/

/-- A digest in the format of the store; every object has it. -/
def sampleDigest (_ : Bytes) : String := "sha256:0000000000000000000000000000000000000000000000000000000000000000"

def sampleInput : PublishInput := ⟨"org", "project", "m_source", " python-ml ", "1.0.0"⟩

def sampleMachine : TemplateSourceMachine :=
  ⟨"m_source", "org", "project", "running", true, .x86_64, some "host", some "10.0.0.1", some "hm", 1000000⟩

def sampleArtifact : Artifact := ⟨sampleDigest [], 1⟩

def sampleGrant : ScopedObjectGrant := ⟨.put, some ⟨"https:", "", ""⟩, 600000⟩

def sampleKey : String :=
  "organizations/org/projects/project/templates/python-ml/1.0.0/00000000-0000-4000-8000-000000000001/snapshot.tar.zst"

/-- Publication `i` up to the `INSERT` statement that it sends. -/
def upToInsert (i : ℕ) (id exportId key : String) : List Action :=
  [.resolve i (some sampleMachine) 0 0 id ("t-" ++ exportId), .exported i (some ⟨exportId, sampleArtifact⟩),
    .granted i (some sampleGrant), .putObject ⟨key, sampleArtifact⟩ [7], .uploaded i (some sampleArtifact), .stat i true]

def samplePublish : List Action :=
  [.publish sampleInput, .publish sampleInput, .search 0, .search 1] ++
    upToInsert 0 "00000000-0000-4000-8000-000000000001" "te_00000000000040008000000000000001" sampleKey

/-- The second publication is refused by the unique constraint and deletes its own object only. -/
theorem registered_artifact_kept_sample : ∃ s : State, s.publications.length = 2 ∧
    ∃ row ∈ s.rows, row.deleted = false ∧ Kept sampleDigest s row := by
  have hrun : ∃ s, RunIn (fun s a t => step sampleDigest s a = some t) Answered (initial true)
      (samplePublish ++ [.executeInsert 0 true] ++
        upToInsert 1 "00000000-0000-4000-8000-000000000002" "te_00000000000040008000000000000002"
          "organizations/org/projects/project/templates/python-ml/1.0.0/00000000-0000-4000-8000-000000000002/snapshot.tar.zst"
        ++ [.insertAnswered 0, .executeInsert 1 true, .insertAnswered 1, .deleteObject 1]) s ∧
      (s.publications.length = 2 ∧ ∃ row ∈ s.rows, row.deleted = false) := RunIn.of_test (by decide +kernel)
  obtain ⟨s, hrun, hlength, row, hrow, hdeleted⟩ := hrun
  exact ⟨s, hlength, row, hrow, hdeleted, registered_artifact_kept hrun hrow⟩

/-- The answer to a committed `INSERT` is lost, and the compensation deletes the object that its row names. -/
theorem registered_artifact_lost : ∃ actions s, Run (fun s a t => step sampleDigest s a = some t) (initial true) actions s ∧
    ∃ row ∈ s.rows, row.deleted = false ∧ ¬Kept sampleDigest s row := by
  have hrun : ∃ s, Run (fun s a t => step sampleDigest s a = some t) (initial true)
      (samplePublish ++ [.executeInsert 0 true, .insertLost 0, .deleteObject 0]) s ∧
      ∃ row ∈ s.rows, row.deleted = false ∧ s.object? row.objectKey = none := Run.of_test (by decide +kernel)
  obtain ⟨s, hrun, row, hrow, hdeleted, hnone⟩ := hrun
  refine ⟨_, s, hrun, row, hrow, hdeleted, ?_⟩
  rintro ⟨bytes, hbytes, _⟩
  exact nomatch hnone.symm.trans hbytes

end Nehemiah.Templates
