import Nehemiah.Billing.Store
import Nehemiah.Lib.Run
import Nehemiah.Lib.Table

/-!
# Host trust

The rows of `hosts` and `host_enrollment_grants` as the lifecycle of a host writes them: enrolment, rotation,
drain, activation, quarantine and revocation by an operator, the heartbeat, the sweep of stale hosts and the
quarantine of the metering path.  A host-authenticated call is two steps, `authenticateGeneration` and then the
statement that does its work, and anything may happen between the two.

A credential is the secret that `newHostCredential` draws.  The row keeps its hash, and the hash verifies no
other secret, so the model keeps the secret itself; no two draws are the same.

Every statement on a row only moves it forward (`HostRow.Follows`): a new credential raises the generation, and
without a new credential a revoked one stays revoked; `host_trust_monotone` says it of runs.
-/

namespace Nehemiah.Trust

open Billing (HostState HostDesiredState CredentialStatus)
open Lib

/-! ### Tables -/

structure RuntimeCohort where
  id : String
  contractVersion : ℕ
  arch : String
  kernelSha256 : String
  firecrackerSha256 : String
  jailerSha256 : String
  pythonRootfsSha256 : String
  desktopRootfsSha256 : String
  deriving DecidableEq

/-- What a grant is issued for and a registration presents. -/
structure HostIdentity where
  providerId : String
  regionId : String
  address : String
  architecture : String
  totalVcpus : ℕ
  totalMemoryMb : ℕ
  totalDiskMb : ℕ
  runtimeCohort : RuntimeCohort
  deriving DecidableEq

/-- A secret of `newHostCredential`. -/
abbrev Credential := String

/-- `hosts`, without the columns that record capacity and the reasons and times of lifecycle changes. -/
structure HostRow where
  id : String
  identity : HostIdentity
  state : HostState
  desiredState : HostDesiredState
  credentialHash : Option Credential
  credentialGeneration : ℕ
  credentialStatus : CredentialStatus
  enrollmentCompletedAt : Option ℕ
  lastHeartbeatAt : Option ℕ
  lastMeteringBatchAt : Option ℕ

/-- `host_enrollment_grants`. -/
structure GrantRow where
  id : String
  token : String
  hostId : String
  identity : HostIdentity
  expiresAt : ℕ
  consumedAt : Option ℕ
  revokedAt : Option ℕ

def GrantRow.open (g : GrantRow) : Bool := g.consumedAt.isNone && g.revokedAt.isNone

structure HostHeartbeat where
  state : HostState
  availableVcpus : ℕ
  availableMemoryMb : ℕ
  availableDiskMb : ℕ
  machineCount : ℕ
  kvmAvailable : Bool
  daemonVersion : String
  runtimeCohort : RuntimeCohort

structure Db where
  /-- The enabled regions. -/
  regions : List String
  hosts : List HostRow
  grants : List GrantRow

/-! ### Statements -/

/-- The credential of the row is one that the host may use. -/
def HostRow.trusted (row : HostRow) : Bool :=
  (row.desiredState == .active || row.desiredState == .draining) && row.credentialStatus == .active

namespace Db

variable (db : Db)

def host? (hostId : String) : Option HostRow := db.hosts.find? fun row => decide (row.id = hostId)

/-- `UPDATE hosts SET … WHERE id = $1 AND …`. -/
def updateHost (hostId : String) (guard : HostRow → Bool) (set : HostRow → HostRow) : Db :=
  { db with hosts := updateWhere (fun row => decide (row.id = hostId) && guard row) set db.hosts }

/-! The operations of an operator. -/

def drain (hostId : String) : Db :=
  db.updateHost hostId
    (fun row => row.desiredState != .quarantined && row.desiredState != .revoked && row.credentialStatus == .active)
    fun row => { row with
      desiredState := .draining, state := if row.state = .ready then .draining else .unhealthy }

def activate (hostId : String) : Db :=
  db.updateHost hostId (fun row => row.desiredState != .revoked && row.credentialStatus == .active)
    fun row => { row with desiredState := .active, state := .unhealthy }

def quarantine (hostId : String) : Db :=
  db.updateHost hostId (fun row => row.desiredState != .revoked)
    fun row => { row with
      desiredState := .quarantined, state := .stale, credentialStatus := .revoked, credentialHash := none }

def revoke (hostId : String) : Db :=
  db.updateHost hostId (fun _ => true)
    fun row => { row with
      desiredState := .revoked, state := .stale, credentialStatus := .revoked, credentialHash := none }

def rotateCredentials (hostId : String) (credential : Credential) : Db :=
  db.updateHost hostId (fun row => row.desiredState != .revoked)
    fun row => { row with
      desiredState := if row.desiredState = .quarantined then .quarantined else .draining,
      state := if row.desiredState = .quarantined then .stale else .unhealthy,
      credentialHash := some credential, credentialGeneration := row.credentialGeneration + 1,
      credentialStatus := .active }

/-- `quarantineHost` of the metering path. -/
def quarantineHost (hostId : String) : Db :=
  db.updateHost hostId (fun row => row.desiredState != .quarantined && row.desiredState != .revoked)
    fun row => { row with
      desiredState := .quarantined, state := .stale, credentialGeneration := row.credentialGeneration + 1,
      credentialStatus := .revoked, credentialHash := none }

def markStale (now staleAfter : ℕ) : Db :=
  { db with
    hosts := updateWhere (fun row => row.state != .stale && row.trusted
        && row.lastHeartbeatAt.all fun at' => decide (at' + staleAfter < now))
      (fun row => { row with state := .stale }) db.hosts }

/-! Enrolment. -/

/-- `issueEnrollment`; `none` when it throws. -/
def issueEnrollment (now : ℕ) (id token reservedHostId : String) (identity : HostIdentity) (ttl : ℕ) : Option Db :=
  let existing := db.hosts.find? fun row => row.identity.providerId == identity.providerId
  if !db.regions.contains identity.regionId || existing.any fun row => row.enrollmentCompletedAt.isSome
      || row.desiredState != .active || row.credentialStatus != .active || row.identity.regionId != identity.regionId
      || row.identity.address != identity.address || row.identity.architecture != identity.architecture then none
  else
    let hostId := (existing.map (·.id)).getD reservedHostId
    let grants := updateWhere (fun g => g.open && g.identity.providerId == identity.providerId)
      (fun g => { g with revokedAt := some now }) db.grants
    -- The open grants have distinct hosts and addresses.
    if grants.any fun g => g.id == id || g.token == token
        || g.open && (g.hostId == hostId || g.identity.address == identity.address) then none
    else some { db with grants := grants ++ [⟨id, token, hostId, identity, now + ttl, none, none⟩] }

def revokeEnrollment (now : ℕ) (grantId : String) : Db :=
  { db with
    grants := updateWhere (fun g => decide (g.id = grantId) && g.open)
      (fun g => { g with revokedAt := some now }) db.grants }

/-- The row of a host that is registered for the first time. -/
def newHost (hostId : String) (identity : HostIdentity) (credential : Credential) : HostRow :=
  { id := hostId, identity, state := .unhealthy, desiredState := .active, credentialHash := some credential,
    credentialGeneration := 1, credentialStatus := .active, enrollmentCompletedAt := none, lastHeartbeatAt := none,
    lastMeteringBatchAt := none }

/-- The `WHERE` of the upsert. -/
def registers (hostId : String) (row : HostRow) : Bool :=
  row.id == hostId && row.enrollmentCompletedAt.isNone && row.desiredState == .active
    && row.credentialStatus == .active

/-- `register`; `none` when it throws and changes nothing.  A grant is consumed also when its host is no longer
one that registers. -/
def register (now : ℕ) (token : String) (identity : HostIdentity) (credential : Credential) : Option Db :=
  match db.grants.find? fun g => g.token == token && g.open && decide (now < g.expiresAt)
      && g.identity == identity with
  | none => none
  | some grant =>
    let grants := updateWhere (fun g => g.token == token) (fun g => { g with consumedAt := some now }) db.grants
    match db.hosts.find? fun row => row.identity.providerId == identity.providerId with
    | none =>
      if db.hosts.any fun row => row.id == grant.hostId || row.identity.address == identity.address then none
      else some { db with grants, hosts := db.hosts ++ [newHost grant.hostId identity credential] }
    | some existing =>
      if registers grant.hostId existing then
        if existing.identity.runtimeCohort ≠ identity.runtimeCohort
            || db.hosts.any fun row => row.id != existing.id && row.identity.address == identity.address then none
        else some (updateHost { db with grants } existing.id (registers grant.hostId) fun row => { row with
          identity := identity, state := .unhealthy, credentialHash := some credential,
          credentialGeneration := row.credentialGeneration + 1, credentialStatus := .active })
      else some { db with grants }

/-! Host-authenticated calls. -/

/-- `authenticateGeneration`. -/
def authenticateGeneration (hostId : String) (credential : Credential) : Option ℕ :=
  match db.host? hostId with
  | some row =>
    if row.state != .stale && row.trusted && row.credentialHash == some credential then
      some row.credentialGeneration
    else none
  | none => none

/-- The row that a heartbeat is for. -/
def heartbeatHost (hostId : String) (credentialGeneration : ℕ) : Option HostRow :=
  (db.host? hostId).filter fun row => row.state != .stale && row.trusted
    && row.credentialGeneration == credentialGeneration

/-- `heartbeat`, after its checks of the single values. -/
def heartbeat (now : ℕ) (hostId : String) (beat : HostHeartbeat) (credentialGeneration : ℕ) : Db :=
  match db.heartbeatHost hostId credentialGeneration with
  | none => db
  | some row =>
    if row.identity.runtimeCohort = beat.runtimeCohort ∧ beat.availableVcpus ≤ row.identity.totalVcpus
        ∧ beat.availableMemoryMb ≤ row.identity.totalMemoryMb ∧ beat.availableDiskMb ≤ row.identity.totalDiskMb
        ∧ row.lastHeartbeatAt.all (fun at' => decide (at' + 5000000 ≤ now)) then
      let reported : HostState := if beat.kvmAvailable then beat.state else .unhealthy
      db.updateHost hostId (fun _ => true) fun row => { row with
        state :=
          if row.state = .stale then .stale
          else if reported = .unhealthy then .unhealthy
          else if row.desiredState = .draining then .draining
          else reported,
        lastHeartbeatAt := some now,
        enrollmentCompletedAt := some (row.enrollmentCompletedAt.getD now) }
    else db

/-- The row that a batch of observations is from. -/
def meteringHost (hostId : String) (credentialGeneration : ℕ) : Option HostRow :=
  (db.host? hostId).filter fun row => row.trusted && row.credentialGeneration == credentialGeneration

/-- What `ingest` does to the host: it notes the batch, and quarantines the host when the batch violates the
integrity of its metering. -/
def ingest (now minimumBatchInterval : ℕ) (hostId : String) (credentialGeneration : ℕ) (violated : Bool) : Db :=
  match db.meteringHost hostId credentialGeneration with
  | none => db
  | some row =>
    if row.lastMeteringBatchAt.all fun at' => decide (at' + minimumBatchInterval ≤ now) then
      let noted := db.updateHost hostId (fun _ => true) fun row => { row with lastMeteringBatchAt := some now }
      if violated then noted.quarantineHost hostId else noted
    else db

end Db

/-! ### The system -/

/-- A call that `authenticateGeneration` has let in. -/
structure HostCall where
  hostId : String
  credential : Credential
  generation : ℕ
  deriving DecidableEq

/-- A credential that a host was given, with its generation. -/
structure Issue where
  hostId : String
  generation : ℕ
  credential : Credential
  deriving DecidableEq

/-- The database, the calls in progress, and the history of the credentials. -/
structure State where
  now : ℕ
  db : Db
  calls : List HostCall
  issued : List Issue

inductive Action
  | elapse (duration : ℕ)
  | issueEnrollment (id token reservedHostId : String) (identity : HostIdentity) (ttl : ℕ)
  | revokeEnrollment (grantId : String)
  | register (token : String) (identity : HostIdentity) (credential : Credential)
  | drain (hostId : String)
  | activate (hostId : String)
  | quarantine (hostId : String)
  | revoke (hostId : String)
  | rotateCredentials (hostId : String) (credential : Credential)
  | markStale (staleAfter : ℕ)
  | authenticate (hostId : String) (credential : Credential)
  /-- The `k`-th call is a heartbeat. -/
  | heartbeat (k : ℕ) (beat : HostHeartbeat)
  /-- The `k`-th call is a batch of observations. -/
  | ingest (k minimumBatchInterval : ℕ) (violated : Bool)

/-- The rows that hold the credential. -/
def Db.issues (db : Db) (credential : Credential) : List Issue :=
  (db.hosts.filter fun row => row.credentialHash == some credential).map
    fun row => ⟨row.id, row.credentialGeneration, credential⟩

namespace State

def initial (regions : List String) : State := ⟨0, ⟨regions, [], []⟩, [], []⟩

variable (s : State)

/-- The credential has not been drawn before. -/
def fresh (credential : Credential) : Bool := s.issued.all fun x => x.credential != credential

/-- A new credential is written. -/
def issue (credential : Credential) (db : Db) : State :=
  { s with db, issued := s.issued ++ db.issues credential }

def step : Action → Option State
  | .elapse duration => some { s with now := s.now + duration }
  | .issueEnrollment id token reservedHostId identity ttl =>
    (s.db.issueEnrollment s.now id token reservedHostId identity ttl).map fun db => { s with db }
  | .revokeEnrollment grantId => some { s with db := s.db.revokeEnrollment s.now grantId }
  | .register token identity credential =>
    if s.fresh credential then (s.db.register s.now token identity credential).map (s.issue credential) else none
  | .drain hostId => some { s with db := s.db.drain hostId }
  | .activate hostId => some { s with db := s.db.activate hostId }
  | .quarantine hostId => some { s with db := s.db.quarantine hostId }
  | .revoke hostId => some { s with db := s.db.revoke hostId }
  | .rotateCredentials hostId credential =>
    if s.fresh credential then some (s.issue credential (s.db.rotateCredentials hostId credential)) else none
  | .markStale staleAfter => some { s with db := s.db.markStale s.now staleAfter }
  | .authenticate hostId credential =>
    (s.db.authenticateGeneration hostId credential).map fun generation =>
      { s with calls := s.calls ++ [⟨hostId, credential, generation⟩] }
  | .heartbeat k beat =>
    s.calls[k]?.map fun call => { s with
      calls := s.calls.eraseIdx k, db := s.db.heartbeat s.now call.hostId beat call.generation }
  | .ingest k minimumBatchInterval violated =>
    s.calls[k]?.map fun call => { s with
      calls := s.calls.eraseIdx k,
      db := s.db.ingest s.now minimumBatchInterval call.hostId call.generation violated }

end State

/-! ### Rows only move forward -/

/-- What a statement may do to a row. -/
structure HostRow.Follows (row row' : HostRow) : Prop where
  id : row'.id = row.id
  generation : row.credentialGeneration ≤ row'.credentialGeneration
  revoked : row.desiredState = .revoked → row'.desiredState = .revoked
  status : row'.credentialGeneration = row.credentialGeneration → row.credentialStatus = .revoked →
    row'.credentialStatus = .revoked

theorem HostRow.Follows.refl (row : HostRow) : row.Follows row := ⟨rfl, le_rfl, fun h => h, fun _ h => h⟩

theorem HostRow.Follows.trans {row row' row'' : HostRow} (h : row.Follows row') (h' : row'.Follows row'') :
    row.Follows row'' where
  id := h'.id.trans h.id
  generation := h.generation.trans h'.generation
  revoked := fun hrow => h'.revoked (h.revoked hrow)
  status := fun hgen hrow => by
    have heq : row'.credentialGeneration = row.credentialGeneration :=
      le_antisymm (h'.generation.trans hgen.le) h.generation
    exact h'.status (hgen.trans heq.symm) (h.status heq hrow)

/-- What a statement may do to the hosts; `new` is the credential that it writes, and the host it is for. -/
structure Db.Moves (db db' : Db) (new : Option (String × Credential)) : Prop where
  key : (db.hosts.map (·.id)).Nodup → (db'.hosts.map (·.id)).Nodup
  forward : ∀ row ∈ db.hosts, ∃ row' ∈ db'.hosts, row.Follows row'
  held : ∀ row' ∈ db'.hosts, ∀ c, row'.credentialHash = some c → new = some (row'.id, c) ∨
    ∃ row ∈ db.hosts, row.id = row'.id ∧ row.credentialGeneration = row'.credentialGeneration ∧
      row.credentialHash = some c

namespace Db

variable {db db' db'' : Db} {new : Option (String × Credential)} {hostId : String} {credential : Credential}
  {guard : HostRow → Bool} {set : HostRow → HostRow}

theorem Moves.of_hosts (h : db'.hosts = db.hosts) : db.Moves db' none := by
  refine ⟨by rw [h]; exact id, fun row hrow => ⟨row, by rw [h]; exact hrow, .refl row⟩, fun row' hrow' c hc => ?_⟩
  rw [h] at hrow'
  exact Or.inr ⟨row', hrow', rfl, rfl, hc⟩

/-- A statement may also write less than it could. -/
theorem Moves.weaken (h : db.Moves db' none) : db.Moves db' new :=
  ⟨h.key, h.forward, fun row' hrow' c hc => Or.inr ((h.held row' hrow' c hc).resolve_left fun hnew => nomatch hnew)⟩

theorem Moves.trans (h : db.Moves db' none) (h' : db'.Moves db'' none) : db.Moves db'' none := by
  refine ⟨fun hn => h'.key (h.key hn), fun row hrow => ?_, fun row'' hrow'' c hc => ?_⟩
  · obtain ⟨row', hrow', hfollows⟩ := h.forward row hrow
    obtain ⟨row'', hrow'', hfollows'⟩ := h'.forward row' hrow'
    exact ⟨row'', hrow'', hfollows.trans hfollows'⟩
  · obtain hnew | ⟨row', hrow', hid, hgen, hhash⟩ := h'.held row'' hrow'' c hc
    · exact nomatch hnew
    obtain hnew | ⟨row, hrow, hid', hgen', hhash'⟩ := h.held row' hrow' c hhash
    · exact nomatch hnew
    exact Or.inr ⟨row, hrow, hid'.trans hid, hgen'.trans hgen, hhash'⟩

/-- An update of rows, by what it does to one. -/
theorem moves_updateWhere (p : HostRow → Bool) (hosts : db'.hosts = updateWhere p set db.hosts)
    (hfollows : ∀ row, p row = true → row.Follows (set row))
    (hhash : ∀ row, p row = true → ∀ c, (set row).credentialHash = some c → new = some (row.id, c) ∨
      row.credentialGeneration = (set row).credentialGeneration ∧ row.credentialHash = some c)
    (hid : ∀ row, (set row).id = row.id) : db.Moves db' new := by
  refine ⟨fun hn => ?_, fun row hrow => ?_, fun row' hrow' c hc => ?_⟩
  · rw [hosts, map_updateWhere hid]
    exact hn
  · refine ⟨if p row then set row else row, by rw [hosts]; exact mem_updateWhere.mpr ⟨row, hrow, rfl⟩, ?_⟩
    split_ifs with hp
    exacts [hfollows row hp, .refl row]
  · rw [hosts] at hrow'
    obtain ⟨row, hrow, rfl⟩ := mem_updateWhere.mp hrow'
    split_ifs at hc ⊢ with hp
    · rcases hhash row hp c hc with hnew | ⟨hgen, hsame⟩
      · rw [hid]
        exact Or.inl hnew
      · exact Or.inr ⟨row, hrow, (hid row).symm, hgen, hsame⟩
    · exact Or.inr ⟨row, hrow, rfl, rfl, hc⟩

theorem moves_updateHost (hfollows : ∀ row, guard row = true → row.Follows (set row))
    (hhash : ∀ row, guard row = true → ∀ c, (set row).credentialHash = some c → new = some (hostId, c) ∨
      row.credentialGeneration = (set row).credentialGeneration ∧ row.credentialHash = some c)
    (hid : ∀ row, (set row).id = row.id) : db.Moves (db.updateHost hostId guard set) new :=
  moves_updateWhere _ rfl (fun row hp => hfollows row (Bool.and_eq_true_iff.mp hp).2)
    (fun row hp c hc => by
      obtain ⟨hrow, hg⟩ := Bool.and_eq_true_iff.mp hp
      rw [of_decide_eq_true hrow]
      exact hhash row hg c hc) hid

/-- An update that writes no credential and leaves the generation alone. -/
theorem moves_lifecycle (hid : ∀ row, (set row).id = row.id)
    (hgen : ∀ row, (set row).credentialGeneration = row.credentialGeneration)
    (hrevoked : ∀ row, guard row = true → row.desiredState = .revoked → (set row).desiredState = .revoked)
    (hstatus : ∀ row, guard row = true → row.credentialStatus = .revoked → (set row).credentialStatus = .revoked)
    (hhash : ∀ row, (set row).credentialHash = none ∨ (set row).credentialHash = row.credentialHash) :
    db.Moves (db.updateHost hostId guard set) none := by
  refine moves_updateHost (fun row hg => ⟨hid row, (hgen row).ge, hrevoked row hg, fun _ => hstatus row hg⟩)
    (fun row _ c hc => Or.inr ⟨(hgen row).symm, ?_⟩) hid
  rcases hhash row with hnone | hsame
  · rw [hnone] at hc
    exact nomatch hc
  · rw [← hsame, hc]

theorem drain_moves : db.Moves (db.drain hostId) none :=
  moves_lifecycle (fun _ => rfl) (fun _ => rfl) (fun row hg hr => by simp [hr] at hg) (fun _ _ h => h)
    fun _ => Or.inr rfl

theorem activate_moves : db.Moves (db.activate hostId) none :=
  moves_lifecycle (fun _ => rfl) (fun _ => rfl) (fun row hg hr => by simp [hr] at hg) (fun _ _ h => h)
    fun _ => Or.inr rfl

theorem quarantine_moves : db.Moves (db.quarantine hostId) none :=
  moves_lifecycle (fun _ => rfl) (fun _ => rfl) (fun row hg hr => by simp [hr] at hg) (fun _ _ _ => rfl)
    fun _ => Or.inl rfl

theorem revoke_moves : db.Moves (db.revoke hostId) none :=
  moves_lifecycle (fun _ => rfl) (fun _ => rfl) (fun _ _ _ => rfl) (fun _ _ _ => rfl) fun _ => Or.inl rfl

theorem rotateCredentials_moves :
    db.Moves (db.rotateCredentials hostId credential) (some (hostId, credential)) :=
  moves_updateHost (fun row hg => ⟨rfl, Nat.le_succ _, fun hr => by simp [hr] at hg,
    fun hgen => absurd hgen (Nat.succ_ne_self _)⟩) (fun _ _ c hc => Or.inl (by rw [Option.some.inj hc])) fun _ => rfl

theorem quarantineHost_moves : db.Moves (db.quarantineHost hostId) none :=
  moves_updateHost (fun row hg => ⟨rfl, Nat.le_succ _, fun hr => by simp [hr] at hg,
    fun hgen => absurd hgen (Nat.succ_ne_self _)⟩) (fun _ _ _ hc => nomatch hc) fun _ => rfl

theorem markStale_moves (now staleAfter : ℕ) : db.Moves (db.markStale now staleAfter) none :=
  moves_updateWhere _ rfl (fun _ _ => ⟨rfl, le_rfl, fun h => h, fun _ h => h⟩) (fun _ _ _ hc => Or.inr ⟨rfl, hc⟩)
    fun _ => rfl

theorem heartbeat_moves (now : ℕ) (hostId : String) (beat : HostHeartbeat) (generation : ℕ) :
    db.Moves (db.heartbeat now hostId beat generation) none := by
  rw [heartbeat]
  split
  · exact .of_hosts rfl
  · split
    · exact moves_lifecycle (fun _ => rfl) (fun _ => rfl) (fun _ _ h => h) (fun _ _ h => h) fun _ => Or.inr rfl
    · exact .of_hosts rfl

theorem ingest_moves (now interval : ℕ) (hostId : String) (generation : ℕ) (violated : Bool) :
    db.Moves (db.ingest now interval hostId generation violated) none := by
  have hnoted : db.Moves (db.updateHost hostId (fun _ => true) fun row =>
      { row with lastMeteringBatchAt := some now }) none :=
    moves_lifecycle (fun _ => rfl) (fun _ => rfl) (fun _ _ h => h) (fun _ _ h => h) fun _ => Or.inr rfl
  rw [ingest]
  split
  · exact .of_hosts rfl
  · split_ifs
    · exact hnoted.trans quarantineHost_moves
    · exact hnoted
    · exact .of_hosts rfl

theorem issueEnrollment_hosts {now ttl : ℕ} {id token reservedHostId : String} {identity : HostIdentity}
    (h : db.issueEnrollment now id token reservedHostId identity ttl = some db') : db'.hosts = db.hosts := by
  simp only [issueEnrollment] at h
  split_ifs at h
  cases h
  rfl

theorem register_moves {now : ℕ} {token : String} {identity : HostIdentity}
    (h : db.register now token identity credential = some db') :
    ∃ hostId, db.Moves db' (some (hostId, credential)) := by
  simp only [register] at h
  split at h
  · cases h
  next grant _ =>
  split at h
  · split_ifs at h with hany
    cases h
    have hnew : ∀ row ∈ db.hosts, row.id ≠ grant.hostId := by
      intro row hrow heq
      exact hany (List.any_eq_true.mpr ⟨row, hrow, by simp [heq]⟩)
    refine ⟨grant.hostId, fun hn => ?_, fun row hrow => ⟨row, List.mem_append_left _ hrow, .refl row⟩,
      fun row' hrow' c hc => ?_⟩
    · rw [List.map_append, List.map_singleton]
      refine List.nodup_append.mpr ⟨hn, List.nodup_singleton _, fun a ha b hb => ?_⟩
      obtain ⟨row, hrow, rfl⟩ := List.mem_map.mp ha
      rw [List.mem_singleton.mp hb]
      exact hnew row hrow
    · rcases List.mem_append.mp hrow' with hrow' | hrow'
      · exact Or.inr ⟨row', hrow', rfl, rfl, hc⟩
      · rw [List.mem_singleton.mp hrow'] at hc ⊢
        exact Or.inl (by rw [Option.some.inj hc]; rfl)
  · next existing _ =>
    split_ifs at h with hreg hother
    · cases h
      refine ⟨existing.id, moves_updateWhere _ rfl (fun row hp => ?_) (fun row hp c hc => ?_) fun _ => rfl⟩
      · have hg := (Bool.and_eq_true_iff.mp hp).2
        simp only [registers, Bool.and_eq_true, beq_iff_eq] at hg
        exact ⟨rfl, Nat.le_succ _, fun hr => by simp [hr] at hg, fun hgen => absurd hgen (Nat.succ_ne_self _)⟩
      · rw [of_decide_eq_true (Bool.and_eq_true_iff.mp hp).1]
        exact Or.inl (by rw [Option.some.inj hc])
    · cases h
      refine ⟨existing.id, Moves.weaken ?_⟩
      exact Moves.of_hosts rfl

end Db

/-! ### Every run -/

namespace Db

variable {db : Db} {hostId : String} {credential : Credential} {generation : ℕ} {row : HostRow}

theorem host?_some (h : db.host? hostId = some row) : row ∈ db.hosts ∧ row.id = hostId :=
  ⟨List.mem_of_find?_eq_some h, by simpa using List.find?_some h⟩

theorem authenticateGeneration_some (h : db.authenticateGeneration hostId credential = some generation) :
    ∃ row ∈ db.hosts, row.id = hostId ∧ row.credentialGeneration = generation ∧
      row.credentialHash = some credential ∧ row.trusted = true := by
  rw [authenticateGeneration] at h
  split at h
  · next row hrow =>
    obtain ⟨hmem, hid⟩ := host?_some hrow
    split_ifs at h with hok
    simp only [Bool.and_eq_true, beq_iff_eq] at hok
    exact ⟨row, hmem, hid, Option.some.inj h, hok.2, hok.1.2⟩
  · cases h

theorem heartbeatHost_some (h : db.heartbeatHost hostId generation = some row) :
    row ∈ db.hosts ∧ row.id = hostId ∧ row.credentialGeneration = generation ∧ row.trusted = true := by
  obtain ⟨hrow, hok⟩ := Option.filter_eq_some_iff.mp h
  obtain ⟨hmem, hid⟩ := host?_some hrow
  simp only [Bool.and_eq_true, beq_iff_eq] at hok
  exact ⟨hmem, hid, hok.2, hok.1.2⟩

theorem meteringHost_some (h : db.meteringHost hostId generation = some row) :
    row ∈ db.hosts ∧ row.id = hostId ∧ row.credentialGeneration = generation ∧ row.trusted = true := by
  obtain ⟨hrow, hok⟩ := Option.filter_eq_some_iff.mp h
  obtain ⟨hmem, hid⟩ := host?_some hrow
  simp only [Bool.and_eq_true, beq_iff_eq] at hok
  exact ⟨hmem, hid, hok.2, hok.1⟩

end Db

/-- The credential has been rotated out or revoked. -/
def Db.Dead (db : Db) (hostId : String) (generation : ℕ) : Prop :=
  ∃ row ∈ db.hosts, row.id = hostId ∧ (generation < row.credentialGeneration ∨
    generation = row.credentialGeneration ∧ row.credentialStatus = .revoked)

namespace State

variable {s t u : State} {db : Db}

/-- What every reachable state satisfies. -/
structure Good (s : State) : Prop where
  key : (s.db.hosts.map (·.id)).Nodup
  recorded : ∀ row ∈ s.db.hosts, ∀ c, row.credentialHash = some c → ⟨row.id, row.credentialGeneration, c⟩ ∈ s.issued
  issued : ∀ x ∈ s.issued, ∀ y ∈ s.issued, x.credential = y.credential → x = y
  calls : ∀ call ∈ s.calls, ⟨call.hostId, call.generation, call.credential⟩ ∈ s.issued

theorem initial_good (regions : List String) : (initial regions).Good :=
  ⟨List.nodup_nil, fun _ h => absurd h List.not_mem_nil, fun _ h => absurd h List.not_mem_nil,
    fun _ h => absurd h List.not_mem_nil⟩

/-- A statement that writes no credential. -/
theorem Good.move (h : s.Good) (hm : s.db.Moves db none) : Good { s with db } := by
  refine ⟨hm.key h.key, fun row' hrow' c hc => ?_, h.issued, h.calls⟩
  obtain hnew | ⟨row, hrow, hid, hgen, hhash⟩ := hm.held row' hrow' c hc
  · exact nomatch hnew
  · rw [← hid, ← hgen]
    exact h.recorded row hrow c hhash

theorem mem_issues {c : Credential} {x : Issue} : x ∈ db.issues c ↔ ∃ row ∈ db.hosts,
    row.credentialHash = some c ∧ x = ⟨row.id, row.credentialGeneration, c⟩ := by
  simp only [Db.issues, List.mem_map, List.mem_filter, beq_iff_eq]
  constructor
  · rintro ⟨row, ⟨hrow, hc⟩, rfl⟩
    exact ⟨row, hrow, hc, rfl⟩
  · rintro ⟨row, hrow, hc, rfl⟩
    exact ⟨row, ⟨hrow, hc⟩, rfl⟩

/-- A statement that writes a fresh credential. -/
theorem Good.issue {hostId : String} {credential : Credential} (h : s.Good) (hfresh : s.fresh credential = true)
    (hm : s.db.Moves db (some (hostId, credential))) : (s.issue credential db).Good := by
  have hunseen : ∀ x ∈ s.issued, x.credential ≠ credential := by
    simpa [fresh] using hfresh
  -- The rows that hold the new credential are the row of the host.
  have hthis : ∀ row ∈ db.hosts, row.credentialHash = some credential → row.id = hostId := by
    intro row hrow hc
    obtain hnew | ⟨row', hrow', -, -, hhash⟩ := hm.held row hrow credential hc
    · exact (congrArg Prod.fst (Option.some.inj hnew)).symm
    · exact absurd rfl (hunseen _ (h.recorded row' hrow' credential hhash))
  refine ⟨hm.key h.key, fun row hrow c hc => ?_, fun x hx y hy heq => ?_, fun call hcall =>
    List.mem_append_left _ (h.calls call hcall)⟩
  · obtain hnew | ⟨row', hrow', hid, hgen, hhash⟩ := hm.held row hrow c hc
    · obtain ⟨rfl, rfl⟩ := Prod.mk.inj (Option.some.inj hnew)
      exact List.mem_append_right _ (mem_issues.mpr ⟨row, hrow, hc, rfl⟩)
    · rw [← hid, ← hgen]
      exact List.mem_append_left _ (h.recorded row' hrow' c hhash)
  · rcases List.mem_append.mp hx with hx | hx <;> rcases List.mem_append.mp hy with hy | hy
    · exact h.issued x hx y hy heq
    · obtain ⟨row, -, -, rfl⟩ := mem_issues.mp hy
      exact absurd heq (hunseen x hx)
    · obtain ⟨row, -, -, rfl⟩ := mem_issues.mp hx
      exact absurd heq.symm (hunseen y hy)
    · obtain ⟨row, hrow, hc, rfl⟩ := mem_issues.mp hx
      obtain ⟨row', hrow', hc', rfl⟩ := mem_issues.mp hy
      rw [key_inj (hm.key h.key) hrow hrow' ((hthis row hrow hc).trans (hthis row' hrow' hc').symm)]

/-- **One step.**  The invariant is kept, rows move forward, and the history only grows. -/
theorem Good.step {a : Action} (h : s.Good) (hstep : s.step a = some t) :
    t.Good ∧ (∃ new, s.db.Moves t.db new) ∧ ∀ x ∈ s.issued, x ∈ t.issued := by
  have hmove {db : Db} (hm : s.db.Moves db none) : Good { s with db } ∧ (∃ new, s.db.Moves db new) ∧
      ∀ x ∈ s.issued, x ∈ s.issued := ⟨h.move hm, ⟨none, hm⟩, fun _ hx => hx⟩
  have hissue {db : Db} {hostId : String} {credential : Credential} (hfresh : s.fresh credential = true)
      (hm : s.db.Moves db (some (hostId, credential))) : (s.issue credential db).Good ∧
      (∃ new, s.db.Moves db new) ∧ ∀ x ∈ s.issued, x ∈ (s.issue credential db).issued :=
    ⟨h.issue hfresh hm, ⟨_, hm⟩, fun _ hx => List.mem_append_left _ hx⟩
  cases a with
  | elapse duration =>
    cases hstep
    exact ⟨⟨h.key, h.recorded, h.issued, h.calls⟩, ⟨none, .of_hosts rfl⟩, fun _ hx => hx⟩
  | issueEnrollment id token reservedHostId identity ttl =>
    obtain ⟨db, hdb, rfl⟩ := Option.map_eq_some_iff.mp hstep
    exact hmove (.of_hosts (Db.issueEnrollment_hosts hdb))
  | revokeEnrollment grantId =>
    cases hstep
    exact hmove (.of_hosts rfl)
  | register token identity credential =>
    simp only [State.step] at hstep
    split_ifs at hstep with hfresh
    obtain ⟨db, hdb, rfl⟩ := Option.map_eq_some_iff.mp hstep
    obtain ⟨hostId, hm⟩ := Db.register_moves hdb
    exact hissue hfresh hm
  | drain hostId =>
    cases hstep
    exact hmove Db.drain_moves
  | activate hostId =>
    cases hstep
    exact hmove Db.activate_moves
  | quarantine hostId =>
    cases hstep
    exact hmove Db.quarantine_moves
  | revoke hostId =>
    cases hstep
    exact hmove Db.revoke_moves
  | rotateCredentials hostId credential =>
    simp only [State.step] at hstep
    split_ifs at hstep with hfresh
    cases hstep
    exact hissue hfresh Db.rotateCredentials_moves
  | markStale staleAfter =>
    cases hstep
    exact hmove (Db.markStale_moves _ _)
  | authenticate hostId credential =>
    obtain ⟨generation, hgen, rfl⟩ := Option.map_eq_some_iff.mp hstep
    refine ⟨⟨h.key, h.recorded, h.issued, fun call hcall => ?_⟩, ⟨none, .of_hosts rfl⟩, fun _ hx => hx⟩
    rcases List.mem_append.mp hcall with hcall | hcall
    · exact h.calls call hcall
    · rw [List.mem_singleton.mp hcall]
      obtain ⟨row, hrow, rfl, rfl, hhash, -⟩ := Db.authenticateGeneration_some hgen
      exact h.recorded row hrow credential hhash
  | heartbeat k beat =>
    obtain ⟨call, hcall, rfl⟩ := Option.map_eq_some_iff.mp hstep
    obtain ⟨hgood, hm, hx⟩ := hmove (Db.heartbeat_moves s.now call.hostId beat call.generation)
    exact ⟨⟨hgood.key, hgood.recorded, hgood.issued, fun c hc => h.calls c (List.mem_of_mem_eraseIdx hc)⟩, hm, hx⟩
  | ingest k interval violated =>
    obtain ⟨call, hcall, rfl⟩ := Option.map_eq_some_iff.mp hstep
    obtain ⟨hgood, hm, hx⟩ := hmove (Db.ingest_moves s.now interval call.hostId call.generation violated)
    exact ⟨⟨hgood.key, hgood.recorded, hgood.issued, fun c hc => h.calls c (List.mem_of_mem_eraseIdx hc)⟩, hm, hx⟩

/-- What a run keeps, and what it adds to. -/
theorem Good.run {as : List Action} (h : s.Good) (hrun : Run (fun s a t => s.step a = some t) s as t) :
    t.Good ∧ (∀ row ∈ s.db.hosts, ∃ row' ∈ t.db.hosts, row.Follows row') ∧ ∀ x ∈ s.issued, x ∈ t.issued := by
  induction hrun with
  | nil s => exact ⟨h, fun row hrow => ⟨row, hrow, .refl row⟩, fun _ hx => hx⟩
  | cons hstep _ ih =>
    obtain ⟨hgood, ⟨new, hm⟩, hissued⟩ := h.step hstep
    obtain ⟨hgood', hfollows, hissued'⟩ := ih hgood
    refine ⟨hgood', fun row hrow => ?_, fun x hx => hissued' x (hissued x hx)⟩
    obtain ⟨row', hrow', hf⟩ := hm.forward row hrow
    obtain ⟨row'', hrow'', hf'⟩ := hfollows row' hrow'
    exact ⟨row'', hrow'', hf.trans hf'⟩

end State

/-- A dead credential stays dead. -/
theorem Db.Dead.mono {db db' : Db} {hostId : String} {generation : ℕ} (h : db.Dead hostId generation)
    (hfollows : ∀ row ∈ db.hosts, ∃ row' ∈ db'.hosts, row.Follows row') : db'.Dead hostId generation := by
  obtain ⟨row, hrow, hid, hdead⟩ := h
  obtain ⟨row', hrow', hf⟩ := hfollows row hrow
  refine ⟨row', hrow', hf.id.trans hid, ?_⟩
  rcases hdead with hlt | ⟨rfl, hstatus⟩
  · exact Or.inl (hlt.trans_le hf.generation)
  · rcases hf.generation.lt_or_eq with hlt | heq
    · exact Or.inl hlt
    · exact Or.inr ⟨heq, hf.status heq.symm hstatus⟩

/-- The row that accepts a call is not one on which its credential is dead. -/
theorem State.Good.not_dead {s : State} {row : HostRow} {hostId : String} {generation : ℕ} (h : s.Good)
    (hrow : row ∈ s.db.hosts) (hid : row.id = hostId) (hgen : row.credentialGeneration = generation)
    (htrusted : row.trusted = true) : ¬ s.db.Dead hostId generation := by
  rintro ⟨row', hrow', hid', hdead⟩
  have hsame : row' = row := key_inj h.key hrow' hrow (hid'.trans hid.symm)
  simp only [HostRow.trusted, Bool.and_eq_true, beq_iff_eq] at htrusted
  rw [hsame, hgen] at hdead
  rcases hdead with hlt | ⟨-, hstatus⟩
  · exact absurd hlt (lt_irrefl generation)
  · rw [htrusted.2] at hstatus
    exact nomatch hstatus

/-- A revoked host stays revoked, and a credential that has been rotated out or revoked is accepted by no
host-authenticated call: neither `authenticateGeneration` nor, for a call that was let in before, the statement
of a heartbeat or of a batch of observations. -/
theorem host_trust_monotone {regions : List String} {t u : State} {as bs : List Action}
    (h : Run (fun s a t => s.step a = some t) (State.initial regions) as t)
    (h' : Run (fun s a t => s.step a = some t) t bs u) :
    (∀ row ∈ t.db.hosts, row.desiredState = .revoked →
      ∃ row' ∈ u.db.hosts, row'.id = row.id ∧ row'.desiredState = .revoked) ∧
    ∀ x ∈ t.issued, t.db.Dead x.hostId x.generation →
      (∀ hostId, u.db.authenticateGeneration hostId x.credential = none) ∧
      ∀ call ∈ u.calls, call.credential = x.credential →
        u.db.heartbeatHost call.hostId call.generation = none ∧
        u.db.meteringHost call.hostId call.generation = none := by
  have ht : t.Good := ((State.initial_good regions).run h).1
  obtain ⟨hu, hfollows, hissued⟩ := ht.run h'
  refine ⟨fun row hrow hrevoked => ?_, fun x hx hdead => ?_⟩
  · obtain ⟨row', hrow', hf⟩ := hfollows row hrow
    exact ⟨row', hrow', hf.id, hf.revoked hrevoked⟩
  have hdead' : u.db.Dead x.hostId x.generation := hdead.mono hfollows
  refine ⟨fun hostId => ?_, fun call hcall hcred => ?_⟩
  · by_contra hne
    obtain ⟨generation, hgen⟩ := Option.ne_none_iff_exists'.mp hne
    obtain ⟨row, hrow, hid, hg, hhash, htrusted⟩ := Db.authenticateGeneration_some hgen
    -- The credential was issued once, so it is the one of the row.
    have hsame := hu.issued _ (hissued x hx) _ (hu.recorded row hrow x.credential hhash) rfl
    rw [hsame] at hdead'
    exact hu.not_dead hrow rfl rfl htrusted hdead'
  · have hsame := hu.issued _ (hissued x hx) _ (hu.calls call hcall) hcred.symm
    rw [hsame] at hdead'
    constructor
    · by_contra hne
      obtain ⟨row, hrow⟩ := Option.ne_none_iff_exists'.mp hne
      obtain ⟨hmem, hid, hg, htrusted⟩ := Db.heartbeatHost_some hrow
      exact hu.not_dead hmem hid hg htrusted hdead'
    · by_contra hne
      obtain ⟨row, hrow⟩ := Option.ne_none_iff_exists'.mp hne
      obtain ⟨hmem, hid, hg, htrusted⟩ := Db.meteringHost_some hrow
      exact hu.not_dead hmem hid hg htrusted hdead'

def sampleIdentity : HostIdentity :=
  ⟨"p1", "r1", "10.0.0.1", "x86_64", 4, 8192, 100000, ⟨"c", 4, "amd64", "k", "f", "j", "p", "d"⟩⟩

/-- A host is enrolled, its first credential is let in, and then it is rotated. -/
def sampleActions : List Action :=
  [.issueEnrollment "g1" "nhe_1" "h1" sampleIdentity 1000, .register "nhe_1" sampleIdentity "nh_1",
    .authenticate "h1" "nh_1", .rotateCredentials "h1" "nh_2"]

theorem host_trust_monotone_rotated : ∃ t : State,
    t.db.authenticateGeneration "h1" "nh_2" = some 2 ∧ t.db.authenticateGeneration "h1" "nh_1" = none ∧
      t.db.heartbeatHost "h1" 1 = none := by
  have hrun : ∃ t, Run (fun s a t => State.step s a = some t) (State.initial ["r1"]) sampleActions t ∧
      (t.db.authenticateGeneration "h1" "nh_2" = some 2 ∧ ⟨"h1", 1, "nh_1"⟩ ∈ t.issued ∧
        t.calls = [⟨"h1", "nh_1", 1⟩] ∧
        t.db.hosts.any fun row => row.id == "h1" && decide (1 < row.credentialGeneration)) :=
    Run.of_test (by decide +kernel)
  obtain ⟨t, hrun, haccepts, hissued, hcalls, hdead⟩ := hrun
  obtain ⟨row, hrow, hgen⟩ := List.any_eq_true.mp hdead
  simp only [Bool.and_eq_true, beq_iff_eq, decide_eq_true_eq] at hgen
  obtain ⟨hauth, hcall⟩ := (host_trust_monotone hrun (.nil t)).2 _ hissued ⟨row, hrow, hgen.1, Or.inl hgen.2⟩
  have hmem : (⟨"h1", "nh_1", 1⟩ : HostCall) ∈ t.calls := by
    rw [hcalls]
    exact List.mem_singleton_self _
  exact ⟨t, haccepts, hauth "h1", (hcall _ hmem rfl).1⟩

end Nehemiah.Trust
