import Nehemiah.Control.IdentitySync
import Nehemiah.Lib.Run

/-!
# Device authorization

`DeviceAuthorizationService`: a device asks for scopes, a user approves or denies the request, the device
exchanges its code for an access and a refresh token, and refreshes them.  A call first looks at the database
and then runs a transaction, and anything may happen between the two.  The transaction of an exchange locks the
authorization, reads the approver's membership, which it does not lock, and then writes: it is two steps, and
the first leaves the lock behind.  The other transactions lock the one row that they depend on, the family or
the authorization, and are one step.

Every call has a clock of its own, that of its replica; statements that take `statement_timestamp()` take the
clock of the database.  Times are milliseconds.  The rows keep SHA-256 digests of the tokens, and the model
keeps the tokens; `randomUUID` draws no identifier twice.
-/

namespace Nehemiah.Device

open Identity (Role UserRow OrganizationRow MemberRow)
open Lib

/-! ### Scopes -/

inductive Scope
  | machinesRead | machinesWrite | templatesRead | templatesWrite | volumesRead | volumesWrite | billingRead
  deriving DecidableEq

def apiKeyScopes : List Scope :=
  [.machinesRead, .machinesWrite, .templatesRead, .templatesWrite, .volumesRead, .volumesWrite, .billingRead]

/-- `validScopes`; an element that is `none` is not a scope. -/
def validScopes (scopes : List (Option Scope)) : Option (List Scope) :=
  if scopes ≠ [] ∧ scopes.length ≤ apiKeyScopes.length then scopes.mapM id else none

def uniqueScopes (scopes : List Scope) : List Scope := scopes.eraseDups

def rolePermits : Role → Scope → Bool
  | .owner, _ | .admin, _ => true
  | .billing, scope => scope == .billingRead
  | .member, scope =>
    scope == .machinesRead || scope == .machinesWrite || scope == .templatesRead || scope == .volumesRead
      || scope == .volumesWrite

/-! ### Tokens -/

inductive Kind
  | device | access | refresh
  deriving DecidableEq

/-- What `opaqueToken` makes. -/
structure Token where
  kind : Kind
  id : String
  secret : String
  deriving DecidableEq

/-- `tokenId`; a string that is no token is `none`. -/
def tokenId (raw : Option Token) (kind : Kind) : Option String :=
  raw.bind fun token => if token.kind = kind then some token.id else none

/-! ### Tables -/

inductive Status
  | pending | approved | denied | consumed
  deriving DecidableEq

/-- `device_authorizations`. -/
structure DeviceRow where
  id : String
  deviceToken : Token
  userCode : String
  requestedScopes : List Scope
  approvedScopes : Option (List Scope)
  status : Status
  organizationId : Option String
  projectId : Option String
  approvedBy : Option String
  expiresAt : ℕ
  pollIntervalSeconds : ℕ
  nextPollAt : ℕ
  deriving DecidableEq

/-- `device_refresh_families`. -/
structure FamilyRow where
  id : String
  deviceAuthorizationId : String
  organizationId : String
  projectId : String
  scopes : List Scope
  createdAt : ℕ
  expiresAt : ℕ
  revokedAt : Option ℕ
  reuseDetectedAt : Option ℕ
  deriving DecidableEq

/-- `device_refresh_tokens`. -/
structure RefreshRow where
  id : String
  familyId : String
  generation : ℕ
  token : Token
  createdAt : ℕ
  expiresAt : ℕ
  usedAt : Option ℕ
  replacedBy : Option String
  deriving DecidableEq

/-- `device_access_tokens`. -/
structure AccessRow where
  id : String
  familyId : String
  organizationId : String
  projectId : String
  scopes : List Scope
  token : Token
  createdAt : ℕ
  expiresAt : ℕ
  lastUsedAt : Option ℕ
  revokedAt : Option ℕ
  deriving DecidableEq

/-- The rows of `machine_gateway_grants` that a device family issued. -/
structure GrantRow where
  id : String
  issuerId : String
  organizationId : String
  expiresAt : ℕ
  revokedAt : Option ℕ
  deriving DecidableEq

structure ProjectRow where
  id : String
  organizationId : String
  deriving DecidableEq

structure Db where
  users : List UserRow
  organizations : List OrganizationRow
  members : List MemberRow
  projects : List ProjectRow
  authorizations : List DeviceRow
  families : List FamilyRow
  refreshTokens : List RefreshRow
  accessTokens : List AccessRow
  grants : List GrantRow
  deriving DecidableEq

/-- `DeviceAuthorizationError`, with the seconds to wait. -/
inductive DeviceError
  | invalidRequest | invalidClient | invalidScope | invalidGrant | accessDenied | expiredToken
  | refreshReuseDetected | unexpected
  | authorizationPending (interval : ℕ)
  | slowDown (interval : ℕ)
  | rateLimited (retryAfterSeconds : ℕ)

structure TokenResponse where
  accessToken : Token
  refreshToken : Token
  organizationId : String
  projectId : String
  scopes : List Scope
  accessExpiresAt : ℕ
  refreshExpiresAt : ℕ

structure Principal where
  apiKeyId : String
  deviceFamilyId : String
  organizationId : String
  projectId : String
  scopes : List Scope

def FamilyRow.revoke (f : FamilyRow) (now : ℕ) (reuse : Bool) : FamilyRow :=
  { f with
    revokedAt := some (f.revokedAt.getD now),
    reuseDetectedAt := if reuse then some (f.reuseDetectedAt.getD now) else f.reuseDetectedAt }

def RefreshRow.use (t : RefreshRow) (now : ℕ) (replacedBy : String) : RefreshRow :=
  { t with usedAt := some now, replacedBy := some replacedBy }

def AccessRow.revoke (t : AccessRow) (now : ℕ) : AccessRow := { t with revokedAt := some (t.revokedAt.getD now) }

def GrantRow.revoke (g : GrantRow) (now : ℕ) : GrantRow := { g with revokedAt := some (g.revokedAt.getD now) }

/-- The row was revoked, or else has expired, so many hours ago. -/
def terminal (clock hours : ℕ) (revokedAt : Option ℕ) (expiresAt : ℕ) : Bool :=
  decide (revokedAt.getD expiresAt + hours * 60 * 60 * 1000 ≤ clock)

/-- The family is in the batch and terminal for a day. -/
def FamilyRow.reaped (clock : ℕ) (families : List String) (f : FamilyRow) : Bool :=
  families.contains f.id && terminal clock 24 f.revokedAt f.expiresAt

/-! ### Statements -/

/-- What one pass of `issue` draws. -/
structure CodeDraw where
  id : String
  secret : String
  userCode : String

/-- What an exchange or a refresh draws. -/
structure TokenDraw where
  familyId : String
  refreshId : String
  accessId : String
  refreshSecret : String
  accessSecret : String

def TokenDraw.refreshToken (draw : TokenDraw) : Token := ⟨.refresh, draw.refreshId, draw.refreshSecret⟩

def TokenDraw.accessToken (draw : TokenDraw) : Token := ⟨.access, draw.accessId, draw.accessSecret⟩

/-- The refresh token of a generation. -/
def FamilyRow.refreshToken (f : FamilyRow) (now generation : ℕ) (draw : TokenDraw) : RefreshRow :=
  { id := draw.refreshId, familyId := f.id, generation, token := draw.refreshToken, createdAt := now,
    expiresAt := f.expiresAt, usedAt := none, replacedBy := none }

def FamilyRow.accessToken (f : FamilyRow) (now expiresAt : ℕ) (draw : TokenDraw) : AccessRow :=
  { id := draw.accessId, familyId := f.id, organizationId := f.organizationId, projectId := f.projectId,
    scopes := f.scopes, token := draw.accessToken, createdAt := now, expiresAt, lastUsedAt := none, revokedAt := none }

def FamilyRow.response (f : FamilyRow) (accessExpiresAt : ℕ) (draw : TokenDraw) : TokenResponse :=
  ⟨draw.accessToken, draw.refreshToken, f.organizationId, f.projectId, f.scopes, accessExpiresAt, f.expiresAt⟩

inductive Decision
  | approve | deny
  deriving DecidableEq

/-- The input of `authorize`, with the user code as `normalizeUserCode` gives it. -/
structure AuthorizeInput where
  userCode : Option String
  decision : Decision
  organizationId : String
  projectId : Option String
  scopes : Option (List (Option Scope))
  clerkUserId : String
  deriving DecidableEq

/-- The user that decides, and the role that the membership query returned. -/
structure Member where
  id : String
  role : Role
  deriving DecidableEq

namespace Db

variable (db : Db)

def authorization? (id : String) : Option DeviceRow := db.authorizations.find? fun r => decide (r.id = id)

def family? (id : String) : Option FamilyRow := db.families.find? fun f => decide (f.id = id)

def refreshToken? (id : String) : Option RefreshRow := db.refreshTokens.find? fun t => decide (t.id = id)

def accessToken? (id : String) : Option AccessRow := db.accessTokens.find? fun t => decide (t.id = id)

/-- The role of an enabled user in an enabled organization. -/
def activeRole (userId organizationId : String) : Option Role :=
  if db.users.any (fun u => u.id == userId && u.disabledAt.isNone)
      && db.organizations.any (fun o => o.id == organizationId && o.disabledAt.isNone) then
    (db.members.find? fun m => m.organizationId == organizationId && m.userId == userId).map (·.role)
  else none

def updateAuthorization (id : String) (set : DeviceRow → DeviceRow) : Db :=
  { db with authorizations := updateWhere (fun r => decide (r.id = id)) set db.authorizations }

/-- The three updates of a revocation. -/
def revokeWhere (now clock : ℕ) (reuse : Bool) (family : FamilyRow → Bool) (access : AccessRow → Bool)
    (grant : GrantRow → Bool) : Db :=
  { db with
    families := updateWhere family (fun f => f.revoke now reuse) db.families,
    accessTokens := updateWhere access (fun t => t.revoke now) db.accessTokens,
    grants := updateWhere grant (fun g => g.revoke clock) db.grants }

/-- The revocation of one family, with its grants that have not expired. -/
def revokeFamily (now clock : ℕ) (reuse : Bool) (family : FamilyRow) : Db :=
  db.revokeWhere now clock reuse (fun f => decide (f.id = family.id)) (fun t => decide (t.familyId = family.id))
    fun g => decide (g.issuerId = family.id) && g.organizationId == family.organizationId
      && decide (clock < g.expiresAt)

def revokeFamilyForIdentity (now clock : ℕ) (family : FamilyRow) : Db :=
  db.revokeWhere now clock false (fun f => decide (f.id = family.id) && f.revokedAt.isNone)
    (fun t => decide (t.familyId = family.id))
    fun g => decide (g.issuerId = family.id) && g.organizationId == family.organizationId && g.revokedAt.isNone

/-! `issue`. -/

/-- The inserts of `issue`, until one meets no used code. -/
def issueAttempt (now : ℕ) (scopes : List Scope) : List CodeDraw → Db × Except DeviceError DeviceRow
  | [] => (db, .error .unexpected)
  | draw :: draws =>
    if 50000 ≤ db.authorizations.length then (db, .error (.rateLimited 60))
    else if db.authorizations.any fun r => r.userCode == draw.userCode then issueAttempt now scopes draws
    else
      let row : DeviceRow := {
        id := draw.id, deviceToken := ⟨.device, draw.id, draw.secret⟩, userCode := draw.userCode,
        requestedScopes := scopes, approvedScopes := none, status := .pending, organizationId := none,
        projectId := none, approvedBy := none, expiresAt := now + 10 * 60 * 1000, pollIntervalSeconds := 5,
        nextPollAt := now + 5 * 1000 }
      ({ db with authorizations := db.authorizations ++ [row] }, .ok row)

def issue (now : ℕ) (clientId : String) (scopes : List (Option Scope)) (draws : List CodeDraw) :
    Db × Except DeviceError DeviceRow :=
  if clientId ≠ "nehemiah-cli" then (db, .error .invalidClient)
  else
    match validScopes scopes with
    | none => (db, .error .invalidScope)
    | some scopes => db.issueAttempt now (uniqueScopes scopes) (draws.take 5)

/-! `authorize`. -/

/-- The checks of `authorize` before its transaction, and the membership query of the transaction. -/
def authorizeMember (input : AuthorizeInput) : Except DeviceError Member :=
  if input.userCode = none then .error .invalidRequest
  else if input.decision = .approve ∧ !input.projectId.any isUuid then .error .invalidRequest
  else
    match db.users.find? fun u => decide (u.clerkUserId = input.clerkUserId) with
    | none => .error .accessDenied
    | some user =>
      match db.activeRole user.id input.organizationId with
      | none => .error .accessDenied
      | some role => .ok ⟨user.id, role⟩

/-- The rest of the transaction, with the lock of the authorization. -/
def authorizeLocked (now : ℕ) (input : AuthorizeInput) (member : Member) : Db × Except DeviceError Unit :=
  match db.authorizations.find? fun r => input.userCode == some r.userCode with
  | none => (db, .error .expiredToken)
  | some authorization =>
    if authorization.expiresAt ≤ now then (db, .error .expiredToken)
    else if authorization.status ≠ .pending then (db, .error .invalidGrant)
    else
      match input.decision with
      | .deny =>
        (db.updateAuthorization authorization.id fun r => { r with
          status := .denied, organizationId := some input.organizationId, approvedBy := some member.id }, .ok ())
      | .approve =>
        match input.projectId, input.scopes.bind validScopes with
        | some projectId, some valid =>
          let scopes := uniqueScopes valid
          if scopes.any fun scope => !authorization.requestedScopes.contains scope || !rolePermits member.role scope
          then (db, .error .invalidScope)
          else if !db.projects.any fun p => p.id == projectId && p.organizationId == input.organizationId then
            (db, .error .accessDenied)
          else
            (db.updateAuthorization authorization.id fun r => { r with
              status := .approved, organizationId := some input.organizationId, projectId := some projectId,
              approvedBy := some member.id, approvedScopes := some scopes }, .ok ())
        | _, _ => (db, .error .invalidScope)

/-! `exchange`. -/

def exchangeFound (raw : Option Token) : Except DeviceError String :=
  match tokenId raw .device with
  | none => .error .invalidGrant
  | some id =>
    if (db.authorization? id).map (·.deviceToken) = raw then .ok id else .error .invalidGrant

/-- The transaction up to the query of the approver's membership; an approved authorization is left locked. -/
def exchangeLocked (now : ℕ) (id : String) : Db × Except DeviceError DeviceRow :=
  match db.authorization? id with
  | none => (db, .error .expiredToken)
  | some row =>
    if row.expiresAt ≤ now then (db, .error .expiredToken)
    else
      match row.status with
      | .denied => (db, .error .accessDenied)
      | .consumed => (db, .error .invalidGrant)
      | .pending =>
        if now < row.nextPollAt then
          let interval := min 60 (row.pollIntervalSeconds + 5)
          (db.updateAuthorization id fun r => { r with
            pollIntervalSeconds := interval, nextPollAt := now + interval * 1000 }, .error (.slowDown interval))
        else
          (db.updateAuthorization id fun r => { r with nextPollAt := now + row.pollIntervalSeconds * 1000 },
            .error (.authorizationPending row.pollIntervalSeconds))
      | .approved => (db, .ok row)

/-- The triggers of the retained rows refuse a new generation, with its family when it is the first. -/
def retentionFull (family : Bool) : Bool :=
  family && decide (4096 ≤ db.families.length) || decide (1048576 ≤ db.refreshTokens.length)
    || decide (1048576 ≤ db.accessTokens.length)

/-- The rest of the transaction, for the row that is locked and the role that the query returned. -/
def redeem (now : ℕ) (row : DeviceRow) (role : Option Role) (draw : TokenDraw) :
    Db × Except DeviceError TokenResponse :=
  match row.organizationId, row.projectId, row.approvedBy, row.approvedScopes with
  | some organizationId, some projectId, some _, some scopes =>
    if !role.any fun role => scopes.all (rolePermits role) then
      (db.updateAuthorization row.id fun r => { r with status := .denied, projectId := none, approvedScopes := none },
        .error .accessDenied)
    else if db.retentionFull true then (db, .error (.rateLimited 60))
    else
      let accessExpiresAt := now + 15 * 60 * 1000
      let family : FamilyRow := {
        id := draw.familyId, deviceAuthorizationId := row.id, organizationId, projectId, scopes, createdAt := now,
        expiresAt := now + 30 * 24 * 60 * 60 * 1000, revokedAt := none, reuseDetectedAt := none }
      (updateAuthorization
        { db with
          families := db.families ++ [family],
          refreshTokens := db.refreshTokens ++ [family.refreshToken now 0 draw],
          accessTokens := db.accessTokens ++ [family.accessToken now accessExpiresAt draw] } row.id
          fun r => { r with status := .consumed },
        .ok (family.response accessExpiresAt draw))
  | _, _, _, _ => (db, .error .unexpected)

/-! `refresh`, `revoke` and `authenticateAccess`. -/

def refreshFound (now : ℕ) (raw : Option Token) : Except DeviceError String :=
  match tokenId raw .refresh with
  | none => .error .invalidGrant
  | some id =>
    match db.refreshToken? id with
    | none => .error .invalidGrant
    | some token =>
      match db.family? token.familyId with
      | none => .error .invalidGrant
      | some family =>
        if some token.token ≠ raw then .error .invalidGrant
        else if family.reuseDetectedAt.isSome then .error .refreshReuseDetected
        else if family.revokedAt.isSome ∨ token.expiresAt ≤ now ∨ family.expiresAt ≤ now then .error .invalidGrant
        else .ok id

/-- The user that approved the authorization of a family, where the rows that the query joins exist. -/
def approver (family : FamilyRow) : Option String :=
  ((db.authorization? family.deviceAuthorizationId).bind (·.approvedBy)).filter fun userId =>
    db.users.any (·.id == userId) && db.organizations.any (·.id == family.organizationId)

/-- `identityPermits`. -/
def identityPermits (family : FamilyRow) (approver : String) : Bool :=
  (db.activeRole approver family.organizationId).any fun role => family.scopes.all (rolePermits role)

/-- The transaction of `refresh`. -/
def refreshLocked (clock now : ℕ) (id : String) (draw : TokenDraw) : Db × Except DeviceError TokenResponse :=
  match db.refreshToken? id with
  | none => (db, .error .invalidGrant)
  | some token =>
    match db.family? token.familyId with
    | none => (db, .error .invalidGrant)
    | some family =>
      if token.expiresAt ≤ now ∨ family.expiresAt ≤ now ∨ family.revokedAt.isSome then (db, .error .invalidGrant)
      else
        match db.approver family with
        | none => (db, .error .invalidGrant)
        | some approver =>
          if token.usedAt.isSome then (db.revokeFamily now clock true family, .error .refreshReuseDetected)
          else if !db.identityPermits family approver then
            (db.revokeFamilyForIdentity now clock family, .error .invalidGrant)
          else if now < token.createdAt + 10 * 60 * 1000 then
            (db, .error (.slowDown (max 1 ((token.createdAt + 10 * 60 * 1000 - now + 999) / 1000))))
          else if 4095 ≤ token.generation then (db.revokeFamily now clock false family, .error .expiredToken)
          else if db.retentionFull false then (db, .error (.rateLimited 60))
          else
            let accessExpiresAt := min (now + 15 * 60 * 1000) family.expiresAt
            ({ db with
                refreshTokens := updateWhere (fun t => decide (t.id = id)) (fun t => t.use now draw.refreshId)
                  (db.refreshTokens ++ [family.refreshToken now (token.generation + 1) draw]),
                accessTokens := db.accessTokens ++ [family.accessToken now accessExpiresAt draw] },
              .ok (family.response accessExpiresAt draw))

/-- The family of a refresh token that neither has expired nor is revoked. -/
def revocable (now : ℕ) (id : String) : Option FamilyRow :=
  (db.refreshToken? id).bind fun token => (db.family? token.familyId).filter fun family =>
    decide (now < token.expiresAt) && decide (now < family.expiresAt) && family.revokedAt.isNone

def revokeFound (now : ℕ) (raw : Option Token) : Option String :=
  (tokenId raw .refresh).filter fun id =>
    (db.revocable now id).isSome && decide ((db.refreshToken? id).map (·.token) = raw)

/-- The transaction of `revoke`. -/
def revokeLocked (clock now : ℕ) (id : String) : Db × Bool :=
  match db.revocable now id with
  | none => (db, false)
  | some family => (db.revokeFamily now clock false family, true)

/-- The family of an access token that neither has expired nor is revoked, nor is it. -/
def admissible (now : ℕ) (id : String) : Option FamilyRow :=
  (db.accessToken? id).bind fun token => (db.family? token.familyId).filter fun family =>
    decide (now < token.expiresAt) && token.revokedAt.isNone && decide (now < family.expiresAt)
      && family.revokedAt.isNone

def authenticateFound (now : ℕ) (raw : Option Token) : Option String :=
  (tokenId raw .access).filter fun id =>
    (db.admissible now id).isSome && decide ((db.accessToken? id).map (·.token) = raw)

/-- The transaction of `authenticateAccess`. -/
def authenticateLocked (clock now : ℕ) (id : String) (raw : Option Token) : Db × Option Principal :=
  match db.admissible now id with
  | none => (db, none)
  | some family =>
    match db.approver family with
    | none => (db, none)
    | some approver =>
      if (db.accessToken? id).map (·.token) ≠ raw then (db, none)
      else if !db.identityPermits family approver then (db.revokeFamilyForIdentity now clock family, none)
      else
        ({ db with
            accessTokens := updateWhere (fun t => decide (t.id = id)) (fun t => { t with lastUsedAt := some now })
              db.accessTokens },
          some ⟨id, family.id, family.organizationId, family.projectId, family.scopes⟩)

/-! Gateway grants, identities and retention. -/

/-- The grant of a machine session that a device family asks for; the machine it is for is left out. -/
def issueGrant (clock : ℕ) (id familyId organizationId projectId : String) (ttl : ℕ) : Option Db :=
  let issuedAt := clock / 1000 * 1000
  match db.family? familyId with
  | none => none
  | some family =>
    if family.organizationId = organizationId ∧ family.projectId = projectId ∧ family.revokedAt = none
        ∧ issuedAt < family.expiresAt ∧ (db.approver family).any (fun userId =>
          (db.activeRole userId organizationId).any fun role => role != .billing) then
      some { db with grants := db.grants ++ [⟨id, familyId, organizationId, issuedAt + ttl * 1000, none⟩] }
    else none

/-- The authorization of the family was approved by the user. -/
def approvedBy (userId : String) (f : FamilyRow) : Bool :=
  db.authorizations.any fun r => r.id == f.deviceAuthorizationId && r.approvedBy == some userId

def familyOf (p : FamilyRow → Bool) (familyId : String) : Bool :=
  db.families.any fun f => f.id == familyId && p f

/-- The trigger `users_revoke_dependents`. -/
def disableUser (clock : ℕ) (userId : String) : Db :=
  let disabled := { db with
    users := updateWhere (fun u => decide (u.id = userId)) (fun u => { u with disabledAt := some clock }) db.users }
  disabled.revokeWhere clock clock false (fun f => db.approvedBy userId f && f.revokedAt.isNone)
    (fun t => db.familyOf (db.approvedBy userId) t.familyId && t.revokedAt.isNone)
    fun g => g.revokedAt.isNone && db.familyOf (db.approvedBy userId) g.issuerId

/-- The trigger `organizations_revoke_dependents`. -/
def disableOrganization (clock : ℕ) (organizationId : String) : Db :=
  let disabled := { db with
    organizations := updateWhere (fun o => decide (o.id = organizationId))
      (fun o => { o with disabledAt := some clock }) db.organizations }
  disabled.revokeWhere clock clock false (fun f => f.organizationId == organizationId && f.revokedAt.isNone)
    (fun t => t.organizationId == organizationId && t.revokedAt.isNone)
    fun g => g.organizationId == organizationId && g.revokedAt.isNone

/-- The trigger `organization_members_revoke_dependents`. -/
def removeMember (clock : ℕ) (organizationId userId : String) : Db :=
  let p (f : FamilyRow) := db.approvedBy userId f && f.organizationId == organizationId
  let removed := { db with
    members := db.members.filter fun m => !(m.organizationId == organizationId && m.userId == userId) }
  removed.revokeWhere clock clock false (fun f => p f && f.revokedAt.isNone)
    (fun t => db.familyOf p t.familyId && t.revokedAt.isNone)
    fun g => g.organizationId == organizationId && g.revokedAt.isNone && db.familyOf p g.issuerId

/-- `reapTransaction`, on the rows that its batches reach and no lock hides. -/
def reap (clock : ℕ) (access families authorizations : List String) : Db :=
  let kept := db.families.filter fun f => !f.reaped clock families
  { db with
    accessTokens := db.accessTokens.filter fun t =>
      !(access.contains t.id && terminal clock 1 t.revokedAt t.expiresAt)
        && !db.familyOf (FamilyRow.reaped clock families) t.familyId,
    refreshTokens := db.refreshTokens.filter fun t => !db.familyOf (FamilyRow.reaped clock families) t.familyId,
    families := kept,
    authorizations := db.authorizations.filter fun r =>
      kept.any (fun f => f.deviceAuthorizationId == r.id)
        || !(db.families.any (fun f => f.reaped clock families && f.deviceAuthorizationId == r.id)
          || authorizations.contains r.id && terminal clock 1 none r.expiresAt) }

end Db

/-! ### The system -/

/-- A call between its first look at the database and its transaction, or inside the transaction of an exchange. -/
inductive Flight
  | authorizing (now : ℕ) (input : AuthorizeInput) (member : Member)
  | exchanging (now : ℕ) (id : String)
  /-- The authorization is locked. -/
  | redeeming (now : ℕ) (row : DeviceRow) (role : Option Role)
  | refreshing (now : ℕ) (id : String)
  | revoking (now : ℕ) (id : String)
  | authenticating (now : ℕ) (id : String) (raw : Option Token)
  deriving DecidableEq

/-- The authorization that a call has locked. -/
def Flight.lock? : Flight → Option String
  | .redeeming _ row _ => some row.id
  | _ => none

/-- The database, its clock, the calls in progress, and the identifiers drawn so far. -/
structure State where
  clock : ℕ
  db : Db
  flights : List Flight
  drawn : List String
  deriving DecidableEq

inductive Action
  | elapse (duration : ℕ)
  | createUser (id clerkUserId : String)
  | enableUser (id : String)
  | disableUser (id : String)
  | createOrganization (id : String)
  | enableOrganization (id : String)
  | disableOrganization (id : String)
  | createProject (id organizationId : String)
  | setRole (organizationId userId : String) (role : Role)
  | removeMember (organizationId userId : String)
  | issue (now : ℕ) (clientId : String) (scopes : List (Option Scope)) (draws : List CodeDraw)
  /-- The first look of a call; its transaction comes later. -/
  | authorize (now : ℕ) (input : AuthorizeInput)
  | exchange (now : ℕ) (raw : Option Token)
  | refresh (now : ℕ) (raw : Option Token)
  | revoke (now : ℕ) (raw : Option Token)
  | authenticate (now : ℕ) (raw : Option Token)
  /-- The next part of the `k`-th call. -/
  | proceed (k : ℕ) (draw : TokenDraw)
  /-- The `k`-th call is lost, and its transaction rolled back. -/
  | abort (k : ℕ)
  | issueGrant (id familyId organizationId projectId : String) (ttl : ℕ)
  | reap (access families authorizations : List String)

namespace State

def initial : State := ⟨0, ⟨[], [], [], [], [], [], [], [], []⟩, [], []⟩

variable (s : State)

def locked (id : String) : Bool := s.flights.any fun flight => flight.lock? == some id

/-- The identifiers have not been drawn before. -/
def fresh (ids : List String) : Bool := decide ids.Nodup && ids.all fun id => !s.drawn.contains id

/-- The next part of a call whose flight has been taken out of `s`. -/
def proceed (flight : Flight) (draw : TokenDraw) : Option State :=
  match flight with
  | .authorizing now input member =>
    if (s.db.authorizations.find? fun r => input.userCode == some r.userCode).any fun r => s.locked r.id then none
    else some { s with db := (s.db.authorizeLocked now input member).1 }
  | .exchanging now id =>
    if s.locked id then none
    else
      match s.db.exchangeLocked now id with
      | (db, .error _) => some { s with db }
      | (db, .ok row) =>
        let role := (row.approvedBy.bind fun userId => row.organizationId.bind (db.activeRole userId))
        some { s with db, flights := s.flights ++ [.redeeming now row role] }
  | .redeeming now row role =>
    if s.fresh [draw.familyId, draw.refreshId, draw.accessId] then
      some { s with
        db := (s.db.redeem now row role draw).1,
        drawn := s.drawn ++ [draw.familyId, draw.refreshId, draw.accessId] }
    else none
  | .refreshing now id =>
    if s.fresh [draw.refreshId, draw.accessId] then
      some { s with
        db := (s.db.refreshLocked s.clock now id draw).1, drawn := s.drawn ++ [draw.refreshId, draw.accessId] }
    else none
  | .revoking now id => some { s with db := (s.db.revokeLocked s.clock now id).1 }
  | .authenticating now id raw => some { s with db := (s.db.authenticateLocked s.clock now id raw).1 }

/-- A call that has found what it looked for. -/
def depart {ε α : Type} (found : Except ε α) (flight : α → Flight) : State :=
  match found with
  | .error _ => s
  | .ok a => { s with flights := s.flights ++ [flight a] }

def step : Action → Option State
  | .elapse duration => some { s with clock := s.clock + duration }
  | .createUser id clerkUserId =>
    if s.db.users.any fun u => u.id == id || u.clerkUserId == clerkUserId then none
    else some { s with db := { s.db with users := s.db.users ++ [⟨id, clerkUserId, none⟩] } }
  | .enableUser id =>
    some { s with
      db := { s.db with
        users := updateWhere (fun u => decide (u.id = id)) (fun u => { u with disabledAt := none }) s.db.users } }
  | .disableUser id =>
    if s.db.users.any fun u => u.id == id && u.disabledAt.isNone then
      some { s with db := s.db.disableUser s.clock id }
    else some s
  | .createOrganization id =>
    if s.db.organizations.any (·.id == id) then none
    else some { s with db := { s.db with organizations := s.db.organizations ++ [⟨id, none⟩] } }
  | .enableOrganization id =>
    some { s with
      db := { s.db with
        organizations := updateWhere (fun o => decide (o.id = id)) (fun o => { o with disabledAt := none })
          s.db.organizations } }
  | .disableOrganization id =>
    if s.db.organizations.any fun o => o.id == id && o.disabledAt.isNone then
      some { s with db := s.db.disableOrganization s.clock id }
    else some s
  | .createProject id organizationId =>
    some { s with db := { s.db with projects := s.db.projects ++ [⟨id, organizationId⟩] } }
  | .setRole organizationId userId role =>
    if s.db.users.any (·.id == userId) && s.db.organizations.any (·.id == organizationId) then
      some { s with
        db := { s.db with
          members := (s.db.members.filter fun m => !(m.organizationId == organizationId && m.userId == userId))
            ++ [⟨organizationId, userId, role⟩] } }
    else none
  | .removeMember organizationId userId =>
    if s.db.members.any fun m => m.organizationId == organizationId && m.userId == userId then
      some { s with db := s.db.removeMember s.clock organizationId userId }
    else some s
  | .issue now clientId scopes draws =>
    if s.fresh (draws.map (·.id)) then
      some { s with db := (s.db.issue now clientId scopes draws).1, drawn := s.drawn ++ draws.map (·.id) }
    else none
  | .authorize now input => some (s.depart (s.db.authorizeMember input) (.authorizing now input))
  | .exchange now raw => some (s.depart (s.db.exchangeFound raw) (.exchanging now))
  | .refresh now raw => some (s.depart (s.db.refreshFound now raw) (.refreshing now))
  | .revoke now raw =>
    match s.db.revokeFound now raw with
    | none => some s
    | some id => some { s with flights := s.flights ++ [.revoking now id] }
  | .authenticate now raw =>
    match s.db.authenticateFound now raw with
    | none => some s
    | some id => some { s with flights := s.flights ++ [.authenticating now id raw] }
  | .proceed k draw =>
    match s.flights[k]? with
    | none => none
    | some flight => proceed { s with flights := s.flights.eraseIdx k } flight draw
  | .abort k => some { s with flights := s.flights.eraseIdx k }
  | .issueGrant id familyId organizationId projectId ttl =>
    (s.db.issueGrant s.clock id familyId organizationId projectId ttl).map fun db => { s with db }
  | .reap access families authorizations =>
    some { s with
      db := s.db.reap s.clock access families (authorizations.filter fun id => !s.locked id) }

end State

end Nehemiah.Device
