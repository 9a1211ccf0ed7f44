import Nehemiah.Lib.Header
import Nehemiah.Lib.RowLocks
import Nehemiah.Lib.Run
import Nehemiah.Lib.Query
import Nehemiah.Control.Device

/-!
# API keys and what they have issued

The transactions of `PostgresApiKeyStore`, of a disabled organization and of the sessions that a key issues, taken apart
into their statements.  A statement reads the rows that are committed when it runs, and those that its transaction has
locked; what a transaction writes is seen by others when it commits.  The triggers on `api_keys` and `organizations` run
within the statements that fire them.

The checks of the administrator and of the project can only turn a transaction into a rollback, and the locks that they
take only make others wait, so that every order of statements is among the runs.

Of `machine_gateway_grants` the rows are modelled whose issuer is an API key.  The same statement issues grants for
device families and for users of Clerk, under `active_device_family` and `active_clerk_user`; those rows, and what
becomes of them, are outside the model.
-/

namespace Nehemiah.ApiKeys

open Lib Http
open Device (Scope)

/-! ### Rows -/

/-- A row of `api_keys`. -/
structure ApiKey where
  id : Text
  organizationId : Text
  projectId : Option Text
  name : Text
  keyPrefix : Text
  keyHash : Text
  scopes : List Scope
  expiresAt : Option ℤ
  disabledAt : Option ℤ
  revokedAt : Option ℤ

/-- A row of `machine_gateway_grants` whose `issuer_type` is `api_key`. -/
structure Grant where
  id : Text
  issuerId : Text
  organizationId : Text
  projectId : Text
  revokedAt : Option ℤ
deriving DecidableEq

/-- The tables, with the pairs of `replaced_id` and `replacement_id` of the audit events of rotations. -/
structure Db where
  keys : List ApiKey
  organizationDisabledAt : Text → Option ℤ
  grants : List Grant
  rotations : List (Text × Text)

def ApiKey.revoke (key : ApiKey) (now : ℤ) : ApiKey := { key with revokedAt := some (key.revokedAt.getD now) }

def Grant.revoke (g : Grant) (now : ℤ) : Grant := { g with revokedAt := some (g.revokedAt.getD now) }

/-- What `setDisabled` and `revoke` do to a key. -/
inductive KeyChange
  | revoke | disable | enable
deriving DecidableEq

def KeyChange.apply (now : ℤ) : KeyChange → ApiKey → ApiKey
  | .revoke, key => key.revoke now
  | .disable, key => { key with disabledAt := some (key.disabledAt.getD now) }
  | .enable, key => { key with disabledAt := none }

namespace Db

def updateKey (db : Db) (id : Text) (f : ApiKey → ApiKey) : Db :=
  { db with keys := db.keys.map fun key => if key.id = id then f key else key }

def insertKey (db : Db) (key : ApiKey) : Db := { db with keys := db.keys ++ [key] }

def revokeGrants (db : Db) (ids : List Text) (now : ℤ) : Db :=
  { db with grants := db.grants.map fun g => if g.id ∈ ids then g.revoke now else g }

/-- The grants that an update of the dependents of a key finds. -/
def grantsOf (db : Db) (id organizationId : Text) : List Text :=
  (db.grants.filter fun g =>
    decide (g.issuerId = id ∧ g.organizationId = organizationId ∧ g.revokedAt = none)).map Grant.id

/-- The grants that an update of the dependents of an organization finds. -/
def grantsIn (db : Db) (organizationId : Text) : List Text :=
  (db.grants.filter fun g => decide (g.organizationId = organizationId ∧ g.revokedAt = none)).map Grant.id

/-! ### The bounds -/

/-- The keys of an organization, or of one of its projects. -/
def inScope (organizationId : Text) (projectId : Option Text) (key : ApiKey) : Bool :=
  decide (key.organizationId = organizationId ∧ (projectId = none ∨ key.projectId = projectId))

def active (db : Db) (organizationId : Text) (projectId : Option Text) : ℕ :=
  db.keys.countP fun key => inScope organizationId projectId key && key.revokedAt.isNone

def retained (db : Db) (organizationId : Text) (projectId : Option Text) : ℕ :=
  db.keys.countP (inScope organizationId projectId)

end Db

/-- The constraints that `enforce_api_key_allocation_bounds` names. -/
inductive QuotaError
  | organizationActive | organizationRetained | projectActive | projectRetained

def activeLimit : Option Text → ℕ
  | none => 64
  | some _ => 16

def retainedLimit : Option Text → ℕ
  | none => 4096
  | some _ => 1024

/-- `enforce_api_key_allocation_bounds`. -/
def allocationError (db : Db) (organizationId : Text) (projectId : Option Text) : Option QuotaError :=
  if activeLimit none ≤ db.active organizationId none then some .organizationActive
  else if retainedLimit none ≤ db.retained organizationId none then some .organizationRetained
  else if projectId = none then none
  else if activeLimit projectId ≤ db.active organizationId projectId then some .projectActive
  else if retainedLimit projectId ≤ db.retained organizationId projectId then some .projectRetained
  else none

/-- Whether a row may be inserted: its id and prefix are new, and the trigger lets it pass. -/
def insertable (db : Db) (key : ApiKey) : Bool :=
  db.keys.all (fun other => decide (other.id ≠ key.id ∧ other.keyPrefix ≠ key.keyPrefix)) &&
    decide (allocationError db key.organizationId key.projectId = none)

/-- Whether `rotate` finds the key. -/
def rotatable (now : ℤ) (id organizationId : Text) (key : ApiKey) : Bool :=
  decide (key.id = id ∧ key.organizationId = organizationId ∧ key.disabledAt = none ∧ key.revokedAt = none) &&
    key.expiresAt.all fun e => decide (now < e)

/-- Whether `setDisabled` or `revoke` finds the key. -/
def changeable (id organizationId : Text) (change : KeyChange) (key : ApiKey) : Bool :=
  decide (key.id = id ∧ key.organizationId = organizationId ∧ (change = .revoke ∨ key.revokedAt = none))

/-- The grants that end with the change of a key: those of a key that is revoked, or that was enabled. -/
def endedBy (db : Db) (change : KeyChange) (key : ApiKey) : List Text :=
  match change with
  | .revoke => db.grantsOf key.id key.organizationId
  | .disable => if key.disabledAt = none then db.grantsOf key.id key.organizationId else []
  | .enable => []

/-- `active_api_key` of the statement that issues a session, for a principal that is an API key. -/
def issuable (db : Db) (now : ℤ) (g : Grant) : Bool :=
  decide (db.organizationDisabledAt g.organizationId = none) &&
    db.keys.any fun key => decide (key.id = g.issuerId ∧ key.organizationId = g.organizationId ∧
      (key.projectId = none ∨ key.projectId = some g.projectId) ∧ key.disabledAt = none ∧ key.revokedAt = none) &&
      key.expiresAt.all fun e => decide (now < e)

/-! ### Transactions -/

/-- What `rotate` is given for the new key. -/
structure Replacement where
  id : Text
  keyPrefix : Text
  keyHash : Text

/-- The row of the new key. -/
def Replacement.row (r : Replacement) (previous : ApiKey) : ApiKey :=
  { previous with id := r.id, keyPrefix := r.keyPrefix, keyHash := r.keyHash, disabledAt := none, revokedAt := none }

/-- A transaction, by the statement that it has run last. -/
inductive Txn
  | insertLocked (key : ApiKey)
  | inserted (key : ApiKey)
  | rotateLocked (id organizationId : Text) (replacement : Replacement)
  | rotateKeyLocked (previous : ApiKey) (replacement : Replacement)
  | rotated (previous : ApiKey) (replacement : Replacement) (now : ℤ) (grants : List Text)
  | keyLocked (id organizationId : Text) (change : KeyChange)
  | keyChanged (id organizationId : Text) (change : KeyChange) (now : ℤ) (grants : List Text)
  | organizationLocked (id : Text) (disabled : Bool)
  | organizationChanged (id : Text) (disabledAt : Option ℤ) (now : ℤ) (grants : List Text)
  | issueLocked (grant : Grant)
  | closed

inductive Resource
  | organization (id : Text)
  | key (id : Text)
  | keyPrefix (keyPrefix : Text)
deriving DecidableEq

/-- The rows that a transaction has locked; a row that it inserts keeps others from inserting its id and prefix. -/
def Txn.locks : Txn → List (Resource × LockMode)
  | .insertLocked key => [(.organization key.organizationId, .exclusive)]
  | .inserted key =>
    [(.organization key.organizationId, .exclusive), (.key key.id, .exclusive), (.keyPrefix key.keyPrefix, .exclusive)]
  | .rotateLocked _ organizationId _ => [(.organization organizationId, .exclusive)]
  | .rotateKeyLocked previous _ => [(.organization previous.organizationId, .exclusive), (.key previous.id, .exclusive)]
  | .rotated previous replacement _ _ =>
    [(.organization previous.organizationId, .exclusive), (.key previous.id, .exclusive),
      (.key replacement.id, .exclusive), (.keyPrefix replacement.keyPrefix, .exclusive)]
  | .keyLocked id _ _ | .keyChanged id _ _ _ _ => [(.key id, .exclusive)]
  | .organizationLocked id _ | .organizationChanged id _ _ _ => [(.organization id, .exclusive)]
  | .issueLocked grant => [(.key grant.issuerId, .shared), (.organization grant.organizationId, .shared)]
  | .closed => []

/-- What a transaction has written, which its commit makes visible. -/
def Txn.commit (db : Db) : Txn → Db
  | .inserted key => db.insertKey key
  | .rotated previous replacement now grants =>
    { ((db.updateKey previous.id fun key => key.revoke now).insertKey (replacement.row previous)).revokeGrants grants now
      with rotations := db.rotations ++ [(previous.id, replacement.id)] }
  | .keyChanged id _ change now grants => (db.updateKey id (change.apply now)).revokeGrants grants now
  | .organizationChanged id disabledAt now grants =>
    { db with organizationDisabledAt := Function.update db.organizationDisabledAt id disabledAt }.revokeGrants grants now
  | .issueLocked grant => { db with grants := db.grants ++ [grant] }
  | _ => db

structure State where
  db : Db
  txns : List Txn

inductive Act
  -- `insert`
  | lockForInsert (key : ApiKey)
  | insertRow (i : ℕ)
  -- `rotate`
  | lockForRotate (id organizationId : Text) (replacement : Replacement)
  | selectKey (i : ℕ) (now : ℤ)
  | rotateRow (i : ℕ) (now : ℤ)
  -- `setDisabled` and `revoke`
  | lockForChange (id organizationId : Text) (change : KeyChange)
  | changeRow (i : ℕ) (now : ℤ)
  -- `#setOrganizationDisabled`
  | lockForOrganization (id : Text) (disabled : Bool)
  | changeOrganization (i : ℕ) (now : ℤ)
  -- a session is issued
  | lockForIssue (now : ℤ) (grant : Grant)
  | commit (i : ℕ)
  | rollback (i : ℕ)
  -- sessions end by themselves
  | revokeGrant (id : Text) (now : ℤ)
  | reapGrants (ids : List Text)

namespace State

/-- A transaction begins, if it gets its locks. -/
def begin (s : State) (t : Txn) : Option State :=
  if lockable Txn.locks s.txns s.txns.length t.locks then some { s with txns := s.txns ++ [t] } else none

/-- A transaction goes on, if it gets the locks of its next statement. -/
def advance (s : State) (i : ℕ) (t : Txn) : Option State :=
  if lockable Txn.locks s.txns i t.locks then some { s with txns := s.txns.set i t } else none

end State

def next (s : State) : Act → Option State
  | .lockForInsert key => s.begin (.insertLocked { key with disabledAt := none, revokedAt := none })
  | .insertRow i =>
    match s.txns[i]? with
    | some (.insertLocked key) =>
      if s.db.organizationDisabledAt key.organizationId = none ∧ insertable s.db key = true then
        s.advance i (.inserted key)
      else none
    | _ => none
  | .lockForRotate id organizationId replacement => s.begin (.rotateLocked id organizationId replacement)
  | .selectKey i now =>
    match s.txns[i]? with
    | some (.rotateLocked id organizationId replacement) =>
      match s.db.keys.find? (rotatable now id organizationId) with
      | some previous =>
        if s.db.organizationDisabledAt organizationId = none then s.advance i (.rotateKeyLocked previous replacement)
        else none
      | none => none
    | _ => none
  | .rotateRow i now =>
    match s.txns[i]? with
    | some (.rotateKeyLocked previous replacement) =>
      -- the trigger sees that the key has been revoked
      if insertable (s.db.updateKey previous.id fun key => key.revoke now) (replacement.row previous) then
        s.advance i (.rotated previous replacement now (s.db.grantsOf previous.id previous.organizationId))
      else none
    | _ => none
  | .lockForChange id organizationId change =>
    if s.db.keys.any (changeable id organizationId change) then s.begin (.keyLocked id organizationId change) else none
  | .changeRow i now =>
    match s.txns[i]? with
    | some (.keyLocked id organizationId change) =>
      match s.db.keys.find? (changeable id organizationId change) with
      | some key => s.advance i (.keyChanged id organizationId change now (endedBy s.db change key))
      | none => none
    | _ => none
  | .lockForOrganization id disabled => s.begin (.organizationLocked id disabled)
  | .changeOrganization i now =>
    match s.txns[i]? with
    | some (.organizationLocked id true) =>
      match s.db.organizationDisabledAt id with
      | none => s.advance i (.organizationChanged id (some now) now (s.db.grantsIn id))
      | some t => s.advance i (.organizationChanged id (some t) now [])
    | some (.organizationLocked id false) => s.advance i (.organizationChanged id none now [])
    | _ => none
  | .lockForIssue now grant =>
    if issuable s.db now grant = true ∧ grant.revokedAt = none then s.begin (.issueLocked grant) else none
  | .commit i =>
    match s.txns[i]? with
    | some t => some ⟨t.commit s.db, s.txns.set i .closed⟩
    | none => none
  | .rollback i =>
    match s.txns[i]? with
    | some _ => some { s with txns := s.txns.set i .closed }
    | none => none
  | .revokeGrant id now => some { s with db := s.db.revokeGrants [id] now }
  | .reapGrants ids => some { s with db := { s.db with grants := s.db.grants.filter fun g => decide (g.id ∉ ids) } }

def start : State := ⟨⟨[], fun _ => none, [], []⟩, []⟩

end Nehemiah.ApiKeys
