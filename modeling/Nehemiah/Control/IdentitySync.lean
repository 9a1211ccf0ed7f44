import Nehemiah.Lib.LastWriter
import Nehemiah.Lib.Table
import Nehemiah.Lib.Text

/-!
# Identity-provider sync

`IdentityLifecycleService.syncIdentityProvider`: the events that disable users and move memberships.  Each
event has a stream, the user or the pair of a user and an organization, and a version on it.  A stream is a
last-writer-wins register of its receipts, so what is left does not depend on the order of the calls
(`provider_sync_converges`).

The locks of the event and of the stream are held to the end of the transaction, which makes it one step.  The
code keeps SHA-256 digests of payloads and streams; the model keeps what is digested.
-/

namespace Nehemiah.Identity

open Lib

/-! ### Requests -/

inductive ActorType
  | user | system
  deriving DecidableEq

structure Context where
  actorType : ActorType
  actorId : String
  actorOrganizationId : Option String
  reason : String
  deriving DecidableEq

inductive EventType
  | userDisabled | userDeleted | membershipUpserted | membershipRemoved
  deriving DecidableEq

def EventType.ofMembership : EventType → Bool
  | .userDisabled | .userDeleted => false
  | .membershipUpserted | .membershipRemoved => true

inductive Role
  | owner | admin | member | billing
  deriving DecidableEq

structure SyncInput where
  provider : String
  eventId : String
  sourceVersion : ℕ
  eventType : EventType
  clerkUserId : String
  organizationId : Option String
  role : Option Role
  deriving DecidableEq

/-- `validateContext`. -/
def Context.valid (context : Context) : Bool :=
  jsTrim context.actorId != "" && decide (jsLength context.actorId ≤ 256)
    && jsTrim context.reason != "" && decide (jsLength context.reason ≤ 512)
    && (context.actorType != .user || context.actorOrganizationId.any isUuid)

/-- `validateSyncInput`. -/
def SyncInput.valid (input : SyncInput) : Bool :=
  input.provider == "clerk" && isToken 127 input.eventId && decide (1 ≤ input.sourceVersion)
    && decide (input.sourceVersion ≤ 9007199254740991) && isToken 255 input.clerkUserId
    && input.eventType.ofMembership == input.organizationId.isSome && input.organizationId.all isUuid
    && (input.role.isSome == (input.eventType == .membershipUpserted))

/-- What `syncPayloadHash` digests. -/
structure Payload where
  input : SyncInput
  reason : String
  deriving DecidableEq

def syncPayloadHash (input : SyncInput) (context : Context) : Payload := ⟨input, jsTrim context.reason⟩

/-- What `syncStreamHash` digests. -/
inductive Stream
  | user (provider userId : String)
  | membership (provider userId organizationId : String)
  deriving DecidableEq

def syncStreamHash (input : SyncInput) (userId : String) : Stream :=
  match input.organizationId with
  | some organizationId => .membership input.provider userId (uuidValue organizationId)
  | none => .user input.provider userId

/-! ### Tables -/

structure UserRow where
  id : String
  clerkUserId : String
  disabledAt : Option ℕ
  deriving DecidableEq

structure OrganizationRow where
  id : String
  disabledAt : Option ℕ
  deriving DecidableEq

/-- `organization_members`. -/
structure MemberRow where
  organizationId : String
  userId : String
  role : Role
  deriving DecidableEq

inductive SyncOutcome
  | applied | stale | replayed

/-- `identity_provider_sync_receipts`. -/
structure Receipt where
  provider : String
  eventId : String
  payloadSha256 : Payload
  streamSha256 : Stream
  sourceVersion : ℕ
  eventType : EventType
  userId : String
  organizationId : Option String
  role : Option Role
  result : SyncOutcome
  changed : Bool

structure AuditRow where
  context : Context
  payload : Payload
  organizationId : Option String
  succeeded : Bool
  reasonCode : Option String
  changed : Option Bool
  result : Option SyncOutcome

structure Db where
  /-- `fleet_operator_organizations`. -/
  operators : List String
  organizations : List OrganizationRow
  users : List UserRow
  members : List MemberRow
  receipts : List Receipt
  audits : List AuditRow

/-! ### The transaction -/

inductive SyncError
  | invalidRequest | authorizationDenied | targetNotFound | conflict

structure SyncResult where
  eventId : String
  sourceVersion : ℕ
  result : SyncOutcome
  changed : Bool
  userId : String
  organizationId : Option String

namespace Db

variable (db : Db)

/-- `lockLifecycleActor`. -/
def lockLifecycleActor (context : Context) : Bool :=
  match context.actorType, context.actorOrganizationId with
  | .system, _ => true
  | .user, none => false
  | .user, some organizationId =>
    db.operators.contains (uuidValue organizationId)
      && db.organizations.any (fun o => o.id == uuidValue organizationId && o.disabledAt.isNone)
      && db.users.any fun u => u.clerkUserId == context.actorId && u.disabledAt.isNone
        && db.members.any fun m => m.organizationId == uuidValue organizationId && m.userId == u.id
          && (m.role == .owner || m.role == .admin)

def user? (clerkUserId : String) : Option UserRow := db.users.find? fun u => decide (u.clerkUserId = clerkUserId)

def ofPair (organizationId userId : String) (m : MemberRow) : Bool :=
  m.organizationId == organizationId && m.userId == userId

def member? (organizationId userId : String) : Option MemberRow := db.members.find? (ofPair organizationId userId)

def record (context : Context) (payload : Payload) (succeeded : Bool) (reasonCode : Option String := none)
    (changed : Option Bool := none) (result : Option SyncOutcome := none) (targetExists : Bool := false) : Db :=
  { db with
    audits := db.audits ++ [⟨context, payload,
      if targetExists then payload.input.organizationId else none, succeeded, reasonCode, changed, result⟩] }

/-- The newest version of the stream. -/
def latestVersion (provider : String) (stream : Stream) : Option ℕ :=
  ((db.receipts.filter fun r => r.provider == provider && r.streamSha256 == stream).map (·.sourceVersion)).max?

def receipt (input : SyncInput) (context : Context) (userId : String) (result : SyncOutcome) (changed : Bool) :
    Receipt :=
  ⟨input.provider, input.eventId, syncPayloadHash input context, syncStreamHash input userId, input.sourceVersion,
    input.eventType, userId, input.organizationId.map uuidValue, input.role, result, changed⟩

/-- The mutation of an event that is newer than its stream, and whether it changed anything. -/
def mutate (now : ℕ) (input : SyncInput) (user : UserRow) : Db × Bool :=
  let organizationId := uuidValue (input.organizationId.getD "")
  match input.eventType, input.role with
  | .userDisabled, _ | .userDeleted, _ =>
    if user.disabledAt = none then
      let users := updateWhere (fun u => u.id == user.id) (fun u => { u with disabledAt := some now }) db.users
      ({ db with users }, true)
    else (db, false)
  | .membershipUpserted, some role =>
    match db.member? organizationId user.id with
    | none => ({ db with members := db.members ++ [⟨organizationId, user.id, role⟩] }, true)
    | some m =>
      if m.role = role then (db, false)
      else
        let members := updateWhere (ofPair organizationId user.id) (fun m => { m with role }) db.members
        ({ db with members }, true)
  | .membershipUpserted, none => (db, false)
  | .membershipRemoved, _ =>
    ({ db with members := db.members.filter fun m => !ofPair organizationId user.id m },
      db.members.any (ofPair organizationId user.id))

/-- The part of `syncIdentityProvider` under the locks of the event and of its stream. -/
def accept (now : ℕ) (input : SyncInput) (context : Context) (user : UserRow) : Db × Except SyncError SyncResult :=
  let payload := syncPayloadHash input context
  let stream := syncStreamHash input user.id
  match db.receipts.find? fun r => r.provider == input.provider && r.eventId == input.eventId with
  | some existing =>
    if existing.payloadSha256 ≠ payload then
      (db.record context payload false "event_id_conflict" none none true, .error .conflict)
    else
      (db.record context payload true none existing.changed (some .replayed) true,
        .ok ⟨input.eventId, existing.sourceVersion, .replayed, existing.changed, existing.userId,
          existing.organizationId⟩)
  | none =>
    if db.receipts.any fun r => r.provider == input.provider && r.streamSha256 == stream
        && r.sourceVersion == input.sourceVersion then
      (db.record context payload false "source_version_conflict" none none true, .error .conflict)
    else if (db.latestVersion input.provider stream).any fun latest => decide (input.sourceVersion < latest) then
      let noted : Db := { db with receipts := db.receipts ++ [receipt input context user.id .stale false] }
      (noted.record context payload true none (some false) (some .stale) true,
        .ok ⟨input.eventId, input.sourceVersion, .stale, false, user.id, input.organizationId⟩)
    else
      let (mutated, changed) := db.mutate now input user
      let noted : Db :=
        { mutated with receipts := mutated.receipts ++ [receipt input context user.id .applied changed] }
      (noted.record context payload true none (some changed) (some .applied) true,
        .ok ⟨input.eventId, input.sourceVersion, .applied, changed, user.id, input.organizationId⟩)

/-- `syncIdentityProvider`. -/
def syncIdentityProvider (now : ℕ) (input : SyncInput) (context : Context) : Db × Except SyncError SyncResult :=
  let payload := syncPayloadHash input context
  if !context.valid || !input.valid then (db, .error .invalidRequest)
  else if context.actorType != .user || !db.lockLifecycleActor context then
    (db.record context payload false "operator_authorization_changed", .error .authorizationDenied)
  else
    match db.user? input.clerkUserId with
    | none => (db.record context payload false "target_user_not_found", .error .targetNotFound)
    | some user =>
      if !input.organizationId.all fun o => db.organizations.any (·.id == uuidValue o) then
        (db.record context payload false "target_organization_not_found", .error .targetNotFound)
      else db.accept now input context user

end Db

/-! ### Calls -/

structure Call where
  now : ℕ
  input : SyncInput
  context : Context
  deriving DecidableEq

def Call.payload (c : Call) : Payload := syncPayloadHash c.input c.context

namespace Db

def sync (db : Db) (c : Call) : Db × Except SyncError SyncResult := db.syncIdentityProvider c.now c.input c.context

/-- Calls, one after the other. -/
def deliver : Db → List Call → Db
  | db, [] => db
  | db, c :: rest => deliver (db.sync c).1 rest

end Db

/-! ### What the events say -/

namespace Db

variable (db : Db)

/-- The role that the user has in the organization, if any. -/
def role? (organizationId userId : String) : Option Role := (db.member? organizationId userId).map (·.role)

/-- The stream of an event, by the user that its subject is mapped to. -/
def streamOf (p : Payload) : Option Stream :=
  (db.user? p.input.clerkUserId).map fun u => syncStreamHash p.input u.id

/-- The call is valid, its operator is authorized, and its user and organization exist. -/
structure Admitted (c : Call) : Prop where
  context : c.context.valid = true
  input : c.input.valid = true
  actor : c.context.actorType = .user
  authorized : db.lockLifecycleActor c.context = true
  user : (db.user? c.input.clerkUserId).isSome = true
  organization : c.input.organizationId.all (fun o => db.organizations.any (·.id == uuidValue o)) = true

end Db

instance (db : Db) (c : Call) : Decidable (db.Admitted c) :=
  decidable_of_iff (c.context.valid = true ∧ c.input.valid = true ∧ c.context.actorType = .user ∧
      db.lockLifecycleActor c.context = true ∧ (db.user? c.input.clerkUserId).isSome = true ∧
      c.input.organizationId.all (fun o => db.organizations.any (·.id == uuidValue o)) = true)
    ⟨fun ⟨h₁, h₂, h₃, h₄, h₅, h₆⟩ => ⟨h₁, h₂, h₃, h₄, h₅, h₆⟩,
      fun h => ⟨h.context, h.input, h.actor, h.authorized, h.user, h.organization⟩⟩

/-- The receipt is one of the event. -/
structure Receipt.IsOf (r : Receipt) (db : Db) (p : Payload) : Prop where
  payload : r.payloadSha256 = p
  provider : r.provider = p.input.provider
  eventId : r.eventId = p.input.eventId
  stream : db.streamOf p = some r.streamSha256
  version : r.sourceVersion = p.input.sourceVersion

def Payload.version (p : Payload) : ℕ := p.input.sourceVersion

/-- The events of a stream. -/
def onStream (db : Db) (events : List Payload) (stream : Stream) : List Payload :=
  events.filter fun p => decide (db.streamOf p = some stream)

section Mutate

variable {db : Db} {organizationId userId o : String} {input : SyncInput} {user : UserRow} {now : ℕ}

theorem ofPair_of_ne (h : ¬ (o = organizationId ∧ userId = user.id)) {m : MemberRow}
    (hm : Db.ofPair o userId m = true) : Db.ofPair organizationId user.id m = false := by
  simp only [Db.ofPair, Bool.and_eq_true, beq_iff_eq] at hm
  rw [Db.ofPair, hm.1, hm.2]
  simpa using h

theorem valid_kind (hvalid : input.valid = true) : input.eventType.ofMembership = input.organizationId.isSome ∧
    input.role.isSome = (input.eventType == .membershipUpserted) := by
  simp only [SyncInput.valid, Bool.and_eq_true, beq_iff_eq] at hvalid
  exact ⟨hvalid.1.1.2, hvalid.2⟩

/-- Rows of the pair are given a role. -/
theorem role?_updateWhere (role : Role) : Option.map (·.role)
    ((updateWhere (Db.ofPair organizationId userId) (fun m => { m with role }) db.members).find?
      (Db.ofPair organizationId userId)) = (db.role? organizationId userId).map fun _ => role := by
  have hpair : ∀ m : MemberRow, Db.ofPair organizationId userId { m with role } = Db.ofPair organizationId userId m :=
    fun _ => rfl
  rw [find?_updateWhere hpair, Db.role?, Db.member?, Option.map_map, Option.map_map]
  cases hfind : db.members.find? (Db.ofPair organizationId userId) with
  | none => rfl
  | some m =>
    have hm := List.find?_some hfind
    show some (if Db.ofPair organizationId userId m then { m with role } else m).role = some role
    rw [if_pos hm]

/-- The membership of the pair that an event is about, after it. -/
theorem mutate_role? (hvalid : input.valid = true) (ho : input.organizationId.map uuidValue = some organizationId) :
    (db.mutate now input user).1.role? organizationId user.id = input.role := by
  obtain ⟨hmembership, hrole⟩ := valid_kind hvalid
  obtain ⟨target, htarget, rfl⟩ := Option.map_eq_some_iff.mp ho
  cases htype : input.eventType with
  | userDisabled => simp [htype, htarget, EventType.ofMembership] at hmembership
  | userDeleted => simp [htype, htarget, EventType.ofMembership] at hmembership
  | membershipUpserted =>
    obtain ⟨role, hr⟩ := Option.isSome_iff_exists.mp (hrole.trans (by rw [htype]; rfl))
    simp only [Db.mutate, htype, hr, htarget, Option.getD_some]
    cases hm : db.member? (uuidValue target) user.id with
    | none =>
      show Option.map _ (List.find? _ (db.members ++ [_])) = some role
      rw [List.find?_append, show db.members.find? _ = none from hm, Option.none_or,
        List.find?_cons_of_pos (by simp [Db.ofPair]), Option.map_some]
    | some m =>
      dsimp only
      split_ifs with hsame
      · rw [Db.role?, hm, Option.map_some, hsame]
      · exact (role?_updateWhere role).trans (by rw [Db.role?, hm]; rfl)
  | membershipRemoved =>
    have hnone : input.role = none := by
      cases hr : input.role with
      | none => rfl
      | some role => simp [hr, htype] at hrole
    simp only [Db.mutate, htype, htarget, Option.getD_some]
    rw [hnone, Db.role?, Db.member?, List.find?_filter, List.find?_eq_none.mpr, Option.map_none]
    simp

/-- An event leaves the memberships of the other pairs alone. -/
theorem mutate_role?_of_ne (hvalid : input.valid = true)
    (h : ¬ (input.organizationId.map uuidValue = some o ∧ userId = user.id)) :
    (db.mutate now input user).1.role? o userId = db.role? o userId := by
  obtain ⟨hmembership, -⟩ := valid_kind hvalid
  have hother {target : String} (htarget : input.organizationId = some target) :
      ¬ (o = uuidValue target ∧ userId = user.id) := by
    rintro ⟨rfl, huser⟩
    exact h ⟨by rw [htarget]; rfl, huser⟩
  have hupdate {target : String} (htarget : input.organizationId = some target) (role : Role) :
      Option.map (·.role) ((updateWhere (Db.ofPair (uuidValue target) user.id) (fun m => { m with role })
        db.members).find? (Db.ofPair o userId)) = db.role? o userId := by
    have hpair : ∀ m : MemberRow, Db.ofPair o userId { m with role } = Db.ofPair o userId m := fun _ => rfl
    rw [find?_updateWhere hpair, Db.role?, Db.member?]
    cases hfind : db.members.find? (Db.ofPair o userId) with
    | none => rfl
    | some m =>
      have hm := ofPair_of_ne (hother htarget) (List.find?_some hfind)
      show some (if Db.ofPair (uuidValue target) user.id m then { m with role } else m).role = some m.role
      rw [if_neg (by rw [hm]; exact Bool.false_ne_true)]
  cases htype : input.eventType with
  | userDisabled =>
    simp only [Db.mutate, htype]
    split_ifs <;> rfl
  | userDeleted =>
    simp only [Db.mutate, htype]
    split_ifs <;> rfl
  | membershipUpserted =>
    obtain ⟨target, htarget⟩ := Option.isSome_iff_exists.mp (hmembership.symm.trans (by rw [htype]; rfl))
    cases hr : input.role with
    | none => simp only [Db.mutate, htype, hr]
    | some role =>
      simp only [Db.mutate, htype, hr, htarget, Option.getD_some]
      split
      · show Option.map _ (List.find? _ (db.members ++ [_])) = Option.map _ (List.find? _ db.members)
        have hpair : ¬ Db.ofPair o userId ⟨uuidValue target, user.id, role⟩ = true := by
          intro hpair
          simp only [Db.ofPair, Bool.and_eq_true, beq_iff_eq] at hpair
          exact hother htarget ⟨hpair.1.symm, hpair.2.symm⟩
        rw [List.find?_append, List.find?_cons_of_neg hpair, List.find?_nil, Option.or_none]
      · split_ifs
        · rfl
        · exact hupdate htarget role
  | membershipRemoved =>
    obtain ⟨target, htarget⟩ := Option.isSome_iff_exists.mp (hmembership.symm.trans (by rw [htype]; rfl))
    simp only [Db.mutate, htype, htarget, Option.getD_some]
    rw [Db.role?, Db.role?, Db.member?, Db.member?, List.find?_filter]
    congr 2
    funext m
    cases hm : Db.ofPair o userId m with
    | false => simp
    | true => simp [ofPair_of_ne (hother htarget) hm]

theorem mutate_frame : (db.mutate now input user).1.receipts = db.receipts ∧
    (db.mutate now input user).1.organizations = db.organizations ∧
    (db.mutate now input user).1.operators = db.operators := by
  simp only [Db.mutate]
  split
  · split_ifs <;> exact ⟨rfl, rfl, rfl⟩
  · split_ifs <;> exact ⟨rfl, rfl, rfl⟩
  · split
    · exact ⟨rfl, rfl, rfl⟩
    · split_ifs <;> exact ⟨rfl, rfl, rfl⟩
  · exact ⟨rfl, rfl, rfl⟩
  · exact ⟨rfl, rfl, rfl⟩

/-- The users after an event. -/
theorem mutate_users : (db.mutate now input user).1.users = db.users ∧
      (input.eventType.ofMembership = false → user.disabledAt.isSome = true) ∨
    (db.mutate now input user).1.users = updateWhere (fun u => u.id == user.id)
      (fun u => { u with disabledAt := some now }) db.users := by
  have hdisabled (hne : ¬ user.disabledAt = none) : user.disabledAt.isSome = true := by
    simpa [Option.isSome_iff_ne_none] using hne
  cases htype : input.eventType with
  | userDisabled =>
    simp only [Db.mutate, htype]
    split_ifs with h
    exacts [Or.inr rfl, Or.inl ⟨rfl, fun _ => hdisabled h⟩]
  | userDeleted =>
    simp only [Db.mutate, htype]
    split_ifs with h
    exacts [Or.inr rfl, Or.inl ⟨rfl, fun _ => hdisabled h⟩]
  | membershipUpserted =>
    refine Or.inl ⟨?_, fun h => nomatch h⟩
    cases hr : input.role with
    | none => simp only [Db.mutate, htype, hr]
    | some role =>
      simp only [Db.mutate, htype, hr]
      split
      · rfl
      · split_ifs <;> rfl
  | membershipRemoved => exact Or.inl ⟨by simp only [Db.mutate, htype], fun h => nomatch h⟩

end Mutate

/-! ### One call -/

section Call

variable {db x : Db} {c : Call} {user : UserRow} {events : List Payload} {p q : Payload}

theorem sync_admitted (h : db.Admitted c) (hu : db.user? c.input.clerkUserId = some user) :
    db.sync c = db.accept c.now c.input c.context user := by
  simp only [Db.sync, Db.syncIdentityProvider, h.context, h.input, h.actor, h.authorized, hu, h.organization,
    Bool.not_true, Bool.or_self, bne_self_eq_false, Bool.false_eq_true, if_false]

theorem latestVersion_any (provider : String) (stream : Stream) (v : ℕ) :
    (db.latestVersion provider stream).any (fun latest => decide (v < latest)) = true ↔
      ∃ r ∈ db.receipts, (r.provider = provider ∧ r.streamSha256 = stream) ∧ v < r.sourceVersion := by
  have hmem (n : ℕ) : n ∈ (db.receipts.filter fun r => r.provider == provider && r.streamSha256 == stream).map
      (·.sourceVersion) ↔ ∃ r ∈ db.receipts, (r.provider = provider ∧ r.streamSha256 = stream) ∧ r.sourceVersion = n := by
    simp only [List.mem_map, List.mem_filter, Bool.and_eq_true, beq_iff_eq, and_assoc]
  rw [Option.any_eq_true]
  constructor
  · rintro ⟨latest, hlatest, hlt⟩
    obtain ⟨r, hr, hstream, rfl⟩ := (hmem latest).mp (List.max?_mem hlatest)
    exact ⟨r, hr, hstream, of_decide_eq_true hlt⟩
  · rintro ⟨r, hr, hstream, hlt⟩
    have hin := (hmem r.sourceVersion).mpr ⟨r, hr, hstream, rfl⟩
    obtain ⟨latest, hlatest⟩ := Option.isSome_iff_exists.mp (List.isSome_max?_of_mem hin)
    have hle := (List.max?_eq_some_iff.mp hlatest).2 _ hin
    exact ⟨latest, hlatest, decide_eq_true (hlt.trans_le hle)⟩

/-- The tables say what the events say that have come; `db` is the database before them. -/
structure Synced (db : Db) (events : List Payload) (x : Db) : Prop where
  key : (x.users.map (·.id)).Nodup
  subject : ∀ clerkUserId, (x.user? clerkUserId).map (·.id) = (db.user? clerkUserId).map (·.id)
  valid : ∀ p ∈ events, p.input.valid = true
  recorded : ∀ p ∈ events, ∃ r ∈ x.receipts, r.IsOf db p
  source : ∀ r ∈ x.receipts, ∃ p ∈ events, r.IsOf db p
  untouched : ∀ o userId, onStream db events (.membership "clerk" userId o) = [] → x.role? o userId = db.role? o userId
  latest : ∀ o userId p, IsLatest Payload.version (onStream db events (.membership "clerk" userId o)) p →
    x.role? o userId = p.input.role
  disabled : ∀ p ∈ events, p.input.eventType.ofMembership = false → ∀ userId,
    (db.user? p.input.clerkUserId).map (·.id) = some userId → ∀ u ∈ x.users, u.id = userId → u.disabledAt.isSome = true

/-- The calls read and write no more than this. -/
structure SameTables (x y : Db) : Prop where
  operators : y.operators = x.operators
  organizations : y.organizations = x.organizations
  users : y.users = x.users
  members : y.members = x.members
  receipts : y.receipts = x.receipts

theorem record_same (context : Context) (payload : Payload) (ok : Bool) (reason : Option String)
    (changed : Option Bool) (result : Option SyncOutcome) (exists' : Bool) :
    SameTables x (x.record context payload ok reason changed result exists') := ⟨rfl, rfl, rfl, rfl, rfl⟩

theorem Synced.same {y : Db} (h : Synced db events x) (hs : SameTables x y) : Synced db events y := by
  have hrole (o userId : String) : y.role? o userId = x.role? o userId := by
    rw [Db.role?, Db.role?, Db.member?, Db.member?, hs.members]
  refine ⟨by rw [hs.users]; exact h.key, fun clerk => ?_, h.valid, fun p hp => ?_, fun r hr => h.source r (hs.receipts ▸ hr),
    fun o userId hnil => (hrole o userId).trans (h.untouched o userId hnil),
    fun o userId p hp => (hrole o userId).trans (h.latest o userId p hp),
    fun p hp hm userId hu u hin => h.disabled p hp hm userId hu u (hs.users ▸ hin)⟩
  · rw [Db.user?, hs.users]
    exact h.subject clerk
  · rw [hs.receipts]
    exact h.recorded p hp

theorem valid_provider {input : SyncInput} (h : input.valid = true) : input.provider = "clerk" := by
  simp only [SyncInput.valid, Bool.and_eq_true, beq_iff_eq] at h
  exact h.1.1.1.1.1.1.1

theorem streamOf_eq (p : Payload) :
    db.streamOf p = ((db.user? p.input.clerkUserId).map (·.id)).map (syncStreamHash p.input) := by
  rw [Db.streamOf, Option.map_map]
  rfl

theorem onStream_concat (stream : Stream) : onStream db (events ++ [p]) stream
    = if db.streamOf p = some stream then onStream db events stream ++ [p] else onStream db events stream := by
  rw [onStream, List.filter_append, List.filter_singleton]
  split_ifs with h
  · rw [cond_eq_ite, if_pos (decide_eq_true h)]
    rfl
  · rw [cond_eq_ite, if_neg (by simpa using h), List.append_nil]
    rfl

theorem mem_onStream {stream : Stream} : p ∈ onStream db events stream ↔ p ∈ events ∧ db.streamOf p = some stream := by
  rw [onStream, List.mem_filter, decide_eq_true_eq]

/-- The stream of a membership. -/
theorem syncStreamHash_membership {input : SyncInput} {userId u o : String} (hvalid : input.valid = true) :
    syncStreamHash input userId = .membership "clerk" u o ↔
      input.organizationId.map uuidValue = some o ∧ u = userId := by
  rw [syncStreamHash]
  cases input.organizationId with
  | none => simp
  | some organizationId =>
    rw [valid_provider hvalid, Stream.membership.injEq, Option.map_some, Option.some.injEq]
    exact ⟨fun h => ⟨h.2.2, h.2.1.symm⟩, fun h => ⟨rfl, h.2.symm, h.1⟩⟩

/-- A receipt is added for an event that no receipt is for. -/
theorem Synced.receive {y : Db} {new : Receipt} (h : Synced db events x) (hvalid : p.input.valid = true)
    (hkey : (y.users.map (·.id)).Nodup)
    (hsubject : ∀ clerkUserId, (y.user? clerkUserId).map (·.id) = (x.user? clerkUserId).map (·.id))
    (hreceipts : y.receipts = x.receipts ++ [new]) (hnew : new.IsOf db p)
    (hother : ∀ o userId, db.streamOf p ≠ some (.membership "clerk" userId o) → y.role? o userId = x.role? o userId)
    (hlatest : ∀ o userId, db.streamOf p = some (.membership "clerk" userId o) →
      ∀ q, IsLatest Payload.version (onStream db events (.membership "clerk" userId o) ++ [p]) q →
        y.role? o userId = q.input.role)
    (hdisabled : ∀ u ∈ y.users, (∃ u' ∈ x.users, u'.id = u.id ∧ (u'.disabledAt.isSome = true →
        u.disabledAt.isSome = true)) ∧
      (p.input.eventType.ofMembership = false → (db.user? p.input.clerkUserId).map (·.id) = some u.id →
        u.disabledAt.isSome = true)) :
    Synced db (events ++ [p]) y := by
  refine ⟨hkey, fun clerk => (hsubject clerk).trans (h.subject clerk), fun q hq => ?_, fun q hq => ?_, fun r hr => ?_,
    fun o userId hnil => ?_, fun o userId q hq => ?_, fun q hq hm userId hu u huin hid => ?_⟩
  · rcases List.mem_append.mp hq with hq | hq
    · exact h.valid q hq
    · rw [List.mem_singleton.mp hq]
      exact hvalid
  · rw [hreceipts]
    rcases List.mem_append.mp hq with hq | hq
    · obtain ⟨r, hr, hof⟩ := h.recorded q hq
      exact ⟨r, List.mem_append_left _ hr, hof⟩
    · rw [List.mem_singleton.mp hq]
      exact ⟨new, List.mem_append_right _ (List.mem_singleton_self new), hnew⟩
  · rw [hreceipts] at hr
    rcases List.mem_append.mp hr with hr | hr
    · obtain ⟨q, hq, hof⟩ := h.source r hr
      exact ⟨q, List.mem_append_left _ hq, hof⟩
    · rw [List.mem_singleton.mp hr]
      exact ⟨p, List.mem_append_right _ (List.mem_singleton_self p), hnew⟩
  · rw [onStream_concat] at hnil
    split_ifs at hnil with hstream
    · exact absurd hnil (List.append_ne_nil_of_right_ne_nil _ (List.cons_ne_nil _ _))
    · rw [hother o userId hstream, h.untouched o userId hnil]
  · rw [onStream_concat] at hq
    split_ifs at hq with hstream
    · exact hlatest o userId hstream q hq
    · rw [hother o userId hstream, h.latest o userId q hq]
  · obtain ⟨⟨u', hu', hid', hmono⟩, hthis⟩ := hdisabled u huin
    rcases List.mem_append.mp hq with hq | hq
    · exact hmono (h.disabled q hq hm userId hu u' hu' (hid'.trans hid))
    · rw [List.mem_singleton.mp hq] at hm hu
      exact hthis hm (by rw [hu, hid])

/-- The receipt that a call writes is one of its event. -/
theorem receipt_isOf {result : SyncOutcome} {changed : Bool} (h : Synced db events x)
    (hu : x.user? c.input.clerkUserId = some user) :
    (Db.receipt c.input c.context user.id result changed).IsOf db c.payload := by
  refine ⟨rfl, rfl, rfl, ?_, rfl⟩
  rw [streamOf_eq]
  show ((db.user? c.input.clerkUserId).map (·.id)).map (syncStreamHash c.input) = _
  rw [← h.subject, hu]
  rfl

theorem Synced.streamOf (h : Synced db events x) (hu : x.user? c.input.clerkUserId = some user) :
    db.streamOf c.payload = some (syncStreamHash c.input user.id) := by
  rw [streamOf_eq]
  show ((db.user? c.input.clerkUserId).map (·.id)).map (syncStreamHash c.input) = _
  rw [← h.subject, hu]
  rfl

/-- An event that is older than another one of its stream. -/
theorem Synced.stale (h : Synced db events x) (hvalid : c.input.valid = true)
    (hu : x.user? c.input.clerkUserId = some user) {r : Receipt} (hr : r ∈ x.receipts)
    (hstream : r.streamSha256 = syncStreamHash c.input user.id) (hlt : c.input.sourceVersion < r.sourceVersion) :
    Synced db (events ++ [c.payload])
      { x with receipts := x.receipts ++ [Db.receipt c.input c.context user.id .stale false] } := by
  obtain ⟨q, hq, hof⟩ := h.source r hr
  have hqstream : db.streamOf q = db.streamOf c.payload := by
    rw [h.streamOf hu, hof.stream, hstream]
  have hqlt : c.payload.version < q.version := by
    show c.input.sourceVersion < q.input.sourceVersion
    rw [← hof.version]
    exact hlt
  refine h.receive hvalid h.key (fun _ => rfl) rfl (receipt_isOf h hu) (fun _ _ _ => rfl)
    (fun o userId hthis p hp => ?_) fun u huin => ⟨⟨u, huin, rfl, fun hd => hd⟩, fun hm huser => ?_⟩
  · -- The other event is on the stream, so the latest event of the stream stays the latest.
    have hqin : q ∈ onStream db events (.membership "clerk" userId o) :=
      mem_onStream.mpr ⟨hq, hqstream.trans hthis⟩
    obtain ⟨m, hm⟩ : ∃ m, IsLatest Payload.version (onStream db events (.membership "clerk" userId o)) m :=
      isLatest_exists (List.ne_nil_of_mem hqin)
    exact h.latest o userId p ((isLatest_concat_of_gt hm (hqlt.trans_le (hm.2 q hqin))).mp hp)
  · -- The other event has disabled the user.
    have hnone : c.input.organizationId = none := by
      have hkind := (valid_kind hvalid).1
      rw [show c.input.eventType.ofMembership = false from hm] at hkind
      simpa using hkind.symm
    have huid : user.id = u.id := by
      have hsub := h.subject c.input.clerkUserId
      rw [hu] at hsub
      exact Option.some.inj (hsub.trans huser)
    have hqs : db.streamOf q = some (.user c.input.provider user.id) := by
      rw [hqstream, h.streamOf hu, syncStreamHash, hnone]
    rw [streamOf_eq] at hqs
    obtain ⟨userId, hquser, hqhash⟩ := Option.map_eq_some_iff.mp hqs
    have hqkind : q.input.eventType.ofMembership = false ∧ userId = user.id := by
      rw [syncStreamHash] at hqhash
      cases hqo : q.input.organizationId with
      | none =>
        rw [hqo] at hqhash
        exact ⟨by rw [(valid_kind (h.valid q hq)).1, hqo]; rfl, (Stream.user.inj hqhash).2⟩
      | some o =>
        rw [hqo] at hqhash
        exact nomatch hqhash
    exact h.disabled q hq hqkind.1 userId hquser u huin (hqkind.2.trans huid).symm

/-- An event that is newer than those of its stream. -/
theorem Synced.apply (h : Synced db events x) (hvalid : c.input.valid = true)
    (hu : x.user? c.input.clerkUserId = some user)
    (hnewest : ∀ r ∈ x.receipts, r.streamSha256 = syncStreamHash c.input user.id →
      r.sourceVersion < c.input.sourceVersion) (changed : Bool) :
    Synced db (events ++ [c.payload]) { (x.mutate c.now c.input user).1 with
      receipts := (x.mutate c.now c.input user).1.receipts ++ [Db.receipt c.input c.context user.id .applied changed] } := by
  have huid : (db.user? c.input.clerkUserId).map (·.id) = some user.id := by
    rw [← h.subject, hu]
    rfl
  have hstream (o userId : String) : db.streamOf c.payload = some (.membership "clerk" userId o) ↔
      c.input.organizationId.map uuidValue = some o ∧ userId = user.id := by
    rw [h.streamOf hu, Option.some.injEq, syncStreamHash_membership hvalid]
  have husers : ∀ f : UserRow → Bool, (∀ u, f { u with disabledAt := some c.now } = f u) →
      ((x.mutate c.now c.input user).1.users.find? f).map (·.id) = (x.users.find? f).map (·.id) := by
    intro f hf
    rcases @mutate_users x _ _ _ with ⟨heq, _⟩ | heq
    · rw [heq]
    · rw [heq, find?_updateWhere hf, Option.map_map]
      refine congrArg (fun g => Option.map g (x.users.find? f)) (funext fun u => ?_)
      show (if _ then { u with disabledAt := some c.now } else u).id = u.id
      split_ifs <;> rfl
  refine h.receive hvalid ?_ (fun clerk => husers _ fun _ => rfl) (by rw [mutate_frame.1]) (receipt_isOf h hu)
    (fun o userId hne => mutate_role?_of_ne hvalid fun hthis => hne ((hstream o userId).mpr hthis))
    (fun o userId hthis q hq => ?_) fun u huin => ?_
  · rcases @mutate_users x _ _ _ with ⟨heq, _⟩ | heq
    · rw [heq]
      exact h.key
    · have hids : ∀ u : UserRow, ({ u with disabledAt := some c.now } : UserRow).id = u.id := fun _ => rfl
      rw [heq, map_updateWhere hids]
      exact h.key
  · obtain ⟨ho, rfl⟩ := (hstream o userId).mp hthis
    have hq' : q = c.payload := by
      rcases eq_or_ne (onStream db events (.membership "clerk" user.id o)) [] with hnil | hne
      · rw [hnil] at hq
        exact isLatest_singleton.mp hq
      · obtain ⟨m, hm⟩ : ∃ m, IsLatest Payload.version (onStream db events (.membership "clerk" user.id o)) m :=
          isLatest_exists hne
        refine (isLatest_concat_of_lt hm ?_).mp hq
        obtain ⟨hmem, hms⟩ := mem_onStream.mp hm.1
        obtain ⟨r, hr, hof⟩ := h.recorded m hmem
        have hlt := hnewest r hr (Option.some.inj (by rw [← hof.stream, hms, ← hthis, h.streamOf hu]))
        rw [hof.version] at hlt
        exact hlt
    rw [hq']
    exact mutate_role? hvalid ho
  · rcases @mutate_users x _ _ _ with ⟨heq, hdisabled⟩ | heq
    · rw [show ({ (x.mutate c.now c.input user).1 with receipts := _ } : Db).users = x.users from heq] at huin
      refine ⟨⟨u, huin, rfl, fun hd => hd⟩, fun hm hthis => ?_⟩
      have hsame : user = u := key_inj h.key (List.mem_of_find?_eq_some hu) huin
        (Option.some.inj (huid.symm.trans hthis))
      rw [← hsame]
      exact hdisabled hm
    · rw [show ({ (x.mutate c.now c.input user).1 with receipts := _ } : Db).users = _ from heq] at huin
      obtain ⟨u', hu', rfl⟩ := mem_updateWhere.mp huin
      refine ⟨⟨u', hu', ?_, fun hd => ?_⟩, fun hm hthis => ?_⟩
      · split_ifs <;> rfl
      · split_ifs
        exacts [rfl, hd]
      · split_ifs at hthis ⊢ with hid
        · rfl
        · exact absurd (beq_iff_eq.mpr (Option.some.inj (huid.symm.trans hthis)).symm) hid

theorem find_receipt_none (h : (x.receipts.find? fun r => r.provider == c.input.provider
    && r.eventId == c.input.eventId) = none) (hs : Synced db events x) (hvalid : c.input.valid = true) :
    ∀ q ∈ events, q.input.eventId ≠ c.input.eventId := by
  intro q hq heq
  obtain ⟨r, hr, hof⟩ := hs.recorded q hq
  have hprovider : r.provider = c.input.provider := by
    rw [hof.provider, valid_provider (hs.valid q hq), valid_provider hvalid]
  have hnone := List.find?_eq_none.mp h r hr
  simp [hprovider, hof.eventId, heq] at hnone

theorem find_receipt_some {r : Receipt} (h : (x.receipts.find? fun r => r.provider == c.input.provider
    && r.eventId == c.input.eventId) = some r) (hs : Synced db events x) :
    ∃ q ∈ events, r.IsOf db q ∧ r.eventId = c.input.eventId ∧ q.input.eventId = c.input.eventId := by
  obtain ⟨q, hq, hof⟩ := hs.source r (List.mem_of_find?_eq_some h)
  have hevent := List.find?_some h
  simp only [Bool.and_eq_true, beq_iff_eq] at hevent
  exact ⟨q, hq, hof, hevent.2, hof.eventId ▸ hevent.2⟩

/-- A call that repeats an event leaves everything but the audit log alone, and answers what was recorded. -/
theorem Synced.replay (h : Synced db events x) (ha : x.Admitted c)
    (hid : ∀ p ∈ events, p.input.eventId = c.input.eventId → p = c.payload) (hmem : c.payload ∈ events) :
    SameTables x (x.sync c).1 ∧ ∃ r ∈ x.receipts, r.eventId = c.input.eventId ∧ r.payloadSha256 = c.payload ∧
      (x.sync c).2 = .ok ⟨c.input.eventId, r.sourceVersion, .replayed, r.changed, r.userId, r.organizationId⟩ := by
  obtain ⟨user, hu⟩ := Option.isSome_iff_exists.mp ha.user
  rw [sync_admitted ha hu, Db.accept]
  cases hfind : x.receipts.find? fun r => r.provider == c.input.provider && r.eventId == c.input.eventId with
  | none => exact absurd rfl (find_receipt_none hfind h ha.input c.payload hmem)
  | some r =>
    obtain ⟨q, hq, hof, hevent, hqid⟩ := find_receipt_some hfind h
    have hq' : q = c.payload := hid q hq hqid
    have hsame : ¬ r.payloadSha256 ≠ syncPayloadHash c.input c.context := by
      rw [not_not, hof.payload, hq']
      rfl
    simp only [if_neg hsame]
    exact ⟨record_same .., r, List.mem_of_find?_eq_some hfind, hevent, hof.payload.trans hq', rfl⟩

/-- A call that reuses the id of an event for another one, or the version of one on its stream, is rejected. -/
theorem Synced.conflict (h : Synced db events x) (ha : x.Admitted c)
    (hc : (∃ p ∈ events, p.input.eventId = c.input.eventId) ∧ c.payload ∉ events ∨
      (∀ p ∈ events, p.input.eventId ≠ c.input.eventId) ∧
        ∃ p ∈ events, db.streamOf p = db.streamOf c.payload ∧ p.version = c.payload.version) :
    SameTables x (x.sync c).1 ∧ (x.sync c).2 = .error .conflict := by
  obtain ⟨user, hu⟩ := Option.isSome_iff_exists.mp ha.user
  rw [sync_admitted ha hu, Db.accept]
  cases hfind : x.receipts.find? fun r => r.provider == c.input.provider && r.eventId == c.input.eventId with
  | none =>
    have hfresh := find_receipt_none hfind h ha.input
    rcases hc with ⟨⟨p, hp, heq⟩, _⟩ | ⟨_, p, hp, hstream, hversion⟩
    · exact absurd heq (hfresh p hp)
    · obtain ⟨r, hr, hof⟩ := h.recorded p hp
      have hprovider : r.provider = c.input.provider := by
        rw [hof.provider, valid_provider (h.valid p hp), valid_provider ha.input]
      have hrs : r.streamSha256 = syncStreamHash c.input user.id :=
        Option.some.inj (by rw [← hof.stream, hstream, h.streamOf hu])
      have hrv : r.sourceVersion = c.input.sourceVersion := hof.version.trans hversion
      have hany : (x.receipts.any fun r => r.provider == c.input.provider
          && r.streamSha256 == syncStreamHash c.input user.id && r.sourceVersion == c.input.sourceVersion) = true :=
        List.any_eq_true.mpr ⟨r, hr, by simp [hprovider, hrs, hrv]⟩
      simp only [hany, if_true]
      exact ⟨record_same .., trivial⟩
  | some r =>
    obtain ⟨q, hq, hof, -, hqid⟩ := find_receipt_some hfind h
    rcases hc with ⟨_, hnot⟩ | ⟨hfresh, _⟩
    · have hne : r.payloadSha256 ≠ syncPayloadHash c.input c.context := by
        rw [hof.payload]
        rintro rfl
        exact hnot hq
      simp only [if_pos hne]
      exact ⟨record_same .., trivial⟩
    · exact absurd hqid (hfresh q hq)

/-- **One call** of an event that agrees with those that have come. -/
theorem Synced.sync (h : Synced db events x) (ha : x.Admitted c)
    (hid : ∀ p ∈ events, p.input.eventId = c.input.eventId → p = c.payload)
    (hversion : ∀ p ∈ events, db.streamOf p = db.streamOf c.payload → p.version = c.payload.version → p = c.payload) :
    ∃ events', (∀ p, p ∈ events' ↔ p ∈ events ∨ p = c.payload) ∧ Synced db events' (x.sync c).1 := by
  by_cases hmem : c.payload ∈ events
  · refine ⟨events, fun p => ?_, h.same (h.replay ha hid hmem).1⟩
    constructor
    · exact Or.inl
    · rintro (hp | rfl)
      exacts [hp, hmem]
  refine ⟨events ++ [c.payload], fun p => by rw [List.mem_append, List.mem_singleton], ?_⟩
  obtain ⟨user, hu⟩ := Option.isSome_iff_exists.mp ha.user
  rw [sync_admitted ha hu, Db.accept]
  have hsource {r : Receipt} (hr : r ∈ x.receipts) (hstream : r.streamSha256 = syncStreamHash c.input user.id) :
      r.sourceVersion ≠ c.input.sourceVersion := by
    obtain ⟨q, hq, hof⟩ := h.source r hr
    intro heq
    refine hmem (hversion q hq (by rw [hof.stream, hstream, h.streamOf hu]) ?_ ▸ hq)
    exact hof.version.symm.trans heq
  cases hfind : x.receipts.find? fun r => r.provider == c.input.provider && r.eventId == c.input.eventId with
  | some r =>
    obtain ⟨q, hq, -, -, hqid⟩ := find_receipt_some hfind h
    exact absurd (hid q hq hqid ▸ hq) hmem
  | none =>
    have hany : ¬ (x.receipts.any fun r => r.provider == c.input.provider
        && r.streamSha256 == syncStreamHash c.input user.id && r.sourceVersion == c.input.sourceVersion) = true := by
      intro hany
      obtain ⟨r, hr, hthis⟩ := List.any_eq_true.mp hany
      simp only [Bool.and_eq_true, beq_iff_eq] at hthis
      exact hsource hr hthis.1.2 hthis.2
    simp only [if_neg hany]
    split_ifs with hstale
    · obtain ⟨r, hr, ⟨_, hstream⟩, hlt⟩ := (latestVersion_any _ _ _).mp hstale
      exact (h.stale ha.input hu hr hstream hlt).same (record_same ..)
    · refine (h.apply ha.input hu (fun r hr hstream => ?_) _).same (record_same ..)
      obtain ⟨q, hq, hof⟩ := h.source r hr
      have hprovider : r.provider = c.input.provider := by
        rw [hof.provider, valid_provider (h.valid q hq), valid_provider ha.input]
      refine lt_of_le_of_ne (not_lt.mp fun hlt => hstale ?_) (hsource hr hstream)
      exact (latestVersion_any _ _ _).mpr ⟨r, hr, ⟨hprovider, hstream⟩, hlt⟩

end Call

/-! ### Every run -/

section Run

variable {db x : Db} {calls : List Call}

theorem deliver_append (db : Db) (before after : List Call) :
    db.deliver (before ++ after) = (db.deliver before).deliver after := by
  induction before generalizing db with
  | nil => rfl
  | cons c before ih => exact ih _

/-- Every call finds its operator authorized and its targets there. -/
def AllAdmitted (db : Db) (calls : List Call) : Prop :=
  ∀ before c after, calls = before ++ c :: after → (db.deliver before).Admitted c

theorem allAdmitted_cons {c : Call} :
    AllAdmitted db (c :: calls) ↔ db.Admitted c ∧ AllAdmitted (db.sync c).1 calls := by
  constructor
  · intro h
    refine ⟨h [] c calls rfl, fun before d after hsplit => ?_⟩
    apply h (c :: before) d after
    rw [hsplit, List.cons_append]
  · rintro ⟨hc, hrest⟩ before d after hsplit
    cases before with
    | nil =>
      obtain ⟨rfl, _⟩ := List.cons.inj hsplit
      exact hc
    | cons e before =>
      obtain ⟨rfl, htail⟩ := List.cons.inj hsplit
      exact hrest before d after htail

/-- The tables after calls of events that agree with each other. -/
theorem synced_deliver (hreceipts : db.receipts = []) (hkey : (db.users.map (·.id)).Nodup)
    (hadmitted : AllAdmitted db calls)
    (hids : ∀ c ∈ calls, ∀ d ∈ calls, c.input.eventId = d.input.eventId → c.payload = d.payload)
    (hversions : ∀ c ∈ calls, ∀ d ∈ calls, db.streamOf c.payload = db.streamOf d.payload →
      c.payload.version = d.payload.version → c.payload = d.payload) :
    ∃ events, (∀ p, p ∈ events ↔ ∃ c ∈ calls, c.payload = p) ∧ Synced db events (db.deliver calls) := by
  induction calls using List.reverseRecOn with
  | nil =>
    refine ⟨[], fun p => by simp, hkey, fun _ => rfl, fun p hp => absurd hp List.not_mem_nil,
      fun p hp => absurd hp List.not_mem_nil, fun r hr => ?_, fun _ _ _ => rfl,
      fun _ _ p hp => absurd hp.1 List.not_mem_nil, fun p hp => absurd hp List.not_mem_nil⟩
    rw [show (db.deliver []).receipts = [] from hreceipts] at hr
    exact absurd hr List.not_mem_nil
  | append_singleton calls c ih =>
    have hin {d : Call} (hd : d ∈ calls) : d ∈ calls ++ [c] := List.mem_append_left _ hd
    have hlast : c ∈ calls ++ [c] := List.mem_append_right _ (List.mem_singleton_self c)
    obtain ⟨events, hevents, hsynced⟩ := ih
      (fun before d after hsplit => hadmitted before d (after ++ [c]) (by rw [hsplit]; simp))
      (fun d hd e he => hids d (hin hd) e (hin he)) (fun d hd e he => hversions d (hin hd) e (hin he))
    obtain ⟨events', hevents', hsynced'⟩ := hsynced.sync (c := c) (hadmitted calls c [] rfl)
      (fun p hp hid => by
        obtain ⟨d, hd, rfl⟩ := (hevents p).mp hp
        exact hids d (hin hd) c hlast hid)
      (fun p hp hstream hversion => by
        obtain ⟨d, hd, rfl⟩ := (hevents p).mp hp
        exact hversions d (hin hd) c hlast hstream hversion)
    refine ⟨events', fun p => ?_, by rw [deliver_append]; exact hsynced'⟩
    rw [hevents', hevents]
    constructor
    · rintro (⟨d, hd, rfl⟩ | rfl)
      exacts [⟨d, hin hd, rfl⟩, ⟨c, hlast, rfl⟩]
    · rintro ⟨d, hd, rfl⟩
      rcases List.mem_append.mp hd with hd | hd
      · exact Or.inl ⟨d, hd, rfl⟩
      · rw [List.mem_singleton.mp hd]
        exact Or.inr rfl

end Run

/-- Calls of events with distinct ids, and with distinct versions on each stream, leave the same access rights in
every order and with every repetition: the membership of a pair is that of the newest event on its stream, and
untouched without one, and the user of an event that disables or deletes is disabled.  A repeated event changes
nothing and answers what was recorded, and a call that contradicts a recorded event is rejected. -/
theorem provider_sync_converges {db : Db} {calls : List Call} (hreceipts : db.receipts = [])
    (hkey : (db.users.map (·.id)).Nodup) (hadmitted : AllAdmitted db calls)
    (hids : ∀ c ∈ calls, ∀ d ∈ calls, c.input.eventId = d.input.eventId → c.payload = d.payload)
    (hversions : ∀ c ∈ calls, ∀ d ∈ calls, db.streamOf c.payload = db.streamOf d.payload →
      c.payload.version = d.payload.version → c.payload = d.payload) :
    (∀ o userId, (∀ c ∈ calls, db.streamOf c.payload ≠ some (.membership "clerk" userId o)) →
      (db.deliver calls).role? o userId = db.role? o userId) ∧
    (∀ o userId, ∀ c ∈ calls, db.streamOf c.payload = some (.membership "clerk" userId o) →
      (∀ d ∈ calls, db.streamOf d.payload = some (.membership "clerk" userId o) →
        d.input.sourceVersion ≤ c.input.sourceVersion) →
      (db.deliver calls).role? o userId = c.input.role) ∧
    (∀ c ∈ calls, c.input.eventType.ofMembership = false → ∀ userId,
      (db.user? c.input.clerkUserId).map (·.id) = some userId →
      ∀ u ∈ (db.deliver calls).users, u.id = userId → u.disabledAt.isSome = true) ∧
    (∀ d, (db.deliver calls).Admitted d → (∃ c ∈ calls, c.payload = d.payload) →
      SameTables (db.deliver calls) ((db.deliver calls).sync d).1 ∧
      ∃ r ∈ (db.deliver calls).receipts, r.eventId = d.input.eventId ∧ r.payloadSha256 = d.payload ∧
        ((db.deliver calls).sync d).2 = .ok ⟨d.input.eventId, r.sourceVersion, .replayed, r.changed, r.userId,
          r.organizationId⟩) ∧
    (∀ d, (db.deliver calls).Admitted d →
      ((∃ c ∈ calls, c.input.eventId = d.input.eventId ∧ c.payload ≠ d.payload) ∨
        ∃ c ∈ calls, c.input.eventId ≠ d.input.eventId ∧ db.streamOf c.payload = db.streamOf d.payload ∧
          c.input.sourceVersion = d.input.sourceVersion) →
      SameTables (db.deliver calls) ((db.deliver calls).sync d).1 ∧
        ((db.deliver calls).sync d).2 = .error .conflict) := by
  obtain ⟨events, hevents, h⟩ := synced_deliver hreceipts hkey hadmitted hids hversions
  have hmem {c : Call} (hc : c ∈ calls) : c.payload ∈ events := (hevents _).mpr ⟨c, hc, rfl⟩
  refine ⟨fun o userId hnone => ?_, fun o userId c hc hstream hmax => ?_,
    fun c hc hm userId hu u huin hid => h.disabled c.payload (hmem hc) hm userId hu u huin hid,
    fun d hd ⟨c, hc, heq⟩ => ?_, fun d hd hcontra => ?_⟩
  · refine h.untouched o userId (List.eq_nil_iff_forall_not_mem.mpr fun p hp => ?_)
    obtain ⟨hpin, hps⟩ := mem_onStream.mp hp
    obtain ⟨c, hc, rfl⟩ := (hevents p).mp hpin
    exact hnone c hc hps
  · refine h.latest o userId c.payload ⟨mem_onStream.mpr ⟨hmem hc, hstream⟩, fun p hp => ?_⟩
    obtain ⟨hpin, hps⟩ := mem_onStream.mp hp
    obtain ⟨d, hd, rfl⟩ := (hevents p).mp hpin
    exact hmax d hd hps
  · refine h.replay hd (fun p hp hid => ?_) (heq ▸ hmem hc)
    obtain ⟨e, he, rfl⟩ := (hevents p).mp hp
    rw [← heq]
    exact hids e he c hc (hid.trans (congrArg (·.input.eventId) heq).symm)
  · refine h.conflict hd ?_
    by_cases hid : ∃ p ∈ events, p.input.eventId = d.input.eventId
    · refine Or.inl ⟨hid, fun hdin => ?_⟩
      obtain ⟨e, he, heq⟩ := (hevents _).mp hdin
      rcases hcontra with ⟨c, hc, heid, hne⟩ | ⟨c, hc, heid, hstream, hversion⟩
      · exact hne (by rw [← heq]; exact hids c hc e he (heid.trans (congrArg (·.input.eventId) heq).symm))
      · have hce : c.payload = e.payload :=
          hversions c hc e he (by rw [hstream, heq]) (by rw [heq]; exact hversion)
        exact heid (congrArg (·.input.eventId) (hce.trans heq))
    · refine Or.inr ⟨fun p hp heq => hid ⟨p, hp, heq⟩, ?_⟩
      rcases hcontra with ⟨c, hc, heid, _⟩ | ⟨c, hc, _, hstream, hversion⟩
      · exact absurd ⟨c.payload, hmem hc, heid⟩ hid
      · exact ⟨c.payload, hmem hc, hstream, hversion⟩

/-- The removal of a membership comes before the event that granted it, is repeated, and the user is disabled. -/
theorem provider_sync_converges_reordered :
    let operator := "00000000-0000-4000-8000-0000000000AA"
    let tenant := "00000000-0000-4000-8000-00000000000b"
    let db : Db := ⟨[uuidValue operator], [⟨uuidValue operator, none⟩, ⟨tenant, none⟩],
      [⟨"admin", "user_admin", none⟩, ⟨"target", "user_target", none⟩],
      [⟨uuidValue operator, "admin", .owner⟩, ⟨tenant, "target", .billing⟩], [], []⟩
    let context : Context := ⟨.user, "user_admin", some operator, "provider event"⟩
    let removed : Call := ⟨5, ⟨"clerk", "evt_2", 2, .membershipRemoved, "user_target", some tenant, none⟩, context⟩
    let upserted : Call :=
      ⟨6, ⟨"clerk", "evt_1", 1, .membershipUpserted, "user_target", some tenant, some .member⟩, context⟩
    let disabled : Call := ⟨7, ⟨"clerk", "evt_3", 1, .userDisabled, "user_target", none, none⟩, context⟩
    (db.deliver [removed, upserted, disabled, removed]).role? tenant "target" = none := by
  intro operator tenant db context removed upserted disabled
  have hadmitted : AllAdmitted db [removed, upserted, disabled, removed] := by
    simp only [allAdmitted_cons]
    refine ⟨by decide +kernel, by decide +kernel, by decide +kernel, by decide +kernel, fun before c after hnil => ?_⟩
    cases before <;> cases hnil
  exact (provider_sync_converges rfl (by decide) hadmitted (by decide +kernel) (by decide +kernel)).2.1 tenant "target"
    removed (by decide +kernel) (by decide +kernel) (by decide +kernel)

end Nehemiah.Identity
