import Nehemiah.Control.Device

/-!
# What a device login may do

Every step changes the rows of the logins in one of a few ways (`Change`).  From them follow the invariant of the
rows (`Sound`), which makes a family of refresh tokens a line of generations and carries its revocation to all that
hangs on it, and what a revoked family and a decided authorization stay for ever.
-/

namespace Nehemiah.Device

open Identity (Role UserRow OrganizationRow MemberRow)
open Lib

/-! ### The rows -/

def tokensOf (tokens : List RefreshRow) (familyId : String) : List RefreshRow :=
  tokens.filter fun t => decide (t.familyId = familyId)

/-- The refresh tokens of one family, in the order in which they were minted. -/
def Linear (tokens : List RefreshRow) : Prop :=
  ∃ n, 0 < n ∧ tokens.map (·.generation) = List.range n ∧ ∀ t ∈ tokens, t.usedAt = none ↔ t.generation + 1 = n

/-- What the family has approved, the authorization has. -/
structure FamilyRow.Of (f : FamilyRow) (r : DeviceRow) : Prop where
  id : r.id = f.deviceAuthorizationId
  status : r.status = .consumed
  scopes : r.approvedScopes = some f.scopes
  organization : r.organizationId = some f.organizationId
  approver : r.approvedBy.isSome = true

structure RefreshRow.Of (t : RefreshRow) (f : FamilyRow) : Prop where
  family : f.id = t.familyId
  expires : t.expiresAt = f.expiresAt

structure AccessRow.Of (t : AccessRow) (f : FamilyRow) : Prop where
  family : f.id = t.familyId
  organization : t.organizationId = f.organizationId
  scopes : t.scopes = f.scopes
  revoked : f.revokedAt.isSome = true → t.revokedAt.isSome = true

structure GrantRow.Of (g : GrantRow) (f : FamilyRow) (clock : ℕ) : Prop where
  organization : g.organizationId = f.organizationId
  revoked : f.revokedAt.isSome = true → g.revokedAt.isSome = true ∨ g.expiresAt ≤ clock

/-- The user and the organization of a decision exist. -/
structure Known (users : List UserRow) (organizations : List OrganizationRow) (userId organizationId : String) :
    Prop where
  user : ∃ u ∈ users, u.id = userId
  organization : ∃ o ∈ organizations, o.id = organizationId

/-- The columns that a decision fills, by the status. -/
structure DeviceRow.Shaped (r : DeviceRow) (users : List UserRow) (organizations : List OrganizationRow) :
    Prop where
  scopes : ∀ scopes, r.approvedScopes = some scopes → scopes ⊆ r.requestedScopes
  approved : r.status = .approved → r.approvedScopes.isSome = true ∧ r.approvedBy.isSome = true
  pending : r.status = .pending → r.approvedScopes = none
  known : ∀ userId, r.approvedBy = some userId → ∃ o, r.organizationId = some o ∧ Known users organizations userId o

/-- The invariant of the rows. -/
structure Sound (clock : ℕ) (drawn : List String) (db : Db) : Prop where
  authorizationKey : (db.authorizations.map (·.id)).Nodup
  authorizationDrawn : ∀ r ∈ db.authorizations, r.id ∈ drawn
  shaped : ∀ r ∈ db.authorizations, r.Shaped db.users db.organizations
  familyKey : (db.families.map (·.id)).Nodup
  familyDrawn : ∀ f ∈ db.families, f.id ∈ drawn
  oneFamily : (db.families.map (·.deviceAuthorizationId)).Nodup
  authorization : ∀ f ∈ db.families, ∃ r ∈ db.authorizations, f.Of r
  reuse : ∀ f ∈ db.families, f.reuseDetectedAt.isSome = true → f.revokedAt.isSome = true
  refreshKey : (db.refreshTokens.map (·.id)).Nodup
  refreshDrawn : ∀ t ∈ db.refreshTokens, t.id ∈ drawn ∧ t.token.kind = .refresh ∧ t.token.id = t.id
  refreshFamily : ∀ t ∈ db.refreshTokens, ∃ f ∈ db.families, t.Of f
  linear : ∀ f ∈ db.families, Linear (tokensOf db.refreshTokens f.id)
  accessKey : (db.accessTokens.map (·.id)).Nodup
  accessDrawn : ∀ t ∈ db.accessTokens, t.id ∈ drawn
  accessFamily : ∀ t ∈ db.accessTokens, ∃ f ∈ db.families, t.Of f
  grantDrawn : ∀ g ∈ db.grants, g.issuerId ∈ drawn
  grantFamily : ∀ g ∈ db.grants, ∀ f ∈ db.families, f.id = g.issuerId → g.Of f clock

/-! ### The ways in which rows change -/

/-- Nothing but the users, the organizations and their members is changed, and no user or organization goes. -/
structure Db.Keeps (db db' : Db) : Prop where
  users : ∀ u ∈ db.users, ∃ u' ∈ db'.users, u'.id = u.id
  organizations : ∀ o ∈ db.organizations, ∃ o' ∈ db'.organizations, o'.id = o.id
  authorizations : db'.authorizations = db.authorizations
  families : db'.families = db.families
  refreshTokens : db'.refreshTokens = db.refreshTokens
  accessTokens : db'.accessTokens = db.accessTokens
  grants : db'.grants = db.grants

/-- A row that is polled, denied, or found to be without its approver. -/
structure DeviceRow.Settles (r r' : DeviceRow) (db : Db) : Prop where
  id : r'.id = r.id
  requested : r'.requestedScopes = r.requestedScopes
  before : r.status = .pending ∨ r.status = .approved
  after : r'.status = .pending ∧ r.status = .pending ∨ r'.status = .denied
  scopes : r'.approvedScopes = none
  known : ∀ userId, r'.approvedBy = some userId →
    ∃ o, r'.organizationId = some o ∧ Known db.users db.organizations userId o

/-- A row that a member approves. -/
structure DeviceRow.Approves (r r' : DeviceRow) (db : Db) (member : Member) (organizationId : String) : Prop where
  id : r'.id = r.id
  requested : r'.requestedScopes = r.requestedScopes
  before : r.status = .pending
  after : r'.status = .approved
  scopes : ∃ scopes, r'.approvedScopes = some scopes ∧ scopes ⊆ r.requestedScopes ∧
    ∀ scope ∈ scopes, rolePermits member.role scope = true
  approver : r'.approvedBy = some member.id ∧ r'.organizationId = some organizationId
  known : Known db.users db.organizations member.id organizationId

/-- The rows that an exchange inserts. -/
structure Redeems (drawn drawn' : List String) (row : DeviceRow) (f : FamilyRow) (t : RefreshRow) (a : AccessRow) :
    Prop where
  status : row.status = .approved
  of : f.Of { row with status := .consumed }
  live : f.revokedAt = none ∧ f.reuseDetectedAt = none
  created : f.createdAt < row.expiresAt
  refresh : t.Of f
  first : t.generation = 0 ∧ t.usedAt = none
  token : t.token.kind = .refresh ∧ t.token.id = t.id
  access : a.Of f
  fresh : f.id ∉ drawn ∧ t.id ∉ drawn ∧ a.id ∉ drawn
  drawn : f.id ∈ drawn' ∧ t.id ∈ drawn' ∧ a.id ∈ drawn'

/-- The rows that a refresh inserts. -/
structure Rotates (drawn drawn' : List String) (f : FamilyRow) (t next : RefreshRow) (a : AccessRow) : Prop where
  family : t.Of f
  live : f.revokedAt = none
  unused : t.usedAt = none
  refresh : next.Of f
  generation : next.generation = t.generation + 1 ∧ next.usedAt = none
  token : next.token.kind = .refresh ∧ next.token.id = next.id
  access : a.Of f
  fresh : next.id ∉ drawn ∧ a.id ∉ drawn
  drawn : next.id ∈ drawn' ∧ a.id ∈ drawn'

/-- One step of the rows.  `reader` are the members, with their organizations, that a decision has read, and `locked`
the authorizations that an exchange has locked. -/
inductive Change (clock : ℕ) (drawn drawn' : List String) (reader : Member → String → Prop) (locked : String → Prop)
    (db : Db) : Db → Prop
  | identity {db' : Db} (h : db.Keeps db') : Change clock drawn drawn' reader locked db db'
  | issued (row : DeviceRow) (fresh : row.id ∉ drawn) (hdrawn : row.id ∈ drawn') (pending : row.status = .pending)
      (scopes : row.approvedScopes = none) (approver : row.approvedBy = none) :
      Change clock drawn drawn' reader locked db { db with authorizations := db.authorizations ++ [row] }
  | settled (id : String) (set : DeviceRow → DeviceRow) (free : ¬ locked id)
      (h : ∀ r ∈ db.authorizations, r.id = id → r.Settles (set r) db) :
      Change clock drawn drawn' reader locked db (db.updateAuthorization id set)
  | approved (id : String) (set : DeviceRow → DeviceRow) (member : Member) (organizationId : String)
      (free : ¬ locked id) (read : reader member organizationId)
      (h : ∀ r ∈ db.authorizations, r.id = id → r.Approves (set r) db member organizationId) :
      Change clock drawn drawn' reader locked db (db.updateAuthorization id set)
  | redeemed (row : DeviceRow) (f : FamilyRow) (t : RefreshRow) (a : AccessRow) (mem : row ∈ db.authorizations)
      (free : ¬ locked row.id) (h : Redeems drawn drawn' row f t a) :
      Change clock drawn drawn' reader locked db (Db.updateAuthorization
        { db with
          families := db.families ++ [f],
          refreshTokens := db.refreshTokens ++ [t],
          accessTokens := db.accessTokens ++ [a] } row.id fun r => { r with status := .consumed })
  | rotated (now : ℕ) (f : FamilyRow) (t next : RefreshRow) (a : AccessRow) (family : f ∈ db.families)
      (mem : t ∈ db.refreshTokens) (h : Rotates drawn drawn' f t next a) :
      Change clock drawn drawn' reader locked db { db with
        refreshTokens := updateWhere (fun r => decide (r.id = t.id)) (fun r => r.use now next.id)
          (db.refreshTokens ++ [next]),
        accessTokens := db.accessTokens ++ [a] }
  | revoked {mid : Db} (now : ℕ) (reuse : Bool) (family : FamilyRow → Bool) (access : AccessRow → Bool)
      (grant : GrantRow → Bool) (keeps : db.Keeps mid)
      (h : ∀ f ∈ db.families, family f = true →
        (∀ t ∈ db.accessTokens, t.familyId = f.id → access t = true ∨ t.revokedAt.isSome = true) ∧
        ∀ g ∈ db.grants, g.issuerId = f.id →
          grant g = true ∨ g.revokedAt.isSome = true ∨ g.expiresAt ≤ clock) :
      Change clock drawn drawn' reader locked db (mid.revokeWhere now clock reuse family access grant)
  | touched (id : String) (now : ℕ) :
      Change clock drawn drawn' reader locked db { db with
        accessTokens := updateWhere (fun t => decide (t.id = id)) (fun t => { t with lastUsedAt := some now })
          db.accessTokens }
  | granted (g : GrantRow) (f : FamilyRow) (family : f ∈ db.families) (live : f.revokedAt = none)
      (issuer : f.id = g.issuerId) (organization : g.organizationId = f.organizationId) :
      Change clock drawn drawn' reader locked db { db with grants := db.grants ++ [g] }
  | reaped (authorizations : DeviceRow → Bool) (families : FamilyRow → Bool) (refresh : RefreshRow → Bool)
      (access : AccessRow → Bool) (free : ∀ r ∈ db.authorizations, locked r.id → authorizations r = true)
      (hauthorizations : ∀ f ∈ db.families, families f = true → ∀ r ∈ db.authorizations,
        r.id = f.deviceAuthorizationId → authorizations r = true)
      (hrefresh : ∀ f ∈ db.families, ∀ t ∈ db.refreshTokens, t.familyId = f.id → refresh t = families f)
      (haccess : ∀ f ∈ db.families, ∀ t ∈ db.accessTokens, t.familyId = f.id → access t = true →
        families f = true) :
      Change clock drawn drawn' reader locked db { db with
        authorizations := db.authorizations.filter authorizations,
        families := db.families.filter families,
        refreshTokens := db.refreshTokens.filter refresh,
        accessTokens := db.accessTokens.filter access }

/-! ### The invariant -/

section Sound

variable {clock clock' now : ℕ} {drawn drawn' : List String} {reader : Member → String → Prop} {locked : String → Prop}
    {db db' : Db} {organizationId familyId : String} {r : DeviceRow} {reuse : Bool} {family : FamilyRow → Bool}
    {access : AccessRow → Bool}

theorem Known.keeps {userId : String} (h : Known db.users db.organizations userId organizationId) (hk : db.Keeps db') :
    Known db'.users db'.organizations userId organizationId := by
  obtain ⟨⟨u, hu, rfl⟩, o, ho, rfl⟩ := h
  exact ⟨hk.users u hu, hk.organizations o ho⟩

theorem DeviceRow.Shaped.keeps (h : r.Shaped db.users db.organizations) (hk : db.Keeps db') :
    r.Shaped db'.users db'.organizations := by
  refine { h with known := fun userId hu => ?_ }
  obtain ⟨o, ho, hknown⟩ := h.known userId hu
  exact ⟨o, ho, hknown.keeps hk⟩

variable {f : FamilyRow} {tokens : List RefreshRow} {t : RefreshRow}

theorem GrantRow.Of.mono {g : GrantRow} (h : g.Of f clock) (hclock : clock ≤ clock') : g.Of f clock' :=
  ⟨h.organization, fun hr => (h.revoked hr).imp_right fun hle => hle.trans hclock⟩

theorem Sound.mono (h : Sound clock drawn db) (hclock : clock ≤ clock') (hdrawn : drawn ⊆ drawn') :
    Sound clock' drawn' db :=
  { h with
    authorizationDrawn := fun r hr => hdrawn (h.authorizationDrawn r hr),
    familyDrawn := fun f hf => hdrawn (h.familyDrawn f hf),
    refreshDrawn := fun t ht => ⟨hdrawn (h.refreshDrawn t ht).1, (h.refreshDrawn t ht).2⟩,
    accessDrawn := fun t ht => hdrawn (h.accessDrawn t ht),
    grantDrawn := fun g hg => hdrawn (h.grantDrawn g hg),
    grantFamily := fun g hg f hf hfg => (h.grantFamily g hg f hf hfg).mono hclock }

theorem Sound.keeps (h : Sound clock drawn db) (hk : db.Keeps db') : Sound clock drawn db' := by
  obtain ⟨_, _, ha, hf, hr, ht, hg⟩ := id hk
  constructor
  case shaped => exact fun r hmem => (h.shaped r (ha ▸ hmem)).keeps hk
  all_goals simp only [ha, hf, hr, ht, hg]
  exacts [h.authorizationKey, h.authorizationDrawn, h.familyKey, h.familyDrawn, h.oneFamily, h.authorization, h.reuse,
    h.refreshKey, h.refreshDrawn, h.refreshFamily, h.linear, h.accessKey, h.accessDrawn, h.accessFamily,
    h.grantDrawn, h.grantFamily]

/-- What every row has, and what a new row has, all rows have with it. -/
theorem forall_append {ρ : Type} {P : ρ → Prop} {rows : List ρ} {row : ρ} (h : ∀ r ∈ rows, P r) (hrow : P row) :
    ∀ r ∈ rows ++ [row], P r := by
  intro r hr
  rcases List.mem_append.mp hr with hr | hr
  · exact h r hr
  · exact List.mem_singleton.mp hr ▸ hrow

theorem nodup_concat {ρ : Type} {key : ρ → String} {rows : List ρ} {row : ρ} (hn : (rows.map key).Nodup)
    (hrow : ∀ r ∈ rows, key r ≠ key row) : ((rows ++ [row]).map key).Nodup := by
  rw [List.map_append, List.nodup_append]
  refine ⟨hn, List.nodup_singleton _, fun k hk k' hk' => ?_⟩
  obtain ⟨r, hr, rfl⟩ := List.mem_map.mp hk
  obtain rfl : k' = key row := by simpa using hk'
  exact hrow r hr

theorem Sound.issued (h : Sound clock drawn db) (hdrawn : drawn ⊆ drawn') {row : DeviceRow} (hfresh : row.id ∉ drawn)
    (hmem : row.id ∈ drawn') (hpending : row.status = .pending) (hscopes : row.approvedScopes = none)
    (happrover : row.approvedBy = none) :
    Sound clock drawn' { db with authorizations := db.authorizations ++ [row] } := by
  have hshaped : row.Shaped db.users db.organizations :=
    ⟨fun scopes hs => (nomatch hscopes.symm.trans hs), fun hs => (nomatch hpending.symm.trans hs), fun _ => hscopes,
      fun userId hu => (nomatch happrover.symm.trans hu)⟩
  exact { h.mono le_rfl hdrawn with
    authorizationKey := nodup_concat h.authorizationKey fun r hr heq => hfresh (heq ▸ h.authorizationDrawn r hr),
    authorizationDrawn := forall_append (fun r hr => hdrawn (h.authorizationDrawn r hr)) hmem,
    shaped := forall_append h.shaped hshaped,
    authorization := fun f hf =>
      let ⟨r, hr, hof⟩ := h.authorization f hf
      ⟨r, List.mem_append_left _ hr, hof⟩ }

/-- A decision leaves the authorizations of the families alone. -/
theorem Sound.updated (h : Sound clock drawn db) {id : String} {set : DeviceRow → DeviceRow}
    (hset : ∀ r ∈ db.authorizations, r.id = id →
      (set r).id = r.id ∧ r.status ≠ .consumed ∧ (set r).Shaped db.users db.organizations) :
    Sound clock drawn (db.updateAuthorization id set) := by
  have hkey : (updateWhere (fun r => decide (r.id = id)) set db.authorizations).map (·.id)
      = db.authorizations.map (·.id) := by
    rw [updateWhere, List.map_map]
    refine List.map_congr_left fun r hr => ?_
    show (if decide (r.id = id) then set r else r).id = r.id
    split_ifs with hid
    exacts [(hset r hr (of_decide_eq_true hid)).1, rfl]
  exact { h with
    authorizationKey := by
      show ((updateWhere _ set db.authorizations).map (·.id)).Nodup
      rw [hkey]
      exact h.authorizationKey
    authorizationDrawn := forall_updateWhere h.authorizationDrawn fun r hr hid =>
      (hset r hr (of_decide_eq_true hid)).1 ▸ h.authorizationDrawn r hr,
    shaped := forall_updateWhere h.shaped fun r hr hid => (hset r hr (of_decide_eq_true hid)).2.2,
    authorization := fun f hf => by
      obtain ⟨r, hr, hof⟩ := h.authorization f hf
      have hne : ¬ decide (r.id = id) = true := fun hid => (hset r hr (of_decide_eq_true hid)).2.1 hof.status
      exact ⟨r, mem_updateWhere.mpr ⟨r, hr, if_neg hne⟩, hof⟩ }

theorem DeviceRow.Settles.shaped {r' : DeviceRow} (h : r.Settles r' db) :
    r'.Shaped db.users db.organizations where
  scopes scopes hs := nomatch h.scopes.symm.trans hs
  approved hs := by
    rcases h.after with ⟨hp, _⟩ | hd
    · exact nomatch hp.symm.trans hs
    · exact nomatch hd.symm.trans hs
  pending _ := h.scopes
  known := h.known

theorem DeviceRow.Approves.shaped {r' : DeviceRow} {member : Member} (h : r.Approves r' db member organizationId) :
    r'.Shaped db.users db.organizations := by
  obtain ⟨scopes, hscopes, hsub, _⟩ := h.scopes
  refine ⟨fun scopes' hs => ?_, fun _ => ?_, fun hs => (nomatch h.after.symm.trans hs), fun userId hu => ?_⟩
  · obtain rfl := Option.some.inj (hscopes.symm.trans hs)
    rw [h.requested]
    exact hsub
  · rw [hscopes, h.approver.1]
    exact ⟨rfl, rfl⟩
  · obtain rfl := Option.some.inj (h.approver.1.symm.trans hu)
    exact ⟨organizationId, h.approver.2, h.known⟩

theorem tokensOf_concat :
    tokensOf (tokens ++ [t]) familyId = tokensOf tokens familyId ++ if t.familyId = familyId then [t] else [] := by
  rw [tokensOf, List.filter_append]
  congr 1
  by_cases ht : t.familyId = familyId <;> simp [ht]

/-- A family that no token is of yet. -/
theorem tokensOf_eq_nil (h : ∀ t ∈ tokens, t.familyId ≠ familyId) : tokensOf tokens familyId = [] :=
  List.filter_eq_nil_iff.mpr fun t ht => by simpa using h t ht

theorem Linear.first (h : t.generation = 0 ∧ t.usedAt = none) : Linear [t] := by
  refine ⟨1, Nat.one_pos, by simp [h.1], fun t' ht' => ?_⟩
  obtain rfl := List.mem_singleton.mp ht'
  simp [h.1, h.2]

theorem Sound.redeemed (h : Sound clock drawn db) (hdrawn : drawn ⊆ drawn') {row : DeviceRow} {a : AccessRow}
    (hrow : row ∈ db.authorizations) (hr : Redeems drawn drawn' row f t a) :
    Sound clock drawn' (Db.updateAuthorization
      { db with
        families := db.families ++ [f],
        refreshTokens := db.refreshTokens ++ [t],
        accessTokens := db.accessTokens ++ [a] } row.id fun r => { r with status := .consumed }) := by
  have hm : Sound clock drawn' db := h.mono le_rfl hdrawn
  have hfresh {x : String} (hx : x ∉ drawn) {y : String} (hy : y ∈ drawn) : y ≠ x := fun heq => hx (heq ▸ hy)
  have hkey : (updateWhere (fun r => decide (r.id = row.id)) (fun r => { r with status := .consumed })
      db.authorizations).map (·.id) = db.authorizations.map (·.id) := map_updateWhere fun _ => rfl
  have hof {f' : FamilyRow} (hf' : f' ∈ db.families) : f'.deviceAuthorizationId ≠ row.id := by
    intro heq
    obtain ⟨r, hr', hof'⟩ := h.authorization f' hf'
    have hsame : r = row := key_inj h.authorizationKey hr' hrow (hof'.id.trans heq)
    exact nomatch hr.status.symm.trans (show row.status = .consumed from hsame ▸ hof'.status)
  have hrefresh {t' : RefreshRow} (ht' : t' ∈ db.refreshTokens) : t'.familyId ≠ f.id := by
    obtain ⟨f', hf', hof'⟩ := h.refreshFamily t' ht'
    exact hof'.family ▸ hfresh hr.fresh.1 (h.familyDrawn f' hf')
  refine { hm with
    authorizationKey := hkey ▸ h.authorizationKey,
    authorizationDrawn := forall_updateWhere hm.authorizationDrawn fun r hr _ => hm.authorizationDrawn r hr,
    shaped := forall_updateWhere h.shaped fun r hr' _ =>
      ⟨(h.shaped r hr').scopes, nofun, nofun, (h.shaped r hr').known⟩,
    familyKey := nodup_concat h.familyKey fun f' hf' => hfresh hr.fresh.1 (h.familyDrawn f' hf'),
    familyDrawn := forall_append hm.familyDrawn hr.drawn.1,
    oneFamily := nodup_concat h.oneFamily fun f' hf' => hr.of.id ▸ hof hf',
    authorization := forall_append (fun f' hf' => ?_) ?_,
    reuse := forall_append h.reuse fun hr' => absurd hr' (by simp [hr.live.2]),
    refreshKey := nodup_concat h.refreshKey fun t' ht' => hfresh hr.fresh.2.1 (h.refreshDrawn t' ht').1,
    refreshDrawn := forall_append hm.refreshDrawn ⟨hr.drawn.2.1, hr.token⟩,
    refreshFamily := forall_append (fun t' ht' => ?_) ⟨f, List.mem_append_right _ (List.mem_singleton_self f), hr.refresh⟩,
    linear := forall_append (fun f' hf' => ?_) ?_,
    accessKey := nodup_concat h.accessKey fun a' ha' => hfresh hr.fresh.2.2 (h.accessDrawn a' ha'),
    accessDrawn := forall_append hm.accessDrawn hr.drawn.2.2,
    accessFamily := forall_append (fun a' ha' => ?_) ⟨f, List.mem_append_right _ (List.mem_singleton_self f), hr.access⟩,
    grantFamily := fun g hg => forall_append (h.grantFamily g hg) fun hfg =>
      absurd (hfg ▸ h.grantDrawn g hg) hr.fresh.1 }
  · obtain ⟨r, hr', hof'⟩ := h.authorization f' hf'
    have hne : ¬ decide (r.id = row.id) = true := fun hid => hof hf' (hof'.id.symm.trans (of_decide_eq_true hid))
    exact ⟨r, mem_updateWhere.mpr ⟨r, hr', if_neg hne⟩, hof'⟩
  · exact ⟨_, mem_updateWhere.mpr ⟨row, hrow, if_pos (decide_eq_true rfl)⟩, hr.of⟩
  · obtain ⟨f', hf', hof'⟩ := h.refreshFamily t' ht'
    exact ⟨f', List.mem_append_left _ hf', hof'⟩
  · show Linear (tokensOf (db.refreshTokens ++ [t]) f'.id)
    rw [tokensOf_concat, if_neg (hr.refresh.family ▸ (hfresh hr.fresh.1 (h.familyDrawn f' hf')).symm), List.append_nil]
    exact h.linear f' hf'
  · show Linear (tokensOf (db.refreshTokens ++ [t]) f.id)
    rw [tokensOf_concat, if_pos hr.refresh.family.symm, tokensOf_eq_nil fun t' ht' => hrefresh ht']
    exact .first hr.first
  · obtain ⟨f', hf', hof'⟩ := h.accessFamily a' ha'
    exact ⟨f', List.mem_append_left _ hf', hof'⟩

theorem tokensOf_updateWhere {p : RefreshRow → Bool} {g : RefreshRow → RefreshRow}
    (hg : ∀ t, (g t).familyId = t.familyId) :
    tokensOf (updateWhere p g tokens) familyId = updateWhere p g (tokensOf tokens familyId) := by
  rw [tokensOf, updateWhere, List.filter_map]
  congr 1
  refine List.filter_congr fun t _ => ?_
  show decide ((if p t then g t else t).familyId = familyId) = decide (t.familyId = familyId)
  split_ifs
  exacts [by rw [hg t], rfl]

/-- A token is used, and the next generation is minted. -/
theorem Linear.rotate {next : RefreshRow} (h : Linear tokens) (ht : t ∈ tokens) (hunused : t.usedAt = none)
    (hn : next.generation = t.generation + 1 ∧ next.usedAt = none) (hne : next.id ≠ t.id) :
    Linear (updateWhere (fun r => decide (r.id = t.id)) (fun r => r.use now next.id) (tokens ++ [next])) := by
  obtain ⟨n, hpos, hgenerations, hlast⟩ := h
  have hcurrent : t.generation + 1 = n := (hlast t ht).mp hunused
  have hlt {r : RefreshRow} (hr : r ∈ tokens) : r.generation < n := by
    have hmem : r.generation ∈ List.range n := hgenerations ▸ List.mem_map_of_mem hr
    exact List.mem_range.mp hmem
  have hgeneration : (updateWhere (fun r => decide (r.id = t.id)) (fun r => r.use now next.id)
      (tokens ++ [next])).map (·.generation) = (tokens ++ [next]).map (·.generation) := map_updateWhere fun _ => rfl
  refine ⟨n + 1, Nat.succ_pos n, ?_, fun r' hr' => ?_⟩
  · rw [hgeneration, List.map_append, hgenerations, List.range_succ, List.map_singleton, hn.1, hcurrent]
  · obtain ⟨r, hr, rfl⟩ := mem_updateWhere.mp hr'
    rcases List.mem_append.mp hr with hr | hr
    · have hgen := hlt hr
      split_ifs with hused
      · constructor
        · exact nofun
        · intro heq
          exact absurd (show r.generation + 1 = n + 1 from heq) (by omega)
      · -- An older generation is used already.
        constructor
        · intro hnone
          have heq := (hlast r hr).mp hnone
          have hsame : r = t := List.inj_on_of_nodup_map (hgenerations ▸ List.nodup_range) hr ht (by omega)
          exact absurd (decide_eq_true (congrArg RefreshRow.id hsame)) hused
        · intro heq
          exact absurd heq (by omega)
    · obtain rfl := List.mem_singleton.mp hr
      rw [if_neg (by simpa using hne)]
      exact ⟨fun _ => by rw [hn.1, hcurrent], fun _ => hn.2⟩

theorem Sound.rotated (h : Sound clock drawn db) (hdrawn : drawn ⊆ drawn') {next : RefreshRow} {a : AccessRow}
    (hf : f ∈ db.families) (ht : t ∈ db.refreshTokens) (hr : Rotates drawn drawn' f t next a) :
    Sound clock drawn' { db with
      refreshTokens := updateWhere (fun r => decide (r.id = t.id)) (fun r => r.use now next.id)
        (db.refreshTokens ++ [next]),
      accessTokens := db.accessTokens ++ [a] } := by
  have hm : Sound clock drawn' db := h.mono le_rfl hdrawn
  have hfresh {x : String} (hx : x ∉ drawn) {y : String} (hy : y ∈ drawn) : y ≠ x := fun heq => hx (heq ▸ hy)
  have hne : next.id ≠ t.id := (hfresh hr.fresh.1 (h.refreshDrawn t ht).1).symm
  refine { hm with
    refreshKey := ?_,
    refreshDrawn := forall_updateWhere (forall_append hm.refreshDrawn ⟨hr.drawn.1, hr.token⟩) fun r hr' _ =>
      forall_append hm.refreshDrawn ⟨hr.drawn.1, hr.token⟩ r hr',
    refreshFamily := ?_,
    linear := fun f' hf' => ?_,
    accessKey := nodup_concat h.accessKey fun a' ha' => hfresh hr.fresh.2 (h.accessDrawn a' ha'),
    accessDrawn := forall_append hm.accessDrawn hr.drawn.2,
    accessFamily := forall_append h.accessFamily ⟨f, hf, hr.access⟩ }
  · have hkey : (updateWhere (fun r => decide (r.id = t.id)) (fun r => r.use now next.id)
        (db.refreshTokens ++ [next])).map (·.id) = (db.refreshTokens ++ [next]).map (·.id) :=
      map_updateWhere fun _ => rfl
    refine hkey ▸ ?_
    exact nodup_concat h.refreshKey fun t' ht' => hfresh hr.fresh.1 (h.refreshDrawn t' ht').1
  · refine forall_updateWhere (forall_append h.refreshFamily ⟨f, hf, hr.refresh⟩) fun r hr' _ => ?_
    obtain ⟨f', hf', hof⟩ := forall_append h.refreshFamily ⟨f, hf, hr.refresh⟩ r hr'
    exact ⟨f', hf', hof.family, hof.expires⟩
  · have hused : tokensOf (updateWhere (fun r => decide (r.id = t.id)) (fun r => r.use now next.id)
        (db.refreshTokens ++ [next])) f'.id = updateWhere (fun r => decide (r.id = t.id))
          (fun r => r.use now next.id) (tokensOf (db.refreshTokens ++ [next]) f'.id) :=
      tokensOf_updateWhere fun _ => rfl
    rw [hused, tokensOf_concat]
    by_cases hsame : f'.id = f.id
    · rw [hsame, if_pos hr.refresh.family.symm]
      exact (h.linear f hf).rotate (List.mem_filter.mpr ⟨ht, decide_eq_true hr.family.family.symm⟩) hr.unused
        hr.generation hne
    · rw [if_neg (hr.refresh.family ▸ Ne.symm hsame), List.append_nil]
      have hother : ∀ r ∈ tokensOf db.refreshTokens f'.id, ¬ decide (r.id = t.id) = true := by
        intro r hr' hid
        obtain ⟨hmem, hfamily⟩ := List.mem_filter.mp hr'
        obtain rfl := key_inj h.refreshKey hmem ht (of_decide_eq_true hid)
        exact hsame ((of_decide_eq_true hfamily).symm.trans hr.family.family.symm)
      rw [updateWhere, List.map_congr_left fun r hr' => if_neg (hother r hr'), List.map_id']
      exact h.linear f' hf'

theorem FamilyRow.revoke_of (h : f.Of r) : (f.revoke now reuse).Of r :=
  ⟨h.id, h.status, h.scopes, h.organization, h.approver⟩

/-- The family of a row, after a revocation. -/
theorem mem_revoked (hf : f ∈ db.families) :
    (if family f then f.revoke now reuse else f) ∈ updateWhere family (fun f => f.revoke now reuse) db.families :=
  mem_updateWhere.mpr ⟨f, hf, rfl⟩

theorem Sound.revoked (h : Sound clock drawn db) {grant : GrantRow → Bool}
    (hcascade : ∀ f ∈ db.families, family f = true →
      (∀ t ∈ db.accessTokens, t.familyId = f.id → access t = true ∨ t.revokedAt.isSome = true) ∧
      ∀ g ∈ db.grants, g.issuerId = f.id →
        grant g = true ∨ g.revokedAt.isSome = true ∨ g.expiresAt ≤ clock) :
    Sound clock drawn (db.revokeWhere now clock reuse family access grant) := by
  have hid : (updateWhere family (fun f => f.revoke now reuse) db.families).map (·.id) = db.families.map (·.id) :=
    map_updateWhere fun _ => rfl
  have hauthorization : (updateWhere family (fun f => f.revoke now reuse) db.families).map (·.deviceAuthorizationId)
      = db.families.map (·.deviceAuthorizationId) := map_updateWhere fun _ => rfl
  have haccess : (updateWhere access (fun t => t.revoke now) db.accessTokens).map (·.id) =
      db.accessTokens.map (·.id) := map_updateWhere fun _ => rfl
  refine { h with
    familyKey := hid ▸ h.familyKey,
    familyDrawn := forall_updateWhere h.familyDrawn fun f hf _ => h.familyDrawn f hf,
    oneFamily := hauthorization ▸ h.oneFamily,
    authorization := forall_updateWhere h.authorization fun f hf _ => ?_,
    reuse := forall_updateWhere h.reuse fun _ _ _ _ => rfl,
    refreshFamily := fun t ht => ?_,
    linear := forall_updateWhere h.linear fun f hf _ => h.linear f hf,
    accessKey := haccess ▸ h.accessKey,
    accessDrawn := forall_updateWhere h.accessDrawn fun t ht _ => h.accessDrawn t ht,
    accessFamily := fun t' ht' => ?_,
    grantDrawn := forall_updateWhere h.grantDrawn fun g hg _ => h.grantDrawn g hg,
    grantFamily := fun g' hg' f' hf' hfg => ?_ }
  · obtain ⟨r, hr, hof⟩ := h.authorization f hf
    exact ⟨r, hr, f.revoke_of hof⟩
  · obtain ⟨f, hf, hof⟩ := h.refreshFamily t ht
    refine ⟨_, mem_revoked hf, ?_⟩
    split_ifs
    exacts [⟨hof.family, hof.expires⟩, hof]
  · obtain ⟨t, ht, rfl⟩ := mem_updateWhere.mp ht'
    obtain ⟨f, hf, hof⟩ := h.accessFamily t ht
    refine ⟨_, mem_revoked hf, ?_⟩
    split_ifs with ha hfam hfam
    · exact ⟨hof.family, hof.organization, hof.scopes, fun _ => rfl⟩
    · exact ⟨hof.family, hof.organization, hof.scopes, fun _ => rfl⟩
    · exact ⟨hof.family, hof.organization, hof.scopes, fun _ =>
        ((hcascade f hf hfam).1 t ht hof.family.symm).resolve_left ha⟩
    · exact hof
  · obtain ⟨g, hg, rfl⟩ := mem_updateWhere.mp hg'
    obtain ⟨f, hf, rfl⟩ := mem_updateWhere.mp hf'
    have hissuer : f.id = g.issuerId := by
      have hleft : (if family f then f.revoke now reuse else f).id = f.id := by split_ifs <;> rfl
      have hright : (if grant g then g.revoke clock else g).issuerId = g.issuerId := by split_ifs <;> rfl
      rw [← hleft, ← hright]
      exact hfg
    have hof := h.grantFamily g hg f hf hissuer
    split_ifs with hgr hfam hfam
    · exact ⟨hof.organization, fun _ => Or.inl rfl⟩
    · exact ⟨hof.organization, fun _ => Or.inl rfl⟩
    · exact ⟨hof.organization, fun _ => ((hcascade f hf hfam).2 g hg hissuer.symm).resolve_left hgr⟩
    · exact hof

theorem Sound.touched (h : Sound clock drawn db) (id : String) (now : ℕ) :
    Sound clock drawn { db with
      accessTokens := updateWhere (fun t => decide (t.id = id)) (fun t => { t with lastUsedAt := some now })
        db.accessTokens } := by
  have hkey : (updateWhere (fun t => decide (t.id = id)) (fun t => { t with lastUsedAt := some now })
      db.accessTokens).map (·.id) = db.accessTokens.map (·.id) := map_updateWhere fun _ => rfl
  refine { h with
    accessKey := hkey ▸ h.accessKey,
    accessDrawn := forall_updateWhere h.accessDrawn fun t ht _ => h.accessDrawn t ht,
    accessFamily := forall_updateWhere h.accessFamily fun t ht _ => ?_ }
  obtain ⟨f, hf, hof⟩ := h.accessFamily t ht
  exact ⟨f, hf, hof.family, hof.organization, hof.scopes, hof.revoked⟩

theorem Sound.granted (h : Sound clock drawn db) {g : GrantRow} (hf : f ∈ db.families) (hlive : f.revokedAt = none)
    (hissuer : f.id = g.issuerId) (horganization : g.organizationId = f.organizationId) :
    Sound clock drawn { db with grants := db.grants ++ [g] } := by
  refine { h with
    grantDrawn := forall_append h.grantDrawn (hissuer ▸ h.familyDrawn f hf),
    grantFamily := forall_append h.grantFamily fun f' hf' hfg => ?_ }
  obtain rfl := key_inj h.familyKey hf' hf (hfg.trans hissuer.symm)
  exact ⟨horganization, fun hr => absurd hr (by simp [hlive])⟩

theorem nodup_filter {ρ : Type} {key : ρ → String} {p : ρ → Bool} {rows : List ρ} (hn : (rows.map key).Nodup) :
    ((rows.filter p).map key).Nodup :=
  hn.sublist (List.filter_sublist.map key)

theorem Sound.reaped (h : Sound clock drawn db) {authorizations : DeviceRow → Bool} {families : FamilyRow → Bool}
    {refresh : RefreshRow → Bool}
    (hauthorizations : ∀ f ∈ db.families, families f = true → ∀ r ∈ db.authorizations,
      r.id = f.deviceAuthorizationId → authorizations r = true)
    (hrefresh : ∀ f ∈ db.families, ∀ t ∈ db.refreshTokens, t.familyId = f.id → refresh t = families f)
    (haccess : ∀ f ∈ db.families, ∀ t ∈ db.accessTokens, t.familyId = f.id → access t = true →
      families f = true) :
    Sound clock drawn { db with
      authorizations := db.authorizations.filter authorizations,
      families := db.families.filter families,
      refreshTokens := db.refreshTokens.filter refresh,
      accessTokens := db.accessTokens.filter access } := by
  refine { h with
    authorizationKey := nodup_filter h.authorizationKey,
    authorizationDrawn := fun r hr => h.authorizationDrawn r (List.mem_filter.mp hr).1,
    shaped := fun r hr => h.shaped r (List.mem_filter.mp hr).1,
    familyKey := nodup_filter h.familyKey,
    familyDrawn := fun f hf => h.familyDrawn f (List.mem_filter.mp hf).1,
    oneFamily := nodup_filter h.oneFamily,
    authorization := fun f hf => ?_,
    reuse := fun f hf => h.reuse f (List.mem_filter.mp hf).1,
    refreshKey := nodup_filter h.refreshKey,
    refreshDrawn := fun t ht => h.refreshDrawn t (List.mem_filter.mp ht).1,
    refreshFamily := fun t ht => ?_,
    linear := fun f hf => ?_,
    accessKey := nodup_filter h.accessKey,
    accessDrawn := fun t ht => h.accessDrawn t (List.mem_filter.mp ht).1,
    accessFamily := fun t ht => ?_,
    grantFamily := fun g hg f hf => h.grantFamily g hg f (List.mem_filter.mp hf).1 }
  · obtain ⟨hf, hkept⟩ := List.mem_filter.mp hf
    obtain ⟨r, hr, hof⟩ := h.authorization f hf
    exact ⟨r, List.mem_filter.mpr ⟨hr, hauthorizations f hf hkept r hr hof.id⟩, hof⟩
  · obtain ⟨ht, hkept⟩ := List.mem_filter.mp ht
    obtain ⟨f, hf, hof⟩ := h.refreshFamily t ht
    exact ⟨f, List.mem_filter.mpr ⟨hf, hrefresh f hf t ht hof.family.symm ▸ hkept⟩, hof⟩
  · obtain ⟨hf, hkept⟩ := List.mem_filter.mp hf
    show Linear (tokensOf (db.refreshTokens.filter refresh) f.id)
    have hall : tokensOf (db.refreshTokens.filter refresh) f.id = tokensOf db.refreshTokens f.id := by
      rw [tokensOf, List.filter_filter]
      refine List.filter_congr fun t ht => ?_
      by_cases hfamily : t.familyId = f.id
      · rw [hrefresh f hf t ht hfamily, hkept, Bool.and_true]
      · simp [hfamily]
    rw [hall]
    exact h.linear f hf
  · obtain ⟨ht, hkept⟩ := List.mem_filter.mp ht
    obtain ⟨f, hf, hof⟩ := h.accessFamily t ht
    exact ⟨f, List.mem_filter.mpr ⟨hf, haccess f hf t ht hof.family.symm hkept⟩, hof⟩

/-- Every change keeps the invariant. -/
theorem Change.sound (hc : Change clock drawn drawn' reader locked db db') (h : Sound clock drawn db)
    (hdrawn : drawn ⊆ drawn') : Sound clock drawn' db' := by
  cases hc with
  | identity hk => exact (h.keeps hk).mono le_rfl hdrawn
  | issued row hfresh hmem hpending hscopes happrover => exact h.issued hdrawn hfresh hmem hpending hscopes happrover
  | settled id set _ hset =>
    refine (h.updated fun r hr hid => ?_).mono le_rfl hdrawn
    have hs := hset r hr hid
    refine ⟨hs.id, fun hstatus => ?_, hs.shaped⟩
    rcases hs.before with hb | hb <;> exact nomatch hb.symm.trans hstatus
  | approved id set member organizationId _ _ hset =>
    refine (h.updated fun r hr hid => ?_).mono le_rfl hdrawn
    have hs := hset r hr hid
    exact ⟨hs.id, fun hstatus => (nomatch hs.before.symm.trans hstatus), hs.shaped⟩
  | redeemed row f t a hrow _ hr => exact h.redeemed hdrawn hrow hr
  | rotated now f t next a hf ht hr => exact h.rotated hdrawn hf ht hr
  | revoked now reuse family access grant hk hcascade =>
    refine Sound.mono (Sound.revoked (h.keeps hk) ?_) le_rfl hdrawn
    rw [hk.families, hk.accessTokens, hk.grants]
    exact hcascade
  | touched id now => exact (h.touched id now).mono le_rfl hdrawn
  | granted g f hf hlive hissuer horganization =>
    exact (h.granted hf hlive hissuer horganization).mono le_rfl hdrawn
  | reaped _ _ _ _ _ hauthorizations hrefresh haccess =>
    exact (h.reaped hauthorizations hrefresh haccess).mono le_rfl hdrawn

end Sound

/-! ### What the statements change -/

section Statements

variable {clock now : ℕ} {drawn drawn' : List String} {reader : Member → String → Prop}
  {locked : String → Prop} {db db' : Db}

theorem Db.Keeps.refl (db : Db) : db.Keeps db :=
  ⟨fun u hu => ⟨u, hu, rfl⟩, fun o ho => ⟨o, ho, rfl⟩, rfl, rfl, rfl, rfl, rfl⟩

theorem Change.refl (db : Db) : Change clock drawn drawn' reader locked db db := .identity (.refl db)

variable {id : String} {f : FamilyRow} {row : DeviceRow}

theorem authorization?_some (h : db.authorization? id = some row) : row ∈ db.authorizations ∧ row.id = id :=
  ⟨List.mem_of_find?_eq_some h, by simpa using List.find?_some h⟩

theorem family?_some (h : db.family? id = some f) : f ∈ db.families ∧ f.id = id :=
  ⟨List.mem_of_find?_eq_some h, by simpa using List.find?_some h⟩

theorem refreshToken?_some {t : RefreshRow} (h : db.refreshToken? id = some t) : t ∈ db.refreshTokens ∧ t.id = id :=
  ⟨List.mem_of_find?_eq_some h, by simpa using List.find?_some h⟩

/-- A row of a table with a key, by the key. -/
theorem eq_of_authorization (h : Sound clock drawn db) {r : DeviceRow} (hrow : row ∈ db.authorizations)
    (hr : r ∈ db.authorizations) (hid : r.id = row.id) : r = row :=
  key_inj h.authorizationKey hr hrow hid

theorem issueAttempt_change {scopes : List Scope} {draws : List CodeDraw}
    (hfresh : ∀ draw ∈ draws, draw.id ∉ drawn ∧ draw.id ∈ drawn') :
    Change clock drawn drawn' reader locked db (db.issueAttempt now scopes draws).1 := by
  induction draws with
  | nil => exact .refl db
  | cons draw draws ih =>
    rw [Db.issueAttempt]
    split_ifs
    · exact .refl db
    · exact ih fun d hd => hfresh d (List.mem_cons_of_mem _ hd)
    · obtain ⟨hnew, hmem⟩ := hfresh draw List.mem_cons_self
      exact .issued _ hnew hmem rfl rfl rfl

theorem issue_change {clientId : String} {scopes : List (Option Scope)} {draws : List CodeDraw}
    (hfresh : ∀ draw ∈ draws, draw.id ∉ drawn ∧ draw.id ∈ drawn') :
    Change clock drawn drawn' reader locked db (db.issue now clientId scopes draws).1 := by
  rw [Db.issue]
  split_ifs
  · exact .refl db
  · cases validScopes scopes with
    | none => exact .refl db
    | some scopes => exact issueAttempt_change fun draw hd => hfresh draw (List.mem_of_mem_take hd)

theorem authorizeLocked_change (h : Sound clock drawn db) {input : AuthorizeInput} {member : Member}
    (hfree : ∀ r, (db.authorizations.find? fun r => input.userCode == some r.userCode) = some r → ¬ locked r.id)
    (hread : reader member input.organizationId)
    (hknown : Known db.users db.organizations member.id input.organizationId) :
    Change clock drawn drawn' reader locked db (db.authorizeLocked now input member).1 := by
  rw [Db.authorizeLocked]
  cases hfind : db.authorizations.find? fun r => input.userCode == some r.userCode with
  | none => exact .refl db
  | some row =>
    have hrow := List.mem_of_find?_eq_some hfind
    have hrowfree := hfree row hfind
    dsimp only
    split_ifs with hexpired hstatus
    · exact .refl db
    · exact .refl db
    · rw [not_not] at hstatus
      cases input.decision with
      | deny =>
        refine .settled row.id _ hrowfree fun r hr hid => ?_
        obtain rfl := eq_of_authorization h hrow hr hid
        exact ⟨rfl, rfl, Or.inl hstatus, Or.inr rfl, (h.shaped r hrow).pending hstatus, fun userId hu =>
          ⟨_, rfl, Option.some.inj hu ▸ hknown⟩⟩
      | approve =>
        dsimp only
        split
        next projectId scopes _ _ =>
          split_ifs with hscopes hproject
          · exact .refl db
          · exact .refl db
          · refine .approved row.id _ member input.organizationId hrowfree hread fun r hr hid => ?_
            obtain rfl := eq_of_authorization h hrow hr hid
            rw [List.any_eq_true, not_exists] at hscopes
            have hboth {scope : Scope} (hs : scope ∈ uniqueScopes scopes) :
                scope ∈ r.requestedScopes ∧ rolePermits member.role scope = true := by
              have hno := hscopes scope
              simpa [hs] using hno
            exact ⟨rfl, rfl, hstatus, rfl, ⟨_, rfl, fun scope hs => (hboth hs).1, fun scope hs => (hboth hs).2⟩,
              ⟨rfl, rfl⟩, hknown⟩
        next => exact .refl db

theorem exchangeLocked_change (h : Sound clock drawn db) (hfree : ¬ locked id) :
    Change clock drawn drawn' reader locked db (db.exchangeLocked now id).1 := by
  rw [Db.exchangeLocked]
  cases hfind : db.authorization? id with
  | none => exact .refl db
  | some row =>
    obtain ⟨hrow, hid⟩ := authorization?_some hfind
    dsimp only
    by_cases hexpired : row.expiresAt ≤ now
    · rw [if_pos hexpired]
      exact .refl db
    · rw [if_neg hexpired]
      cases hstatus : row.status with
      | denied => exact .refl db
      | consumed => exact .refl db
      | approved => exact .refl db
      | pending =>
        have hsettles (r : DeviceRow) (hr : r ∈ db.authorizations) (hrid : r.id = id) {seconds at' : ℕ} :
            r.Settles { r with pollIntervalSeconds := seconds, nextPollAt := at' } db := by
          obtain rfl := eq_of_authorization h hrow hr (hrid.trans hid.symm)
          exact ⟨rfl, rfl, Or.inl hstatus, Or.inl ⟨hstatus, hstatus⟩, (h.shaped r hrow).pending hstatus,
            (h.shaped r hrow).known⟩
        dsimp only
        split_ifs
        · exact .settled id _ hfree fun r hr hrid => hsettles r hr hrid
        · exact .settled id _ hfree fun r hr hrid => hsettles r hr hrid

theorem exchangeLocked_ok (h : db.exchangeLocked now id = (db', .ok row)) :
    db' = db ∧ row ∈ db.authorizations ∧ row.id = id ∧ row.status = .approved ∧ now < row.expiresAt := by
  rw [Db.exchangeLocked] at h
  cases hfind : db.authorization? id with
  | none =>
    rw [hfind] at h
    cases h
  | some found =>
    obtain ⟨hmem, hid⟩ := authorization?_some hfind
    rw [hfind] at h
    dsimp only at h
    by_cases hexpired : found.expiresAt ≤ now
    · rw [if_pos hexpired] at h
      cases h
    · rw [if_neg hexpired] at h
      cases hstatus : found.status with
      | approved =>
        rw [hstatus] at h
        cases h
        exact ⟨rfl, hmem, hid, hstatus, not_le.mp hexpired⟩
      | pending =>
        rw [hstatus] at h
        dsimp only at h
        split_ifs at h <;> cases h
      | denied =>
        rw [hstatus] at h
        cases h
      | consumed =>
        rw [hstatus] at h
        cases h

theorem redeem_change (h : Sound clock drawn db) {role : Option Role} {draw : TokenDraw} (hfree : ¬ locked row.id)
    (hrow : row ∈ db.authorizations) (hstatus : row.status = .approved) (hlive : now < row.expiresAt)
    (hfresh : ∀ id ∈ [draw.familyId, draw.refreshId, draw.accessId], id ∉ drawn ∧ id ∈ drawn') :
    Change clock drawn drawn' reader locked db (db.redeem now row role draw).1 := by
  simp only [List.forall_mem_cons, List.not_mem_nil, false_imp_iff, implies_true, and_true] at hfresh
  obtain ⟨hfamily, hrefresh, haccess⟩ := hfresh
  rw [Db.redeem]
  split
  next organizationId projectId userId scopes horganization hproject hu hscopes =>
    split_ifs
    · refine .settled row.id _ hfree fun r hr hid => ?_
      obtain rfl := eq_of_authorization h hrow hr hid
      exact ⟨rfl, rfl, Or.inr hstatus, Or.inr rfl, rfl, (h.shaped r hrow).known⟩
    · exact .refl db
    · refine .redeemed row _ _ _ hrow hfree ⟨hstatus, ⟨rfl, rfl, hscopes, horganization, by rw [hu]; rfl⟩, ⟨rfl, rfl⟩, hlive,
        ⟨rfl, rfl⟩, ⟨rfl, rfl⟩, ⟨rfl, rfl⟩, ⟨rfl, rfl, rfl, nofun⟩, ⟨hfamily.1, hrefresh.1, haccess.1⟩,
        ⟨hfamily.2, hrefresh.2, haccess.2⟩⟩
  next => exact .refl db

/-- The revocation of one family, whatever else of its grants the caller spares. -/
theorem revokeFamily_change (h : Sound clock drawn db) (hf : f ∈ db.families) {reuse : Bool} :
    Change clock drawn drawn' reader locked db (db.revokeFamily now clock reuse f) := by
  refine .revoked now reuse _ _ _ (.refl db) fun f' hf' hid => ⟨fun t _ htf => Or.inl ?_, fun g hg hgf => ?_⟩
  · exact decide_eq_true (htf.trans (of_decide_eq_true hid))
  · have hsame : f' = f := key_inj h.familyKey hf' hf (of_decide_eq_true hid)
    have horganization := (h.grantFamily g hg f hf (hsame ▸ hgf.symm)).organization
    by_cases hexpired : g.expiresAt ≤ clock
    · exact Or.inr (Or.inr hexpired)
    · exact Or.inl (by simp [hgf, hsame, horganization, not_le.mp hexpired])

theorem revokeFamilyForIdentity_change (h : Sound clock drawn db) (hf : f ∈ db.families) :
    Change clock drawn drawn' reader locked db (db.revokeFamilyForIdentity now clock f) := by
  refine .revoked now false _ _ _ (.refl db) fun f' hf' hid => ?_
  have hfid : f'.id = f.id := of_decide_eq_true (Bool.and_eq_true_iff.mp hid).1
  refine ⟨fun t _ htf => Or.inl (decide_eq_true (htf.trans hfid)), fun g hg hgf => ?_⟩
  have horganization := (h.grantFamily g hg f hf (hfid.symm.trans hgf.symm)).organization
  cases hrevoked : g.revokedAt with
  | none => exact Or.inl (by simp [hgf, hfid, horganization])
  | some at' => exact Or.inr (Or.inl rfl)

theorem refreshLocked_change (h : Sound clock drawn db) {draw : TokenDraw}
    (hfresh : ∀ id ∈ [draw.refreshId, draw.accessId], id ∉ drawn ∧ id ∈ drawn') :
    Change clock drawn drawn' reader locked db (db.refreshLocked clock now id draw).1 := by
  simp only [List.forall_mem_cons, List.not_mem_nil, false_imp_iff, implies_true, and_true] at hfresh
  obtain ⟨hrefresh, haccess⟩ := hfresh
  rw [Db.refreshLocked]
  cases htoken : db.refreshToken? id with
  | none => exact .refl db
  | some t =>
    obtain ⟨ht, rfl⟩ := refreshToken?_some htoken
    dsimp only
    cases hfamily : db.family? t.familyId with
    | none => exact .refl db
    | some f =>
      obtain ⟨hf, hft⟩ := family?_some hfamily
      dsimp only
      by_cases hdead : t.expiresAt ≤ now ∨ f.expiresAt ≤ now ∨ f.revokedAt.isSome = true
      · rw [if_pos hdead]
        exact .refl db
      · rw [if_neg hdead]
        cases db.approver f with
        | none => exact .refl db
        | some approver =>
          dsimp only
          split_ifs with hused
          · exact revokeFamily_change h hf
          · exact revokeFamilyForIdentity_change h hf
          · exact .refl db
          · exact revokeFamily_change h hf
          · exact .refl db
          · have hlive : f.revokedAt = none := by simpa using (not_or.mp (not_or.mp hdead).2).2
            obtain ⟨f', hf', hof⟩ := h.refreshFamily t ht
            obtain rfl := key_inj h.familyKey hf' hf (hof.family.trans hft.symm)
            refine .rotated now f' t (f'.refreshToken now (t.generation + 1) draw)
              (f'.accessToken now (min (now + 15 * 60 * 1000) f'.expiresAt) draw) hf' ht ?_
            exact ⟨hof, hlive, by simpa using hused, ⟨rfl, rfl⟩, ⟨rfl, rfl⟩, ⟨rfl, rfl⟩,
              ⟨rfl, rfl, rfl, fun hr => absurd hr (by simp [hlive])⟩, ⟨hrefresh.1, haccess.1⟩,
              ⟨hrefresh.2, haccess.2⟩⟩

theorem revocable_some (h : db.revocable now id = some f) :
    ∃ t, db.refreshToken? id = some t ∧ db.family? t.familyId = some f ∧ now < t.expiresAt ∧ now < f.expiresAt ∧
      f.revokedAt = none := by
  obtain ⟨t, ht, hf⟩ := Option.bind_eq_some_iff.mp h
  obtain ⟨hfamily, hlive⟩ := Option.filter_eq_some_iff.mp hf
  simp only [Bool.and_eq_true, decide_eq_true_eq, Option.isNone_iff_eq_none] at hlive
  exact ⟨t, ht, hfamily, hlive.1.1, hlive.1.2, hlive.2⟩

theorem admissible_some (h : db.admissible now id = some f) :
    ∃ t, db.accessToken? id = some t ∧ db.family? t.familyId = some f ∧ t.revokedAt = none ∧ f.revokedAt = none := by
  obtain ⟨t, ht, hf⟩ := Option.bind_eq_some_iff.mp h
  obtain ⟨hfamily, hlive⟩ := Option.filter_eq_some_iff.mp hf
  simp only [Bool.and_eq_true, Option.isNone_iff_eq_none] at hlive
  exact ⟨t, ht, hfamily, hlive.1.1.2, hlive.2⟩

theorem revokeLocked_change (h : Sound clock drawn db) (id : String) :
    Change clock drawn drawn' reader locked db (db.revokeLocked clock now id).1 := by
  rw [Db.revokeLocked]
  cases hfind : db.revocable now id with
  | none => exact .refl db
  | some f =>
    obtain ⟨_, _, hfamily, _⟩ := revocable_some hfind
    exact revokeFamily_change h (family?_some hfamily).1

theorem authenticateLocked_change (h : Sound clock drawn db) (id : String) (raw : Option Token) :
    Change clock drawn drawn' reader locked db (db.authenticateLocked clock now id raw).1 := by
  rw [Db.authenticateLocked]
  cases hfind : db.admissible now id with
  | none => exact .refl db
  | some f =>
    obtain ⟨_, _, hfamily, _⟩ := admissible_some hfind
    dsimp only
    cases db.approver f with
    | none => exact .refl db
    | some approver =>
      dsimp only
      split_ifs
      · exact .refl db
      · exact revokeFamilyForIdentity_change h (family?_some hfamily).1
      · exact .touched id now

theorem issueGrant_change {familyId organizationId projectId : String} {ttl : ℕ}
    (hgrant : db.issueGrant clock id familyId organizationId projectId ttl = some db') :
    Change clock drawn drawn' reader locked db db' := by
  rw [Db.issueGrant] at hgrant
  cases hfind : db.family? familyId with
  | none =>
    rw [hfind] at hgrant
    cases hgrant
  | some f =>
    obtain ⟨hf, hid⟩ := family?_some hfind
    rw [hfind] at hgrant
    dsimp only at hgrant
    split_ifs at hgrant with hlive
    cases hgrant
    exact .granted _ f hf hlive.2.2.1 hid hlive.1.symm

/-! The triggers. -/

theorem keeps_users {users : List UserRow} (h : ∀ u ∈ db.users, ∃ u' ∈ users, u'.id = u.id) :
    db.Keeps { db with users } :=
  ⟨h, fun o ho => ⟨o, ho, rfl⟩, rfl, rfl, rfl, rfl, rfl⟩

theorem keeps_organizations {organizations : List OrganizationRow}
    (h : ∀ o ∈ db.organizations, ∃ o' ∈ organizations, o'.id = o.id) : db.Keeps { db with organizations } :=
  ⟨fun u hu => ⟨u, hu, rfl⟩, h, rfl, rfl, rfl, rfl, rfl⟩

theorem exists_updateWhere {ρ : Type} {key : ρ → String} {p : ρ → Bool} {g : ρ → ρ} {rows : List ρ} {r : ρ}
    (hg : ∀ r, key (g r) = key r) (hr : r ∈ rows) : ∃ r' ∈ updateWhere p g rows, key r' = key r := by
  refine ⟨_, mem_updateWhere.mpr ⟨r, hr, rfl⟩, ?_⟩
  split_ifs
  exacts [hg r, rfl]

theorem familyOf_mem {p : FamilyRow → Bool} (hf : f ∈ db.families) (hp : p f = true) (hid : id = f.id) :
    db.familyOf p id = true :=
  List.any_eq_true.mpr ⟨f, hf, by simp [hid, hp]⟩

theorem disableUser_change (userId : String) : Change clock drawn drawn' reader locked db (db.disableUser clock userId) := by
  refine .revoked clock false _ _ _ (keeps_users fun u hu => exists_updateWhere (fun _ => rfl) hu)
    fun f hf hp => ⟨fun t _ htf => ?_, fun g _ hgf => ?_⟩
  · cases hrevoked : t.revokedAt with
    | none => exact Or.inl (by simp [familyOf_mem hf (Bool.and_eq_true_iff.mp hp).1 htf])
    | some at' => exact Or.inr rfl
  · cases hrevoked : g.revokedAt with
    | none => exact Or.inl (by simp [familyOf_mem hf (Bool.and_eq_true_iff.mp hp).1 hgf])
    | some at' => exact Or.inr (Or.inl rfl)

theorem disableOrganization_change (h : Sound clock drawn db) (organizationId : String) :
    Change clock drawn drawn' reader locked db (db.disableOrganization clock organizationId) := by
  refine .revoked clock false _ _ _ (keeps_organizations fun o ho => exists_updateWhere (fun _ => rfl) ho)
    fun f hf hp => ⟨fun t ht htf => ?_, fun g hg hgf => ?_⟩
  all_goals
    have horganization : f.organizationId = organizationId := beq_iff_eq.mp (Bool.and_eq_true_iff.mp hp).1
  · obtain ⟨f', hf', hof⟩ := h.accessFamily t ht
    obtain rfl := key_inj h.familyKey hf' hf (hof.family.trans htf)
    cases hrevoked : t.revokedAt with
    | none => exact Or.inl (by simp [hof.organization, horganization])
    | some at' => exact Or.inr rfl
  · have hof := h.grantFamily g hg f hf hgf.symm
    cases hrevoked : g.revokedAt with
    | none => exact Or.inl (by simp [hof.organization, horganization])
    | some at' => exact Or.inr (Or.inl rfl)

theorem removeMember_change (h : Sound clock drawn db) (organizationId userId : String) :
    Change clock drawn drawn' reader locked db (db.removeMember clock organizationId userId) := by
  have hkeeps : db.Keeps { db with
      members := db.members.filter fun m => !(m.organizationId == organizationId && m.userId == userId) } :=
    ⟨fun u hu => ⟨u, hu, rfl⟩, fun o ho => ⟨o, ho, rfl⟩, rfl, rfl, rfl, rfl, rfl⟩
  refine .revoked clock false _ _ _ hkeeps fun f hf hp => ⟨fun t _ htf => ?_, fun g hg hgf => ?_⟩
  all_goals have hof := (Bool.and_eq_true_iff.mp hp).1
  · cases hrevoked : t.revokedAt with
    | none =>
      have hfamily := familyOf_mem (p := fun f => db.approvedBy userId f && f.organizationId == organizationId) hf hof
        htf
      exact Or.inl (by simp [hfamily])
    | some at' => exact Or.inr rfl
  · have horganization := (h.grantFamily g hg f hf hgf.symm).organization
    cases hrevoked : g.revokedAt with
    | none =>
      have hf' : f.organizationId = organizationId := beq_iff_eq.mp (Bool.and_eq_true_iff.mp hof).2
      have hfamily := familyOf_mem (p := fun f => db.approvedBy userId f && f.organizationId == organizationId) hf hof
        hgf
      exact Or.inl (by simp [hfamily, horganization, hf'])
    | some at' => exact Or.inr (Or.inl rfl)

theorem reap_change (h : Sound clock drawn db) (access families : List String) {authorizations : List String}
    (hlocked : ∀ r ∈ db.authorizations, locked r.id → r.status = .approved)
    (hfree : ∀ id ∈ authorizations, ¬ locked id) :
    Change clock drawn drawn' reader locked db (db.reap clock access families authorizations) := by
  have hreaped {f : FamilyRow} (hf : f ∈ db.families) {id : String} (hid : id = f.id) :
      db.familyOf (FamilyRow.reaped clock families) id = f.reaped clock families := by
    rw [Bool.eq_iff_iff, Db.familyOf, List.any_eq_true]
    constructor
    · rintro ⟨f', hf', hthis⟩
      rw [Bool.and_eq_true, beq_iff_eq] at hthis
      obtain rfl := key_inj h.familyKey hf' hf (hthis.1.trans hid)
      exact hthis.2
    · intro hr
      exact ⟨f, hf, by simp [hid, hr]⟩
  refine .reaped _ _ _ _ (fun r hr hl => ?_) (fun f hf hkept r hr hid => ?_) (fun f hf t ht htf => ?_)
    (fun f hf t ht htf hthis => ?_)
  · -- The authorization of a family is not one that is locked.
    have hnone : (db.families.any fun f => f.reaped clock families && f.deviceAuthorizationId == r.id) = false := by
      rw [← Bool.not_eq_true]
      intro hany
      obtain ⟨f, hf, hthis⟩ := List.any_eq_true.mp hany
      rw [Bool.and_eq_true, beq_iff_eq] at hthis
      obtain ⟨r', hr', hof⟩ := h.authorization f hf
      obtain rfl := eq_of_authorization h hr hr' (hof.id.trans hthis.2)
      exact nomatch (hlocked r' hr hl).symm.trans hof.status
    have hid : authorizations.contains r.id = false := by
      simpa using fun hmem => hfree r.id hmem hl
    show (_ || !(_ || authorizations.contains r.id && _)) = true
    rw [hnone, hid, Bool.false_and, Bool.or_false, Bool.not_false, Bool.or_true]
  · rw [Bool.or_eq_true]
    exact Or.inl (List.any_eq_true.mpr ⟨f, List.mem_filter.mpr ⟨hf, hkept⟩, beq_iff_eq.mpr hid.symm⟩)
  · rw [hreaped hf htf]
  · rw [hreaped hf htf, Bool.and_eq_true] at hthis
    exact hthis.2

end Statements

/-! ### Every step -/

/-- A member that a decision in progress has read. -/
def State.reader (s : State) (member : Member) (organizationId : String) : Prop :=
  ∃ now input, Flight.authorizing now input member ∈ s.flights ∧ input.organizationId = organizationId

/-- What a step does. -/
structure State.Moves (s t : State) : Prop where
  change : Change s.clock s.drawn t.drawn s.reader (fun id => t.locked id = true) s.db t.db
  clock : s.clock ≤ t.clock
  drawn : s.drawn ⊆ t.drawn
  read : ∀ member organizationId, t.reader member organizationId →
    s.reader member organizationId ∨ s.db.activeRole member.id organizationId = some member.role

/-- The invariant of the system. -/
structure State.Good (s : State) : Prop where
  sound : Sound s.clock s.drawn s.db
  redeeming : ∀ now row role, Flight.redeeming now row role ∈ s.flights →
    row ∈ s.db.authorizations ∧ row.status = .approved ∧ now < row.expiresAt
  lockedOnce : (s.flights.filterMap Flight.lock?).Nodup
  known : ∀ member organizationId, s.reader member organizationId →
    Known s.db.users s.db.organizations member.id organizationId

section Step

variable {clock : ℕ} {drawn drawn' : List String} {reader : Member → String → Prop} {locked : String → Prop}
  {db db' : Db} {s t : State}

/-- An authorization that is locked stays as it is. -/
theorem Change.spares (hc : Change clock drawn drawn' reader locked db db') {row : DeviceRow}
    (hrow : row ∈ db.authorizations) (hlocked : locked row.id) : row ∈ db'.authorizations := by
  have hother {id : String} (hfree : ¬ locked id) (set : DeviceRow → DeviceRow) :
      row ∈ updateWhere (fun r => decide (r.id = id)) set db.authorizations := by
    have hne : ¬ decide (row.id = id) = true := fun hid => hfree (of_decide_eq_true hid ▸ hlocked)
    exact mem_updateWhere.mpr ⟨row, hrow, if_neg hne⟩
  cases hc with
  | identity hk => exact hk.authorizations ▸ hrow
  | issued => exact List.mem_append_left _ hrow
  | settled id set hfree => exact hother hfree set
  | approved id set _ _ hfree => exact hother hfree set
  | redeemed r _ _ _ _ hfree => exact hother hfree _
  | rotated => exact hrow
  | revoked _ _ _ _ _ hk => exact hk.authorizations ▸ hrow
  | touched => exact hrow
  | granted => exact hrow
  | reaped _ _ _ _ hfree => exact List.mem_filter.mpr ⟨hrow, hfree row hrow hlocked⟩

variable {organizationId : String}

theorem Change.known (hc : Change clock drawn drawn' reader locked db db') {userId : String}
    (h : Known db.users db.organizations userId organizationId) :
    Known db'.users db'.organizations userId organizationId := by
  cases hc with
  | identity hk => exact h.keeps hk
  | revoked _ _ _ _ _ hk =>
    have hmid := h.keeps hk
    exact hmid
  | _ => exact h

theorem locked_of_mem {now : ℕ} {row : DeviceRow} {role : Option Role}
    (h : Flight.redeeming now row role ∈ s.flights) : s.locked row.id = true :=
  List.any_eq_true.mpr ⟨_, h, beq_iff_eq.mpr rfl⟩

theorem locked_iff {id : String} : s.locked id = true ↔ id ∈ s.flights.filterMap Flight.lock? := by
  rw [State.locked, List.any_eq_true, List.mem_filterMap]
  simp only [beq_iff_eq]

theorem reader_sub (h : t.flights ⊆ s.flights) {member : Member} (hr : t.reader member organizationId) :
    s.reader member organizationId := by
  obtain ⟨now, input, hmem, horganization⟩ := hr
  exact ⟨now, input, h hmem, horganization⟩

/-- A step that starts no call. -/
theorem State.Good.move (h : s.Good) (hc : Change s.clock s.drawn t.drawn s.reader (fun id => t.locked id = true) s.db t.db)
    (hclock : s.clock ≤ t.clock) (hdrawn : s.drawn ⊆ t.drawn) (hflights : t.flights.Sublist s.flights) :
    t.Good ∧ s.Moves t := by
  refine ⟨⟨(hc.sound h.sound hdrawn).mono hclock fun _ hid => hid, fun now row role hmem => ?_,
    h.lockedOnce.sublist (hflights.filterMap _), fun member organizationId hr => ?_⟩, hc, hclock, hdrawn,
    fun member organizationId hr => Or.inl (reader_sub hflights.subset hr)⟩
  · obtain ⟨hrow, hstatus, hlive⟩ := h.redeeming now row role (hflights.subset hmem)
    exact ⟨hc.spares hrow (locked_of_mem hmem), hstatus, hlive⟩
  · exact hc.known (h.known member organizationId (reader_sub hflights.subset hr))

theorem activeRole_known {userId : String} {role : Role} (h : db.activeRole userId organizationId = some role) :
    Known db.users db.organizations userId organizationId := by
  rw [Db.activeRole] at h
  split_ifs at h with hactive
  simp only [Bool.and_eq_true, List.any_eq_true, beq_iff_eq] at hactive
  obtain ⟨⟨u, hu, hid, _⟩, o, ho, hoid, _⟩ := hactive
  exact ⟨⟨u, hu, hid⟩, o, ho, hoid⟩

/-- A step that changes no row and starts a call. -/
theorem State.Good.start (h : s.Good) {flight : Flight}
    (hredeeming : ∀ now row role, flight = .redeeming now row role →
      row ∈ s.db.authorizations ∧ row.status = .approved ∧ now < row.expiresAt ∧ s.locked row.id = false)
    (hread : ∀ now input member, flight = .authorizing now input member →
      s.db.activeRole member.id input.organizationId = some member.role) :
    State.Good { s with flights := s.flights ++ [flight] } ∧
      s.Moves { s with flights := s.flights ++ [flight] } := by
  have hreader (member : Member) (organizationId : String)
      (hr : State.reader { s with flights := s.flights ++ [flight] } member organizationId) :
      s.reader member organizationId ∨ s.db.activeRole member.id organizationId = some member.role := by
    obtain ⟨now, input, hmem, rfl⟩ := hr
    rcases List.mem_append.mp hmem with hmem | hmem
    · exact Or.inl ⟨now, input, hmem, rfl⟩
    · exact Or.inr (hread now input member (List.mem_singleton.mp hmem).symm)
  refine ⟨⟨h.sound, fun now row role hmem => ?_, ?_, fun member organizationId hr => ?_⟩, .refl _, le_rfl,
    fun _ hid => hid, hreader⟩
  · rcases List.mem_append.mp hmem with hmem | hmem
    · exact h.redeeming now row role hmem
    · obtain ⟨hrow, hstatus, hlive, _⟩ := hredeeming now row role (List.mem_singleton.mp hmem).symm
      exact ⟨hrow, hstatus, hlive⟩
  · show ((s.flights ++ [flight]).filterMap Flight.lock?).Nodup
    rw [List.filterMap_append]
    cases hflight : flight with
    | redeeming now row role =>
      obtain ⟨_, _, _, hfree⟩ := hredeeming now row role hflight
      have hnot : row.id ∉ s.flights.filterMap Flight.lock? := fun hmem => by
        rw [← locked_iff, hfree] at hmem
        cases hmem
      exact List.nodup_append.mpr ⟨h.lockedOnce, List.nodup_singleton _, fun id hid id' hid' =>
        fun heq => hnot (List.mem_singleton.mp hid' ▸ heq ▸ hid)⟩
    | _ =>
      show (s.flights.filterMap Flight.lock? ++ []).Nodup
      rw [List.append_nil]
      exact h.lockedOnce
  · exact (hreader member organizationId hr).elim (h.known member organizationId) activeRole_known

theorem fresh_iff {ids : List String} : s.fresh ids = true ↔ ids.Nodup ∧ ∀ id ∈ ids, id ∉ s.drawn := by
  simp [State.fresh]

theorem authorizeMember_ok {input : AuthorizeInput} {member : Member} (h : db.authorizeMember input = .ok member) :
    db.activeRole member.id input.organizationId = some member.role := by
  rw [Db.authorizeMember] at h
  split_ifs at h
  cases huser : db.users.find? fun u => decide (u.clerkUserId = input.clerkUserId) with
  | none =>
    rw [huser] at h
    cases h
  | some user =>
    rw [huser] at h
    dsimp only at h
    cases hrole : db.activeRole user.id input.organizationId with
    | none =>
      rw [hrole] at h
      cases h
    | some role =>
      rw [hrole] at h
      cases h
      exact hrole

theorem not_mem_eraseIdx {α β : Type} {f : α → Option β} {l : List α} {k : ℕ} {a : α} {b : β}
    (hn : (l.filterMap f).Nodup) (ha : l[k]? = some a) (hb : f a = some b) : b ∉ (l.eraseIdx k).filterMap f := by
  obtain ⟨hk, rfl⟩ := List.getElem?_eq_some_iff.mp ha
  have hperm := (List.getElem_cons_eraseIdx_perm hk).filterMap f
  rw [List.filterMap_cons_some hb] at hperm
  exact (List.nodup_cons.mp (hperm.nodup_iff.mpr hn)).1

/-- The next part of a call. -/
theorem State.Good.proceed {flight : Flight} {draw : TokenDraw} {k : ℕ} (h : s.Good)
    (hflight : s.flights[k]? = some flight)
    (hstep : State.proceed { s with flights := s.flights.eraseIdx k } flight draw = some t) : t.Good ∧ s.Moves t := by
  have hsub : (s.flights.eraseIdx k).Sublist s.flights := List.eraseIdx_sublist ..
  have hmem : flight ∈ s.flights := List.mem_of_getElem? hflight
  have hdrawn {ids : List String} : s.drawn ⊆ s.drawn ++ ids := fun id hid => List.mem_append_left _ hid
  have hnew {ids : List String} (hf : State.fresh { s with flights := s.flights.eraseIdx k } ids = true) :
      ∀ id ∈ ids, id ∉ s.drawn ∧ id ∈ s.drawn ++ ids :=
    fun id hid => ⟨(fresh_iff.mp hf).2 id hid, List.mem_append_right _ hid⟩
  cases flight with
  | authorizing now input member =>
    simp only [State.proceed] at hstep
    split_ifs at hstep with hlocked
    cases hstep
    have hread : s.reader member input.organizationId := ⟨now, input, hmem, rfl⟩
    refine h.move (authorizeLocked_change h.sound (fun r hr hl => hlocked ?_) hread (h.known _ _ hread)) le_rfl
      (fun _ hid => hid) hsub
    rw [hr]
    exact hl
  | exchanging now id =>
    simp only [State.proceed] at hstep
    split_ifs at hstep with hlocked
    cases hout : s.db.exchangeLocked now id with
    | mk db out =>
      rw [hout] at hstep
      cases out with
      | error e =>
        cases hstep
        have hc : Change s.clock s.drawn s.drawn s.reader
            (fun id => State.locked { s with flights := s.flights.eraseIdx k } id = true) s.db
            (s.db.exchangeLocked now id).1 := exchangeLocked_change h.sound hlocked
        rw [hout] at hc
        exact h.move hc le_rfl (fun _ hid => hid) hsub
      | ok row =>
        cases hstep
        obtain ⟨rfl, hrow, rfl, hstatus, hlive⟩ := exchangeLocked_ok hout
        have hgood : State.Good { s with flights := s.flights.eraseIdx k } :=
          (h.move (t := { s with flights := s.flights.eraseIdx k }) (.refl _) le_rfl (fun _ hid => hid) hsub).1
        refine And.imp_right (fun hmoves => ?_) (hgood.start (fun now' row' role' heq => ?_) fun _ _ _ heq => ?_)
        · exact ⟨.refl _, le_rfl, fun _ hid => hid, fun member organizationId hr =>
            (hmoves.read member organizationId hr).imp_left (reader_sub hsub.subset)⟩
        · cases heq
          exact ⟨hrow, hstatus, hlive, by simpa using hlocked⟩
        · cases heq
  | redeeming now row role =>
    simp only [State.proceed] at hstep
    split_ifs at hstep with hf
    cases hstep
    obtain ⟨hrow, hstatus, hlive⟩ := h.redeeming now row role hmem
    refine h.move (redeem_change h.sound (fun hl => ?_) hrow hstatus hlive (hnew hf)) le_rfl hdrawn hsub
    exact not_mem_eraseIdx h.lockedOnce hflight rfl (locked_iff.mp hl)
  | refreshing now id =>
    simp only [State.proceed] at hstep
    split_ifs at hstep with hf
    cases hstep
    exact h.move (refreshLocked_change h.sound (hnew hf)) le_rfl hdrawn hsub
  | revoking now id =>
    cases hstep
    exact h.move (revokeLocked_change h.sound id) le_rfl (fun _ hid => hid) hsub
  | authenticating now id raw =>
    cases hstep
    exact h.move (authenticateLocked_change h.sound id raw) le_rfl (fun _ hid => hid) hsub

theorem State.Good.locked_row (h : s.Good) {id : String} (hlocked : s.locked id = true) :
    ∃ row ∈ s.db.authorizations, row.id = id ∧ row.status = .approved := by
  obtain ⟨flight, hmem, hlock⟩ := List.any_eq_true.mp hlocked
  cases flight with
  | redeeming now row role =>
    obtain ⟨hrow, hstatus, _⟩ := h.redeeming now row role hmem
    exact ⟨row, hrow, Option.some.inj (beq_iff_eq.mp hlock), hstatus⟩
  | _ => cases hlock

/-- Every step keeps the invariant, and changes the rows in one of the ways. -/
theorem State.Good.step {a : Action} (h : s.Good) (hstep : s.step a = some t) : t.Good ∧ s.Moves t := by
  have hsame {ids : List String} : ids ⊆ ids := fun _ hid => hid
  have hkeeps {db : Db} (hk : s.db.Keeps db) : State.Good { s with db } ∧ s.Moves { s with db } :=
    h.move (.identity hk) le_rfl hsame (List.Sublist.refl _)
  have hrest : s.Good ∧ s.Moves s := h.move (.refl _) le_rfl hsame (List.Sublist.refl _)
  cases a with
  | elapse duration =>
    cases hstep
    exact h.move (.refl _) (Nat.le_add_right ..) hsame (List.Sublist.refl _)
  | createUser id clerkUserId =>
    rw [State.step] at hstep
    split_ifs at hstep
    cases hstep
    exact hkeeps (keeps_users fun u hu => ⟨u, List.mem_append_left _ hu, rfl⟩)
  | enableUser id =>
    cases hstep
    exact hkeeps (keeps_users fun u hu => exists_updateWhere (fun _ => rfl) hu)
  | disableUser id =>
    rw [State.step] at hstep
    split_ifs at hstep <;> cases hstep
    · exact h.move (disableUser_change id) le_rfl hsame (List.Sublist.refl _)
    · exact hrest
  | createOrganization id =>
    rw [State.step] at hstep
    split_ifs at hstep
    cases hstep
    exact hkeeps (keeps_organizations fun o ho => ⟨o, List.mem_append_left _ ho, rfl⟩)
  | enableOrganization id =>
    cases hstep
    exact hkeeps (keeps_organizations fun o ho => exists_updateWhere (fun _ => rfl) ho)
  | disableOrganization id =>
    rw [State.step] at hstep
    split_ifs at hstep <;> cases hstep
    · exact h.move (disableOrganization_change h.sound id) le_rfl hsame (List.Sublist.refl _)
    · exact hrest
  | createProject id organizationId =>
    cases hstep
    exact hkeeps ⟨fun u hu => ⟨u, hu, rfl⟩, fun o ho => ⟨o, ho, rfl⟩, rfl, rfl, rfl, rfl, rfl⟩
  | setRole organizationId userId role =>
    rw [State.step] at hstep
    split_ifs at hstep
    cases hstep
    exact hkeeps ⟨fun u hu => ⟨u, hu, rfl⟩, fun o ho => ⟨o, ho, rfl⟩, rfl, rfl, rfl, rfl, rfl⟩
  | removeMember organizationId userId =>
    rw [State.step] at hstep
    split_ifs at hstep <;> cases hstep
    · exact h.move (removeMember_change h.sound organizationId userId) le_rfl hsame (List.Sublist.refl _)
    · exact hrest
  | issue now clientId scopes draws =>
    rw [State.step] at hstep
    split_ifs at hstep with hf
    cases hstep
    refine h.move (issue_change fun draw hd => ?_) le_rfl (fun id hid => List.mem_append_left _ hid)
      (List.Sublist.refl _)
    have hid : draw.id ∈ draws.map (·.id) := List.mem_map_of_mem hd
    exact ⟨(fresh_iff.mp hf).2 _ hid, List.mem_append_right _ hid⟩
  | authorize now input =>
    cases hstep
    cases hfound : s.db.authorizeMember input with
    | error e => exact hrest
    | ok member =>
      refine h.start (fun _ _ _ heq => nomatch heq) fun now' input' member' heq => ?_
      cases heq
      exact authorizeMember_ok hfound
  | exchange now raw =>
    cases hstep
    cases s.db.exchangeFound raw with
    | error e => exact hrest
    | ok id => exact h.start (fun _ _ _ heq => nomatch heq) fun _ _ _ heq => nomatch heq
  | refresh now raw =>
    cases hstep
    cases s.db.refreshFound now raw with
    | error e => exact hrest
    | ok id => exact h.start (fun _ _ _ heq => nomatch heq) fun _ _ _ heq => nomatch heq
  | revoke now raw =>
    rw [State.step] at hstep
    split at hstep <;> cases hstep
    · exact hrest
    · exact h.start (fun _ _ _ heq => nomatch heq) fun _ _ _ heq => nomatch heq
  | authenticate now raw =>
    rw [State.step] at hstep
    split at hstep <;> cases hstep
    · exact hrest
    · exact h.start (fun _ _ _ heq => nomatch heq) fun _ _ _ heq => nomatch heq
  | proceed k draw =>
    rw [State.step] at hstep
    split at hstep
    · cases hstep
    · next flight hflight => exact h.proceed hflight hstep
  | abort k =>
    cases hstep
    exact h.move (.refl _) le_rfl hsame (List.eraseIdx_sublist ..)
  | issueGrant id familyId organizationId projectId ttl =>
    obtain ⟨db, hgrant, rfl⟩ := Option.map_eq_some_iff.mp hstep
    exact h.move (issueGrant_change hgrant) le_rfl hsame (List.Sublist.refl _)
  | reap access families authorizations =>
    cases hstep
    refine h.move (reap_change h.sound access families (fun r hr hl => ?_) fun id hid hl => ?_) le_rfl hsame
      (List.Sublist.refl _)
    · obtain ⟨row, hrow, hid, hstatus⟩ := h.locked_row hl
      rw [← eq_of_authorization h.sound hr hrow hid]
      exact hstatus
    · have hfree := (List.mem_filter.mp hid).2
      rw [show s.locked id = true from hl] at hfree
      cases hfree

end Step

end Nehemiah.Device
