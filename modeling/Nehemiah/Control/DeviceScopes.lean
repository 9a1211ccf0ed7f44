import Nehemiah.Control.DeviceReuse

/-!
# Decisions and scopes of device authorizations

An authorization is decided once and exchanged once, and what its tokens may do was asked for by the device, approved
by the user, and permitted to the user when the approval read the user's role (`device_scopes_never_widen`).
-/

namespace Nehemiah.Device

open Identity (Role)
open Lib

/-- What a step may do to an authorization. -/
structure DeviceRow.Follows (r r' : DeviceRow) (reader : Member → String → Prop) : Prop where
  id : r'.id = r.id
  requested : r'.requestedScopes = r.requestedScopes
  pending : r'.status = .pending → r.status = .pending
  consumed : r.status = .consumed → r'.status = .consumed
  scopes : ∀ scopes, r'.approvedScopes = some scopes →
    (r.approvedScopes = some scopes ∧ r'.approvedBy = r.approvedBy ∧ r'.organizationId = r.organizationId) ∨
    ∃ member organizationId, reader member organizationId ∧ r'.approvedBy = some member.id ∧
      r'.organizationId = some organizationId ∧ ∀ scope ∈ scopes, rolePermits member.role scope = true

section Change

variable {clock : ℕ} {drawn drawn' : List String} {reader : Member → String → Prop} {locked : String → Prop}
  {db db' : Db} {id familyId : String}

theorem DeviceRow.Follows.refl (r : DeviceRow) : r.Follows r reader :=
  ⟨rfl, rfl, fun h => h, fun h => h, fun _ h => Or.inl ⟨h, rfl, rfl⟩⟩

variable {r r' : DeviceRow} {P : DeviceRow → Prop}

theorem DeviceRow.Settles.follows (h : r.Settles r' db) : r.Follows r' reader where
  id := h.id
  requested := h.requested
  pending hp := by
    rcases h.after with ⟨_, hr⟩ | hd
    · exact hr
    · exact nomatch hd.symm.trans hp
  consumed hc := by
    rcases h.before with hb | hb <;> exact nomatch hb.symm.trans hc
  scopes scopes hs := nomatch h.scopes.symm.trans hs

theorem DeviceRow.Approves.follows {member : Member} {organizationId : String}
    (h : r.Approves r' db member organizationId) (hread : reader member organizationId) : r.Follows r' reader where
  id := h.id
  requested := h.requested
  pending hp := nomatch h.after.symm.trans hp
  consumed hc := nomatch h.before.symm.trans hc
  scopes scopes hs := by
    obtain ⟨scopes', hscopes, _, hpermits⟩ := h.scopes
    obtain rfl := Option.some.inj (hscopes.symm.trans hs)
    exact Or.inr ⟨member, organizationId, hread, h.approver.1, h.approver.2, hpermits⟩

/-- Where the authorizations come from. -/
theorem Change.follows (hc : Change clock drawn drawn' reader locked db db') (hr' : r' ∈ db'.authorizations) :
    (∃ r ∈ db.authorizations, r.Follows r' reader) ∨ r'.id ∉ drawn ∧ r'.approvedScopes = none := by
  have hsame (hr : r' ∈ db.authorizations) :
      (∃ r ∈ db.authorizations, r.Follows r' reader) ∨ r'.id ∉ drawn ∧ r'.approvedScopes = none :=
    Or.inl ⟨r', hr, .refl r'⟩
  have hupdate {id : String} {set : DeviceRow → DeviceRow}
      (hmem : r' ∈ updateWhere (fun r => decide (r.id = id)) set db.authorizations)
      (hset : ∀ r ∈ db.authorizations, r.id = id → r.Follows (set r) reader) :
      (∃ r ∈ db.authorizations, r.Follows r' reader) ∨ r'.id ∉ drawn ∧ r'.approvedScopes = none := by
    obtain ⟨r, hr, rfl⟩ := mem_updateWhere.mp hmem
    refine Or.inl ⟨r, hr, ?_⟩
    split_ifs with hid
    · exact hset r hr (of_decide_eq_true hid)
    · exact .refl r
  cases hc with
  | identity hk => exact hsame (hk.authorizations ▸ hr')
  | issued row hfresh _ _ hscopes =>
    rcases List.mem_append.mp hr' with hr | hr
    · exact hsame hr
    · obtain rfl := List.mem_singleton.mp hr
      exact Or.inr ⟨hfresh, hscopes⟩
  | settled id set _ hset => exact hupdate hr' fun r hr hid => (hset r hr hid).follows
  | approved id set member organizationId _ hread hset =>
    exact hupdate hr' fun r hr hid => (hset r hr hid).follows hread
  | redeemed row f t a hrow _ hr =>
    exact hupdate hr' fun r _ _ => ⟨rfl, rfl, nofun, fun _ => rfl, fun _ hs => Or.inl ⟨hs, rfl, rfl⟩⟩
  | rotated => exact hsame hr'
  | revoked _ _ _ _ _ hk => exact hsame (hk.authorizations ▸ hr')
  | touched => exact hsame hr'
  | granted => exact hsame hr'
  | reaped => exact hsame (List.mem_filter.mp hr').1

/-- Where the families come from. -/
theorem Change.families (hc : Change clock drawn drawn' reader locked db db') {f' : FamilyRow}
    (hf' : f' ∈ db'.families) :
    (∃ f ∈ db.families, f.id = f'.id ∧ f.deviceAuthorizationId = f'.deviceAuthorizationId) ∨
    ∃ r ∈ db.authorizations, r.id = f'.deviceAuthorizationId ∧ r.status = .approved ∧ f'.createdAt < r.expiresAt ∧
      r.approvedScopes = some f'.scopes := by
  have hsame (hf : f' ∈ db.families) :
      (∃ f ∈ db.families, f.id = f'.id ∧ f.deviceAuthorizationId = f'.deviceAuthorizationId) ∨
      ∃ r ∈ db.authorizations, r.id = f'.deviceAuthorizationId ∧ r.status = .approved ∧
        f'.createdAt < r.expiresAt ∧ r.approvedScopes = some f'.scopes := Or.inl ⟨f', hf, rfl, rfl⟩
  cases hc with
  | identity hk => exact hsame (hk.families ▸ hf')
  | issued => exact hsame hf'
  | settled => exact hsame hf'
  | approved => exact hsame hf'
  | redeemed row f t a hrow _ hr =>
    rcases List.mem_append.mp hf' with hf | hf
    · exact hsame hf
    · obtain rfl := List.mem_singleton.mp hf
      exact Or.inr ⟨row, hrow, hr.of.id, hr.status, hr.created, hr.of.scopes⟩
  | rotated => exact hsame hf'
  | revoked _ _ _ _ _ hk =>
    obtain ⟨f, hf, rfl⟩ := mem_updateWhere.mp hf'
    refine Or.inl ⟨f, hk.families ▸ hf, ?_⟩
    split_ifs <;> exact ⟨rfl, rfl⟩
  | touched => exact hsame hf'
  | granted => exact hsame hf'
  | reaped => exact hsame (List.mem_filter.mp hf').1

/-- The authorization, if it is still there, has the property. -/
structure Stays (P : DeviceRow → Prop) (drawn : List String) (db : Db) (id : String) : Prop where
  drawn : id ∈ drawn
  row : ∀ r ∈ db.authorizations, r.id = id → P r

theorem Sound.stays (h : Sound clock drawn db) (hr : r ∈ db.authorizations) (hp : P r) : Stays P drawn db r.id :=
  ⟨h.authorizationDrawn r hr, fun _ hr' hid => eq_of_authorization h hr hr' hid ▸ hp⟩

theorem Stays.change (h : Stays P drawn db id) (hP : ∀ r r', r.Follows r' reader → P r → P r')
    (hc : Change clock drawn drawn' reader locked db db') (hdrawn : drawn ⊆ drawn') : Stays P drawn' db' id := by
  refine ⟨hdrawn h.drawn, fun r' hr' hid => ?_⟩
  rcases hc.follows hr' with ⟨r, hr, hfollows⟩ | ⟨hfresh, _⟩
  · exact hP r r' hfollows (h.row r hr (hfollows.id.symm.trans hid))
  · exact absurd (hid ▸ h.drawn) hfresh

/-- The authorization has been exchanged, for the family. -/
structure Exchanged (drawn : List String) (db : Db) (id familyId : String) : Prop where
  row : Stays (fun r => r.status = .consumed) drawn db id
  family : ∀ f ∈ db.families, f.deviceAuthorizationId = id → f.id = familyId

theorem Exchanged.change (h : Exchanged drawn db id familyId) (hc : Change clock drawn drawn' reader locked db db')
    (hdrawn : drawn ⊆ drawn') : Exchanged drawn' db' id familyId := by
  refine ⟨h.row.change (fun _ _ hf => hf.consumed) hc hdrawn, fun f' hf' hid => ?_⟩
  rcases hc.families hf' with ⟨f, hf, hfid, hauthorization⟩ | ⟨r, hr, hrid, hstatus, _⟩
  · rw [← hfid]
    exact h.family f hf (hauthorization.trans hid)
  · exact nomatch hstatus.symm.trans (h.row.row r hr (hrid.trans hid))

end Change

/-! ### Every run -/

section Run

variable {s u : State} {as : List Action} {id familyId : String}

theorem stays_run {P : DeviceRow → Prop} (h : s.Good) (hp : Stays P s.drawn s.db id)
    (hP : ∀ reader r r', r.Follows r' reader → P r → P r') (hrun : Run (fun s a t => s.step a = some t) s as u) :
    Stays P u.drawn u.db id := by
  have hboth : u.Good ∧ Stays P u.drawn u.db id := by
    refine hrun.invariant (I := fun s => s.Good ∧ Stays P s.drawn s.db id) (fun s a t hs hstep => ?_) ⟨h, hp⟩
    obtain ⟨hgood, hmoves⟩ := hs.1.step hstep
    exact ⟨hgood, hs.2.change (hP s.reader) hmoves.change hmoves.drawn⟩
  exact hboth.2

theorem exchanged_run (h : s.Good) (he : Exchanged s.drawn s.db id familyId)
    (hrun : Run (fun s a t => s.step a = some t) s as u) : Exchanged u.drawn u.db id familyId := by
  have hboth : u.Good ∧ Exchanged u.drawn u.db id familyId := by
    refine hrun.invariant (I := fun s => s.Good ∧ Exchanged s.drawn s.db id familyId) (fun s a t hs hstep => ?_) ⟨h, he⟩
    obtain ⟨hgood, hmoves⟩ := hs.1.step hstep
    exact ⟨hgood, hs.2.change hmoves.change hmoves.drawn⟩
  exact hboth.2

/-- In some state of `past` the user had a role in the organization that permits the scopes. -/
def Permitted (past : State → Prop) (userId organizationId : String) (scopes : List Scope) : Prop :=
  ∃ x, past x ∧ ∃ role, x.db.activeRole userId organizationId = some role ∧
    ∀ scope ∈ scopes, rolePermits role scope = true

/-- What decisions have read and approved was so in a state of `past`. -/
structure Remembers (past : State → Prop) (s : State) : Prop where
  good : s.Good
  read : ∀ member organizationId, s.reader member organizationId →
    ∃ x, past x ∧ x.db.activeRole member.id organizationId = some member.role
  approved : ∀ r ∈ s.db.authorizations, ∀ scopes, r.approvedScopes = some scopes →
    ∃ userId organizationId, r.approvedBy = some userId ∧ r.organizationId = some organizationId ∧
      Permitted past userId organizationId scopes

theorem Remembers.step {past : State → Prop} {t : State} {a : Action} (h : Remembers past s) (hs : past s)
    (hstep : s.step a = some t) : Remembers past t := by
  obtain ⟨hgood, hmoves⟩ := h.good.step hstep
  refine ⟨hgood, fun member organizationId hr => ?_, fun r' hr' scopes hscopes => ?_⟩
  · rcases hmoves.read member organizationId hr with hr | hrole
    · exact h.read member organizationId hr
    · exact ⟨s, hs, hrole⟩
  · rcases hmoves.change.follows hr' with ⟨r, hr, hfollows⟩ | ⟨_, hnone⟩
    · rcases hfollows.scopes scopes hscopes with ⟨hsame, happrover, horganization⟩ | ⟨member, o, hread, hm, ho, hpermits⟩
      · rw [happrover, horganization]
        exact h.approved r hr scopes hsame
      · obtain ⟨x, hx, hrole⟩ := h.read member o hread
        exact ⟨member.id, o, hm, ho, x, hx, member.role, hrole, hpermits⟩
    · exact nomatch hnone.symm.trans hscopes

theorem remembers_run (hrun : Run (fun s a t => s.step a = some t) .initial as s) :
    Remembers (Visited (fun s a t => s.step a = some t) .initial as s) s := by
  refine hrun.along ⟨initial_good, fun _ _ hr => ?_, fun _ hr => absurd hr List.not_mem_nil⟩
    fun x a y hx _ hstep hmem => hmem.step hx hstep
  obtain ⟨_, _, hmem, _⟩ := hr
  exact absurd hmem List.not_mem_nil

end Run

/-- An authorization that has left `pending` never returns to it, and keeps what was requested; two families of one
authorization, at whatever times, are the same; a family comes from an approved authorization that has not expired;
and the scopes of an access token are among those approved, which the device had requested and which a role of the
approving user permitted in a state of the run. -/
theorem device_scopes_never_widen {as : List Action} {s : State}
    (hrun : Run (fun s a t => s.step a = some t) .initial as s) :
    (∀ r ∈ s.db.authorizations, ∀ bs u, Run (fun s a t => s.step a = some t) s bs u →
      ∀ r' ∈ u.db.authorizations, r'.id = r.id →
        r'.requestedScopes = r.requestedScopes ∧ (r.status ≠ .pending → r'.status ≠ .pending)) ∧
    (∀ f ∈ s.db.families, ∀ bs u, Run (fun s a t => s.step a = some t) s bs u →
      ∀ f' ∈ u.db.families, f'.deviceAuthorizationId = f.deviceAuthorizationId → f'.id = f.id) ∧
    (∀ a t, s.step a = some t → ∀ f ∈ t.db.families, f.id ∉ s.db.families.map (·.id) →
      ∃ r ∈ s.db.authorizations, r.id = f.deviceAuthorizationId ∧ r.status = .approved ∧ f.createdAt < r.expiresAt ∧
        r.approvedScopes = some f.scopes) ∧
    ∀ token ∈ s.db.accessTokens, ∃ f ∈ s.db.families, f.id = token.familyId ∧
      ∃ r ∈ s.db.authorizations, r.id = f.deviceAuthorizationId ∧
        ∃ approved userId organizationId, r.approvedScopes = some approved ∧ r.approvedBy = some userId ∧
          r.organizationId = some organizationId ∧ token.scopes ⊆ approved ∧ approved ⊆ r.requestedScopes ∧
          Permitted (Visited (fun s a t => s.step a = some t) .initial as s) userId organizationId approved := by
  have hgood := initial_good.run hrun
  have h := hgood.sound
  refine ⟨fun r hr bs u hbs r' hr' hid => ⟨?_, fun hstatus => ?_⟩, fun f hf bs u hbs => ?_,
    fun a t hstep f hf hnew => ?_, fun token ht => ?_⟩
  · have hrequested : Stays (fun x => x.requestedScopes = r.requestedScopes) s.drawn s.db r.id := h.stays hr rfl
    exact (stays_run hgood hrequested (fun _ _ _ hf hx => hf.requested.trans hx) hbs).row r' hr' hid
  · have hdecided : Stays (fun x => x.status ≠ .pending) s.drawn s.db r.id := h.stays hr hstatus
    exact (stays_run hgood hdecided (fun _ _ _ hf hx hp => hx (hf.pending hp)) hbs).row r' hr' hid
  · obtain ⟨r, hr, hof⟩ := h.authorization f hf
    have hexchanged : Exchanged s.drawn s.db f.deviceAuthorizationId f.id := by
      refine ⟨hof.id ▸ h.stays hr hof.status, fun f' hf' hid => ?_⟩
      rw [key_inj h.oneFamily hf' hf hid]
    exact (exchanged_run hgood hexchanged hbs).family
  · rcases (hgood.step hstep).2.change.families hf with ⟨f', hf', hid, _⟩ | hfrom
    · exact absurd (hid ▸ List.mem_map_of_mem hf') hnew
    · exact hfrom
  · obtain ⟨f, hf, hof⟩ := h.accessFamily token ht
    obtain ⟨r, hr, hfr⟩ := h.authorization f hf
    obtain ⟨userId, o, hu, ho, hpermitted⟩ := (remembers_run hrun).approved r hr f.scopes hfr.scopes
    exact ⟨f, hf, hof.family, r, hr, hfr.id, f.scopes, userId, o, hfr.scopes, hu, ho, hof.scopes ▸ List.Subset.refl _,
      (h.shaped r hr).scopes f.scopes hfr.scopes, hpermitted⟩

/-- The two tokens of a login that was refreshed once. -/
theorem device_scopes_never_widen_refreshed :
    ∃ s : State, s.db.accessTokens.map (·.scopes) =
        [[.machinesRead, .volumesRead], [.machinesRead, .volumesRead]] ∧
      ∀ token ∈ s.db.accessTokens, ∃ r ∈ s.db.authorizations, token.scopes ⊆ r.requestedScopes := by
  have hrun : ∃ s : State, Run (fun s a t => s.step a = some t) .initial sampleRefresh s ∧
      s.db.accessTokens.map (·.scopes) = [[.machinesRead, .volumesRead], [.machinesRead, .volumesRead]] :=
    Run.of_test (by decide +kernel)
  obtain ⟨s, hrun, hscopes⟩ := hrun
  refine ⟨s, hscopes, fun token ht => ?_⟩
  obtain ⟨_, _, _, r, hr, _, _, _, _, _, _, _, hsub, hrequested, _⟩ :=
    (device_scopes_never_widen hrun).2.2.2 token ht
  exact ⟨r, hr, List.Subset.trans hsub hrequested⟩

end Nehemiah.Device
