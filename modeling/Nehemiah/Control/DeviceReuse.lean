import Nehemiah.Control.DeviceFamilies

/-!
# Reuse of refresh tokens

The refresh tokens of a family are a line: each was minted for the one before it, and only the last is unused.  A
token that is presented a second time ends its family, and nothing hangs on an ended family any more
(`refresh_families_linear`).
-/

namespace Nehemiah.Device

open Identity (Role)
open Lib

/-- The family, its access tokens and its gateway grants are revoked, apart from grants that had expired. -/
structure Terminated (clock : ℕ) (db : Db) (familyId : String) : Prop where
  family : ∀ f ∈ db.families, f.id = familyId → f.revokedAt.isSome = true
  access : ∀ t ∈ db.accessTokens, t.familyId = familyId → t.revokedAt.isSome = true
  grants : ∀ g ∈ db.grants, g.issuerId = familyId → g.revokedAt.isSome = true ∨ g.expiresAt ≤ clock

/-- The tokens of the family in `db'` were there in `db`. -/
structure MintsNone (db db' : Db) (familyId : String) : Prop where
  refresh : ∀ t ∈ db'.refreshTokens, t.familyId = familyId → t.id ∈ (tokensOf db.refreshTokens familyId).map (·.id)
  access : ∀ t ∈ db'.accessTokens, t.familyId = familyId → ∃ t₀ ∈ db.accessTokens, t₀.id = t.id ∧ t₀.familyId = familyId

section Terminated

variable {clock clock' now : ℕ} {drawn drawn' : List String} {reader : Member → String → Prop}
  {locked : String → Prop} {db db' db'' : Db} {familyId : String}

theorem Terminated.mono (h : Terminated clock db familyId) (hclock : clock ≤ clock') :
    Terminated clock' db familyId :=
  ⟨h.family, h.access, fun g hg hi => (h.grants g hg hi).imp_right fun hle => hle.trans hclock⟩

variable {t : RefreshRow} {f : FamilyRow}

theorem mem_tokensOf {tokens : List RefreshRow} (ht : t ∈ tokens) (hf : t.familyId = familyId) :
    t.id ∈ (tokensOf tokens familyId).map (·.id) :=
  List.mem_map_of_mem (List.mem_filter.mpr ⟨ht, decide_eq_true hf⟩)

theorem MintsNone.refl (db : Db) (familyId : String) : MintsNone db db familyId :=
  ⟨fun _ ht hf => mem_tokensOf ht hf, fun t ht hf => ⟨t, ht, rfl, hf⟩⟩

theorem MintsNone.trans (h : MintsNone db db' familyId) (h' : MintsNone db' db'' familyId) :
    MintsNone db db'' familyId := by
  constructor
  · intro t ht hf
    obtain ⟨t', ht', hid⟩ := List.mem_map.mp (h'.refresh t ht hf)
    obtain ⟨hmem, hfamily⟩ := List.mem_filter.mp ht'
    rw [← hid]
    exact h.refresh t' hmem (of_decide_eq_true hfamily)
  · intro t ht hf
    obtain ⟨t', ht', hid, hfamily⟩ := h'.access t ht hf
    obtain ⟨t₀, ht₀, hid₀, hfamily₀⟩ := h.access t' ht' hfamily
    exact ⟨t₀, ht₀, hid₀.trans hid, hfamily₀⟩

/-- A revoked family takes along all that hangs on it. -/
theorem Sound.terminated (h : Sound clock drawn db) (hf : f ∈ db.families) (hrevoked : f.revokedAt.isSome = true) :
    Terminated clock db f.id := by
  constructor
  · intro f' hf' hid
    rw [key_inj h.familyKey hf' hf hid]
    exact hrevoked
  · intro t ht hid
    obtain ⟨f', hf', hof⟩ := h.accessFamily t ht
    obtain rfl := key_inj h.familyKey hf' hf (hof.family.trans hid)
    exact hof.revoked hrevoked
  · intro g hg hid
    exact (h.grantFamily g hg f hf hid.symm).revoked hrevoked

/-- No change brings an ended family back. -/
theorem Change.terminated (hc : Change clock drawn drawn' reader locked db db') (h : Terminated clock db familyId)
    (hdrawn : familyId ∈ drawn) : Terminated clock db' familyId ∧ MintsNone db db' familyId := by
  have hlive {f : FamilyRow} (hf : f ∈ db.families) (hl : f.revokedAt = none) : f.id ≠ familyId := by
    intro hid
    have hr := h.family f hf hid
    rw [hl] at hr
    cases hr
  have hsame : Terminated clock db familyId ∧ MintsNone db db familyId := ⟨h, .refl db familyId⟩
  cases hc with
  | identity hk =>
    obtain ⟨_, _, _, hf, hr, ht, hg⟩ := hk
    refine ⟨⟨hf ▸ h.family, ht ▸ h.access, hg ▸ h.grants⟩, ?_, ?_⟩
    · rw [hr]
      exact hsame.2.refresh
    · rw [ht]
      exact hsame.2.access
  | issued => exact ⟨⟨h.family, h.access, h.grants⟩, hsame.2.refresh, hsame.2.access⟩
  | settled => exact ⟨⟨h.family, h.access, h.grants⟩, hsame.2.refresh, hsame.2.access⟩
  | approved => exact ⟨⟨h.family, h.access, h.grants⟩, hsame.2.refresh, hsame.2.access⟩
  | redeemed row f t a _ _ hr =>
    have hne : f.id ≠ familyId := fun hid => hr.fresh.1 (hid ▸ hdrawn)
    refine ⟨⟨forall_append h.family fun hid => absurd hid hne,
      forall_append h.access fun hid => absurd (hr.access.family.trans hid) hne, h.grants⟩, ?_, ?_⟩
    · exact forall_append hsame.2.refresh fun hid => absurd (hr.refresh.family.trans hid) hne
    · exact forall_append hsame.2.access fun hid => absurd (hr.access.family.trans hid) hne
  | rotated now f t next a hf ht hr =>
    have hne := hlive hf hr.live
    refine ⟨⟨h.family, forall_append h.access fun hid => absurd (hr.access.family.trans hid) hne, h.grants⟩, ?_, ?_⟩
    · refine forall_updateWhere (forall_append hsame.2.refresh fun hid => absurd (hr.refresh.family.trans hid) hne) ?_
      intro r hmem _ hid
      exact forall_append hsame.2.refresh (fun hid => absurd (hr.refresh.family.trans hid) hne) r hmem hid
    · exact forall_append hsame.2.access fun hid => absurd (hr.access.family.trans hid) hne
  | revoked now reuse family access grant hk =>
    obtain ⟨_, _, _, hf, hr, ht, hg⟩ := hk
    refine ⟨⟨forall_updateWhere (hf ▸ h.family) fun _ _ _ _ => rfl,
      forall_updateWhere (ht ▸ h.access) fun _ _ _ _ => rfl,
      forall_updateWhere (hg ▸ h.grants) fun _ _ _ _ => Or.inl rfl⟩, ?_, ?_⟩
    · intro t hmem hid
      refine hsame.2.refresh t ?_ hid
      rw [← hr]
      exact hmem
    · refine forall_updateWhere (ht ▸ hsame.2.access) fun t hmem _ hid => ?_
      exact hsame.2.access t (ht ▸ hmem) hid
  | touched id now =>
    refine ⟨⟨h.family, forall_updateWhere h.access fun t ht _ hid => h.access t ht hid, h.grants⟩, hsame.2.refresh, ?_⟩
    exact forall_updateWhere hsame.2.access fun t ht _ hid => hsame.2.access t ht hid
  | granted g f hf hl hissuer =>
    exact ⟨⟨h.family, h.access, forall_append h.grants fun hid => absurd (hissuer.trans hid) (hlive hf hl)⟩,
      hsame.2.refresh, hsame.2.access⟩
  | reaped =>
    exact ⟨⟨fun f hf => h.family f (List.mem_filter.mp hf).1, fun t ht => h.access t (List.mem_filter.mp ht).1,
      h.grants⟩, fun t ht => hsame.2.refresh t (List.mem_filter.mp ht).1,
      fun t ht => hsame.2.access t (List.mem_filter.mp ht).1⟩

/-- The approver of a family is one of the users. -/
theorem Sound.approver (h : Sound clock drawn db) (hf : f ∈ db.families) : ∃ userId, db.approver f = some userId := by
  obtain ⟨r, hr, hof⟩ := h.authorization f hf
  obtain ⟨userId, hu⟩ := Option.isSome_iff_exists.mp hof.approver
  obtain ⟨o, ho, ⟨u, huin, rfl⟩, o', ho', hoid⟩ := (h.shaped r hr).known userId hu
  have hfind : db.authorization? f.deviceAuthorizationId = some r := (find?_key_iff h.authorizationKey).mpr ⟨hr, hof.id⟩
  have horganization : o = f.organizationId := Option.some.inj (ho.symm.trans hof.organization)
  refine ⟨u.id, ?_⟩
  rw [Db.approver, hfind, Option.bind_some, hu, Option.filter_eq_some_iff]
  refine ⟨rfl, Bool.and_eq_true_iff.mpr ⟨List.any_eq_true.mpr ⟨u, huin, beq_iff_eq.mpr rfl⟩, ?_⟩⟩
  exact List.any_eq_true.mpr ⟨o', ho', beq_iff_eq.mpr (hoid.trans horganization)⟩

theorem Sound.refreshToken? (h : Sound clock drawn db) (ht : t ∈ db.refreshTokens) : db.refreshToken? t.id = some t :=
  (find?_key_iff h.refreshKey).mpr ⟨ht, rfl⟩

theorem Sound.family? (h : Sound clock drawn db) (hf : f ∈ db.families) {id : String} (hid : f.id = id) :
    db.family? id = some f :=
  (find?_key_iff h.familyKey).mpr ⟨hf, hid⟩

theorem Sound.expires (h : Sound clock drawn db) (ht : t ∈ db.refreshTokens) (hf : f ∈ db.families)
    (hid : f.id = t.familyId) : t.expiresAt = f.expiresAt := by
  obtain ⟨f', hf', hof⟩ := h.refreshFamily t ht
  rw [hof.expires, key_inj h.familyKey hf' hf (hof.family.trans hid.symm)]

/-- **Reuse.**  The transaction of a used token ends the family, unless it has expired. -/
theorem refreshLocked_reuse (h : Sound clock drawn db) (ht : t ∈ db.refreshTokens) (hused : t.usedAt.isSome = true)
    (hf : f ∈ db.families) (hid : f.id = t.familyId) (hnow : now < f.expiresAt) (draw : TokenDraw) :
    Terminated clock (db.refreshLocked clock now t.id draw).1 f.id := by
  have hexpires := h.expires ht hf hid
  rw [Db.refreshLocked, h.refreshToken? ht]
  dsimp only
  rw [h.family? hf hid]
  dsimp only
  by_cases hrevoked : f.revokedAt.isSome = true
  · rw [if_pos (Or.inr (Or.inr hrevoked))]
    exact h.terminated hf hrevoked
  · have hlive : ¬ (t.expiresAt ≤ now ∨ f.expiresAt ≤ now ∨ f.revokedAt.isSome = true) := by
      rw [hexpires]
      exact fun hor => hor.elim (not_le.mpr hnow) fun hor => hor.elim (not_le.mpr hnow) hrevoked
    obtain ⟨userId, hu⟩ := h.approver hf
    rw [if_neg hlive, hu]
    dsimp only
    rw [if_pos hused]
    have hc : Change clock drawn drawn (fun _ _ => True) (fun _ => False) db (db.revokeFamily now clock true f) :=
      revokeFamily_change h hf
    have hmem : f.revoke now true ∈ (db.revokeFamily now clock true f).families := by
      refine mem_updateWhere.mpr ⟨f, hf, ?_⟩
      rw [if_pos (decide_eq_true rfl)]
    show Terminated clock _ (f.revoke now true).id
    exact (hc.sound h fun _ hx => hx).terminated hmem rfl

/-- The first look of a call with a used token lets it through, unless the family has ended or expired. -/
theorem refreshFound_reuse (h : Sound clock drawn db) (ht : t ∈ db.refreshTokens) (hf : f ∈ db.families)
    (hid : f.id = t.familyId) (hnow : now < f.expiresAt) (hlive : f.revokedAt = none)
    (hreuse : f.reuseDetectedAt = none) : db.refreshFound now (some t.token) = .ok t.id := by
  have htoken : tokenId (some t.token) .refresh = some t.id := by
    obtain ⟨_, hkind, htid⟩ := h.refreshDrawn t ht
    rw [tokenId, Option.bind_some, if_pos hkind, htid]
  have hexpires := h.expires ht hf hid
  rw [Db.refreshFound, htoken]
  dsimp only
  rw [h.refreshToken? ht]
  dsimp only
  rw [h.family? hf hid]
  simp [hlive, hreuse, hexpires, hnow]

theorem refreshLocked_ok {id : String} {draw : TokenDraw} {response : TokenResponse}
    (h : (db.refreshLocked clock now id draw).2 = .ok response) :
    ∃ t f, db.refreshToken? id = some t ∧ db.family? t.familyId = some f ∧ f.revokedAt = none := by
  rw [Db.refreshLocked] at h
  cases ht : db.refreshToken? id with
  | none =>
    rw [ht] at h
    cases h
  | some t =>
    rw [ht] at h
    dsimp only at h
    cases hf : db.family? t.familyId with
    | none =>
      rw [hf] at h
      cases h
    | some f =>
      rw [hf] at h
      dsimp only at h
      by_cases hdead : t.expiresAt ≤ now ∨ f.expiresAt ≤ now ∨ f.revokedAt.isSome = true
      · rw [if_pos hdead] at h
        cases h
      · exact ⟨t, f, rfl, hf, by simpa using (not_or.mp (not_or.mp hdead).2).2⟩

theorem authenticateLocked_some {id : String} {raw : Option Token} {principal : Principal}
    (h : (db.authenticateLocked clock now id raw).2 = some principal) :
    ∃ f ∈ db.families, f.id = principal.deviceFamilyId ∧ f.revokedAt = none := by
  rw [Db.authenticateLocked] at h
  cases hf : db.admissible now id with
  | none =>
    rw [hf] at h
    cases h
  | some f =>
    obtain ⟨t, _, hfamily, _, hlive⟩ := admissible_some hf
    rw [hf] at h
    dsimp only at h
    cases hu : db.approver f with
    | none =>
      rw [hu] at h
      cases h
    | some userId =>
      rw [hu] at h
      dsimp only at h
      split_ifs at h
      cases h
      exact ⟨f, (family?_some hfamily).1, rfl, hlive⟩

end Terminated

/-! ### Every run -/

section Run

variable {s u : State} {as : List Action} {familyId : String}

theorem initial_good : State.initial.Good := by
  refine ⟨?_, fun _ _ _ h => absurd h List.not_mem_nil, List.nodup_nil, fun _ _ ⟨_, _, h, _⟩ => absurd h List.not_mem_nil⟩
  constructor <;> first | exact List.nodup_nil | exact fun _ h => absurd h List.not_mem_nil

theorem State.Good.run (h : s.Good) (hrun : Run (fun s a t => s.step a = some t) s as u) : u.Good :=
  hrun.invariant (fun _ _ _ hs hstep => (hs.step hstep).1) h

theorem terminated_run (h : s.Good) (hdrawn : familyId ∈ s.drawn) (ht : Terminated s.clock s.db familyId)
    (hrun : Run (fun s a t => s.step a = some t) s as u) :
    Terminated u.clock u.db familyId ∧ MintsNone s.db u.db familyId := by
  induction hrun with
  | nil s => exact ⟨ht, .refl s.db familyId⟩
  | cons hstep _ ih =>
    obtain ⟨hgood, hmoves⟩ := h.step hstep
    obtain ⟨ht', hmints⟩ := hmoves.change.terminated ht hdrawn
    obtain ⟨hlast, hrest⟩ := ih hgood (hmoves.drawn hdrawn) (ht'.mono hmoves.clock)
    exact ⟨hlast, hmints.trans hrest⟩

end Run

/-- The refresh tokens of a family are the generations from the first to the last, of which only the last is unused.
A call that presents a used token before its family expires gets to its transaction, unless the family has ended, and
the transaction ends the family.  An ended family stays ended: no refresh and no other step mints a token of it, and
none of its access tokens authenticates. -/
theorem refresh_families_linear {as : List Action} {s : State}
    (hrun : Run (fun s a t => s.step a = some t) .initial as s) :
    (∀ f ∈ s.db.families, ∃ n, 0 < n ∧
      (tokensOf s.db.refreshTokens f.id).map (·.generation) = List.range n ∧
      ∀ t ∈ tokensOf s.db.refreshTokens f.id, t.usedAt = none ↔ t.generation + 1 = n) ∧
    (∀ t ∈ s.db.refreshTokens, t.usedAt.isSome = true → ∀ f ∈ s.db.families, f.id = t.familyId →
      ∀ now < f.expiresAt,
        (s.db.refreshFound now (some t.token) = .ok t.id ∨ Terminated s.clock s.db f.id) ∧
        ∀ k draw u, s.flights[k]? = some (.refreshing now t.id) → s.step (.proceed k draw) = some u →
          Terminated u.clock u.db f.id) ∧
    ∀ f ∈ s.db.families, Terminated s.clock s.db f.id → ∀ bs u, Run (fun s a t => s.step a = some t) s bs u →
      Terminated u.clock u.db f.id ∧ MintsNone s.db u.db f.id ∧
      (∀ clock now id draw response, (u.db.refreshLocked clock now id draw).2 = .ok response →
        ∀ t ∈ u.db.refreshTokens, t.id = id → t.familyId ≠ f.id) ∧
      ∀ clock now id raw principal, (u.db.authenticateLocked clock now id raw).2 = some principal →
        principal.deviceFamilyId ≠ f.id := by
  have hgood := initial_good.run hrun
  have h := hgood.sound
  refine ⟨h.linear, fun t ht hused f hf hid now hnow => ⟨?_, fun k draw u hflight hstep => ?_⟩,
    fun f hf hterm bs u hbs => ?_⟩
  · by_cases hlive : f.revokedAt.isSome = true
    · exact Or.inr (h.terminated hf hlive)
    · have hreuse : f.reuseDetectedAt = none := by
        rw [← Option.not_isSome_iff_eq_none]
        exact fun hr => hlive (h.reuse f hf hr)
      exact Or.inl (refreshFound_reuse h ht hf hid hnow (by simpa using hlive) hreuse)
  · rw [State.step, hflight] at hstep
    simp only [State.proceed] at hstep
    split_ifs at hstep
    cases hstep
    exact refreshLocked_reuse h ht hused hf hid hnow draw
  · obtain ⟨hterm', hmints⟩ := terminated_run hgood (h.familyDrawn f hf) hterm hbs
    have hu := (hgood.run hbs).sound
    refine ⟨hterm', hmints, fun clock now id draw response hok t ht htid hfamily => ?_,
      fun clock now id raw principal hsome heq => ?_⟩
    · obtain ⟨t', f', ht', hf', hlive⟩ := refreshLocked_ok hok
      obtain ⟨hmem, htid'⟩ := refreshToken?_some ht'
      obtain rfl := key_inj hu.refreshKey hmem ht (htid'.trans htid.symm)
      obtain ⟨hfmem, hfid⟩ := family?_some hf'
      have hrevoked := hterm'.family f' hfmem (hfid.trans hfamily)
      rw [hlive] at hrevoked
      cases hrevoked
    · obtain ⟨f', hfmem, hfid, hlive⟩ := authenticateLocked_some hsome
      have hrevoked := hterm'.family f' hfmem (hfid.trans heq)
      rw [hlive] at hrevoked
      cases hrevoked

def sampleDraw (n : String) : TokenDraw := ⟨"family-" ++ n, "refresh-" ++ n, "access-" ++ n, "s", "s"⟩

/-- A device asks for three scopes, a member approves two of them, and the device exchanges its code. -/
def sampleLogin : List Action :=
  [.createUser "user" "clerk-user", .createOrganization "organization",
    .createProject "00000000-0000-4000-8000-000000000001" "organization", .setRole "organization" "user" .member,
    .issue 0 "nehemiah-cli" [some .machinesRead, some .volumesRead, some .billingRead] [⟨"device", "s", "CODE2345"⟩],
    .authorize 1000 ⟨some "CODE2345", .approve, "organization", some "00000000-0000-4000-8000-000000000001",
      some [some .machinesRead, some .volumesRead, some .machinesRead], "clerk-user"⟩,
    .proceed 0 (sampleDraw "0"), .exchange 6000 (some ⟨.device, "device", "s"⟩), .proceed 0 (sampleDraw "0"),
    .proceed 0 (sampleDraw "1")]

def sampleRefresh : List Action :=
  sampleLogin ++ [.refresh 700000 (some ⟨.refresh, "refresh-1", "s"⟩), .proceed 0 (sampleDraw "2")]

/-- The first token is presented again, a minute after it was used. -/
theorem refresh_families_linear_reuse :
    ∃ s u : State, s.step (.proceed 0 (sampleDraw "3")) = some u ∧ s.db.families.any (·.revokedAt.isNone) = true ∧
      Terminated u.clock u.db "family-1" := by
  have hrun : ∃ s : State, Run (fun s a t => s.step a = some t) .initial
      (sampleRefresh ++ [.refresh 760000 (some ⟨.refresh, "refresh-1", "s"⟩)]) s ∧
      (s.flights[0]? = some (.refreshing 760000 "refresh-1") ∧ s.db.families.any (·.revokedAt.isNone) = true ∧
        (∃ t ∈ s.db.refreshTokens, t.id = "refresh-1" ∧ t.usedAt.isSome = true ∧
          ∃ f ∈ s.db.families, f.id = "family-1" ∧ f.id = t.familyId ∧ 760000 < f.expiresAt) ∧
        (s.step (.proceed 0 (sampleDraw "3"))).isSome = true) := Run.of_test (by decide +kernel)
  obtain ⟨s, hrun, hflight, hlive, ⟨t, ht, htid, hused, f, hf, hfid, hid, hnow⟩, hstep⟩ := hrun
  obtain ⟨u, hu⟩ := Option.isSome_iff_exists.mp hstep
  refine ⟨s, u, hu, hlive, ?_⟩
  rw [← hfid]
  exact ((refresh_families_linear hrun).2.1 t ht hused f hf hid 760000 hnow).2 0 _ u (by rw [htid]; exact hflight) hu

/-- A used token that is presented after its family has expired revokes nothing. -/
theorem refresh_reuse_expired :
    ∃ s : State, Run (fun s a t => s.step a = some t) .initial sampleRefresh s ∧
      ∃ t ∈ s.db.refreshTokens, t.usedAt.isSome = true ∧ ∃ f ∈ s.db.families, f.id = t.familyId ∧
        s.step (.refresh 2592006000 (some t.token)) = some s ∧ f.revokedAt = none ∧
        s.db.accessTokens.any (fun a => a.familyId == f.id && a.revokedAt.isNone) = true :=
  Run.of_test (by decide +kernel)

end Nehemiah.Device
