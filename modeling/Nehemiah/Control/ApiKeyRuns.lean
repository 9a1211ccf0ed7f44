import Nehemiah.Control.ApiKeyFrames

/-!
# What holds of API keys in every run

The quotas rest on the lock of the organization, under which the trigger counts, and the end of the grants of a key on
its own lock, which the statement that issues a session shares.  A rotation revokes the old key in the transaction that
inserts the new one, so that a lineage of rotations has one live key at most.

The results are the quotas (`api_keys_within_bounds`), the issuers of what is not revoked (`live_grant_has_issuer`), that
a key keeps what it is and its revocation (`api_key_stays`), and the one live key of a lineage
(`lineage_has_one_live_key`).
-/

namespace Nehemiah.ApiKeys

open Lib Http

variable {locked : List (Resource × LockMode)} {db db' db'' : Db}

/-! ### What holds of the committed rows -/

/-- A rotation has revoked the old key, and the new one is for the same use. -/
def Replaced (db : Db) (old new : Text) : Prop :=
  ∃ a ∈ db.keys, ∃ b ∈ db.keys, a.id = old ∧ b.id = new ∧ a.revokedAt ≠ none ∧ b.organizationId = a.organizationId ∧
    b.projectId = a.projectId ∧ b.name = a.name ∧ b.scopes = a.scopes ∧ b.expiresAt = a.expiresAt

structure Rows (db : Db) : Prop where
  ids : (db.keys.map ApiKey.id).Nodup
  prefixes : (db.keys.map ApiKey.keyPrefix).Nodup
  active : ∀ o p, db.active o p ≤ activeLimit p
  retained : ∀ o p, db.retained o p ≤ retainedLimit p
  replaced : ∀ r ∈ db.rotations, Replaced db r.1 r.2
  olds : (db.rotations.map Prod.fst).Nodup
  news : (db.rotations.map Prod.snd).Nodup

structure DbInv (db : Db) : Prop where
  rows : Rows db
  grants : ∀ g ∈ db.grants, g.revokedAt = none → Issuer db g

variable {a b previous : ApiKey} {β : Type*} {p : Option Text} {i : ℕ} {as : List Act}

theorem Rows.eq (h : Rows db) (ha : a ∈ db.keys) (hb : b ∈ db.keys) (hid : a.id = b.id) : a = b :=
  List.inj_on_of_nodup_map h.ids ha hb hid

/-- What a row becomes: it keeps everything but its end, and its revocation stays as it is. -/
structure Becomes (key key' : ApiKey) : Prop where
  id : key'.id = key.id
  keyPrefix : key'.keyPrefix = key.keyPrefix
  organizationId : key'.organizationId = key.organizationId
  projectId : key'.projectId = key.projectId
  name : key'.name = key.name
  keyHash : key'.keyHash = key.keyHash
  scopes : key'.scopes = key.scopes
  expiresAt : key'.expiresAt = key.expiresAt
  revokedAt : ∀ t, key.revokedAt = some t → key'.revokedAt = some t

theorem Becomes.refl (key : ApiKey) : Becomes key key :=
  ⟨rfl, rfl, rfl, rfl, rfl, rfl, rfl, rfl, fun _ h => h⟩

theorem Becomes.trans {c : ApiKey} (h : Becomes a b) (h' : Becomes b c) : Becomes a c :=
  ⟨h'.id.trans h.id, h'.keyPrefix.trans h.keyPrefix, h'.organizationId.trans h.organizationId,
    h'.projectId.trans h.projectId, h'.name.trans h.name, h'.keyHash.trans h.keyHash, h'.scopes.trans h.scopes,
    h'.expiresAt.trans h.expiresAt, fun t ht => h'.revokedAt t (h.revokedAt t ht)⟩

variable {f : ApiKey → ApiKey} {key : ApiKey}

theorem Keeps.becomes (h : Keeps f) (key : ApiKey) : Becomes key (f key) :=
  ⟨h.id key, h.keyPrefix key, h.organizationId key, h.projectId key, h.name key, h.keyHash key, h.scopes key,
    h.expiresAt key, h.revokedAt key⟩

/-- Rows stay, and become others only in this way. -/
def Later (db db' : Db) : Prop := ∀ key ∈ db.keys, ∃ key' ∈ db'.keys, Becomes key key'

theorem Later.refl (db : Db) : Later db db := fun key hkey => ⟨key, hkey, Becomes.refl key⟩

theorem Later.trans (h : Later db db') (h' : Later db' db'') : Later db db'' := fun key hkey => by
  obtain ⟨key', hkey', hbecomes⟩ := h key hkey
  obtain ⟨key'', hkey'', hbecomes'⟩ := h' key' hkey'
  exact ⟨key'', hkey'', hbecomes.trans hbecomes'⟩

theorem Later.updateKey (h : Keeps f) (db : Db) (id : Text) : Later db (db.updateKey id f) :=
  fun key hkey => ⟨_, List.mem_map_of_mem hkey, (h.at id).becomes key⟩

theorem Later.insertKey (db : Db) (key : ApiKey) : Later db (db.insertKey key) := fun other hother =>
  ⟨other, List.mem_append_left _ hother, Becomes.refl other⟩

theorem Txn.later (db : Db) (t : Txn) : Later db (t.commit db) := by
  cases t with
  | inserted key => exact Later.insertKey db key
  | rotated previous replacement now grants =>
    exact (Later.updateKey (Keeps.revoke now) db previous.id).trans (Later.insertKey _ _)
  | keyChanged id organizationId change now grants => exact Later.updateKey (Keeps.apply now change) db id
  | _ => exact Later.refl db

theorem Replaced.later {old new : Text} (h : Replaced db old new) (hl : Later db db') : Replaced db' old new := by
  obtain ⟨a, ha, b, hb, hold, hnew, hr, ho, hp, hname, hscopes, hexpires⟩ := h
  obtain ⟨a', ha', hA⟩ := hl a ha
  obtain ⟨b', hb', hB⟩ := hl b hb
  obtain ⟨t, ht⟩ := Option.ne_none_iff_exists'.mp hr
  refine ⟨a', ha', b', hb', hA.id.trans hold, hB.id.trans hnew, by simp [hA.revokedAt t ht], ?_, ?_, ?_, ?_, ?_⟩
  · rw [hB.organizationId, hA.organizationId, ho]
  · rw [hB.projectId, hA.projectId, hp]
  · rw [hB.name, hA.name, hname]
  · rw [hB.scopes, hA.scopes, hscopes]
  · rw [hB.expiresAt, hA.expiresAt, hexpires]

theorem map_updateKey {g : ApiKey → β} (h : ∀ key, g (f key) = g key) (db : Db) (id : Text) :
    (db.updateKey id f).keys.map g = db.keys.map g := by
  show (db.keys.map _).map g = _
  rw [List.map_map]
  refine List.map_congr_left fun key _ => ?_
  rw [Function.comp_apply]
  split_ifs
  · exact h key
  · rfl

theorem Rows.updateKey (h : Rows db) (hf : Keeps f) (id : Text) : Rows (db.updateKey id f) where
  ids := by
    rw [map_updateKey hf.id]
    exact h.ids
  prefixes := by
    rw [map_updateKey hf.keyPrefix]
    exact h.prefixes
  active o p := (active_updateKey_le hf db id o p).trans (h.active o p)
  retained o p := (retained_updateKey hf db id o p).le.trans (h.retained o p)
  replaced r hr := (h.replaced r hr).later (Later.updateKey hf db id)
  olds := h.olds
  news := h.news

theorem inScope_congr {o : Text} (h : Db.inScope o p key = true) :
    key.organizationId = o := (of_decide_eq_true h).1

theorem nodup_concat {l : List ApiKey} {g : ApiKey → β} (h : (l.map g).Nodup) (hne : ∀ other ∈ l, g other ≠ g key) :
    ((l ++ [key]).map g).Nodup := by
  rw [List.map_append, List.map_singleton, List.nodup_append]
  refine ⟨h, List.nodup_singleton _, fun x hx y hy => ?_⟩
  obtain ⟨other, hother, rfl⟩ := List.mem_map.mp hx
  rw [List.mem_singleton.mp hy]
  exact hne other hother

theorem Rows.insertKey (h : Rows db) (hfresh : Fresh db key) (hretained : Retainable db key)
    (hactive : Activatable db key) : Rows (db.insertKey key) where
  ids := nodup_concat h.ids fun other hother => (hfresh other hother).1
  prefixes := nodup_concat h.prefixes fun other hother => (hfresh other hother).2
  active o p := by
    rw [active_insertKey]
    split_ifs with hscope
    · obtain ⟨hscope, -⟩ := Bool.and_eq_true_iff.mp hscope
      obtain rfl := inScope_congr hscope
      exact hactive p hscope
    · exact h.active o p
  retained o p := by
    rw [retained_insertKey]
    split_ifs with hscope
    · obtain rfl := inScope_congr hscope
      exact hretained p hscope
    · exact h.retained o p
  replaced r hr := (h.replaced r hr).later (Later.insertKey db key)
  olds := h.olds
  news := h.news

theorem countP_lt {p q : β → Bool} {l : List β} (h : ∀ x ∈ l, p x = true → q x = true) {a : β} (ha : a ∈ l)
    (hq : q a = true) (hp : p a = false) : l.countP p + 1 ≤ l.countP q := by
  induction l with
  | nil => cases ha
  | cons x l ih =>
    have hle : l.countP p ≤ l.countP q := List.countP_mono_left fun y hy => h y (List.mem_cons_of_mem _ hy)
    rw [List.countP_cons, List.countP_cons]
    obtain rfl | ha := List.mem_cons.mp ha
    · rw [if_pos hq, hp]
      simpa using hle
    · have hrest := ih (fun y hy => h y (List.mem_cons_of_mem _ hy)) ha
      have hx := h x List.mem_cons_self
      split_ifs with hpx hqx
      · omega
      · exact absurd (hx hpx) hqx
      · omega
      · omega

/-- To revoke a key makes room for one. -/
theorem active_revoke_lt (hmem : previous ∈ db.keys) (hr : previous.revokedAt = none) {o : Text}
    (hscope : Db.inScope o p previous = true) (now : ℤ) :
    (db.updateKey previous.id fun key => key.revoke now).active o p + 1 ≤ db.active o p := by
  have hat := (Keeps.revoke now).at previous.id
  show (db.keys.map _).countP _ + 1 ≤ _
  rw [List.countP_map]
  refine countP_lt (fun key _ hkey => ?_) hmem (by simp [hscope, hr]) (by simp [ApiKey.revoke])
  simp only [Function.comp_apply, Bool.and_eq_true] at hkey ⊢
  rw [hat.inScope] at hkey
  exact ⟨hkey.1, hat.isNone hkey.2⟩

theorem Rows.rotate (h : Rows db) {replacement : Replacement} {now : ℤ} {grants : List Text}
    (hheld : Holds db (.rotated previous replacement now grants)) :
    Rows ((Txn.rotated previous replacement now grants).commit db) := by
  obtain ⟨hmem, hr, hfresh, hretained, -⟩ := hheld
  have hkeeps := Keeps.revoke now
  have hupdated := h.updateKey hkeeps previous.id
  have hfresh' : Fresh (db.updateKey previous.id fun key => key.revoke now) (replacement.row previous) := by
    intro other hother
    obtain ⟨old, hold, rfl⟩ := List.mem_map.mp hother
    rw [(hkeeps.at previous.id).id, (hkeeps.at previous.id).keyPrefix]
    exact hfresh old hold
  have hretained' : Retainable (db.updateKey previous.id fun key => key.revoke now) (replacement.row previous) := by
    intro p hp
    rw [retained_updateKey hkeeps]
    exact hretained p hp
  have hactive' : Activatable (db.updateKey previous.id fun key => key.revoke now) (replacement.row previous) := fun p hp =>
    (active_revoke_lt hmem hr hp now).trans (h.active _ p)
  have hinserted := hupdated.insertKey hfresh' hretained' hactive'
  have hreplaced : Replaced ((db.updateKey previous.id fun key => key.revoke now).insertKey (replacement.row previous))
      previous.id replacement.id := by
    refine ⟨previous.revoke now, ?_, replacement.row previous, List.mem_append_right _ List.mem_cons_self, rfl, rfl,
      by simp [ApiKey.revoke], rfl, rfl, rfl, rfl, rfl⟩
    exact List.mem_append_left _ (List.mem_map.mpr ⟨previous, hmem, if_pos rfl⟩)
  refine ⟨hinserted.ids, hinserted.prefixes, hinserted.active, hinserted.retained, fun r hr' => ?_, ?_, ?_⟩
  · obtain hold | hnew := List.mem_append.mp hr'
    · exact hinserted.replaced r hold
    · rw [List.mem_singleton.mp hnew]
      exact hreplaced
  · -- a key that has been rotated is revoked, and this one was not
    show ((db.rotations ++ [(previous.id, replacement.id)]).map Prod.fst).Nodup
    rw [List.map_append, List.map_singleton, List.nodup_append]
    refine ⟨h.olds, List.nodup_singleton _, fun x hx y hy => ?_⟩
    obtain ⟨r, hmemr, rfl⟩ := List.mem_map.mp hx
    rw [List.mem_singleton.mp hy]
    rintro heq
    obtain ⟨a, ha, -, -, haid, -, harevoked, -⟩ := h.replaced r hmemr
    rw [h.eq ha hmem (haid.trans heq), hr] at harevoked
    exact harevoked rfl
  · show ((db.rotations ++ [(previous.id, replacement.id)]).map Prod.snd).Nodup
    rw [List.map_append, List.map_singleton, List.nodup_append]
    refine ⟨h.news, List.nodup_singleton _, fun x hx y hy => ?_⟩
    obtain ⟨r, hmemr, rfl⟩ := List.mem_map.mp hx
    rw [List.mem_singleton.mp hy]
    rintro heq
    obtain ⟨-, -, b, hb, -, hbid, -⟩ := h.replaced r hmemr
    exact (hfresh b hb).1 (hbid.trans heq)

/-- The issuer of a grant of another key stays as it is. -/
theorem Issuer.updateKey {g : Grant} (h : Issuer db g) {id : Text}
    (hne : ∀ key ∈ db.keys, key.id = id → key.id = g.issuerId → key.organizationId = g.organizationId →
      (f key).id = key.id ∧ (f key).organizationId = key.organizationId ∧ (f key).projectId = key.projectId ∧
        (f key).disabledAt = none ∧ (f key).revokedAt = key.revokedAt) :
    Issuer (db.updateKey id f) g := by
  obtain ⟨henabled, key, hkey, hissuer, ho, hp, hd, hr⟩ := h
  refine ⟨henabled, if key.id = id then f key else key, List.mem_map_of_mem hkey, ?_⟩
  split_ifs with hid
  · obtain ⟨hfid, hfo, hfp, hfd, hfr⟩ := hne key hkey hid hissuer ho
    exact ⟨hfid.trans hissuer, hfo.trans ho, by rw [hfp]; exact hp, hfd, hfr.trans hr⟩
  · exact ⟨hissuer, ho, hp, hd, hr⟩

/-- The grants that are left when those of a key are revoked are not of that key. -/
theorem Issuer.other {g : Grant} (h : Issuer db g) (hrows : Rows db) (hmem : previous ∈ db.keys)
    (hg : ¬(g.issuerId = previous.id ∧ g.organizationId = previous.organizationId)) :
    Issuer (db.updateKey previous.id f) g :=
  h.updateKey fun key hkey hid hissuer ho => by
    rw [hrows.eq hkey hmem hid] at hissuer ho
    exact absurd ⟨hissuer.symm, ho.symm⟩ hg

theorem DbInv.commit (h : DbInv db) {t : Txn} (ht : Holds db t) : DbInv (t.commit db) := by
  cases t with
  | insertLocked | rotateLocked | rotateKeyLocked | keyLocked | organizationLocked | closed => exact h
  | inserted key =>
    obtain ⟨-, -, hfresh, hretained, hactive⟩ := ht
    refine ⟨h.rows.insertKey hfresh hretained hactive, fun g hg hr => ?_⟩
    obtain ⟨henabled, other, hother, hrest⟩ := h.grants g hg hr
    exact ⟨henabled, other, List.mem_append_left _ hother, hrest⟩
  | rotated previous replacement now grants =>
    refine ⟨h.rows.rotate ht, fun g hg hr => ?_⟩
    obtain ⟨hmem, -, -, -, hcovers⟩ := ht
    obtain ⟨hold, hid⟩ := mem_revokeGrants hg hr
    have hother : ¬(g.issuerId = previous.id ∧ g.organizationId = previous.organizationId) := fun ⟨hi, ho⟩ =>
      hid (hcovers g hold hr hi ho)
    have hissuer : Issuer (db.updateKey previous.id fun key => key.revoke now) g :=
      (h.grants g hold hr).other h.rows hmem hother
    obtain ⟨henabled, key, hkey, hrest⟩ := hissuer
    exact ⟨henabled, key, List.mem_append_left _ hkey, hrest⟩
  | keyChanged id organizationId change now grants =>
    obtain ⟨⟨key, hkey, rfl, rfl⟩, hcovers⟩ := ht
    have hrows := h.rows.updateKey (Keeps.apply now change) key.id
    refine ⟨⟨hrows.ids, hrows.prefixes, hrows.active, hrows.retained, hrows.replaced, hrows.olds, hrows.news⟩,
      fun g hg hr => ?_⟩
    obtain ⟨hold, hid⟩ := mem_revokeGrants hg hr
    have hissuer := h.grants g hold hr
    by_cases henable : change = .enable
    · -- an enabled key may issue what it could
      subst henable
      exact hissuer.updateKey fun _ _ _ _ _ => ⟨rfl, rfl, rfl, rfl, rfl⟩
    · exact hissuer.other h.rows hkey fun ⟨hi, ho⟩ => hid (hcovers henable g hold hr hi ho)
  | organizationChanged id disabledAt now grants =>
    refine ⟨⟨h.rows.ids, h.rows.prefixes, h.rows.active, h.rows.retained, h.rows.replaced, h.rows.olds, h.rows.news⟩,
      fun g hg hr => ?_⟩
    obtain ⟨hold, hid⟩ := mem_revokeGrants hg hr
    obtain ⟨henabled, hkey⟩ := h.grants g hold hr
    refine ⟨?_, hkey⟩
    show Function.update db.organizationDisabledAt id disabledAt g.organizationId = none
    by_cases ho : g.organizationId = id
    · rw [ho, Function.update_self]
      by_contra hdisabled
      exact hid (ht hdisabled g hold hr ho)
    · rwa [Function.update_of_ne ho]
  | issueLocked grant =>
    refine ⟨⟨h.rows.ids, h.rows.prefixes, h.rows.active, h.rows.retained, h.rows.replaced, h.rows.olds, h.rows.news⟩,
      fun g hg hr => ?_⟩
    obtain hold | hnew := List.mem_append.mp hg
    · exact h.grants g hold hr
    · rw [List.mem_singleton.mp hnew]
      exact ht.1

/-! ### Every state -/

structure Inv (s : State) : Prop where
  db : DbInv s.db
  holds : ∀ t ∈ s.txns, Holds s.db t
  exclusion : Exclusion Txn.locks s.txns

theorem Inv.start : Inv start where
  db := ⟨⟨List.nodup_nil, List.nodup_nil, fun _ _ => Nat.zero_le _, fun _ _ => Nat.zero_le _, fun _ h => (List.not_mem_nil h).elim,
    List.nodup_nil, List.nodup_nil⟩, fun _ h => (List.not_mem_nil h).elim⟩
  holds t h := by cases h
  exclusion i j x y _ h := by cases h

variable {s s' : State} {t : Txn}

theorem Inv.begin (h : Inv s) (hs : s.begin t = some s') (ht : Holds s.db t) : Inv s' := by
  unfold State.begin at hs
  split_ifs at hs with hfree
  cases hs
  refine ⟨h.db, fun x hx => ?_, h.exclusion.append hfree⟩
  obtain hx | hx := List.mem_append.mp hx
  · exact h.holds x hx
  · rw [List.mem_singleton.mp hx]
    exact ht

theorem Inv.advance (h : Inv s) (hs : s.advance i t = some s') (ht : Holds s.db t) : Inv s' := by
  unfold State.advance at hs
  split_ifs at hs with hfree
  cases hs
  refine ⟨h.db, fun x hx => ?_, h.exclusion.set hfree⟩
  obtain hx | rfl := List.mem_or_eq_of_mem_set hx
  · exact h.holds x hx
  · exact ht

/-- A transaction ends. -/
theorem Inv.close (h : Inv s) {db : Db} (hdb : DbInv db) (hothers : ∀ j x, j ≠ i → s.txns[j]? = some x → Holds db x) :
    Inv ⟨db, s.txns.set i .closed⟩ where
  db := hdb
  holds x hx := by
    obtain ⟨j, hj, rfl⟩ := List.getElem_of_mem hx
    rw [List.getElem_set]
    split_ifs with hi
    · trivial
    · rw [List.length_set] at hj
      exact hothers j _ (fun hji => hi hji.symm) (List.getElem?_eq_getElem hj)
  exclusion := h.exclusion.set (lockable_iff.mpr fun _ _ _ _ => rfl)

theorem Inv.commit (h : Inv s) (ht : s.txns[i]? = some t) : Inv ⟨t.commit s.db, s.txns.set i .closed⟩ := by
  refine h.close (h.db.commit (h.holds t (List.mem_of_getElem? ht))) fun j x hji hx => ?_
  exact (h.holds x (List.mem_of_getElem? hx)).frame (t.frame s.db) (h.exclusion j i x t hji hx ht)

/-- The trigger leaves room in the organization and in the project. -/
theorem room_of_allocationError {o : Text} (h : allocationError db o p = none) {q : Option Text}
    (hq : q = none ∨ p = q) : db.active o q + 1 ≤ activeLimit q ∧ db.retained o q + 1 ≤ retainedLimit q := by
  unfold allocationError at h
  split_ifs at h with hactive hretained hnone hactive' hretained'
  · obtain rfl | rfl := hq
    · omega
    · rw [hnone]
      omega
  · obtain rfl | rfl := hq
    · omega
    · omega

theorem room_of_insertable (h : insertable db key = true) : Fresh db key ∧ Retainable db key ∧ Activatable db key := by
  obtain ⟨hfresh, hroom⟩ := Bool.and_eq_true_iff.mp h
  have hroom := of_decide_eq_true hroom
  refine ⟨fun other hother => of_decide_eq_true (List.all_eq_true.mp hfresh other hother), fun p hp => ?_, fun p hp => ?_⟩
  · exact (room_of_allocationError hroom (of_decide_eq_true hp).2).2
  · exact (room_of_allocationError hroom (of_decide_eq_true hp).2).1

theorem covers_grantsOf (db : Db) (id organizationId : Text) :
    Covers db id organizationId (db.grantsOf id organizationId) := fun _ hg hr hi ho =>
  List.mem_map_of_mem (List.mem_filter.mpr ⟨hg, decide_eq_true ⟨hi, ho, hr⟩⟩)

theorem issuer_of_issuable {now : ℤ} {g : Grant} (h : issuable db now g = true) : Issuer db g := by
  obtain ⟨henabled, hany⟩ := Bool.and_eq_true_iff.mp h
  obtain ⟨key, hkey, hmatch⟩ := List.any_eq_true.mp hany
  exact ⟨of_decide_eq_true henabled, key, hkey, of_decide_eq_true (Bool.and_eq_true_iff.mp hmatch).1⟩

/-- The grants of a key that is disabled already have ended. -/
theorem covers_endedBy (h : DbInv db) (hkey : key ∈ db.keys) {change : KeyChange} (hne : change ≠ .enable) :
    Covers db key.id key.organizationId (endedBy db change key) := by
  cases change with
  | revoke => exact covers_grantsOf db key.id key.organizationId
  | disable =>
    show Covers db key.id key.organizationId (if key.disabledAt = none then db.grantsOf key.id key.organizationId else [])
    split_ifs with hd
    · exact covers_grantsOf db key.id key.organizationId
    · intro g hg hr hi ho
      obtain ⟨-, issuer, hissuer, hid, -, -, hdisabled, -⟩ := h.grants g hg hr
      rw [h.rows.eq hissuer hkey (hid.trans hi)] at hdisabled
      exact absurd hdisabled hd
  | enable => exact absurd rfl hne

/-- A step about grants only. -/
theorem Inv.setGrants (h : Inv s) {grants : List Grant}
    (hg : ∀ g ∈ grants, g.revokedAt = none → g ∈ s.db.grants) :
    Inv { s with db := { s.db with grants := grants } } := by
  have hframe : Frame [] s.db { s.db with grants := grants } :=
    ⟨fun _ _ => Iff.rfl, fun key hkey => .inl ⟨key, hkey, rfl, rfl⟩, fun _ _ => rfl, fun _ _ _ => ⟨le_rfl, le_rfl⟩,
      fun g hmem hr => .inl (hg g hmem hr)⟩
  refine ⟨⟨⟨h.db.rows.ids, h.db.rows.prefixes, h.db.rows.active, h.db.rows.retained, h.db.rows.replaced, h.db.rows.olds,
    h.db.rows.news⟩, fun g hmem hr => h.db.grants g (hg g hmem hr) hr⟩, fun t ht => ?_, h.exclusion⟩
  exact (h.holds t ht).frame hframe (conflict_nil _)

theorem Inv.next (h : Inv s) {a : Act} (hs : next s a = some s') : Inv s' := by
  cases a with
  | lockForInsert key =>
    simp only [ApiKeys.next] at hs
    exact h.begin hs ⟨rfl, rfl⟩
  | insertRow i =>
    simp only [ApiKeys.next] at hs
    split at hs
    · next key hkey =>
      split_ifs at hs with hok
      obtain ⟨hd, hr⟩ := h.holds _ (List.mem_of_getElem? hkey)
      exact h.advance hs ⟨hd, hr, room_of_insertable hok.2⟩
    · cases hs
  | lockForRotate id organizationId replacement =>
    simp only [ApiKeys.next] at hs
    exact h.begin hs trivial
  | selectKey i now =>
    simp only [ApiKeys.next] at hs
    split at hs
    · next id organizationId replacement _ =>
      split at hs
      · next previous hfound =>
        split_ifs at hs
        have hmatch : rotatable now id organizationId previous = true := List.find?_some hfound
        have hmatch := of_decide_eq_true (Bool.and_eq_true_iff.mp hmatch).1
        exact h.advance hs ⟨List.mem_of_find?_eq_some hfound, hmatch.2.2.2⟩
      · cases hs
    · cases hs
  | rotateRow i now =>
    simp only [ApiKeys.next] at hs
    split at hs
    · next previous replacement htxn =>
      split_ifs at hs with hok
      obtain ⟨hmem, hr⟩ := h.holds _ (List.mem_of_getElem? htxn)
      obtain ⟨hfresh, hretained, -⟩ := room_of_insertable hok
      have hkeeps := (Keeps.revoke now).at previous.id
      refine h.advance hs ⟨hmem, hr, fun other hother => ?_, fun p hp => ?_, covers_grantsOf _ _ _⟩
      · have hupdated := hfresh _ (List.mem_map_of_mem hother)
        rwa [hkeeps.id, hkeeps.keyPrefix] at hupdated
      · have hupdated := hretained p hp
        rwa [retained_updateKey (Keeps.revoke now)] at hupdated
    · cases hs
  | lockForChange id organizationId change =>
    simp only [ApiKeys.next] at hs
    split_ifs at hs
    exact h.begin hs trivial
  | changeRow i now =>
    simp only [ApiKeys.next] at hs
    split at hs
    · next id organizationId change _ =>
      split at hs
      · next key hfound =>
        have hkey := List.mem_of_find?_eq_some hfound
        have hmatch : changeable id organizationId change key = true := List.find?_some hfound
        obtain ⟨rfl, rfl, -⟩ := of_decide_eq_true hmatch
        exact h.advance hs ⟨⟨key, hkey, rfl, rfl⟩, fun hne => covers_endedBy h.db hkey hne⟩
      · cases hs
    · cases hs
  | lockForOrganization id disabled =>
    simp only [ApiKeys.next] at hs
    exact h.begin hs trivial
  | changeOrganization i now =>
    simp only [ApiKeys.next] at hs
    split at hs
    · next id _ =>
      split at hs
      · refine h.advance hs fun _ g hg hr ho => ?_
        exact List.mem_map_of_mem (List.mem_filter.mpr ⟨hg, decide_eq_true ⟨ho, hr⟩⟩)
      · next t hdisabled =>
        refine h.advance hs fun _ g hg hr ho => ?_
        have henabled := (h.db.grants g hg hr).1
        rw [ho, hdisabled] at henabled
        cases henabled
    · exact h.advance hs fun hne => absurd rfl hne
    · cases hs
  | lockForIssue now grant =>
    simp only [ApiKeys.next] at hs
    split_ifs at hs with hok
    exact h.begin hs ⟨issuer_of_issuable hok.1, hok.2⟩
  | commit i =>
    simp only [ApiKeys.next] at hs
    split at hs
    · next t ht =>
      cases hs
      exact h.commit ht
    · cases hs
  | rollback i =>
    simp only [ApiKeys.next] at hs
    split at hs
    · cases hs
      exact h.close h.db fun j x _ hx => h.holds x (List.mem_of_getElem? hx)
    · cases hs
  | revokeGrant id now =>
    cases hs
    exact h.setGrants fun g hg hr => (mem_revokeGrants hg hr).1
  | reapGrants ids =>
    cases hs
    exact h.setGrants fun g hg _ => (List.mem_filter.mp hg).1

theorem Inv.run (h : Run (fun s a s' => ApiKeys.next s a = some s') ApiKeys.start as s) : Inv s :=
  h.invariant (fun _ _ _ hs ha => hs.next ha) Inv.start

theorem begin_db (hs : s.begin t = some s') : s'.db = s.db := by
  unfold State.begin at hs
  split_ifs at hs
  cases hs
  rfl

theorem advance_db (hs : s.advance i t = some s') : s'.db = s.db := by
  unfold State.advance at hs
  split_ifs at hs
  cases hs
  rfl

theorem next_later {a : Act} (hs : next s a = some s') : Later s.db s'.db := by
  have hsame : s'.db = s.db → Later s.db s'.db := fun h => by
    rw [h]
    exact Later.refl s.db
  cases a <;> simp only [ApiKeys.next] at hs
  case lockForInsert | lockForRotate | lockForOrganization => exact hsame (begin_db hs)
  case insertRow | rotateRow =>
    split at hs
    · split_ifs at hs
      exact hsame (advance_db hs)
    · cases hs
  case selectKey =>
    split at hs
    · split at hs
      · split_ifs at hs
        exact hsame (advance_db hs)
      · cases hs
    · cases hs
  case lockForChange | lockForIssue =>
    split_ifs at hs
    exact hsame (begin_db hs)
  case changeRow =>
    split at hs
    · split at hs
      · exact hsame (advance_db hs)
      · cases hs
    · cases hs
  case changeOrganization =>
    split at hs
    · split at hs <;> exact hsame (advance_db hs)
    · exact hsame (advance_db hs)
    · cases hs
  case commit i =>
    split at hs
    · next t ht =>
      cases hs
      exact t.later s.db
    · cases hs
  case rollback =>
    split at hs <;> cases hs
    exact Later.refl s.db
  case revokeGrant | reapGrants =>
    cases hs
    exact Later.refl s.db

theorem run_later (h : Run (fun s a s' => ApiKeys.next s a = some s') s as s') : Later s.db s'.db := by
  induction h with
  | nil s => exact Later.refl s.db
  | cons hs _ ih => exact (next_later hs).trans ih

/-! ### The results -/

/-- **Bounded keys.**  Whatever transactions run beside each other, no organization has more than 64 keys that are not
revoked, or 4096 in all, and no project more than 16, or 1024 in all. -/
theorem api_keys_within_bounds {as : List Act} (h : Run (fun s a s' => ApiKeys.next s a = some s') ApiKeys.start as s)
    (organizationId : Text) (projectId : Option Text) :
    s.db.active organizationId projectId ≤ activeLimit projectId ∧
      s.db.retained organizationId projectId ≤ retainedLimit projectId :=
  ⟨(Inv.run h).db.rows.active organizationId projectId, (Inv.run h).db.rows.retained organizationId projectId⟩

/-- A key is rotated, and then the new one; the rotation of the old key that waited for the first finds it revoked. -/
theorem api_keys_within_bounds_rotated :
    ∃ s : State, s.db.keys.map (fun key => (key.id, key.revokedAt)) = [(['k'], some 5), (['l'], some 6), (['m'], none)] ∧
      s.db.active ['o'] (some ['p']) ≤ 16 := by
  have h : Run (fun s a s' => ApiKeys.next s a = some s') ApiKeys.start
      [.lockForInsert ⟨['k'], ['o'], some ['p'], ['n'], ['x'], ['h'], [.machinesRead], none, none, none⟩, .insertRow 0,
        .commit 0, .lockForRotate ['k'] ['o'] ⟨['l'], ['y'], ['i']⟩, .selectKey 1 5, .rotateRow 1 5, .commit 1,
        .lockForRotate ['k'] ['o'] ⟨['w'], ['v'], ['u']⟩, .rollback 2,
        .lockForRotate ['l'] ['o'] ⟨['m'], ['z'], ['j']⟩, .selectKey 3 6, .rotateRow 3 6, .commit 3] _ :=
    Run.of_exec rfl
  exact ⟨_, rfl, (api_keys_within_bounds h ['o'] (some ['p'])).1⟩

/-- **A live grant has a live issuer.**  Whatever transactions run beside each other, a grant whose issuer is an API key
and that is not revoked was issued by a key of its organization that is for its project, and neither the key nor the
organization is disabled or revoked: a grant that is issued beside a revocation is either seen by it or not issued. -/
theorem live_grant_has_issuer {as : List Act} (h : Run (fun s a s' => ApiKeys.next s a = some s') ApiKeys.start as s) :
    ∀ g ∈ s.db.grants, g.revokedAt = none →
      s.db.organizationDisabledAt g.organizationId = none ∧
        ∃ key ∈ s.db.keys, key.id = g.issuerId ∧ key.organizationId = g.organizationId ∧
          (key.projectId = none ∨ key.projectId = some g.projectId) ∧ key.disabledAt = none ∧ key.revokedAt = none :=
  (Inv.run h).db.grants

/-- The key is disabled beside the issue of a session: the change waits, finds the grant and ends it. -/
theorem live_grant_has_issuer_disabled :
    ∃ s : State, s.db.grants.map Grant.revokedAt = [some 9, none] ∧ s.db.organizationDisabledAt ['o'] = none := by
  have h : Run (fun s a s' => ApiKeys.next s a = some s') ApiKeys.start
      [.lockForInsert ⟨['k'], ['o'], none, ['n'], ['x'], ['h'], [.machinesRead], none, none, none⟩, .insertRow 0,
        .commit 0, .lockForIssue 5 ⟨['g'], ['k'], ['o'], ['p'], none⟩, .commit 1, .lockForChange ['k'] ['o'] .disable,
        .changeRow 2 9, .commit 2, .lockForChange ['k'] ['o'] .enable, .changeRow 3 10, .commit 3,
        .lockForIssue 11 ⟨['f'], ['k'], ['o'], ['p'], none⟩, .commit 4] _ := Run.of_exec rfl
  exact ⟨_, rfl, (live_grant_has_issuer h ⟨['f'], ['k'], ['o'], ['p'], none⟩ (by decide) rfl).1⟩

/-- **Revocation is for good.**  A key keeps its prefix, hash, organization, project, name, scopes and expiry in every
later state, and the time of its revocation once it has one; and no other key ever has its id or its prefix. -/
theorem api_key_stays {bs : List Act} {u : State}
    (h : Run (fun s a s' => ApiKeys.next s a = some s') ApiKeys.start as s)
    (h' : Run (fun s a s' => ApiKeys.next s a = some s') s bs u) (hkey : key ∈ s.db.keys) :
    ∃ key' ∈ u.db.keys, Becomes key key' ∧
      ∀ other ∈ u.db.keys, other.id = key.id ∨ other.keyPrefix = key.keyPrefix → other = key' := by
  obtain ⟨key', hkey', hbecomes⟩ := run_later h' key hkey
  have hrows := (Inv.run (h.append h')).db.rows
  refine ⟨key', hkey', hbecomes, fun other hother hsame => ?_⟩
  obtain hid | hpre := hsame
  · exact hrows.eq hother hkey' (hid.trans hbecomes.id.symm)
  · exact List.inj_on_of_nodup_map hrows.prefixes hother hkey' (hpre.trans hbecomes.keyPrefix.symm)

/-! ### Lineages -/

/-- What is related through a relation that is unique on both sides lies on one chain. -/
theorem comparable_of_eqvGen {r : β → β → Prop} (hright : Relator.RightUnique r) (hleft : Relator.LeftUnique r)
    {a b : β} (h : Relation.EqvGen r a b) :
    Relation.ReflTransGen r a b ∨ Relation.ReflTransGen r b a := by
  induction h with
  | rel x y hxy => exact .inl (.single hxy)
  | refl x => exact .inl .refl
  | symm x y _ ih => exact ih.symm
  | trans x y z _ _ ih ih' =>
    obtain hxy | hyx := ih <;> obtain hyz | hzy := ih'
    · exact .inl (hxy.trans hyz)
    · have hswapped : Relator.RightUnique (Function.swap r) := fun _ _ _ hb hc => hleft hb hc
      have hswap := Relation.ReflTransGen.total_of_right_unique hswapped hxy.swap hzy.swap
      exact hswap.symm.imp (fun h => h.swap) fun h => h.swap
    · exact Relation.ReflTransGen.total_of_right_unique hright hyx hyz
    · exact .inr (hzy.trans hyx)

/-- One key comes from the other by rotations, or both from a third. -/
def Lineage (db : Db) : Text → Text → Prop := Relation.EqvGen fun old new => (old, new) ∈ db.rotations

/-- The keys are for the same use. -/
structure SameUse (a b : ApiKey) : Prop where
  organizationId : b.organizationId = a.organizationId
  projectId : b.projectId = a.projectId
  name : b.name = a.name
  scopes : b.scopes = a.scopes
  expiresAt : b.expiresAt = a.expiresAt

theorem SameUse.symm (h : SameUse a b) : SameUse b a :=
  ⟨h.organizationId.symm, h.projectId.symm, h.name.symm, h.scopes.symm, h.expiresAt.symm⟩

/-- The rotations of a key lead to keys for the same use, and the key is revoked if there is one. -/
theorem Rows.rotations (h : Rows db) (ha : a ∈ db.keys) {id : Text}
    (hr : Relation.ReflTransGen (fun old new => (old, new) ∈ db.rotations) a.id id) :
    ∃ b ∈ db.keys, b.id = id ∧ SameUse a b ∧ (a.revokedAt = none → b = a) := by
  induction hr with
  | refl => exact ⟨a, ha, rfl, ⟨rfl, rfl, rfl, rfl, rfl⟩, fun _ => rfl⟩
  | @tail y z _ hyz ih =>
    obtain ⟨b, hb, rfl, hsame, hlive⟩ := ih
    obtain ⟨c, hc, d, hd, hcid, rfl, hrevoked, ho, hp, hname, hscopes, hexpires⟩ := h.replaced _ hyz
    obtain rfl := h.eq hc hb hcid
    refine ⟨d, hd, rfl, ?_, fun hnone => ?_⟩
    · exact ⟨ho.trans hsame.organizationId, hp.trans hsame.projectId, hname.trans hsame.name,
        hscopes.trans hsame.scopes, hexpires.trans hsame.expiresAt⟩
    · rw [hlive hnone] at hrevoked
      exact absurd hnone hrevoked

/-- **One live key in a lineage.**  Keys that come from each other by rotations, however these run beside other
transactions, are for the same use, and at most one of them is not revoked. -/
theorem lineage_has_one_live_key {as : List Act}
    (h : Run (fun s a s' => ApiKeys.next s a = some s') ApiKeys.start as s) {a b : ApiKey} (ha : a ∈ s.db.keys)
    (hb : b ∈ s.db.keys) (hl : Lineage s.db a.id b.id) :
    SameUse a b ∧ (a.revokedAt = none → b.revokedAt = none → a = b) := by
  have hrows := (Inv.run h).db.rows
  have hright : Relator.RightUnique fun old new => (old, new) ∈ s.db.rotations := fun old new new' hn hn' =>
    congrArg Prod.snd (List.inj_on_of_nodup_map hrows.olds hn hn' rfl)
  have hleft : Relator.LeftUnique fun old new => (old, new) ∈ s.db.rotations := fun old old' new hn hn' =>
    congrArg Prod.fst (List.inj_on_of_nodup_map hrows.news hn hn' rfl)
  obtain hab | hba := comparable_of_eqvGen hright hleft hl
  · obtain ⟨c, hc, hid, hsame, hlive⟩ := hrows.rotations ha hab
    obtain rfl := hrows.eq hc hb hid
    exact ⟨hsame, fun hnone _ => (hlive hnone).symm⟩
  · obtain ⟨c, hc, hid, hsame, hlive⟩ := hrows.rotations hb hba
    obtain rfl := hrows.eq hc ha hid
    exact ⟨hsame.symm, fun _ hnone => hlive hnone⟩

theorem lineage_has_one_live_key_rotated :
    ∃ a b : ApiKey, a.id ≠ b.id ∧ SameUse a b ∧ a.revokedAt = some 5 ∧ b.revokedAt = none := by
  have h : Run (fun s a s' => ApiKeys.next s a = some s') ApiKeys.start
      [.lockForInsert ⟨['k'], ['o'], some ['p'], ['n'], ['x'], ['h'], [.machinesRead], none, none, none⟩, .insertRow 0,
        .commit 0, .lockForRotate ['k'] ['o'] ⟨['l'], ['y'], ['i']⟩, .selectKey 1 5, .rotateRow 1 5, .commit 1] _ :=
    Run.of_exec rfl
  have hsame := (lineage_has_one_live_key h List.mem_cons_self (List.mem_cons_of_mem _ List.mem_cons_self)
    (.rel _ _ List.mem_cons_self)).1
  exact ⟨_, _, by decide, hsame, rfl, rfl⟩

end Nehemiah.ApiKeys
