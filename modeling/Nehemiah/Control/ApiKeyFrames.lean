import Nehemiah.Control.ApiKeys

/-!
# What the locks of a transaction keep

`Frame` says what a commit may change, given the locks that its transaction holds.  What another transaction has found
out under its own locks is therefore still true when that one commits (`Holds.frame`).
-/

namespace Nehemiah.ApiKeys

open Lib Http

/-! ### What a commit leaves alone -/

structure Frame (locked : List (Resource × LockMode)) (db db' : Db) : Prop where
  keys : ∀ key : ApiKey, (.key key.id, .exclusive) ∉ locked → (key ∈ db'.keys ↔ key ∈ db.keys)
  origin : ∀ key ∈ db'.keys, (∃ old ∈ db.keys, old.id = key.id ∧ old.keyPrefix = key.keyPrefix) ∨
    (.key key.id, .exclusive) ∈ locked ∧ (.keyPrefix key.keyPrefix, .exclusive) ∈ locked
  organization : ∀ id, (.organization id, .exclusive) ∉ locked →
    db'.organizationDisabledAt id = db.organizationDisabledAt id
  counts : ∀ o p, (.organization o, .exclusive) ∉ locked →
    db'.active o p ≤ db.active o p ∧ db'.retained o p ≤ db.retained o p
  grants : ∀ g ∈ db'.grants, g.revokedAt = none → g ∈ db.grants ∨
    (.key g.issuerId, .shared) ∈ locked ∧ (.organization g.organizationId, .shared) ∈ locked

variable {locked : List (Resource × LockMode)} {db db' db'' : Db}

theorem Frame.refl : Frame locked db db where
  keys _ _ := Iff.rfl
  origin key hkey := .inl ⟨key, hkey, rfl, rfl⟩
  organization _ _ := rfl
  counts _ _ _ := ⟨le_rfl, le_rfl⟩
  grants _ hg _ := .inl hg

theorem Frame.trans (h : Frame locked db db') (h' : Frame locked db' db'') : Frame locked db db'' where
  keys key hkey := (h'.keys key hkey).trans (h.keys key hkey)
  origin key hkey := by
    obtain ⟨old, hold, hid, hpre⟩ | hnew := h'.origin key hkey
    · rw [← hid, ← hpre]
      exact h.origin old hold
    · exact .inr hnew
  organization id hid := (h'.organization id hid).trans (h.organization id hid)
  counts o p ho :=
    ⟨(h'.counts o p ho).1.trans (h.counts o p ho).1, (h'.counts o p ho).2.trans (h.counts o p ho).2⟩
  grants g hg hr := by
    obtain hg | hnew := h'.grants g hg hr
    · exact h.grants g hg hr
    · exact .inr hnew

/-- A change of a key that keeps what identifies it, and does not take a revocation back. -/
structure Keeps (f : ApiKey → ApiKey) : Prop where
  id : ∀ key, (f key).id = key.id
  keyPrefix : ∀ key, (f key).keyPrefix = key.keyPrefix
  organizationId : ∀ key, (f key).organizationId = key.organizationId
  projectId : ∀ key, (f key).projectId = key.projectId
  name : ∀ key, (f key).name = key.name
  keyHash : ∀ key, (f key).keyHash = key.keyHash
  scopes : ∀ key, (f key).scopes = key.scopes
  expiresAt : ∀ key, (f key).expiresAt = key.expiresAt
  revokedAt : ∀ key t, key.revokedAt = some t → (f key).revokedAt = some t

theorem Keeps.revoke (now : ℤ) : Keeps fun key => key.revoke now :=
  ⟨fun _ => rfl, fun _ => rfl, fun _ => rfl, fun _ => rfl, fun _ => rfl, fun _ => rfl, fun _ => rfl, fun _ => rfl,
    fun key t h => by simp [ApiKey.revoke, h]⟩

theorem Keeps.apply (now : ℤ) (change : KeyChange) : Keeps (change.apply now) := by
  cases change with
  | revoke => exact Keeps.revoke now
  | disable | enable =>
    exact ⟨fun _ => rfl, fun _ => rfl, fun _ => rfl, fun _ => rfl, fun _ => rfl, fun _ => rfl, fun _ => rfl, fun _ => rfl,
      fun _ _ h => h⟩

variable {f : ApiKey → ApiKey} {key : ApiKey}

/-- The same change for the key with one id. -/
theorem Keeps.at (h : Keeps f) (id : Text) : Keeps fun key => if key.id = id then f key else key := by
  refine ⟨fun key => ?_, fun key => ?_, fun key => ?_, fun key => ?_, fun key => ?_, fun key => ?_, fun key => ?_,
    fun key => ?_, fun key t ht => ?_⟩ <;> split_ifs
  exacts [h.id key, rfl, h.keyPrefix key, rfl, h.organizationId key, rfl, h.projectId key, rfl, h.name key, rfl,
    h.keyHash key, rfl, h.scopes key, rfl, h.expiresAt key, rfl, h.revokedAt key t ht, ht]

theorem Keeps.isNone (h : Keeps f) (hf : (f key).revokedAt.isNone = true) : key.revokedAt.isNone = true := by
  cases hr : key.revokedAt with
  | none => rfl
  | some t =>
    rw [h.revokedAt key t hr] at hf
    cases hf

theorem Keeps.inScope (h : Keeps f) (o : Text) (p : Option Text) (key : ApiKey) :
    Db.inScope o p (f key) = Db.inScope o p key := by
  rw [Db.inScope, Db.inScope, h.organizationId, h.projectId]

theorem active_updateKey_le (h : Keeps f) (db : Db) (id o : Text) (p : Option Text) :
    (db.updateKey id f).active o p ≤ db.active o p := by
  have hat := h.at id
  show (db.keys.map _).countP _ ≤ _
  rw [List.countP_map]
  refine List.countP_mono_left fun key _ hkey => ?_
  simp only [Function.comp_apply, Bool.and_eq_true] at hkey ⊢
  rw [hat.inScope] at hkey
  exact ⟨hkey.1, hat.isNone hkey.2⟩

theorem retained_updateKey (h : Keeps f) (db : Db) (id o : Text) (p : Option Text) :
    (db.updateKey id f).retained o p = db.retained o p := by
  have hat := h.at id
  show (db.keys.map _).countP _ = _
  rw [List.countP_map]
  exact List.countP_congr fun key _ => by rw [Function.comp_apply, hat.inScope]

theorem Frame.updateKey (h : Keeps f) {id : Text} (hid : (.key id, .exclusive) ∈ locked) :
    Frame locked db (db.updateKey id f) where
  keys key hkey := by
    have hne : key.id ≠ id := by
      rintro rfl
      exact hkey hid
    show key ∈ db.keys.map _ ↔ _
    rw [List.mem_map]
    constructor
    · rintro ⟨old, hold, heq⟩
      have hold_ne : old.id ≠ id := by
        rintro rfl
        rw [if_pos rfl] at heq
        exact hne (by rw [← heq, h.id])
      rw [if_neg hold_ne] at heq
      rwa [← heq]
    · exact fun hold => ⟨key, hold, if_neg hne⟩
  origin key hkey := by
    obtain ⟨old, hold, rfl⟩ := List.mem_map.mp hkey
    exact .inl ⟨old, hold, ((h.at id).id old).symm, ((h.at id).keyPrefix old).symm⟩
  organization _ _ := rfl
  counts o p _ := ⟨active_updateKey_le h db id o p, (retained_updateKey h db id o p).le⟩
  grants _ hg _ := .inl hg

theorem active_insertKey (db : Db) (key : ApiKey) (o : Text) (p : Option Text) :
    (db.insertKey key).active o p = db.active o p + if Db.inScope o p key && key.revokedAt.isNone then 1 else 0 := by
  show (db.keys ++ [key]).countP _ = _
  rw [List.countP_append, List.countP_singleton]
  rfl

theorem retained_insertKey (db : Db) (key : ApiKey) (o : Text) (p : Option Text) :
    (db.insertKey key).retained o p = db.retained o p + if Db.inScope o p key then 1 else 0 := by
  show (db.keys ++ [key]).countP _ = _
  rw [List.countP_append, List.countP_singleton]
  rfl

theorem Frame.insertKey (ho : (.organization key.organizationId, .exclusive) ∈ locked)
    (hid : (.key key.id, .exclusive) ∈ locked) (hpre : (.keyPrefix key.keyPrefix, .exclusive) ∈ locked) :
    Frame locked db (db.insertKey key) where
  keys other hother := by
    show other ∈ db.keys ++ [key] ↔ _
    rw [List.mem_append, List.mem_singleton]
    refine ⟨fun hmem => hmem.resolve_right ?_, .inl⟩
    rintro rfl
    exact hother hid
  origin other hother := by
    obtain hold | hnew := List.mem_append.mp hother
    · exact .inl ⟨other, hold, rfl, rfl⟩
    · rw [List.mem_singleton.mp hnew]
      exact .inr ⟨hid, hpre⟩
  organization _ _ := rfl
  counts o p hfree := by
    have hscope : Db.inScope o p key = false := by
      rw [Db.inScope, decide_eq_false_iff_not]
      rintro ⟨rfl, -⟩
      exact hfree ho
    rw [active_insertKey, retained_insertKey, hscope]
    exact ⟨le_rfl, le_rfl⟩
  grants _ hg _ := .inl hg

/-- A grant that is not revoked after some have been was not among them. -/
theorem mem_revokeGrants {ids : List Text} {now : ℤ} {g : Grant} (hg : g ∈ (db.revokeGrants ids now).grants)
    (hr : g.revokedAt = none) : g ∈ db.grants ∧ g.id ∉ ids := by
  obtain ⟨old, hold, rfl⟩ := List.mem_map.mp hg
  split_ifs at hr ⊢ with hid
  · cases hr
  · exact ⟨hold, hid⟩

theorem Frame.revokeGrants (ids : List Text) (now : ℤ) : Frame locked db (db.revokeGrants ids now) where
  keys _ _ := Iff.rfl
  origin key hkey := .inl ⟨key, hkey, rfl, rfl⟩
  organization _ _ := rfl
  counts _ _ _ := ⟨le_rfl, le_rfl⟩
  grants _ hg hr := .inl (mem_revokeGrants hg hr).1

theorem Txn.frame (db : Db) (t : Txn) : Frame t.locks db (t.commit db) := by
  cases t with
  | insertLocked | rotateLocked | rotateKeyLocked | keyLocked | organizationLocked | closed => exact Frame.refl
  | inserted key => exact Frame.insertKey (by simp [locks]) (by simp [locks]) (by simp [locks])
  | rotated previous replacement now grants =>
    have hinserted : Frame (Txn.rotated previous replacement now grants).locks db
        ((db.updateKey previous.id fun key => key.revoke now).insertKey (replacement.row previous)) :=
      (Frame.updateKey (Keeps.revoke now) (by simp [locks])).trans
        (Frame.insertKey (by simp [locks, Replacement.row]) (by simp [locks, Replacement.row])
          (by simp [locks, Replacement.row]))
    have hrevoked := hinserted.trans (Frame.revokeGrants grants now)
    exact ⟨hrevoked.keys, hrevoked.origin, hrevoked.organization, hrevoked.counts, hrevoked.grants⟩
  | keyChanged id organizationId change now grants =>
    exact (Frame.updateKey (Keeps.apply now change) (by simp [locks])).trans (Frame.revokeGrants grants now)
  | organizationChanged id disabledAt now grants =>
    have hset : Frame (Txn.organizationChanged id disabledAt now grants).locks db
        { db with organizationDisabledAt := Function.update db.organizationDisabledAt id disabledAt } := by
      refine ⟨fun _ _ => Iff.rfl, fun key hkey => .inl ⟨key, hkey, rfl, rfl⟩, fun other hother => ?_,
        fun _ _ _ => ⟨le_rfl, le_rfl⟩, fun _ hg _ => .inl hg⟩
      refine Function.update_of_ne ?_ ..
      rintro rfl
      exact hother (by simp [locks])
    exact hset.trans (Frame.revokeGrants grants now)
  | issueLocked grant =>
    refine ⟨fun _ _ => Iff.rfl, fun key hkey => .inl ⟨key, hkey, rfl, rfl⟩, fun _ _ => rfl, fun _ _ _ => ⟨le_rfl, le_rfl⟩,
      fun g hg _ => ?_⟩
    obtain hold | hnew := List.mem_append.mp hg
    · exact .inl hold
    · rw [List.mem_singleton.mp hnew]
      exact .inr ⟨by simp [locks], by simp [locks]⟩

/-! ### What a transaction knows -/

/-- No row has the id or the prefix of the key. -/
def Fresh (db : Db) (key : ApiKey) : Prop := ∀ other ∈ db.keys, other.id ≠ key.id ∧ other.keyPrefix ≠ key.keyPrefix

/-- One more key may be retained in the organization and the project of the key. -/
def Retainable (db : Db) (key : ApiKey) : Prop :=
  ∀ p, Db.inScope key.organizationId p key = true → db.retained key.organizationId p + 1 ≤ retainedLimit p

def Activatable (db : Db) (key : ApiKey) : Prop :=
  ∀ p, Db.inScope key.organizationId p key = true → db.active key.organizationId p + 1 ≤ activeLimit p

/-- All grants of the key that are not revoked are among the given ones. -/
def Covers (db : Db) (id organizationId : Text) (grants : List Text) : Prop :=
  ∀ g ∈ db.grants, g.revokedAt = none → g.issuerId = id → g.organizationId = organizationId → g.id ∈ grants

/-- The key that has issued the grant may issue grants, but for its expiry. -/
def Issuer (db : Db) (g : Grant) : Prop :=
  db.organizationDisabledAt g.organizationId = none ∧
    ∃ key ∈ db.keys, key.id = g.issuerId ∧ key.organizationId = g.organizationId ∧
      (key.projectId = none ∨ key.projectId = some g.projectId) ∧ key.disabledAt = none ∧ key.revokedAt = none

def Holds (db : Db) : Txn → Prop
  | .insertLocked key => key.disabledAt = none ∧ key.revokedAt = none
  | .inserted key =>
    key.disabledAt = none ∧ key.revokedAt = none ∧ Fresh db key ∧ Retainable db key ∧ Activatable db key
  | .rotateKeyLocked previous _ => previous ∈ db.keys ∧ previous.revokedAt = none
  | .rotated previous replacement _ grants =>
    previous ∈ db.keys ∧ previous.revokedAt = none ∧ Fresh db (replacement.row previous) ∧
      Retainable db (replacement.row previous) ∧ Covers db previous.id previous.organizationId grants
  | .keyChanged id organizationId change _ grants =>
    (∃ key ∈ db.keys, key.id = id ∧ key.organizationId = organizationId) ∧
      (change ≠ .enable → Covers db id organizationId grants)
  | .organizationChanged id disabledAt _ grants =>
    disabledAt ≠ none → ∀ g ∈ db.grants, g.revokedAt = none → g.organizationId = id → g.id ∈ grants
  | .issueLocked grant => Issuer db grant ∧ grant.revokedAt = none
  | _ => True

/-- A lock that a transaction holds is not held exclusively by one that it does not exclude. -/
theorem not_mem_of_conflict {held : List (Resource × LockMode)} (hc : conflict held locked = false) {r : Resource}
    {m m' : LockMode} (hr : (r, m) ∈ held) (hm : m.excludes m' = true) : (r, m') ∉ locked := fun hmem => by
  rw [conflict_of_mem hr hmem hm] at hc
  cases hc

theorem Fresh.frame (h : Fresh db key) (hf : Frame locked db db') (hid : (.key key.id, .exclusive) ∉ locked)
    (hpre : (.keyPrefix key.keyPrefix, .exclusive) ∉ locked) :
    Fresh db' key := by
  intro other hother
  refine ⟨fun heq => ?_, fun heq => ?_⟩
  · have hold : other ∈ db.keys := (hf.keys other (by rwa [heq])).mp hother
    exact (h other hold).1 heq
  · obtain ⟨old, hold, -, hsame⟩ | ⟨-, hnew⟩ := hf.origin other hother
    · exact (h old hold).2 (hsame.trans heq)
    · rw [heq] at hnew
      exact hpre hnew

theorem Covers.frame {id organizationId : Text} {grants : List Text} (h : Covers db id organizationId grants)
    (hf : Frame locked db db') (hid : (.key id, .shared) ∉ locked) : Covers db' id organizationId grants := by
  intro g hg hr hissuer horg
  obtain hold | ⟨hshared, -⟩ := hf.grants g hg hr
  · exact h g hold hr hissuer horg
  · rw [hissuer] at hshared
    exact absurd hshared hid

theorem Retainable.frame (h : Retainable db key) (hf : Frame locked db db')
    (ho : (.organization key.organizationId, .exclusive) ∉ locked) : Retainable db' key := fun p hp =>
  (Nat.add_le_add_right (hf.counts _ p ho).2 1).trans (h p hp)

theorem Activatable.frame (h : Activatable db key) (hf : Frame locked db db')
    (ho : (.organization key.organizationId, .exclusive) ∉ locked) : Activatable db' key := fun p hp =>
  (Nat.add_le_add_right (hf.counts _ p ho).1 1).trans (h p hp)

theorem Issuer.frame {g : Grant} (h : Issuer db g) (hf : Frame locked db db')
    (hid : (.key g.issuerId, .exclusive) ∉ locked) (ho : (.organization g.organizationId, .exclusive) ∉ locked) :
    Issuer db' g := by
  obtain ⟨henabled, key, hkey, hissuer, hrest⟩ := h
  refine ⟨(hf.organization _ ho).trans henabled, key, ?_, hissuer, hrest⟩
  exact (hf.keys key (by rwa [hissuer])).mpr hkey

/-- **What a transaction has found out under its locks stays true** when another commits. -/
theorem Holds.frame {t : Txn} (h : Holds db t) (hf : Frame locked db db') (hc : conflict t.locks locked = false) :
    Holds db' t := by
  have hexclusive : ∀ r, (r, LockMode.exclusive) ∈ t.locks → ∀ m, (r, m) ∉ locked := fun r hr m =>
    not_mem_of_conflict hc hr (by cases m <;> rfl)
  have hshared : ∀ r, (r, LockMode.shared) ∈ t.locks → (r, .exclusive) ∉ locked := fun r hr =>
    not_mem_of_conflict hc hr rfl
  cases t with
  | insertLocked | rotateLocked | keyLocked | organizationLocked | closed => exact h
  | inserted key =>
    obtain ⟨hd, hr, hfresh, hretained, hactive⟩ := h
    have ho := hexclusive (.organization key.organizationId) (by simp [Txn.locks]) .exclusive
    exact ⟨hd, hr, hfresh.frame hf (hexclusive _ (by simp [Txn.locks]) _) (hexclusive _ (by simp [Txn.locks]) _),
      hretained.frame hf ho, hactive.frame hf ho⟩
  | rotateKeyLocked previous replacement =>
    exact ⟨(hf.keys previous (hexclusive _ (by simp [Txn.locks]) _)).mpr h.1, h.2⟩
  | rotated previous replacement now grants =>
    obtain ⟨hmem, hr, hfresh, hretained, hcovers⟩ := h
    have hid : ∀ m, (.key previous.id, m) ∉ locked := hexclusive _ (by simp [Txn.locks])
    refine ⟨(hf.keys previous (hid _)).mpr hmem, hr, ?_, ?_, hcovers.frame hf (hid _)⟩
    · exact hfresh.frame hf (hexclusive _ (by simp [Txn.locks, Replacement.row]) _)
        (hexclusive _ (by simp [Txn.locks, Replacement.row]) _)
    · exact hretained.frame hf (hexclusive _ (by simp [Txn.locks, Replacement.row]) _)
  | keyChanged id organizationId change now grants =>
    have hid : ∀ m, (.key id, m) ∉ locked := hexclusive _ (by simp [Txn.locks])
    obtain ⟨⟨key, hkey, hkid, hko⟩, hcovers⟩ := h
    exact ⟨⟨key, (hf.keys key (by rw [hkid]; exact hid _)).mpr hkey, hkid, hko⟩,
      fun hne => (hcovers hne).frame hf (hid _)⟩
  | organizationChanged id disabledAt now grants =>
    intro hdisabled g hg hr horg
    obtain hold | ⟨-, ho⟩ := hf.grants g hg hr
    · exact h hdisabled g hold hr horg
    · rw [horg] at ho
      exact absurd ho (hexclusive (.organization id) (by simp [Txn.locks]) _)
  | issueLocked grant =>
    exact ⟨h.1.frame hf (hshared _ (by simp [Txn.locks])) (hshared _ (by simp [Txn.locks])), h.2⟩

end Nehemiah.ApiKeys
