import Nehemiah.Lib.Handoff
import Nehemiah.Control.ApiKeyRuns

/-!
# The use of API keys

A key is a public prefix and a secret.  To authenticate takes two reads: the row of the prefix, and, when the secret has
been verified, whether the key is active.  Transactions may commit between the two, so that what the first has found may
be over at the second; `authenticate_iff` says what the answer rests on.  The verification and the hashing of secrets
go through a bounded admission each (`crypto_admission_fair`).
-/

namespace Nehemiah.ApiKeys

open Lib Http
open Device (Scope)

/-! ### The text of a key -/

inductive Environment
  | live | test

def Environment.text : Environment → Text
  | .live => ['l', 'i', 'v', 'e']
  | .test => ['t', 'e', 's', 't']

def isLowerHex (c : Char) : Bool := c.isDigit || (decide ('a' ≤ c) && decide (c ≤ 'f'))

def isBase64Url (c : Char) : Bool := c.isAlphanum || c == '_' || c == '-'

/-- `ApiKeyMaterial`. -/
structure Material where
  publicId : Text
  secret : Text

def Material.keyPrefix (environment : Environment) (m : Material) : Text :=
  ['b', 'c', '_'] ++ environment.text ++ '_' :: m.publicId

/-- The key of `#credential`. -/
def Material.key (environment : Environment) (m : Material) : Text := m.keyPrefix environment ++ '_' :: m.secret

/-- `parse`: the groups of the pattern are at fixed places. -/
def parse (raw : Text) : Option Text :=
  if raw.length ≤ 512 ∧ raw.take 3 = ['b', 'c', '_'] ∧
      ((raw.drop 3).take 4 = Environment.live.text ∨ (raw.drop 3).take 4 = Environment.test.text) ∧
      raw[7]? = some '_' ∧ ((raw.drop 8).take 12).length = 12 ∧ ((raw.drop 8).take 12).all isLowerHex = true ∧
      raw[20]? = some '_' ∧ 32 ≤ (raw.drop 21).length ∧ (raw.drop 21).all isBase64Url = true then
    some (raw.take 20)
  else none

/-! ### Authentication -/

/-- `ApiKeyPrincipal`. -/
structure Principal where
  apiKeyId : Text
  organizationId : Text
  projectId : Option Text
  scopes : List Scope

def ApiKey.principal (key : ApiKey) : Principal := ⟨key.id, key.organizationId, key.projectId, key.scopes⟩

/-- `findByPrefix`, with the time since which the organization of the key is disabled. -/
def findByPrefix (db : Db) (keyPrefix : Text) : Option (ApiKey × Option ℤ) :=
  (db.keys.find? fun key => decide (key.keyPrefix = keyPrefix)).map fun key =>
    (key, db.organizationDisabledAt key.organizationId)

def isActive (db : Db) (now : ℤ) (id organizationId : Text) : Bool :=
  db.keys.any fun key => decide (key.id = id ∧ key.organizationId = organizationId ∧ key.disabledAt = none ∧
    key.revokedAt = none ∧ db.organizationDisabledAt key.organizationId = none) && key.expiresAt.all fun e => decide (now < e)

/-- `authenticate`: `db` is read first, and `db'` by `isActive`, at the time `dbNow` of the database. -/
def authenticate (verifySecret : Text → Text → Bool) (db db' : Db) (dbNow now : ℤ) (raw : Text) : Option Principal :=
  match parse raw with
  | none => none
  | some keyPrefix =>
    match findByPrefix db keyPrefix with
    | none => none
    | some (key, organizationDisabledAt) =>
      if verifySecret key.keyHash raw = true ∧ isActive db' dbNow key.id key.organizationId = true ∧
          key.disabledAt = none ∧ organizationDisabledAt = none ∧ key.revokedAt = none ∧
          key.expiresAt.all (fun e => decide (now < e)) = true then
        some key.principal
      else none

/-- A key that may be used, but for its expiry. -/
structure Usable (db : Db) (key : ApiKey) : Prop where
  mem : key ∈ db.keys
  disabledAt : key.disabledAt = none
  revokedAt : key.revokedAt = none
  organization : db.organizationDisabledAt key.organizationId = none

variable {db db' : Db} {verifySecret : Text → Text → Bool} {raw : Text} {dbNow now : ℤ} {s u : State}

theorem findByPrefix_iff (h : Rows db) {key : ApiKey} {keyPrefix : Text} {disabledAt : Option ℤ} :
    findByPrefix db keyPrefix = some (key, disabledAt) ↔
      key ∈ db.keys ∧ key.keyPrefix = keyPrefix ∧ db.organizationDisabledAt key.organizationId = disabledAt := by
  rw [findByPrefix, Option.map_eq_some_iff]
  constructor
  · rintro ⟨found, hfound, heq⟩
    obtain ⟨rfl, rfl⟩ := Prod.mk.inj heq
    have hpre := List.find?_some hfound
    exact ⟨List.mem_of_find?_eq_some hfound, of_decide_eq_true hpre, rfl⟩
  · rintro ⟨hmem, rfl, rfl⟩
    cases hfound : db.keys.find? fun other => decide (other.keyPrefix = key.keyPrefix) with
    | none => exact absurd (List.find?_eq_none.mp hfound key hmem) (by simp)
    | some found =>
      have hsame := List.find?_some hfound
      have hfound' := List.mem_of_find?_eq_some hfound
      rw [List.inj_on_of_nodup_map h.prefixes hfound' hmem (of_decide_eq_true hsame)]
      exact ⟨key, rfl, rfl⟩

theorem isActive_iff {id organizationId : Text} :
    isActive db now id organizationId = true ↔ ∃ key, Usable db key ∧ key.id = id ∧
      key.organizationId = organizationId ∧ ∀ e, key.expiresAt = some e → now < e := by
  simp only [isActive, List.any_eq_true, Bool.and_eq_true, decide_eq_true_eq]
  constructor
  · rintro ⟨key, hmem, ⟨hid, ho, hd, hr, henabled⟩, hexpires⟩
    refine ⟨key, ⟨hmem, hd, hr, henabled⟩, hid, ho, fun e he => ?_⟩
    rw [he] at hexpires
    exact of_decide_eq_true hexpires
  · rintro ⟨key, hkey, hid, ho, hexpires⟩
    refine ⟨key, hkey.mem, ⟨hid, ho, hkey.disabledAt, hkey.revokedAt, hkey.organization⟩, ?_⟩
    cases he : key.expiresAt with
    | none => rfl
    | some e => exact decide_eq_true (hexpires e he)

/-- **What an authentication rests on.**  In every run, with any transactions between its two reads, a request with a
key is answered by a principal just when the secret is verified against the row of the prefix, the key was usable at the
first read, and the row that it has become is usable at the second, on both clocks; and the principal is that of the key.
So a key that has been revoked, rotated or disabled before the second read is refused. -/
theorem authenticate_iff {as bs : List Act} (h : Run (fun s a s' => ApiKeys.next s a = some s') ApiKeys.start as s)
    (h' : Run (fun s a s' => ApiKeys.next s a = some s') s bs u) {principal : Principal} :
    authenticate verifySecret s.db u.db dbNow now raw = some principal ↔
      ∃ key key', Usable s.db key ∧ Usable u.db key' ∧ Becomes key key' ∧ parse raw = some key.keyPrefix ∧
        verifySecret key.keyHash raw = true ∧ (∀ e, key.expiresAt = some e → dbNow < e ∧ now < e) ∧
        principal = key.principal := by
  have hrows := (Inv.run h).db.rows
  unfold authenticate
  cases hparse : parse raw with
  | none => simp
  | some keyPrefix =>
    dsimp only
    cases hfound : findByPrefix s.db keyPrefix with
    | none =>
      refine iff_of_false (by simp) ?_
      rintro ⟨key, -, hkey, -, -, hpre, -⟩
      have hhit := (findByPrefix_iff hrows).mpr ⟨hkey.mem, (Option.some.inj hpre).symm, rfl⟩
      rw [hfound] at hhit
      cases hhit
    | some found =>
      obtain ⟨key, disabledAt⟩ := found
      obtain ⟨hmem, rfl, rfl⟩ := (findByPrefix_iff hrows).mp hfound
      obtain ⟨key', hkey', hbecomes, honly⟩ := api_key_stays h h' hmem
      dsimp only
      constructor
      · intro hsome
        split_ifs at hsome with hok
        obtain ⟨hverified, hactive, hd, ho, hr, hexpires⟩ := hok
        obtain ⟨other, hother, hid, -, hexpires'⟩ := isActive_iff.mp hactive
        obtain rfl := honly other hother.mem (.inl hid)
        refine ⟨key, other, ⟨hmem, hd, hr, ho⟩, hother, hbecomes, rfl, hverified, fun e he => ⟨?_, ?_⟩,
          (Option.some.inj hsome).symm⟩
        · exact hexpires' e (hbecomes.expiresAt.trans he)
        · rw [he] at hexpires
          exact of_decide_eq_true hexpires
      · rintro ⟨a, a', ha, ha', hbecomes', hpre, hverified, hexpires, rfl⟩
        obtain rfl : a = key := List.inj_on_of_nodup_map hrows.prefixes ha.mem hmem (Option.some.inj hpre).symm
        obtain rfl := honly a' ha'.mem (.inl hbecomes'.id)
        rw [if_pos]
        refine ⟨hverified, ?_, ha.disabledAt, ha.organization, ha.revokedAt, ?_⟩
        · refine isActive_iff.mpr ⟨a', ha', hbecomes'.id, hbecomes'.organizationId, fun e he => ?_⟩
          exact (hexpires e (hbecomes'.expiresAt.symm.trans he)).1
        · cases he : a.expiresAt with
          | none => rfl
          | some e => exact decide_eq_true (hexpires e he).2

/-- The key is found, and revoked before the second read. -/
theorem authenticate_iff_revoked :
    ∃ s u : State, ∀ principal, authenticate (fun _ _ => true) s.db u.db 6 6
      (Material.key .live ⟨List.replicate 12 'a', List.replicate 43 'b'⟩) ≠ some principal := by
  have h : Run (fun s a s' => ApiKeys.next s a = some s') ApiKeys.start
      [.lockForInsert ⟨['k'], ['o'], none, ['n'], Material.keyPrefix .live ⟨List.replicate 12 'a', List.replicate 43 'b'⟩,
        ['h'], [.machinesRead], none, none, none⟩, .insertRow 0, .commit 0] _ := Run.of_exec rfl
  exact ⟨_, _, fun principal hsome => ((authenticate_iff h
    (show Run _ _ [.lockForChange ['k'] ['o'] .revoke, .changeRow 1 5, .commit 1] _ from Run.of_exec rfl)).mp hsome).elim
    fun _ ⟨key', _, hkey', _⟩ => by
      have hrevoked := hkey'.revokedAt
      rw [List.mem_singleton.mp hkey'.mem] at hrevoked
      cases hrevoked⟩

/-! ### Hashing and verification -/

/-- `BoundedCryptoAdmission.run`: an operation is refused if all slots are taken and the queue is full. -/
def cryptoAdmission (concurrentLimit queueLimit : ℤ) (s : Handoff ℕ) : HandoffAct ℕ → Option (Handoff ℕ) :=
  s.next concurrentLimit queueLimit

/-- **Bounded and fair.**  In every order of calls and of their ends, at most `concurrentLimit` operations run or are
about to, no slot is idle while a call waits, a call is refused just when all slots are taken and the queue is full, and
a call that has `n` before it in the queue is still there after `n` ends and the next to get a slot. -/
theorem crypto_admission_fair {concurrentLimit queueLimit : ℤ} (hc : 1 ≤ concurrentLimit) (hq : 0 ≤ queueLimit)
    {as : List (HandoffAct ℕ)} {s : Handoff ℕ}
    (h : Run (fun s a t => cryptoAdmission concurrentLimit queueLimit s a = some t) Handoff.start as s) :
    (s.running.length + s.granted.length : ℤ) ≤ concurrentLimit ∧
    (s.waiters.length : ℤ) ≤ queueLimit ∧
    (s.waiters ≠ [] → (s.running.length + s.granted.length : ℤ) = concurrentLimit) ∧
    (s.busy concurrentLimit queueLimit = true ↔
      (s.running.length + s.granted.length : ℤ) = concurrentLimit ∧ (s.waiters.length : ℤ) = queueLimit) ∧
    (∀ k, cryptoAdmission concurrentLimit queueLimit s (.enter k) = some s ↔ s.busy concurrentLimit queueLimit = true) ∧
    ∀ bs t n k, s.waiters[n]? = some k →
      Run (fun s a t => cryptoAdmission concurrentLimit queueLimit s a = some t) s bs t → Handoff.leaves bs = n →
      t.waiters[0]? = some k ∧
        ∀ j u, cryptoAdmission concurrentLimit queueLimit t (.leave j) = some u → u.granted = t.granted ++ [k] := by
  have hexact := Handoff.Exact.run h
  have hactive := hexact.active
  have hbound : s.active ≤ concurrentLimit := by
    have := hexact.bound
    omega
  have hqueue : (s.waiters.length : ℤ) ≤ queueLimit := by
    have := hexact.queue
    omega
  refine ⟨by omega, hqueue, fun hne => ?_, ?_, Handoff.enter_refused, fun bs t n k hk hrun hleaves => ?_⟩
  · have := hexact.full hne
    omega
  · rw [Handoff.busy, Bool.and_eq_true, decide_eq_true_eq, decide_eq_true_eq]
    omega
  · have hfirst := Handoff.waits hk hrun hleaves.le
    rw [hleaves, Nat.sub_self] at hfirst
    exact ⟨hfirst, fun j u hu => Handoff.next_granted hfirst hu⟩

theorem crypto_admission_fair_waits :
    ∃ s : Handoff ℕ, s.busy 1 1 = true ∧ s.running = [0] ∧ s.waiters = [1] := by
  have h : Run (fun s a t => cryptoAdmission 1 1 s a = some t) Handoff.start [.enter 0, .enter 1, .enter 2] _ :=
    Run.of_exec rfl
  exact ⟨_, (crypto_admission_fair (by decide) (by decide) h).2.2.2.1.mpr (by decide), rfl, rfl⟩

end Nehemiah.ApiKeys
