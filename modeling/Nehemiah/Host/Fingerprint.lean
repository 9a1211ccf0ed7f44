import Nehemiah.Host.Egress

/-!
# The fingerprints of idempotent operations

A create and a fork are retried with a key, and a retry is told from another request by a digest of the request.  What is
digested is a JSON object, of one shape for each layer of the request: the digest is taken to be injective on the
objects, and the object of one layer has the digest of the one below.

Defaults are applied before the digest for the template, the time to live, the generation of the lease and the network
policy; metadata is sorted by key.

`fingerprints_separate` is which creates and which forks have one fingerprint, and `persistence_not_told` that a host that
allows no persistent machines does not tell who asks for one.  The text of the JSON and the digest itself are outside the
model, and the files of a template are only installed or not.
-/

namespace Nehemiah.Egress

/-- Metadata as it is decoded: a map, in the order of its text. -/
structure Metadata where
  entries : List (Text × Text)
  nodup : (entries.map Prod.fst).Nodup

/-- The pairs in the order of their keys. -/
def Metadata.pairs (metadata : Metadata) : List (Text × Text) :=
  metadata.entries.insertionSort fun a b => a.1 ≤ b.1

/-- `managedRuntimeExpectation`. -/
structure RuntimeExpectation where
  cohortId : Text
  rootfsSHA256 : Text
  deriving DecidableEq

def noRuntimeExpectation : RuntimeExpectation := ⟨[], []⟩

structure CanonicalChild where
  leaseId : Text
  leaseGeneration : ℕ
  expiresAt : ℤ
  metadata : List (Text × Text)
  vcpus : ℤ
  memoryMB : ℤ
  diskMB : ℤ
  deriving DecidableEq

/-- The objects that are digested.  Those of a shape have fields of their own; `fingerprint` is a digest. -/
inductive Payload (D : Type)
  | create (template : Text) (ttl : ℤ) (net persistent : Bool) (leaseId : Text) (metadata : List (Text × Text))
      (vcpus memoryMB diskMB : ℤ)
  | policy (fingerprint : D) (networkPolicy : NetworkPolicyDeclaration)
  | generation (fingerprint : D) (leaseGeneration : ℕ)
  | runtime (fingerprint : D) (runtime : RuntimeExpectation)
  | fork (sourceId sourceLeaseId : Text) (children : List CanonicalChild)
  deriving DecidableEq

/-! ### Creates -/

structure CreateRequest where
  template : Text
  ttlSeconds : ℤ
  vcpus : ℤ
  memoryMB : ℤ
  diskMB : ℤ
  net : Bool
  persistent : Bool
  leaseId : Text
  leaseGeneration : ℕ
  metadata : Metadata
  networkPolicy : NetworkPolicyDeclaration
  runtime : RuntimeExpectation

/-- What the host's configuration says about creates.  `installed` tells its templates, and `runtimeMatches` the
expectations that the cohort and the root file system of a template meet. -/
structure CreateConfig where
  nehemiahMode : Bool
  netEnable : Bool
  allowPersistent : Bool
  defaultTTL : ℤ
  minTTL : ℤ
  maxTTL : ℤ
  maxVCPUsPerMachine : ℤ
  maxMemoryMBPerMachine : ℤ
  overlayQuotaMB : ℤ
  installed : Text → Bool
  runtimeMatches : Text → RuntimeExpectation → Bool

def CreateConfig.clampTTL (cfg : CreateConfig) (ttl : ℤ) : ℤ :=
  let ttl := if ttl ≤ 0 then cfg.defaultTTL else ttl
  let ttl := if ttl < cfg.minTTL then cfg.minTTL else ttl
  if cfg.maxTTL < ttl then cfg.maxTTL else ttl

def byteLength (t : Text) : ℕ := (t.map Char.utf8Size).sum

def occursIn (part t : Text) : Bool := t.tails.any part.isPrefixOf

def forbiddenKeyParts : List Text :=
  ["password".toList, "secret".toList, "token".toList, "credential".toList, "authorization".toList, "cookie".toList,
    "api_key".toList, "apikey".toList]

def validateInternalCreate (idempotencyKey leaseId : Text) (metadata : Metadata) : Bool :=
  decide (trimSpace idempotencyKey ≠ [] ∧ byteLength idempotencyKey ≤ 256) &&
    decide (trimSpace leaseId ≠ [] ∧ byteLength leaseId ≤ 256) &&
    decide (metadata.entries.length ≤ 32) &&
    metadata.entries.all fun entry =>
      decide (entry.1 ≠ [] ∧ byteLength entry.1 ≤ 64 ∧ byteLength entry.2 ≤ 1024) &&
        !forbiddenKeyParts.any (occursIn · (toLower entry.1))

def effectiveTemplate (template : Text) : Text := if template = [] then "python".toList else template

def effectiveGeneration (generation : ℕ) : ℕ := if generation = 0 then 1 else generation

/-- The checks of `requestedTemplate`. -/
def CreateConfig.validTemplate (cfg : CreateConfig) (template : Text) (vcpus memoryMB diskMB : ℤ) : Bool :=
  (decide (template = "python".toList ∨ template = "desktop".toList) || cfg.installed template) &&
    decide (0 ≤ vcpus ∧ 0 ≤ memoryMB ∧ 0 ≤ diskMB ∧ vcpus ≤ cfg.maxVCPUsPerMachine ∧
      memoryMB ≤ cfg.maxMemoryMBPerMachine ∧ diskMB ≤ cfg.overlayQuotaMB ∧ (0 < memoryMB → 128 ≤ memoryMB))

/-- The checks of a policy that a host makes before a create. -/
def CreateConfig.validPolicy (cfg : CreateConfig) (policy : ManagedEgressPolicy) (net : Bool) : Bool :=
  decide (¬ (cfg.nehemiahMode ∧ policy.declaration.mode ≠ modeOff)) &&
    decide (¬ (cfg.nehemiahMode ∧ policy.hostnames ≠ [])) &&
    decide (policy.declaration.mode = modeAllowlist → net ∧ cfg.netEnable ∧ cfg.nehemiahMode)

section

variable {D : Type} (digest : Payload D → D)

def createFingerprint (template : Text) (ttl : ℤ) (net persistent : Bool) (leaseId : Text) (metadata : Metadata)
    (vcpus memoryMB diskMB : ℤ) : D :=
  digest (.create template ttl net persistent leaseId metadata.pairs vcpus memoryMB diskMB)

def createFingerprintWithPolicy (legacy : D) (policy : NetworkPolicyDeclaration) : D :=
  if policy.mode = modeOff then legacy else digest (.policy legacy policy)

def createFingerprintWithPolicyGeneration (base : D) (leaseGeneration : ℕ) : D :=
  if leaseGeneration = 1 then base else digest (.generation base leaseGeneration)

def createFingerprintWithRuntime (fingerprint : D) (runtime : RuntimeExpectation) : D :=
  if runtime = noRuntimeExpectation then fingerprint else digest (.runtime fingerprint runtime)

/-- `createInternalWithRuntimeExpectation` up to the fingerprint: `none` is a request refused before. -/
def createInternalFingerprint (cfg : CreateConfig) (idempotencyKey : Text) (r : CreateRequest) : Option D :=
  if ¬ validateInternalCreate idempotencyKey r.leaseId r.metadata then none
  else
    match normalizeNetworkPolicy r.networkPolicy with
    | none => none
    | some policy =>
      let template := effectiveTemplate r.template
      if ¬ cfg.validPolicy policy r.net then none
      else if cfg.nehemiahMode ∧ ¬ cfg.runtimeMatches template r.runtime then none
      else if r.ttlSeconds ≠ 0 ∧ (r.ttlSeconds < cfg.minTTL ∨ cfg.maxTTL < r.ttlSeconds) then none
      else if ¬ cfg.validTemplate template r.vcpus r.memoryMB r.diskMB then none
      else
        let base := createFingerprint digest template (cfg.clampTTL r.ttlSeconds) r.net
          (r.persistent && cfg.allowPersistent) r.leaseId r.metadata r.vcpus r.memoryMB r.diskMB
        let base := createFingerprintWithPolicy digest base policy.declaration
        let base := createFingerprintWithPolicyGeneration digest base (effectiveGeneration r.leaseGeneration)
        some (createFingerprintWithRuntime digest base r.runtime)

end

/-! ### Forks -/

structure ForkChild where
  leaseId : Text
  leaseGeneration : ℕ
  expiresAt : ℤ
  metadata : Metadata
  vcpus : ℤ
  memoryMB : ℤ
  diskMB : ℤ

structure ForkRequest where
  sourceId : Text
  sourceLeaseId : Text
  children : List ForkChild
  runtime : RuntimeExpectation

/-- A child as it is digested.  Its time is written in UTC, one text for each instant, and generation 1 is left out. -/
def ForkChild.canonical (child : ForkChild) : CanonicalChild where
  leaseId := child.leaseId
  leaseGeneration := if effectiveGeneration child.leaseGeneration = 1 then 0 else child.leaseGeneration
  expiresAt := child.expiresAt
  metadata := child.metadata.pairs
  vcpus := child.vcpus
  memoryMB := child.memoryMB
  diskMB := child.diskMB

def managedForkFingerprint {D : Type} (digest : Payload D → D) (r : ForkRequest) : D :=
  digest (.fork r.sourceId r.sourceLeaseId (r.children.map ForkChild.canonical))

/-- The reservation that a retry of a fork is compared with. -/
structure ForkReservation (D : Type) where
  fingerprint : D
  runtimeExpectation : RuntimeExpectation

/-- A retry is answered from the reservation; otherwise it is a conflict. -/
def ForkReservation.replays {D : Type} [DecidableEq D] (existing : ForkReservation D) (digest : Payload D → D)
    (requireExpectation : Bool) (r : ForkRequest) : Bool :=
  decide (existing.fingerprint = managedForkFingerprint digest r) &&
    decide (requireExpectation = true → existing.runtimeExpectation = r.runtime)

/-! ### Requests that count as the same -/

/-- The same create, up to the order of the metadata and the defaults of the host. -/
structure SameCreate (cfg : CreateConfig) (r r' : CreateRequest) : Prop where
  template : effectiveTemplate r.template = effectiveTemplate r'.template
  ttl : cfg.clampTTL r.ttlSeconds = cfg.clampTTL r'.ttlSeconds
  net : r.net = r'.net
  persistent : (r.persistent && cfg.allowPersistent) = (r'.persistent && cfg.allowPersistent)
  leaseId : r.leaseId = r'.leaseId
  leaseGeneration : effectiveGeneration r.leaseGeneration = effectiveGeneration r'.leaseGeneration
  metadata : r.metadata.entries.Perm r'.metadata.entries
  vcpus : r.vcpus = r'.vcpus
  memoryMB : r.memoryMB = r'.memoryMB
  diskMB : r.diskMB = r'.diskMB
  networkPolicy : (normalizeNetworkPolicy r.networkPolicy).map ManagedEgressPolicy.declaration =
    (normalizeNetworkPolicy r'.networkPolicy).map ManagedEgressPolicy.declaration
  runtime : r.runtime = r'.runtime

structure SameChild (child child' : ForkChild) : Prop where
  leaseId : child.leaseId = child'.leaseId
  leaseGeneration : effectiveGeneration child.leaseGeneration = effectiveGeneration child'.leaseGeneration
  expiresAt : child.expiresAt = child'.expiresAt
  metadata : child.metadata.entries.Perm child'.metadata.entries
  vcpus : child.vcpus = child'.vcpus
  memoryMB : child.memoryMB = child'.memoryMB
  diskMB : child.diskMB = child'.diskMB

/-- The same fork, whatever runtime it expects. -/
structure SameFork (r r' : ForkRequest) : Prop where
  sourceId : r.sourceId = r'.sourceId
  sourceLeaseId : r.sourceLeaseId = r'.sourceLeaseId
  children : List.Forall₂ SameChild r.children r'.children

/-! ### Metadata -/

theorem pairs_perm (metadata : Metadata) : metadata.pairs.Perm metadata.entries :=
  List.perm_insertionSort _ metadata.entries

theorem pairs_sorted (metadata : Metadata) : metadata.pairs.Pairwise fun a b => a.1 ≤ b.1 := by
  have total : Std.Total fun a b : Text × Text => a.1 ≤ b.1 := ⟨fun a b => le_total a.1 b.1⟩
  have trans : IsTrans (Text × Text) fun a b => a.1 ≤ b.1 := ⟨fun _ _ _ => le_trans⟩
  exact List.pairwise_insertionSort _ metadata.entries

/-- Two entries with one key are one entry. -/
theorem eq_of_key {entries : List (Text × Text)} (h : (entries.map Prod.fst).Nodup) {a b : Text × Text}
    (ha : a ∈ entries) (hb : b ∈ entries) (hkey : a.1 = b.1) : a = b :=
  List.inj_on_of_nodup_map h ha hb hkey

theorem pairs_eq_iff {metadata metadata' : Metadata} :
    metadata.pairs = metadata'.pairs ↔ metadata.entries.Perm metadata'.entries := by
  constructor
  · intro h
    exact (pairs_perm metadata).symm.trans (h ▸ pairs_perm metadata')
  · intro h
    have perm : metadata.pairs.Perm metadata'.pairs := (pairs_perm metadata).trans (h.trans (pairs_perm metadata').symm)
    refine perm.eq_of_pairwise (fun a b ha hb hab hba => ?_) (pairs_sorted metadata) (pairs_sorted metadata')
    have hb : b ∈ metadata.entries := h.mem_iff.mpr ((pairs_perm metadata').mem_iff.mp hb)
    exact eq_of_key metadata.nodup ((pairs_perm metadata).mem_iff.mp ha) hb (le_antisymm hab hba)

/-! ### The layers of a create -/

/-- The place of a shape among the layers. -/
def Payload.layer {D : Type} : Payload D → ℕ
  | .create .. => 0
  | .policy .. => 1
  | .generation .. => 2
  | .runtime .. => 3
  | .fork .. => 4

section

variable {D : Type} {digest : Payload D → D}

/-- The digest of an object of a layer below the bound. -/
def Below (digest : Payload D → D) (bound : ℕ) (fingerprint : D) : Prop :=
  ∃ payload, fingerprint = digest payload ∧ payload.layer < bound

theorem Below.ne (hinj : Function.Injective digest) {bound : ℕ} {fingerprint : D} (h : Below digest bound fingerprint)
    {payload : Payload D} (hp : bound ≤ payload.layer) : fingerprint ≠ digest payload := by
  obtain ⟨below, rfl, hb⟩ := h
  intro heq
  rw [hinj heq] at hb
  omega

/-- **One layer.**  A layer that is left out for one of its values, and otherwise digests its value with the fingerprint
below, tells fingerprints and values apart. -/
theorem layer_eq_iff {α : Type} (hinj : Function.Injective digest) {s : D → α → Payload D}
    (hs : ∀ f f' x x', s f x = s f' x' → f = f' ∧ x = x') {bound : ℕ}
    (hlayer : ∀ f x, bound ≤ (s f x).layer) {p : α → Prop} [DecidablePred p] (x x' : α)
    (hleft : p x → p x' → x = x') {f f' : D} (hf : Below digest bound f) (hf' : Below digest bound f') :
    (if p x then f else digest (s f x)) = (if p x' then f' else digest (s f' x')) ↔ f = f' ∧ x = x' := by
  by_cases hx : p x
  · by_cases hx' : p x'
    · rw [if_pos hx, if_pos hx']
      exact ⟨fun h => ⟨h, hleft hx hx'⟩, fun h => h.1⟩
    · rw [if_pos hx, if_neg hx']
      refine ⟨fun h => absurd h (hf.ne hinj (hlayer f' x')), fun h => ?_⟩
      exact absurd (h.2 ▸ hx) hx'
  · by_cases hx' : p x'
    · rw [if_neg hx, if_pos hx']
      refine ⟨fun h => absurd h.symm (hf'.ne hinj (hlayer f x)), fun h => ?_⟩
      exact absurd (h.2.symm ▸ hx') hx
    · rw [if_neg hx, if_neg hx']
      exact ⟨fun h => hs _ _ _ _ (hinj h), fun h => by rw [h.1, h.2]⟩

theorem Below.layer {α : Type} {s : D → α → Payload D} {bound : ℕ} (hlayer : ∀ f x, (s f x).layer = bound)
    {p : α → Prop} [DecidablePred p] (x : α) {f : D} (hf : Below digest bound f) :
    Below digest (bound + 1) (if p x then f else digest (s f x)) := by
  split
  · obtain ⟨payload, rfl, hb⟩ := hf
    exact ⟨payload, rfl, by omega⟩
  · exact ⟨s f x, rfl, by rw [hlayer]; omega⟩

/-- A policy that is off has no rules. -/
theorem off_declaration {input : NetworkPolicyDeclaration} {policy : ManagedEgressPolicy}
    (h : normalizeNetworkPolicy input = some policy) (hoff : policy.declaration.mode = modeOff) :
    policy.declaration = ⟨modeOff, [], []⟩ := by
  unfold normalizeNetworkPolicy at h
  simp only at h
  generalize (if toLower (trimSpace input.mode) = [] then modeOff else toLower (trimSpace input.mode)) = mode at h
  split at h
  · cases h
  · split at h
    · cases h
    · split at h
      · split at h
        · cases h
        next hempty =>
          split at h
          · cases h
          · simp only [Option.some.injEq] at h
            subst h
            simp only at hoff
            have rules := not_and.mp hempty hoff
            push Not at rules
            simp only [NetworkPolicyDeclaration.mk.injEq]
            refine ⟨hoff, rules.1, ?_⟩
            rw [rules.2]
            rfl
      · cases h

/-- What an accepted create digests. -/
theorem createInternalFingerprint_some {cfg : CreateConfig} {key : Text} {r : CreateRequest} {f : D}
    (h : createInternalFingerprint digest cfg key r = some f) :
    ∃ policy, normalizeNetworkPolicy r.networkPolicy = some policy ∧
      f = createFingerprintWithRuntime digest
        (createFingerprintWithPolicyGeneration digest
          (createFingerprintWithPolicy digest
            (createFingerprint digest (effectiveTemplate r.template) (cfg.clampTTL r.ttlSeconds) r.net
              (r.persistent && cfg.allowPersistent) r.leaseId r.metadata r.vcpus r.memoryMB r.diskMB)
            policy.declaration)
          (effectiveGeneration r.leaseGeneration))
        r.runtime := by
  unfold createInternalFingerprint at h
  split at h
  · cases h
  · split at h
    · cases h
    next policy hp =>
      simp only [Option.ite_none_left_eq_some, Option.some.injEq] at h
      obtain ⟨-, -, -, -, rfl⟩ := h
      exact ⟨policy, hp, rfl⟩

theorem createFingerprint_eq_iff (hinj : Function.Injective digest) {cfg : CreateConfig} {key key' : Text}
    {r r' : CreateRequest} {f f' : D} (h : createInternalFingerprint digest cfg key r = some f)
    (h' : createInternalFingerprint digest cfg key' r' = some f') : f = f' ↔ SameCreate cfg r r' := by
  obtain ⟨policy, hp, rfl⟩ := createInternalFingerprint_some h
  obtain ⟨policy', hp', rfl⟩ := createInternalFingerprint_some h'
  -- the digests of the layers, from the lowest
  have base : ∀ r : CreateRequest, Below digest 1
      (createFingerprint digest (effectiveTemplate r.template) (cfg.clampTTL r.ttlSeconds) r.net
        (r.persistent && cfg.allowPersistent) r.leaseId r.metadata r.vcpus r.memoryMB r.diskMB) :=
    fun r => ⟨_, rfl, Nat.one_pos⟩
  have withPolicy : ∀ (r : CreateRequest) (policy : ManagedEgressPolicy), Below digest 2
      (createFingerprintWithPolicy digest (createFingerprint digest (effectiveTemplate r.template)
        (cfg.clampTTL r.ttlSeconds) r.net (r.persistent && cfg.allowPersistent) r.leaseId r.metadata r.vcpus r.memoryMB
        r.diskMB) policy.declaration) :=
    fun r policy => Below.layer (p := fun p : NetworkPolicyDeclaration => p.mode = modeOff) (fun _ _ => rfl) _ (base r)
  have withGeneration : ∀ (r : CreateRequest) (policy : ManagedEgressPolicy), Below digest 3
      (createFingerprintWithPolicyGeneration digest (createFingerprintWithPolicy digest (createFingerprint digest
        (effectiveTemplate r.template) (cfg.clampTTL r.ttlSeconds) r.net (r.persistent && cfg.allowPersistent) r.leaseId
        r.metadata r.vcpus r.memoryMB r.diskMB) policy.declaration) (effectiveGeneration r.leaseGeneration)) :=
    fun r policy => Below.layer (p := fun g : ℕ => g = 1) (fun _ _ => rfl) _ (withPolicy r policy)
  have runtimes := layer_eq_iff hinj (s := Payload.runtime) (fun _ _ _ _ h => Payload.runtime.inj h)
    (fun _ _ => le_rfl) (p := fun x => x = noRuntimeExpectation) r.runtime r'.runtime
    (fun hx hx' => hx.trans hx'.symm) (withGeneration r policy) (withGeneration r' policy')
  have generations := layer_eq_iff hinj (s := Payload.generation) (fun _ _ _ _ h => Payload.generation.inj h)
    (fun _ _ => le_rfl) (p := fun x => x = 1) (effectiveGeneration r.leaseGeneration)
    (effectiveGeneration r'.leaseGeneration) (fun hx hx' => hx.trans hx'.symm) (withPolicy r policy) (withPolicy r' policy')
  have policies := layer_eq_iff hinj (s := Payload.policy) (fun _ _ _ _ h => Payload.policy.inj h)
    (fun _ _ => le_rfl) (p := fun x => x.mode = modeOff) policy.declaration policy'.declaration
    (fun hx hx' => (off_declaration hp hx).trans (off_declaration hp' hx').symm) (base r) (base r')
  have fields := hinj.eq_iff (a := Payload.create (effectiveTemplate r.template) (cfg.clampTTL r.ttlSeconds) r.net
    (r.persistent && cfg.allowPersistent) r.leaseId r.metadata.pairs r.vcpus r.memoryMB r.diskMB)
    (b := Payload.create (effectiveTemplate r'.template) (cfg.clampTTL r'.ttlSeconds) r'.net
      (r'.persistent && cfg.allowPersistent) r'.leaseId r'.metadata.pairs r'.vcpus r'.memoryMB r'.diskMB)
  rw [createFingerprintWithRuntime, createFingerprintWithRuntime, runtimes]
  rw [createFingerprintWithPolicyGeneration, createFingerprintWithPolicyGeneration, generations]
  rw [createFingerprintWithPolicy, createFingerprintWithPolicy, policies]
  rw [createFingerprint, createFingerprint, fields, Payload.create.injEq, pairs_eq_iff]
  constructor
  · rintro ⟨⟨⟨⟨h1, h2, h3, h4, h5, h6, h7, h8, h9⟩, hpolicy⟩, hgeneration⟩, hruntime⟩
    exact ⟨h1, h2, h3, h4, h5, hgeneration, h6, h7, h8, h9, by simp [hp, hp', hpolicy], hruntime⟩
  · intro same
    have hpolicy : policy.declaration = policy'.declaration := by simpa [hp, hp'] using same.networkPolicy
    exact ⟨⟨⟨⟨same.template, same.ttl, same.net, same.persistent, same.leaseId, same.metadata, same.vcpus, same.memoryMB,
      same.diskMB⟩, hpolicy⟩, same.leaseGeneration⟩, same.runtime⟩

/-! ### Forks -/

theorem canonical_eq_iff {child child' : ForkChild} : child.canonical = child'.canonical ↔ SameChild child child' := by
  have generation : (if effectiveGeneration child.leaseGeneration = 1 then 0 else child.leaseGeneration) =
      (if effectiveGeneration child'.leaseGeneration = 1 then 0 else child'.leaseGeneration) ↔
      effectiveGeneration child.leaseGeneration = effectiveGeneration child'.leaseGeneration := by
    unfold effectiveGeneration
    split_ifs <;> omega
  rw [ForkChild.canonical, ForkChild.canonical, CanonicalChild.mk.injEq, generation, pairs_eq_iff]
  constructor
  · rintro ⟨h1, h2, h3, h4, h5, h6, h7⟩
    exact ⟨h1, h2, h3, h4, h5, h6, h7⟩
  · rintro ⟨h1, h2, h3, h4, h5, h6, h7⟩
    exact ⟨h1, h2, h3, h4, h5, h6, h7⟩

theorem forkFingerprint_eq_iff (hinj : Function.Injective digest) {r r' : ForkRequest} :
    managedForkFingerprint digest r = managedForkFingerprint digest r' ↔ SameFork r r' := by
  have children : r.children.map ForkChild.canonical = r'.children.map ForkChild.canonical ↔
      List.Forall₂ SameChild r.children r'.children := by
    rw [← List.forall₂_eq_eq_eq, List.forall₂_map_left_iff, List.forall₂_map_right_iff]
    simp only [canonical_eq_iff]
  rw [managedForkFingerprint, managedForkFingerprint, hinj.eq_iff, Payload.fork.injEq, children]
  exact ⟨fun ⟨h1, h2, h3⟩ => ⟨h1, h2, h3⟩, fun h => ⟨h.sourceId, h.sourceLeaseId, h.children⟩⟩

/-- **Fingerprints tell requests apart.**  Two creates that a host accepts have one fingerprint exactly when they are the
same up to the order of the metadata and the defaults of the host, among them that persistence may not be allowed.  Two
forks have one exactly when they are the same up to the runtime they expect, which is compared beside the fingerprint
where it is required. -/
theorem fingerprints_separate [DecidableEq D] (hinj : Function.Injective digest) :
    (∀ (cfg : CreateConfig) (key key' : Text) (r r' : CreateRequest) (f f' : D),
      createInternalFingerprint digest cfg key r = some f → createInternalFingerprint digest cfg key' r' = some f' →
      (f = f' ↔ SameCreate cfg r r')) ∧
    (∀ r r' : ForkRequest, managedForkFingerprint digest r = managedForkFingerprint digest r' ↔ SameFork r r') ∧
    ∀ (r r' : ForkRequest) (required : Bool),
      ForkReservation.replays ⟨managedForkFingerprint digest r, r.runtime⟩ digest required r' = true ↔
        SameFork r r' ∧ (required = true → r.runtime = r'.runtime) := by
  refine ⟨fun _ _ _ _ _ _ _ h h' => createFingerprint_eq_iff hinj h h', fun _ _ => forkFingerprint_eq_iff hinj,
    fun r r' required => ?_⟩
  rw [ForkReservation.replays, Bool.and_eq_true, decide_eq_true_eq, decide_eq_true_eq, forkFingerprint_eq_iff hinj]

end

/-! ### A create and its retry -/

/-- The cohort of a host, and its root file system. -/
def sampleRuntime : RuntimeExpectation where
  cohortId := "16accdf4ccc09faa5795285f06e167024b4b8c61ed48f7deb0a9b82ef4d6ec9c".toList
  rootfsSHA256 := "3c47ef972d531d524daa15fa33dd885dd23de6221bbd10a29eb42ecfcf2ef422".toList

/-- A managed host that does not allow persistent machines. -/
def sampleConfig : CreateConfig where
  nehemiahMode := true
  netEnable := true
  allowPersistent := false
  defaultTTL := 120
  minTTL := 15
  maxTTL := 86400
  maxVCPUsPerMachine := 4
  maxMemoryMBPerMachine := 4096
  overlayQuotaMB := 20480
  installed := fun _ => false
  runtimeMatches := fun _ runtime => decide (runtime = sampleRuntime)

theorem sampleKeys_nodup : (["region".toList, "public_machine_id".toList] : List Text).Nodup ∧
    (["public_machine_id".toList, "region".toList] : List Text).Nodup := by decide

/-- Every default is left to the host. -/
def sampleCreate : CreateRequest where
  template := []
  ttlSeconds := 0
  vcpus := 1
  memoryMB := 256
  diskMB := 0
  net := true
  persistent := false
  leaseId := "lease-1".toList
  leaseGeneration := 0
  metadata := ⟨[("region".toList, "eu".toList), ("public_machine_id".toList, "m_1".toList)], sampleKeys_nodup.1⟩
  networkPolicy := ⟨[], [], []⟩
  runtime := sampleRuntime

/-- The same create with every default written out, and its metadata in another order. -/
def sampleRetry : CreateRequest :=
  { sampleCreate with
    template := "python".toList
    ttlSeconds := 120
    leaseGeneration := 1
    metadata := ⟨[("public_machine_id".toList, "m_1".toList), ("region".toList, "eu".toList)], sampleKeys_nodup.2⟩
    networkPolicy := ⟨"off".toList, [], []⟩ }

/-- The digests of a sample: one in hexadecimal, and the others as the objects they are of. -/
inductive SampleDigest
  | hex (digits : Text)
  | of (payload : Payload SampleDigest)

def samplePayload : Payload SampleDigest :=
  .create "python".toList 120 true false "lease-1".toList
    [("public_machine_id".toList, "m_1".toList), ("region".toList, "eu".toList)] 1 256 0

def sampleBase : SampleDigest := .hex "8a7dbb1ee8030ccaf8ac76def8961a521d8ca61a958a1aa58b34b15dbdef5f7e".toList

def sampleFingerprint : SampleDigest := .hex "0298ad42ae03b6d30757352d82f82d2ec7787b8fdc1ae6600b246f809dbc440f".toList

open Classical in
noncomputable def sampleDigest (payload : Payload SampleDigest) : SampleDigest :=
  if payload = samplePayload then sampleBase
  else if payload = .runtime sampleBase sampleRuntime then sampleFingerprint
  else .of payload

theorem sampleDigest_injective : Function.Injective sampleDigest := by
  have digests : sampleBase ≠ sampleFingerprint := by
    intro h
    exact absurd (SampleDigest.hex.inj h) (by decide)
  intro a b h
  unfold sampleDigest at h
  split at h
  next ha =>
    split at h
    next hb => exact ha.trans hb.symm
    · split at h
      · exact absurd h digests
      · cases h
  · split at h
    next ha =>
      split at h
      · exact absurd h.symm digests
      · split at h
        next hb => exact ha.trans hb.symm
        · cases h
    · split at h
      · cases h
      · split at h
        · cases h
        · exact SampleDigest.of.inj h

/-- What an accepted create in the first generation digests, on a host whose checks are known. -/
theorem createInternalFingerprint_of {D : Type} (digest : Payload D → D) {cfg : CreateConfig} {key : Text}
    {r : CreateRequest} {policy : ManagedEgressPolicy}
    (hv : validateInternalCreate key r.leaseId r.metadata = true)
    (hp : normalizeNetworkPolicy r.networkPolicy = some policy) (hoff : policy.declaration.mode = modeOff)
    (hc : (cfg.validPolicy policy r.net && cfg.runtimeMatches (effectiveTemplate r.template) r.runtime &&
      decide (r.ttlSeconds ≠ 0 → cfg.minTTL ≤ r.ttlSeconds ∧ r.ttlSeconds ≤ cfg.maxTTL) &&
      cfg.validTemplate (effectiveTemplate r.template) r.vcpus r.memoryMB r.diskMB) = true)
    (hg : effectiveGeneration r.leaseGeneration = 1) :
    createInternalFingerprint digest cfg key r =
      some (createFingerprintWithRuntime digest (digest (.create (effectiveTemplate r.template)
        (cfg.clampTTL r.ttlSeconds) r.net (r.persistent && cfg.allowPersistent) r.leaseId r.metadata.pairs r.vcpus
        r.memoryMB r.diskMB)) r.runtime) := by
  simp only [Bool.and_eq_true, decide_eq_true_eq] at hc
  obtain ⟨⟨⟨hpolicy, hruntime⟩, httl⟩, htemplate⟩ := hc
  have inRange : ¬ (r.ttlSeconds ≠ 0 ∧ (r.ttlSeconds < cfg.minTTL ∨ cfg.maxTTL < r.ttlSeconds)) := by
    rintro ⟨hne, hout⟩
    have := httl hne
    omega
  simp [createInternalFingerprint, hv, hp, hpolicy, hruntime, inRange, htemplate,
    createFingerprintWithPolicyGeneration, hg, createFingerprintWithPolicy, hoff, createFingerprint]

theorem sample_normalized : normalizeNetworkPolicy ⟨[], [], []⟩ = some ⟨⟨modeOff, [], []⟩, [], []⟩ ∧
    normalizeNetworkPolicy ⟨"off".toList, [], []⟩ = some ⟨⟨modeOff, [], []⟩, [], []⟩ := by
  decide +kernel

theorem sampleCreate_digest {D : Type} (digest : Payload D → D) :
    createInternalFingerprint digest sampleConfig "retry".toList sampleCreate =
      some (digest (.runtime (digest (.create "python".toList 120 true false "lease-1".toList
        [("public_machine_id".toList, "m_1".toList), ("region".toList, "eu".toList)] 1 256 0)) sampleRuntime)) := by
  rw [createInternalFingerprint_of digest (by decide +kernel) sample_normalized.1 rfl (by decide +kernel) rfl,
    show sampleCreate.metadata.pairs =
      [("public_machine_id".toList, "m_1".toList), ("region".toList, "eu".toList)] by decide +kernel]
  rfl

theorem sampleRetry_digest {D : Type} (digest : Payload D → D) (persistent : Bool) :
    createInternalFingerprint digest sampleConfig "retry".toList { sampleRetry with persistent := persistent } =
      some (digest (.runtime (digest (.create "python".toList 120 true false "lease-1".toList
        [("public_machine_id".toList, "m_1".toList), ("region".toList, "eu".toList)] 1 256 0)) sampleRuntime)) := by
  have pairs : sampleRetry.metadata.pairs =
      [("public_machine_id".toList, "m_1".toList), ("region".toList, "eu".toList)] := by decide +kernel
  cases persistent with
  | false =>
    rw [createInternalFingerprint_of digest (by decide +kernel) sample_normalized.2 rfl (by decide +kernel) rfl, pairs]
    rfl
  | true =>
    rw [createInternalFingerprint_of digest (by decide +kernel) sample_normalized.2 rfl (by decide +kernel) rfl, pairs]
    rfl

theorem sampleCreate_retried :
    createInternalFingerprint sampleDigest sampleConfig "retry".toList sampleCreate = some sampleFingerprint ∧
    createInternalFingerprint sampleDigest sampleConfig "retry".toList sampleRetry = some sampleFingerprint ∧
    SameCreate sampleConfig sampleCreate sampleRetry := by
  have base : sampleDigest samplePayload = sampleBase := by rw [sampleDigest, if_pos rfl]
  have hex : sampleDigest (.runtime (sampleDigest samplePayload) sampleRuntime) = sampleFingerprint := by
    rw [base, sampleDigest, if_neg (by simp [samplePayload]), if_pos rfl]
  classical
  have create := sampleCreate_digest sampleDigest
  have retry := sampleRetry_digest sampleDigest false
  exact ⟨create.trans (congrArg some hex), retry.trans (congrArg some hex),
    ((fingerprints_separate sampleDigest_injective).1 _ _ _ _ _ _ _ create retry).mp rfl⟩

/-- A host that allows no persistent machines gives one fingerprint to a create that asks for one and to one that does
not. -/
theorem persistence_not_told :
    createInternalFingerprint sampleDigest sampleConfig "retry".toList { sampleRetry with persistent := true } =
      createInternalFingerprint sampleDigest sampleConfig "retry".toList sampleRetry ∧
    (createInternalFingerprint sampleDigest sampleConfig "retry".toList sampleRetry).isSome = true ∧
    ({ sampleRetry with persistent := true } : CreateRequest).persistent ≠ sampleRetry.persistent := by
  have retry : createInternalFingerprint sampleDigest sampleConfig "retry".toList sampleRetry = _ :=
    sampleRetry_digest sampleDigest false
  refine ⟨(sampleRetry_digest sampleDigest true).trans retry.symm, ?_, by decide⟩
  rw [retry]
  rfl

end Nehemiah.Egress
