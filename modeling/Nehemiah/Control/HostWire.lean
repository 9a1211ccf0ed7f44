import Mathlib.Data.List.Forall2
import Nehemiah.Control.NetworkPolicy
import Nehemiah.Sdk.Requests

/-!
# What the control plane and a host write to each other

`NehemiahdClient.create` and `fork`: the body that each sends, and what it asks of the answer.  On the host,
`json.Decoder` with `DisallowUnknownFields` into `internalCreateRequest` and `internalForkRequest`, and the `InternalView`
that is the answer.  `wire_agrees` says when both mean the same.  The texts of times are arbitrary functions of the times.
-/

namespace Nehemiah.HostWire

open Sdk.Requests (Json object)

/-! ### Values -/

/-- A number of the control plane; one that is not finite is written as `null`. -/
abbrev Number := Option ℚ

def numberJson (n : Number) : Json := (n.map Json.num).getD .null

def recordJson (entries : List (String × String)) : Json := .obj (entries.map fun e => (e.1, .str e.2))

structure NetworkPolicyDeclaration where
  mode : String
  hostnames : Option (List String)
  cidrs : Option (List String)
deriving DecidableEq

def NetworkPolicyDeclaration.json (d : NetworkPolicyDeclaration) : Json :=
  object [("mode", some (.str d.mode)), ("hostnames", d.hostnames.map fun l => .arr (l.map .str)),
    ("cidrs", d.cidrs.map fun l => .arr (l.map .str))]

/-- Not `undefined` and not empty. -/
def truthy (s : Option String) : Bool := s.any (· ≠ "")

/-! ### Decoding on the host -/

/-- `foldName` for the names of fields, which are in ASCII: the capitals, the long s and the Kelvin sign. -/
def foldRune (c : Char) : Char := if c = '\u017F' then 's' else if c = '\u212A' then 'k' else c.toLower

/-- Sets one field from its value; a value of another type is an error, `null` changes nothing. -/
abbrev Setter (R : Type) := R → Json → Option R

section

variable {R A : Type}

def setString (set : R → String → R) : Setter R
  | r, .str s => some (set r s)
  | r, .null => some r
  | _, _ => none

def setBool (set : R → Bool → R) : Setter R
  | r, .bool b => some (set r b)
  | r, .null => some r
  | _, _ => none

def setInt (set : R → ℤ → R) : Setter R
  | r, .num q => if q.den = 1 ∧ -2 ^ 63 ≤ q.num ∧ q.num < 2 ^ 63 then some (set r q.num) else none
  | r, .null => some r
  | _, _ => none

def setUint64 (set : R → ℕ → R) : Setter R
  | r, .num q => if q.den = 1 ∧ 0 ≤ q.num ∧ q.num < 2 ^ 64 then some (set r q.num.toNat) else none
  | r, .null => some r
  | _, _ => none

/-- An element that is `null` is the zero of its type. -/
def stringItem : Json → Option String
  | .str s => some s
  | .null => some ""
  | _ => none

def setStrings (set : R → Option (List String) → R) : Setter R
  | r, .arr items => (items.mapM stringItem).map fun l => set r (some l)
  | r, .null => some (set r none)
  | _, _ => none

/-- A map keeps the last value of a key. -/
def setMap (get : R → String → Option String) (set : R → (String → Option String) → R) : Setter R
  | r, .obj fields => (fields.foldlM (fun (m : String → Option String) (f : String × Json) =>
      (stringItem f.2).map fun s => Function.update m f.1 (some s)) (get r)).map (set r)
  | r, .null => some (set r fun _ => none)
  | _, _ => none

/-- The field of a name: the one that has it, or else the one that has it but for its case. -/
def fieldOf (fields : List (String × Setter R)) (key : String) : Option (Setter R) :=
  ((fields.find? fun f => decide (f.1 = key)).or
    (fields.find? fun f => decide (f.1.toList = key.toList.map foldRune))).map Prod.snd

def decodeEntry (fields : List (String × Setter R)) (r : R) (e : String × Json) : Option R :=
  (fieldOf fields e.1).bind fun set => set r e.2

/-- `Decode` with `DisallowUnknownFields` into a structure. -/
def decodeStruct (fields : List (String × Setter R)) (zero : R) : Json → Option R
  | .obj entries => entries.foldlM (decodeEntry fields) zero
  | .null => some zero
  | _ => none

def setStruct (decode : A → Json → Option A) (get : R → A) (set : R → A → R) : Setter R :=
  fun r value => (decode (get r) value).map (set r)

def setStructs (decode : Json → Option A) (set : R → List A → R) : Setter R
  | r, .arr items => (items.mapM decode).map (set r)
  | r, .null => some (set r [])
  | _, _ => none

/-- One name that no field has is enough to fail. -/
theorem decodeStruct_unknown {fields : List (String × Setter R)} {entries : List (String × Json)} {key : String}
    {value : Json} (hunknown : fieldOf fields key = none) (hmem : (key, value) ∈ entries) (zero : R) :
    decodeStruct fields zero (.obj entries) = none := by
  show entries.foldlM (decodeEntry fields) zero = none
  induction entries generalizing zero with
  | nil => cases hmem
  | cons e entries ih =>
    rw [List.foldlM_cons]
    rcases List.mem_cons.mp hmem with rfl | hrest
    · have hentry : decodeEntry fields zero (key, value) = none := by rw [decodeEntry, hunknown, Option.bind_none]
      rw [hentry]
      rfl
    · cases decodeEntry fields zero e with
      | none => rfl
      | some r => exact ih hrest r

end

def policyFields : List (String × Setter NetworkPolicyDeclaration) :=
  [("mode", setString fun r mode => { r with mode := mode }),
    ("hostnames", setStrings fun r l => { r with hostnames := l }),
    ("cidrs", setStrings fun r l => { r with cidrs := l })]

structure InternalCreateRequest where
  template : String
  ociReference : String
  ttlSeconds : ℤ
  vcpus : ℤ
  memoryMB : ℤ
  diskMB : ℤ
  net : Bool
  persistent : Bool
  leaseID : String
  leaseGeneration : ℕ
  metadata : String → Option String
  networkPolicy : NetworkPolicyDeclaration
  runtimeCohortID : String
  rootfsSHA256 : String

def InternalCreateRequest.zero : InternalCreateRequest :=
  ⟨"", "", 0, 0, 0, 0, false, false, "", 0, fun _ => none, ⟨"", none, none⟩, "", ""⟩

def internalCreateRequestFields : List (String × Setter InternalCreateRequest) :=
  [("template", setString fun r s => { r with template := s }),
    ("oci_reference", setString fun r s => { r with ociReference := s }),
    ("ttl_seconds", setInt fun r n => { r with ttlSeconds := n }),
    ("vcpus", setInt fun r n => { r with vcpus := n }),
    ("memory_mb", setInt fun r n => { r with memoryMB := n }),
    ("disk_mb", setInt fun r n => { r with diskMB := n }),
    ("net", setBool fun r b => { r with net := b }),
    ("persistent", setBool fun r b => { r with persistent := b }),
    ("lease_id", setString fun r s => { r with leaseID := s }),
    ("lease_generation", setUint64 fun r n => { r with leaseGeneration := n }),
    ("metadata", setMap (fun r => r.metadata) fun r m => { r with metadata := m }),
    ("network_policy", setStruct (decodeStruct policyFields) (fun r => r.networkPolicy) fun r p =>
      { r with networkPolicy := p }),
    ("runtime_cohort_id", setString fun r s => { r with runtimeCohortID := s }),
    ("rootfs_sha256", setString fun r s => { r with rootfsSHA256 := s })]

/-- `handleInternalCreateMachine`, its decoding. -/
def decodeCreate (body : Json) : Option InternalCreateRequest :=
  decodeStruct internalCreateRequestFields .zero body

/-- A name is found whatever its case. -/
example : (decodeCreate (.obj [("lease_id", .str "lease_1"), ("VCPUS", .num 2), ("rootfs_sha256", .str "digest_1")])).map
    (fun d => (d.leaseID, d.vcpus, d.rootfsSHA256)) = some ("lease_1", 2, "digest_1") := by decide +kernel

structure InternalForkChildRequest where
  leaseID : String
  leaseGeneration : ℕ
  expiresAt : String
  metadata : String → Option String
  vcpus : ℤ
  memoryMB : ℤ
  diskMB : ℤ

def internalForkChildRequestFields : List (String × Setter InternalForkChildRequest) :=
  [("lease_id", setString fun r s => { r with leaseID := s }),
    ("lease_generation", setUint64 fun r n => { r with leaseGeneration := n }),
    ("expires_at", setString fun r s => { r with expiresAt := s }),
    ("metadata", setMap (fun r => r.metadata) fun r m => { r with metadata := m }),
    ("vcpus", setInt fun r n => { r with vcpus := n }),
    ("memory_mb", setInt fun r n => { r with memoryMB := n }),
    ("disk_mb", setInt fun r n => { r with diskMB := n })]

def decodeForkChild (child : Json) : Option InternalForkChildRequest :=
  decodeStruct internalForkChildRequestFields ⟨"", 0, "", fun _ => none, 0, 0, 0⟩ child

structure InternalForkRequest where
  children : List InternalForkChildRequest
  runtimeCohortID : String
  rootfsSHA256 : String

def internalForkRequestFields : List (String × Setter InternalForkRequest) :=
  [("children", setStructs decodeForkChild fun r l => { r with children := l }),
    ("runtime_cohort_id", setString fun r s => { r with runtimeCohortID := s }),
    ("rootfs_sha256", setString fun r s => { r with rootfsSHA256 := s })]

/-- `handleInternalForkMachine`, its decoding. -/
def decodeFork (body : Json) : Option InternalForkRequest :=
  decodeStruct internalForkRequestFields ⟨[], "", ""⟩ body

/-! ### The client -/

structure Resources where
  vcpus : Number
  memoryMb : Number
  diskMb : Number

structure CreateOnHostRequest where
  leaseId : String
  leaseGeneration : Option Number
  template : Option String
  ociReference : Option String
  ttlSeconds : Number
  resources : Resources
  networkPolicy : NetworkPolicyDeclaration
  metadata : List (String × String)
  runtimeCohortId : Option String
  sourceSha256 : Option String

/-- The child expires at a number of milliseconds. -/
structure ForkOnHostChild where
  leaseId : String
  leaseGeneration : Option Number
  expiresAt : ℤ
  networkPolicy : NetworkPolicyDeclaration
  resources : Resources
  metadata : List (String × String)
  runtimeCohortId : Option String
  sourceSha256 : Option String

structure HostRequestError where
  status : Option ℕ
  message : String
  ambiguous : Bool
  code : Option String

/-- `a ?? 1`. -/
def orOne (n : Option Number) : Number := n.getD (some 1)

/-- The request names a runtime cohort and a source digest. -/
def CreateOnHostRequest.bound (r : CreateOnHostRequest) : Bool := truthy r.runtimeCohortId && truthy r.sourceSha256

def ForkOnHostChild.bound (c : ForkOnHostChild) : Bool := truthy c.runtimeCohortId && truthy c.sourceSha256

/-- The body that `create` sends. -/
def createBody (r : CreateOnHostRequest) : Except HostRequestError Json :=
  if !r.bound then
    .error ⟨none, "managed host create requires an immutable runtime cohort and source digest", false,
      some "invalid_runtime_binding"⟩
  else .ok (object [("lease_id", some (.str r.leaseId)), ("lease_generation", some (numberJson (orOne r.leaseGeneration))),
    ("template", r.template.map .str), ("oci_reference", r.ociReference.map .str),
    ("ttl_seconds", some (numberJson r.ttlSeconds)), ("net", some (.bool true)),
    ("vcpus", some (numberJson r.resources.vcpus)), ("memory_mb", some (numberJson r.resources.memoryMb)),
    ("disk_mb", some (numberJson r.resources.diskMb)), ("network_policy", some r.networkPolicy.json),
    ("metadata", some (recordJson r.metadata)), ("runtime_cohort_id", r.runtimeCohortId.map .str),
    ("source_sha256", r.sourceSha256.map .str)])

def forkChildJson (toISOString : ℤ → String) (c : ForkOnHostChild) : Json :=
  object [("lease_id", some (.str c.leaseId)), ("lease_generation", some (numberJson (orOne c.leaseGeneration))),
    ("expires_at", some (.str (toISOString c.expiresAt))), ("vcpus", some (numberJson c.resources.vcpus)),
    ("memory_mb", some (numberJson c.resources.memoryMb)), ("disk_mb", some (numberJson c.resources.diskMb)),
    ("metadata", some (recordJson c.metadata)), ("runtime_cohort_id", c.runtimeCohortId.map .str),
    ("source_sha256", c.sourceSha256.map .str)]

/-- The body that `fork` sends. -/
def forkBody (toISOString : ℤ → String) (children : List ForkOnHostChild) : Except HostRequestError Json :=
  if children.any fun c => !c.bound then
    .error ⟨none, "managed host fork requires immutable runtime cohort and source digests", false,
      some "invalid_runtime_binding"⟩
  else .ok (object [("children", some (.arr (children.map (forkChildJson toISOString))))])

/-- `machine.a?.b`. -/
def at? (machine : Json) (names : List String) : Option Json := names.foldlM (fun value name => value.field name) machine

def textAt (machine : Json) (names : List String) : Option String := (at? machine names).bind Json.text

def numberAt (machine : Json) (names : List String) : Option Number := (at? machine names).bind fun value =>
  value.number.map some

def stringsOf : Json → Option (List String)
  | .arr items => items.mapM Json.text
  | _ => none

/-- The observed policy at its type; a list that is absent stays absent. -/
def declarationOf (value : Json) : Option NetworkPolicyDeclaration :=
  match value with
  | .obj fields =>
    if fields.all fun f => decide (f.1 ∈ ["mode", "hostnames", "cidrs"]) then
      (textAt value ["mode"]).bind fun mode =>
        ((value.field "hostnames").elim (some none) fun l => (stringsOf l).map some).bind fun hostnames =>
          ((value.field "cidrs").elim (some none) fun l => (stringsOf l).map some).map fun cidrs => ⟨mode, hostnames, cidrs⟩
    else none
  | _ => none

/-- `new EgressPolicy(…).declaration` of what the machine says of its policy. -/
def observedPolicy (machine : Json) : Option NetworkPolicyDeclaration := do
  let d ← (machine.field "network_policy").bind declarationOf
  let policy ← Egress.egressPolicy
    ⟨d.mode.toList, (d.hostnames.getD []).map String.toList, (d.cidrs.getD []).map String.toList⟩
  return ⟨String.ofList policy.declaration.mode, some (policy.declaration.hostnames.map String.ofList),
    some (policy.declaration.cidrs.map String.ofList)⟩

/-- What `create` asks of the answer. -/
def createMatches (r : CreateOnHostRequest) (machine : Json) : Bool :=
  decide (textAt machine ["lease_id"] = some r.leaseId) &&
  decide (numberAt machine ["lease_generation"] = some (orOne r.leaseGeneration)) &&
  decide (textAt machine ["metadata", "public_machine_id"] = r.metadata.lookup "public_machine_id") &&
  decide (numberAt machine ["resources", "vcpus"] = some r.resources.vcpus) &&
  decide (numberAt machine ["resources", "memory_mb"] = some r.resources.memoryMb) &&
  decide (numberAt machine ["resources", "disk_mb"] = some r.resources.diskMb) &&
  decide (textAt machine ["runtime_cohort_id"] = r.runtimeCohortId) &&
  decide (textAt machine ["source_sha256"] = r.sourceSha256) &&
  decide (observedPolicy machine = some r.networkPolicy)

/-- What `fork` asks of one machine of the answer, beside those that it has seen: its public and its own name. -/
def forkChildMatches (parseDate : String → Option ℤ) (children : List ForkOnHostChild) (observed hostIds : List String)
    (machine : Json) : Option (String × String) := do
  let id ← textAt machine ["id"]
  let publicMachineId ← textAt machine ["metadata", "public_machine_id"]
  guard (id ≠ "" ∧ id ∉ hostIds ∧ publicMachineId ≠ "" ∧ publicMachineId ∉ observed)
  let child ← children.reverse.find? fun c => c.metadata.lookup "public_machine_id" = some publicMachineId
  guard (textAt machine ["lease_id"] = some child.leaseId)
  guard (numberAt machine ["lease_generation"] = some (orOne child.leaseGeneration))
  guard (textAt machine ["metadata", "parent_machine_id"] = child.metadata.lookup "parent_machine_id")
  guard (textAt machine ["metadata", "fork_operation_id"] = child.metadata.lookup "fork_operation_id")
  guard (numberAt machine ["resources", "vcpus"] = some child.resources.vcpus)
  guard (numberAt machine ["resources", "memory_mb"] = some child.resources.memoryMb)
  guard (numberAt machine ["resources", "disk_mb"] = some child.resources.diskMb)
  guard (textAt machine ["runtime_cohort_id"] = child.runtimeCohortId)
  guard (textAt machine ["source_sha256"] = child.sourceSha256)
  guard (observedPolicy machine = some child.networkPolicy)
  guard (((textAt machine ["expires_at"]).filter (· ≠ "")).bind parseDate = some child.expiresAt)
  guard (∀ started ∈ (textAt machine ["started_at"]).filter (· ≠ ""), (parseDate started).isSome)
  guard (∀ ready ∈ (textAt machine ["ready_at"]).filter (· ≠ ""), (parseDate ready).isSome)
  return (publicMachineId, id)

def forkRest (parseDate : String → Option ℤ) (children : List ForkOnHostChild) :
    List Json → List String → List String → Bool
  | [], _, _ => true
  | machine :: machines, observed, hostIds =>
    match forkChildMatches parseDate children observed hostIds machine with
    | none => false
    | some (publicMachineId, id) => forkRest parseDate children machines (publicMachineId :: observed) (id :: hostIds)

/-- What `fork` asks of the machines of the answer. -/
def forkMatches (parseDate : String → Option ℤ) (children : List ForkOnHostChild) (machines : List Json) : Bool :=
  decide (machines.length = children.length) && forkRest parseDate children machines [] []

/-! ### The view of the host -/

/-- What a machine of the host shows of itself. Its times are numbers of nanoseconds, those that are not set absent. -/
structure Machine where
  id : String
  status : String
  mode : String
  bootMS : ℤ
  template : String
  display : Bool
  createdAt : ℤ
  startedAt : Option ℤ
  ready : Bool
  readyAt : Option ℤ
  expiresAt : ℤ
  persistent : Bool
  parentID : String
  leaseID : String
  leaseGeneration : ℕ
  metadata : List (String × String)
  vcpus : ℤ
  memoryMB : ℤ
  diskMB : ℤ
  networkPolicy : NetworkPolicyDeclaration

/-- What `encoding/json` and `time` make of a time, with and without fractions of a second, and what
`mustNormalizedNetworkDeclaration` makes of a policy. -/
structure Formats where
  rfc3339 : ℤ → String
  rfc3339Nano : ℤ → String
  normalized : NetworkPolicyDeclaration → NetworkPolicyDeclaration

def omitEmpty (s : String) : Option Json := if s = "" then none else some (.str s)

/-- `InternalView`, with the fields of `View` before its own. -/
def Machine.internalView (formats : Formats) (m : Machine) : Json :=
  object [("id", some (.str m.id)), ("status", some (.str m.status)), ("mode", some (.str m.mode)),
    ("boot_ms", some (.num m.bootMS)), ("template", some (.str m.template)), ("display", some (.bool m.display)),
    ("created_at", some (.str (formats.rfc3339 m.createdAt))),
    ("started_at", (m.startedAt.map formats.rfc3339Nano).bind omitEmpty), ("ready", some (.bool m.ready)),
    ("ready_at", (m.readyAt.map formats.rfc3339Nano).bind omitEmpty),
    ("expires_at", some (.str (if m.persistent then "" else formats.rfc3339Nano m.expiresAt))),
    ("persistent", if m.persistent then some (.bool true) else none), ("parent", omitEmpty m.parentID),
    ("lease_id", some (.str m.leaseID)), ("lease_generation", some (.num m.leaseGeneration)),
    ("metadata", if m.metadata = [] then none else some (recordJson m.metadata)),
    ("resources", some (object [("vcpus", some (.num m.vcpus)), ("memory_mb", some (.num m.memoryMB)),
      ("disk_mb", some (.num m.diskMB))])),
    ("network_policy", some (formats.normalized m.networkPolicy).json)]

/-! ### Agreement -/

/-- The host reads what the client has written. -/
structure InternalCreateRequest.Carries (d : InternalCreateRequest) (r : CreateOnHostRequest) : Prop where
  lease : d.leaseID = r.leaseId ∧ some (d.leaseGeneration : ℚ) = orOne r.leaseGeneration
  resources : some (d.vcpus : ℚ) = r.resources.vcpus ∧ some (d.memoryMB : ℚ) = r.resources.memoryMb ∧
    some (d.diskMB : ℚ) = r.resources.diskMb
  metadata : ∀ key, d.metadata key = r.metadata.lookup key
  policy : d.networkPolicy = r.networkPolicy
  expiry : some (d.ttlSeconds : ℚ) = r.ttlSeconds
  runtime : r.runtimeCohortId = some d.runtimeCohortID ∧ r.sourceSha256 = some d.rootfsSHA256

structure InternalForkChildRequest.Carries (parseTime : String → Option ℤ) (d : InternalForkChildRequest)
    (c : ForkOnHostChild) : Prop where
  lease : d.leaseID = c.leaseId ∧ some (d.leaseGeneration : ℚ) = orOne c.leaseGeneration
  resources : some (d.vcpus : ℚ) = c.resources.vcpus ∧ some (d.memoryMB : ℚ) = c.resources.memoryMb ∧
    some (d.diskMB : ℚ) = c.resources.diskMb
  metadata : ∀ key, d.metadata key = c.metadata.lookup key
  expiry : parseTime d.expiresAt = some (c.expiresAt * 1000000)

structure InternalForkRequest.Carries (parseTime : String → Option ℤ) (d : InternalForkRequest)
    (children : List ForkOnHostChild) : Prop where
  batch : List.Forall₂ (InternalForkChildRequest.Carries parseTime) d.children children
  runtime : ∀ c ∈ children, c.runtimeCohortId = some d.runtimeCohortID ∧ c.sourceSha256 = some d.rootfsSHA256

/-- The host has created the machine as it was asked to. -/
structure Machine.AsRequested (m : Machine) (r : CreateOnHostRequest) : Prop where
  lease : m.leaseID = r.leaseId ∧ some (m.leaseGeneration : ℚ) = orOne r.leaseGeneration
  resources : some (m.vcpus : ℚ) = r.resources.vcpus ∧ some (m.memoryMB : ℚ) = r.resources.memoryMb ∧
    some (m.diskMB : ℚ) = r.resources.diskMb
  metadata : ∀ key, m.metadata.lookup key = r.metadata.lookup key
  policy : m.networkPolicy = r.networkPolicy

structure Machine.AsChild (m : Machine) (c : ForkOnHostChild) : Prop where
  lease : m.leaseID = c.leaseId ∧ some (m.leaseGeneration : ℚ) = orOne c.leaseGeneration
  resources : some (m.vcpus : ℚ) = c.resources.vcpus ∧ some (m.memoryMB : ℚ) = c.resources.memoryMb ∧
    some (m.diskMB : ℚ) = c.resources.diskMb
  metadata : ∀ key, m.metadata.lookup key = c.metadata.lookup key
  policy : m.networkPolicy = c.networkPolicy
  expiry : m.expiresAt = c.expiresAt * 1000000

/-- A create that the client sends is read as it was written, and a machine that was created so is accepted. -/
def CreateAgrees (formats : Formats) (r : CreateOnHostRequest) : Prop :=
  ∀ body, createBody r = .ok body →
    (∃ d, decodeCreate body = some d ∧ d.Carries r) ∧
      ∀ m : Machine, m.AsRequested r → createMatches r (m.internalView formats)

def ForkAgrees (formats : Formats) (toISOString : ℤ → String) (parseDate parseTime : String → Option ℤ)
    (children : List ForkOnHostChild) : Prop :=
  ∀ body, forkBody toISOString children = .ok body →
    (∃ d, decodeFork body = some d ∧ d.Carries parseTime children) ∧
      ∀ ms : List Machine, List.Forall₂ Machine.AsChild ms children →
        forkMatches parseDate children (ms.map (Machine.internalView formats))

/-! ### The digest -/

section

variable {formats : Formats} {toISOString : ℤ → String} {parseDate parseTime : String → Option ℤ}
  {r : CreateOnHostRequest} {children : List ForkOnHostChild} {body : Json}

theorem truthy_some {s : Option String} (h : truthy s = true) : ∃ text, s = some text := by
  cases s with
  | none => cases h
  | some text => exact ⟨text, rfl⟩

theorem field_object_none {fields : List (String × Option Json)} {name : String} (h : name ∉ fields.map Prod.fst) :
    (object fields).field name = none := by
  refine List.lookup_eq_none_iff.mpr fun f hf => ?_
  obtain ⟨g, hg, hmap⟩ := List.mem_filterMap.mp hf
  obtain ⟨value, -, rfl⟩ := Option.map_eq_some_iff.mp hmap
  have hne : name ≠ g.1 := fun heq => h (heq ▸ List.mem_map_of_mem hg)
  simpa using hne

/-- The body of a create, and every child of the body of a fork, names a digest that the host has no field for. -/
theorem createBody_digest (hbody : createBody r = .ok body) :
    ∃ digest entries, body = .obj entries ∧ ("source_sha256", Json.str digest) ∈ entries := by
  unfold createBody at hbody
  split at hbody
  · cases hbody
  · rename_i hbound
    rw [Bool.not_eq_true', Bool.not_eq_false, CreateOnHostRequest.bound, Bool.and_eq_true] at hbound
    obtain ⟨digest, hdigest⟩ := truthy_some hbound.2
    cases hbody
    refine ⟨digest, _, rfl, List.mem_filterMap.mpr ⟨("source_sha256", some (.str digest)), ?_, rfl⟩⟩
    rw [hdigest]
    simp

theorem fieldOf_create : fieldOf internalCreateRequestFields "source_sha256" = none := by
  decide +kernel

theorem fieldOf_forkChild : fieldOf internalForkChildRequestFields "source_sha256" = none := by
  decide +kernel

theorem decodeCreate_fails (hbody : createBody r = .ok body) : decodeCreate body = none := by
  obtain ⟨digest, entries, rfl, hmem⟩ := createBody_digest hbody
  exact decodeStruct_unknown fieldOf_create hmem .zero

theorem decodeForkChild_fails {c : ForkOnHostChild} (hbound : c.bound = true) :
    decodeForkChild (forkChildJson toISOString c) = none := by
  rw [ForkOnHostChild.bound, Bool.and_eq_true] at hbound
  obtain ⟨digest, hdigest⟩ := truthy_some hbound.2
  have hmem : ("source_sha256", some (Json.str digest)) ∈
      [("lease_id", some (Json.str c.leaseId)), ("lease_generation", some (numberJson (orOne c.leaseGeneration))),
        ("expires_at", some (.str (toISOString c.expiresAt))), ("vcpus", some (numberJson c.resources.vcpus)),
        ("memory_mb", some (numberJson c.resources.memoryMb)), ("disk_mb", some (numberJson c.resources.diskMb)),
        ("metadata", some (recordJson c.metadata)), ("runtime_cohort_id", c.runtimeCohortId.map .str),
        ("source_sha256", c.sourceSha256.map .str)] := by
    rw [hdigest]
    simp
  exact decodeStruct_unknown fieldOf_forkChild (List.mem_filterMap.mpr ⟨_, hmem, rfl⟩) _

theorem forkBody_ok (hbody : forkBody toISOString children = .ok body) :
    (∀ c ∈ children, c.bound = true) ∧ body = .obj [("children", .arr (children.map (forkChildJson toISOString)))] := by
  unfold forkBody at hbody
  split at hbody
  · cases hbody
  · rename_i hbound
    cases hbody
    refine ⟨fun c hc => ?_, rfl⟩
    by_contra hno
    exact hbound (List.any_eq_true.mpr ⟨c, hc, by simpa using hno⟩)

theorem mapM_head_none {A B : Type} {f : A → Option B} {a : A} {l : List A} (h : f a = none) :
    (a :: l).mapM f = none := by
  rw [List.mapM_cons, h]
  rfl

theorem decodeFork_fails {c : ForkOnHostChild} {rest : List ForkOnHostChild} (hbound : c.bound = true) :
    decodeFork (.obj [("children", .arr ((c :: rest).map (forkChildJson toISOString)))]) = none := by
  have hitems : ((c :: rest).map (forkChildJson toISOString)).mapM decodeForkChild = none := by
    rw [List.map_cons]
    exact mapM_head_none (decodeForkChild_fails hbound)
  have hfield : fieldOf internalForkRequestFields "children" =
      some (setStructs decodeForkChild fun r l => { r with children := l }) := rfl
  show ([_] : List (String × Json)).foldlM (decodeEntry internalForkRequestFields) _ = none
  rw [List.foldlM_cons, decodeEntry, hfield, Option.bind_some, setStructs, hitems]
  rfl

theorem internalView_digest (m : Machine) : textAt (m.internalView formats) ["source_sha256"] = none := by
  have hkeys : "source_sha256" ∉ ["id", "status", "mode", "boot_ms", "template", "display", "created_at", "started_at",
      "ready", "ready_at", "expires_at", "persistent", "parent", "lease_id", "lease_generation", "metadata", "resources",
      "network_policy"] := by decide
  have hfield : (m.internalView formats).field "source_sha256" = none := field_object_none hkeys
  rw [textAt, at?, List.foldlM_cons, hfield]
  rfl

theorem createMatches_fails (hbound : r.bound = true) (m : Machine) :
    createMatches r (m.internalView formats) = false := by
  rw [CreateOnHostRequest.bound, Bool.and_eq_true] at hbound
  obtain ⟨digest, hdigest⟩ := truthy_some hbound.2
  have hnot : decide (textAt (m.internalView formats) ["source_sha256"] = r.sourceSha256) = false := by
    rw [internalView_digest, hdigest]
    rfl
  rw [createMatches, hnot, Bool.and_false, Bool.false_and]

/-- The first machine of the answer does not name the digest that its child asks for. -/
theorem forkChildMatches_fails (hbound : ∀ c ∈ children, c.bound = true) (observed hostIds : List String) (m : Machine) :
    forkChildMatches parseDate children observed hostIds (m.internalView formats) = none := by
  cases hrun : forkChildMatches parseDate children observed hostIds (m.internalView formats) with
  | none => rfl
  | some names =>
    simp only [forkChildMatches, Option.bind_eq_bind, Option.bind_eq_some_iff, Option.guard_eq_some', exists_const] at hrun
    obtain ⟨id, -, publicMachineId, -, -, child, hchild, -, -, -, -, -, -, -, -, hdigest, -⟩ := hrun
    have hmem : child ∈ children := List.mem_reverse.mp (List.mem_of_find?_eq_some hchild)
    have hb := hbound child hmem
    rw [ForkOnHostChild.bound, Bool.and_eq_true] at hb
    obtain ⟨digest, hsome⟩ := truthy_some hb.2
    rw [internalView_digest, hsome] at hdigest
    cases hdigest

theorem forkMatches_fails (hbound : ∀ c ∈ children, c.bound = true) (hchildren : children ≠ []) (ms : List Machine) :
    forkMatches parseDate children (ms.map (Machine.internalView formats)) = false := by
  cases ms with
  | nil =>
    have hlength : ¬ ([] : List Json).length = children.length := fun h =>
      hchildren (List.length_eq_zero_iff.mp h.symm)
    rw [List.map_nil, forkMatches, decide_eq_false hlength, Bool.false_and]
  | cons m ms =>
    rw [List.map_cons, forkMatches, forkRest, forkChildMatches_fails hbound, Bool.and_false]

theorem createAgrees_iff : CreateAgrees formats r ↔ r.bound = false := by
  constructor
  · intro hagrees
    by_contra hbound
    have hbody : ∃ body, createBody r = .ok body := by
      rw [createBody, Bool.eq_true_of_not_eq_false hbound]
      exact ⟨_, rfl⟩
    obtain ⟨body, hbody⟩ := hbody
    obtain ⟨d, hdecoded, -⟩ := (hagrees body hbody).1
    rw [decodeCreate_fails hbody] at hdecoded
    cases hdecoded
  · intro hbound body hbody
    rw [createBody, hbound] at hbody
    cases hbody

theorem forkBody_bound (hbound : ∀ c ∈ children, c.bound = true) :
    forkBody toISOString children = .ok (.obj [("children", .arr (children.map (forkChildJson toISOString)))]) := by
  rw [forkBody, if_neg]
  · rfl
  · intro hany
    obtain ⟨c, hc, hcb⟩ := List.any_eq_true.mp hany
    rw [hbound c hc] at hcb
    cases hcb

theorem forkAgrees_nil : ForkAgrees formats toISOString parseDate parseTime [] := by
  intro body hbody
  obtain ⟨-, rfl⟩ := forkBody_ok hbody
  refine ⟨⟨⟨[], "", ""⟩, rfl, .nil, fun c hc => absurd hc List.not_mem_nil⟩, fun ms hms => ?_⟩
  cases hms
  rfl

theorem forkAgrees_iff :
    ForkAgrees formats toISOString parseDate parseTime children ↔ (∃ c ∈ children, c.bound = false) ∨ children = [] := by
  constructor
  · intro hagrees
    by_contra hno
    rw [not_or] at hno
    obtain ⟨hall, hchildren⟩ := hno
    have hbound : ∀ c ∈ children, c.bound = true := fun c hc =>
      Bool.eq_true_of_not_eq_false fun hfalse => hall ⟨c, hc, hfalse⟩
    obtain ⟨d, hdecoded, -⟩ := (hagrees _ (forkBody_bound hbound)).1
    cases children with
    | nil => exact hchildren rfl
    | cons c rest =>
      rw [decodeFork_fails (hbound c List.mem_cons_self)] at hdecoded
      cases hdecoded
  · rintro (⟨c, hc, hcb⟩ | rfl)
    · intro body hbody
      have hb := (forkBody_ok hbody).1 c hc
      rw [hcb] at hb
      cases hb
    · exact forkAgrees_nil

end

/-- **The wire.**  A create that the client sends is never read by the host, nor is its answer accepted, and of the forks
only that of no children: the digest of the source has another name on either side. -/
theorem wire_agrees (formats : Formats) (toISOString : ℤ → String) (parseDate parseTime : String → Option ℤ)
    (r : CreateOnHostRequest) (children : List ForkOnHostChild) :
    (CreateAgrees formats r ↔ r.bound = false) ∧
      (∀ m : Machine, r.bound = true → createMatches r (m.internalView formats) = false) ∧
      (ForkAgrees formats toISOString parseDate parseTime children ↔ (∃ c ∈ children, c.bound = false) ∨ children = []) ∧
      (∀ ms : List Machine, (∀ c ∈ children, c.bound = true) → children ≠ [] →
        forkMatches parseDate children (ms.map (Machine.internalView formats)) = false) :=
  ⟨createAgrees_iff, fun m hbound => createMatches_fails hbound m, forkAgrees_iff, fun ms hbound hchildren =>
    forkMatches_fails hbound hchildren ms⟩

def sampleRequest : CreateOnHostRequest :=
  ⟨"lease_1", some (some 1), some "python", none, some 300, ⟨some 1, some 512, some 1024⟩, ⟨"off", some [], some []⟩,
    [("public_machine_id", "m_1")], some "cohort_1", some "digest_1"⟩

def sampleChild : ForkOnHostChild :=
  ⟨"lease_1", some (some 1), 300000, ⟨"off", some [], some []⟩, ⟨some 1, some 512, some 1024⟩,
    [("public_machine_id", "m_1")], some "cohort_1", some "digest_1"⟩

def sampleFormats : Formats := ⟨fun _ => "", fun _ => "", id⟩

/-- A plain create and a fork of one child are sent, and not read. -/
theorem create_not_read :
    (∃ body, createBody sampleRequest = .ok body ∧ decodeCreate body = none) ∧
      ¬ CreateAgrees sampleFormats sampleRequest ∧
      ¬ ForkAgrees sampleFormats (fun _ => "") (fun _ => none) (fun _ => none) [sampleChild] := by
  have hcreate : ∃ body, createBody sampleRequest = .ok body := ⟨_, rfl⟩
  have hfork : ∃ body, forkBody (fun _ => "") [sampleChild] = .ok body := ⟨_, rfl⟩
  obtain ⟨body, hbody⟩ := hcreate
  obtain ⟨body', hbody'⟩ := hfork
  refine ⟨⟨body, hbody, decodeCreate_fails hbody⟩, fun hagrees => ?_, fun hagrees => ?_⟩
  · obtain ⟨d, hdecoded, -⟩ := (hagrees body hbody).1
    rw [decodeCreate_fails hbody] at hdecoded
    cases hdecoded
  · obtain ⟨d, hdecoded, -⟩ := (hagrees body' hbody').1
    obtain ⟨-, rfl⟩ := forkBody_ok hbody'
    rw [decodeFork_fails rfl] at hdecoded
    cases hdecoded

end Nehemiah.HostWire
