import Mathlib.Data.Rat.Floor
import Mathlib.Algebra.Order.Floor.Ring
import Mathlib.Data.List.Basic
import Mathlib.Tactic.Linarith

/-!
# The requests of the managed client

Every operation of the client on the cloud is built on `requestDetailed`, which sends one request, and sends it again
after a transient failure where the operation asks for that.  What the server answers to each attempt is arbitrary: a
status with any headers and any body, or nothing.

* `Outcome.SafeToRetry` holds of every call but a reconnection (`call_safe`): a request is repeated as it was, within the
  bounds of the client, and posted more than once only with a key or to issue a session;
* `Outcome.Reconnects` says what a reconnection repeats (`reconnect_spec`): whole connections, each with a session of its
  own, after pauses that double without a bound;
* `Outcome.Recoverable` and `Outcome.RecoverableFork`: which failures tell the key that was sent;
* `calls_recoverable` puts them together.

The platform (numbers, URLs, JSON) and the schemas are parameters.  The state that a channel checks before it reconnects
is in `Sdk.Channel`; time, redirects and the bodies of local-target calls are outside the model.
-/

namespace Nehemiah.Sdk.Requests

/-! ### Requests and answers -/

abbrev Bytes := List UInt8

inductive Json
  | null
  | bool (b : Bool)
  | num (q : ℚ)
  | str (s : String)
  | arr (items : List Json)
  | obj (fields : List (String × Json))

def Json.field (name : String) : Json → Option Json
  | .obj fields => fields.lookup name
  | _ => none

def Json.text : Json → Option String
  | .str s => some s
  | _ => none

def Json.number : Json → Option ℚ
  | .num q => some q
  | _ => none

/-- An object without the fields that are undefined. -/
def object (fields : List (String × Option Json)) : Json :=
  .obj (fields.filterMap fun f => f.2.map fun value => (f.1, value))

/-- `ws` is the opening of a socket. -/
inductive Method
  | get
  | post
  | delete
  | ws
  deriving DecidableEq

/-- A path of the control plane, or a whole address at a gateway. -/
inductive Endpoint
  | api (path : String)
  | gateway (url : String)
deriving DecidableEq

inductive Payload
  | json (value : Json)
  | bytes (data : Bytes)

structure Request where
  method : Method
  endpoint : Endpoint
  headers : List (String × String)
  body : Option Payload

def Request.idempotencyKey (r : Request) : Option String := r.headers.lookup "idempotency-key"

/-- What one attempt brings: `lost` when no response came, or not in time. The body of a response is `none` when it
could not be read. -/
inductive Answer
  | lost (cause : String)
  | response (status : ℕ) (headers : String → Option String) (body : Option Bytes)

structure RateLimit where
  limit : Option ℚ
  remaining : Option ℚ
  resetAt : Option String
  retryAfterSeconds : Option ℚ

structure ResponseMetadata where
  requestId : Option String
  rateLimit : Option RateLimit
  idempotencyReplayed : Bool

structure ProblemDetails where
  type : String
  title : String
  status : ℚ
  detail : String
  requestId : Option String

structure PendingForkOperation where
  id : String
  state : String
  idempotencyKey : String
  sourceMachineId : String
  requested : ℚ

/-- The errors of a call; `M` is a machine. -/
inductive NehemiahError (M : Type)
  | requestError (method : Method) (path : String) (cause : String) (idempotencyKey : Option String)
  | responseError (status : ℕ) (body : String) (problem : Option ProblemDetails) (metadata : ResponseMetadata)
      (idempotencyKey : Option String)
  | notSupported (operation : String) (detail : String) (status : Option ℕ) (problem : Option ProblemDetails)
  | forkPending (message : String) (operation : PendingForkOperation) (machines : List M) (metadata : ResponseMetadata)

structure Detailed (A : Type) where
  value : A
  metadata : ResponseMetadata
  status : ℕ

/-- What a call has sent, the delays before its attempts in milliseconds, and how it ended. -/
structure Outcome (M A : Type) where
  sent : List Request
  delays : List ℕ
  result : Except (NehemiahError M) A

namespace Outcome

variable {M A B : Type}

def fail (e : NehemiahError M) : Outcome M A := ⟨[], [], .error e⟩

def succeed (a : A) : Outcome M A := ⟨[], [], .ok a⟩

def flatMap (o : Outcome M A) (f : A → Outcome M B) : Outcome M B :=
  match o.result with
  | .ok a => ⟨o.sent ++ (f a).sent, o.delays ++ (f a).delays, (f a).result⟩
  | .error e => ⟨o.sent, o.delays, .error e⟩

def map (o : Outcome M A) (f : A → B) : Outcome M B := o.flatMap fun a => succeed (f a)

def mapError (o : Outcome M A) (f : NehemiahError M → NehemiahError M) : Outcome M A :=
  match o.result with
  | .ok _ => o
  | .error e => { o with result := .error (f e) }

end Outcome

/-! ### The forks of a machine, and sessions -/

/-- A pending fork, as the server describes it. -/
structure PendingForkResponse (M : Type) where
  operation : PendingForkOperation
  machines : List M
  requested : ℚ

inductive SingleForkResponse (M : Type)
  | machine (m : M)
  | pending (response : PendingForkResponse M)

inductive BatchForkResponse (M : Type)
  | machines (l : List M)
  | pending (response : PendingForkResponse M)

structure SessionResponse where
  id : String
  token : String
  expiresIn : ℚ
  gatewayUrl : String
  previewUrl : Option String

structure GatewaySession where
  id : String
  token : String
  expiresIn : ℚ
  gatewayUrl : String
  previewUrl : Option String
  metadata : ResponseMetadata

structure Url where
  protocol : String
  username : String
  password : String
  search : String
  hash : String
  pathname : String
  origin : String

/-- The platform and the schemas that decode a body. -/
structure Runtime (M : Type) where
  number : String → Option ℚ
  decodeText : Bytes → String
  utf8Length : String → ℕ
  parse : String → Option Json
  encodeURIComponent : String → String
  searchParams : List (String × String) → String
  url : String → Option Url
  resolve : String → String → String
  machineSchema : Json → Option M
  machineListSchema : Json → Option (List M × Option String)
  singleForkResponseSchema : Json → Option (SingleForkResponse M)
  batchForkResponseSchema : Json → Option (BatchForkResponse M)
  gatewaySessionSchema : Json → Option SessionResponse
  managedTemplateListSchema : Json → Option Json
  execResultSchema : Json → Option Json
  fileUploadResultSchema : Json → Option Json

/-! ### The client -/

structure NehemiahClientOptions where
  credential : Option String
  project : Option String
  region : Option String
  timeoutMs : Option ℚ
  maxRetries : Option ℚ
  retryDelayMs : Option ℚ

structure Client where
  credential : Option String
  project : Option String
  region : Option String
  timeoutMs : ℕ
  maxRetries : ℕ
  retryDelayMs : ℕ

/-- A value that is absent or not finite is `none`. -/
def positiveInteger (value : Option ℚ) (fallback : ℕ) : ℕ :=
  match value with
  | some q => if 0 < q then ⌊q⌋.toNat else fallback
  | none => fallback

def nonNegativeInteger (value : Option ℚ) (fallback : ℕ) : ℕ :=
  match value with
  | some q => if 0 ≤ q then ⌊q⌋.toNat else fallback
  | none => fallback

def make (options : NehemiahClientOptions) : Client where
  credential := options.credential
  project := options.project
  region := options.region
  timeoutMs := positiveInteger options.timeoutMs 30000
  maxRetries := nonNegativeInteger options.maxRetries 2
  retryDelayMs := positiveInteger options.retryDelayMs 250

section requests

variable {M A : Type} (rt : Runtime M) (c : Client)

def headerNumber (headers : String → Option String) (names : List String) : Option ℚ :=
  names.findSome? fun name => (headers name).bind rt.number

def responseMetadata (headers : String → Option String) : ResponseMetadata :=
  let limit := headerNumber rt headers ["ratelimit-limit", "x-ratelimit-limit"]
  let remaining := headerNumber rt headers ["ratelimit-remaining", "x-ratelimit-remaining"]
  let resetAt := (headers "ratelimit-reset").or (headers "x-ratelimit-reset")
  let retryAfterSeconds := headerNumber rt headers ["retry-after"]
  { requestId := headers "x-request-id"
    rateLimit :=
      if limit.isSome || remaining.isSome || resetAt.isSome || retryAfterSeconds.isSome then
        some ⟨limit, remaining, resetAt, retryAfterSeconds⟩
      else none
    idempotencyReplayed := headers "idempotency-replayed" == some "true" }

def parseProblem (body : String) (responseStatus : ℕ) : Option ProblemDetails := do
  let value ← rt.parse body
  let type ← (value.field "type").bind Json.text
  let title ← (value.field "title").bind Json.text
  let detail ← (value.field "detail").bind Json.text
  let status ← (value.field "status").bind Json.number
  return ⟨type, title, if status = 0 then responseStatus else status, detail, (value.field "request_id").bind Json.text⟩

structure RequestOptions where
  body : Option Json
  idempotencyKey : Option String
  retryable : Bool

/-- The request that every attempt of a call sends. -/
def request (method : Method) (path : String) (o : RequestOptions) : Request where
  method := method
  endpoint := .api path
  headers := ("accept", "application/json") ::
    (c.credential.map fun credential => ("authorization", "Bearer " ++ credential)).toList ++
    (o.idempotencyKey.map fun key => ("idempotency-key", key)).toList ++
    (o.body.map fun _ => ("content-type", "application/json")).toList
  body := o.body.map .json

def ok (status : ℕ) : Bool := 200 ≤ status && status ≤ 299

/-- A body that a schema decodes; without a schema every body will do. -/
def json (schema : Json → Option A) (body : Option Bytes) : Option A :=
  ((body.map rt.decodeText).bind rt.parse).bind schema

def ignored (_ : Option Bytes) : Option Unit := some ()

/-- How one attempt ends. -/
def once (method : Method) (path : String) (read : Option Bytes → Option A) (idempotencyKey : Option String) :
    Answer → Except (NehemiahError M) (Detailed A)
  | .lost cause => .error (.requestError method path cause idempotencyKey)
  | .response status headers body =>
    let metadata := responseMetadata rt headers
    if ok status then
      match read body with
      | some value => .ok ⟨value, metadata, status⟩
      | none => .error (.requestError method path "the body cannot be decoded" idempotencyKey)
    else
      let errorBody := (body.map rt.decodeText).getD ""
      .error (.responseError status errorBody (parseProblem rt errorBody status) metadata idempotencyKey)

def isTransient : NehemiahError M → Bool
  | .requestError .. => true
  | .responseError status .. => status == 408 || status == 425 || status == 429 || 500 ≤ status
  | _ => false

def retryAfterSeconds : NehemiahError M → Option ℚ
  | .responseError _ _ _ metadata _ => metadata.rateLimit.bind (·.retryAfterSeconds)
  | _ => none

def serverDelayMs (error : NehemiahError M) : ℕ :=
  match retryAfterSeconds error with
  | some seconds => if 0 ≤ seconds then ⌈seconds * 1000⌉.toNat else 0
  | none => 0

def delayMs (attempt : ℕ) (error : NehemiahError M) : ℕ :=
  min 60000 (max (min 60000 (c.retryDelayMs * 2 ^ attempt)) (serverDelayMs error))

/-- The attempts from number `attempt` on, of which `left` may be followed by another. -/
def retry (send : Request) (attempted : ℕ → Except (NehemiahError M) (Detailed A)) : ℕ → ℕ → Outcome M (Detailed A)
  | 0, attempt => ⟨[send], [], attempted attempt⟩
  | left + 1, attempt =>
    match attempted attempt with
    | .ok d => ⟨[send], [], .ok d⟩
    | .error e =>
      if isTransient e then
        let rest := retry send attempted left (attempt + 1)
        ⟨send :: rest.sent, delayMs c attempt e :: rest.delays, rest.result⟩
      else ⟨[send], [], .error e⟩

def requestDetailed (method : Method) (path : String) (read : Option Bytes → Option A) (o : RequestOptions)
    (answers : ℕ → Answer) : Outcome M (Detailed A) :=
  retry c (request c method path o) (fun n => once rt method path read o.idempotencyKey (answers n))
    (if o.retryable then c.maxRetries else 0) 0

def requestValue (method : Method) (path : String) (read : Option Bytes → Option A) (o : RequestOptions)
    (answers : ℕ → Answer) : Outcome M A :=
  (requestDetailed rt c method path read o answers).map (·.value)

def unsupported (operation detail : String) : Outcome M A := .fail (.notSupported operation detail none none)

/-! ### Machines -/

inductive MachineSize
  | small
  | medium
  | large

structure MachineResources where
  vcpus : Option ℚ
  memoryMb : Option ℚ
  diskMb : Option ℚ

def sizeResources : MachineSize → MachineResources
  | .small => ⟨some 1, some 512, some 5120⟩
  | .medium => ⟨some 2, some 2048, some 10240⟩
  | .large => ⟨some 4, some 4096, some 20480⟩

inductive NetworkMode
  | off
  | allowlist
deriving DecidableEq

structure NetworkPolicy where
  mode : NetworkMode
  hostnames : Option (List String)
  cidrs : Option (List String)

def NetworkPolicy.json (p : NetworkPolicy) : Json :=
  object [("mode", some (.str (match p.mode with | .off => "off" | .allowlist => "allowlist"))),
    ("hostnames", p.hostnames.map fun l => .arr (l.map .str)), ("cidrs", p.cidrs.map fun l => .arr (l.map .str))]

structure CreateMachineOptions where
  idempotencyKey : Option String
  template : Option String
  templateId : Option String
  ociReference : Option String
  ttlSeconds : Option ℚ
  project : Option String
  region : Option String
  architecture : Option String
  size : Option MachineSize
  resources : Option MachineResources
  networkPolicy : Option NetworkPolicy
  net : Option Bool
  volume : Option String

def CreateMachineOptions.body (opts : CreateMachineOptions) : Json :=
  let selected := opts.size.map sizeResources
  object [("project_id", (opts.project.or c.project).map .str), ("region", (opts.region.or c.region).map .str),
    ("architecture", opts.architecture.map .str), ("template", opts.template.map .str),
    ("template_id", opts.templateId.map .str), ("network_policy", opts.networkPolicy.map NetworkPolicy.json),
    ("ttl_seconds", opts.ttlSeconds.map .num),
    ("vcpus", ((opts.resources.bind (·.vcpus)).or (selected.bind (·.vcpus))).map .num),
    ("memory_mb", ((opts.resources.bind (·.memoryMb)).or (selected.bind (·.memoryMb))).map .num),
    ("disk_mb", ((opts.resources.bind (·.diskMb)).or (selected.bind (·.diskMb))).map .num)]

/-- `nextKey` is the key that the client makes for this call. -/
def createMachine (opts : CreateMachineOptions) (nextKey : String) (answers : ℕ → Answer) : Outcome M M :=
  if opts.net.isSome || opts.volume.isSome then
    unsupported "createMachine local options"
      "net and volume are host-local options and are not accepted by the cloud control plane."
  else if opts.ociReference.isSome then
    unsupported "createMachine"
      "Managed OCI image imports are not implemented. Use a built-in template or templateId."
  else if opts.networkPolicy.any (·.mode != .off) then
    unsupported "createMachine managed egress"
      "Managed guest egress is disabled until hard organization, project, and host-network traffic quotas are enforced."
  else
    requestValue rt c .post "/v1/machines" (json rt rt.machineSchema)
      ⟨some (opts.body c), some (opts.idempotencyKey.getD nextKey), true⟩ answers

def machinePath (id : String) : String := "/v1/machines/" ++ rt.encodeURIComponent id

def extendMachine (id : String) (ttlSeconds : Option ℚ) (idempotencyKey : Option String) (nextKey : String)
    (answers : ℕ → Answer) : Outcome M M :=
  requestValue rt c .post (machinePath rt id ++ "/extend") (json rt rt.machineSchema)
    ⟨some (object [("ttl_seconds", ttlSeconds.map .num)]), some (idempotencyKey.getD nextKey), true⟩ answers

def notSupportedFork (operation : String) : NehemiahError M → NehemiahError M
  | .responseError status body problem metadata key =>
    if status = 501 ∨ problem.any (·.title = "not_supported") then
      .notSupported operation "The configured control plane does not expose POST /v1/machines/\x7bid\x7d/fork."
        (some status) problem
    else .responseError status body problem metadata key
  | e => e

def cloudFork (effect : Outcome M A) (operation : String) : Outcome M A := effect.mapError (notSupportedFork operation)

/-- The pending fork is the one that was asked for. -/
def PendingForkResponse.answers (response : PendingForkResponse M) (id : String) (wanted : ℕ) (idempotencyKey : String) :
    Prop :=
  response.operation.id ≠ "" ∧ response.operation.idempotencyKey = idempotencyKey ∧
    response.operation.sourceMachineId = id ∧ response.operation.requested = wanted ∧ response.requested = wanted

instance (response : PendingForkResponse M) (id : String) (wanted : ℕ) (idempotencyKey : String) :
    Decidable (response.answers id wanted idempotencyKey) := inferInstanceAs (Decidable (_ ∧ _ ∧ _ ∧ _ ∧ _))

def pendingFork (response : PendingForkResponse M) (id : String) (wanted : ℕ) (idempotencyKey : String)
    (metadata : ResponseMetadata) (path : String) : Outcome M A :=
  if response.answers id wanted idempotencyKey then
    .fail (.forkPending
      ("Managed fork " ++ response.operation.id ++ " is " ++ response.operation.state ++
        ". Retry with the same idempotency key.")
      response.operation response.machines metadata)
  else .fail (.requestError .post path "managed fork pending response did not match the requested operation" none)

def forkPath (id : String) : String := machinePath rt id ++ "/fork"

def singleFork (id key path : String) (d : Detailed (SingleForkResponse M)) : Outcome M M :=
  match d.value with
  | .pending response =>
    if d.status = 202 then pendingFork response id 1 key d.metadata path
    else .fail (.requestError .post path "managed fork pending response used a terminal HTTP status" none)
  | .machine m =>
    if d.status = 202 then
      .fail (.requestError .post path "managed fork 202 response omitted recovery operation data" none)
    else .succeed m

def branchMachine (id : String) (idempotencyKey : Option String) (nextKey : String) (answers : ℕ → Answer) :
    Outcome M M :=
  cloudFork ((requestDetailed rt c .post (forkPath rt id) (json rt rt.singleForkResponseSchema)
      ⟨some (object []), some (idempotencyKey.getD nextKey), true⟩ answers).flatMap
    (singleFork id (idempotencyKey.getD nextKey) (forkPath rt id))) "branchMachine"

def batchFork (id : String) (wanted : ℕ) (key path : String) (d : Detailed (BatchForkResponse M)) : Outcome M (List M) :=
  match d.value with
  | .pending response =>
    if d.status = 202 then pendingFork response id wanted key d.metadata path
    else .fail (.requestError .post path "managed fork pending response used a terminal HTTP status" none)
  | .machines l =>
    if d.status = 202 then
      .fail (.requestError .post path "managed fork 202 response omitted recovery operation data" none)
    else if l.length = wanted then .succeed l
    else .fail (.requestError .post path "managed fork response did not contain the entire requested batch" none)

/-- A count that is not finite is `none`. -/
def branchMachines (id : String) (count : Option ℚ) (idempotencyKey : Option String) (nextKey : String)
    (answers : ℕ → Answer) : Outcome M (List M) :=
  match count with
  | none => .fail (.requestError .post (forkPath rt id) "managed fork count must be an integer from 1 to 8" none)
  | some q =>
    if q.den ≠ 1 ∨ q < 1 ∨ 8 < q then
      .fail (.requestError .post (forkPath rt id) "managed fork count must be an integer from 1 to 8" none)
    else
      let wanted := q.num.toNat
      if wanted ≤ 1 then (branchMachine rt c id idempotencyKey nextKey answers).map fun machine => [machine]
      else
        cloudFork ((requestDetailed rt c .post (forkPath rt id) (json rt rt.batchForkResponseSchema)
            ⟨some (object [("count", some (.num wanted))]), some (idempotencyKey.getD nextKey), true⟩ answers).flatMap
          (batchFork id wanted (idempotencyKey.getD nextKey) (forkPath rt id))) "branchMachines"

/-! ### Sessions and files -/

inductive GatewayCapability
  | tty
  | vnc
  | agent
  | files
  | preview
deriving DecidableEq

def GatewayCapability.name : GatewayCapability → String
  | .tty => "tty"
  | .vnc => "vnc"
  | .agent => "agent"
  | .files => "files"
  | .preview => "preview"

structure GatewaySessionOptions where
  capabilities : Option (List GatewayCapability)
  port : Option ℚ
  ttlSeconds : Option ℚ

def GatewaySessionOptions.body (opts : GatewaySessionOptions) : Json :=
  object [("capabilities", opts.capabilities.map fun l => .arr (l.map (.str ·.name))), ("port", opts.port.map .num),
    ("ttl_seconds", opts.ttlSeconds.map .num)]

def sessionsPath (id : String) : String := machinePath rt id ++ "/sessions"

def dropTrailingSlashes (s : String) : String := .ofList (s.toList.reverse.dropWhile (· == '/')).reverse

def createSession (id : String) (opts : GatewaySessionOptions) (answers : ℕ → Answer) : Outcome M GatewaySession :=
  if opts.capabilities.any (·.contains .agent) then
    unsupported "createSession" ("Managed host-local LLM agents are unavailable. " ++
      "Run an agent inside the guest through exec, TTY, and file primitives.")
  else
    (requestDetailed rt c .post (sessionsPath rt id) (json rt rt.gatewaySessionSchema)
      ⟨some opts.body, none, true⟩ answers).map fun d =>
      ⟨d.value.id, d.value.token, d.value.expiresIn, dropTrailingSlashes d.value.gatewayUrl, d.value.previewUrl,
        d.metadata⟩

def getPreviewUrl (id : String) (port ttlSeconds : Option ℚ) (answers : ℕ → Answer) : Outcome M String :=
  (createSession rt c id ⟨some [.preview], port, ttlSeconds⟩ answers).flatMap fun session =>
    match session.previewUrl with
    | some url => .succeed url
    | none => .fail (.requestError .post (sessionsPath rt id) "gateway session did not include preview_url" none)

def validToken (token : String) : Bool :=
  1 ≤ token.length && token.length ≤ 4096 &&
    token.toList.all fun ch => ch.isAlphanum || ch == '.' || ch == '_' || ch == '~' || ch == '-'

def gatewayFileUrl (session : GatewaySession) (path : String) : Option String := do
  guard (session.expiresIn.den = 1 ∧ 1 ≤ session.expiresIn ∧ session.expiresIn ≤ 900 ∧ validToken session.token)
  let gateway ← rt.url session.gatewayUrl
  guard (gateway.protocol = "https:" ∧ gateway.username = "" ∧ gateway.password = "" ∧ gateway.search = "" ∧
    gateway.hash = "" ∧ (gateway.pathname = "" ∨ gateway.pathname = "/"))
  return rt.resolve path gateway.origin

structure FileTransferOptions where
  maximumBytes : Option ℚ
  timeoutMs : Option ℚ
  ttlSeconds : Option ℚ

structure NormalizedFileTransfer where
  maximumBytes : ℕ
  ttlSeconds : ℕ

def maxFileTransferBytes : ℕ := 16777216

def maxFileTransferTimeoutMs : ℕ := 900000

/-- A whole number from one to a bound. -/
def within (q : ℚ) (bound : ℕ) : Bool := q.den = 1 && 1 ≤ q && q ≤ bound

/-- The text of the error is the first bound that does not hold. -/
def normalizeFileTransfer (opts : FileTransferOptions) : Except String NormalizedFileTransfer :=
  let maximumBytes := opts.maximumBytes.getD maxFileTransferBytes
  let fileTimeoutMs := opts.timeoutMs.getD c.timeoutMs
  let ttlSeconds := opts.ttlSeconds.getD ((min 900 (max 30 (⌈fileTimeoutMs / 1000⌉ + 10)) : ℤ) : ℚ)
  if !within maximumBytes maxFileTransferBytes then
    .error "maximumBytes is outside the supported transfer bound"
  else if !within fileTimeoutMs maxFileTransferTimeoutMs then
    .error "timeoutMs is outside the supported transfer bound"
  else if !within ttlSeconds 900 then .error "ttlSeconds is outside the supported capability lifetime"
  else .ok ⟨maximumBytes.num.toNat, ttlSeconds.num.toNat⟩

def declaredLength (declared : String) : Bool :=
  declared == "0" || (declared.toList.all Char.isDigit && declared.toList.head?.any (· != '0'))

def boundedResponseBytes (headers : String → Option String) (body : Option Bytes) (maximumBytes : ℕ) : Option Bytes := do
  let bytes ← body
  match headers "content-length" with
  | none => guard (bytes.length ≤ maximumBytes)
  | some declared =>
    guard (declaredLength declared ∧ (rt.number declared).any (· ≤ (maximumBytes : ℚ)) ∧
      bytes.length ≤ maximumBytes ∧ rt.number declared = some (bytes.length : ℚ))
  return bytes

/-- One request to the gateway, whose answer is `answer`; without a valid session nothing is sent. -/
def fileResponse (method : Method) (path : String) (session : GatewaySession) (headers : List (String × String))
    (body : Option Payload) (decode : Bytes → Option A) (maximumBytes : ℕ) (gatewayPath : String) (answer : Answer) :
    Outcome M (Detailed A) :=
  match gatewayFileUrl rt session gatewayPath with
  | none => .fail (.requestError method path "gateway session credentials are invalid" none)
  | some endpoint =>
    ⟨[⟨method, .gateway endpoint, headers, body⟩], [],
      match answer with
      | .lost cause => .error (.requestError method path cause none)
      | .response status answered bytes =>
        let metadata := responseMetadata rt answered
        if ok status then
          match (boundedResponseBytes rt answered bytes maximumBytes).bind decode with
          | some value => .ok ⟨value, metadata, status⟩
          | none => .error (.requestError method path "the body cannot be decoded" none)
        else
          let errorBody := ((boundedResponseBytes rt answered bytes 65536).map rt.decodeText).getD ""
          .error (.responseError status errorBody (parseProblem rt errorBody status) metadata none)⟩

def validUploadName (value : String) : Bool :=
  value != "." && value != ".." && rt.utf8Length value ≤ 255 && !value.isEmpty &&
    value.toList.all fun ch => ch.isAlphanum || ch == '.' || ch == '_' || ch == '-'

def validRemotePath (value : String) : Bool :=
  value.toList.head? == some '/' && value != "/" && rt.utf8Length value ≤ 4096 &&
    (value.toList.all fun ch => 32 ≤ ch.toNat && ch.toNat != 127) &&
    (value.toList.tail.splitOn '/').all fun part => part != [] && part != ['.'] && part != ['.', '.']

def uploadFile (id name : String) (data : Bytes) (opts : FileTransferOptions) (answers : ℕ → Answer)
    (transferred : Answer) : Outcome M Json :=
  let path := machinePath rt id ++ "/upload"
  match normalizeFileTransfer c opts with
  | .error cause => .fail (.requestError .post path cause none)
  | .ok transfer =>
    if !validUploadName rt name then .fail (.requestError .post path "upload name or byte array is invalid" none)
    else if transfer.maximumBytes < data.length then
      .fail (.requestError .post path "upload exceeds maximumBytes" none)
    else
      (createSession rt c id ⟨some [.files], none, some transfer.ttlSeconds⟩ answers).flatMap fun session =>
        (fileResponse rt .post path session
          [("authorization", "Bearer " ++ session.token), ("content-type", "application/octet-stream"),
            ("content-length", toString data.length), ("x-filename", name)] (some (.bytes data))
          (fun bytes => (rt.parse (rt.decodeText bytes)).bind rt.fileUploadResultSchema) 16384 path transferred).map
            (·.value)

def downloadFile (id remotePath : String) (opts : FileTransferOptions) (answers : ℕ → Answer) (transferred : Answer) :
    Outcome M Bytes :=
  let path := machinePath rt id ++ "/download"
  match normalizeFileTransfer c opts with
  | .error cause => .fail (.requestError .get path cause none)
  | .ok transfer =>
    if !validRemotePath rt remotePath then .fail (.requestError .get path "remote path is invalid" none)
    else
      (createSession rt c id ⟨some [.files], none, some transfer.ttlSeconds⟩ answers).flatMap fun session =>
        (fileResponse rt .get path session
          [("authorization", "Bearer " ++ session.token), ("accept", "application/octet-stream")] none some
          transfer.maximumBytes (path ++ "?" ++ rt.searchParams [("path", remotePath)]) transferred).map (·.value)

/-! ### Channels -/

/-- What one connection of a channel meets: the answers of the control plane, and whether the socket opens. -/
structure Connection where
  answers : ℕ → Answer
  opened : Except String Unit

def socketUrl (endpoint : String) : String :=
  if endpoint.startsWith "https:" then "wss:" ++ .ofList (endpoint.toList.drop 6) else endpoint

/-- A session, and a socket to its gateway. -/
def connectOnce (id : String) (capability : GatewayCapability) (connection : Connection) : Outcome M Unit :=
  let path := machinePath rt id ++ "/" ++ capability.name
  (createSession rt c id ⟨some [capability], none, none⟩ connection.answers).flatMap fun session =>
    match gatewayFileUrl rt session path with
    | none => .fail (.requestError .ws path "gateway session credentials are invalid" none)
    | some endpoint =>
      ⟨[⟨.ws, .gateway (socketUrl endpoint), [("sec-websocket-protocol", "nehemiah.capability." ++ session.token)], none⟩],
        [], connection.opened.mapError fun cause => .requestError .ws path cause none⟩

structure ReconnectOptions where
  maxAttempts : Option ℚ
  delayMs : Option ℚ

/-- `Effect.retry` of the connections from number `attempt` on, of which `left` may be followed by another: any failure
is followed by a pause, which doubles each time. -/
def retryConnect (connect : ℕ → Outcome M Unit) (delayMs : ℕ) : ℕ → ℕ → Outcome M Unit
  | 0, attempt => connect attempt
  | left + 1, attempt =>
    match (connect attempt).result with
    | .ok () => connect attempt
    | .error _ =>
      let rest := retryConnect connect delayMs left (attempt + 1)
      ⟨(connect attempt).sent ++ rest.sent, (connect attempt).delays ++ delayMs * 2 ^ attempt :: rest.delays, rest.result⟩

/-- `BinaryChannel.reconnect`, of a channel that may reconnect. -/
def reconnect (id : String) (capability : GatewayCapability) (opts : ReconnectOptions) (connections : ℕ → Connection) :
    Outcome M Unit :=
  retryConnect (fun n => connectOnce rt c id capability (connections n)) (positiveInteger opts.delayMs 250)
    (nonNegativeInteger opts.maxAttempts 3) 0

/-! ### Every call -/

/-- The calls of the client on the cloud. The operations that the cloud does not offer are `unavailable`. -/
inductive Call
  | createMachine (opts : CreateMachineOptions) (nextKey : String)
  | listMachinesPage (project cursor : Option String) (limit : Option ℚ)
  | getMachine (id : String)
  | destroyMachine (id : String) (idempotencyKey : Option String)
  | branchMachine (id : String) (idempotencyKey : Option String) (nextKey : String)
  | branchMachines (id : String) (count : Option ℚ) (idempotencyKey : Option String) (nextKey : String)
  | listManagedTemplates (project : Option String)
  | deleteManagedTemplate (id : String) (project : Option String)
  | extendMachine (id : String) (ttlSeconds : Option ℚ) (idempotencyKey : Option String) (nextKey : String)
  | exec (id command : String) (timeoutSeconds : Option ℚ)
  | createSession (id : String) (opts : GatewaySessionOptions)
  | revokeSession (machineId sessionId : String)
  | uploadFile (id name : String) (data : Bytes) (opts : FileTransferOptions)
  | downloadFile (id remotePath : String) (opts : FileTransferOptions)
  | getPreviewUrl (id : String) (port ttlSeconds : Option ℚ)
  | connect (id : String) (capability : GatewayCapability)
  | reconnect (id : String) (capability : GatewayCapability) (opts : ReconnectOptions)
  | unavailable (operation detail : String)

def suffix (query : List (String × Option String)) : String :=
  match query.filterMap fun q => q.2.map fun value => (q.1, value) with
  | [] => ""
  | pairs => "?" ++ rt.searchParams pairs

def Outcome.void (o : Outcome M A) : Outcome M Unit := o.map fun _ => ()

/-- `answers` are the answers of the control plane to the attempts of the call, `transferred` is that of the gateway, and
`connections` are what the connections of a channel meet. -/
def Call.run (answers : ℕ → Answer) (transferred : Answer) (connections : ℕ → Connection) : Call → Outcome M Unit
  | .createMachine opts nextKey => (Requests.createMachine rt c opts nextKey answers).void
  | .listMachinesPage project cursor limit =>
    (requestDetailed rt c .get ("/v1/machines" ++ suffix rt [("project_id", project.or c.project), ("cursor", cursor),
      ("limit", limit.map fun q => toString ⌊q⌋)]) (json rt rt.machineListSchema) ⟨none, none, true⟩ answers).void
  | .getMachine id =>
    (requestValue rt c .get (machinePath rt id) (json rt rt.machineSchema) ⟨none, none, true⟩ answers).void
  | .destroyMachine id idempotencyKey =>
    requestValue rt c .delete (machinePath rt id) ignored ⟨none, idempotencyKey, true⟩ answers
  | .branchMachine id idempotencyKey nextKey => (Requests.branchMachine rt c id idempotencyKey nextKey answers).void
  | .branchMachines id count idempotencyKey nextKey =>
    (Requests.branchMachines rt c id count idempotencyKey nextKey answers).void
  | .listManagedTemplates project =>
    (requestValue rt c .get ("/v1/templates" ++ suffix rt [("project_id", project.or c.project)])
      (json rt rt.managedTemplateListSchema) ⟨none, none, true⟩ answers).void
  | .deleteManagedTemplate id project =>
    requestValue rt c .delete ("/v1/templates/" ++ rt.encodeURIComponent id ++
      suffix rt [("project_id", project.or c.project)]) ignored ⟨none, none, true⟩ answers
  | .extendMachine id ttlSeconds idempotencyKey nextKey =>
    (Requests.extendMachine rt c id ttlSeconds idempotencyKey nextKey answers).void
  | .exec id command timeoutSeconds =>
    (requestValue rt c .post (machinePath rt id ++ "/exec") (json rt rt.execResultSchema)
      ⟨some (object [("command", some (.str command)), ("timeout_seconds", timeoutSeconds.map .num)]), none, false⟩
      answers).void
  | .createSession id opts => (Requests.createSession rt c id opts answers).void
  | .revokeSession machineId sessionId =>
    requestValue rt c .delete (sessionsPath rt machineId ++ "/" ++ rt.encodeURIComponent sessionId) ignored
      ⟨none, none, true⟩ answers
  | .uploadFile id name data opts => (Requests.uploadFile rt c id name data opts answers transferred).void
  | .downloadFile id remotePath opts => (Requests.downloadFile rt c id remotePath opts answers transferred).void
  | .getPreviewUrl id port ttlSeconds => (Requests.getPreviewUrl rt c id port ttlSeconds answers).void
  | .connect id capability => connectOnce rt c id capability (connections 0)
  | .reconnect id capability opts => Requests.reconnect rt c id capability opts connections
  | .unavailable operation detail => unsupported operation detail

/-! ### Attempts -/

def attempts (sent : List Request) (method : Method) (endpoint : Endpoint) : List Request :=
  sent.filter fun r => r.method = method ∧ r.endpoint = endpoint

/-- A request is repeated as it was, not more often than the client may, and after a minute at most; what is posted more
than once has a key, unless it issues a session. -/
structure Outcome.SafeToRetry (o : Outcome M A) : Prop where
  keyed : ∀ endpoint, 1 < (attempts o.sent .post endpoint).length →
    (∀ r ∈ attempts o.sent .post endpoint, r.idempotencyKey.isSome) ∨ ∃ id, endpoint = .api (sessionsPath rt id)
  same : ∀ r ∈ o.sent, ∀ r' ∈ o.sent, r'.method = r.method → r'.endpoint = r.endpoint → r' = r
  bounded : ∀ method endpoint, (attempts o.sent method endpoint).length ≤ c.maxRetries + 1
  delayed : ∀ d ∈ o.delays, d ≤ 60000

/-- A channel is connected again: one request for a session is posted without a key, `maxAttempts + 1` times as often as
the client may, with as many sockets, and the pauses between the connections double without a bound. -/
structure Outcome.Reconnects (id : String) (maxAttempts pauseMs : ℕ) (o : Outcome M A) : Prop where
  same : ∃ r, r.endpoint = .api (sessionsPath rt id) ∧ r.idempotencyKey = none ∧
    ∀ r' ∈ o.sent, r' = r ∨ r'.method = .ws
  posted : (o.sent.filter (·.method = .post)).length ≤ (maxAttempts + 1) * (c.maxRetries + 1)
  sockets : (o.sent.filter (·.method = .ws)).length ≤ maxAttempts + 1
  delayed : ∀ d ∈ o.delays, d ≤ 60000 ∨ ∃ k < maxAttempts, d = pauseMs * 2 ^ k

/-- The outcome is that of attempts with one request. -/
def Outcome.Repeats (o : Outcome M A) (r : Request) (retryable : Bool) : Prop :=
  (∃ n ≤ if retryable then c.maxRetries else 0, o.sent = List.replicate (n + 1) r) ∧ ∀ d ∈ o.delays, d ≤ 60000

theorem delayMs_le (attempt : ℕ) (e : NehemiahError M) : delayMs c attempt e ≤ 60000 := min_le_left _ _

theorem retry_spec (send : Request) (attempted : ℕ → Except (NehemiahError M) (Detailed A)) (left attempt : ℕ) :
    ∃ n ≤ left, (retry c send attempted left attempt).sent = List.replicate (n + 1) send ∧
      (retry c send attempted left attempt).result = attempted (attempt + n) ∧
      ∀ d ∈ (retry c send attempted left attempt).delays, d ≤ 60000 := by
  induction left generalizing attempt with
  | zero => exact ⟨0, le_rfl, rfl, rfl, fun d hd => by cases hd⟩
  | succ left ih =>
    have hlast : ∀ result, attempted attempt = result →
        ∃ n ≤ left + 1, [send] = List.replicate (n + 1) send ∧ result = attempted (attempt + n) ∧
          ∀ d ∈ ([] : List ℕ), d ≤ 60000 :=
      fun result h => ⟨0, Nat.zero_le _, rfl, h.symm, fun d hd => by cases hd⟩
    simp only [retry]
    cases hattempt : attempted attempt with
    | ok d => exact hlast _ hattempt
    | error e =>
      simp only
      split
      · obtain ⟨n, hn, hsent, hresult, hdelays⟩ := ih (attempt + 1)
        refine ⟨n + 1, Nat.succ_le_succ hn, ?_, ?_, ?_⟩
        · rw [hsent]
          rfl
        · rw [hresult, Nat.add_right_comm, Nat.add_assoc]
        · intro d hd
          rcases List.mem_cons.mp hd with rfl | hd
          · exact delayMs_le c attempt e
          · exact hdelays d hd
      · exact hlast _ hattempt

theorem requestDetailed_spec (method : Method) (path : String) (read : Option Bytes → Option A) (o : RequestOptions)
    (answers : ℕ → Answer) :
    (requestDetailed rt c method path read o answers).Repeats c (request c method path o) o.retryable ∧
      ∃ n, (requestDetailed rt c method path read o answers).sent.length = n + 1 ∧
        (requestDetailed rt c method path read o answers).result =
          once rt method path read o.idempotencyKey (answers n) := by
  obtain ⟨n, hn, hsent, hresult, hdelays⟩ := retry_spec c (request c method path o)
    (fun n => once rt method path read o.idempotencyKey (answers n)) (if o.retryable then c.maxRetries else 0) 0
  refine ⟨⟨⟨n, hn, hsent⟩, hdelays⟩, n, ?_, ?_⟩
  · rw [requestDetailed, hsent, List.length_replicate]
  · rw [requestDetailed, hresult, Nat.zero_add]

end requests

section outcomes

variable {M A B : Type} {rt : Runtime M} {c : Client} {o : Outcome M A} {f : A → Outcome M B} {r : Request}
  {retryable : Bool}

theorem flatMap_silent (h : ∀ a, (f a).sent = [] ∧ (f a).delays = []) :
    (o.flatMap f).sent = o.sent ∧ (o.flatMap f).delays = o.delays := by
  simp only [Outcome.flatMap]
  split
  · rw [(h _).1, (h _).2, List.append_nil, List.append_nil]
    exact ⟨rfl, rfl⟩
  · exact ⟨rfl, rfl⟩

theorem map_silent {g : A → B} : (o.map g).sent = o.sent ∧ (o.map g).delays = o.delays :=
  flatMap_silent fun _ => ⟨rfl, rfl⟩

theorem void_silent : o.void.sent = o.sent ∧ o.void.delays = o.delays := map_silent

theorem mapError_silent {g : NehemiahError M → NehemiahError M} :
    (o.mapError g).sent = o.sent ∧ (o.mapError g).delays = o.delays := by
  simp only [Outcome.mapError]
  split <;> exact ⟨rfl, rfl⟩

theorem safe_congr {o' : Outcome M B} (h : o'.sent = o.sent ∧ o'.delays = o.delays) (hsafe : o.SafeToRetry rt c) :
    o'.SafeToRetry rt c := by
  obtain ⟨hsent, hdelays⟩ := h
  constructor
  · rw [hsent]
    exact hsafe.keyed
  · rw [hsent]
    exact hsafe.same
  · rw [hsent]
    exact hsafe.bounded
  · rw [hdelays]
    exact hsafe.delayed

theorem safe_silent (hsent : o.sent = []) (hdelays : o.delays = []) : o.SafeToRetry rt c := by
  constructor
  · intro endpoint h
    rw [hsent] at h
    exact absurd h (Nat.not_lt_zero _)
  · intro r hr
    rw [hsent] at hr
    cases hr
  · intro method endpoint
    rw [hsent]
    exact Nat.zero_le _
  · intro d hd
    rw [hdelays] at hd
    cases hd

/-- Only a request that the operation lets be repeated is sent twice. -/
theorem Outcome.Repeats.safe (h : o.Repeats c r retryable)
    (hkey : retryable = true → r.method = .post → r.idempotencyKey.isSome ∨ ∃ id, r.endpoint = .api (sessionsPath rt id)) :
    o.SafeToRetry rt c := by
  obtain ⟨⟨n, hn, hsent⟩, hdelays⟩ := h
  have hmem : ∀ {r'}, r' ∈ o.sent → r' = r := fun hr => List.eq_of_mem_replicate (hsent ▸ hr)
  have hcount : ∀ method endpoint, (attempts o.sent method endpoint).length ≤ n + 1 := by
    intro method endpoint
    refine (List.length_filter_le _ _).trans ?_
    rw [hsent, List.length_replicate]
  constructor
  · intro endpoint hmany
    obtain ⟨r', hr'⟩ := List.exists_mem_of_length_pos (Nat.zero_lt_of_lt hmany)
    obtain ⟨hsentR, hposted⟩ := List.mem_filter.mp hr'
    rw [hmem hsentR] at hposted
    obtain ⟨hpost, hendpoint⟩ := of_decide_eq_true hposted
    have hretryable : retryable = true := by
      cases retryable with
      | true => rfl
      | false =>
        have hone := hcount .post endpoint
        simp only [Bool.false_eq_true, if_false] at hn
        omega
    rcases hkey hretryable hpost with hkey | ⟨id, hid⟩
    · refine .inl fun r'' hr'' => ?_
      rw [hmem (List.mem_filter.mp hr'').1]
      exact hkey
    · exact .inr ⟨id, hendpoint ▸ hid⟩
  · intro r₁ h₁ r₂ h₂ _ _
    rw [hmem h₁, hmem h₂]
  · intro method endpoint
    refine (hcount method endpoint).trans (Nat.succ_le_succ (hn.trans ?_))
    split
    · exact le_rfl
    · exact Nat.zero_le _
  · exact hdelays

/-- One more request, to an address of its own. -/
theorem safe_append {o' : Outcome M B} {extra : List Request} (hsafe : o.SafeToRetry rt c)
    (hsent : o'.sent = o.sent ++ extra) (hdelays : o'.delays = o.delays)
    (hextra : extra = [] ∨ ∃ r, extra = [r] ∧ ∀ r' ∈ o.sent, r'.endpoint ≠ r.endpoint) : o'.SafeToRetry rt c := by
  rcases hextra with rfl | ⟨r, rfl, hnew⟩
  · exact safe_congr ⟨hsent.trans (List.append_nil _), hdelays⟩ hsafe
  · have hattempts : ∀ method endpoint, attempts o'.sent method endpoint = attempts o.sent method endpoint ∨
        attempts o'.sent method endpoint = [r] := by
      intro method endpoint
      rw [attempts, hsent, List.filter_append]
      by_cases hr : r.method = method ∧ r.endpoint = endpoint
      · refine .inr ?_
        have hnone : attempts o.sent method endpoint = [] := by
          refine List.filter_eq_nil_iff.mpr fun r' hr' hmatch => ?_
          exact hnew r' hr' ((of_decide_eq_true hmatch).2.trans hr.2.symm)
        rw [attempts] at hnone
        rw [hnone]
        simp [hr]
      · refine .inl ?_
        simp [hr, attempts]
    constructor
    · intro endpoint hmany
      rcases hattempts .post endpoint with h | h <;> rw [h] at hmany ⊢
      · exact hsafe.keyed endpoint hmany
      · exact absurd hmany (lt_irrefl _)
    · intro r₁ h₁ r₂ h₂ hmethod hendpoint
      rw [hsent] at h₁ h₂
      rcases List.mem_append.mp h₁ with h₁ | h₁ <;> rcases List.mem_append.mp h₂ with h₂ | h₂
      · exact hsafe.same r₁ h₁ r₂ h₂ hmethod hendpoint
      · exact absurd (List.mem_singleton.mp h₂ ▸ hendpoint).symm (hnew r₁ h₁)
      · exact absurd (List.mem_singleton.mp h₁ ▸ hendpoint) (hnew r₂ h₂)
      · rw [List.mem_singleton.mp h₁, List.mem_singleton.mp h₂]
    · intro method endpoint
      rcases hattempts method endpoint with h | h <;> rw [h]
      · exact hsafe.bounded method endpoint
      · exact Nat.succ_le_succ (Nat.zero_le _)
    · rw [hdelays]
      exact hsafe.delayed

end outcomes

section calls

variable {M A : Type} {rt : Runtime M} {c : Client} {path id : String} {answers : ℕ → Answer}
    {opts : GatewaySessionOptions} {method : Method} {o : RequestOptions} {read : Option Bytes → Option A}
    {nextKey key : String} {transferred : Answer} {capability : GatewayCapability} {connect : ℕ → Outcome M Unit}
    {connections : ℕ → Connection}

theorem request_key : (request c method path o).idempotencyKey = o.idempotencyKey := by
  rcases o with ⟨body, key, retryable⟩
  cases key <;> cases hcredential : c.credential <;> cases body <;>
    simp [Request.idempotencyKey, request, hcredential, List.lookup_cons]

/-- What is posted more than once has a key or issues a session. -/
theorem requestDetailed_safe
    (hkey : o.retryable = true → method = .post → o.idempotencyKey.isSome ∨ ∃ id, path = sessionsPath rt id) :
    (requestDetailed rt c method path read o answers).SafeToRetry rt c := by
  refine (requestDetailed_spec rt c method path read o answers).1.safe fun hretryable hpost => ?_
  rcases hkey hretryable hpost with hkey | ⟨id, rfl⟩
  · exact .inl (request_key.symm ▸ hkey)
  · exact .inr ⟨id, rfl⟩

theorem requestValue_safe
    (hkey : o.retryable = true → method = .post → o.idempotencyKey.isSome ∨ ∃ id, path = sessionsPath rt id) :
    (requestValue rt c method path read o answers).SafeToRetry rt c :=
  safe_congr map_silent (requestDetailed_safe hkey)

theorem fail_safe {e : NehemiahError M} : (Outcome.fail e : Outcome M A).SafeToRetry rt c := safe_silent rfl rfl

theorem createMachine_safe {opts : CreateMachineOptions} :
    (createMachine rt c opts nextKey answers).SafeToRetry rt c := by
  unfold createMachine
  split
  · exact fail_safe
  · split
    · exact fail_safe
    · split
      · exact fail_safe
      · exact requestValue_safe fun _ _ => .inl rfl

theorem pendingFork_silent {response : PendingForkResponse M} {wanted : ℕ} {metadata : ResponseMetadata} :
    (pendingFork response id wanted key metadata path : Outcome M A).sent = [] ∧
      (pendingFork response id wanted key metadata path : Outcome M A).delays = [] := by
  unfold pendingFork
  split <;> exact ⟨rfl, rfl⟩

theorem singleFork_silent (d : Detailed (SingleForkResponse M)) :
    (singleFork id key path d).sent = [] ∧ (singleFork id key path d).delays = [] := by
  unfold singleFork
  split <;> split
  · exact pendingFork_silent
  all_goals exact ⟨rfl, rfl⟩

theorem batchFork_silent {wanted : ℕ} (d : Detailed (BatchForkResponse M)) :
    (batchFork id wanted key path d).sent = [] ∧ (batchFork id wanted key path d).delays = [] := by
  unfold batchFork
  split
  · split
    · exact pendingFork_silent
    · exact ⟨rfl, rfl⟩
  · split
    · exact ⟨rfl, rfl⟩
    · split <;> exact ⟨rfl, rfl⟩

theorem branchMachine_safe {key : Option String} : (branchMachine rt c id key nextKey answers).SafeToRetry rt c :=
  safe_congr mapError_silent (safe_congr (flatMap_silent singleFork_silent) (requestDetailed_safe fun _ _ => .inl rfl))

theorem branchMachines_safe {count : Option ℚ} {key : Option String} :
    (branchMachines rt c id count key nextKey answers).SafeToRetry rt c := by
  unfold branchMachines
  cases count with
  | none => exact fail_safe
  | some q =>
    simp only
    split
    · exact fail_safe
    · split
      · exact safe_congr map_silent branchMachine_safe
      · exact safe_congr mapError_silent
          (safe_congr (flatMap_silent batchFork_silent) (requestDetailed_safe fun _ _ => .inl rfl))

theorem createSession_safe : (createSession rt c id opts answers).SafeToRetry rt c := by
  unfold createSession
  split
  · exact fail_safe
  · exact safe_congr map_silent (requestDetailed_safe fun _ _ => .inr ⟨id, rfl⟩)

/-- A session is asked of the control plane by one request without a key, which is repeated. -/
theorem createSession_sent (rt : Runtime M) (c : Client) (id : String) (opts : GatewaySessionOptions) :
    ∃ r, r.method = .post ∧ r.endpoint = .api (sessionsPath rt id) ∧ r.idempotencyKey = none ∧
      ∀ answers, ∃ n ≤ c.maxRetries + 1, (createSession rt c id opts answers).sent = List.replicate n r := by
  refine ⟨request c .post (sessionsPath rt id) ⟨some opts.body, none, true⟩, rfl, rfl, request_key, fun answers => ?_⟩
  unfold createSession
  split
  · exact ⟨0, Nat.zero_le _, rfl⟩
  · obtain ⟨⟨⟨n, hn, hsent⟩, -⟩, -⟩ := requestDetailed_spec rt c .post (sessionsPath rt id)
      (json rt rt.gatewaySessionSchema) ⟨some opts.body, none, true⟩ answers
    exact ⟨n + 1, Nat.succ_le_succ hn, map_silent.1.trans hsent⟩

theorem createSession_api {r : Request} (hr : r ∈ (createSession rt c id opts answers).sent) :
    r.endpoint = .api (sessionsPath rt id) := by
  obtain ⟨r', -, hendpoint, -, hreplicate⟩ := createSession_sent rt c id opts
  obtain ⟨n, -, hsent⟩ := hreplicate answers
  rw [hsent] at hr
  rw [List.eq_of_mem_replicate hr, hendpoint]

/-- A session, and with it one request to the gateway. -/
theorem transfer_safe {f : GatewaySession → Outcome M A}
    (hf : ∀ session, ((f session).sent = [] ∨ ∃ r url, (f session).sent = [r] ∧ r.endpoint = .gateway url) ∧
      (f session).delays = []) :
    ((createSession rt c id opts answers).flatMap f).SafeToRetry rt c := by
  cases hresult : (createSession rt c id opts answers).result with
  | error e =>
    have hsame : (createSession rt c id opts answers).flatMap f =
        ⟨(createSession rt c id opts answers).sent, (createSession rt c id opts answers).delays, .error e⟩ := by
      simp only [Outcome.flatMap, hresult]
    exact safe_congr (o := createSession rt c id opts answers) (hsame ▸ ⟨rfl, rfl⟩) createSession_safe
  | ok session =>
    have hsame : (createSession rt c id opts answers).flatMap f =
        ⟨(createSession rt c id opts answers).sent ++ (f session).sent,
          (createSession rt c id opts answers).delays ++ (f session).delays, (f session).result⟩ := by
      simp only [Outcome.flatMap, hresult]
    obtain ⟨hsent, hdelays⟩ := hf session
    rw [hsame]
    refine safe_append createSession_safe rfl ?_ ?_
    · simp only [hdelays, List.append_nil]
    · rcases hsent with hsent | ⟨r, url, hsent, hurl⟩
      · exact .inl hsent
      · refine .inr ⟨r, hsent, fun r' hr' => ?_⟩
        rw [createSession_api hr', hurl]
        exact fun h => by cases h

/-- Nothing is sent to the gateway, or one request. -/
theorem fileResponse_once {session : GatewaySession} {headers : List (String × String)} {body : Option Payload}
    {decode : Bytes → Option A} {maximumBytes : ℕ} {gatewayPath : String} {answer : Answer} :
    (((fileResponse rt method path session headers body decode maximumBytes gatewayPath answer).map (·.value)).sent = [] ∨
      ∃ r url, ((fileResponse rt method path session headers body decode maximumBytes gatewayPath answer).map
        (·.value)).sent = [r] ∧ r.endpoint = .gateway url) ∧
      ((fileResponse rt method path session headers body decode maximumBytes gatewayPath answer).map (·.value)).delays
        = [] := by
  rw [map_silent.1, map_silent.2]
  unfold fileResponse
  split
  · exact ⟨.inl rfl, rfl⟩
  · exact ⟨.inr ⟨_, _, rfl, rfl⟩, rfl⟩

theorem uploadFile_safe {name : String} {data : Bytes} {opts : FileTransferOptions} :
    (uploadFile rt c id name data opts answers transferred).SafeToRetry rt c := by
  unfold uploadFile
  simp only
  split
  · exact fail_safe
  · split
    · exact fail_safe
    · split
      · exact fail_safe
      · exact transfer_safe fun _ => fileResponse_once

theorem downloadFile_safe {remotePath : String} {opts : FileTransferOptions} :
    (downloadFile rt c id remotePath opts answers transferred).SafeToRetry rt c := by
  unfold downloadFile
  simp only
  split
  · exact fail_safe
  · split
    · exact fail_safe
    · exact transfer_safe fun _ => fileResponse_once

theorem getPreviewUrl_safe {port ttlSeconds : Option ℚ} :
    (getPreviewUrl rt c id port ttlSeconds answers).SafeToRetry rt c := by
  refine safe_congr (flatMap_silent fun session => ?_) createSession_safe
  split <;> exact ⟨rfl, rfl⟩

theorem connectOnce_safe {connection : Connection} : (connectOnce rt c id capability connection).SafeToRetry rt c := by
  refine transfer_safe fun session => ?_
  split
  · exact ⟨.inl rfl, rfl⟩
  · exact ⟨.inr ⟨_, _, rfl, rfl⟩, rfl⟩

/-- Only this request is sent, so many times at most, and so many sockets are opened. -/
structure Outcome.Sends (o : Outcome M A) (r : Request) (posts sockets : ℕ) : Prop where
  same : ∀ r' ∈ o.sent, r' = r ∨ r'.method = .ws
  posted : (o.sent.filter (·.method = .post)).length ≤ posts
  sockets : (o.sent.filter (·.method = .ws)).length ≤ sockets

theorem connectOnce_sends (rt : Runtime M) (c : Client) (id : String) (capability : GatewayCapability) :
    ∃ r, r.endpoint = .api (sessionsPath rt id) ∧ r.idempotencyKey = none ∧
      ∀ connection, (connectOnce rt c id capability connection).Sends r (c.maxRetries + 1) 1 := by
  obtain ⟨r, hpost, hendpoint, hkey, hreplicate⟩ := createSession_sent rt c id ⟨some [capability], none, none⟩
  refine ⟨r, hendpoint, hkey, fun connection => ?_⟩
  obtain ⟨n, hn, hsent⟩ := hreplicate connection.answers
  have hshape : ∃ opened : List Request, (connectOnce rt c id capability connection).sent = List.replicate n r ++ opened ∧
      (opened = [] ∨ ∃ q, opened = [q] ∧ q.method = .ws) := by
    simp only [connectOnce, Outcome.flatMap]
    split
    · split
      · exact ⟨[], by rw [hsent]; rfl, .inl rfl⟩
      · exact ⟨_, by rw [hsent], .inr ⟨_, rfl, rfl⟩⟩
    · exact ⟨[], by rw [hsent, List.append_nil], .inl rfl⟩
  obtain ⟨opened, hsent, hopened⟩ := hshape
  constructor
  · intro r' hr'
    rw [hsent] at hr'
    rcases List.mem_append.mp hr' with hr' | hr'
    · exact .inl (List.eq_of_mem_replicate hr')
    · obtain rfl | ⟨q, rfl, hq⟩ := hopened
      · cases hr'
      · exact .inr (List.mem_singleton.mp hr' ▸ hq)
  all_goals
    rw [hsent]
    obtain rfl | ⟨q, rfl, hq⟩ := hopened
    · simp [hpost, hn]
    · simp [hpost, hq, hn]

theorem retryConnect_sends {r : Request} {posts sockets : ℕ} (pauseMs : ℕ)
    (h : ∀ n, (connect n).Sends r posts sockets) (left attempt : ℕ) :
    (retryConnect connect pauseMs left attempt).Sends r ((left + 1) * posts) ((left + 1) * sockets) := by
  induction left generalizing attempt with
  | zero => simpa [retryConnect] using h attempt
  | succ left ih =>
    have hfirst := h attempt
    simp only [retryConnect]
    split
    · exact ⟨hfirst.same, hfirst.posted.trans (Nat.le_mul_of_pos_left _ (Nat.succ_pos _)),
        hfirst.sockets.trans (Nat.le_mul_of_pos_left _ (Nat.succ_pos _))⟩
    · have hrest := ih (attempt + 1)
      have hposted := hfirst.posted
      have hsockets := hfirst.sockets
      refine ⟨fun r' hr' => (List.mem_append.mp hr').elim (hfirst.same r') (hrest.same r'), ?_, ?_⟩
      · have := hrest.posted
        rw [List.filter_append, List.length_append, Nat.succ_mul]
        omega
      · have := hrest.sockets
        rw [List.filter_append, List.length_append, Nat.succ_mul]
        omega

theorem retryConnect_delays (pauseMs : ℕ) (h : ∀ n, ∀ d ∈ (connect n).delays, d ≤ 60000) (left attempt : ℕ) :
    ∀ d ∈ (retryConnect connect pauseMs left attempt).delays,
      d ≤ 60000 ∨ ∃ k < attempt + left, d = pauseMs * 2 ^ k := by
  induction left generalizing attempt with
  | zero => exact fun d hd => .inl (h attempt d hd)
  | succ left ih =>
    intro d hd
    simp only [retryConnect] at hd
    split at hd
    · exact .inl (h attempt d hd)
    · rcases List.mem_append.mp hd with hd | hd
      · exact .inl (h attempt d hd)
      · rcases List.mem_cons.mp hd with rfl | hd
        · exact .inr ⟨attempt, by omega, rfl⟩
        · refine (ih (attempt + 1) d hd).imp_right fun ⟨k, hk, hd⟩ => ⟨k, by omega, hd⟩

theorem reconnect_spec {opts : ReconnectOptions} :
    (reconnect rt c id capability opts connections).Reconnects rt c id (nonNegativeInteger opts.maxAttempts 3)
      (positiveInteger opts.delayMs 250) := by
  obtain ⟨r, hendpoint, hkey, hsends⟩ := connectOnce_sends rt c id capability
  have hrun := retryConnect_sends (positiveInteger opts.delayMs 250) (fun n => hsends (connections n))
    (nonNegativeInteger opts.maxAttempts 3) 0
  refine ⟨⟨r, hendpoint, hkey, hrun.same⟩, hrun.posted, ?_, ?_⟩
  · simpa [reconnect] using hrun.sockets
  · have hpauses : ∀ n, ∀ d ∈ (connectOnce rt c id capability (connections n)).delays, d ≤ 60000 :=
      fun _ => connectOnce_safe.delayed
    have hdelays := retryConnect_delays (positiveInteger opts.delayMs 250) hpauses
      (nonNegativeInteger opts.maxAttempts 3) 0
    simpa [reconnect] using hdelays

/-- The call connects a channel again. -/
def Call.reconnects : Call → Bool
  | .reconnect .. => true
  | _ => false

theorem call_safe (call : Call) (h : call.reconnects = false) :
    (call.run rt c answers transferred connections).SafeToRetry rt c := by
  cases call with
  | createMachine opts nextKey => exact safe_congr void_silent createMachine_safe
  | listMachinesPage project cursor limit =>
    exact safe_congr void_silent (requestDetailed_safe fun _ h => by cases h)
  | getMachine id => exact safe_congr void_silent (requestValue_safe fun _ h => by cases h)
  | destroyMachine id key => exact requestValue_safe fun _ h => by cases h
  | branchMachine id key nextKey => exact safe_congr void_silent branchMachine_safe
  | branchMachines id count key nextKey => exact safe_congr void_silent branchMachines_safe
  | listManagedTemplates project => exact safe_congr void_silent (requestValue_safe fun _ h => by cases h)
  | deleteManagedTemplate id project => exact requestValue_safe fun _ h => by cases h
  | extendMachine id ttl key nextKey => exact safe_congr void_silent (requestValue_safe fun _ _ => .inl rfl)
  | exec id command timeout => exact safe_congr void_silent (requestValue_safe fun h => by cases h)
  | createSession id opts => exact safe_congr void_silent createSession_safe
  | revokeSession machineId sessionId => exact requestValue_safe fun _ h => by cases h
  | uploadFile id name data opts => exact safe_congr void_silent uploadFile_safe
  | downloadFile id remotePath opts => exact safe_congr void_silent downloadFile_safe
  | getPreviewUrl id port ttl => exact safe_congr void_silent getPreviewUrl_safe
  | connect id capability => exact connectOnce_safe
  | reconnect id capability opts => cases h
  | unavailable operation detail => exact fail_safe

end calls

/-! ### The key of a failure -/

section recovery

variable {M A : Type} (rt : Runtime M) (c : Client)

def NehemiahError.Carries (key : String) : NehemiahError M → Prop
  | .requestError _ _ _ idempotencyKey => idempotencyKey = some key
  | .responseError _ _ _ _ idempotencyKey => idempotencyKey = some key
  | .notSupported .. => False
  | .forkPending _ operation _ _ => operation.idempotencyKey = key

/-- The control plane said that it has no forks. -/
def NehemiahError.Declined : NehemiahError M → Prop
  | .notSupported _ _ status _ => status.isSome
  | _ => False

/-- Every failure after a request tells the key. -/
def Outcome.Recoverable (o : Outcome M A) (key : String) : Prop :=
  o.sent ≠ [] → ∀ e, o.result = .error e → e.Carries key

/-- The reply to a fork is a machine with a terminal status, or the pending operation that was asked for. -/
def SingleForkResponse.Fits (id key : String) (d : Detailed (SingleForkResponse M)) : Prop :=
  match d.value with
  | .pending response => d.status = 202 ∧ response.answers id 1 key
  | .machine _ => d.status ≠ 202

def BatchForkResponse.Fits (id : String) (wanted : ℕ) (key : String) (d : Detailed (BatchForkResponse M)) : Prop :=
  match d.value with
  | .pending response => d.status = 202 ∧ response.answers id wanted key
  | .machines l => d.status ≠ 202 ∧ l.length = wanted

/-- A success with a body that decodes, and that is no reply to this fork. -/
def MisfitSingle (id key : String) (answer : Answer) : Prop :=
  ∃ d, once rt .post (forkPath rt id) (json rt rt.singleForkResponseSchema) (some key) answer = .ok d ∧
    ¬ SingleForkResponse.Fits id key d

def MisfitBatch (id : String) (wanted : ℕ) (key : String) (answer : Answer) : Prop :=
  ∃ d, once rt .post (forkPath rt id) (json rt rt.batchForkResponseSchema) (some key) answer = .ok d ∧
    ¬ BatchForkResponse.Fits id wanted key d

/-- Every failure after a request tells the key or that there are no forks, unless the last answer does not fit. -/
def Outcome.RecoverableFork (o : Outcome M A) (key : String) (answers : ℕ → Answer) (misfit : Answer → Prop) : Prop :=
  ∀ n, o.sent.length = n + 1 → ¬ misfit (answers n) → ∀ e, o.result = .error e → e.Carries key ∨ e.Declined

variable {rt c} {method : Method} {path : String} {read : Option Bytes → Option A} {key : String} {answer : Answer}
  {e : NehemiahError M}

theorem once_carries (h : once rt method path read (some key) answer = .error e) : e.Carries key := by
  cases answer with
  | lost cause =>
    cases h
    rfl
  | response status headers body =>
    simp only [once] at h
    split at h
    · split at h
      · cases h
      · cases h
        rfl
    · cases h
      rfl

variable {answers : ℕ → Answer} {id : String}

theorem requestValue_recoverable {body : Option Json} {retryable : Bool} :
    (requestValue rt c method path read ⟨body, some key, retryable⟩ answers).Recoverable key := by
  intro _ e he
  obtain ⟨-, n, -, hresult⟩ := requestDetailed_spec rt c method path read ⟨body, some key, retryable⟩ answers
  simp only [requestValue, Outcome.map, Outcome.flatMap, hresult] at he
  cases honce : once rt method path read (some key) (answers n) with
  | ok d =>
    simp only [honce, Outcome.succeed] at he
    cases he
  | error e' =>
    simp only [honce] at he
    cases he
    exact once_carries honce

theorem fail_recoverable {e : NehemiahError M} : (Outcome.fail e : Outcome M A).Recoverable key := fun h => absurd rfl h

variable {nextKey : String} {wanted : ℕ} {idempotencyKey : Option String}

theorem createMachine_recoverable {opts : CreateMachineOptions} :
    (createMachine rt c opts nextKey answers).Recoverable (opts.idempotencyKey.getD nextKey) := by
  unfold createMachine
  split
  · exact fail_recoverable
  · split
    · exact fail_recoverable
    · split
      · exact fail_recoverable
      · exact requestValue_recoverable

/-- The translation of an error keeps its key, or says that there are no forks. -/
theorem notSupportedFork_carries {operation : String} (h : e.Carries key) :
    (notSupportedFork operation e).Carries key ∨ (notSupportedFork operation e).Declined := by
  cases e with
  | responseError status body problem metadata idempotencyKey =>
    simp only [notSupportedFork]
    split
    · exact .inr rfl
    · exact .inl h
  | requestError method path cause idempotencyKey => exact .inl h
  | notSupported operation detail status problem => exact .inl h
  | forkPending message operation machines metadata => exact .inl h

theorem pendingFork_carries {response : PendingForkResponse M} {metadata : ResponseMetadata}
    (hfits : response.answers id wanted key)
    (h : (pendingFork response id wanted key metadata path : Outcome M A).result = .error e) : e.Carries key := by
  rw [pendingFork, if_pos hfits] at h
  cases h
  exact hfits.2.1

theorem singleFork_carries {d : Detailed (SingleForkResponse M)} (hfits : SingleForkResponse.Fits id key d)
    (h : (singleFork id key path d).result = .error e) : e.Carries key := by
  unfold SingleForkResponse.Fits at hfits
  unfold singleFork at h
  cases hvalue : d.value with
  | machine m =>
    simp only [hvalue] at hfits h
    rw [if_neg hfits] at h
    cases h
  | pending response =>
    simp only [hvalue] at hfits h
    rw [if_pos hfits.1] at h
    exact pendingFork_carries hfits.2 h

theorem batchFork_carries {d : Detailed (BatchForkResponse M)} (hfits : BatchForkResponse.Fits id wanted key d)
    (h : (batchFork id wanted key path d).result = .error e) :
    e.Carries key := by
  unfold BatchForkResponse.Fits at hfits
  unfold batchFork at h
  cases hvalue : d.value with
  | machines l =>
    simp only [hvalue] at hfits h
    rw [if_neg hfits.1, if_pos hfits.2] at h
    cases h
  | pending response =>
    simp only [hvalue] at hfits h
    rw [if_pos hfits.1] at h
    exact pendingFork_carries hfits.2 h

/-- A fork ends with the error of its last attempt, or with what its reply comes to. -/
theorem cloudFork_recoverable {B : Type} {o : RequestOptions} (hkey : o.idempotencyKey = some key)
    {f : Detailed A → Outcome M B} {operation : String} {fits : Detailed A → Prop}
    (hsilent : ∀ d, (f d).sent = [] ∧ (f d).delays = [])
    (hfits : ∀ d, fits d → ∀ e, (f d).result = .error e → e.Carries key) :
    (cloudFork ((requestDetailed rt c method path read o answers).flatMap f) operation).RecoverableFork key answers
      fun answer => ∃ d, once rt method path read (some key) answer = .ok d ∧ ¬ fits d := by
  intro n hn hmisfit e he
  obtain ⟨-, n', hn', hresult⟩ := requestDetailed_spec rt c method path read o answers
  have hlength : n' = n := by
    rw [cloudFork, mapError_silent.1, (flatMap_silent hsilent).1, hn'] at hn
    exact Nat.succ_injective hn
  rw [hlength, hkey] at hresult
  have hcarries : ∀ e', ((requestDetailed rt c method path read o answers).flatMap f).result = .error e' →
      e'.Carries key := by
    intro e' he'
    simp only [Outcome.flatMap, hresult] at he'
    cases honce : once rt method path read (some key) (answers n) with
    | ok d =>
      simp only [honce] at he'
      exact hfits d (Classical.byContradiction fun h => hmisfit ⟨d, honce, h⟩) e' he'
    | error e'' =>
      simp only [honce] at he'
      cases he'
      exact once_carries honce
  simp only [cloudFork, Outcome.mapError] at he
  split at he
  · rename_i hok
    rw [hok] at he
    cases he
  · rename_i e' herror
    cases he
    exact notSupportedFork_carries (hcarries e' herror)

theorem branchMachine_recoverable :
    (branchMachine rt c id idempotencyKey nextKey answers).RecoverableFork (idempotencyKey.getD nextKey) answers
      (MisfitSingle rt id (idempotencyKey.getD nextKey)) :=
  cloudFork_recoverable rfl singleFork_silent fun _ hfits _ => singleFork_carries hfits

theorem batchFork_recoverable {body : Option Json} :
    (cloudFork ((requestDetailed rt c .post (forkPath rt id) (json rt rt.batchForkResponseSchema)
        ⟨body, some key, true⟩ answers).flatMap (batchFork id wanted key (forkPath rt id)))
      "branchMachines").RecoverableFork key answers (MisfitBatch rt id wanted key) :=
  cloudFork_recoverable rfl batchFork_silent fun _ hfits _ => batchFork_carries hfits

/-- The reply does not fit a fork of `count`. -/
def MisfitFork (rt : Runtime M) (id : String) (count : Option ℚ) (key : String) (answer : Answer) : Prop :=
  ∃ wanted : ℕ, count = some (wanted : ℚ) ∧
    if wanted ≤ 1 then MisfitSingle rt id key answer else MisfitBatch rt id wanted key answer

theorem branchMachines_recoverable {count : Option ℚ} :
    (branchMachines rt c id count idempotencyKey nextKey answers).RecoverableFork (idempotencyKey.getD nextKey) answers
      (MisfitFork rt id count (idempotencyKey.getD nextKey)) := by
  intro n hn hmisfit e he
  unfold branchMachines at hn he
  cases count with
  | none => cases hn
  | some q =>
    simp only at hn he
    split at hn
    · cases hn
    · rename_i hcount
      rw [if_neg hcount] at he
      simp only [not_or, not_not, not_lt] at hcount
      have hwanted : q = (q.num.toNat : ℚ) := by
        have hnum : (0 : ℤ) ≤ q.num := Rat.num_nonneg.mpr (by linarith [hcount.2.1])
        have hcast : ((q.num.toNat : ℤ) : ℚ) = (q.num : ℚ) := by rw [Int.toNat_of_nonneg hnum]
        rw [← Int.cast_natCast, hcast]
        exact (Rat.den_eq_one_iff q).mp hcount.1 |>.symm
      split at hn
      · rename_i hone
        rw [if_pos hone] at he
        have hsingle : (branchMachine rt c id idempotencyKey nextKey answers).RecoverableFork
            (idempotencyKey.getD nextKey) answers (MisfitSingle rt id (idempotencyKey.getD nextKey)) :=
          branchMachine_recoverable
        refine hsingle n ?_ (fun h => hmisfit ⟨q.num.toNat, congrArg some hwanted, ?_⟩) e ?_
        · rw [map_silent.1] at hn
          exact hn
        · rw [if_pos hone]
          exact h
        · simp only [Outcome.map, Outcome.flatMap] at he
          split at he
          · cases he
          · rename_i herror
            cases he
            exact herror
      · rename_i hmany
        rw [if_neg hmany] at he
        refine batchFork_recoverable n hn (fun h => hmisfit ⟨q.num.toNat, congrArg some hwanted, ?_⟩) e he
        rw [if_neg hmany]
        exact h

end recovery

/-- Nothing decodes. -/
def blindRuntime : Runtime Unit where
  number := fun _ => none
  decodeText := fun _ => ""
  utf8Length := String.length
  parse := fun _ => none
  encodeURIComponent := id
  searchParams := fun _ => ""
  url := fun _ => none
  resolve := fun path origin => origin ++ path
  machineSchema := fun _ => none
  machineListSchema := fun _ => none
  singleForkResponseSchema := fun _ => none
  batchForkResponseSchema := fun _ => none
  gatewaySessionSchema := fun _ => none
  managedTemplateListSchema := fun _ => none
  execResultSchema := fun _ => none
  fileUploadResultSchema := fun _ => none

/-- A client without options. -/
def plainClient : Client := make ⟨none, none, none, none, none, none⟩

end Nehemiah.Sdk.Requests
