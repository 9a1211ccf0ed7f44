import Nehemiah.Gateway.Route

/-!
# The data plane of the gateway

`serveCapability` verifies the token of a request, looks up the machine, compares the route with the claims and hands the
request to the host.  The verification of a token and the lookup are functions of the gateway; times are in
nanoseconds.
-/

namespace Nehemiah.DataPlane

open Http

/-! ### Claims and routes -/

structure Claims where
  subject : Text
  organization : Text
  project : Text
  leaseId : Text
  jwtId : Text
  capabilities : List Capability
  port : Option ℕ
  issuedAt : ℤ
  expiresAt : ℤ
  deriving DecidableEq

structure RouteLookup where
  publicMachineId : Text
  capability : Capability
  capabilityId : Text
  capabilities : List Capability
  organization : Text
  project : Text
  leaseId : Text
  previewPort : Option ℕ
  expiresAt : ℤ
  streamId : Text
  streamInstance : Text
  streamBandwidth : ℕ

structure MachineRoute where
  hostAddress : Text
  hostMachineId : Text
  leaseId : Text
  organization : Text
  project : Text
  capabilityId : Text
  capabilities : List Text
  capabilityPort : Option ℕ
  capabilityExpiresAt : ℤ
  streamId : Text
  streamBandwidth : ℕ
  streamExpiresAt : ℤ
  hostToken : Text
  expiresAt : ℤ

inductive LookupError
  | notFound
  | expired
  | streamLimit
  | failed

inductive Problem
  | invalidPreviewRoute
  | notACapability
  | methodNotAllowed
  | websocketRequired
  | requestTooLarge
  | previewBootstrap
  | invalidCapability
  | insufficientCapability
  | previewPortDenied
  | previewOriginMismatch
  | machineRouteNotFound
  | streamQuotaExceeded
  | routeLookupFailed
  | invalidMachineRoute
  | capabilityScopeMismatch
  | gatewayDraining
  | connectionLimit
  | machineUnavailable

/-- The gateway while it serves one request.  `now` is the time at which it verifies the token and `resolvedAt` the time at
which the lookup has answered. -/
structure Gateway where
  previewBaseDomain : Text
  sha256Hex : Text → Text
  maxRequestBytes : ℕ
  verify : Text → ℤ → Option Claims
  resolve : RouteLookup → Except LookupError MachineRoute
  hostTarget : Text → Option Text
  now : ℤ
  resolvedAt : ℤ
  streamId : Text
  streamInstance : Text
  streamBandwidth : ℕ
  draining : Bool
  connectionLeft : Bool
  requestId : Text
  traceparent : Text
  tracestate : Text

/-- `boundedClaim`. -/
def boundedClaim (value : Text) : Bool := decide (value ≠ [] ∧ value.length ≤ 256 ∧ trimSpace value = value)

/-- `capabilityRouteLookup`, with the stream that the gateway asks for. -/
def Gateway.lookupFor (g : Gateway) (route : CapabilityRoute) (claims : Claims) : RouteLookup where
  publicMachineId := route.publicMachineId
  capability := route.capability
  capabilityId := claims.jwtId
  capabilities := gatewayCapabilityOrder.filter fun c => decide (c ∈ claims.capabilities)
  organization := claims.organization
  project := claims.project
  leaseId := claims.leaseId
  previewPort := claims.port
  expiresAt := claims.expiresAt
  streamId := g.streamId
  streamInstance := g.streamInstance
  streamBandwidth := g.streamBandwidth

/-- `routeIdentityMatches`. -/
def routeIdentityMatches (claims : Claims) (route : MachineRoute) : Bool :=
  decide (claims.organization = route.organization ∧ claims.project = route.project ∧ claims.leaseId = route.leaseId
    ∧ claims.jwtId = route.capabilityId
    ∧ (gatewayCapabilityOrder.filter fun c => decide (c ∈ claims.capabilities)).map Capability.text = route.capabilities
    ∧ claims.port = route.capabilityPort ∧ claims.expiresAt = route.capabilityExpiresAt
    ∧ route.expiresAt ≤ claims.expiresAt)

/-! ### Preview origins -/

def portText (port : ℕ) : Text := Nat.toDigits 10 port

def Gateway.previewCookieName (g : Gateway) (route : CapabilityRoute) : Text :=
  "nehemiah_preview_".toList ++ (g.sha256Hex (route.publicMachineId ++ ':' :: portText route.previewPort)).take 16

def Gateway.previewHostLabel (g : Gateway) (route : CapabilityRoute) (leaseId : Text) : Text :=
  "p-".toList ++ (g.sha256Hex (route.publicMachineId ++ ':' :: leaseId ++ ':' :: portText route.previewPort)).take 32

/-- `requestHostname`: the host without its port and without a final dot, in lower case. -/
def requestHostname (host : Text) : Text :=
  let name := if host.count ':' = 1 then host.takeWhile (· ≠ ':') else host
  (if name.getLast? = some '.' then name.dropLast else name).map Char.toLower

def Gateway.validPreviewBootstrapHost (g : Gateway) (host : Text) : Bool :=
  g.previewBaseDomain = [] ||
    (('.' :: g.previewBaseDomain).isSuffixOf (requestHostname host) &&
      decide ((requestHostname host).length = 34 + ('.' :: g.previewBaseDomain).length) &&
      "p-".toList.isPrefixOf (requestHostname host))

def Gateway.validPreviewHost (g : Gateway) (host : Text) (route : CapabilityRoute) (leaseId : Text) : Bool :=
  g.previewBaseDomain = [] ||
    decide (requestHostname host = g.previewHostLabel route leaseId ++ '.' :: g.previewBaseDomain)

/-! ### The request to the host -/

/-- `stripHopByHop`. -/
def stripHopByHop (h : Header) : Header :=
  (h.delAll ((elements trimSpace (h.values connection)).map canonicalKey)).delAll hopHeaders

/-- `stripForwardingHeaders`. -/
def forwardingHeaders : List Text :=
  ["Forwarded", "X-Forwarded-For", "X-Forwarded-Host", "X-Forwarded-Proto", "X-Forwarded-Port", "X-Real-Ip"].map String.toList

def nehemiahPrefix : Text := "X-Nehemiah-".toList

/-- `stripSensitiveHostHeaders`. -/
def stripSensitiveHostHeaders (h : Header) : Header :=
  (h.delAll (["Authorization", "Proxy-Authorization", "Cookie", "X-Api-Key", "X-Nehemiah-Upstream",
    "Cf-Access-Jwt-Assertion"].map String.toList)).delWhere fun name =>
      nehemiahPrefix.isPrefixOf name || decide (name = "X-Original-Url".toList ∨ name = "X-Rewrite-Url".toList)

/-- The headers of `Rewrite`. -/
def Gateway.rewrite (g : Gateway) (inbound : Wire) (resolved : MachineRoute) (outbound : Header) : Header :=
  let h := stripHopByHop outbound
  let h := h.setWhen (isWebSocketUpgrade inbound) connection "Upgrade".toList
  let h := h.setWhen (isWebSocketUpgrade inbound) upgrade "websocket".toList
  let h := stripSensitiveHostHeaders (h.delAll forwardingHeaders)
  let h := h.put forwardedFor []
  let h := h.set authorization ("Bearer ".toList ++ resolved.hostToken)
  let h := h.set "X-Nehemiah-Lease-Id".toList resolved.leaseId
  let h := h.setWhen (g.requestId ≠ []) "X-Request-Id".toList g.requestId
  (h.setWhen (g.traceparent ≠ []) "Traceparent".toList g.traceparent).setWhen
    (g.tracestate ≠ []) "Tracestate".toList g.tracestate

/-- The query without the fields that belong to the gateway. -/
def upstreamQuery (rawQuery : Text) : Text :=
  encode (((parseQuery (cleanQueryParams rawQuery)).del "token".toList).del "upstream".toList)

/-- `proxyToHost`: the address and the request that the host receives. -/
def Gateway.proxyToHost (g : Gateway) (r : Request) (route : CapabilityRoute) (resolved : MachineRoute) :
    Except Problem (Text × Request) :=
  match g.hostTarget resolved.hostAddress with
  | none => .error .invalidMachineRoute
  | some target =>
    if upgradePrintable (Header.ofWire r.header) then
      .ok (target,
        { method := r.method
          host := target
          path := route.upstreamPath resolved.hostMachineId
          rawQuery := upstreamQuery r.rawQuery
          header := roundTrip true r.method (serveRewrite (g.rewrite r.header resolved) (Header.ofWire r.header))
          body := r.body })
    else .error .machineUnavailable

/-! ### The gateway -/

/-- The token of a request, and the header without it.  A preview can have its token in the session cookie. -/
def Gateway.tokenOf (g : Gateway) (r : Request) (route : CapabilityRoute) : Except Problem (Text × Wire) :=
  match requestCapabilityToken r with
  | .ok (token, _, header) => .ok (token, header)
  | .error .invalid => .error .invalidCapability
  | .error .required =>
    if route.capability = .preview then
      match cookie? r.header (g.previewCookieName route) with
      | some token => .ok (token, r.header)
      | none => if r.method = "GET".toList ∨ r.method = "HEAD".toList then .error .previewBootstrap else .error .invalidCapability
    else .error .invalidCapability

/-- The claims that a request is served with. -/
def Gateway.claimsOf (g : Gateway) (r : Request) (route : CapabilityRoute) : Except Problem (Claims × Wire) :=
  match g.tokenOf r route with
  | .error p => .error p
  | .ok (token, header) =>
    match g.verify token g.now with
    | none => .error .invalidCapability
    | some claims =>
      if claims.subject ≠ route.publicMachineId then .error .invalidCapability
      else if route.capability ∉ claims.capabilities then .error .insufficientCapability
      else if route.capability = .preview ∧ claims.port ≠ some route.previewPort then .error .previewPortDenied
      else if route.capability = .preview ∧ g.validPreviewHost r.host route claims.leaseId = false then
        .error .previewOriginMismatch
      else .ok (claims, header)

/-- The route that the control plane has for the claims, compared with them. -/
def Gateway.resolved (g : Gateway) (route : CapabilityRoute) (claims : Claims) : Except Problem MachineRoute :=
  match g.resolve (g.lookupFor route claims) with
  | .error .notFound | .error .expired => .error .machineRouteNotFound
  | .error .streamLimit => .error .streamQuotaExceeded
  | .error .failed => .error .routeLookupFailed
  | .ok resolved =>
    if resolved.expiresAt ≤ g.resolvedAt then .error .machineRouteNotFound
    else if ¬(validLocalMachineId resolved.hostMachineId ∧ boundedClaim resolved.leaseId ∧ boundedClaim resolved.organization
      ∧ boundedClaim resolved.project) then .error .invalidMachineRoute
    else if routeIdentityMatches claims resolved = false then .error .capabilityScopeMismatch
    else if resolved.streamId ≠ g.streamId ∨ resolved.streamBandwidth ≠ g.streamBandwidth
      ∨ resolved.streamExpiresAt ≤ g.resolvedAt then .error .invalidMachineRoute
    else .ok resolved

/-- The end of `serveCapability`: the lookup, the drain, the limit of the tenant and the proxy. -/
def Gateway.serveRoute (g : Gateway) (r : Request) (route : CapabilityRoute) (claims : Claims) : Except Problem (Text × Request) :=
  match g.resolved route claims with
  | .error p => .error p
  | .ok resolved =>
    if g.draining then .error .gatewayDraining
    else if !g.connectionLeft then .error .connectionLimit
    else g.proxyToHost r route resolved

def Gateway.serveCapability (g : Gateway) (r : Request) (route : CapabilityRoute) : Except Problem (Text × Request) :=
  if route.methodAllowed r.method = false then .error .methodNotAllowed
  else if route.requiresWebSocket && !isWebSocketUpgrade r.header then .error .websocketRequired
  else if g.maxRequestBytes < r.body.length then .error .requestTooLarge
  else
    match g.claimsOf r route with
    | .error p => .error p
    | .ok (claims, header) => g.serveRoute { r with header := header } route claims

/-- `ServeHTTP`, for the paths of previews and of capabilities. -/
def Gateway.serveHTTP (g : Gateway) (r : Request) : Except Problem (Text × Request) :=
  match parsePreviewRoute r.path with
  | some none => .error .invalidPreviewRoute
  | some (some route) =>
    if g.validPreviewBootstrapHost r.host then g.serveCapability r route else .error .previewOriginMismatch
  | none =>
    match parseMachineCapabilityRoute r.path with
    | some route => g.serveCapability r route
    | none => .error .notACapability

end Nehemiah.DataPlane
