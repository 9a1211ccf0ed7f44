import Nehemiah.Lib.Header

/-!
# Requests at the gateway

Which route a path has, and where the capability token of a request is: in the `Authorization` header, among the WebSocket
subprotocols, or in the session cookie of the preview.  A token among the subprotocols is taken out of the header, and
the other protocols are written anew.
-/

namespace Nehemiah.DataPlane

open Http

inductive Capability
  | tty
  | vnc
  | agent
  | files
  | preview
deriving DecidableEq

/-- `gatewayCapabilityOrder`. -/
def gatewayCapabilityOrder : List Capability := [.tty, .vnc, .agent, .files, .preview]

def Capability.text : Capability → Text
  | .tty => "tty".toList
  | .vnc => "vnc".toList
  | .agent => "agent".toList
  | .files => "files".toList
  | .preview => "preview".toList

structure CapabilityRoute where
  publicMachineId : Text
  capability : Capability
  action : Text
  previewPort : ℕ
  previewTail : Text

/-! ### Paths -/

def validPublicMachineId (t : Text) : Bool :=
  match t with
  | 'm' :: '_' :: rest =>
    decide (1 ≤ rest.length ∧ rest.length ≤ 126) && rest.all fun c => c.isAlphanum || c = '_' || c = '-'
  | _ => false

def validLocalMachineId (t : Text) : Bool :=
  match t with
  | c :: rest => c.isAlphanum && decide (rest.length ≤ 127) && rest.all fun c => c.isAlphanum || "._-".toList.contains c
  | [] => false

/-- `parsePreviewRoute`: `none` is another path, `some none` a malformed one. -/
def parsePreviewRoute (path : Text) : Option (Option CapabilityRoute) :=
  match "/preview/".toList.isPrefixOf path, (path.drop 9).splitOn '/' with
  | false, _ => none
  | true, id :: portText :: rest =>
    match port? portText with
    | some port =>
      if validPublicMachineId id ∧ ∀ segment ∈ rest, segment ≠ ['.'] ∧ segment ≠ ['.', '.'] then
        some (some ⟨id, .preview, [], port, ['/'].intercalate rest⟩)
      else some none
    | none => some none
  | true, _ => some none

def actionCapability? (action : Text) : Option Capability :=
  if action = "tty".toList then some .tty
  else if action = "vnc".toList then some .vnc
  else if action = "agent".toList ∨ action = "shell-agent".toList then some .agent
  else if action = "upload".toList ∨ action = "download".toList then some .files
  else none

def parseMachineCapabilityRoute (path : Text) : Option CapabilityRoute :=
  match (if ['/'].isPrefixOf path then path.drop 1 else path).splitOn '/' with
  | [version, machines, id, action] =>
    if version = "v1".toList ∧ machines = "machines".toList ∧ validPublicMachineId id then
      (actionCapability? action).map fun capability => ⟨id, capability, action, 0, []⟩
    else none
  | _ => none

def CapabilityRoute.methodAllowed (route : CapabilityRoute) (method : Text) : Bool :=
  if route.capability = .preview then decide (method ≠ "CONNECT".toList ∧ method ≠ "TRACE".toList)
  else if route.action = "upload".toList then decide (method = "POST".toList)
  else if route.action = "download".toList then decide (method = "GET".toList ∨ method = "HEAD".toList)
  else decide (method = "GET".toList)

def CapabilityRoute.requiresWebSocket (route : CapabilityRoute) : Bool :=
  decide (route.capability = .tty ∨ route.capability = .vnc ∨ route.capability = .agent)

/-- The path at the host, whose machine identifier needs no escape. -/
def CapabilityRoute.upstreamPath (route : CapabilityRoute) (localMachineId : Text) : Text :=
  if route.capability = .preview then
    "/v1/machines/".toList ++ localMachineId ++ "/web/".toList ++ Nat.toDigits 10 route.previewPort ++ '/' :: route.previewTail
  else "/v1/machines/".toList ++ localMachineId ++ '/' :: route.action

/-! ### Where the token is -/

def authorization : Text := "Authorization".toList
def cookie : Text := "Cookie".toList
def secWebSocketProtocol : Text := "Sec-Websocket-Protocol".toList
def capabilityWebSocketProtocolPrefix : Text := "nehemiah.capability.".toList

def valueOf (w : Wire) (name : Text) : Text := ((w name).head?).getD []

inductive TokenError
  | invalid
  | required

/-- `bearerToken`; an absent header has the empty token. -/
def bearerToken (value : Text) : Option Text :=
  if value = [] then some []
  else
    let scheme := value.takeWhile (· ≠ ' ')
    let token := (value.dropWhile (· ≠ ' ')).drop 1
    if ' ' ∈ value ∧ equalFold scheme "bearer".toList ∧ token ≠ [] ∧ trimSpace token = token ∧ ' ' ∉ token then some token
    else none

def carriesToken (protocol : Text) : Bool := capabilityWebSocketProtocolPrefix.isPrefixOf protocol

/-- The loop over the offered protocols: the token so far and the protocols that are kept. -/
def scanProtocols : List Text → Text → List Text → Option (Text × List Text)
  | [], token, kept => some (token, kept)
  | protocol :: rest, token, kept =>
    if carriesToken protocol then
      let candidate := protocol.drop capabilityWebSocketProtocolPrefix.length
      if candidate = [] ∨ token ≠ [] then none else scanProtocols rest candidate kept
    else if protocol ≠ [] then scanProtocols rest token (kept ++ [protocol])
    else scanProtocols rest token kept

/-- The header in which only the kept protocols are left. -/
def keepProtocols (w : Wire) (kept : List Text) : Wire := fun name =>
  if name = secWebSocketProtocol then if kept = [] then [] else [[',', ' '].intercalate kept] else w name

/-- `requestCapabilityToken`: the token, whether a subprotocol carried it, and the header that is left. -/
def requestCapabilityToken (r : Request) : Except TokenError (Text × Bool × Wire) :=
  match bearerToken (valueOf r.header authorization) with
  | none => .error .invalid
  | some headerToken =>
    if (parseQuery r.rawQuery).has "token".toList then .error .invalid
    else
      match scanProtocols (elements trimSpace (r.header secWebSocketProtocol)) [] [] with
      | none => .error .invalid
      | some (protocolToken, kept) =>
        if protocolToken ≠ [] then
          if headerToken ≠ [] ∧ headerToken ≠ protocolToken then .error .invalid
          else .ok (protocolToken, true, keepProtocols r.header kept)
        else if headerToken ≠ [] then .ok (headerToken, false, r.header)
        else .error .required

/-- The value of a cookie, between quotes or not. -/
def cookieValue? (raw : Text) : Option Text :=
  let value := if 1 < raw.length ∧ raw.head? = some '"' ∧ raw.getLast? = some '"' then raw.tail.dropLast else raw
  if value.all fun c => decide (' ' ≤ c ∧ c ≤ '~' ∧ c ≠ '"' ∧ c ≠ ';' ∧ c ≠ '\\') then some value else none

/-- `Cookie`: the first cookie of the name. -/
def cookie? (w : Wire) (name : Text) : Option Text :=
  ((w cookie).flatMap fun line => (line.splitOn ';').map trimOws).findSome? fun part =>
    if part ≠ [] ∧ trimOws (part.takeWhile (· ≠ '=')) = name then cookieValue? ((part.dropWhile (· ≠ '=')).drop 1) else none

def headerContainsToken (lines : List Text) (wanted : Text) : Bool :=
  (elements trimSpace lines).any fun e => equalFold e wanted

def isWebSocketUpgrade (w : Wire) : Bool :=
  equalFold (trimSpace (valueOf w upgrade)) "websocket".toList && headerContainsToken (w connection) "upgrade".toList

end Nehemiah.DataPlane
