import Nehemiah.Lib.Header

/-!
# The preview proxy of the host

`handleWebProxy` of nehemiahd on a managed host, behind the check of the gateway's token and of the lease.  The request
goes to the port of the guest without the credentials and the forwarding headers that it came with.
-/

namespace Nehemiah.Preview

open Http

structure Machine where
  leaseId : Text
  ip : Option Text

/-- A host, as its preview proxy sees it.  `peer` is the address from which the request came. -/
structure Host where
  token : Text
  machine? : Text → Option Machine
  peer : Text

def headerValue (w : Wire) (name : Text) : Text := ((w name).head?).getD []

/-- `authorized`, on a managed host. -/
def Host.authorized (host : Host) (r : Request) : Bool :=
  let value := headerValue r.header "Authorization".toList
  host.token = [] || ("Bearer ".toList.isPrefixOf value && decide (trimSpace (value.drop 7) = host.token))

/-- The path is clean: no segment but the last is empty, and none is a dot or two. -/
def cleanSegments (segments : List Text) : Bool :=
  segments.dropLast.all (fun s => decide (s ≠ [])) && segments.all fun s => decide (s ≠ ['.'] ∧ s ≠ ['.', '.'])

/-- The route `/v1/machines/{id}/web/{port}/{path...}`: the machine, the port and the rest. -/
def webRoute? (path : Text) : Option (Text × Text × Text) :=
  match path.splitOn '/' with
  | [] :: version :: machines :: id :: web :: port :: rest =>
    if version = "v1".toList ∧ machines = "machines".toList ∧ web = "web".toList ∧ rest ≠ []
      ∧ cleanSegments (id :: port :: rest) then some (id, port, ['/'].intercalate rest)
    else none
  | _ => none

/-- `stripGuestRequestHeaders`. -/
def stripGuestRequestHeaders (h : Header) : Header :=
  let h := h.delAll (["Authorization", "Proxy-Authorization", "Cookie", "X-Api-Key", "Cf-Access-Jwt-Assertion", "Forwarded",
    "X-Forwarded-Host", "X-Forwarded-Proto", "X-Forwarded-Port", "X-Real-Ip"].map String.toList)
  (h.delWhere fun name => "X-Nehemiah-".toList.isPrefixOf name).put forwardedFor []

/-- The request that the guest receives at its address. -/
def guestRequest (peer ip : Text) (port : ℕ) (rest : Text) (r : Request) : Request where
  method := r.method
  host := ip ++ ':' :: Nat.toDigits 10 port
  path := '/' :: rest
  rawQuery := r.rawQuery
  header := roundTrip false r.method (serveDirector peer stripGuestRequestHeaders (Header.ofWire r.header))
  body := r.body

/-- `handleWebProxy`, behind `auth` and `managedMachineLease`. -/
def Host.handleWebProxy (host : Host) (r : Request) : Option Request :=
  if r.method = "OPTIONS".toList ∨ host.authorized r = false then none
  else
    match webRoute? r.path with
    | none => none
    | some (id, portText, rest) =>
      match host.machine? id, port? portText with
      | some machine, some port =>
        if headerValue r.header "X-Nehemiah-Lease-Id".toList ≠ machine.leaseId ∨ machine.leaseId = [] then none
        else
          match machine.ip with
          | none => none
          | some ip =>
            if upgradePrintable (stripGuestRequestHeaders (Header.ofWire r.header)) then
              some (guestRequest host.peer ip port rest r)
            else none
      | _, _ => none

/-- A request that is handled goes to the port of the path, at the address of the machine of the path. -/
theorem handleWebProxy_some {host : Host} {r d : Request} (h : host.handleWebProxy r = some d) :
    ∃ id portText rest machine port ip, webRoute? r.path = some (id, portText, rest) ∧ host.machine? id = some machine ∧
      port? portText = some port ∧ machine.ip = some ip ∧ d = guestRequest host.peer ip port rest r := by
  unfold Host.handleWebProxy at h
  by_cases hrefused : r.method = "OPTIONS".toList ∨ host.authorized r = false
  · rw [if_pos hrefused] at h
    cases h
  · rw [if_neg hrefused] at h
    split at h
    · cases h
    · next id portText rest hweb =>
      split at h
      · next machine port hmachine hport =>
        by_cases hlease : headerValue r.header "X-Nehemiah-Lease-Id".toList ≠ machine.leaseId ∨ machine.leaseId = []
        · rw [if_pos hlease] at h
          cases h
        · rw [if_neg hlease] at h
          split at h
          · cases h
          · next ip hip =>
            split_ifs at h
            cases h
            exact ⟨id, portText, rest, machine, port, ip, hweb, hmachine, hport, hip, rfl⟩
      · cases h

end Nehemiah.Preview
