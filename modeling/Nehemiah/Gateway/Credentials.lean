import Nehemiah.Gateway.Serve
import Nehemiah.Host.Preview

/-!
# Credentials do not reach the guest

A preview request goes through two proxies, the gateway and the host, and neither the capability token that it came with
nor the host's token and lease that the gateway adds is to be seen by the guest.  `guest_sees_no_credentials` is
about two requests in two worlds that differ in nothing but these, and in the forwarding headers that a client can send.

The guest sees a difference in two cases only.  Neither proxy removes a forwarding header that its list does not name,
among them the header in which an edge hands on the client's address.  And where the token is one of the WebSocket
subprotocols, the others are written anew, while they are left as they are where it is not.
-/

namespace Nehemiah.DataPlane

open Http

/-! ### From the client to the guest -/

/-- The gateway and the hosts at their addresses. -/
structure World where
  gateway : Gateway
  host? : Text → Option Preview.Host

/-- The request that the guest receives. -/
def World.deliver (w : World) (r : Request) : Option Request :=
  match w.gateway.serveHTTP r with
  | .ok (address, upstream) => (w.host? address).bind fun host => host.handleWebProxy upstream
  | .error _ => none

def routeOf? (path : Text) : Option CapabilityRoute :=
  match parsePreviewRoute path with
  | some route? => route?
  | none => parseMachineCapabilityRoute path

/-- The claims that the token of a request verifies to. -/
def World.claims? (w : World) (r : Request) : Option Claims :=
  match routeOf? r.path with
  | some route =>
    match w.gateway.claimsOf r route with
    | .ok (claims, _) => some claims
    | .error _ => none
  | none => none

/-! ### What two requests may differ in -/

def carrierHeader (name : Text) : Bool := decide (name = authorization ∨ name = cookie)

/-- The headers in which proxies hand on where a request comes from; the last two are those of an edge. -/
def forwardingHeader (name : Text) : Bool :=
  "X-Forwarded-".toList.isPrefixOf name ||
    decide (name ∈ ["Forwarded", "X-Real-Ip", "X-Original-Url", "X-Rewrite-Url", "Cf-Connecting-Ip", "True-Client-Ip"].map
      String.toList)

/-- The forwarding headers that neither proxy removes. -/
def passedOn (name : Text) : Bool :=
  forwardingHeader name && decide (name ∉ forwardingHeaders ++ ["X-Original-Url", "X-Rewrite-Url"].map String.toList)

/-- The header offers a token among the subprotocols. -/
def offersToken (lines : List Text) : Bool := (elements trimSpace lines).any carriesToken

/-- The other subprotocols. -/
def otherProtocols (lines : List Text) : List Text :=
  (elements trimSpace lines).filter fun protocol => decide (protocol ≠ []) && !carriesToken protocol

/-- The same subprotocols next to the token; where neither header offers one, the same header. -/
def SameProtocols (lines lines' : List Text) : Prop :=
  otherProtocols lines = otherProtocols lines' ∧ (offersToken lines = false → offersToken lines' = false → lines = lines')

/-- The header as the gateway writes it: one line with the subprotocols, and none when there are none. -/
def rewritten (lines : List Text) : List Text :=
  if otherProtocols lines = [] then [] else [[',', ' '].intercalate (otherProtocols lines)]

def tokenField (piece : Text) : Bool := decide (unescape (keyOf piece) = some "token".toList)

def otherFields (rawQuery : Text) : List Text := (rawQuery.splitOn '&').filter fun piece => !tokenField piece

/-- Requests that are equal except for what carries the token and the forwarding headers.  The host name is open: that of
an isolated origin is derived from the lease. -/
structure SameRequest (r r' : Request) : Prop where
  method : r.method = r'.method
  path : r.path = r'.path
  body : r.body = r'.body
  query : otherFields r.rawQuery = otherFields r'.rawQuery
  header : ∀ name, carrierHeader name = false → forwardingHeader name = false → name ≠ secWebSocketProtocol →
    r.header name = r'.header name
  protocols : SameProtocols (r.header secWebSocketProtocol) (r'.header secWebSocketProtocol)

/-- Claims that are equal except for the lease. -/
def SameClaims (c c' : Claims) : Prop := c' = { c with leaseId := c'.leaseId }

/-- Lookups for such claims. -/
def SameLookup (l l' : RouteLookup) : Prop :=
  l' = { l with
    leaseId := l'.leaseId
    streamId := l'.streamId
    streamInstance := l'.streamInstance
    streamBandwidth := l'.streamBandwidth }

/-- Worlds that are equal except for tokens and leases: a lookup finds the same machine on the same host, the machine has
the same address there, and the gateway names the request alike. -/
structure SameWorld (w w' : World) : Prop where
  requestId : w.gateway.requestId = w'.gateway.requestId
  traceparent : w.gateway.traceparent = w'.gateway.traceparent
  tracestate : w.gateway.tracestate = w'.gateway.tracestate
  hostTarget : w.gateway.hostTarget = w'.gateway.hostTarget
  machine : ∀ l l' m m', SameLookup l l' → w.gateway.resolve l = .ok m → w'.gateway.resolve l' = .ok m' →
    m.hostAddress = m'.hostAddress ∧ m.hostMachineId = m'.hostMachineId
  peer : ∀ address h h', w.host? address = some h → w'.host? address = some h' → h.peer = h'.peer
  ip : ∀ address h h' id m m', w.host? address = some h → w'.host? address = some h' → h.machine? id = some m →
    h'.machine? id = some m' → m.ip = m'.ip

/-! ### What the guest must not see -/

/-- The headers in which credentials travel. -/
def credentialHeader (name : Text) : Bool :=
  nehemiahPrefix.isPrefixOf name ||
    decide (name ∈ ["Authorization", "Proxy-Authorization", "Cookie", "X-Api-Key", "Cf-Access-Jwt-Assertion"].map String.toList)

/-- No header of a credential and no field of a token. -/
structure Withheld (d : Request) : Prop where
  header : ∀ name, credentialHeader name = true → d.header name = []
  query : (parseQuery d.rawQuery).has "token".toList = false

/-- The requests agree on the forwarding headers that are passed on. -/
def SamePassedOn (r r' : Request) : Prop :=
  ∀ name, passedOn name = true → name ∉ namedHops (r.header connection) → r.header name = r'.header name

/-- Both requests have the token among the subprotocols or neither has, unless the header of the other is written as the
gateway writes it or the header is one of the hop. -/
def SameCarriage (r r' : Request) : Prop :=
  secWebSocketProtocol ∈ namedHops (r.header connection) ∨
    offersToken (r.header secWebSocketProtocol) = offersToken (r'.header secWebSocketProtocol) ∨
    (if offersToken (r.header secWebSocketProtocol) then r'.header secWebSocketProtocol = rewritten (r'.header secWebSocketProtocol)
      else r.header secWebSocketProtocol = rewritten (r.header secWebSocketProtocol))

/-! ### The query -/

theorem parseQuery_other (rawQuery : Text) :
    (parseQuery rawQuery).del "token".toList = (otherFields rawQuery).filterMap pairOf := by
  unfold parseQuery Values.del otherFields
  apply filter_filterMap_pairOf
  intro piece p hp
  unfold tokenField
  simp only [pairOf_key hp, Option.some.injEq, ne_eq, decide_not]

/-- The host gets the same query for requests that differ in the fields of a token. -/
theorem upstreamQuery_congr {q q' : Text} (h : otherFields q = otherFields q') : upstreamQuery q = upstreamQuery q' := by
  apply encode_congr
  intro key
  have hdel : ∀ q : Text, valuesOf ((parseQuery (cleanQueryParams q)).del "token".toList) key =
      valuesOf ((parseQuery q).del "token".toList) key := by
    intro q
    rw [valuesOf_del, valuesOf_del, values_clean]
  rw [valuesOf_del _ "upstream".toList, valuesOf_del _ "upstream".toList, hdel, hdel, parseQuery_other, parseQuery_other, h]

theorem upstreamQuery_withheld (q : Text) : (parseQuery (upstreamQuery q)).has "token".toList = false := by
  have hnone : valuesOf (parseQuery (upstreamQuery q)) "token".toList = [] := by
    rw [upstreamQuery, values_parse_encode, valuesOf_del, valuesOf_del]
    rfl
  unfold Values.has
  by_contra hhas
  obtain ⟨p, hp, hkey⟩ := List.any_eq_true.mp (Bool.eq_true_of_not_eq_false hhas)
  have hmem : "token".toList ∈ (parseQuery (upstreamQuery q)).map Prod.fst :=
    List.mem_map.mpr ⟨p, hp, of_decide_eq_true hkey⟩
  exact mem_keys.mp hmem hnone

/-! ### Taking the token out -/

variable {token : Text} {route : CapabilityRoute} {S : Text → Prop} {w' : Wire} {h h' : Header} {r' : Request}

theorem scanProtocols_some {protocols kept kept' : List Text} {token' : Text}
    (h : scanProtocols protocols token kept = some (token', kept')) :
    kept' = kept ++ (protocols.filter fun protocol => decide (protocol ≠ []) && !carriesToken protocol) ∧
      (token' = [] ↔ token = [] ∧ protocols.any carriesToken = false) := by
  induction protocols generalizing token kept with
  | nil =>
    cases h
    simp
  | cons protocol protocols ih =>
    rw [scanProtocols] at h
    dsimp only at h
    split_ifs at h with hcarries hbad hempty
    · obtain ⟨hkept, htoken⟩ := ih h
      push Not at hbad
      constructor
      · rw [hkept, List.filter_cons_of_neg (by simp [hcarries])]
      · rw [htoken]
        simp [hbad.1, hcarries]
    · obtain ⟨hkept, htoken⟩ := ih h
      constructor
      · rw [hkept, List.filter_cons_of_pos (by simp [hcarries, hempty]), List.append_assoc]
        rfl
      · rw [htoken]
        simp [hcarries]
    · obtain ⟨hkept, htoken⟩ := ih h
      constructor
      · rw [hkept, List.filter_cons_of_neg (by simp [hempty])]
      · rw [htoken]
        simp [hcarries]

/-- The header that the gateway goes on with. -/
def carried (w : Wire) : Wire := fun name =>
  if name = secWebSocketProtocol ∧ offersToken (w secWebSocketProtocol) = true then rewritten (w secWebSocketProtocol)
  else w name

theorem carried_eq {w : Wire} {kept : List Text}
    (h : scanProtocols (elements trimSpace (w secWebSocketProtocol)) [] [] = some (token, kept)) :
    carried w = if token = [] then w else keepProtocols w kept := by
  obtain ⟨hkept, htoken⟩ := scanProtocols_some h
  rw [List.nil_append] at hkept
  have hoffers : token = [] ↔ offersToken (w secWebSocketProtocol) = false := by
    rw [htoken]
    exact ⟨fun h => h.2, fun h => ⟨rfl, h⟩⟩
  by_cases hnone : token = []
  · rw [if_pos hnone]
    funext name
    exact if_neg fun hcarried => Bool.false_ne_true ((hoffers.mp hnone).symm.trans hcarried.2)
  · have hyes : offersToken (w secWebSocketProtocol) = true := Bool.eq_true_of_not_eq_false fun hno => hnone (hoffers.mpr hno)
    rw [if_neg hnone]
    funext name
    show (if name = secWebSocketProtocol ∧ offersToken (w secWebSocketProtocol) = true then rewritten (w secWebSocketProtocol)
      else w name) = if name = secWebSocketProtocol then (if kept = [] then [] else [[',', ' '].intercalate kept]) else w name
    simp only [hyes, and_true, rewritten, otherProtocols, ← hkept]

/-- With a token the header that is left is without it; without one the header had none. -/
theorem requestCapabilityToken_carried (r : Request) :
    (∀ token viaSubprotocol header, requestCapabilityToken r = .ok (token, viaSubprotocol, header) →
      header = carried r.header) ∧
    (requestCapabilityToken r = .error .required → r.header = carried r.header) := by
  unfold requestCapabilityToken
  cases hbearer : bearerToken (valueOf r.header authorization) with
  | none => exact ⟨nofun, nofun⟩
  | some headerToken =>
    dsimp only
    by_cases hquery : (parseQuery r.rawQuery).has "token".toList = true
    · rw [if_pos hquery]
      exact ⟨nofun, nofun⟩
    · rw [if_neg hquery]
      cases hscan : scanProtocols (elements trimSpace (r.header secWebSocketProtocol)) [] [] with
      | none => exact ⟨nofun, nofun⟩
      | some scanned =>
        obtain ⟨protocolToken, kept⟩ := scanned
        dsimp only
        rw [carried_eq hscan]
        by_cases hprotocol : protocolToken = []
        · rw [if_pos hprotocol, if_neg (not_not.mpr hprotocol)]
          split_ifs
          · refine ⟨?_, nofun⟩
            rintro _ _ _ ⟨⟩
            rfl
          · exact ⟨nofun, fun _ => rfl⟩
        · rw [if_neg hprotocol, if_pos hprotocol]
          split_ifs
          · exact ⟨nofun, nofun⟩
          · refine ⟨?_, nofun⟩
            rintro _ _ _ ⟨⟩
            rfl

variable {w : World} {g : Gateway} {r d : Request} {name : Text}

theorem tokenOf_carried {header : Wire} (h : g.tokenOf r route = .ok (token, header)) : header = carried r.header := by
  obtain ⟨hok, hrequired⟩ := requestCapabilityToken_carried r
  unfold Gateway.tokenOf at h
  split at h
  · next htoken =>
    cases h
    exact hok _ _ _ htoken
  · cases h
  · next htoken =>
    by_cases hpreview : route.capability = .preview
    · rw [if_pos hpreview] at h
      split at h
      · cases h
        exact hrequired htoken
      · split_ifs at h
    · rw [if_neg hpreview] at h
      cases h

theorem claimsOf_carried {claims : Claims} {header : Wire} (h : g.claimsOf r route = .ok (claims, header)) :
    header = carried r.header := by
  unfold Gateway.claimsOf at h
  cases htoken : g.tokenOf r route with
  | error p =>
    rw [htoken] at h
    cases h
  | ok carriedToken =>
    obtain ⟨token, left⟩ := carriedToken
    rw [htoken] at h
    dsimp only at h
    split at h
    · cases h
    · split_ifs at h
      cases h
      exact tokenOf_carried htoken

/-! ### The two proxies -/

/-- The header of the gateway's request to the host. -/
def Gateway.upstreamHeader (g : Gateway) (method : Text) (w : Wire) (resolved : MachineRoute) : Wire :=
  roundTrip true method (serveRewrite (g.rewrite w resolved) (Header.ofWire w))

/-- The header of the host's request to the guest. -/
def guestHeader (peer method : Text) (w : Wire) : Wire :=
  roundTrip false method (serveDirector peer Preview.stripGuestRequestHeaders (Header.ofWire w))

theorem values_ofWire (w : Wire) (name : Text) : (Header.ofWire w).values name = w name := by
  unfold Header.values Header.ofWire
  split_ifs with h
  · exact h.symm
  · rfl

theorem agree_ofWire {w : Wire} (h : ∀ name, ¬S name → w name = w' name) :
    AgreeOff S (Header.ofWire w) (Header.ofWire w') := by
  intro name hname
  unfold Header.ofWire
  rw [h name hname]

/-- What two requests differ in when they come to the gateway, and what is left of it behind it and behind the host. -/
def differsAtGateway (name : Text) : Prop :=
  carrierHeader name = true ∨ forwardingHeader name = true ∨ name = secWebSocketProtocol

def differsAtHost (name : Text) : Prop :=
  passedOn name = true ∨ name = secWebSocketProtocol ∨ name = authorization ∨ name = "X-Nehemiah-Lease-Id".toList

def differsAtGuest (name : Text) : Prop := passedOn name = true ∨ name = secWebSocketProtocol

theorem set_agree (hh : AgreeOff S h h') (hname : S name) (value value' : Text) :
    AgreeOff S (h.set name value) (h'.set name value') := by
  intro other hother
  have hne : other ≠ name := fun heq => hother (heq ▸ hname)
  rw [set_passed hne, set_passed hne]
  exact hh other hother

/-- The names that the proxies read. -/
def readNames : List Text := [connection, upgrade, te, userAgent, acceptEncoding, rangeName]

/-- The requests do not differ in what the proxies read. -/
theorem not_differs (h : name ∈ readNames) : ¬differsAtGateway name ∧ ¬differsAtHost name ∧ ¬differsAtGuest name := by
  simp only [readNames, List.mem_cons, List.not_mem_nil, or_false] at h
  unfold differsAtGateway differsAtHost differsAtGuest
  rcases h with rfl | rfl | rfl | rfl | rfl | rfl <;> decide

theorem reads {P : Text → Prop} (h : ∀ name ∈ readNames, P name) :
    P connection ∧ P upgrade ∧ P te ∧ P userAgent ∧ P acceptEncoding ∧ P rangeName :=
  ⟨h _ (by decide), h _ (by decide), h _ (by decide), h _ (by decide), h _ (by decide), h _ (by decide)⟩

theorem websocket_congr {w : Wire} (h : ∀ name, ¬differsAtGateway name → w name = w' name) :
    isWebSocketUpgrade w = isWebSocketUpgrade w' := by
  unfold isWebSocketUpgrade valueOf
  rw [h upgrade (not_differs (by decide)).1, h connection (not_differs (by decide)).1]

theorem stripSensitive_agree (hh : AgreeOff S h h') :
    AgreeOff (fun name => S name ∧ name ≠ cookie ∧ name ≠ "X-Original-Url".toList ∧ name ≠ "X-Rewrite-Url".toList)
      (stripSensitiveHostHeaders h) (stripSensitiveHostHeaders h') := by
  apply ((hh.delAll _).delWhere _).mono
  rintro name ⟨⟨hname, hlist⟩, hwhere⟩
  rw [Bool.or_eq_false_iff, decide_eq_false_iff_not, not_or] at hwhere
  refine ⟨hname, ?_, hwhere.2.1, hwhere.2.2⟩
  rintro rfl
  exact hlist (by decide)

theorem rewrite_agree {g' : Gateway} {w : Wire} {m m' : MachineRoute}
    (hw : ∀ name, ¬differsAtGateway name → w name = w' name) (hh : AgreeOff differsAtGateway h h')
    (hid : g.requestId = g'.requestId) (hparent : g.traceparent = g'.traceparent)
    (hstate : g.tracestate = g'.tracestate) :
    AgreeOff differsAtHost (g.rewrite w m h) (g'.rewrite w' m' h') := by
  have hstripped : AgreeOff differsAtGateway (stripHopByHop h) (stripHopByHop h') := by
    unfold stripHopByHop
    rw [hh.values (not_differs (by decide)).1]
    exact ((hh.delAll _).delAll _).mono fun _ hn => hn.1.1
  have hupgraded := (hstripped.setWhen (websocket_congr hw) connection "Upgrade".toList).setWhen (websocket_congr hw)
    upgrade "websocket".toList
  have hsafe := stripSensitive_agree (hupgraded.delAll forwardingHeaders)
  have hleft : AgreeOff differsAtHost _ _ := hsafe.mono (T := differsAtHost) (by
    rintro name ⟨⟨hname, hforwarding⟩, hcookie, horiginal, hrewrite⟩
    rcases hname with hname | hname | hname
    · rcases of_decide_eq_true hname with rfl | rfl
      · exact Or.inr (Or.inr (Or.inl rfl))
      · exact absurd rfl hcookie
    · refine Or.inl ?_
      unfold passedOn
      rw [hname, Bool.true_and]
      apply decide_eq_true
      intro hmem
      rcases List.mem_append.mp hmem with hmem | hmem
      · exact hforwarding hmem
      · rcases List.mem_pair.mp hmem with rfl | rfl
        · exact horiginal rfl
        · exact hrewrite rfl
    · exact Or.inr (Or.inl hname))
  unfold Gateway.rewrite
  rw [hid, hparent, hstate]
  have hput := (hleft.put forwardedFor []).mono (T := differsAtHost) fun _ hn => hn.1
  have htoken := set_agree hput (Or.inr (Or.inr (Or.inl rfl))) ("Bearer ".toList ++ m.hostToken) ("Bearer ".toList ++ m'.hostToken)
  have hlease := set_agree htoken (Or.inr (Or.inr (Or.inr rfl))) m.leaseId m'.leaseId
  exact ((hlease.setWhen rfl _ _).setWhen rfl _ _).setWhen rfl _ _

theorem upstream_agree {g' : Gateway} {w : Wire} {m m' : MachineRoute} (method : Text)
    (hw : ∀ name, ¬differsAtGateway name → w name = w' name) (hid : g.requestId = g'.requestId)
    (hparent : g.traceparent = g'.traceparent) (hstate : g.tracestate = g'.tracestate) (hname : ¬differsAtHost name) :
    g.upstreamHeader method w m name = g'.upstreamHeader method w' m' name := by
  obtain ⟨hc, hu, ht, _, _, _⟩ := reads fun name hn => (not_differs hn).1
  obtain ⟨hc', hu', _, hg', ha', hr'⟩ := reads fun name hn => (not_differs hn).2.1
  have hin : AgreeOff differsAtGateway (Header.ofWire w) (Header.ofWire w') := agree_ofWire hw
  have hserved : AgreeOff differsAtHost (serveRewrite (g.rewrite w m) (Header.ofWire w))
      (serveRewrite (g'.rewrite w' m') (Header.ofWire w')) :=
    hin.serveRewrite hc hu ht hg' fun h h' hh => rewrite_agree hw hh hid hparent hstate
  exact hserved.roundTrip ha' hr' hc' hu' hg' true method hname

theorem stripGuest_agree (hh : AgreeOff differsAtHost h h') :
    AgreeOff differsAtGuest (Preview.stripGuestRequestHeaders h) (Preview.stripGuestRequestHeaders h') := by
  unfold Preview.stripGuestRequestHeaders
  apply ((((hh.delAll _).delWhere _).put forwardedFor [])).mono
  rintro name ⟨⟨⟨hname, hlist⟩, hwhere⟩, -⟩
  rcases hname with hname | hname | rfl | rfl
  · exact Or.inl hname
  · exact Or.inr hname
  · exact absurd (by decide) hlist
  · exact absurd hwhere (by decide)

theorem guest_agree {w : Wire} (peer method : Text) (hw : ∀ name, ¬differsAtHost name → w name = w' name)
    (hname : ¬differsAtGuest name) : guestHeader peer method w name = guestHeader peer method w' name := by
  obtain ⟨_, _, ht, _, _, _⟩ := reads fun name hn => (not_differs hn).2.1
  obtain ⟨hc, hu, _, hg, ha, hr⟩ := reads fun name hn => (not_differs hn).2.2
  have hin : AgreeOff differsAtHost (Header.ofWire w) (Header.ofWire w') := agree_ofWire hw
  have hx : ¬differsAtGuest forwardedFor := by
    unfold differsAtGuest
    decide
  exact (hin.serveDirector ht hc hu hg hx (stripGuest_agree hin) peer).roundTrip ha hr hc hu hg false method hname

/-! ### Names that are passed on -/

/-- The names that a proxy writes or removes. -/
def touched : List Text :=
  hopHeaders ++ [connection, upgrade, te, userAgent, acceptEncoding, forwardedFor, authorization, cookie] ++ forwardingHeaders ++
    ["X-Original-Url", "X-Rewrite-Url", "X-Api-Key", "X-Nehemiah-Upstream", "Cf-Access-Jwt-Assertion", "X-Nehemiah-Lease-Id",
      "X-Request-Id", "Traceparent", "Tracestate", "Close"].map String.toList

theorem passed_untouched (h : differsAtGuest name) : name ∉ touched ∧ nehemiahPrefix.isPrefixOf name = false := by
  have hdecided : touched.all (fun n => !passedOn n && decide (n ≠ secWebSocketProtocol)) = true := by decide
  constructor
  · intro hmem
    have hn := List.all_eq_true.mp hdecided name hmem
    rw [Bool.and_eq_true, decide_eq_true_iff] at hn
    rcases h with h | h
    · rw [h] at hn
      cases hn.1
    · exact hn.2 h
  · rcases h with h | rfl
    · unfold passedOn at h
      obtain ⟨hforwarding, _⟩ := Bool.and_eq_true_iff.mp h
      rcases Bool.or_eq_true_iff.mp hforwarding with hforeign | hlist
      · obtain ⟨rest, rfl⟩ := List.isPrefixOf_iff_prefix.mp hforeign
        rfl
      · have hall : (["Forwarded", "X-Real-Ip", "X-Original-Url", "X-Rewrite-Url", "Cf-Connecting-Ip", "True-Client-Ip"].map
            String.toList).all (fun n => !nehemiahPrefix.isPrefixOf n) = true := by decide
        exact Bool.not_eq_true' _ ▸ List.all_eq_true.mp hall name (of_decide_eq_true hlist)
    · decide

section Passed

variable {g : Gateway} {w : Wire} {m : MachineRoute} {h i : Header} {name c : Text} {names : List Text}

theorem ne_of_touched (hname : name ∉ touched) (hc : c ∈ touched) : name ≠ c := fun heq => hname (heq ▸ hc)

theorem notMem_of_touched (hname : name ∉ touched) (hnames : ∀ c ∈ names, c ∈ touched) : name ∉ names :=
  fun hmem => hname (hnames _ hmem)

theorem stripSensitive_passed (hname : name ∉ touched) (hforeign : nehemiahPrefix.isPrefixOf name = false) :
    stripSensitiveHostHeaders h name = h name := by
  unfold stripSensitiveHostHeaders
  have horiginal : name ≠ "X-Original-Url".toList := ne_of_touched hname (by decide)
  have hrewrite : name ≠ "X-Rewrite-Url".toList := ne_of_touched hname (by decide)
  rw [delWhere_passed (by rw [hforeign]; exact decide_eq_false (not_or.mpr ⟨horiginal, hrewrite⟩))]
  exact delAll_passed (notMem_of_touched hname (by decide))

theorem rewrite_passed (hname : name ∉ touched) (hforeign : nehemiahPrefix.isPrefixOf name = false) :
    g.rewrite w m h name = if name ∈ (elements trimSpace (h.values connection)).map canonicalKey then none else h name := by
  unfold Gateway.rewrite
  rw [setWhen_passed (ne_of_touched hname (by decide)), setWhen_passed (ne_of_touched hname (by decide)),
    setWhen_passed (ne_of_touched hname (by decide)), set_passed (ne_of_touched hname (by decide)),
    set_passed (ne_of_touched hname (by decide)), put_passed (ne_of_touched hname (by decide)),
    stripSensitive_passed hname hforeign, delAll_passed (notMem_of_touched hname (by decide)),
    setWhen_passed (ne_of_touched hname (by decide)), setWhen_passed (ne_of_touched hname (by decide))]
  exact delAll_passed (notMem_of_touched hname (by decide))

/-- The connection of a prepared request asks for an upgrade or for nothing. -/
theorem prepare_connection : prepare i h connection = none ∨ prepare i h connection = some ["Upgrade".toList] := by
  have hremoved : removeHopByHopHeaders h connection = none := delAll_self (by decide)
  unfold prepare
  rw [setWhen_passed (by decide)]
  rcases setWhen_self _ _ with hset | hset <;> rw [hset]
  · exact Or.inr rfl
  · rw [setWhen_passed (by decide)]
    exact Or.inl hremoved

theorem rewrite_connection :
    g.rewrite w m h connection = none ∨ g.rewrite w m h connection = some ["Upgrade".toList] := by
  have hstripped : stripHopByHop h connection = none := delAll_self (by decide)
  unfold Gateway.rewrite
  rw [setWhen_passed (by decide), setWhen_passed (by decide), setWhen_passed (by decide), set_passed (by decide),
    set_passed (by decide), put_passed (by decide)]
  unfold stripSensitiveHostHeaders
  rw [delWhere_passed (by decide), delAll_passed (by decide), delAll_passed (by decide), setWhen_passed (by decide)]
  rw [← hstripped]
  exact (setWhen_self _ _).symm

/-- Between the gateway and the host only an upgrade and the end of the connection are asked for. -/
theorem upstream_connection (method : Text) :
    g.upstreamHeader method w m connection ∈ [[], ["Upgrade".toList], ["close".toList]] := by
  have hserved : (serveRewrite (g.rewrite w m) (Header.ofWire w)) connection = none ∨
      (serveRewrite (g.rewrite w m) (Header.ofWire w)) connection = some ["Upgrade".toList] := by
    unfold serveRewrite
    rw [keepUserAgent_passed (by decide)]
    exact rewrite_connection
  unfold Gateway.upstreamHeader roundTrip
  rw [if_neg fun hagent => absurd hagent.1 (by decide)]
  unfold withExtraHeaders Header.values
  dsimp only
  rcases setWhen_self _ _ with hset | hset <;> rw [hset]
  · decide
  · rw [setWhen_passed (by decide)]
    rcases hserved with h | h <;> rw [h] <;> decide

theorem upstream_passed (method : Text) (hname : name ∉ touched) (hforeign : nehemiahPrefix.isPrefixOf name = false) :
    g.upstreamHeader method w m name = if name ∈ namedHops (w connection) then [] else w name := by
  have hhop : name ∉ hopHeaders := notMem_of_touched hname (by decide)
  unfold Gateway.upstreamHeader
  rw [roundTrip_passed true method (ne_of_touched hname (by decide)) (ne_of_touched hname (by decide))
    (ne_of_touched hname (by decide))]
  unfold Header.values serveRewrite
  rw [keepUserAgent_passed (ne_of_touched hname (by decide)), rewrite_passed hname hforeign]
  have hagain : name ∉ (elements trimSpace (((prepare (Header.ofWire w) (Header.ofWire w)).delAll
      (["Forwarded", "X-Forwarded-For", "X-Forwarded-Host", "X-Forwarded-Proto"].map String.toList)).values connection)).map
        canonicalKey := by
    unfold Header.values
    rw [delAll_passed (by decide)]
    rcases prepare_connection (i := Header.ofWire w) (h := Header.ofWire w) with h | h <;> rw [h]
    · exact List.not_mem_nil
    · exact notMem_of_touched hname (by decide)
  rw [if_neg hagain, delAll_passed (notMem_of_touched hname (by decide)), prepare_passed hhop, values_ofWire]
  split_ifs
  · rfl
  · exact values_ofWire w name

theorem guest_passed (peer method : Text) (hname : name ∉ touched) (hforeign : nehemiahPrefix.isPrefixOf name = false)
    (hconnection : w connection ∈ [[], ["Upgrade".toList], ["close".toList]]) : guestHeader peer method w name = w name := by
  have hhop : name ∉ hopHeaders := notMem_of_touched hname (by decide)
  have hstripped {n : Text} (hlist : n ∉ ["Authorization", "Proxy-Authorization", "Cookie", "X-Api-Key",
      "Cf-Access-Jwt-Assertion", "Forwarded", "X-Forwarded-Host", "X-Forwarded-Proto", "X-Forwarded-Port", "X-Real-Ip"].map
        String.toList) (hp : nehemiahPrefix.isPrefixOf n = false) (hx : n ≠ forwardedFor) :
      Preview.stripGuestRequestHeaders (Header.ofWire w) n = Header.ofWire w n := by
    unfold Preview.stripGuestRequestHeaders
    rw [put_passed hx, delWhere_passed (p := fun name => "X-Nehemiah-".toList.isPrefixOf name) hp, delAll_passed hlist]
  have hvalues : (Preview.stripGuestRequestHeaders (Header.ofWire w)).values connection = w connection := by
    unfold Header.values
    rw [hstripped (by decide) (by decide) (by decide)]
    exact values_ofWire w connection
  have hnamed : name ∉ namedHops (w connection) := by
    simp only [List.mem_cons, List.not_mem_nil, or_false] at hconnection
    rcases hconnection with h | h | h <;> rw [h] <;> exact notMem_of_touched hname (by decide)
  unfold guestHeader
  rw [roundTrip_passed false method (ne_of_touched hname (by decide)) (ne_of_touched hname (by decide))
    (ne_of_touched hname (by decide))]
  unfold Header.values serveDirector
  rw [keepUserAgent_passed (ne_of_touched hname (by decide)), addForwardedFor_passed (ne_of_touched hname (by decide)),
    prepare_passed hhop, hvalues, if_neg hnamed, hstripped (notMem_of_touched hname (by decide)) hforeign
    (ne_of_touched hname (by decide))]
  exact values_ofWire w name

/-- **What differs is passed on as it is**, unless it is a header of the hop. -/
theorem delivered_passed (peer method : Text) (h : differsAtGuest name) :
    guestHeader peer method (g.upstreamHeader method w m) name = if name ∈ namedHops (w connection) then [] else w name := by
  obtain ⟨hname, hforeign⟩ := passed_untouched h
  rw [guest_passed peer method hname hforeign (upstream_connection method), upstream_passed method hname hforeign]

theorem delivered_withheld (peer method : Text) (h : credentialHeader name = true) : guestHeader peer method w name = [] := by
  have hne {n : Text} (hn : credentialHeader n = false) : name ≠ n := by
    rintro rfl
    rw [hn] at h
    cases h
  have hx : name ≠ forwardedFor := hne (by decide)
  have hstripped : Preview.stripGuestRequestHeaders (Header.ofWire w) name = none := by
    unfold Preview.stripGuestRequestHeaders
    rw [put_passed hx]
    rcases Bool.or_eq_true_iff.mp h with hforeign | hlist
    · exact delWhere_self hforeign
    · cases hp : "X-Nehemiah-".toList.isPrefixOf name with
      | true => exact delWhere_self hp
      | false =>
        rw [delWhere_passed (p := fun name => "X-Nehemiah-".toList.isPrefixOf name) hp]
        apply delAll_self
        have hsub : ∀ n ∈ ["Authorization", "Proxy-Authorization", "Cookie", "X-Api-Key", "Cf-Access-Jwt-Assertion"].map
            String.toList, n ∈ ["Authorization", "Proxy-Authorization", "Cookie", "X-Api-Key", "Cf-Access-Jwt-Assertion",
              "Forwarded", "X-Forwarded-Host", "X-Forwarded-Proto", "X-Forwarded-Port", "X-Real-Ip"].map String.toList := by
          decide
        exact hsub name (of_decide_eq_true hlist)
  have hprepared : prepare (Header.ofWire w) (Preview.stripGuestRequestHeaders (Header.ofWire w)) name = none := by
    unfold prepare
    rw [setWhen_passed (hne (by decide)), setWhen_passed (hne (by decide)), setWhen_passed (hne (by decide))]
    unfold removeHopByHopHeaders Header.delAll
    rw [hstripped]
    split_ifs <;> rfl
  unfold guestHeader
  rw [roundTrip_passed false method (hne (by decide)) (hne (by decide)) (hne (by decide))]
  unfold Header.values serveDirector
  rw [keepUserAgent_passed (hne (by decide)), addForwardedFor_passed hx, hprepared]
  rfl

end Passed

/-! ### Two deliveries -/

/-- How a request came to the guest. -/
structure Delivery (w : World) (r d : Request) where
  route : CapabilityRoute
  claims : Claims
  resolved : MachineRoute
  target : Text
  host : Preview.Host
  id : Text
  portText : Text
  rest : Text
  machine : Preview.Machine
  port : ℕ
  ip : Text
  hroute : routeOf? r.path = some route
  hclaims : w.gateway.claimsOf r route = .ok (claims, carried r.header)
  hresolve : w.gateway.resolve (w.gateway.lookupFor route claims) = .ok resolved
  htarget : w.gateway.hostTarget resolved.hostAddress = some target
  hhost : w.host? target = some host
  hweb : Preview.webRoute? (route.upstreamPath resolved.hostMachineId) = some (id, portText, rest)
  hmachine : host.machine? id = some machine
  hport : port? portText = some port
  hip : machine.ip = some ip
  hdelivered : d = Request.mk r.method (ip ++ ':' :: Nat.toDigits 10 port) ('/' :: rest) (upstreamQuery r.rawQuery)
    (guestHeader host.peer r.method (w.gateway.upstreamHeader r.method (carried r.header) resolved)) r.body

theorem resolved_ok {claims : Claims} {resolved : MachineRoute} (h : g.resolved route claims = .ok resolved) :
    g.resolve (g.lookupFor route claims) = .ok resolved := by
  unfold Gateway.resolved at h
  split at h
  · cases h
  · cases h
  · cases h
  · cases h
  · next hresolve =>
    split_ifs at h
    cases h
    exact hresolve

theorem serveHTTP_ok {target : Text} {upstream : Request} (h : g.serveHTTP r = .ok (target, upstream)) :
    ∃ route claims resolved, routeOf? r.path = some route ∧ g.claimsOf r route = .ok (claims, carried r.header) ∧
      g.resolved route claims = .ok resolved ∧ g.hostTarget resolved.hostAddress = some target ∧
      upstream = Request.mk r.method target (route.upstreamPath resolved.hostMachineId) (upstreamQuery r.rawQuery)
        (g.upstreamHeader r.method (carried r.header) resolved) r.body := by
  obtain ⟨route, hroute, hserve⟩ : ∃ route, routeOf? r.path = some route ∧ g.serveCapability r route = .ok (target, upstream) := by
    unfold Gateway.serveHTTP at h
    unfold routeOf?
    split at h
    · cases h
    · next route hpreview =>
      split_ifs at h
      rw [hpreview]
      exact ⟨route, rfl, h⟩
    · next hother =>
      rw [hother]
      split at h
      · next route hmachine => exact ⟨route, hmachine, h⟩
      · cases h
  unfold Gateway.serveCapability at hserve
  split_ifs at hserve
  split at hserve
  · cases hserve
  · next claims header hclaims =>
    obtain rfl := claimsOf_carried hclaims
    unfold Gateway.serveRoute at hserve
    split at hserve
    · cases hserve
    · next resolved hresolved =>
      split_ifs at hserve
      unfold Gateway.proxyToHost at hserve
      split at hserve
      · cases hserve
      · next address haddress =>
        split_ifs at hserve
        cases hserve
        exact ⟨route, claims, resolved, hroute, hclaims, hresolved, haddress, rfl⟩

theorem World.deliver_some (h : w.deliver r = some d) : Nonempty (Delivery w r d) := by
  unfold World.deliver at h
  split at h
  · next target upstream hserve =>
    obtain ⟨route, claims, resolved, hroute, hclaims, hresolved, htarget, rfl⟩ := serveHTTP_ok hserve
    obtain ⟨host, hhost, hhandled⟩ := Option.bind_eq_some_iff.mp h
    obtain ⟨id, portText, rest, machine, port, ip, hweb, hmachine, hport, hip, rfl⟩ := Preview.handleWebProxy_some hhandled
    exact ⟨⟨route, claims, resolved, target, host, id, portText, rest, machine, port, ip, hroute, hclaims,
      resolved_ok hresolved, htarget, hhost, hweb, hmachine, hport, hip, rfl⟩⟩
  · cases h

/-- Two deliveries in worlds that are the same apart from tokens and leases come out at the same guest. -/
theorem Delivery.same {w' : World} {d' : Request} (e : Delivery w r d) (e' : Delivery w' r' d') (hw : SameWorld w w')
    (hpath : r.path = r'.path) (hclaims : SameClaims e.claims e'.claims) :
    e.host.peer = e'.host.peer ∧ e.ip = e'.ip ∧ e.port = e'.port ∧ e.rest = e'.rest := by
  have hroute : e.route = e'.route := by
    have h := e'.hroute
    rw [← hpath, e.hroute] at h
    exact Option.some.inj h
  have hlookup : SameLookup (w.gateway.lookupFor e.route e.claims) (w'.gateway.lookupFor e'.route e'.claims) := by
    unfold SameLookup Gateway.lookupFor
    rw [hclaims, hroute]
  obtain ⟨haddress, hid⟩ := hw.machine _ _ _ _ hlookup e.hresolve e'.hresolve
  have htarget : e.target = e'.target := by
    have h := e'.htarget
    rw [← haddress, ← hw.hostTarget, e.htarget] at h
    exact Option.some.inj h
  have hweb : (e.id, e.portText, e.rest) = (e'.id, e'.portText, e'.rest) := by
    have h := e'.hweb
    rw [← hid, ← hroute, e.hweb] at h
    exact Option.some.inj h
  obtain ⟨hmachineId, hportText, hrest⟩ : e.id = e'.id ∧ e.portText = e'.portText ∧ e.rest = e'.rest := by
    simpa only [Prod.mk.injEq] using hweb
  have hhost' := e'.hhost
  rw [← htarget] at hhost'
  have hmachine' := e'.hmachine
  rw [← hmachineId] at hmachine'
  refine ⟨hw.peer _ _ _ e.hhost hhost', ?_, ?_, hrest⟩
  · have h := hw.ip _ _ _ _ _ _ e.hhost hhost' e.hmachine hmachine'
    rw [e.hip, e'.hip] at h
    exact Option.some.inj h
  · have h := e'.hport
    rw [← hportText, e.hport] at h
    exact Option.some.inj h

theorem Delivery.claims_eq (e : Delivery w r d) {c : Claims} (h : w.claims? r = some c) : e.claims = c := by
  unfold World.claims? at h
  rw [e.hroute] at h
  dsimp only at h
  rw [e.hclaims] at h
  exact Option.some.inj h

/-- The header that the guest receives, as far as the requests can differ. -/
theorem Delivery.header (e : Delivery w r d) (hname : differsAtGuest name) :
    d.header name = if name ∈ namedHops (r.header connection) then [] else carried r.header name := by
  rw [e.hdelivered]
  show guestHeader _ _ _ name = _
  rw [delivered_passed _ _ hname]
  rfl

theorem Delivery.eq_mk (e : Delivery w r d) :
    d = Request.mk r.method (e.ip ++ ':' :: Nat.toDigits 10 e.port) ('/' :: e.rest) (upstreamQuery r.rawQuery) d.header
      r.body := by
  have hheader := congrArg Request.header e.hdelivered
  rw [hheader]
  exact e.hdelivered

theorem Delivery.withheld (e : Delivery w r d) : Withheld d := by
  rw [e.hdelivered]
  exact ⟨fun name hname => delivered_withheld _ _ hname, upstreamQuery_withheld r.rawQuery⟩

/-- What the gateway goes on with is the same apart from what two requests may differ in. -/
theorem SameRequest.carried (h : SameRequest r r') (hname : ¬differsAtGateway name) :
    carried r.header name = carried r'.header name := by
  obtain ⟨hcarrier, hforwarding, hprotocol⟩ :
      carrierHeader name = false ∧ forwardingHeader name = false ∧ name ≠ secWebSocketProtocol := by
    unfold differsAtGateway at hname
    push Not at hname
    exact ⟨Bool.eq_false_iff.mpr hname.1, Bool.eq_false_iff.mpr hname.2.1, hname.2.2⟩
  unfold DataPlane.carried
  rw [if_neg fun hand => hprotocol hand.1, if_neg fun hand => hprotocol hand.1]
  exact h.header name hcarrier hforwarding hprotocol

/-- The subprotocols that are passed on are the same exactly when both or neither are written anew, or that changes nothing. -/
theorem carried_protocols {lines lines' : List Text} (h : SameProtocols lines lines') :
    (if offersToken lines then rewritten lines else lines) = (if offersToken lines' then rewritten lines' else lines') ↔
      offersToken lines = offersToken lines' ∨ (if offersToken lines then lines' = rewritten lines' else lines = rewritten lines) := by
  have hrewritten : rewritten lines = rewritten lines' := by
    unfold rewritten
    rw [h.1]
  cases hoffers : offersToken lines <;> cases hoffers' : offersToken lines' <;>
    simp only [if_true, if_false, Bool.false_eq_true, true_or, iff_true, reduceCtorEq, false_or]
  · exact h.2 hoffers hoffers'
  · rw [hrewritten]
  · rw [hrewritten]
    exact eq_comm
  · exact hrewritten

/-- The gateway and the guest agree on every name in which the requests cannot differ. -/
theorem Delivery.header_same {w' : World} {d' : Request} (e : Delivery w r d) (e' : Delivery w' r' d')
    (hw : SameWorld w w') (hr : SameRequest r r') (hpeer : e.host.peer = e'.host.peer) (hname : ¬differsAtGuest name) :
    d.header name = d'.header name := by
  rw [e.hdelivered, e'.hdelivered]
  show guestHeader _ _ _ name = guestHeader _ _ _ name
  rw [hpeer, hr.method]
  apply guest_agree _ _ _ hname
  intro n hn
  exact upstream_agree _ (fun _ h => hr.carried h) hw.requestId hw.traceparent hw.tracestate hn

/-- **Two requests are the same to the guest, and show it no credential, exactly when they agree on the forwarding headers
that are passed on and carry the token alike.**  They may differ in the token and its carrier, and the worlds in the
tokens and the leases. -/
theorem guest_sees_no_credentials {w w' : World} {r r' d d' : Request} {c c' : Claims} (hw : SameWorld w w')
    (hr : SameRequest r r') (hc : w.claims? r = some c) (hc' : w'.claims? r' = some c') (hclaims : SameClaims c c')
    (hd : w.deliver r = some d) (hd' : w'.deliver r' = some d') :
    (d = d' ∧ Withheld d ∧ Withheld d') ↔ SamePassedOn r r' ∧ SameCarriage r r' := by
  obtain ⟨e⟩ := w.deliver_some hd
  obtain ⟨e'⟩ := w'.deliver_some hd'
  rw [← e.claims_eq hc, ← e'.claims_eq hc'] at hclaims
  obtain ⟨hpeer, hip, hport, hrest⟩ := e.same e' hw hr.path hclaims
  have hconnection : r.header connection = r'.header connection :=
    hr.header connection (by decide) (by decide) (by decide)
  have hcarried {name : Text} (hname : passedOn name = true) (r : Request) : carried r.header name = r.header name := by
    refine if_neg fun hand => ?_
    rw [hand.1] at hname
    exact absurd hname (by decide)
  constructor
  · rintro ⟨rfl, -, -⟩
    constructor
    · intro name hname hhop
      have h := (e.header (Or.inl hname)).symm.trans (e'.header (Or.inl hname))
      rw [← hconnection, if_neg hhop, if_neg hhop, hcarried hname, hcarried hname] at h
      exact h
    · by_cases hhop : secWebSocketProtocol ∈ namedHops (r.header connection)
      · exact Or.inl hhop
      · refine Or.inr ((carried_protocols hr.protocols).mp ?_)
        have h := (e.header (Or.inr rfl)).symm.trans (e'.header (Or.inr rfl))
        rw [← hconnection, if_neg hhop, if_neg hhop] at h
        simpa only [carried, true_and] using h
  · rintro ⟨hpassed, hcarriage⟩
    refine ⟨?_, e.withheld, e'.withheld⟩
    have hheader : d.header = d'.header := by
      funext name
      by_cases hname : differsAtGuest name
      · rw [e.header hname, e'.header hname, ← hconnection]
        by_cases hhop : name ∈ namedHops (r.header connection)
        · rw [if_pos hhop, if_pos hhop]
        · rw [if_neg hhop, if_neg hhop]
          rcases hname with hname | rfl
          · rw [hcarried hname, hcarried hname]
            exact hpassed name hname hhop
          · have h := (carried_protocols hr.protocols).mpr (hcarriage.resolve_left hhop)
            simpa only [carried, true_and] using h
      · exact e.header_same e' hw hr hpeer hname
    rw [e.eq_mk, e'.eq_mk, hheader, hr.method, hr.body, hip, hport, hrest, upstreamQuery_congr hr.query]

/-! ### Samples -/

def wireOf (fields : List (String × String)) : Wire := fun name =>
  (fields.filter fun f => decide (f.1.toList = name)).map fun f => f.2.toList

def sampleClaims (leaseId : String) : Claims where
  subject := "m_1".toList
  organization := "org".toList
  project := "project".toList
  leaseId := leaseId.toList
  jwtId := "grant".toList
  capabilities := [.preview]
  port := some 80
  issuedAt := 0
  expiresAt := 300

/-- One machine with a preview on port 80, and the tokens `A` and `B` for it. -/
def sampleWorld (leaseId hostToken : String) : World where
  gateway :=
    { previewBaseDomain := []
      sha256Hex := fun _ => "0123456789abcdef0123456789abcdef".toList
      maxRequestBytes := 1048576
      verify := fun token now => if token ∈ [['A'], ['B']] ∧ now < 300 then some (sampleClaims leaseId) else none
      resolve := fun l => .ok
        { hostAddress := "10.0.0.1".toList
          hostMachineId := "machine".toList
          leaseId := l.leaseId
          organization := l.organization
          project := l.project
          capabilityId := l.capabilityId
          capabilities := l.capabilities.map Capability.text
          capabilityPort := l.previewPort
          capabilityExpiresAt := l.expiresAt
          streamId := l.streamId
          streamBandwidth := l.streamBandwidth
          streamExpiresAt := 30
          hostToken := hostToken.toList
          expiresAt := l.expiresAt }
      hostTarget := fun address => some (address ++ ":8080".toList)
      now := 1
      resolvedAt := 2
      streamId := "stream".toList
      streamInstance := "gateway".toList
      streamBandwidth := 1
      draining := false
      connectionLeft := true
      requestId := "request".toList
      traceparent := []
      tracestate := [] }
  host? := fun _ => some
    { token := hostToken.toList
      machine? := fun id => if id = "machine".toList then some ⟨leaseId.toList, some "172.16.0.2".toList⟩ else none
      peer := "10.0.0.9".toList }

def sampleRequest (fields : List (String × String)) : Request where
  method := "GET".toList
  host := "preview.example".toList
  path := "/preview/m_1/80/index".toList
  rawQuery := "b=2&a=1".toList
  header := wireOf (("Accept", "text/html") :: fields)
  body := []

/-- Requests that carry the token in different headers are otherwise the same. -/
theorem sampleRequest_same {fields fields' : List (String × String)}
    (h : ∀ f ∈ fields ++ fields', carrierHeader f.1.toList = true ∨ forwardingHeader f.1.toList = true
      ∨ f.1.toList = secWebSocketProtocol)
    (hprotocols : SameProtocols ((sampleRequest fields).header secWebSocketProtocol)
      ((sampleRequest fields').header secWebSocketProtocol)) :
    SameRequest (sampleRequest fields) (sampleRequest fields') := by
  refine ⟨rfl, rfl, rfl, rfl, fun name hcarrier hforwarding hprotocol => ?_, hprotocols⟩
  have hnone {fs : List (String × String)} (hfs : ∀ f ∈ fs, f ∈ fields ++ fields') :
      fs.filter (fun f => decide (f.1.toList = name)) = [] := by
    apply List.filter_eq_nil_iff.mpr
    intro f hf heq
    have heq := of_decide_eq_true heq
    rcases h f (hfs f hf) with h | h | h
    · rw [heq, hcarrier] at h
      cases h
    · rw [heq, hforwarding] at h
      cases h
    · exact hprotocol (heq ▸ h)
  show ((("Accept", "text/html") :: fields).filter _).map _ = ((("Accept", "text/html") :: fields').filter _).map _
  rw [List.filter_cons, List.filter_cons, hnone fun f hf => List.mem_append_left _ hf,
    hnone fun f hf => List.mem_append_right _ hf]

theorem sampleWorld_same (leaseId leaseId' hostToken hostToken' : String) :
    SameWorld (sampleWorld leaseId hostToken) (sampleWorld leaseId' hostToken') := by
  refine ⟨rfl, rfl, rfl, rfl, ?_, ?_, ?_⟩
  · rintro l l' m m' - ⟨⟩ ⟨⟩
    exact ⟨rfl, rfl⟩
  · rintro address h h' ⟨⟩ ⟨⟩
    rfl
  · rintro address h h' id m m' ⟨⟩ ⟨⟩ hm hm'
    dsimp only at hm hm'
    split_ifs at hm hm'
    cases hm
    cases hm'
    rfl

/-- A token in the header against another one in the session cookie, another lease and another token of the host. -/
theorem guest_sees_no_credentials_sample : ∃ d,
    (sampleWorld "lease-1" "host-token-1").deliver (sampleRequest [("Authorization", "Bearer A"), ("X-Real-Ip", "192.0.2.1")]) =
      some d ∧
    (sampleWorld "lease-2" "host-token-2").deliver (sampleRequest [("Cookie", "nehemiah_preview_0123456789abcdef=B")]) =
      some d ∧ Withheld d := by
  obtain ⟨d, hd⟩ := Option.isSome_iff_exists.mp (show ((sampleWorld "lease-1" "host-token-1").deliver
    (sampleRequest [("Authorization", "Bearer A"), ("X-Real-Ip", "192.0.2.1")])).isSome = true by decide +kernel)
  obtain ⟨d', hd'⟩ := Option.isSome_iff_exists.mp (show ((sampleWorld "lease-2" "host-token-2").deliver
    (sampleRequest [("Cookie", "nehemiah_preview_0123456789abcdef=B")])).isSome = true by decide +kernel)
  have hpassed : ∀ name, passedOn name = true →
      (sampleRequest [("Authorization", "Bearer A"), ("X-Real-Ip", "192.0.2.1")]).header name =
        (sampleRequest [("Cookie", "nehemiah_preview_0123456789abcdef=B")]).header name := by
    intro name hname
    have hne {other : Text} (hother : passedOn other = false) : ¬other = name := by
      rintro rfl
      rw [hother] at hname
      cases hname
    unfold sampleRequest wireOf
    simp only [List.filter_cons, List.filter_nil, decide_eq_false (hne (show passedOn "Accept".toList = false by decide)),
      decide_eq_false (hne (show passedOn "Authorization".toList = false by decide)),
      decide_eq_false (hne (show passedOn "X-Real-Ip".toList = false by decide)),
      decide_eq_false (hne (show passedOn "Cookie".toList = false by decide)), Bool.false_eq_true, if_false]
  obtain ⟨rfl, hwithheld, -⟩ := (guest_sees_no_credentials (sampleWorld_same _ _ _ _)
    (sampleRequest_same (by decide) ⟨by decide, fun _ _ => by decide⟩)
    (show _ = some (sampleClaims "lease-1") by decide +kernel) (show _ = some (sampleClaims "lease-2") by decide +kernel)
    rfl hd hd').mpr ⟨fun name hname _ => hpassed name hname, Or.inr (Or.inl (by decide))⟩
  exact ⟨d, hd, hd', hwithheld⟩

/-- The address that an edge, or a client, puts into `Cf-Connecting-Ip` comes to the guest; and the guest tells a token
among the subprotocols from one in the `Authorization` header by the blank that the gateway writes. -/
theorem forwarding_reaches_guest :
    ((sampleWorld "lease-1" "host-token-1").deliver
        (sampleRequest [("Authorization", "Bearer A"), ("Cf-Connecting-Ip", "198.51.100.201")])).map
          (fun d => d.header "Cf-Connecting-Ip".toList) = some ["198.51.100.201".toList] ∧
      SameRequest (sampleRequest [("Authorization", "Bearer A"), ("Sec-Websocket-Protocol", "chat,superchat")])
        (sampleRequest [("Sec-Websocket-Protocol", "chat,superchat,nehemiah.capability.B")]) ∧
      (sampleWorld "lease-1" "host-token-1").claims?
        (sampleRequest [("Authorization", "Bearer A"), ("Sec-Websocket-Protocol", "chat,superchat")]) =
          some (sampleClaims "lease-1") ∧
      (sampleWorld "lease-1" "host-token-1").claims?
        (sampleRequest [("Sec-Websocket-Protocol", "chat,superchat,nehemiah.capability.B")]) =
          some (sampleClaims "lease-1") ∧
      ((sampleWorld "lease-1" "host-token-1").deliver
        (sampleRequest [("Authorization", "Bearer A"), ("Sec-Websocket-Protocol", "chat,superchat")])).map
          (fun d => d.header secWebSocketProtocol) = some ["chat,superchat".toList] ∧
      ((sampleWorld "lease-1" "host-token-1").deliver
        (sampleRequest [("Sec-Websocket-Protocol", "chat,superchat,nehemiah.capability.B")])).map
          (fun d => d.header secWebSocketProtocol) = some ["chat, superchat".toList] :=
  ⟨by decide +kernel, sampleRequest_same (by decide) ⟨by decide +kernel, fun _ h => absurd h (by decide +kernel)⟩,
    by decide +kernel, by decide +kernel, by decide +kernel, by decide +kernel⟩

end Nehemiah.DataPlane
