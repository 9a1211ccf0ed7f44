import Nehemiah.Lib.Query

/-!
# Headers and reverse proxies

`http.Header` and `httputil.ReverseProxy` of Go.  A header on the wire gives each name its values.  In a proxy a name
can also be present without a value, and `some []` is such an entry: `X-Forwarded-For` uses it to say that no value is
to be made up.  Texts of headers are lists of code points, and names are in canonical form, as the server reads them.

`AgreeOff S h h'` says that two headers are the same apart from the names in `S`.  Every operation of a proxy keeps it,
and what it deletes or sets leaves `S`.
-/

namespace Nehemiah.Http

/-! ### Texts -/

/-- The white space of `TrimSpace`. -/
def isSpace (c : Char) : Bool :=
  "\t\n\r \u000B\u000C\u0085\u00A0\u1680\u2028\u2029\u202F\u205F\u3000".toList.contains c
    || decide ('\u2000' ≤ c ∧ c ≤ '\u200A')

def trimBy (p : Char → Bool) (t : Text) : Text := ((t.dropWhile p).reverse.dropWhile p).reverse

def trimSpace (t : Text) : Text := trimBy isSpace t

/-- The optional white space of a header, which the library trims. -/
def trimOws (t : Text) : Text := trimBy (fun c => c = ' ' || c = '\t') t

/-- The comparison of tokens, in which only ASCII letters are folded; the right side is in lower case. -/
def tokenEqual (t lower : Text) : Bool := decide (t.map Char.toLower = lower)

/-- The lower case of `EqualFold`: two more characters fold to ASCII letters. -/
def foldChar (c : Char) : Char := if c = '\u212A' then 'k' else if c = '\u017F' then 's' else c.toLower

/-- `EqualFold`, for a right side of lower-case ASCII letters. -/
def equalFold (t lower : Text) : Bool := decide (t.map foldChar = lower)

def tokenByte (c : Char) : Bool := c.isAlphanum || "!#$%&'*+-.^_`|~".toList.contains c

def canonicalFrom (upper : Bool) : Text → Text
  | [] => []
  | c :: t => (if upper then c.toUpper else c.toLower) :: canonicalFrom (decide (c = '-')) t

/-- `CanonicalHeaderKey`. -/
def canonicalKey (name : Text) : Text := if name.all tokenByte then canonicalFrom true name else name

/-- The elements of lists that are separated by commas. -/
def elements (trim : Text → Text) (lines : List Text) : List Text := lines.flatMap fun line => (line.splitOn ',').map trim

/-- `Atoi`, of which the callers check the range. -/
def atoi? (t : Text) : Option ℤ :=
  let number (digits : Text) : Option ℕ :=
    if digits ≠ [] ∧ digits.all Char.isDigit then some (digits.foldl (fun n c => 10 * n + (c.toNat - 48)) 0) else none
  match t with
  | '+' :: digits => (number digits).map Int.ofNat
  | '-' :: digits => (number digits).map fun n => -Int.ofNat n
  | digits => (number digits).map Int.ofNat

/-- A port of the text, from 1 to 65535. -/
def port? (t : Text) : Option ℕ :=
  match atoi? t with
  | some n => if 1 ≤ n ∧ n ≤ 65535 then some n.toNat else none
  | none => none

/-! ### Headers -/

/-- The values of each name, as they are on the wire. -/
abbrev Wire := Text → List Text

/-- A header in a program. -/
abbrev Header := Text → Option (List Text)

namespace Header

def ofWire (w : Wire) : Header := fun name => if w name = [] then none else some (w name)

def values (h : Header) : Wire := fun name => (h name).getD []

def get (h : Header) (name : Text) : Text := ((h.values name).head?).getD []

/-- The one proof by which all modules decide whether a text is in a list. -/
instance instLawfulBEqText : LawfulBEq Text := inferInstance

def delAll (h : Header) (names : List Text) : Header := fun name => if name ∈ names then none else h name

def delWhere (h : Header) (p : Text → Bool) : Header := fun name => if p name then none else h name

def put (h : Header) (name : Text) (vs : List Text) : Header := fun other => if other = name then some vs else h other

def set (h : Header) (name value : Text) : Header := h.put name [value]

def setWhen (h : Header) (c : Bool) (name value : Text) : Header := if c then h.set name value else h

/-- `HeaderValuesContainsToken`, for a token in lower case. -/
def containsToken (lines : List Text) (token : Text) : Bool := (elements trimOws lines).any fun e => tokenEqual e token

end Header

/-! ### Names -/

def connection : Text := "Connection".toList
def upgrade : Text := "Upgrade".toList
def te : Text := "Te".toList
def userAgent : Text := "User-Agent".toList
def acceptEncoding : Text := "Accept-Encoding".toList
def rangeName : Text := "Range".toList
def forwardedFor : Text := "X-Forwarded-For".toList

/-- `hopHeaders`. -/
def hopHeaders : List Text :=
  ["Connection", "Proxy-Connection", "Keep-Alive", "Proxy-Authenticate", "Proxy-Authorization", "Te", "Trailer",
    "Transfer-Encoding", "Upgrade"].map String.toList

/-- The names that the values of `Connection` name. -/
def namedHops (lines : List Text) : List Text := (elements trimOws lines).map canonicalKey

/-- `removeHopByHopHeaders`. -/
def removeHopByHopHeaders (h : Header) : Header := (h.delAll (namedHops (h.values connection))).delAll hopHeaders

/-- `upgradeType`. -/
def upgradeType (h : Header) : Text :=
  if Header.containsToken (h.values connection) "upgrade".toList then h.get upgrade else []

/-- The protocol of an upgrade has to be printable, or nothing is proxied. -/
def upgradePrintable (h : Header) : Bool := (upgradeType h).all fun c => decide (' ' ≤ c ∧ c ≤ '~')

/-! ### The proxy -/

/-- A request as a server reads it: the path is decoded, the query is not. -/
structure Request where
  method : Text
  host : Text
  path : Text
  rawQuery : Text
  header : Wire
  body : Text

/-- `ReverseProxy` before it rewrites: the headers of one hop go, and an upgrade is asked for again. -/
def prepare (inbound outbound : Header) : Header :=
  let asked := upgradeType outbound
  let h := removeHopByHopHeaders outbound
  let h := h.setWhen (Header.containsToken (inbound.values te) "trailers".toList) te "trailers".toList
  (h.setWhen (asked ≠ []) connection "Upgrade".toList).setWhen (asked ≠ []) upgrade asked

/-- No user agent of its own is made up. -/
def keepUserAgent (h : Header) : Header := if h userAgent = none then h.put userAgent [[]] else h

/-- `ReverseProxy.ServeHTTP` with `Rewrite`. -/
def serveRewrite (rewrite : Header → Header) (inbound : Header) : Header :=
  let h := prepare inbound inbound
  let h := h.delAll (["Forwarded", "X-Forwarded-For", "X-Forwarded-Host", "X-Forwarded-Proto"].map String.toList)
  keepUserAgent (rewrite h)

/-- `X-Forwarded-For` with the address of the peer, unless it is present without a value. -/
def addForwardedFor (peer : Text) (h : Header) : Header :=
  if h forwardedFor = some [] then h
  else h.set forwardedFor ([',', ' '].intercalate (h.values forwardedFor ++ [peer]))

/-- `ReverseProxy.ServeHTTP` with `Director`, which runs first. -/
def serveDirector (peer : Text) (director : Header → Header) (inbound : Header) : Header :=
  let h := prepare inbound (director inbound)
  keepUserAgent (addForwardedFor peer h)

/-- What `Transport` adds: a request for compression when the client left that open, and the end of the connection when
connections are not kept alive and the protocol is not switched. -/
def withExtraHeaders (disableKeepAlives : Bool) (method : Text) (h : Header) : Header :=
  let compress := h.get acceptEncoding = [] ∧ h.get rangeName = [] ∧ method ≠ "HEAD".toList
  let switches := Header.containsToken (h.values connection) "upgrade".toList ∧ h.get upgrade ≠ []
  (h.setWhen compress acceptEncoding "gzip".toList).setWhen (disableKeepAlives = true ∧ ¬switches) connection "close".toList

/-- What `Transport` writes; an empty user agent is left out. -/
def roundTrip (disableKeepAlives : Bool) (method : Text) (h : Header) : Wire :=
  let h := withExtraHeaders disableKeepAlives method h
  fun name => if name = userAgent ∧ h.get userAgent = [] then [] else h.values name

/-! ### Headers that are the same apart from some names -/

def AgreeOff (S : Text → Prop) (h h' : Header) : Prop := ∀ name, ¬S name → h name = h' name

namespace AgreeOff

variable {S T : Text → Prop} {h h' i i' : Header} {name : Text}

theorem mono (hh : AgreeOff S h h') (hST : ∀ name, S name → T name) : AgreeOff T h h' :=
  fun name hname => hh name fun hS => hname (hST name hS)

theorem values (hh : AgreeOff S h h') (hname : ¬S name) : h.values name = h'.values name := by
  show (h name).getD [] = (h' name).getD []
  rw [hh name hname]

theorem get (hh : AgreeOff S h h') (hname : ¬S name) : h.get name = h'.get name := by
  show ((h.values name).head?).getD [] = ((h'.values name).head?).getD []
  rw [hh.values hname]

theorem delAll (hh : AgreeOff S h h') (names : List Text) :
    AgreeOff (fun n => S n ∧ n ∉ names) (h.delAll names) (h'.delAll names) := by
  intro n hn
  show (if n ∈ names then none else h n) = if n ∈ names then none else h' n
  split_ifs with hmem
  · rfl
  · exact hh n fun hS => hn ⟨hS, hmem⟩

theorem delWhere (hh : AgreeOff S h h') (p : Text → Bool) :
    AgreeOff (fun n => S n ∧ p n = false) (h.delWhere p) (h'.delWhere p) := by
  intro n hn
  show (if p n then none else h n) = if p n then none else h' n
  split_ifs with hp
  · rfl
  · exact hh n fun hS => hn ⟨hS, Bool.eq_false_iff.mpr hp⟩

theorem put (hh : AgreeOff S h h') (name : Text) (vs : List Text) :
    AgreeOff (fun n => S n ∧ n ≠ name) (h.put name vs) (h'.put name vs) := by
  intro n hn
  show (if n = name then some vs else h n) = if n = name then some vs else h' n
  split_ifs with heq
  · rfl
  · exact hh n fun hS => hn ⟨hS, heq⟩

theorem set (hh : AgreeOff S h h') (name value : Text) : AgreeOff S (h.set name value) (h'.set name value) :=
  (hh.put name [value]).mono fun _ hn => hn.1

theorem setWhen (hh : AgreeOff S h h') {c c' : Bool} (hc : c = c') (name value : Text) :
    AgreeOff S (h.setWhen c name value) (h'.setWhen c' name value) := by
  subst hc
  cases c with
  | false => exact hh
  | true => exact hh.set name value

theorem upgradeType (hh : AgreeOff S h h') (hc : ¬S connection) (hu : ¬S upgrade) :
    upgradeType h = upgradeType h' := by
  unfold Http.upgradeType
  rw [hh.values hc, hh.get hu]

theorem removeHopByHopHeaders (hh : AgreeOff S h h') (hc : ¬S connection) :
    AgreeOff S (removeHopByHopHeaders h) (removeHopByHopHeaders h') := by
  unfold Http.removeHopByHopHeaders
  rw [hh.values hc]
  exact ((hh.delAll _).delAll _).mono fun _ hn => hn.1.1

/-- The names that `prepare` reads are those of the connection, the upgrade and the trailers. -/
theorem prepare (hi : AgreeOff T i i') (hh : AgreeOff S h h') (hc : ¬S connection) (hu : ¬S upgrade) (ht : ¬T te) :
    AgreeOff S (prepare i h) (prepare i' h') := by
  unfold Http.prepare
  dsimp only
  rw [hh.upgradeType hc hu, hi.values ht]
  exact (((hh.removeHopByHopHeaders hc).setWhen rfl _ _).setWhen rfl _ _).setWhen rfl _ _

theorem keepUserAgent (hh : AgreeOff S h h') (hu : ¬S userAgent) :
    AgreeOff S (keepUserAgent h) (keepUserAgent h') := by
  unfold Http.keepUserAgent
  rw [hh userAgent hu]
  split_ifs
  · exact (hh.put _ _).mono fun _ hn => hn.1
  · exact hh

theorem addForwardedFor (hh : AgreeOff S h h') (hf : ¬S forwardedFor) (peer : Text) :
    AgreeOff S (addForwardedFor peer h) (addForwardedFor peer h') := by
  unfold Http.addForwardedFor
  rw [hh forwardedFor hf, hh.values hf]
  split_ifs
  · exact hh
  · exact hh.set _ _

theorem roundTrip (hh : AgreeOff S h h') (ha : ¬S acceptEncoding) (hr : ¬S rangeName) (hc : ¬S connection)
    (hu : ¬S upgrade) (hg : ¬S userAgent) (disableKeepAlives : Bool) (method : Text) (hname : ¬S name) :
    roundTrip disableKeepAlives method h name = roundTrip disableKeepAlives method h' name := by
  have hextra : AgreeOff S (withExtraHeaders disableKeepAlives method h) (withExtraHeaders disableKeepAlives method h') := by
    unfold withExtraHeaders
    rw [hh.get ha, hh.get hr, hh.values hc, hh.get hu]
    exact (hh.setWhen rfl _ _).setWhen rfl _ _
  unfold Http.roundTrip
  rw [hextra.get hg, hextra.values hname]

end AgreeOff

namespace AgreeOff

variable {S T : Text → Prop} {i i' : Header} {f f' : Header → Header}

theorem serveRewrite (hi : AgreeOff S i i') (hc : ¬S connection) (hu : ¬S upgrade) (ht : ¬S te) (hg : ¬T userAgent)
    (hf : ∀ h h', AgreeOff S h h' → AgreeOff T (f h) (f' h')) : AgreeOff T (serveRewrite f i) (serveRewrite f' i') :=
  (hf _ _ (((hi.prepare hi hc hu ht).delAll _).mono fun _ hn => hn.1)).keepUserAgent hg

theorem serveDirector (hi : AgreeOff S i i') (ht : ¬S te) (hc : ¬T connection) (hu : ¬T upgrade) (hg : ¬T userAgent)
    (hx : ¬T forwardedFor) (hf : AgreeOff T (f i) (f' i')) (peer : Text) :
    AgreeOff T (serveDirector peer f i) (serveDirector peer f' i') :=
  ((hi.prepare hf hc hu ht).addForwardedFor hx peer).keepUserAgent hg

end AgreeOff

/-! ### Names that a proxy passes on -/

section Passed

variable {h i : Header} {name : Text}

theorem delAll_passed {names : List Text} (hname : name ∉ names) : h.delAll names name = h name := if_neg hname

theorem delAll_self {names : List Text} (hname : name ∈ names) : h.delAll names name = none := if_pos hname

theorem delWhere_self {p : Text → Bool} (hname : p name = true) : h.delWhere p name = none := if_pos hname

theorem setWhen_self (c : Bool) (value : Text) :
    h.setWhen c name value name = some [value] ∨ h.setWhen c name value name = h name := by
  cases c with
  | true => exact Or.inl (if_pos rfl)
  | false => exact Or.inr rfl

theorem delWhere_passed {p : Text → Bool} (hname : p name = false) : h.delWhere p name = h name := by
  show (if p name then none else h name) = h name
  rw [hname]
  rfl

theorem put_passed {other : Text} {vs : List Text} (hname : name ≠ other) : h.put other vs name = h name := if_neg hname

theorem set_passed {other value : Text} (hname : name ≠ other) : h.set other value name = h name := if_neg hname

theorem setWhen_passed {c : Bool} {other value : Text} (hname : name ≠ other) : h.setWhen c other value name = h name := by
  cases c with
  | false => rfl
  | true => exact set_passed hname

theorem prepare_passed (hhop : name ∉ hopHeaders) :
    prepare i h name = if name ∈ namedHops (h.values connection) then none else h name := by
  have hc : name ≠ connection := fun heq => hhop (heq ▸ by decide)
  have hu : name ≠ upgrade := fun heq => hhop (heq ▸ by decide)
  have ht : name ≠ te := fun heq => hhop (heq ▸ by decide)
  unfold prepare
  rw [setWhen_passed hu, setWhen_passed hc, setWhen_passed ht]
  exact delAll_passed hhop

theorem keepUserAgent_passed (hname : name ≠ userAgent) : keepUserAgent h name = h name := by
  unfold keepUserAgent
  split_ifs
  · exact put_passed hname
  · rfl

theorem addForwardedFor_passed {peer : Text} (hname : name ≠ forwardedFor) : addForwardedFor peer h name = h name := by
  unfold addForwardedFor
  split_ifs
  · rfl
  · exact set_passed hname

theorem roundTrip_passed (disableKeepAlives : Bool) (method : Text) (ha : name ≠ acceptEncoding) (hc : name ≠ connection)
    (hg : name ≠ userAgent) : roundTrip disableKeepAlives method h name = h.values name := by
  unfold roundTrip
  rw [if_neg fun hagent => hg hagent.1]
  unfold Header.values withExtraHeaders
  rw [setWhen_passed hc, setWhen_passed ha]

end Passed

end Nehemiah.Http
