import Nehemiah.Gateway.Credentials
import Nehemiah.Lib.Spelling

/-!
# What the guest is asked for through a preview

The gateway decodes the path of a preview, joins it to the path of the machine at the host and drops `RawPath`.  The host
matches the path as it is escaped anew, and decodes what is below the port.  Two proxies later the guest has the path in the
spelling of `net/url`, and the query as `Encode` writes it; a path with an empty segment is redirected on the way.  A
`Location` of the guest is respelled in the same way.  `preview_transparent` says when nothing of this is seen.
-/

namespace Nehemiah.DataPlane

open Http

/-! ### The two proxies -/

/-- `proxyToHost`: the path on the wire to the host. -/
def gatewayPath (localMachineId raw : Text) : Option Text :=
  match (unescapePath raw).bind parsePreviewRoute with
  | some (some route) => some (escapePath (route.upstreamPath localMachineId))
  | _ => none

/-- `handleWebProxy`: the path on the wire to the guest.  The multiplexer matches the escaped path, redirects a path that is
not clean, and decodes what its wildcards stand for. -/
def hostPath (escaped : Text) : Option Text :=
  match Preview.webRoute? escaped with
  | some (_, portText, rest) =>
    match (unescapePath portText).bind port?, unescapePath rest with
    | some _, some rest => some (escapePath ('/' :: rest))
    | _, _ => none
  | none => none

def guestPath (localMachineId raw : Text) : Option Text := (gatewayPath localMachineId raw).bind hostPath

/-! ### What would be transparent -/

/-- The field of a piece is one that the gateway keeps for itself. -/
def ownField (piece : Text) : Bool :=
  decide (unescape (keyOf piece) = some "token".toList ∨ unescape (keyOf piece) = some "upstream".toList)

def otherPieces (rawQuery : Text) : List Text := (rawQuery.splitOn '&').filter fun piece => !ownField piece

/-- The query without the gateway's own fields, and otherwise as it was. -/
def withoutOwn (rawQuery : Text) : Text := ['&'].intercalate (otherPieces rawQuery)

/-- The path below the prefix of the preview, as it is spelled. -/
def spelledTail (raw path : Text) (route : CapabilityRoute) : Text :=
  dropBytes (path.length - route.previewTail.length) raw

/-- No segment but the last is empty. -/
def CleanTail (tail : Text) : Prop := ∀ segment ∈ (tail.splitOn '/').dropLast, segment ≠ []

instance (tail : Text) : Decidable (CleanTail tail) := List.decidableBAll _ _

/-- No segment is a dot or two. -/
def NoDots (tail : Text) : Prop := ∀ segment ∈ tail.splitOn '/', segment ≠ ['.'] ∧ segment ≠ ['.', '.']

instance (tail : Text) : Decidable (NoDots tail) := List.decidableBAll _ _

/-! ### Redirects of the guest -/

/-- A `Location`, as `url.Parse` takes it apart; the path is as it is spelled. -/
structure Location where
  scheme : Text
  host : Text
  path : Text
  rawQuery : Text

def CapabilityRoute.previewPrefix (route : CapabilityRoute) : Text :=
  "/preview/".toList ++ route.publicMachineId ++ '/' :: Nat.toDigits 10 route.previewPort

def rewritePreviewLocation (location : Location) (route : CapabilityRoute) : Location :=
  match unescapePath location.path with
  | none => location
  | some path =>
    if location.scheme ≠ [] ∨ location.host ≠ [] ∨ ['/'].isPrefixOf path = false then location
    else { location with path := escapePath (route.previewPrefix ++ path) }

/-- The segments that are left when dots are resolved, after the ones already kept. -/
def resolveDots (kept : List Text) : List Text → List Text
  | [] => kept
  | segment :: rest =>
    if segment = ['.'] then (if rest = [] then kept ++ [[]] else resolveDots kept rest)
    else if segment = ['.', '.'] then (if rest = [] then kept.dropLast ++ [[]] else resolveDots kept.dropLast rest)
    else resolveDots (kept ++ [segment]) rest

/-- The path that a client asks for when it follows an absolute path. -/
def followed : Text → Text
  | '/' :: tail => '/' :: ['/'].intercalate (resolveDots [] (tail.splitOn '/'))
  | path => path

/-! ### The route of a path -/

variable {path : Text} {route : CapabilityRoute}

theorem parsePreviewRoute_some (h : parsePreviewRoute path = some (some route)) :
    route.capability = .preview ∧ validPublicMachineId route.publicMachineId = true ∧ 1 ≤ route.previewPort ∧
      route.previewPort ≤ 65535 ∧ NoDots route.previewTail := by
  unfold parsePreviewRoute at h
  split at h
  · cases h
  · next id portText rest _ hsplit =>
    split at h
    · next port hport =>
      by_cases hvalid : validPublicMachineId id = true ∧ ∀ segment ∈ rest, segment ≠ ['.'] ∧ segment ≠ ['.', '.']
      swap
      · rw [if_neg hvalid] at h
        cases h
      rw [if_pos hvalid] at h
      cases h
      have hrange : 1 ≤ port ∧ port ≤ 65535 := by
        unfold port? at hport
        split at hport
        · split_ifs at hport with hbounds
          cases hport
          omega
        · cases hport
      refine ⟨rfl, hvalid.1, hrange.1, hrange.2, ?_⟩
      show NoDots (['/'].intercalate rest)
      by_cases hrest : rest = []
      · subst hrest
        decide
      · have hslash : ∀ l ∈ rest, '/' ∉ l := by
          intro l hl
          apply not_mem_of_mem_splitOn l
          rw [hsplit]
          exact List.mem_cons_of_mem _ (List.mem_cons_of_mem _ hl)
        unfold NoDots
        rw [List.splitOn_intercalate '/' hslash hrest]
        exact hvalid.2
    · cases h
  · cases h

theorem isDigit_toDigits {n : ℕ} {c : Char} (hc : c ∈ Nat.toDigits 10 n) : c.isDigit = true :=
  Nat.isDigit_of_mem_toDigits (by decide) (by decide) hc

theorem atoi?_toDigits (n : ℕ) : atoi? (Nat.toDigits 10 n) = some (Int.ofNat n) := by
  have hall : (Nat.toDigits 10 n).all Char.isDigit = true := List.all_eq_true.mpr fun c hc => isDigit_toDigits hc
  have hne : Nat.toDigits 10 n ≠ [] := Nat.toDigits_ne_nil
  have hvalue : (Nat.toDigits 10 n).foldl (fun n c => 10 * n + (c.toNat - 48)) 0 = n := Nat.ofDigitChars_ten_toDigits
  unfold atoi?
  split
  · next heq =>
    rw [heq] at hall
    exact absurd hall (by simp)
  · next heq =>
    rw [heq] at hall
    exact absurd hall (by simp)
  · simp only [hall, hvalue]
    simp

theorem port?_toDigits {n : ℕ} (hlow : 1 ≤ n) (hhigh : n ≤ 65535) : port? (Nat.toDigits 10 n) = some n := by
  rw [port?, atoi?_toDigits]
  have hbounds : (1 : ℤ) ≤ Int.ofNat n ∧ Int.ofNat n ≤ 65535 := by
    constructor
    · exact Int.ofNat_le.mpr hlow
    · exact Int.ofNat_le.mpr hhigh
  show (if (1 : ℤ) ≤ Int.ofNat n ∧ Int.ofNat n ≤ 65535 then some (Int.ofNat n).toNat else none) = some n
  rw [if_pos hbounds]
  rfl

theorem plain_of_alphanum {c : Char} (h : c.isAlphanum = true) : pathPlain c = true := by
  simp [pathPlain, unreserved, h]

theorem toDigits_plain {n : ℕ} {c : Char} (hc : c ∈ Nat.toDigits 10 n) : pathPlain c = true ∧ c ≠ '/' := by
  have hdigit := isDigit_toDigits hc
  refine ⟨plain_of_alphanum (by simp [Char.isAlphanum, hdigit]), ?_⟩
  rintro rfl
  exact absurd hdigit (by decide)

theorem localId_plain {t : Text} (h : validLocalMachineId t = true) : ∀ c ∈ t, pathPlain c = true ∧ c ≠ '/' := by
  have hchar : ∀ c : Char, c.isAlphanum = true ∨ c ∈ "._-".toList → pathPlain c = true ∧ c ≠ '/' := by
    rintro c (hc | hc)
    · refine ⟨plain_of_alphanum hc, ?_⟩
      rintro rfl
      exact absurd hc (by decide)
    · have hmarks : "._-".toList = ['.', '_', '-'] := by decide
      rw [hmarks] at hc
      simp only [List.mem_cons, List.not_mem_nil, or_false] at hc
      rcases hc with rfl | rfl | rfl
      · decide
      · decide
      · decide
  cases t with
  | nil => exact fun c hc => absurd hc List.not_mem_nil
  | cons d t =>
    simp only [validLocalMachineId, Bool.and_eq_true, List.all_eq_true] at h
    intro c hc
    rcases List.mem_cons.mp hc with rfl | hc
    · exact hchar c (Or.inl h.1.1)
    · have hrest := h.2 c hc
      rw [Bool.or_eq_true, List.contains_iff_mem] at hrest
      exact hchar c hrest

theorem publicId_plain {t : Text} (h : validPublicMachineId t = true) : ∀ c ∈ t, pathPlain c = true ∧ c ≠ '/' := by
  unfold validPublicMachineId at h
  split at h
  · next rest =>
    rw [Bool.and_eq_true, List.all_eq_true] at h
    intro c hc
    have hchar : c.isAlphanum = true ∨ c = '_' ∨ c = '-' ∨ c = 'm' := by
      rcases List.mem_cons.mp hc with rfl | hc
      · exact Or.inr (Or.inr (Or.inr rfl))
      rcases List.mem_cons.mp hc with rfl | hc
      · exact Or.inr (Or.inl rfl)
      · have hrest := h.2 c hc
        simp only [Bool.or_eq_true, decide_eq_true_eq] at hrest
        tauto
    rcases hchar with hc | rfl | rfl | rfl
    · refine ⟨plain_of_alphanum hc, ?_⟩
      rintro rfl
      exact absurd hc (by decide)
    · decide
    · decide
    · decide
  · cases h

/-! ### The path that the guest receives -/

section Path

variable {localMachineId raw path segment t : Text} {route : CapabilityRoute}

/-- A segment that starts with a letter or digit is neither empty nor dots. -/
theorem ordinary_segment {c : Char} (h : segment.head? = some c) (hc : c.isAlphanum = true) :
    segment ≠ [] ∧ segment ≠ ['.'] ∧ segment ≠ ['.', '.'] := by
  refine ⟨?_, ?_, ?_⟩
  · rintro rfl
    cases h
  · rintro rfl
    cases h
    exact absurd hc (by decide)
  · rintro rfl
    cases h
    exact absurd hc (by decide)

theorem localId_ordinary (h : validLocalMachineId t = true) : t ≠ [] ∧ t ≠ ['.'] ∧ t ≠ ['.', '.'] := by
  cases t with
  | nil => cases h
  | cons c t =>
    simp only [validLocalMachineId, Bool.and_eq_true] at h
    exact ordinary_segment rfl h.1.1

theorem publicId_ordinary (h : validPublicMachineId t = true) : t ≠ [] ∧ t ≠ ['.'] ∧ t ≠ ['.', '.'] := by
  unfold validPublicMachineId at h
  split at h
  · exact ordinary_segment (c := 'm') rfl (by decide)
  · cases h

theorem toDigits_ordinary (n : ℕ) :
    Nat.toDigits 10 n ≠ [] ∧ Nat.toDigits 10 n ≠ ['.'] ∧ Nat.toDigits 10 n ≠ ['.', '.'] := by
  cases hdigits : Nat.toDigits 10 n with
  | nil => exact absurd hdigits Nat.toDigits_ne_nil
  | cons c t =>
    apply ordinary_segment rfl
    have hc := isDigit_toDigits (n := n) (c := c) (by rw [hdigits]; exact List.mem_cons_self)
    simp [Char.isAlphanum, hc]

/-- Dots are written as they are, so a segment is dots exactly if it is when escaped. -/
theorem escapePath_dots (h : segment ≠ ['.'] ∧ segment ≠ ['.', '.']) :
    escapePath segment ≠ ['.'] ∧ escapePath segment ≠ ['.', '.'] :=
  ⟨fun heq => h.1 (escapePath_injective (heq.trans (by decide))), fun heq => h.2 (escapePath_injective (heq.trans (by decide)))⟩

theorem escapePath_eq_nil : escapePath segment = [] ↔ segment = [] :=
  ⟨fun heq => escapePath_injective (heq.trans rfl), fun heq => heq.symm ▸ rfl⟩

theorem escapePath_cons_slash (t : Text) : escapePath ('/' :: t) = '/' :: escapePath t := rfl

theorem noDots_escapePath (h : NoDots t) : NoDots (escapePath t) := by
  intro segment hsegment
  rw [splitOn_escapePath] at hsegment
  obtain ⟨s, hs, rfl⟩ := List.mem_map.mp hsegment
  exact escapePath_dots (h s hs)

theorem noDots_of_escapePath (h : NoDots (escapePath t)) : NoDots t := by
  intro segment hsegment
  have hescaped := h (escapePath segment) (by rw [splitOn_escapePath]; exact List.mem_map_of_mem hsegment)
  constructor
  · rintro rfl
    exact hescaped.1 (by decide)
  · rintro rfl
    exact hescaped.2 (by decide)

theorem cleanTail_escapePath (t : Text) : CleanTail (escapePath t) ↔ CleanTail t := by
  unfold CleanTail
  rw [splitOn_escapePath, ← List.map_dropLast]
  simp only [List.mem_map, forall_exists_index, and_imp, forall_apply_eq_imp_iff₂, ne_eq, escapePath_eq_nil]

/-- The host's multiplexer, on the path of a machine and a port. -/
theorem webRoute?_machine {tail : Text} (port : ℕ) (hlocal : validLocalMachineId localMachineId = true) (hdots : NoDots tail) :
    Preview.webRoute? ("/v1/machines/".toList ++ localMachineId ++ "/web/".toList ++ Nat.toDigits 10 port ++ '/' :: tail) =
      if CleanTail tail then some (localMachineId, Nat.toDigits 10 port, tail) else none := by
  have hdigits := toDigits_ordinary port
  have hdigitsSlash : '/' ∉ Nat.toDigits 10 port := fun hmem => (toDigits_plain hmem).2 rfl
  have hlocalSlash : '/' ∉ localMachineId := fun hmem => (localId_plain hlocal _ hmem).2 rfl
  generalize Nat.toDigits 10 port = digits at hdigits hdigitsSlash ⊢
  have hsplit : ("/v1/machines/".toList ++ localMachineId ++ "/web/".toList ++ digits ++ '/' :: tail).splitOn '/' =
      [] :: "v1".toList :: "machines".toList :: localMachineId :: "web".toList :: digits :: tail.splitOn '/' := by
    have hhead : "/v1/machines/".toList = [] ++ '/' :: ("v1".toList ++ '/' :: ("machines".toList ++ ['/'])) := by decide
    have hweb : "/web/".toList = '/' :: ("web".toList ++ ['/']) := by decide
    rw [hhead, hweb]
    simp only [List.append_assoc, List.cons_append, List.nil_append]
    show ([] ++ '/' :: _ : Text).splitOn '/' = _
    rw [List.splitOn_append_cons_self_of_not_mem List.not_mem_nil, List.splitOn_append_cons_self_of_not_mem (by decide),
      List.splitOn_append_cons_self_of_not_mem (by decide), List.splitOn_append_cons_self_of_not_mem hlocalSlash,
      List.splitOn_append_cons_self_of_not_mem (by decide), List.splitOn_append_cons_self_of_not_mem hdigitsSlash]
  have hne : tail.splitOn '/' ≠ [] := List.splitOn_ne_nil '/' tail
  have hclean : Preview.cleanSegments (localMachineId :: digits :: tail.splitOn '/') = true ↔ CleanTail tail := by
    have hall : (localMachineId :: digits :: tail.splitOn '/').all (fun s => decide (s ≠ ['.'] ∧ s ≠ ['.', '.'])) = true := by
      apply List.all_eq_true.mpr
      intro s hs
      apply decide_eq_true
      rcases List.mem_cons.mp hs with rfl | hs
      · exact (localId_ordinary hlocal).2
      rcases List.mem_cons.mp hs with rfl | hs
      · exact hdigits.2
      · exact hdots s hs
    rw [Preview.cleanSegments, hall, Bool.and_true, List.dropLast_cons_of_ne_nil (List.cons_ne_nil _ _),
      List.dropLast_cons_of_ne_nil hne]
    simp only [List.all_cons, Bool.and_eq_true, decide_eq_true_eq, List.all_eq_true]
    exact ⟨fun h => h.2.2, fun h => ⟨(localId_ordinary hlocal).1, hdigits.1, h⟩⟩
  rw [Preview.webRoute?, hsplit]
  by_cases hc : CleanTail tail
  · rw [if_pos hc]
    show (if _ then _ else _) = _
    rw [if_pos ⟨rfl, rfl, rfl, hne, hclean.mpr hc⟩, List.intercalate_splitOn]
  · rw [if_neg hc]
    show (if _ then _ else _) = _
    rw [if_neg fun h => hc (hclean.mp h.2.2.2.2)]

theorem escapePath_upstreamPath (hlocal : validLocalMachineId localMachineId = true) (hpreview : route.capability = .preview) :
    escapePath (route.upstreamPath localMachineId) = "/v1/machines/".toList ++ localMachineId ++ "/web/".toList ++
      Nat.toDigits 10 route.previewPort ++ '/' :: escapePath route.previewTail := by
  have hhead : escapePath "/v1/machines/".toList = "/v1/machines/".toList := by decide
  have hweb : escapePath "/web/".toList = "/web/".toList := by decide
  rw [CapabilityRoute.upstreamPath, if_pos hpreview]
  simp only [escapePath_append, escapePath_cons_slash]
  rw [hhead, hweb, escapePath_plain fun c hc => (localId_plain hlocal c hc).1,
    escapePath_plain fun c hc => (toDigits_plain hc).1]

/-- The path that the gateway sends passes the multiplexer if its tail is clean. -/
theorem webRoute?_upstreamPath (hlocal : validLocalMachineId localMachineId = true) (hpreview : route.capability = .preview)
    (hdots : NoDots route.previewTail) :
    Preview.webRoute? (escapePath (route.upstreamPath localMachineId)) =
      if CleanTail route.previewTail then
        some (localMachineId, Nat.toDigits 10 route.previewPort, escapePath route.previewTail)
      else none := by
  rw [escapePath_upstreamPath hlocal hpreview, webRoute?_machine _ hlocal (noDots_escapePath hdots)]
  by_cases hc : CleanTail route.previewTail
  · rw [if_pos hc, if_pos ((cleanTail_escapePath _).mpr hc)]
  · rw [if_neg hc, if_neg (mt (cleanTail_escapePath _).mp hc)]

theorem guestPath_eq (hlocal : validLocalMachineId localMachineId = true) (hraw : unescapePath raw = some path)
    (hroute : parsePreviewRoute path = some (some route)) :
    guestPath localMachineId raw =
      if CleanTail route.previewTail then some ('/' :: escapePath route.previewTail) else none := by
  obtain ⟨hpreview, _, hlow, hhigh, hdots⟩ := parsePreviewRoute_some hroute
  have hgateway : gatewayPath localMachineId raw = some (escapePath (route.upstreamPath localMachineId)) := by
    simp only [gatewayPath, hraw, Option.bind_some, hroute]
  rw [guestPath, hgateway]
  show hostPath (escapePath (route.upstreamPath localMachineId)) = _
  rw [hostPath, webRoute?_upstreamPath hlocal hpreview hdots]
  by_cases hclean : CleanTail route.previewTail
  · rw [if_pos hclean, if_pos hclean]
    have hport : (unescapePath (Nat.toDigits 10 route.previewPort)).bind port? = some route.previewPort := by
      rw [← escapePath_plain (t := Nat.toDigits 10 route.previewPort) fun c hc => (toDigits_plain hc).1,
        unescapePath_escapePath]
      exact port?_toDigits hlow hhigh
    simp only [hport, unescapePath_escapePath]
    rfl
  · rw [if_neg hclean, if_neg hclean]

/-- The request that the two proxies deliver has the path that goes over the wire. -/
theorem Delivery.guestPath {w : World} {r d : Request} (e : Delivery w r d) (hraw : unescapePath raw = some r.path)
    (hroute : parsePreviewRoute r.path = some (some e.route))
    (hlocal : validLocalMachineId e.resolved.hostMachineId = true) :
    DataPlane.guestPath e.resolved.hostMachineId raw = some (escapePath d.path) ∧ d.rawQuery = upstreamQuery r.rawQuery := by
  obtain ⟨hpreview, _, _, _, hdots⟩ := parsePreviewRoute_some hroute
  have hweb := e.hweb
  rw [CapabilityRoute.upstreamPath, if_pos hpreview, webRoute?_machine _ hlocal hdots] at hweb
  split_ifs at hweb with hclean
  have hrest : e.route.previewTail = e.rest := congrArg (fun found => found.2.2) (Option.some.inj hweb)
  have hpath : d.path = '/' :: e.rest := congrArg Request.path e.hdelivered
  rw [guestPath_eq hlocal hraw hroute, if_pos hclean, hpath, hrest]
  exact ⟨rfl, congrArg Request.rawQuery e.hdelivered⟩

/-- What reaches the guest came through a route of the gateway. -/
theorem guestPath_some {reached : Text} (hlocal : validLocalMachineId localMachineId = true)
    (h : guestPath localMachineId raw = some reached) :
    ∃ path route, unescapePath raw = some path ∧ parsePreviewRoute path = some (some route) ∧
      CleanTail route.previewTail ∧ reached = '/' :: escapePath route.previewTail := by
  cases hraw : unescapePath raw with
  | none =>
    rw [guestPath, gatewayPath, hraw] at h
    cases h
  | some path =>
    cases hroute : parsePreviewRoute path with
    | none =>
      rw [guestPath, gatewayPath, hraw, Option.bind_some, hroute] at h
      cases h
    | some parsed =>
      cases parsed with
      | none =>
        rw [guestPath, gatewayPath, hraw, Option.bind_some, hroute] at h
        cases h
      | some route =>
        rw [guestPath_eq hlocal hraw hroute] at h
        split_ifs at h with hclean
        exact ⟨path, route, rfl, hroute, hclean, (Option.some.inj h).symm⟩

end Path

/-! ### The query that the guest receives -/

theorem amp_not_mem_otherPieces {rawQuery : Text} : ∀ piece ∈ otherPieces rawQuery, '&' ∉ piece := by
  intro piece hpiece
  exact not_mem_of_mem_splitOn piece (List.mem_filter.mp hpiece).1

theorem parseQuery_withoutOwn (rawQuery : Text) :
    ((parseQuery rawQuery).del "token".toList).del "upstream".toList = (otherPieces rawQuery).filterMap pairOf := by
  unfold parseQuery Values.del otherPieces
  rw [List.filter_filter]
  apply filter_filterMap_pairOf
  intro piece p hp
  unfold ownField
  simp only [pairOf_key hp, Option.some.injEq, ne_eq, decide_not, Bool.decide_or, Bool.not_or]
  exact Bool.and_comm _ _

theorem upstreamQuery_eq (rawQuery : Text) : upstreamQuery rawQuery = encode ((otherPieces rawQuery).filterMap pairOf) := by
  rw [← parseQuery_withoutOwn]
  apply encode_congr
  intro key
  simp only [valuesOf_del, values_clean]

/-- The guest gets the query without the gateway's fields exactly if the rest is what `Encode` writes. -/
theorem upstreamQuery_eq_withoutOwn (rawQuery : Text) :
    upstreamQuery rawQuery = withoutOwn rawQuery ↔ Written (otherPieces rawQuery) := by
  rw [upstreamQuery_eq]
  exact encode_pieces_iff amp_not_mem_otherPieces

theorem no_ownField_written {rawQuery : Text} (h : upstreamQuery rawQuery = rawQuery) :
    ∀ piece ∈ rawQuery.splitOn '&', ownField piece = false := by
  have hnone : ∀ key : Text, key = "token".toList ∨ key = "upstream".toList →
      valuesOf (((parseQuery (cleanQueryParams rawQuery)).del "token".toList).del "upstream".toList) key = [] := by
    rintro key (rfl | rfl)
    · rw [valuesOf_del, valuesOf_del]
      simp
    · rw [valuesOf_del]
      simp
  intro piece hpiece
  rw [← h, upstreamQuery] at hpiece
  rcases splitOn_encode (((parseQuery (cleanQueryParams rawQuery)).del "token".toList).del "upstream".toList) with
    hsplit | hsplit
  · rw [hsplit] at hpiece
    obtain rfl := List.mem_singleton.mp hpiece
    decide
  · rw [hsplit] at hpiece
    obtain ⟨p, hp, rfl⟩ := List.mem_map.mp hpiece
    have hkey := pairOf_key (pairOf_writePair p)
    have hvalues := mem_keys.mp (List.mem_map_of_mem (f := Prod.fst) hp)
    rw [valuesOf_grouped] at hvalues
    apply decide_eq_false
    rw [hkey, Option.some.injEq, Option.some.injEq]
    exact fun hown => hvalues (hnone _ hown)

theorem upstreamQuery_eq_self (rawQuery : Text) : upstreamQuery rawQuery = rawQuery ↔
    Written (rawQuery.splitOn '&') ∧ ∀ piece ∈ rawQuery.splitOn '&', ownField piece = false := by
  have hall : (∀ piece ∈ rawQuery.splitOn '&', ownField piece = false) →
      otherPieces rawQuery = rawQuery.splitOn '&' ∧ withoutOwn rawQuery = rawQuery := by
    intro hown
    have hother : otherPieces rawQuery = rawQuery.splitOn '&' := by
      apply List.filter_eq_self.mpr
      intro piece hpiece
      rw [hown piece hpiece]
      rfl
    refine ⟨hother, ?_⟩
    rw [withoutOwn, hother, List.intercalate_splitOn]
  constructor
  · intro h
    have hown := no_ownField_written h
    obtain ⟨hother, hwithout⟩ := hall hown
    refine ⟨?_, hown⟩
    rw [← hother]
    exact (upstreamQuery_eq_withoutOwn rawQuery).mp (h.trans hwithout.symm)
  · rintro ⟨hwritten, hown⟩
    obtain ⟨hother, hwithout⟩ := hall hown
    rw [← hother] at hwritten
    exact ((upstreamQuery_eq_withoutOwn rawQuery).mpr hwritten).trans hwithout

/-! ### Following a redirect -/

theorem resolveDots_ordinary {kept segments : List Text}
    (h : ∀ segment ∈ segments, segment ≠ ['.'] ∧ segment ≠ ['.', '.']) : resolveDots kept segments = kept ++ segments := by
  induction segments generalizing kept with
  | nil => rw [resolveDots, List.append_nil]
  | cons segment segments ih =>
    obtain ⟨hdot, hdots⟩ := h segment List.mem_cons_self
    rw [resolveDots, if_neg hdot, if_neg hdots, ih fun s hs => h s (List.mem_cons_of_mem _ hs), List.append_assoc]
    rfl

theorem followed_noDots {tail : Text} (h : NoDots tail) : followed ('/' :: tail) = '/' :: tail := by
  rw [followed, resolveDots_ordinary h, List.nil_append, List.intercalate_splitOn]

section Redirect

variable {route : CapabilityRoute} {tail : Text}

/-- The prefix of a preview, without the slash that it starts with, and a path below it. -/
def belowPrefix (route : CapabilityRoute) (tail : Text) : Text :=
  "preview".toList ++ '/' :: (route.publicMachineId ++ '/' :: (Nat.toDigits 10 route.previewPort ++ '/' :: tail))

theorem previewPrefix_append (route : CapabilityRoute) (tail : Text) :
    route.previewPrefix ++ '/' :: tail = '/' :: belowPrefix route tail := by
  have hhead : "/preview/".toList = '/' :: ("preview".toList ++ ['/']) := by decide
  unfold CapabilityRoute.previewPrefix belowPrefix
  generalize Nat.toDigits 10 route.previewPort = digits
  rw [hhead]
  simp only [List.cons_append, List.append_assoc, List.nil_append]

theorem splitOn_below (hid : validPublicMachineId route.publicMachineId = true) :
    (route.publicMachineId ++ '/' :: (Nat.toDigits 10 route.previewPort ++ '/' :: tail)).splitOn '/' =
      route.publicMachineId :: Nat.toDigits 10 route.previewPort :: tail.splitOn '/' := by
  have hidSlash : '/' ∉ route.publicMachineId := fun hmem => (publicId_plain hid _ hmem).2 rfl
  have hdigitsSlash : '/' ∉ Nat.toDigits 10 route.previewPort := fun hmem => (toDigits_plain hmem).2 rfl
  rw [List.splitOn_append_cons_self_of_not_mem hidSlash, List.splitOn_append_cons_self_of_not_mem hdigitsSlash]

theorem noDots_belowPrefix (hid : validPublicMachineId route.publicMachineId = true) (h : NoDots tail) :
    NoDots (belowPrefix route tail) := by
  have hword : '/' ∉ "preview".toList := by decide
  have hdigits := toDigits_ordinary route.previewPort
  unfold NoDots belowPrefix
  rw [List.splitOn_append_cons_self_of_not_mem hword, splitOn_below hid]
  generalize Nat.toDigits 10 route.previewPort = digits at hdigits ⊢
  intro segment hsegment
  rcases List.mem_cons.mp hsegment with rfl | hsegment
  · decide
  rcases List.mem_cons.mp hsegment with rfl | hsegment
  · exact (publicId_ordinary hid).2
  rcases List.mem_cons.mp hsegment with rfl | hsegment
  · exact hdigits.2
  · exact h segment hsegment

/-- The prefix of a route is read as the route. -/
theorem parsePreviewRoute_prefixed (hid : validPublicMachineId route.publicMachineId = true) (hlow : 1 ≤ route.previewPort)
    (hhigh : route.previewPort ≤ 65535) (h : NoDots tail) : parsePreviewRoute (route.previewPrefix ++ '/' :: tail) =
      some (some ⟨route.publicMachineId, .preview, [], route.previewPort, tail⟩) := by
  have hshape : route.previewPrefix ++ '/' :: tail = "/preview/".toList ++
      (route.publicMachineId ++ '/' :: (Nat.toDigits 10 route.previewPort ++ '/' :: tail)) := by
    unfold CapabilityRoute.previewPrefix
    generalize Nat.toDigits 10 route.previewPort = digits
    simp only [List.append_assoc, List.cons_append]
  have hbegins : "/preview/".toList.isPrefixOf (route.previewPrefix ++ '/' :: tail) = true := by
    rw [hshape]
    exact List.isPrefixOf_iff_prefix.mpr (List.prefix_append _ _)
  have hdrop : (route.previewPrefix ++ '/' :: tail).drop 9 =
      route.publicMachineId ++ '/' :: (Nat.toDigits 10 route.previewPort ++ '/' :: tail) := by
    rw [hshape]
    exact List.drop_left' (by decide)
  have hport := port?_toDigits hlow hhigh
  have hvalid : validPublicMachineId route.publicMachineId = true ∧
      ∀ segment ∈ tail.splitOn '/', segment ≠ ['.'] ∧ segment ≠ ['.', '.'] := ⟨hid, h⟩
  unfold parsePreviewRoute
  rw [hbegins, hdrop, splitOn_below hid]
  simp only [hport]
  rw [if_pos hvalid, List.intercalate_splitOn]

/-- Following the rewritten `Location` the client reaches the path of the guest's own exactly if that is in the spelling in
which both proxies write it, and passes the host's multiplexer. -/
theorem redirect_reaches_iff {localMachineId rawQuery rawTail : Text} (hlocal : validLocalMachineId localMachineId = true)
    (hid : validPublicMachineId route.publicMachineId = true) (hlow : 1 ≤ route.previewPort)
    (hhigh : route.previewPort ≤ 65535) :
    guestPath localMachineId (followed (rewritePreviewLocation ⟨[], [], '/' :: rawTail, rawQuery⟩ route).path) =
      some ('/' :: rawTail) ↔ Spelled rawTail = true ∧ CleanTail rawTail ∧ NoDots rawTail := by
  constructor
  · intro h
    obtain ⟨_, reached, _, hroute, hclean, htail⟩ := guestPath_some hlocal h
    obtain ⟨_, _, _, _, hdots⟩ := parsePreviewRoute_some hroute
    obtain rfl : rawTail = escapePath reached.previewTail := (List.cons.inj htail).2
    exact ⟨(escapePath_eq_iff (unescapePath_escapePath _)).mp rfl, (cleanTail_escapePath _).mpr hclean, noDots_escapePath hdots⟩
  · rintro ⟨hspelled, hclean, hdots⟩
    obtain ⟨tail, htail⟩ := unescapePath_of_spelled hspelled
    obtain rfl : escapePath tail = rawTail := (escapePath_eq_iff htail).mpr hspelled
    have hread : unescapePath ('/' :: escapePath tail) = some ('/' :: tail) := unescapePath_escapePath ('/' :: tail)
    have hrewritten : (rewritePreviewLocation ⟨[], [], '/' :: escapePath tail, rawQuery⟩ route).path =
        escapePath (route.previewPrefix ++ '/' :: tail) := by
      unfold rewritePreviewLocation
      rw [hread]
      rfl
    have hplain := noDots_of_escapePath hdots
    have hfollowed : followed (escapePath (route.previewPrefix ++ '/' :: tail)) =
        escapePath (route.previewPrefix ++ '/' :: tail) := by
      rw [previewPrefix_append]
      exact followed_noDots (noDots_escapePath (noDots_belowPrefix hid hplain))
    rw [hrewritten, hfollowed, guestPath_eq hlocal (unescapePath_escapePath _)
      (parsePreviewRoute_prefixed hid hlow hhigh hplain), if_pos ((cleanTail_escapePath tail).mp hclean)]

end Redirect

/-! ### Transparency -/

/-- A route has the end of its path for its tail. -/
theorem parsePreviewRoute_suffix (h : parsePreviewRoute path = some (some route)) :
    ∃ head, path = head ++ route.previewTail := by
  unfold parsePreviewRoute at h
  split at h
  · cases h
  · next id portText rest _ hsplit =>
    split at h
    · split_ifs at h
      swap
      · cases h
      cases h
      show ∃ head, path = head ++ ['/'].intercalate rest
      have hjoin : path.drop 9 = ['/'].intercalate (id :: portText :: rest) := by
        rw [← hsplit, List.intercalate_splitOn]
      have hpath : path = path.take 9 ++ ['/'].intercalate (id :: portText :: rest) := by
        rw [← hjoin, List.take_append_drop]
      cases rest with
      | nil => exact ⟨path, (List.append_nil path).symm⟩
      | cons segment rest =>
        refine ⟨path.take 9 ++ (id ++ ['/'] ++ (portText ++ ['/'])), ?_⟩
        rw [List.intercalate_cons_cons, List.intercalate_cons_cons] at hpath
        simp only [List.append_assoc] at hpath ⊢
        exact hpath
    · cases h
  · cases h

theorem preview_reaches_iff {localMachineId raw : Text} (hlocal : validLocalMachineId localMachineId = true)
    (hraw : unescapePath raw = some path) (hroute : parsePreviewRoute path = some (some route)) :
    guestPath localMachineId raw = some ('/' :: spelledTail raw path route) ↔
      Spelled (spelledTail raw path route) = true ∧ CleanTail (spelledTail raw path route) := by
  obtain ⟨head, hpath⟩ := parsePreviewRoute_suffix hroute
  have htail : unescapePath (spelledTail raw path route) = some route.previewTail := by
    have hlength : path.length - route.previewTail.length = head.length := by
      rw [hpath, List.length_append]
      omega
    rw [spelledTail, hlength]
    exact unescapePath_dropBytes (hraw.trans (congrArg some hpath))
  rw [guestPath_eq hlocal hraw hroute, ← escapePath_eq_iff htail]
  constructor
  · intro h
    split_ifs at h with hclean
    have heq : escapePath route.previewTail = spelledTail raw path route := (List.cons.inj (Option.some.inj h)).2
    refine ⟨heq, ?_⟩
    rw [← heq]
    exact (cleanTail_escapePath _).mpr hclean
  · rintro ⟨heq, hclean⟩
    rw [← heq] at hclean ⊢
    rw [if_pos ((cleanTail_escapePath _).mp hclean)]

/-- The path and the query pass the two proxies unchanged, and a redirect of the guest leads back to what it names, exactly
for the spelling that the proxies write themselves. -/
theorem preview_transparent {localMachineId : Text} (hlocal : validLocalMachineId localMachineId = true) :
    (∀ (raw path rawQuery : Text) (route : CapabilityRoute), unescapePath raw = some path →
      parsePreviewRoute path = some (some route) →
        (guestPath localMachineId raw = some ('/' :: spelledTail raw path route) ∧ upstreamQuery rawQuery = withoutOwn rawQuery ↔
          Spelled (spelledTail raw path route) = true ∧ CleanTail (spelledTail raw path route) ∧
            Written (otherPieces rawQuery))) ∧
    ∀ (route : CapabilityRoute) (rawTail rawQuery : Text), validPublicMachineId route.publicMachineId = true →
      1 ≤ route.previewPort → route.previewPort ≤ 65535 →
        (guestPath localMachineId (followed (rewritePreviewLocation ⟨[], [], '/' :: rawTail, rawQuery⟩ route).path) =
            some ('/' :: rawTail) ∧
          upstreamQuery (rewritePreviewLocation ⟨[], [], '/' :: rawTail, rawQuery⟩ route).rawQuery = rawQuery ↔
          (Spelled rawTail = true ∧ CleanTail rawTail ∧ NoDots rawTail) ∧ Written (rawQuery.splitOn '&') ∧
            ∀ piece ∈ rawQuery.splitOn '&', ownField piece = false) := by
  constructor
  · intro raw path rawQuery route hraw hroute
    rw [preview_reaches_iff hlocal hraw hroute, upstreamQuery_eq_withoutOwn, and_assoc]
  · intro route rawTail rawQuery hid hlow hhigh
    have hquery : (rewritePreviewLocation ⟨[], [], '/' :: rawTail, rawQuery⟩ route).rawQuery = rawQuery := by
      unfold rewritePreviewLocation
      split
      · rfl
      · split_ifs
        · rfl
        · rfl
    rw [redirect_reaches_iff hlocal hid hlow hhigh, hquery, upstreamQuery_eq_self]

/-- The bundle of an application, with its version. -/
theorem assets_transparent :
    guestPath "vm1".toList "/preview/m_x/3000/assets/app.js".toList = some "/assets/app.js".toList ∧
      upstreamQuery "v=7".toList = withoutOwn "v=7".toList :=
  ((preview_transparent (show validLocalMachineId "vm1".toList = true by decide)).1 "/preview/m_x/3000/assets/app.js".toList
    "/preview/m_x/3000/assets/app.js".toList "v=7".toList ⟨"m_x".toList, .preview, [], 3000, "assets/app.js".toList⟩
    (by decide) (by rfl)).mpr (by decide)

/-- An escaped slash is a separator when it comes to the guest, and a field without a value is given an empty one. -/
theorem escapedSlash_decoded :
    parsePreviewRoute "/preview/m_x/3000/a/b".toList = some (some ⟨"m_x".toList, .preview, [], 3000, "a/b".toList⟩) ∧
      guestPath "vm1".toList "/preview/m_x/3000/a%2Fb".toList = some "/a/b".toList ∧
      guestPath "vm1".toList "/preview/m_x/3000/a%2Fb".toList ≠
        some ('/' :: spelledTail "/preview/m_x/3000/a%2Fb".toList "/preview/m_x/3000/a/b".toList
          ⟨"m_x".toList, .preview, [], 3000, "a/b".toList⟩) ∧
      upstreamQuery "a".toList = "a=".toList ∧ upstreamQuery "a".toList ≠ withoutOwn "a".toList := by
  refine ⟨by rfl, by decide, by decide, by decide, by decide⟩

end Nehemiah.DataPlane
