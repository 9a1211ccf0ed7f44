import Nehemiah.Lib.Query

/-!
# Spellings

A path and a query can be spelled in several ways.  `net/url` writes a path that it decoded in one of them, in which all
but a fixed set of bytes is escaped with capitals, and a query that it parsed key by key.  A path is written as it was read
if it is `Spelled` (`escapePath_eq_iff`), a query if its pieces are `Written` (`encode_pieces_iff`).
-/

namespace Nehemiah.Http

/-! ### Paths -/

/-- The bytes of a path that are written as they are. -/
def pathPlain (c : Char) : Bool := unreserved c || "$&+,/:;=@".toList.contains c

def escapePathChar (c : Char) : Text :=
  if pathPlain c then [c] else ['%', upperHex (c.toNat / 16), upperHex (c.toNat % 16)]

/-- `EscapedPath`, of a URL without a `RawPath`. -/
def escapePath (t : Text) : Text := t.flatMap escapePathChar

/-- `PathUnescape`. -/
def unescapePath : Text → Option Text
  | [] => some []
  | '%' :: a :: b :: t =>
    match hexValue? a, hexValue? b with
    | some x, some y => (unescapePath t).map (Char.ofNat (16 * x + y) :: ·)
    | _, _ => none
  | '%' :: _ => none
  | c :: t => (unescapePath t).map (c :: ·)

/-- What is escaped has to be, and has capitals; what is not escaped need not be. -/
def Spelled : Text → Bool
  | [] => true
  | '%' :: a :: b :: t =>
    match hexValue? a, hexValue? b with
    | some x, some y => decide (escapePathChar (Char.ofNat (16 * x + y)) = ['%', a, b]) && Spelled t
    | _, _ => false
  | c :: t => pathPlain c && Spelled t

theorem unescapePath_ordinary {c : Char} (t : Text) (h : c ≠ '%') : unescapePath (c :: t) = (unescapePath t).map (c :: ·) := by
  rw [unescapePath.eq_def]
  split
  · next heq => cases heq
  · next heq => exact absurd (List.cons.inj heq).1 h
  · next heq => exact absurd (List.cons.inj heq).1 h
  · next heq =>
    obtain ⟨rfl, rfl⟩ := List.cons.inj heq
    rfl

theorem spelled_ordinary {c : Char} (t : Text) (h : c ≠ '%') : Spelled (c :: t) = (pathPlain c && Spelled t) := by
  rw [Spelled.eq_def]
  split
  · next heq => cases heq
  · next heq => exact absurd (List.cons.inj heq).1 h
  · next heq =>
    obtain ⟨rfl, rfl⟩ := List.cons.inj heq
    rfl

theorem byte_of_not_plain {c : Char} (h : ¬pathPlain c = true) : c.toNat < 256 := by
  by_contra hlarge
  apply h
  have hun : unreserved c = true := by
    show (_ || decide (256 ≤ c.toNat)) = true
    rw [decide_eq_true (Nat.not_lt.mp hlarge), Bool.or_true]
  show (unreserved c || _) = true
  rw [hun, Bool.true_or]

theorem unescapePath_escapePathChar (c : Char) (t : Text) :
    unescapePath (escapePathChar c ++ t) = (unescapePath t).map (c :: ·) := by
  unfold escapePathChar
  split_ifs with hplain
  · apply unescapePath_ordinary
    rintro rfl
    exact absurd hplain (by decide)
  · have hbyte := byte_of_not_plain hplain
    have hread : ∀ n < 16, hexValue? (upperHex n) = some n := by decide
    show unescapePath ('%' :: upperHex (c.toNat / 16) :: upperHex (c.toNat % 16) :: t) = _
    rw [unescapePath, hread _ (by omega), hread _ (by omega)]
    show (unescapePath t).map (Char.ofNat (16 * (c.toNat / 16) + c.toNat % 16) :: ·) = _
    rw [Nat.div_add_mod, Char.ofNat_toNat]

theorem unescapePath_escapePath (t : Text) : unescapePath (escapePath t) = some t := by
  induction t with
  | nil => rfl
  | cons c t ih =>
    show unescapePath (escapePathChar c ++ escapePath t) = _
    rw [unescapePath_escapePathChar, ih]
    rfl

theorem escapePath_injective : Function.Injective escapePath := by
  intro a b h
  have hread := unescapePath_escapePath a
  rw [h, unescapePath_escapePath] at hread
  exact (Option.some.inj hread).symm

theorem escapePath_append (a b : Text) : escapePath (a ++ b) = escapePath a ++ escapePath b := List.flatMap_append

variable {t raw : Text}

/-- A text of plain bytes is written as it is. -/
theorem escapePath_plain (h : ∀ c ∈ t, pathPlain c = true) : escapePath t = t := by
  induction t with
  | nil => rfl
  | cons c t ih =>
    have hc : escapePathChar c = [c] := if_pos (h c List.mem_cons_self)
    show escapePathChar c ++ escapePath t = c :: t
    rw [hc, ih fun d hd => h d (List.mem_cons_of_mem _ hd)]
    rfl

/-- A path is written as it was read if it has the spelling in which paths are written. -/
theorem escapePath_eq_iff (h : unescapePath raw = some t) : escapePath t = raw ↔ Spelled raw = true := by
  fun_induction unescapePath raw generalizing t with
  | case1 =>
    cases h
    simp [escapePath, Spelled]
  | case2 a b rest x y hx hy ih =>
    obtain ⟨v, hv, rfl⟩ := Option.map_eq_some_iff.mp h
    rw [Spelled, hx, hy]
    show escapePathChar (Char.ofNat (16 * x + y)) ++ escapePath v = _ ↔ (decide _ && _) = true
    rw [Bool.and_eq_true, decide_eq_true_iff, ← ih hv]
    generalize Char.ofNat (16 * x + y) = c
    unfold escapePathChar
    split_ifs with hplain
    · constructor
      · intro heq
        obtain ⟨rfl, _⟩ := List.cons.inj heq
        exact absurd hplain (by decide)
      · rintro ⟨heq, _⟩
        exact absurd (congrArg List.length heq) (by simp)
    · simp [and_assoc]
  | case3 => cases h
  | case4 => cases h
  | case5 c rest hshort hlong ih =>
    obtain ⟨v, hv, rfl⟩ := Option.map_eq_some_iff.mp h
    have hc : c ≠ '%' := fun heq => hlong heq
    rw [spelled_ordinary _ hc, Bool.and_eq_true, ← ih hv]
    show escapePathChar c ++ escapePath v = _ ↔ _
    unfold escapePathChar
    split_ifs with hplain
    · simp [hplain]
    · constructor
      · intro heq
        exact absurd (List.cons.inj heq).1.symm hc
      · rintro ⟨hplain', _⟩
        exact absurd hplain' hplain

/-- What is left of a spelled path behind its first bytes. -/
def dropBytes : ℕ → Text → Text
  | 0, raw => raw
  | _ + 1, [] => []
  | n + 1, '%' :: _ :: _ :: t => dropBytes n t
  | n + 1, _ :: t => dropBytes n t

theorem unescapePath_dropBytes {a b : Text} (h : unescapePath raw = some (a ++ b)) :
    unescapePath (dropBytes a.length raw) = some b := by
  fun_induction unescapePath raw generalizing a with
  | case1 =>
    obtain ⟨rfl, rfl⟩ := List.append_eq_nil_iff.mp (Option.some.inj h).symm
    rfl
  | case2 x y t n m hx hy ih =>
    cases a with
    | nil =>
      rw [List.length_nil, dropBytes, unescapePath, hx, hy]
      exact h
    | cons c a =>
      obtain ⟨v, hv, heq⟩ := Option.map_eq_some_iff.mp h
      exact ih (hv.trans (congrArg some (List.cons.inj heq).2))
  | case3 => cases h
  | case4 => cases h
  | case5 c t hshort hlong ih =>
    have hc : c ≠ '%' := fun heq => hlong heq
    cases a with
    | nil =>
      rw [List.length_nil, dropBytes, unescapePath_ordinary _ hc]
      exact h
    | cons d a =>
      obtain ⟨v, hv, heq⟩ := Option.map_eq_some_iff.mp h
      have hdrop : dropBytes (a.length + 1) (c :: t) = dropBytes a.length t := by
        rw [dropBytes]
        exact fun _ _ _ heq' => absurd heq' hc
      rw [List.length_cons, hdrop]
      exact ih (hv.trans (congrArg some (List.cons.inj heq).2))

/-- What has the spelling of a path can be decoded. -/
theorem unescapePath_of_spelled (h : Spelled raw = true) : ∃ t, unescapePath raw = some t := by
  fun_induction unescapePath raw with
  | case1 => exact ⟨[], rfl⟩
  | case2 a b t x y hx hy ih =>
    rw [Spelled, hx, hy] at h
    obtain ⟨u, hu⟩ := ih (Bool.and_eq_true_iff.mp h).2
    exact ⟨_, congrArg (Option.map _) hu⟩
  | case3 a b t hnot =>
    rw [Spelled] at h
    split at h
    · next x y hx hy => exact absurd hy (hnot x y hx)
    · cases h
  | case4 t hshort =>
    have hpercent : Spelled ('%' :: t) = (pathPlain '%' && Spelled t) := by
      rw [Spelled]
      exact fun a b t' _ heq => hshort a b t' heq
    rw [hpercent] at h
    exact absurd (Bool.and_eq_true_iff.mp h).1 (by decide)
  | case5 c t hshort hlong ih =>
    have hc : c ≠ '%' := fun heq => hlong heq
    rw [spelled_ordinary _ hc, Bool.and_eq_true] at h
    obtain ⟨u, hu⟩ := ih h.2
    exact ⟨c :: u, congrArg (Option.map _) hu⟩

/-! ### Segments -/

theorem not_mem_of_mem_splitOn {a : Char} : ∀ l ∈ t.splitOn a, a ∉ l := by
  induction t with
  | nil =>
    intro l hl
    rw [List.splitOn_nil, List.mem_singleton] at hl
    subst hl
    exact List.not_mem_nil
  | cons c t ih =>
    intro l hl
    rw [List.splitOn_cons_eq_if_modifyHead] at hl
    split_ifs at hl with hc
    · rcases List.mem_cons.mp hl with rfl | hl
      · exact List.not_mem_nil
      · exact ih l hl
    · cases hs : t.splitOn a with
      | nil => exact absurd hs (List.splitOn_ne_nil a t)
      | cons s ss =>
        rw [hs] at hl ih
        rcases List.mem_cons.mp hl with rfl | hl
        · intro hmem
          rcases List.mem_cons.mp hmem with rfl | hmem
          · exact hc (beq_self_eq_true _)
          · exact ih s List.mem_cons_self hmem
        · exact ih l (List.mem_cons_of_mem _ hl)

theorem slash_not_mem_escapePath (h : '/' ∉ t) : '/' ∉ escapePath t := by
  intro hmem
  obtain ⟨c, hc, hmem⟩ := List.mem_flatMap.mp hmem
  unfold escapePathChar at hmem
  split_ifs at hmem with hplain
  · obtain rfl := List.mem_singleton.mp hmem
    exact h hc
  · have hbyte := byte_of_not_plain hplain
    have hhex : ∀ n < 16, upperHex n ≠ '/' := by decide
    simp only [List.mem_cons, List.not_mem_nil, or_false] at hmem
    rcases hmem with hmem | hmem | hmem
    · exact absurd hmem (by decide)
    · exact hhex _ (by omega) hmem.symm
    · exact hhex _ (by omega) hmem.symm

theorem escapePath_intercalate (segments : List Text) :
    escapePath (['/'].intercalate segments) = ['/'].intercalate (segments.map escapePath) := by
  induction segments with
  | nil => rfl
  | cons s segments ih =>
    cases segments with
    | nil => simp
    | cons s' segments =>
      have hmap : (s :: s' :: segments).map escapePath = escapePath s :: escapePath s' :: segments.map escapePath := rfl
      rw [List.intercalate_cons_cons, escapePath_append, escapePath_append, ih, hmap, List.intercalate_cons_cons]
      rfl

/-- A path is escaped segment by segment. -/
theorem splitOn_escapePath (t : Text) : (escapePath t).splitOn '/' = (t.splitOn '/').map escapePath := by
  have hslash : ∀ l ∈ (t.splitOn '/').map escapePath, '/' ∉ l := by
    intro l hl
    obtain ⟨s, hs, rfl⟩ := List.mem_map.mp hl
    exact slash_not_mem_escapePath (not_mem_of_mem_splitOn s hs)
  have hne : (t.splitOn '/').map escapePath ≠ [] := by simp
  rw [← List.splitOn_intercalate '/' hslash hne, ← escapePath_intercalate, List.intercalate_splitOn]

/-! ### Queries -/

/-- A query of these pieces is what `Encode` writes: it is empty, or its pieces are pairs in the spelling of `Encode`, in
the order of their keys. -/
def Written (pieces : List Text) : Prop :=
  pieces = [[]] ∨ (∀ piece ∈ pieces, (pairOf piece).map writePair = some piece) ∧
    ((pieces.filterMap pairOf).map Prod.fst).Pairwise (· ≤ ·)

instance (pieces : List Text) : Decidable (Written pieces) := inferInstanceAs (Decidable (_ ∨ _))

theorem valuesOf_grouped (vs : Values) (key : Text) : valuesOf (grouped vs) key = valuesOf vs key := by
  rw [← parse_encode]
  exact values_parse_encode vs key

theorem sorted_grouped (vs : Values) : ((grouped vs).map Prod.fst).Pairwise (· ≤ ·) := by
  rw [grouped, List.map_flatMap]
  apply List.pairwise_flatMap.mpr
  constructor
  · intro key _
    rw [List.map_map]
    apply List.pairwise_map.mpr
    exact List.pairwise_of_forall fun _ _ => le_refl key
  · apply (List.pairwise_insertionSort _ _).imp
    intro a b hab x hx y hy
    obtain ⟨p, hp, rfl⟩ := List.mem_map.mp hx
    obtain ⟨v, _, rfl⟩ := List.mem_map.mp hp
    obtain ⟨p, hp, rfl⟩ := List.mem_map.mp hy
    obtain ⟨w, _, rfl⟩ := List.mem_map.mp hp
    exact hab

theorem valuesOf_cons_self (p : Text × Text) (vs : Values) : valuesOf (p :: vs) p.1 = p.2 :: valuesOf vs p.1 := by
  simp [valuesOf]

theorem valuesOf_cons_ne {p : Text × Text} {key : Text} (vs : Values) (h : p.1 ≠ key) :
    valuesOf (p :: vs) key = valuesOf vs key := by
  simp [valuesOf, h]

/-- Values in the order of their keys are determined by what each key has. -/
theorem values_ext {vs ws : Values} (hvs : (vs.map Prod.fst).Pairwise (· ≤ ·)) (hws : (ws.map Prod.fst).Pairwise (· ≤ ·))
    (h : ∀ key, valuesOf vs key = valuesOf ws key) : vs = ws := by
  induction vs generalizing ws with
  | nil =>
    cases ws with
    | nil => rfl
    | cons q ws =>
      have hq := h q.1
      rw [valuesOf_cons_self] at hq
      cases hq
  | cons p vs ih =>
    cases ws with
    | nil =>
      have hp := h p.1
      rw [valuesOf_cons_self] at hp
      cases hp
    | cons q ws =>
      rw [List.map_cons, List.pairwise_cons] at hvs hws
      have hpq : p.1 ≤ q.1 := by
        have hmem : q.1 ∈ (p :: vs).map Prod.fst := by
          rw [mem_keys, h, valuesOf_cons_self]
          exact List.cons_ne_nil _ _
        rcases List.mem_cons.mp hmem with heq | hmem
        · exact le_of_eq heq.symm
        · exact hvs.1 _ hmem
      have hqp : q.1 ≤ p.1 := by
        have hmem : p.1 ∈ (q :: ws).map Prod.fst := by
          rw [mem_keys, ← h, valuesOf_cons_self]
          exact List.cons_ne_nil _ _
        rcases List.mem_cons.mp hmem with heq | hmem
        · exact le_of_eq heq.symm
        · exact hws.1 _ hmem
      have hkey : p.1 = q.1 := le_antisymm hpq hqp
      have hhead := h p.1
      rw [valuesOf_cons_self, hkey, valuesOf_cons_self] at hhead
      obtain ⟨hvalue, htail⟩ := List.cons.inj hhead
      have hp : p = q := Prod.ext hkey hvalue
      rw [hp, ih hvs.2 hws.2]
      intro key
      by_cases hcase : q.1 = key
      · subst hcase
        exact htail
      · have hrest := h key
        rwa [valuesOf_cons_ne _ (hkey ▸ hcase), valuesOf_cons_ne _ hcase] at hrest

theorem amp_not_mem_writePair (p : Text × Text) : '&' ∉ writePair p := by
  intro h
  rcases List.mem_append.mp h with h | h
  · exact not_mem_escape (Or.inl rfl) _ h
  · rcases List.mem_cons.mp h with h | h
    · exact absurd h (by decide)
    · exact not_mem_escape (Or.inl rfl) _ h

theorem filterMap_pairOf_writePair (vs : Values) : (vs.map writePair).filterMap pairOf = vs := by
  have hread : pairOf ∘ writePair = some := by
    funext p
    exact pairOf_writePair p
  rw [List.filterMap_map, hread, List.filterMap_some]

/-- The pieces of what `Encode` writes. -/
theorem splitOn_encode (vs : Values) :
    (encode vs).splitOn '&' = [[]] ∨ (encode vs).splitOn '&' = (grouped vs).map writePair := by
  rw [encode_eq]
  by_cases hnone : grouped vs = []
  · rw [hnone]
    exact Or.inl rfl
  · have hamp : ∀ l ∈ (grouped vs).map writePair, '&' ∉ l := by
      intro l hl
      obtain ⟨p, _, rfl⟩ := List.mem_map.mp hl
      exact amp_not_mem_writePair p
    exact Or.inr (List.splitOn_intercalate '&' hamp (by simpa using hnone))

theorem written_grouped (vs : Values) : Written ((grouped vs).map writePair) := by
  refine Or.inr ⟨?_, ?_⟩
  · intro piece hpiece
    obtain ⟨p, _, rfl⟩ := List.mem_map.mp hpiece
    rw [pairOf_writePair]
    rfl
  · rw [filterMap_pairOf_writePair]
    exact sorted_grouped vs

theorem map_writePair_filterMap {pieces : List Text} (h : ∀ piece ∈ pieces, (pairOf piece).map writePair = some piece) :
    (pieces.filterMap pairOf).map writePair = pieces := by
  induction pieces with
  | nil => rfl
  | cons piece pieces ih =>
    obtain ⟨p, hp, hpiece⟩ := Option.map_eq_some_iff.mp (h piece List.mem_cons_self)
    rw [List.filterMap_cons_some hp, List.map_cons, hpiece, ih fun l hl => h l (List.mem_cons_of_mem _ hl)]

/-- The pieces of a query are written as they were read if they are in the spelling and the order of `Encode`. -/
theorem encode_pieces_iff {pieces : List Text} (hamp : ∀ piece ∈ pieces, '&' ∉ piece) :
    encode (pieces.filterMap pairOf) = ['&'].intercalate pieces ↔ Written pieces := by
  constructor
  · intro h
    by_cases hempty : pieces = []
    · subst hempty
      exact Or.inr ⟨fun piece hpiece => absurd hpiece List.not_mem_nil, List.Pairwise.nil⟩
    · have hpieces := List.splitOn_intercalate '&' hamp hempty
      rw [← h] at hpieces
      rcases splitOn_encode (pieces.filterMap pairOf) with hsplit | hsplit
      · exact Or.inl (hpieces.symm.trans hsplit)
      · rw [← hpieces, hsplit]
        exact written_grouped _
  · rintro (rfl | ⟨hpieces, hsorted⟩)
    · rfl
    · have hgrouped : grouped (pieces.filterMap pairOf) = pieces.filterMap pairOf :=
        values_ext (sorted_grouped _) hsorted (valuesOf_grouped _)
      rw [encode_eq, hgrouped, map_writePair_filterMap hpieces]

end Nehemiah.Http
