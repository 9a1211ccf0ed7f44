import Mathlib

/-!
# Query strings

`ParseQuery`, `Values.Encode` and `cleanQueryParams` of Go.  A query is a string of bytes, each a character below 256.
A piece between two ampersands that has a semicolon or a broken escape is skipped; the values are kept in the order in
which the query has them, and are written key by key.

What `encode` writes is read back as the same values (`values_parse_encode`), so cleaning a query first changes
nothing of what it means (`values_clean`).
-/

namespace Nehemiah.Http

abbrev Text := List Char

/-! ### Escapes -/

def hexValue? (c : Char) : Option ℕ :=
  if '0' ≤ c ∧ c ≤ '9' then some (c.toNat - '0'.toNat)
  else if 'a' ≤ c ∧ c ≤ 'f' then some (c.toNat - 'a'.toNat + 10)
  else if 'A' ≤ c ∧ c ≤ 'F' then some (c.toNat - 'A'.toNat + 10)
  else none

/-- `QueryUnescape`. -/
def unescape : Text → Option Text
  | [] => some []
  | '%' :: a :: b :: t =>
    match hexValue? a, hexValue? b with
    | some x, some y => (unescape t).map (Char.ofNat (16 * x + y) :: ·)
    | _, _ => none
  | '%' :: _ => none
  | '+' :: t => (unescape t).map (' ' :: ·)
  | c :: t => (unescape t).map (c :: ·)

def upperHex (n : ℕ) : Char := Char.ofNat (if n < 10 then 48 + n else 55 + n)

/-- The bytes that are written as they are.  There is no byte from 256 on. -/
def unreserved (c : Char) : Bool := c.isAlphanum || "-_.~".toList.contains c || decide (256 ≤ c.toNat)

def escapeChar (c : Char) : Text :=
  if c = ' ' then ['+'] else if unreserved c then [c] else ['%', upperHex (c.toNat / 16), upperHex (c.toNat % 16)]

/-- `QueryEscape`. -/
def escape (t : Text) : Text := t.flatMap escapeChar

/-! ### Values -/

/-- `Values`: the keys with their values, in the order of the query. -/
abbrev Values := List (Text × Text)

def valuesOf (vs : Values) (key : Text) : List Text := (vs.filter fun p => decide (p.1 = key)).map Prod.snd

def Values.has (vs : Values) (key : Text) : Bool := vs.any fun p => decide (p.1 = key)

/-- `Del`. -/
def Values.del (vs : Values) (key : Text) : Values := vs.filter fun p => decide (p.1 ≠ key)

def keyOf (piece : Text) : Text := piece.takeWhile (· ≠ '=')

/-- A piece of a query: the text before the first `=` and the text after it, each unescaped. -/
def pairOf (piece : Text) : Option (Text × Text) :=
  if ';' ∈ piece ∨ piece = [] then none
  else
    match unescape (keyOf piece), unescape ((piece.dropWhile (· ≠ '=')).drop 1) with
    | some key, some value => some (key, value)
    | _, _ => none

/-- `ParseQuery`, of which the error is ignored. -/
def parseQuery (query : Text) : Values := (query.splitOn '&').filterMap pairOf

def sortedKeys (vs : Values) : List Text := (vs.map Prod.fst).dedup.insertionSort (· ≤ ·)

def writePair (p : Text × Text) : Text := escape p.1 ++ '=' :: escape p.2

/-- `Encode`. -/
def encode (vs : Values) : Text :=
  ['&'].intercalate ((sortedKeys vs).flatMap fun key => (valuesOf vs key).map fun value => writePair (key, value))

/-- `cleanQueryParams`. -/
def cleanQueryParams (query : Text) : Text :=
  if ';' ∈ query ∨ (unescape query).isNone then encode (parseQuery query) else query

/-! ### What is escaped is read back -/

theorem unescape_ordinary {c : Char} (t : Text) (hpercent : c ≠ '%') (hplus : c ≠ '+') :
    unescape (c :: t) = (unescape t).map (c :: ·) := by
  rw [unescape.eq_def]
  split
  · next h => cases h
  · next h => exact absurd (List.cons.inj h).1 hpercent
  · next h => exact absurd (List.cons.inj h).1 hpercent
  · next h => exact absurd (List.cons.inj h).1 hplus
  · next h =>
    obtain ⟨rfl, rfl⟩ := List.cons.inj h
    rfl

theorem unescape_escapeChar (c : Char) (t : Text) : unescape (escapeChar c ++ t) = (unescape t).map (c :: ·) := by
  unfold escapeChar
  split_ifs with hspace hun
  · subst hspace
    rfl
  · have hpercent : c ≠ '%' := by
      rintro rfl
      exact absurd hun (by decide)
    have hplus : c ≠ '+' := by
      rintro rfl
      exact absurd hun (by decide)
    exact unescape_ordinary t hpercent hplus
  · have hbyte : c.toNat < 256 := by
      by_contra hlarge
      apply hun
      show (_ || decide (256 ≤ c.toNat)) = true
      rw [decide_eq_true (Nat.not_lt.mp hlarge), Bool.or_true]
    have hread : ∀ n < 16, hexValue? (upperHex n) = some n := by decide
    show unescape ('%' :: upperHex (c.toNat / 16) :: upperHex (c.toNat % 16) :: t) = _
    rw [unescape, hread _ (by omega), hread _ (by omega)]
    show (unescape t).map (Char.ofNat (16 * (c.toNat / 16) + c.toNat % 16) :: ·) = _
    rw [Nat.div_add_mod, Char.ofNat_toNat]

theorem unescape_escape (t : Text) : unescape (escape t) = some t := by
  induction t with
  | nil => rfl
  | cons c t ih =>
    show unescape (escapeChar c ++ escape t) = _
    rw [unescape_escapeChar, ih]
    rfl

/-- None of the separators of a query is ever written by an escape. -/
theorem not_mem_escape {d : Char} (hd : d = '&' ∨ d = ';' ∨ d = '=') (t : Text) : d ∉ escape t := by
  intro hmem
  obtain ⟨c, _, hc⟩ := List.mem_flatMap.mp hmem
  unfold escapeChar at hc
  split_ifs at hc with hspace hun
  · rcases hd with rfl | rfl | rfl <;> exact absurd hc (by decide)
  · obtain rfl := List.mem_singleton.mp hc
    rcases hd with rfl | rfl | rfl <;> exact absurd hun (by decide)
  · have hbyte : c.toNat < 256 := by
      by_contra hlarge
      apply hun
      show (_ || decide (256 ≤ c.toNat)) = true
      rw [decide_eq_true (Nat.not_lt.mp hlarge), Bool.or_true]
    have hhex : ∀ n < 16, upperHex n ≠ '&' ∧ upperHex n ≠ ';' ∧ upperHex n ≠ '=' := by decide
    have hhigh := hhex (c.toNat / 16) (by omega)
    have hlow := hhex (c.toNat % 16) (by omega)
    simp only [List.mem_cons, List.not_mem_nil, or_false] at hc
    rcases hd with rfl | rfl | rfl <;> rcases hc with hc | hc | hc
    · exact absurd hc (by decide)
    · exact hhigh.1 hc.symm
    · exact hlow.1 hc.symm
    · exact absurd hc (by decide)
    · exact hhigh.2.1 hc.symm
    · exact hlow.2.1 hc.symm
    · exact absurd hc (by decide)
    · exact hhigh.2.2 hc.symm
    · exact hlow.2.2 hc.symm

theorem pairOf_writePair (p : Text × Text) : pairOf (writePair p) = some p := by
  have hno : ¬(';' ∈ writePair p ∨ writePair p = []) := by
    rintro (h | h)
    · rcases List.mem_append.mp h with h | h
      · exact not_mem_escape (Or.inr (Or.inl rfl)) _ h
      · rcases List.mem_cons.mp h with h | h
        · exact absurd h (by decide)
        · exact not_mem_escape (Or.inr (Or.inl rfl)) _ h
    · exact absurd h (by simp [writePair])
  have hkey : ∀ c ∈ escape p.1, decide (c ≠ '=') = true := by
    intro c hc
    apply decide_eq_true
    rintro rfl
    exact not_mem_escape (Or.inr (Or.inr rfl)) _ hc
  have htake : keyOf (writePair p) = escape p.1 := by
    show (escape p.1 ++ '=' :: escape p.2).takeWhile _ = _
    rw [List.takeWhile_append_of_pos hkey]
    simp
  have hdrop : (writePair p).dropWhile (fun c => decide (c ≠ '=')) = '=' :: escape p.2 := by
    show (escape p.1 ++ '=' :: escape p.2).dropWhile _ = _
    rw [List.dropWhile_append_of_pos hkey]
    simp
  rw [pairOf, if_neg hno, htake, hdrop]
  show (match unescape (escape p.1), unescape (escape p.2) with
    | some key, some value => some (key, value)
    | _, _ => none) = _
  rw [unescape_escape, unescape_escape]

theorem pairOf_key {piece : Text} {p : Text × Text} (h : pairOf piece = some p) : unescape (keyOf piece) = some p.1 := by
  unfold pairOf at h
  split_ifs at h
  split at h
  · next key value hkey _ =>
    cases h
    exact hkey
  · cases h

/-- Pairs can be left out before or after they are read. -/
theorem filter_filterMap_pairOf {keep : Text × Text → Bool} {keepPiece : Text → Bool}
    (h : ∀ piece p, pairOf piece = some p → keep p = keepPiece piece) (pieces : List Text) :
    (pieces.filterMap pairOf).filter keep = (pieces.filter keepPiece).filterMap pairOf := by
  induction pieces with
  | nil => rfl
  | cons piece pieces ih =>
    cases hpair : pairOf piece with
    | none =>
      rw [List.filterMap_cons_none hpair, ih]
      cases hkeep : keepPiece piece with
      | true => rw [List.filter_cons_of_pos hkeep, List.filterMap_cons_none hpair]
      | false => rw [List.filter_cons_of_neg (Bool.eq_false_iff.mp hkeep)]
    | some p =>
      have hsame := h piece p hpair
      rw [List.filterMap_cons_some hpair]
      cases hkeep : keepPiece piece with
      | true =>
        rw [List.filter_cons_of_pos (hsame.trans hkeep), List.filter_cons_of_pos hkeep, List.filterMap_cons_some hpair, ih]
      | false =>
        rw [List.filter_cons_of_neg (Bool.eq_false_iff.mp (hsame.trans hkeep)),
          List.filter_cons_of_neg (Bool.eq_false_iff.mp hkeep), ih]

/-- The values, key by key. -/
def grouped (vs : Values) : Values := (sortedKeys vs).flatMap fun key => (valuesOf vs key).map fun value => (key, value)

theorem encode_eq (vs : Values) : encode vs = ['&'].intercalate ((grouped vs).map writePair) := by
  unfold encode grouped
  rw [List.map_flatMap]
  simp only [List.map_map, Function.comp_def]

theorem parse_encode (vs : Values) : parseQuery (encode vs) = grouped vs := by
  rw [encode_eq]
  cases hg : grouped vs with
  | nil => rfl
  | cons p ps =>
    have hamp : ∀ l ∈ (p :: ps).map writePair, '&' ∉ l := by
      intro l hl hmem
      obtain ⟨q, _, rfl⟩ := List.mem_map.mp hl
      rcases List.mem_append.mp hmem with h | h
      · exact not_mem_escape (Or.inl rfl) _ h
      · rcases List.mem_cons.mp h with h | h
        · exact absurd h (by decide)
        · exact not_mem_escape (Or.inl rfl) _ h
    unfold parseQuery
    rw [List.splitOn_intercalate '&' hamp (by simp), List.filterMap_map]
    have hread : pairOf ∘ writePair = some := funext pairOf_writePair
    rw [hread, List.filterMap_some]

/-! ### What a query means -/

section Meaning

variable {vs ws : Values} {key : Text}

theorem mem_keys : key ∈ vs.map Prod.fst ↔ valuesOf vs key ≠ [] := by
  constructor
  · intro h hnil
    obtain ⟨p, hp, rfl⟩ := List.mem_map.mp h
    have hmem : p.2 ∈ valuesOf vs p.1 := List.mem_map.mpr ⟨p, List.mem_filter.mpr ⟨hp, decide_eq_true rfl⟩, rfl⟩
    rw [hnil] at hmem
    cases hmem
  · intro h
    obtain ⟨v, hv⟩ := List.exists_mem_of_ne_nil _ h
    obtain ⟨p, hp, rfl⟩ := List.mem_map.mp hv
    obtain ⟨hmem, hkey⟩ := List.mem_filter.mp hp
    exact List.mem_map.mpr ⟨p, hmem, of_decide_eq_true hkey⟩

theorem mem_sortedKeys : key ∈ sortedKeys vs ↔ valuesOf vs key ≠ [] := by
  rw [sortedKeys, List.mem_insertionSort, List.mem_dedup, mem_keys]

theorem nodup_sortedKeys (vs : Values) : (sortedKeys vs).Nodup :=
  (List.perm_insertionSort _ _).nodup_iff.mpr (List.nodup_dedup _)

/-- Queries that mean the same are written alike. -/
theorem encode_congr (h : ∀ key, valuesOf vs key = valuesOf ws key) : encode vs = encode ws := by
  have hperm : (vs.map Prod.fst).dedup.Perm (ws.map Prod.fst).dedup := by
    apply (List.perm_ext_iff_of_nodup (List.nodup_dedup _) (List.nodup_dedup _)).mpr
    intro key
    rw [List.mem_dedup, List.mem_dedup, mem_keys, mem_keys, h]
  have hkeys : sortedKeys vs = sortedKeys ws := List.Perm.eq_of_pairwise (fun _ _ _ _ hab hba => le_antisymm hab hba)
    (List.pairwise_insertionSort _ _) (List.pairwise_insertionSort _ _)
    (((List.perm_insertionSort _ _).trans hperm).trans (List.perm_insertionSort _ _).symm)
  unfold encode
  rw [hkeys, funext h]

theorem valuesOf_append : valuesOf (vs ++ ws) key = valuesOf vs key ++ valuesOf ws key := by
  unfold valuesOf
  rw [List.filter_append, List.map_append]

theorem valuesOf_same (us : List Text) : valuesOf (us.map fun u => (key, u)) key = us := by
  induction us with
  | nil => rfl
  | cons u us ih =>
    show valuesOf ([(key, u)] ++ us.map fun u => (key, u)) key = u :: us
    rw [valuesOf_append, ih]
    simp [valuesOf]

theorem valuesOf_other {other : Text} (us : List Text) (h : other ≠ key) : valuesOf (us.map fun u => (other, u)) key = [] := by
  unfold valuesOf
  rw [List.filter_eq_nil_iff.mpr]
  · rfl
  · intro p hp
    obtain ⟨u, _, rfl⟩ := List.mem_map.mp hp
    exact fun heq => h (of_decide_eq_true heq)

theorem valuesOf_group {keys : List Text} (hkeys : keys.Nodup) :
    valuesOf (keys.flatMap fun k => (valuesOf vs k).map fun value => (k, value)) key =
      if key ∈ keys then valuesOf vs key else [] := by
  induction keys with
  | nil => rfl
  | cons k keys ih =>
    obtain ⟨hk, hkeys⟩ := List.nodup_cons.mp hkeys
    rw [List.flatMap_cons, valuesOf_append, ih hkeys]
    by_cases heq : k = key
    · subst heq
      rw [valuesOf_same, if_neg hk, if_pos List.mem_cons_self, List.append_nil]
    · rw [valuesOf_other _ heq, List.nil_append]
      have hmem : key ∈ k :: keys ↔ key ∈ keys := by simp [List.mem_cons, Ne.symm heq]
      simp only [hmem]

theorem values_parse_encode (vs : Values) (key : Text) : valuesOf (parseQuery (encode vs)) key = valuesOf vs key := by
  rw [parse_encode, grouped, valuesOf_group (nodup_sortedKeys vs)]
  split_ifs with h
  · rfl
  · exact (not_not.mp fun hne => h (mem_sortedKeys.mpr hne)).symm

theorem values_clean (query : Text) (key : Text) :
    valuesOf (parseQuery (cleanQueryParams query)) key = valuesOf (parseQuery query) key := by
  unfold cleanQueryParams
  split_ifs
  · exact values_parse_encode _ _
  · rfl

theorem valuesOf_del (vs : Values) (deleted : Text) :
    valuesOf (vs.del deleted) key = if key = deleted then [] else valuesOf vs key := by
  unfold valuesOf Values.del
  rw [List.filter_filter]
  split_ifs with h
  · subst h
    rw [List.filter_eq_nil_iff.mpr]
    · rfl
    · simp
  · congr 1
    apply List.filter_congr
    intro p _
    by_cases hp : p.1 = key
    · simp [hp, h]
    · simp [hp]

end Meaning

end Nehemiah.Http
