import Nehemiah.Host.Egress

/-!
# One meaning of a network policy

The control plane stores the canonical form of a declaration, the host makes its own canonical form of it, and the
reconciler compares the two.  The control plane keeps the text of a CIDR, and has no limit on the length of a hostname;
the host reads the text strictly, masks the prefix and writes it anew.  So they agree exactly when the CIDRs are
written as the host writes them and the hostnames are not too long (`egress_policy_one_meaning`).
-/

namespace Nehemiah.Egress

open Lib Ipv4

/-! ### Sorted sets -/

section SortedSet

variable {ts : List Text}

@[simp] theorem mem_sortedSet {t : Text} : t ∈ sortedSet ts ↔ t ∈ ts := by
  rw [sortedSet, List.mem_insertionSort, List.mem_dedup]

theorem sortedSet_pairwise (ts : List Text) : (sortedSet ts).Pairwise (· ≤ ·) := List.pairwise_insertionSort _ _

theorem sortedSet_nodup (ts : List Text) : (sortedSet ts).Nodup :=
  (List.perm_insertionSort _ _).nodup_iff.mpr (List.nodup_dedup ts)

theorem sortedSet_length_le (ts : List Text) : (sortedSet ts).length ≤ ts.length := by
  have hperm : (sortedSet ts).Perm ts.dedup := List.perm_insertionSort _ _
  rw [hperm.length_eq]
  exact (List.dedup_sublist ts).length_le

theorem sortedSet_eq_self (hs : ts.Pairwise (· ≤ ·)) (hn : ts.Nodup) : sortedSet ts = ts := by
  rw [sortedSet, hn.dedup, hs.insertionSort_eq]

@[simp] theorem sortedSet_sortedSet (ts : List Text) : sortedSet (sortedSet ts) = sortedSet ts :=
  sortedSet_eq_self (sortedSet_pairwise ts) (sortedSet_nodup ts)

end SortedSet

/-! ### Lists of partial results -/

section MapM

variable {α β : Type*} {f : α → Option β}

/-- Results that are all there. -/
theorem mapM_map_eq_some {g : β → α} {ys : List β} (h : ∀ y ∈ ys, f (g y) = some y) : (ys.map g).mapM f = some ys := by
  induction ys with
  | nil => rfl
  | cons y ys ih =>
    rw [List.map_cons, List.mapM_cons, h y List.mem_cons_self, ih fun z hz => h z (List.mem_cons_of_mem y hz)]
    rfl

theorem mapM_isSome {xs : List α} {ys : List β} (h : xs.mapM f = some ys) : ∀ x ∈ xs, (f x).isSome = true := by
  induction xs generalizing ys with
  | nil => exact fun _ hx => nomatch hx
  | cons x xs ih =>
    rw [List.mapM_cons] at h
    obtain ⟨y, hy, h⟩ := Option.bind_eq_some_iff.mp h
    obtain ⟨zs, hzs, -⟩ := Option.bind_eq_some_iff.mp h
    intro x' hx'
    rcases List.mem_cons.mp hx' with rfl | hx'
    · rw [hy]
      rfl
    · exact ih hzs x' hx'

end MapM

/-! ### Characters of canonical texts -/

/-- The characters of canonical hostnames and of the texts of prefixes. -/
def canonicalChar (c : Char) : Bool := labelChar c || "*./".toList.contains c

variable {c : Char} {hostname plain : Text}

theorem canonicalChar_ascii (h : canonicalChar c = true) : c.toNat < 128 := by
  simp only [canonicalChar, labelChar, labelEnd, lowerLetter, Char.isDigit, Bool.or_eq_true, Bool.and_eq_true,
    decide_eq_true_eq, List.contains_iff_mem] at h
  rcases h with ((⟨-, h⟩ | ⟨-, h⟩) | rfl) | h
  · exact lt_of_le_of_lt (UInt32.le_iff_toNat_le.mp h) (by decide)
  · exact lt_of_le_of_lt (UInt32.le_iff_toNat_le.mp h) (by decide)
  · decide
  · have h : c = '*' ∨ c = '.' ∨ c = '/' := by simpa using h
    rcases h with rfl | rfl | rfl <;> decide

/-- Neither program changes a canonical character, nor takes it for a blank. -/
structure Fixed (c : Char) : Prop where
  lower : (if c = '\u212A' then 'k' else c.toLower) = c
  hostLower : (if c = '\u212A' then 'k' else if c = '\u0130' then 'i' else c.toLower) = c
  blank : isJsSpace c = false
  hostBlank : isSpace c = false

theorem canonicalChar_fixed (h : canonicalChar c = true) : Fixed c := by
  have hall : ∀ n < 128, canonicalChar (Char.ofNat n) = true →
      ((if Char.ofNat n = '\u212A' then 'k' else (Char.ofNat n).toLower) = Char.ofNat n ∧
      (if Char.ofNat n = '\u212A' then 'k' else if Char.ofNat n = '\u0130' then 'i' else (Char.ofNat n).toLower) = Char.ofNat n) ∧
      isJsSpace (Char.ofNat n) = false ∧ isSpace (Char.ofNat n) = false := by
    decide +kernel
  have hc := hall c.toNat (canonicalChar_ascii h)
  rw [Char.ofNat_toNat] at hc
  obtain ⟨⟨hlower, hhost⟩, hblank, hhostBlank⟩ := hc h
  exact ⟨hlower, hhost, hblank, hhostBlank⟩

theorem mem_intercalate {a : Char} {ls : List Text} (h : c ∈ [a].intercalate ls) : c = a ∨ ∃ l ∈ ls, c ∈ l := by
  induction ls with
  | nil => cases h
  | cons l ls ih =>
    cases ls with
    | nil => exact .inr ⟨l, List.mem_singleton_self l, by simpa [List.intercalate] using h⟩
    | cons l' ls =>
      have h : c ∈ l ++ ([a] ++ [a].intercalate (l' :: ls)) := by simpa [List.intercalate] using h
      rcases List.mem_append.mp h with h | h
      · exact .inr ⟨l, List.mem_cons_self, h⟩
      · rcases List.mem_append.mp h with h | h
        · exact .inl (List.mem_singleton.mp h)
        · obtain h | ⟨m, hm, hc⟩ := ih h
          · exact .inl h
          · exact .inr ⟨m, List.mem_cons_of_mem l hm, hc⟩

theorem mem_of_splitOn {t : Text} (a : Char) (h : c ∈ t) : c = a ∨ ∃ l ∈ t.splitOn a, c ∈ l := by
  rw [← @List.intercalate_splitOn _ t _ _ a] at h
  exact mem_intercalate h

theorem dropWhile_fixed {p : Char → Bool} {t : Text} (h : ∀ c ∈ t, p c = false) : t.dropWhile p = t := by
  cases t with
  | nil => rfl
  | cons c t => rw [List.dropWhile_cons_of_neg (by simp [h c List.mem_cons_self])]

theorem trim_fixed {p : Char → Bool} {t : Text} (h : ∀ c ∈ t, p c = false) :
    ((t.dropWhile p).reverse.dropWhile p).reverse = t := by
  have hreverse : ∀ c ∈ t.reverse, p c = false := fun c hc => h c (List.mem_reverse.mp hc)
  rw [dropWhile_fixed h, dropWhile_fixed hreverse, List.reverse_reverse]

section Canonical

variable {t : Text} (h : ∀ c ∈ t, canonicalChar c = true)

include h

theorem toLowerCase_fixed : toLowerCase t = t :=
  (List.map_congr_left fun c hc => (canonicalChar_fixed (h c hc)).lower).trans (List.map_id t)

theorem toLower_fixed : toLower t = t :=
  (List.map_congr_left fun c hc => (canonicalChar_fixed (h c hc)).hostLower).trans (List.map_id t)

theorem trimChars_fixed : trimChars t = t := trim_fixed fun c hc => (canonicalChar_fixed (h c hc)).blank

theorem trimSpace_fixed : trimSpace t = t := trim_fixed fun c hc => (canonicalChar_fixed (h c hc)).hostBlank

end Canonical

/-! ### Prefixes -/

theorem canonicalChar_digits {n : ℕ} (h : c ∈ digits n) : canonicalChar c = true := by
  have hdigit : c.isDigit = true := Nat.isDigit_of_mem_toDigits (by decide) (by decide) h
  simp [canonicalChar, labelChar, labelEnd, hdigit]

theorem canonicalChar_text (p : Prefix) : ∀ c ∈ p.text, canonicalChar c = true := by
  intro c hc
  rcases List.mem_append.mp hc with hc | hc
  · obtain rfl | ⟨l, hl, hc⟩ := mem_intercalate hc
    · rfl
    · simp only [List.mem_cons, List.not_mem_nil, or_false] at hl
      rcases hl with rfl | rfl | rfl | rfl <;> exact canonicalChar_digits hc
  · rcases List.mem_cons.mp hc with rfl | hc
    · rfl
    · exact canonicalChar_digits hc

theorem prefixNumber_digits {n : ℕ} (h : n ≤ 32) : prefixNumber (digits n) = some n := by
  have hall : ∀ n ≤ 32, prefixNumber (digits n) = some n := by decide +kernel
  exact hall n h

/-- The control plane reads the text of a prefix as the host does. -/
theorem addCidr_text (p : Prefix) : addCidr p.text = some p := by
  unfold addCidr
  rw [splitOn_text]
  dsimp only
  rw [addr?_addrText p.addr_lt, prefixNumber_digits p.bits_le]
  exact dif_pos ⟨p.addr_lt, p.bits_le⟩

/-! ### Hostnames -/

/-- Two labels or more, and the last one of letters. -/
structure Labelled (plain : Text) : Prop where
  two : 2 ≤ (plain.splitOn '.').length
  labels : ∀ l ∈ plain.splitOn '.', hostLabel l = true
  last : ∀ l, (plain.splitOn '.').getLast? = some l → hostLast l = true

theorem labelEnd_ne (h : labelEnd c = true) : c ≠ '-' := by
  rintro rfl
  exact absurd h (by decide)

theorem hostLabel_of {l : Text} {a b : Char} (hlen : l.length ≤ 63) (ha : l.head? = some a) (hb : l.getLast? = some b)
    (hstart : labelEnd a = true) (hend : labelEnd b = true) (hall : l.all labelChar = true) : hostLabel l = true := by
  have hne : l ≠ [] := by
    rintro rfl
    cases ha
  have hends : l ≠ [] ∧ l.length ≤ 63 ∧ l.head? ≠ some '-' ∧ l.getLast? ≠ some '-' := by
    refine ⟨hne, hlen, ?_, ?_⟩
    · rw [ha]
      exact fun h => labelEnd_ne hstart (Option.some.inj h)
    · rw [hb]
      exact fun h => labelEnd_ne hend (Option.some.inj h)
  show (decide _ && l.all labelChar) = true
  rw [hall, decide_eq_true hends]
  rfl

theorem hostLabel_of_validLabel {l : Text} (h : validLabel l = true) : hostLabel l = true := by
  cases l with
  | nil => cases h
  | cons c rest =>
    cases rest with
    | nil =>
      have hc : labelEnd c = true := h
      have hall : [c].all labelChar = true := by simp [labelChar, hc]
      exact hostLabel_of (by simp) rfl rfl hc hc hall
    | cons c' rest =>
      unfold validLabel at h
      simp only [Bool.and_eq_true, decide_eq_true_eq] at h
      obtain ⟨⟨⟨hstart, hmiddle⟩, hlen⟩, hend⟩ := h
      obtain ⟨b, hb⟩ : ∃ b, (c' :: rest).getLast? = some b := Option.isSome_iff_exists.mp (by simp)
      have hsplit := List.dropLast_append_getLast? b hb
      rw [hb] at hend
      have hend : labelEnd b = true := hend
      have hall : (c :: c' :: rest).all labelChar = true := by
        rw [← hsplit]
        simp only [List.all_cons, List.all_append, List.all_nil, Bool.and_true, Bool.and_eq_true]
        exact ⟨by simp [labelChar, hstart], hmiddle, by simp [labelChar, hend]⟩
      refine hostLabel_of ?_ rfl (b := b) ?_ hstart hend hall
      · rw [List.length_dropLast] at hlen
        simp only [List.length_cons] at hlen ⊢
        omega
      · rw [List.getLast?_cons_cons]
        exact hb

theorem hostLabel_of_validLast {l : Text} (h : validLast l = true) : hostLabel l = true ∧ hostLast l = true := by
  unfold validLast at h
  simp only [Bool.and_eq_true, decide_eq_true_eq] at h
  obtain ⟨hall, hmin, hmax⟩ := h
  refine ⟨?_, by simp [hostLast, hall, hmin]⟩
  have hne : l ≠ [] := by
    rintro rfl
    cases hmin
  have hletter : ∀ c ∈ l, labelEnd c = true := fun c hc => by simp [labelEnd, List.all_eq_true.mp hall c hc]
  refine hostLabel_of hmax (List.head?_eq_some_head hne) (List.getLast?_eq_some_getLast hne)
    (hletter _ (List.head_mem hne)) (hletter _ (List.getLast_mem hne)) ?_
  rw [List.all_eq_true]
  intro c hc
  simp [labelChar, hletter c hc]

/-- The rules of the control plane are labelled as the host wants it. -/
theorem Labelled.of_valid (h : validHostnameRule hostname = true) : Labelled (plainPart hostname) := by
  unfold validHostnameRule at h
  simp only [Bool.and_eq_true, decide_eq_true_eq] at h
  obtain ⟨⟨htwo, hinit⟩, hlast⟩ := h
  obtain ⟨last, hl, hvalid⟩ := (Option.any_eq_true _ _).mp hlast
  obtain ⟨hlabel, hletters⟩ := hostLabel_of_validLast hvalid
  refine ⟨htwo, fun l hmem => ?_, fun l hsome => ?_⟩
  · rw [← List.dropLast_append_getLast? last hl] at hmem
    rcases List.mem_append.mp hmem with hmem | hmem
    · exact hostLabel_of_validLabel (List.all_eq_true.mp hinit l hmem)
    · rw [List.mem_singleton.mp hmem]
      exact hlabel
  · rw [← Option.some.inj (hl.symm.trans hsome)]
    exact hletters

theorem length_splitOn_of_not_mem {t : Text} {a : Char} (h : a ∉ t) : (t.splitOn a).length = 1 := by
  rw [List.splitOn_eq_singleton h]
  rfl

theorem Labelled.of_hostRule (h : hostRule plain = true) : Labelled plain := by
  unfold Egress.hostRule at h
  simp only [Bool.and_eq_true, decide_eq_true_eq] at h
  obtain ⟨⟨⟨-, -, -, hdot⟩, hlabels⟩, hlast⟩ := h
  obtain ⟨last, hl, hletters⟩ := (Option.any_eq_true _ _).mp hlast
  refine ⟨?_, List.all_eq_true.mp hlabels, fun l hsome => ?_⟩
  · -- a dot makes two labels
    have hmem : '.' ∈ plain := List.count_pos_iff.mp hdot
    obtain ⟨xs, ys, rfl⟩ := List.append_of_mem hmem
    rw [List.splitOn_append_cons_self, List.length_append]
    have hxs := List.length_pos_iff.mpr (List.splitOn_ne_nil '.' xs)
    have hys := List.length_pos_iff.mpr (List.splitOn_ne_nil '.' ys)
    omega
  · rw [← Option.some.inj (hl.symm.trans hsome)]
    exact hletters

theorem not_digit_of_letter (h : lowerLetter c = true) : c.isDigit = false := by
  unfold lowerLetter at h
  have hle : 97 ≤ c.toNat := UInt32.le_iff_toNat_le.mp (of_decide_eq_true h).1
  have hnot : ¬ c.val ≤ 57 := fun hc => by
    have := UInt32.le_iff_toNat_le.mp hc
    have h57 : c.toNat ≤ 57 := this
    omega
  simp [Char.isDigit, hnot]

/-- The last label of an address would be a number. -/
theorem Labelled.not_addr (h : Labelled plain) : addr? plain = none := by
  unfold addr?
  split
  · next a b c d heq =>
    exfalso
    have hlast : ((plain.splitOn '.').map octet?).getLast? = some (some d) := by rw [heq]; rfl
    rw [List.getLast?_map] at hlast
    obtain ⟨l, hl, hoctet⟩ := Option.map_eq_some_iff.mp hlast
    have hletters := h.last l hl
    simp only [hostLast, Bool.and_eq_true, decide_eq_true_eq] at hletters
    obtain ⟨hn, -⟩ := Option.filter_eq_some_iff.mp hoctet
    unfold decimal? at hn
    split at hn
    · next hdigits =>
      obtain ⟨hne, hall, -⟩ := hdigits
      have hhead := List.head_mem hne
      have hdigit := List.all_eq_true.mp hall _ hhead
      rw [not_digit_of_letter (List.all_eq_true.mp hletters.2 _ hhead)] at hdigit
      cases hdigit
    · cases hn
  · rfl

theorem Labelled.dot (h : Labelled plain) : '.' ∈ plain := by
  by_contra hno
  have htwo := h.two
  rw [length_splitOn_of_not_mem hno] at htwo
  omega

/-- On labelled names the host looks at the length only. -/
theorem Labelled.hostRule (h : Labelled plain) : hostRule plain = decide (plain.length ≤ 253) := by
  have hne : plain ≠ [] := List.ne_nil_of_mem h.dot
  have hcount : 1 ≤ plain.count '.' := List.count_pos_iff.mpr h.dot
  obtain ⟨last, hl⟩ : ∃ l, (plain.splitOn '.').getLast? = some l :=
    ⟨_, List.getLast?_eq_some_getLast (List.splitOn_ne_nil '.' plain)⟩
  have hlabels : (plain.splitOn '.').all hostLabel = true := List.all_eq_true.mpr h.labels
  have hlast : (plain.splitOn '.').getLast?.any hostLast = true := by
    rw [hl]
    exact h.last last hl
  unfold Egress.hostRule
  rw [hlabels, hlast, Bool.and_true, Bool.and_true]
  simp only [hne, h.not_addr, hcount, ne_eq, not_false_eq_true, true_and, and_true]

theorem Labelled.canonicalChar (h : Labelled plain) : ∀ c ∈ plain, canonicalChar c = true := by
  intro c hc
  obtain rfl | ⟨l, hl, hc⟩ := mem_of_splitOn '.' hc
  · rfl
  · have hlabel := h.labels l hl
    unfold hostLabel at hlabel
    simp only [Bool.and_eq_true] at hlabel
    have hchar : labelChar c = true := List.all_eq_true.mp hlabel.2 c hc
    simp [Egress.canonicalChar, hchar]

theorem Labelled.getLast?_ne (h : Labelled plain) : plain.getLast? ≠ some '.' := by
  intro hdot
  have hsplit := List.dropLast_append_getLast? '.' hdot
  have hlast : (plain.splitOn '.').getLast? = some [] := by
    rw [← hsplit, List.splitOn_append_cons_self, List.splitOn_nil, List.getLast?_concat]
  exact absurd (h.last [] hlast) (by decide)

theorem wildcard?_eq_some {rest : Text} (h : wildcard? hostname = some rest) : hostname = '*' :: '.' :: rest := by
  unfold wildcard? at h
  split at h
  · cases h
    rfl
  · cases h

theorem plainPart_of_none (h : wildcard? hostname = none) : plainPart hostname = hostname := by
  rw [plainPart, h]
  rfl

/-- Neither program changes a hostname whose plain part is labelled. -/
theorem Labelled.whole (h : Labelled (plainPart hostname)) :
    (∀ c ∈ hostname, Egress.canonicalChar c = true) ∧ dropFinalDot hostname = hostname := by
  have hchars := h.canonicalChar
  have hlast := h.getLast?_ne
  cases hw : wildcard? hostname with
  | none =>
    rw [plainPart_of_none hw] at hchars hlast
    exact ⟨hchars, if_neg hlast⟩
  | some rest =>
    have hplain : plainPart hostname = rest := by
      rw [plainPart, hw]
      rfl
    have hne : rest ≠ [] := hplain ▸ List.ne_nil_of_mem h.dot
    rw [hplain] at hchars hlast
    obtain rfl := wildcard?_eq_some hw
    refine ⟨fun c hc => ?_, if_neg ?_⟩
    · simp only [List.mem_cons] at hc
      rcases hc with rfl | rfl | hc
      exacts [rfl, rfl, hchars c hc]
    · obtain ⟨c, cs, rfl⟩ := List.exists_cons_of_ne_nil hne
      rw [List.getLast?_cons_cons, List.getLast?_cons_cons]
      exact hlast

theorem normalizeHostname_fixed (h : Labelled (plainPart hostname)) : normalizeHostname hostname = hostname := by
  rw [normalizeHostname, toLowerCase_fixed h.whole.1, h.whole.2]

/-- What the host makes of a rule of the control plane. -/
theorem normalizeHostnameRule_fixed (h : Labelled (plainPart hostname)) :
    normalizeHostnameRule hostname = if (plainPart hostname).length ≤ 253 then some hostname else none := by
  unfold normalizeHostnameRule
  rw [trimSpace_fixed h.whole.1, toLower_fixed h.whole.1, h.whole.2]
  dsimp only
  rw [h.hostRule]
  simp only [decide_eq_true_eq]

/-! ### The policy of the control plane -/

/-- What a declaration that the control plane accepts comes to. -/
structure Accepted (d : NetworkPolicyDeclaration) (c : EgressPolicy) : Prop where
  mode : d.mode = modeOff ∨ d.mode = modeAllowlist
  lengths : d.hostnames.length ≤ 64 ∧ d.cidrs.length ≤ 64
  declaration : c.declaration = ⟨d.mode, sortedSet (d.hostnames.map normalizeHostname), sortedSet (d.cidrs.map trimChars)⟩
  valid : ∀ h ∈ c.declaration.hostnames, validHostnameRule h = true
  off : d.mode = modeOff → c.declaration.hostnames = [] ∧ c.declaration.cidrs = []
  allowlist : d.mode = modeAllowlist → c.declaration.hostnames ≠ [] ∨ c.declaration.cidrs ≠ []
  allowed : c.declaration.cidrs.mapM addCidr = some c.allowedAddresses

theorem egressPolicy_eq_some {d : NetworkPolicyDeclaration} {c : EgressPolicy} :
    egressPolicy d = some c ↔ Accepted d c := by
  unfold egressPolicy
  constructor
  · intro h
    dsimp only at h
    split at h
    · cases h
    next hmode =>
    split at h
    · cases h
    next hlength =>
    split at h
    · cases h
    next hvalid =>
    split at h
    · cases h
    next hoff =>
    split at h
    · cases h
    next hallow =>
    obtain ⟨allowed, hallowed, rfl⟩ := Option.map_eq_some_iff.mp h
    refine ⟨?_, ?_, rfl, ?_, ?_, ?_, hallowed⟩
    · by_contra hno
      exact hmode (not_or.mp hno)
    · constructor <;> by_contra hno <;> apply hlength
      exacts [.inl (not_le.mp hno), .inr (not_le.mp hno)]
    · intro x hx
      by_contra hno
      exact hvalid (List.any_eq_true.mpr ⟨x, hx, by simpa using hno⟩)
    · intro hm
      by_contra hno
      exact hoff ⟨hm, by rwa [not_and_or] at hno⟩
    · intro hm
      by_contra hno
      rw [not_or, not_not, not_not] at hno
      exact hallow ⟨hm, hno⟩
  · rintro ⟨hmode, hlength, hdeclaration, hvalid, hoff, hallow, hallowed⟩
    rw [hdeclaration] at hvalid hoff hallow hallowed
    have hnmode : ¬ (d.mode ≠ modeOff ∧ d.mode ≠ modeAllowlist) := fun h => hmode.elim h.1 h.2
    have hnlength : ¬ (64 < d.hostnames.length ∨ 64 < d.cidrs.length) := by omega
    have hnvalid : ¬ ((sortedSet (d.hostnames.map normalizeHostname)).any fun h => !validHostnameRule h) = true := by
      rw [List.any_eq_true]
      rintro ⟨x, hx, hno⟩
      rw [hvalid x hx] at hno
      cases hno
    rw [if_neg hnmode, if_neg hnlength]
    dsimp only
    rw [if_neg hnvalid, if_neg, if_neg, hallowed]
    · obtain ⟨declaration, allowed⟩ := c
      obtain rfl : declaration = _ := hdeclaration
      rfl
    · rintro ⟨hm, h1, h2⟩
      exact (hallow hm).elim (fun h => h h1) fun h => h h2
    · rintro ⟨hm, h⟩
      exact h.elim (fun h => h (hoff hm).1) fun h => h (hoff hm).2

/-! ### One meaning -/

/-- The names that the host leaves as they are. -/
def canonicalHostname (hostname : Text) : Bool := (wildcard? hostname).isNone && hostRule hostname

/-- The canonical forms of the host and of the control plane denote the same destinations, and the control plane makes
of the host's declaration the one that it has stored. -/
structure SameMeaning (m : ManagedEgressPolicy) (c : EgressPolicy) : Prop where
  hostnames : ∀ hostname, canonicalHostname hostname = true → m.allowsHostname hostname = c.allowsHostname hostname
  addresses : ∀ addr, m.allowsCIDRAddress addr = c.allowsAddress addr
  stored : (egressPolicy m.declaration).map EgressPolicy.declaration = some c.declaration

def OneMeaning (c : EgressPolicy) : Prop := ∃ m, normalizeNetworkPolicy c.declaration = some m ∧ SameMeaning m c

/-- Every CIDR is written as the host writes its masked prefix, and no hostname is too long for the host. -/
def Canonical (d : NetworkPolicyDeclaration) : Prop :=
  (∀ t ∈ d.cidrs, ∃ p : Prefix, p.masked = p ∧ trimChars t = p.text) ∧
    ∀ h ∈ d.hostnames, (plainPart (normalizeHostname h)).length ≤ 253

/-- What the host's canonical form is made of. -/
theorem normalizeNetworkPolicy_spec {input : NetworkPolicyDeclaration} {m : ManagedEgressPolicy}
    (h : normalizeNetworkPolicy input = some m) :
    (∀ x ∈ input.hostnames, (normalizeHostnameRule x).isSome = true) ∧ m.declaration.cidrs = m.cidrs.map Prefix.text ∧
      ∀ p ∈ m.cidrs, p.masked = p := by
  unfold normalizeNetworkPolicy at h
  dsimp only at h
  generalize (if toLower (trimSpace input.mode) = [] then modeOff else toLower (trimSpace input.mode)) = mode at h
  split at h
  · cases h
  split at h
  · cases h
  split at h
  · next names prefixes hnames hprefixes =>
    split at h
    · cases h
    split at h
    · cases h
    cases h
    refine ⟨mapM_isSome hnames, rfl, fun p hp => ?_⟩
    rw [List.mem_insertionSort, List.mem_dedup] at hp
    obtain ⟨q, -, rfl⟩ := List.mem_map.mp hp
    exact q.masked_masked
  · cases h

section Accepted

variable {d : NetworkPolicyDeclaration} {c : EgressPolicy} (ha : Accepted d c)

include ha

theorem Accepted.labelled {h : Text} (hh : h ∈ c.declaration.hostnames) : Labelled (plainPart h) := .of_valid (ha.valid h hh)

theorem Accepted.mem_cidrs {t : Text} : t ∈ c.declaration.cidrs ↔ ∃ x ∈ d.cidrs, trimChars x = t := by
  rw [ha.declaration]
  simp

theorem Accepted.mem_hostnames {t : Text} : t ∈ c.declaration.hostnames ↔ ∃ x ∈ d.hostnames, normalizeHostname x = t := by
  rw [ha.declaration]
  simp

/-- The canonical declaration is accepted as it is. -/
theorem Accepted.again (hcidrs : ∀ t ∈ c.declaration.cidrs, trimChars t = t) : Accepted c.declaration c := by
  have hmode : c.declaration.mode = d.mode := by rw [ha.declaration]
  have hhosts : c.declaration.hostnames = sortedSet (d.hostnames.map normalizeHostname) := by rw [ha.declaration]
  have hcidrs' : c.declaration.cidrs = sortedSet (d.cidrs.map trimChars) := by rw [ha.declaration]
  have hnames : c.declaration.hostnames.map normalizeHostname = c.declaration.hostnames :=
    (List.map_congr_left fun h hh => normalizeHostname_fixed (ha.labelled hh)).trans (List.map_id _)
  have htexts : c.declaration.cidrs.map trimChars = c.declaration.cidrs :=
    (List.map_congr_left fun t ht => hcidrs t ht).trans (List.map_id _)
  refine ⟨hmode ▸ ha.mode, ⟨?_, ?_⟩, ?_, ha.valid, fun h => ha.off (hmode ▸ h), fun h => ha.allowlist (hmode ▸ h),
    ha.allowed⟩
  · rw [hhosts]
    exact (sortedSet_length_le _).trans (by simpa using ha.lengths.1)
  · rw [hcidrs']
    exact (sortedSet_length_le _).trans (by simpa using ha.lengths.2)
  · rw [hnames, htexts, hhosts, hcidrs', sortedSet_sortedSet, sortedSet_sortedSet, hmode]
    exact ha.declaration

theorem Accepted.canonical (h : OneMeaning c) : Canonical d := by
  obtain ⟨m, hm, hsame⟩ := h
  obtain ⟨hrules, hcidrs, hmasked⟩ := normalizeNetworkPolicy_spec hm
  constructor
  · intro t ht
    obtain ⟨c', hc', hstored⟩ := Option.map_eq_some_iff.mp hsame.stored
    have ha' := egressPolicy_eq_some.mp hc'
    have hmem : trimChars t ∈ c'.declaration.cidrs := by
      rw [hstored]
      exact ha.mem_cidrs.mpr ⟨t, ht, rfl⟩
    obtain ⟨x, hx, hxt⟩ := ha'.mem_cidrs.mp hmem
    rw [hcidrs] at hx
    obtain ⟨p, hp, rfl⟩ := List.mem_map.mp hx
    refine ⟨p, hmasked p hp, ?_⟩
    rw [← hxt]
    exact trimChars_fixed (canonicalChar_text p)
  · intro x hx
    have hmem := ha.mem_hostnames.mpr ⟨x, hx, rfl⟩
    have hsome := hrules _ hmem
    rw [normalizeHostnameRule_fixed (ha.labelled hmem)] at hsome
    by_contra hlong
    rw [if_neg hlong] at hsome
    cases hsome

/-- The prefixes that canonical CIDRs are the texts of. -/
theorem Accepted.prefixes (h : Canonical d) :
    ∃ ps : List Prefix, c.declaration.cidrs = ps.map Prefix.text ∧ ∀ p ∈ ps, p.masked = p := by
  have htexts : ∀ t ∈ c.declaration.cidrs, ∃ p : Prefix, p.masked = p ∧ t = p.text := by
    intro t ht
    obtain ⟨x, hx, rfl⟩ := ha.mem_cidrs.mp ht
    exact h.1 x hx
  generalize c.declaration.cidrs = ts at htexts
  induction ts with
  | nil => exact ⟨[], rfl, List.forall_mem_nil _⟩
  | cons t ts ih =>
    obtain ⟨p, hp, rfl⟩ := htexts t List.mem_cons_self
    obtain ⟨ps, rfl, hps⟩ := ih fun t ht => htexts t (List.mem_cons_of_mem _ ht)
    exact ⟨p :: ps, rfl, List.forall_mem_cons.mpr ⟨hp, hps⟩⟩

/-- The host makes of a canonical declaration itself. -/
theorem Accepted.normalize (h : Canonical d) {ps : List Prefix} (hps : c.declaration.cidrs = ps.map Prefix.text)
    (hmasked : ∀ p ∈ ps, p.masked = p) :
    normalizeNetworkPolicy c.declaration = some ⟨c.declaration, c.declaration.hostnames, ps⟩ := by
  have hd := ha.declaration
  have hmode : c.declaration.mode = d.mode := by rw [hd]
  have hhosts : c.declaration.hostnames = sortedSet (d.hostnames.map normalizeHostname) := by rw [hd]
  have hcidrs : c.declaration.cidrs = sortedSet (d.cidrs.map trimChars) := by rw [hd]
  have hlower : toLower (trimSpace c.declaration.mode) = c.declaration.mode ∧ c.declaration.mode ≠ [] := by
    rw [hmode]
    obtain h | h := ha.mode <;> rw [h] <;> decide
  have hnames : c.declaration.hostnames.mapM normalizeHostnameRule = some c.declaration.hostnames := by
    have hrule : ∀ x ∈ c.declaration.hostnames, normalizeHostnameRule (id x) = some x := by
      intro x hx
      obtain ⟨y, hy, rfl⟩ := ha.mem_hostnames.mp hx
      exact (normalizeHostnameRule_fixed (ha.labelled hx)).trans (if_pos (h.2 y hy))
    have hmap := mapM_map_eq_some hrule
    rwa [List.map_id] at hmap
  have hparse : c.declaration.cidrs.mapM (fun raw => parsePrefix (trimSpace raw)) = some ps := by
    rw [hps]
    refine mapM_map_eq_some fun p _ => ?_
    rw [trimSpace_fixed (canonicalChar_text p)]
    exact parsePrefix_text p
  have hsorted : (ps.map Prefix.masked).dedup.insertionSort (fun p q => p.text ≤ q.text) = ps := by
    have hnodup : (ps.map Prefix.text).Nodup := by
      rw [← hps, hcidrs]
      exact sortedSet_nodup _
    have hpairs : (ps.map Prefix.text).Pairwise (· ≤ ·) := by
      rw [← hps, hcidrs]
      exact sortedSet_pairwise _
    rw [(List.map_congr_left fun p hp => hmasked p hp : ps.map Prefix.masked = ps.map id), List.map_id,
      (List.Nodup.of_map _ hnodup).dedup]
    exact (List.pairwise_map.mp hpairs).insertionSort_eq
  have hsame : sortedSet c.declaration.hostnames = c.declaration.hostnames := by rw [hhosts, sortedSet_sortedSet]
  have hlengths : ¬ (maxEgressRules < c.declaration.hostnames.length ∨ maxEgressRules < c.declaration.cidrs.length) := by
    have hh := sortedSet_length_le (d.hostnames.map normalizeHostname)
    have hc := sortedSet_length_le (d.cidrs.map trimChars)
    rw [List.length_map] at hh hc
    rw [hhosts, hcidrs]
    have hlen := ha.lengths
    unfold maxEgressRules
    omega
  have hnil : ps = [] ↔ c.declaration.cidrs = [] := by rw [hps, List.map_eq_nil_iff]
  unfold normalizeNetworkPolicy
  dsimp only
  rw [hlower.1, if_neg hlower.2, hnames, hparse, if_neg hlengths]
  dsimp only
  rw [hsorted, hsame, ← hps]
  rw [if_neg, if_neg, if_neg]
  · rintro ⟨hm, h1, h2⟩
    exact (ha.allowlist (hmode ▸ hm)).elim (fun h => h h1) fun h => h (hnil.mp h2)
  · rintro ⟨hm, h⟩
    have hoff := ha.off (hmode ▸ hm)
    exact h.elim (fun h => h hoff.1) fun h => h (hnil.mpr hoff.2)
  · rintro ⟨h1, h2⟩
    rw [hmode] at h1 h2
    exact ha.mode.elim h1 h2

theorem Accepted.oneMeaning (h : Canonical d) : OneMeaning c := by
  obtain ⟨ps, hps, hmasked⟩ := ha.prefixes h
  have hmode : c.declaration.mode = d.mode := by rw [ha.declaration]
  have hallowed : c.allowedAddresses = ps := by
    have hmap : c.declaration.cidrs.mapM addCidr = some ps := by
      rw [hps]
      exact mapM_map_eq_some fun p _ => addCidr_text p
    exact Option.some.inj (ha.allowed.symm.trans hmap)
  have hon : decide (c.declaration.mode = modeAllowlist) = decide (c.declaration.mode ≠ modeOff) := by
    rw [hmode]
    obtain h | h := ha.mode <;> rw [h] <;> decide
  refine ⟨_, ha.normalize h hps hmasked, ?_, ?_, ?_⟩
  · intro hostname hcanonical
    unfold canonicalHostname at hcanonical
    simp only [Bool.and_eq_true, Option.isNone_iff_eq_none] at hcanonical
    obtain ⟨hplain, hrule⟩ := hcanonical
    have hlabelled : Labelled (plainPart hostname) := by
      rw [plainPart_of_none hplain]
      exact .of_hostRule hrule
    have hlength : (plainPart hostname).length ≤ 253 := by
      rw [← plainPart_of_none hplain, hlabelled.hostRule] at hrule
      exact of_decide_eq_true hrule
    have hname : normalizeDNSName hostname = some hostname := by
      unfold normalizeDNSName
      rw [trimSpace_fixed hlabelled.whole.1, hlabelled.whole.2, toLower_fixed hlabelled.whole.1]
      dsimp only
      rw [hplain, normalizeHostnameRule_fixed hlabelled, if_pos hlength]
      rfl
    unfold ManagedEgressPolicy.allowsHostname EgressPolicy.allowsHostname
    rw [hname, normalizeHostname_fixed hlabelled, ← hon]
    rfl
  · intro addr
    unfold ManagedEgressPolicy.allowsCIDRAddress EgressPolicy.allowsAddress
    rw [hallowed]
    obtain hm | hm := ha.mode
    · -- no network, no CIDR
      have hnone : ps = [] := List.map_eq_nil_iff.mp (hps.symm.trans (ha.off hm).2)
      rw [hnone]
      exact (Bool.and_false _).symm
    · have hneq : decide (c.declaration.mode ≠ modeOff) = true := by
        rw [hmode, hm]
        decide
      rw [hneq, Bool.true_and]
  · have hagain : egressPolicy c.declaration = some c := by
      refine egressPolicy_eq_some.mpr (ha.again fun t ht => ?_)
      rw [hps] at ht
      obtain ⟨p, -, rfl⟩ := List.mem_map.mp ht
      exact trimChars_fixed (canonicalChar_text p)
    rw [hagain]
    rfl

end Accepted

/-- **One meaning.**  A policy that the control plane accepts is accepted by the host, denotes the same destinations there
and comes back as it was stored, exactly when its CIDRs are canonical texts of masked prefixes and its hostnames have at
most 253 characters. -/
theorem egress_policy_one_meaning {d : NetworkPolicyDeclaration} {c : EgressPolicy} (h : egressPolicy d = some c) :
    OneMeaning c ↔ Canonical d := by
  have ha := egressPolicy_eq_some.mp h
  exact ⟨ha.canonical, ha.oneMeaning⟩

def sampleDeclaration (cidr : String) : NetworkPolicyDeclaration :=
  ⟨modeAllowlist, ["*.Example.com.".toList], [cidr.toList]⟩

theorem egress_policy_one_meaning_sample :
    ∃ c, egressPolicy (sampleDeclaration " 8.0.0.0/8") = some c ∧ OneMeaning c := by
  obtain ⟨c, hc⟩ : ∃ c, egressPolicy (sampleDeclaration " 8.0.0.0/8") = some c :=
    Option.isSome_iff_exists.mp (by decide +kernel)
  refine ⟨c, hc, (egress_policy_one_meaning hc).mpr ⟨fun t ht => ?_, fun x hx => ?_⟩⟩
  · obtain rfl := List.mem_singleton.mp ht
    exact ⟨⟨134217728, 8, by decide, by decide⟩, by decide, by decide +kernel⟩
  · obtain rfl := List.mem_singleton.mp hx
    decide +kernel

/-- `Number` takes a leading zero, `netip.ParsePrefix` does not. -/
theorem leading_zero_refused :
    ∃ c, egressPolicy (sampleDeclaration "8.0.0.0/08") = some c ∧ normalizeNetworkPolicy c.declaration = none ∧
      ¬ OneMeaning c := by
  obtain ⟨c, hc, hnone⟩ : ∃ c, egressPolicy (sampleDeclaration "8.0.0.0/08") = some c ∧
      normalizeNetworkPolicy c.declaration = none := by
    refine ⟨(egressPolicy (sampleDeclaration "8.0.0.0/08")).get (by decide +kernel), (Option.some_get _).symm, ?_⟩
    decide +kernel
  refine ⟨c, hc, hnone, ?_⟩
  rintro ⟨m, hm, -⟩
  rw [hnone] at hm
  cases hm

end Nehemiah.Egress
