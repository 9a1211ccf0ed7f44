import Mathlib

/-!
# Addresses and prefixes of IPv4

An address is a number below 2^32, written as four decimal octets without leading zeros.  A prefix is an address with a
number of bits, written after a slash; it contains the addresses that begin with the same bits, and is masked when the
other bits of its address are zero.

The text of a prefix is read back as the prefix (`parsePrefix_text`), so that two prefixes of one text are equal.
-/

namespace Nehemiah.Lib

namespace Ipv4

/-- A number in decimal, without leading zeros. -/
def decimal? (t : List Char) : Option ℕ :=
  if t ≠ [] ∧ t.all Char.isDigit = true ∧ (t.length = 1 ∨ t.head? ≠ some '0') then some (Nat.ofDigitChars 10 t 0) else none

def octet? (t : List Char) : Option ℕ := (decimal? t).filter fun n => decide (n < 256)

def addr? (t : List Char) : Option ℕ :=
  match (t.splitOn '.').map octet? with
  | [some a, some b, some c, some d] => some (((a * 256 + b) * 256 + c) * 256 + d)
  | _ => none

def digits (n : ℕ) : List Char := Nat.toDigits 10 n

def addrText (addr : ℕ) : List Char :=
  ['.'].intercalate [digits (addr / 16777216), digits (addr / 65536 % 256), digits (addr / 256 % 256), digits (addr % 256)]

structure Prefix where
  addr : ℕ
  bits : ℕ
  addr_lt : addr < 4294967296
  bits_le : bits ≤ 32
deriving DecidableEq

namespace Prefix

/-- The addresses of a block are those with one quotient by its size. -/
def size (p : Prefix) : ℕ := 2 ^ (32 - p.bits)

def contains (p : Prefix) (addr : ℕ) : Bool := decide (addr / p.size = p.addr / p.size)

def masked (p : Prefix) : Prefix :=
  { p with addr := p.addr / p.size * p.size, addr_lt := lt_of_le_of_lt (Nat.div_mul_le_self _ _) p.addr_lt }

def text (p : Prefix) : List Char := addrText p.addr ++ '/' :: digits p.bits

end Prefix

theorem addr_lt {addr bits : ℕ} (h : addr < 4294967296 ∧ bits ≤ 32) : addr < 4294967296 := h.1

theorem bits_le {addr bits : ℕ} (h : addr < 4294967296 ∧ bits ≤ 32) : bits ≤ 32 := h.2

def parsePrefix (t : List Char) : Option Prefix :=
  match t.splitOn '/' with
  | [addrText, bitsText] =>
    match addr? addrText, decimal? bitsText with
    | some addr, some bits => if h : addr < 4294967296 ∧ bits ≤ 32 then some ⟨addr, bits, addr_lt h, bits_le h⟩ else none
    | _, _ => none
  | _ => none

/-! ### Round trip -/

theorem decimal?_digits (n : ℕ) (h : n < 256) : decimal? (digits n) = some n := by
  have hall : ∀ n < 256, decimal? (digits n) = some n := by decide +kernel
  exact hall n h

theorem octet?_digits {n : ℕ} (h : n < 256) : octet? (digits n) = some n := by
  rw [octet?, decimal?_digits n h]
  exact if_pos (decide_eq_true h)

theorem not_mem_digits {c : Char} (hc : c.isDigit = false) (n : ℕ) : c ∉ digits n := by
  intro h
  rw [Nat.isDigit_of_mem_toDigits (by decide) (by decide) h] at hc
  cases hc

theorem splitOn_addrText (addr : ℕ) : (addrText addr).splitOn '.' =
    [digits (addr / 16777216), digits (addr / 65536 % 256), digits (addr / 256 % 256), digits (addr % 256)] := by
  refine List.splitOn_intercalate '.' (fun l hl => ?_) (List.cons_ne_nil _ _)
  simp only [List.mem_cons, List.not_mem_nil, or_false] at hl
  rcases hl with rfl | rfl | rfl | rfl <;> exact not_mem_digits rfl _

theorem addr?_addrText {addr : ℕ} (h : addr < 4294967296) : addr? (addrText addr) = some addr := by
  unfold addr?
  rw [splitOn_addrText]
  simp only [List.map_cons, List.map_nil]
  rw [octet?_digits (by omega), octet?_digits (by omega), octet?_digits (by omega), octet?_digits (by omega)]
  show some _ = some addr
  congr 1
  omega

theorem slash_not_mem_addrText (addr : ℕ) : '/' ∉ addrText addr := by
  intro h
  have hall : ∀ n, '/' ∉ digits n := not_mem_digits rfl
  simp only [addrText, List.intercalate, List.intersperse, List.flatten_cons, List.flatten_nil, List.append_nil,
    List.mem_append, List.mem_singleton] at h
  have hdot : '/' ≠ '.' := by decide
  simp [hall, hdot] at h

theorem splitOn_text (p : Prefix) : p.text.splitOn '/' = [addrText p.addr, digits p.bits] := by
  have htext : p.text = ['/'].intercalate [addrText p.addr, digits p.bits] := by
    simp [Prefix.text, List.intercalate, List.intersperse]
  rw [htext]
  refine List.splitOn_intercalate '/' (fun l hl => ?_) (List.cons_ne_nil _ _)
  simp only [List.mem_cons, List.not_mem_nil, or_false] at hl
  rcases hl with rfl | rfl
  exacts [slash_not_mem_addrText _, not_mem_digits rfl _]

/-- **The text of a prefix is read back.** -/
theorem parsePrefix_text (p : Prefix) : parsePrefix p.text = some p := by
  unfold parsePrefix
  rw [splitOn_text]
  dsimp only
  rw [addr?_addrText p.addr_lt, decimal?_digits p.bits (lt_of_le_of_lt p.bits_le (by decide))]
  exact dif_pos ⟨p.addr_lt, p.bits_le⟩

theorem Prefix.size_pos (p : Prefix) : 0 < p.size := Nat.two_pow_pos _

/-- A block is masked as it is; masking again changes nothing. -/
theorem Prefix.masked_masked (p : Prefix) : p.masked.masked = p.masked := by
  have hsize : p.masked.size = p.size := rfl
  have haddr : p.masked.masked.addr = p.masked.addr := by
    show p.addr / p.size * p.size / p.masked.size * p.masked.size = p.addr / p.size * p.size
    rw [hsize, Nat.mul_div_cancel _ p.size_pos]
  cases p
  simp only [Prefix.masked] at haddr ⊢
  simp only [haddr]

end Ipv4

end Nehemiah.Lib
