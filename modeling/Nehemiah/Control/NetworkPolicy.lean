import Mathlib
import Nehemiah.Lib.Ipv4
import Nehemiah.Lib.Text

/-!
# Network policies on the control plane

The constructor of `EgressPolicy`.  Texts are lists of characters.  Of `toLowerCase` only the letters whose lower case is
in ASCII matter, since no rule has others: A to Z, and the Kelvin sign.  The absent lists of a declaration are empty, and
the checks of its shape are those of its type.

The prefix of a CIDR is what `Number` makes of it: a literal of the language, with blanks around it, rounded to a
double.
-/

namespace Nehemiah.Egress

open Lib Ipv4

abbrev Text := List Char

structure NetworkPolicyDeclaration where
  mode : Text
  hostnames : List Text
  cidrs : List Text
deriving DecidableEq

def modeOff : Text := "off".toList

def modeAllowlist : Text := "allowlist".toList

/-- `[...new Set(…)].sort()`. -/
def sortedSet (ts : List Text) : List Text := ts.dedup.insertionSort (· ≤ ·)

/-! ### Hostnames -/

def lowerLetter (c : Char) : Bool := decide ('a' ≤ c ∧ c ≤ 'z')

/-- A letter or a digit. -/
def labelEnd (c : Char) : Bool := lowerLetter c || c.isDigit

def labelChar (c : Char) : Bool := labelEnd c || decide (c = '-')

def toLowerCase (t : Text) : Text := t.map fun c => if c = '\u212A' then 'k' else c.toLower

/-- `replace(/\.$/, '')`. -/
def dropFinalDot (t : Text) : Text := if t.getLast? = some '.' then t.dropLast else t

def normalizeHostname (hostname : Text) : Text := dropFinalDot (toLowerCase hostname)

/-- What follows `*.`. -/
def wildcard? (hostname : Text) : Option Text :=
  match hostname with
  | '*' :: '.' :: rest => some rest
  | _ => none

def plainPart (hostname : Text) : Text := (wildcard? hostname).getD hostname

/-- `[a-z0-9](?:[a-z0-9-]{0,61}[a-z0-9])?`. -/
def validLabel (l : Text) : Bool :=
  match l with
  | [] => false
  | [c] => labelEnd c
  | c :: rest => labelEnd c && rest.dropLast.all labelChar && decide (rest.dropLast.length ≤ 61) && rest.getLast?.all labelEnd

/-- `[a-z]{2,63}`. -/
def validLast (l : Text) : Bool := l.all lowerLetter && decide (2 ≤ l.length ∧ l.length ≤ 63)

def validHostnameRule (hostname : Text) : Bool :=
  let labels := (plainPart hostname).splitOn '.'
  decide (2 ≤ labels.length) && labels.dropLast.all validLabel && labels.getLast?.any validLast

def hostnameMatches (rule hostname : Text) : Bool :=
  match wildcard? rule with
  | some plain => decide (('.' :: plain) <:+ hostname) && decide (hostname ≠ plain)
  | none => decide (hostname = rule)

/-! ### Numbers -/

def digitValue (c : Char) : ℕ :=
  if c.isDigit then c.toNat - '0'.toNat
  else if decide ('a' ≤ c ∧ c ≤ 'z') then c.toNat - 'a'.toNat + 10
  else if decide ('A' ≤ c ∧ c ≤ 'Z') then c.toNat - 'A'.toNat + 10
  else 36

/-- A numeral of one digit or more. -/
def numeral (base : ℕ) (t : Text) : Option ℕ :=
  if t ≠ [] ∧ t.all (fun c => decide (digitValue c < base)) = true then
    some (t.foldl (fun n c => n * base + digitValue c) 0)
  else none

/-- A value is negative or not, a numerator and a denominator. -/
structure Value where
  negative : Bool
  num : ℕ
  den : ℕ

def scaled (n : ℕ) (exponent : ℤ) : ℕ × ℕ :=
  if 0 ≤ exponent then (n * 10 ^ exponent.toNat, 1) else (n, 10 ^ (-exponent).toNat)

def exponentPart (t : Text) : Option ℤ :=
  match t with
  | [] => some 0
  | e :: rest =>
    if e = 'e' ∨ e = 'E' then
      match rest with
      | '+' :: ds => (numeral 10 ds).map fun n => (n : ℤ)
      | '-' :: ds => (numeral 10 ds).map fun n => -(n : ℤ)
      | ds => (numeral 10 ds).map fun n => (n : ℤ)
    else none

/-- `StrUnsignedDecimalLiteral`; `Infinity` is no prefix and is left out. -/
def decimalLiteral (negative : Bool) (t : Text) : Option Value :=
  let whole := t.takeWhile Char.isDigit
  let rest := t.dropWhile Char.isDigit
  let fraction := match rest with
    | '.' :: r => r.takeWhile Char.isDigit
    | _ => []
  let rest := match rest with
    | '.' :: r => r.dropWhile Char.isDigit
    | _ => rest
  match numeral 10 (whole ++ fraction), exponentPart rest with
  | some n, some exponent =>
    let (num, den) := scaled n (exponent - fraction.length)
    some ⟨negative, num, den⟩
  | _, _ => none

/-- `StringNumericLiteral`. -/
def numericLiteral (t : Text) : Option Value :=
  match trimChars t with
  | [] => some ⟨false, 0, 1⟩
  | '0' :: 'x' :: ds | '0' :: 'X' :: ds => (numeral 16 ds).map fun n => ⟨false, n, 1⟩
  | '0' :: 'o' :: ds | '0' :: 'O' :: ds => (numeral 8 ds).map fun n => ⟨false, n, 1⟩
  | '0' :: 'b' :: ds | '0' :: 'B' :: ds => (numeral 2 ds).map fun n => ⟨false, n, 1⟩
  | '+' :: rest => decimalLiteral false rest
  | '-' :: rest => decimalLiteral true rest
  | rest => decimalLiteral false rest

/-- The double nearest to the value is `k`.  Half the distance of the doubles above `k` is 2^(e-53) in its binade e, and
half of that below a power of two; in the middle the even `k` wins. -/
def roundsTo (v : Value) (k : ℕ) : Bool :=
  if k = 0 then decide (v.num * 2 ^ 1075 ≤ v.den)
  else
    let binade := 2 ^ k.log2
    let below := if k = binade then binade else 2 * binade
    !v.negative && decide (v.num * 2 ^ 54 ≤ (k * 2 ^ 54 + 2 * binade) * v.den)
      && decide ((k * 2 ^ 54 - below) * v.den ≤ v.num * 2 ^ 54)

/-- `Number(prefixText)`, when it is an integer from 0 to 32. -/
def prefixNumber (t : Text) : Option ℕ :=
  (numericLiteral t).bind fun v => (List.range 33).find? (roundsTo v)

/-! ### The policy -/

structure EgressPolicy where
  declaration : NetworkPolicyDeclaration
  allowedAddresses : List Prefix

/-- `addCidr` with a network of IPv4; one of IPv6 is refused before. -/
def addCidr (cidr : Text) : Option Prefix :=
  match cidr.splitOn '/' with
  | [network, prefixText] =>
    match addr? network, prefixNumber prefixText with
    | some addr, some bits => if h : addr < 4294967296 ∧ bits ≤ 32 then some ⟨addr, bits, addr_lt h, bits_le h⟩ else none
    | _, _ => none
  | _ => none

/-- `new EgressPolicy(declaration)`. -/
def egressPolicy (declaration : NetworkPolicyDeclaration) : Option EgressPolicy :=
  if declaration.mode ≠ modeOff ∧ declaration.mode ≠ modeAllowlist then none
  else if 64 < declaration.hostnames.length ∨ 64 < declaration.cidrs.length then none
  else
    let hostnames := sortedSet (declaration.hostnames.map normalizeHostname)
    if hostnames.any fun hostname => !validHostnameRule hostname then none
    else
      let cidrs := sortedSet (declaration.cidrs.map trimChars)
      if declaration.mode = modeOff ∧ (hostnames ≠ [] ∨ cidrs ≠ []) then none
      else if declaration.mode = modeAllowlist ∧ hostnames = [] ∧ cidrs = [] then none
      else (cidrs.mapM addCidr).map fun allowed => ⟨⟨declaration.mode, hostnames, cidrs⟩, allowed⟩

namespace EgressPolicy

def allowsHostname (policy : EgressPolicy) (hostname : Text) : Bool :=
  decide (policy.declaration.mode ≠ modeOff)
    && policy.declaration.hostnames.any fun rule => hostnameMatches rule (normalizeHostname hostname)

/-- The check of the block list. -/
def allowsAddress (policy : EgressPolicy) (addr : ℕ) : Bool :=
  decide (policy.declaration.mode ≠ modeOff) && policy.allowedAddresses.any fun p => p.contains addr

end EgressPolicy

end Nehemiah.Egress
