import Nehemiah.Control.NetworkPolicy

/-!
# Network policies on the host

`normalizeNetworkPolicy` and the rules of hostnames.  `strings.ToLower` sends A to Z, the Kelvin sign and the dotted
capital I into ASCII; no rule has other letters.  An address of IPv6 is refused as a prefix, and cannot be the plain part
of a hostname, whose labels have no colon.
-/

namespace Nehemiah.Egress

open Lib Ipv4

def maxEgressRules : ℕ := 64

/-- `unicode.IsSpace`. -/
def isSpace (c : Char) : Bool :=
  "\t\n\u000B\u000C\r \u0085\u00A0\u1680\u2028\u2029\u202F\u205F\u3000".toList.contains c
    || decide ('\u2000' ≤ c ∧ c ≤ '\u200A')

def trimSpace (t : Text) : Text := ((t.dropWhile isSpace).reverse.dropWhile isSpace).reverse

def toLower (t : Text) : Text :=
  t.map fun c => if c = '\u212A' then 'k' else if c = '\u0130' then 'i' else c.toLower

structure ManagedEgressPolicy where
  declaration : NetworkPolicyDeclaration
  hostnames : List Text
  cidrs : List Prefix
deriving DecidableEq

/-- The checks of one label. -/
def hostLabel (label : Text) : Bool :=
  decide (label ≠ [] ∧ label.length ≤ 63 ∧ label.head? ≠ some '-' ∧ label.getLast? ≠ some '-')
    && label.all fun c => lowerLetter c || c.isDigit || decide (c = '-')

def hostLast (label : Text) : Bool := decide (2 ≤ label.length) && label.all lowerLetter

/-- The checks of `normalizeHostnameRule` after the canonical form. -/
def hostRule (plain : Text) : Bool :=
  decide (plain ≠ [] ∧ plain.length ≤ 253 ∧ addr? plain = none ∧ 1 ≤ plain.count '.')
    && (plain.splitOn '.').all hostLabel && (plain.splitOn '.').getLast?.any hostLast

def normalizeHostnameRule (raw : Text) : Option Text :=
  let hostname := dropFinalDot (toLower (trimSpace raw))
  if hostRule (plainPart hostname) then some hostname else none

/-- `normalizeNetworkPolicy`. -/
def normalizeNetworkPolicy (input : NetworkPolicyDeclaration) : Option ManagedEgressPolicy :=
  let mode := toLower (trimSpace input.mode)
  let mode := if mode = [] then modeOff else mode
  if mode ≠ modeOff ∧ mode ≠ modeAllowlist then none
  else if maxEgressRules < input.hostnames.length ∨ maxEgressRules < input.cidrs.length then none
  else
    match input.hostnames.mapM normalizeHostnameRule, input.cidrs.mapM fun raw => parsePrefix (trimSpace raw) with
    | some names, some prefixes =>
      let hostnames := sortedSet names
      let cidrs := (prefixes.map Prefix.masked).dedup.insertionSort fun p q => p.text ≤ q.text
      if mode = modeOff ∧ (hostnames ≠ [] ∨ cidrs ≠ []) then none
      else if mode = modeAllowlist ∧ hostnames = [] ∧ cidrs = [] then none
      else some ⟨⟨mode, hostnames, cidrs.map Prefix.text⟩, hostnames, cidrs⟩
    | _, _ => none

/-- `normalizeDNSName`. -/
def normalizeDNSName (raw : Text) : Option Text :=
  let name := toLower (dropFinalDot (trimSpace raw))
  if (wildcard? name).isSome then none else (normalizeHostnameRule name).map fun _ => name

namespace ManagedEgressPolicy

def allowsHostname (policy : ManagedEgressPolicy) (hostname : Text) : Bool :=
  decide (policy.declaration.mode = modeAllowlist)
    && (normalizeDNSName hostname).any fun normalized => policy.hostnames.any fun rule => hostnameMatches rule normalized

def allowsCIDRAddress (policy : ManagedEgressPolicy) (addr : ℕ) : Bool := policy.cidrs.any fun p => p.contains addr

end ManagedEgressPolicy

end Nehemiah.Egress
