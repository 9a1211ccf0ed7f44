import Nehemiah.Host.Egress

/-!
# The floor of the egress policy

Which addresses a machine may reach: those in the prefixes of its policy and those learned from the answers to its DNS
questions, unless the floor denies them.  The floor has the immutable ranges, the configured ones, the subnets of the
host and the addresses of the control plane, and is computed anew when a policy is applied.

An address of IPv6 that maps one of IPv4 counts as the latter.  The model has the state of the controller; of the kernel's
sets and chains it has whether the commands succeed.  `floor_closed` is what holds whatever is done at the controller.
-/

namespace Nehemiah.Egress

open Lib Ipv4

/-! ### Addresses of both families -/

/-- `netip.Addr`. -/
inductive Addr
  | invalid
  | v4 (bits : BitVec 32)
  | v6 (bits : BitVec 128) (zone : Text)
  deriving DecidableEq

namespace Addr

def is4 : Addr → Bool
  | v4 _ => true
  | _ => false

def is4In6 : Addr → Bool
  | v6 bits _ => decide (bits >>> 32 = 0xffff#128)
  | _ => false

def unmap : Addr → Addr
  | v6 bits zone => if bits >>> 32 = 0xffff#128 then v4 (bits.setWidth 32) else v6 bits zone
  | address => address

def zone : Addr → Text
  | v6 _ zone => zone
  | _ => []

def withoutZone : Addr → Addr
  | v6 bits _ => v6 bits []
  | address => address

def bitLen : Addr → ℕ
  | invalid => 0
  | v4 _ => 32
  | v6 _ _ => 128

end Addr

/-- `netip.Prefix`. -/
structure NetPrefix where
  addr : Addr
  bits : ℕ
  deriving DecidableEq

namespace NetPrefix

def isValid (p : NetPrefix) : Bool := decide (p.addr ≠ .invalid ∧ p.bits ≤ p.addr.bitLen)

/-- `Contains`: no prefix contains an address with a zone, or of the other family. -/
def contains (p : NetPrefix) (address : Addr) : Bool :=
  p.isValid &&
    match p.addr, address with
    | .v4 network, .v4 bits => decide ((network ^^^ bits) >>> (32 - p.bits) = 0)
    | .v6 network _, .v6 bits [] => decide ((network ^^^ bits) >>> (128 - p.bits) = 0)
    | _, _ => false

def masked (p : NetPrefix) : NetPrefix :=
  match p.addr with
  | .v4 network => ⟨.v4 (network >>> (32 - p.bits) <<< (32 - p.bits)), p.bits⟩
  | .v6 network _ => ⟨.v6 (network >>> (128 - p.bits) <<< (128 - p.bits)) [], p.bits⟩
  | .invalid => ⟨.invalid, 0⟩

/-- A whole address as a prefix. -/
def ofAddr (address : Addr) : NetPrefix := ⟨address.withoutZone, address.bitLen⟩

end NetPrefix

/-! ### The floor -/

def ipv4 (a b c d : BitVec 8) : Addr := .v4 (a ++ b ++ c ++ d)

/-- `immutableEgressDenyCIDRs`, read. -/
def immutableEgressDenyCIDRs : List NetPrefix :=
  [⟨ipv4 0 0 0 0, 8⟩, ⟨ipv4 10 0 0 0, 8⟩, ⟨ipv4 100 64 0 0, 10⟩, ⟨ipv4 127 0 0 0, 8⟩, ⟨ipv4 169 254 0 0, 16⟩,
    ⟨ipv4 172 16 0 0, 12⟩, ⟨ipv4 192 0 0 0, 24⟩, ⟨ipv4 192 168 0 0, 16⟩, ⟨ipv4 198 18 0 0, 15⟩,
    ⟨ipv4 224 0 0 0, 4⟩, ⟨ipv4 240 0 0 0, 4⟩, ⟨.v6 0 [], 128⟩, ⟨.v6 1 [], 128⟩, ⟨.v6 (0xfc#128 <<< 120) [], 7⟩,
    ⟨.v6 (0xfe80#128 <<< 112) [], 10⟩, ⟨.v6 (0xff#128 <<< 120) [], 8⟩]

def canonicalEgressPrefix (p : NetPrefix) : Option NetPrefix :=
  if ¬ p.isValid ∨ p.addr.zone ≠ [] then none
  else if p.addr.is4In6 then
    if p.bits < 96 then none else some (NetPrefix.masked ⟨p.addr.unmap, p.bits - 96⟩)
  else some p.masked

def addressDeniedByPrefixes (address : Addr) (prefixes : List NetPrefix) : Bool :=
  prefixes.any fun p => decide (p.addr.unmap.bitLen = address.unmap.bitLen) && p.contains address.unmap

/-- What the configuration and the host contribute: the configured ranges that parse, and the subnets of the interfaces. -/
structure EgressConfig where
  egressDenyCIDRs : List NetPrefix
  nehemiahMode : Bool

/-- `configuredHardDenyPrefixes`, in the order of the sources. -/
def configuredHardDenyPrefixes (cfg : EgressConfig) (interfaces : List NetPrefix) : List NetPrefix :=
  ((immutableEgressDenyCIDRs ++ cfg.egressDenyCIDRs ++ interfaces).filterMap canonicalEgressPrefix).dedup

/-- The host of the control plane's URL, and what its resolution gives. -/
inductive ControlHost
  | absent
  | address (address : Addr)
  | hostname (resolved : Option (List Addr))

/-- The prefixes of the control plane: `none` is a refresh that fails. -/
def controlPrefixes : ControlHost → Option (List NetPrefix)
  | .absent => some []
  | .address address => if address.zone ≠ [] then none else some [.ofAddr address.unmap]
  | .hostname none => none
  | .hostname (some []) => none
  | .hostname (some addresses) =>
    if addresses.any fun address => decide (address = .invalid) || decide (address.zone ≠ []) then none
    else some (addresses.map fun address => .ofAddr address.unmap)

/-- The floor that `refreshHardFloor` computes. -/
def refreshedFloor (cfg : EgressConfig) (interfaces : List NetPrefix) (control : ControlHost) : Option (List NetPrefix) :=
  (controlPrefixes control).map fun prefixes =>
    ((configuredHardDenyPrefixes cfg interfaces ++ prefixes).map NetPrefix.masked).dedup

/-! ### The controller -/

structure InstalledEgressPolicy where
  tap : Text
  policy : ManagedEgressPolicy

structure LearnedEgressAddress where
  hostname : Text
  expiresAt : ℤ

structure DnsLearnedAddress where
  address : Addr
  ttl : ℤ

/-- A response whose addresses are all validated, before they are recorded. -/
structure ValidatedResponse where
  machineId : Text
  hostname : Text
  answers : List DnsLearnedAddress

structure EgressController where
  cfg : EgressConfig
  installed : Text → Option InstalledEgressPolicy
  learned : Text → Addr → Option LearnedEgressAddress
  hardDeny : List NetPrefix
  validated : List ValidatedResponse

def newEgressController (cfg : EgressConfig) (interfaces : List NetPrefix) : EgressController :=
  ⟨cfg, fun _ => none, fun _ _ => none, configuredHardDenyPrefixes cfg interfaces, []⟩

def second : ℤ := 1000000000

def egressMinTTL : ℤ := 5 * second

def egressMaxTTL : ℤ := 300 * second

def clampEgressTTL (ttl : ℤ) : ℤ :=
  if ttl < egressMinTTL then egressMinTTL
  else if egressMaxTTL < ttl then egressMaxTTL
  else ttl - ttl % second

namespace ManagedEgressPolicy

/-- The prefixes of a policy are all of IPv4. -/
def allowsAddress (policy : ManagedEgressPolicy) (address : Addr) : Bool :=
  match address.unmap with
  | .v4 bits => policy.allowsCIDRAddress bits.toNat
  | _ => false

end ManagedEgressPolicy

namespace EgressController

def isHardDenied (c : EgressController) (address : Addr) : Bool := addressDeniedByPrefixes address.unmap c.hardDeny

/-- The loop of `learn`: every address is looked at before any is kept. -/
def validate (c : EgressController) : List DnsLearnedAddress → List Addr → Option (List DnsLearnedAddress)
  | [], _ => some []
  | answer :: answers, seen =>
    let address := answer.address.unmap
    if address = .invalid ∨ ¬ address.is4 ∨ c.isHardDenied address then none
    else if address ∈ seen then c.validate answers seen
    else (c.validate answers (address :: seen)).map (⟨address, clampEgressTTL answer.ttl⟩ :: ·)

/-- `learn` up to the first command: `none` is its error. -/
def learnValidate (c : EgressController) (machineId hostname : Text) (answers : List DnsLearnedAddress) :
    Option ValidatedResponse :=
  match c.installed machineId with
  | none => none
  | some installed =>
    if ¬ installed.policy.allowsHostname hostname ∨ answers = [] then none
    else (c.validate answers []).map fun validated => ⟨machineId, hostname, validated⟩

/-- The end of `learn`, once all its commands have succeeded. -/
def learnRecord (c : EgressController) (response : ValidatedResponse) (now : ℤ) : EgressController :=
  { c with
    learned := Function.update c.learned response.machineId
      (response.answers.foldl (fun learned answer =>
        Function.update learned answer.address (some ⟨response.hostname, now + answer.ttl⟩))
        (c.learned response.machineId)) }

def allowsAddress (c : EgressController) (machineId : Text) (address : Addr) (now : ℤ) : Bool × EgressController :=
  let address := address.unmap
  if c.isHardDenied address then (false, c)
  else
    match c.installed machineId with
    | none => (false, c)
    | some installed =>
      if installed.policy.declaration.mode ≠ modeAllowlist then (false, c)
      else if installed.policy.allowsAddress address then (true, c)
      else
        match c.learned machineId address with
        | some entry =>
          if now < entry.expiresAt then (true, c)
          else (false, { c with
            learned := Function.update c.learned machineId (Function.update (c.learned machineId) address none) })
        | none => (false, c)

def remove (c : EgressController) (machineId : Text) : EgressController :=
  { c with
    installed := Function.update c.installed machineId none
    learned := Function.update c.learned machineId fun _ => none }

/-- `refreshHardFloor`; `swapped` says that the sets of the kernel were. -/
def refreshHardFloor (c : EgressController) (interfaces : List NetPrefix) (control : ControlHost) (swapped : Bool) :
    Option EgressController :=
  match refreshedFloor c.cfg interfaces control with
  | some hardDeny => if swapped then some { c with hardDeny := hardDeny } else none
  | none => none

/-- `apply`, to a machine whose address is that of its tap or not (`addressed`); `swapped` and `activated` say whether
the commands for the floor and those for the tap succeed. -/
def apply (c : EgressController) (machineId tap : Text) (declaration : NetworkPolicyDeclaration) (addressed : Bool)
    (interfaces : List NetPrefix) (control : ControlHost) (swapped activated : Bool) : EgressController :=
  match normalizeNetworkPolicy declaration with
  | none => c
  | some policy =>
    if ¬ addressed ∨ c.cfg.nehemiahMode ∧ policy.hostnames ≠ [] then c
    else if policy.declaration.mode = modeOff then
      if activated then
        { c with
          installed := Function.update c.installed machineId (some ⟨tap, policy⟩)
          learned := Function.update c.learned machineId fun _ => none }
      else c
    else
      match c.refreshHardFloor interfaces control swapped with
      | none => c
      | some c =>
        if activated then
          { c with
            installed := Function.update c.installed machineId (some ⟨tap, policy⟩)
            learned := Function.update c.learned machineId fun _ => none }
        else c

end EgressController

/-- What happens at the controller, in any order; the two halves of `learn` may be apart. -/
inductive EgressAct
  | apply (machineId tap : Text) (declaration : NetworkPolicyDeclaration) (addressed : Bool)
      (interfaces : List NetPrefix) (control : ControlHost) (swapped activated : Bool)
  | refresh (interfaces : List NetPrefix) (control : ControlHost) (swapped : Bool)
  | validate (machineId hostname : Text) (answers : List DnsLearnedAddress)
  | record (i : ℕ) (now : ℤ) (succeeded : Bool)
  | allows (machineId : Text) (address : Addr) (now : ℤ)
  | remove (machineId : Text)

namespace EgressController

def next (c : EgressController) : EgressAct → EgressController
  | .apply machineId tap declaration addressed interfaces control swapped activated =>
    c.apply machineId tap declaration addressed interfaces control swapped activated
  | .refresh interfaces control swapped => (c.refreshHardFloor interfaces control swapped).getD c
  | .validate machineId hostname answers =>
    match c.learnValidate machineId hostname answers with
    | some response => { c with validated := c.validated ++ [response] }
    | none => c
  | .record i now succeeded =>
    match c.validated[i]? with
    | some response =>
      let c := { c with validated := c.validated.eraseIdx i }
      if succeeded then c.learnRecord response now else c
    | none => c
  | .allows machineId address now => (c.allowsAddress machineId address now).2
  | .remove machineId => c.remove machineId

def run (c : EgressController) (acts : List EgressAct) : EgressController := acts.foldl next c

end EgressController

/-! ### The immutable ranges -/

/-- The address, or the one that it maps, is in an immutable range, whatever its zone. -/
def Immutable (address : Addr) : Prop := ∃ p ∈ immutableEgressDenyCIDRs, p.contains address.unmap.withoutZone = true

/-- An address that the controller may keep. -/
def Clean (address : Addr) : Prop := address.is4 = true ∧ ¬ Immutable address

variable {p : NetPrefix} {hardDeny : List NetPrefix}

theorem contains_v4 {bits : BitVec 32} (h : p.contains (.v4 bits) = true) : ∃ network, p.addr = .v4 network := by
  unfold NetPrefix.contains at h
  cases hp : p.addr with
  | v4 network => exact ⟨network, rfl⟩
  | v6 network zone => simp [hp] at h
  | invalid => simp [hp] at h

/-- The immutable ranges are written in the form that the floor keeps. -/
theorem canonical_immutable (h : p ∈ immutableEgressDenyCIDRs) : canonicalEgressPrefix p = some p := by
  revert p
  decide +kernel

theorem masked_immutable (h : p ∈ immutableEgressDenyCIDRs) : p.masked = p := by
  revert p
  decide +kernel

theorem immutable_configured (cfg : EgressConfig) (interfaces : List NetPrefix) (h : p ∈ immutableEgressDenyCIDRs) :
    p ∈ configuredHardDenyPrefixes cfg interfaces := by
  rw [configuredHardDenyPrefixes, List.mem_dedup, List.mem_filterMap]
  exact ⟨p, List.mem_append_left _ (List.mem_append_left _ h), canonical_immutable h⟩

theorem immutable_refreshed {cfg : EgressConfig} {interfaces : List NetPrefix} {control : ControlHost}
    (hr : refreshedFloor cfg interfaces control = some hardDeny) (h : p ∈ immutableEgressDenyCIDRs) : p ∈ hardDeny := by
  obtain ⟨prefixes, -, rfl⟩ := Option.map_eq_some_iff.mp hr
  rw [List.mem_dedup, List.mem_map]
  exact ⟨p, List.mem_append_left _ (immutable_configured cfg interfaces h), masked_immutable h⟩

/-- A floor that has the immutable ranges denies their addresses of IPv4. -/
theorem denied_of_immutable (hfloor : ∀ p ∈ immutableEgressDenyCIDRs, p ∈ hardDeny) {bits : BitVec 32}
    (h : Immutable (.v4 bits)) : addressDeniedByPrefixes (.v4 bits) hardDeny = true := by
  obtain ⟨p, hp, hc⟩ := h
  have hc : p.contains (.v4 bits) = true := hc
  obtain ⟨network, hn⟩ := contains_v4 hc
  rw [addressDeniedByPrefixes, List.any_eq_true]
  refine ⟨p, hfloor p hp, ?_⟩
  simp [hn, hc, Addr.unmap, Addr.bitLen]

theorem unmap_unmap (address : Addr) : address.unmap.unmap = address.unmap := by
  cases address with
  | invalid => rfl
  | v4 bits => rfl
  | v6 bits zone =>
    by_cases h : bits >>> 32 = 0xffff#128
    · simp [Addr.unmap, h]
    · simp [Addr.unmap, h]

/-- An address that does not count as one of IPv4 stays one of IPv6. -/
theorem unmap_cases (address : Addr) :
    address.unmap = .invalid ∨ (∃ bits, address.unmap = .v4 bits) ∨ ∃ bits zone, address.unmap = .v6 bits zone := by
  cases h : address.unmap with
  | invalid => exact .inl rfl
  | v4 bits => exact .inr (.inl ⟨bits, rfl⟩)
  | v6 bits zone => exact .inr (.inr ⟨bits, zone, rfl⟩)

theorem immutable_unmap {address : Addr} (h : Immutable address) : Immutable address.unmap := by
  obtain ⟨p, hp, hc⟩ := h
  exact ⟨p, hp, by rw [unmap_unmap]; exact hc⟩

/-! ### The controller keeps the floor -/

/-- The floor has the immutable ranges, and neither a validated nor a learned address is in one. -/
structure Floored (c : EgressController) : Prop where
  floor : ∀ p ∈ immutableEgressDenyCIDRs, p ∈ c.hardDeny
  validated : ∀ response ∈ c.validated, ∀ answer ∈ response.answers, Clean answer.address
  learned : ∀ machineId address entry, c.learned machineId address = some entry → Clean address

namespace Floored

variable {c : EgressController}

theorem new (cfg : EgressConfig) (interfaces : List NetPrefix) : Floored (newEgressController cfg interfaces) := by
  have floor : (newEgressController cfg interfaces).hardDeny = configuredHardDenyPrefixes cfg interfaces := by
    simp only [newEgressController]
  constructor
  · intro p hp
    rw [floor]
    exact immutable_configured cfg interfaces hp
  · intro response h
    simp [newEgressController] at h
  · intro machineId address entry h
    simp [newEgressController] at h

/-- What passes the loop of `learn` is clean. -/
theorem clean_of_validate (h : Floored c) (answers : List DnsLearnedAddress) :
    ∀ {seen : List Addr} {validated : List DnsLearnedAddress}, c.validate answers seen = some validated →
      (∀ answer ∈ answers, Clean answer.address.unmap) ∧ ∀ answer ∈ validated, Clean answer.address := by
  induction answers with
  | nil =>
    intro seen validated hv
    cases hv
    simp
  | cons answer answers ih =>
    intro seen validated hv
    rw [EgressController.validate] at hv
    split at hv
    · cases hv
    next hok =>
      have clean : Clean answer.address.unmap := by
        have is4 : answer.address.unmap.is4 = true := by
          by_contra hn
          exact hok (.inr (.inl (by simpa using hn)))
        refine ⟨is4, fun immutable => hok (.inr (.inr ?_))⟩
        cases ha : answer.address.unmap with
        | v4 bits =>
          rw [ha] at immutable
          rw [EgressController.isHardDenied]
          exact denied_of_immutable h.floor immutable
        | invalid => simp [ha, Addr.is4] at is4
        | v6 bits zone => simp [ha, Addr.is4] at is4
      split at hv
      · obtain ⟨hall, hkept⟩ := ih hv
        exact ⟨List.forall_mem_cons.mpr ⟨clean, hall⟩, hkept⟩
      · obtain ⟨rest, hr, rfl⟩ := Option.map_eq_some_iff.mp hv
        obtain ⟨hall, hkept⟩ := ih hr
        exact ⟨List.forall_mem_cons.mpr ⟨clean, hall⟩, List.forall_mem_cons.mpr ⟨clean, hkept⟩⟩

variable {answers : List DnsLearnedAddress} {response : ValidatedResponse}

theorem learnValidate (h : Floored c) {machineId hostname : Text}
    (hv : c.learnValidate machineId hostname answers = some response) :
    (∀ answer ∈ answers, Clean answer.address.unmap) ∧ ∀ answer ∈ response.answers, Clean answer.address := by
  unfold EgressController.learnValidate at hv
  split at hv
  · cases hv
  · split at hv
    · cases hv
    · obtain ⟨validated, hr, rfl⟩ := Option.map_eq_some_iff.mp hv
      exact h.clean_of_validate answers hr

/-- Recording adds the addresses of the response only. -/
theorem recorded_clean (hanswers : ∀ answer ∈ answers, Clean answer.address)
    (entryOf : DnsLearnedAddress → LearnedEgressAddress) :
    ∀ {learned : Addr → Option LearnedEgressAddress},
      (∀ address entry, learned address = some entry → Clean address) →
      ∀ (address : Addr) (entry : LearnedEgressAddress), answers.foldl (fun (learned : Addr → Option LearnedEgressAddress) answer =>
        Function.update learned answer.address (some (entryOf answer))) learned address = some entry →
      Clean address := by
  induction answers with
  | nil => exact fun hl address entry => hl address entry
  | cons answer answers ih =>
    intro learned hl
    refine ih (fun a ha => hanswers a (List.mem_cons_of_mem _ ha)) fun address entry hu => ?_
    by_cases heq : address = answer.address
    · rw [heq]
      exact hanswers answer List.mem_cons_self
    · have hu : Function.update learned answer.address (some (entryOf answer)) address = some entry := hu
      rw [Function.update_of_ne heq] at hu
      exact hl address entry hu

theorem learnRecord (h : Floored c) (hr : ∀ answer ∈ response.answers, Clean answer.address) (now : ℤ) :
    Floored (c.learnRecord response now) := by
  refine ⟨h.floor, h.validated, fun machineId address entry hl => ?_⟩
  by_cases hm : machineId = response.machineId
  · subst hm
    simp only [EgressController.learnRecord, Function.update_self] at hl
    exact recorded_clean hr _ (fun a e => h.learned _ a e) address entry hl
  · simp only [EgressController.learnRecord, Function.update_of_ne hm] at hl
    exact h.learned machineId address entry hl

/-- Forgetting what a machine has learned, in part or whole. -/
theorem forget (h : Floored c) (machineId : Text) {learned : Addr → Option LearnedEgressAddress}
    (hl : ∀ address entry, learned address = some entry → c.learned machineId address = some entry)
    (installed : Text → Option InstalledEgressPolicy) :
    Floored { c with installed := installed, learned := Function.update c.learned machineId learned } := by
  refine ⟨h.floor, h.validated, fun machine address entry hu => ?_⟩
  by_cases hm : machine = machineId
  · subst hm
    simp only [Function.update_self] at hu
    exact h.learned _ address entry (hl address entry hu)
  · simp only [Function.update_of_ne hm] at hu
    exact h.learned machine address entry hu

theorem refreshHardFloor (h : Floored c) {interfaces : List NetPrefix} {control : ControlHost} {swapped : Bool}
    {c' : EgressController} (hr : c.refreshHardFloor interfaces control swapped = some c') : Floored c' := by
  unfold EgressController.refreshHardFloor at hr
  split at hr
  next hardDeny hf =>
    simp only [Option.ite_none_right_eq_some, Option.some.injEq] at hr
    obtain ⟨-, rfl⟩ := hr
    exact ⟨fun p hp => immutable_refreshed hf hp, h.validated, h.learned⟩
  · cases hr

theorem apply (h : Floored c) (machineId tap : Text) (declaration : NetworkPolicyDeclaration) (addressed : Bool)
    (interfaces : List NetPrefix) (control : ControlHost) (swapped activated : Bool) :
    Floored (c.apply machineId tap declaration addressed interfaces control swapped activated) := by
  unfold EgressController.apply
  split
  · exact h
  next policy _ =>
    split
    · exact h
    · split
      · split
        · exact h.forget machineId (fun _ _ hl => by cases hl) _
        · exact h
      · split
        · exact h
        next c' hc' =>
          have h' := h.refreshHardFloor hc'
          split
          · exact h'.forget machineId (fun _ _ hl => by cases hl) _
          · exact h'

theorem allowsAddress (h : Floored c) (machineId : Text) (address : Addr) (now : ℤ) :
    Floored (c.allowsAddress machineId address now).2 := by
  unfold EgressController.allowsAddress
  simp only
  split
  · exact h
  · split
    · exact h
    · split
      · exact h
      · split
        · exact h
        · split
          · split
            · exact h
            · refine h.forget machineId (fun a entry hl => ?_) c.installed
              by_cases ha : a = address.unmap
              · simp [ha] at hl
              · rwa [Function.update_of_ne ha] at hl
          · exact h

/-- **Step lemma.** -/
theorem next (h : Floored c) (act : EgressAct) : Floored (c.next act) := by
  cases act with
  | apply => exact h.apply _ _ _ _ _ _ _ _
  | refresh interfaces control swapped =>
    show Floored ((c.refreshHardFloor interfaces control swapped).getD c)
    cases hr : c.refreshHardFloor interfaces control swapped with
    | none => exact h
    | some c' => exact h.refreshHardFloor hr
  | validate machineId hostname answers =>
    simp only [EgressController.next]
    split
    next response hv =>
      refine ⟨h.floor, fun r hr => ?_, h.learned⟩
      rcases List.mem_append.mp hr with hr | hr
      · exact h.validated r hr
      · rw [List.mem_singleton] at hr
        subst hr
        exact (h.learnValidate hv).2
    · exact h
  | record i now succeeded =>
    simp only [EgressController.next]
    split
    next response hi =>
      have erased : Floored { c with validated := c.validated.eraseIdx i } :=
        ⟨h.floor, fun r hr => h.validated r (List.mem_of_mem_eraseIdx hr), h.learned⟩
      split
      · exact erased.learnRecord (h.validated response (List.mem_of_getElem? hi)) now
      · exact erased
    · exact h
  | allows machineId address now => exact h.allowsAddress machineId address now
  | remove machineId => exact h.forget machineId (fun _ _ hl => by cases hl) _

theorem run (h : Floored c) (acts : List EgressAct) : Floored (c.run acts) := by
  induction acts generalizing c with
  | nil => exact h
  | cons act acts ih => exact ih (h.next act)

/-- No address of an immutable range is allowed. -/
theorem not_allowed (h : Floored c) (machineId : Text) {address : Addr} (himm : Immutable address) (now : ℤ) :
    (c.allowsAddress machineId address now).1 = false := by
  unfold EgressController.allowsAddress
  simp only
  split
  · rfl
  next hdenied =>
    have hdenied : addressDeniedByPrefixes address.unmap c.hardDeny ≠ true := by
      rw [← unmap_unmap]
      exact hdenied
    -- what the floor does not deny is no address of IPv4
    have notV4 : address.unmap.is4 = false := by
      rcases unmap_cases address with ha | ⟨bits, ha⟩ | ⟨bits, zone, ha⟩
      · rw [ha]
        rfl
      · rw [ha] at hdenied
        exact absurd (denied_of_immutable h.floor (ha ▸ immutable_unmap himm)) hdenied
      · rw [ha]
        rfl
    split
    · rfl
    next installed _ =>
      split
      · rfl
      · split
        next hcidr =>
          rw [ManagedEgressPolicy.allowsAddress, unmap_unmap] at hcidr
          split at hcidr
          next bits ha =>
            rw [ha] at notV4
            cases notV4
          · cases hcidr
        · split
          next entry hl =>
            have := (h.learned machineId _ entry hl).1
            rw [notV4] at this
            cases this
          · rfl

/-- A response with an address that is not clean, or denied, is not validated. -/
theorem validate_none (h : Floored c) {answer : DnsLearnedAddress} (answers : List DnsLearnedAddress)
    (ha : answer ∈ answers)
    (hf : Immutable answer.address ∨ c.isHardDenied answer.address = true ∨ answer.address.unmap.is4 = false)
    (seen : List Addr) : c.validate answers seen = none := by
  induction answers generalizing seen with
  | nil => cases ha
  | cons first answers ih =>
    rw [EgressController.validate]
    split
    · rfl
    next hok =>
      have hf' : first ≠ answer := by
        rintro rfl
        refine hok ?_
        rcases hf with himm | hdenied | hfamily
        · by_cases h4 : first.address.unmap.is4 = true
          · rcases unmap_cases first.address with hu | ⟨bits, hu⟩ | ⟨bits, zone, hu⟩
            · exact .inl hu
            · refine .inr (.inr ?_)
              rw [EgressController.isHardDenied, unmap_unmap, hu]
              exact denied_of_immutable h.floor (hu ▸ immutable_unmap himm)
            · rw [hu] at h4
              cases h4
          · exact .inr (.inl h4)
        · refine .inr (.inr ?_)
          rw [EgressController.isHardDenied, unmap_unmap]
          exact hdenied
        · exact .inr (.inl (by simp [hfamily]))
      have later : answer ∈ answers := (List.mem_cons.mp ha).resolve_left fun heq => hf' heq.symm
      split
      · exact ih later seen
      · rw [ih later]
        rfl

end Floored

/-- **The floor stays closed.**  After whatever has been done at the controller, no machine is allowed an address whose
family-free form is in an immutable range; an answer with such an address, with one that the floor denies or with one
that is not of IPv4, makes `learn` fail before anything is recorded, and no address of an immutable range is among those
validated or learned. -/
theorem floor_closed (cfg : EgressConfig) (interfaces : List NetPrefix) (acts : List EgressAct) :
    (∀ machineId address now, Immutable address →
      (((newEgressController cfg interfaces).run acts).allowsAddress machineId address now).1 = false) ∧
    (∀ machineId hostname answers answer, answer ∈ answers →
      (Immutable answer.address ∨ ((newEgressController cfg interfaces).run acts).isHardDenied answer.address = true ∨
        answer.address.unmap.is4 = false) →
      ((newEgressController cfg interfaces).run acts).next (.validate machineId hostname answers) =
        (newEgressController cfg interfaces).run acts) ∧
    (∀ machineId address entry,
      ((newEgressController cfg interfaces).run acts).learned machineId address = some entry → ¬ Immutable address) ∧
    ∀ response ∈ ((newEgressController cfg interfaces).run acts).validated, ∀ answer ∈ response.answers,
      ¬ Immutable answer.address := by
  have h := (Floored.new cfg interfaces).run acts
  refine ⟨fun machineId address now himm => h.not_allowed machineId himm now, ?_,
    fun machineId address entry hl => (h.learned machineId address entry hl).2,
    fun response hr answer ha => (h.validated response hr answer ha).2⟩
  intro machineId hostname answers answer ha hforbidden
  have hv : ((newEgressController cfg interfaces).run acts).learnValidate machineId hostname answers = none := by
    unfold EgressController.learnValidate
    split
    · rfl
    · split
      · rfl
      · rw [h.validate_none answers ha hforbidden]
        rfl
  simp only [EgressController.next, hv]

/-- A policy with a host name, the two halves of `learn` for an answer to its question, and an answer inside the floor. -/
def learning : List EgressAct :=
  [.apply "m_1".toList "tap0".toList ⟨modeAllowlist, ["www.example.com".toList], []⟩ true [] .absent true true,
    .validate "m_1".toList "www.example.com".toList [⟨.v4 0x5DB8D822, 60 * second⟩],
    .validate "m_1".toList "www.example.com".toList [⟨.v6 0xFFFF0A000001 [], 60 * second⟩], .record 0 second true]

theorem floor_closed_learned :
    (((newEgressController ⟨[], false⟩ []).run learning).allowsAddress "m_1".toList (.v4 0x5DB8D822) (2 * second)).1
      = true ∧
    (((newEgressController ⟨[], false⟩ []).run learning).allowsAddress "m_1".toList (.v6 0xFFFF0A000001 [])
      (2 * second)).1 = false := by
  have learned : (((newEgressController ⟨[], false⟩ []).run learning).allowsAddress "m_1".toList (.v4 0x5DB8D822)
      (2 * second)).1 = true := by
    decide +kernel
  refine ⟨learned, (floor_closed ⟨[], false⟩ [] learning).1 _ _ _ ?_⟩
  exact ⟨⟨.v4 0x0A000000, 8⟩, by decide +kernel, by decide +kernel⟩

end Nehemiah.Egress
