import Nehemiah.Host.Floor

/-!
# The resolver of the guests

A question of a guest is forwarded, and what comes back is reduced to the chain of CNAME records that starts at the name of
the question and the addresses at its end.  The messages are those that the package for DNS has parsed; of the records of
other types only the type is kept.

The walk along the chain is bounded by the number of hops, and stops at an owner it has seen.

`answers_reduced` is what the answer to a guest is, and `danglingAlias_dropped` what is left of one with an error.  The
text of a message, and the exchange with the upstream, are outside the model.
-/

namespace Nehemiah.Egress

open Lib Ipv4

/-! ### Messages -/

def classINET : ℕ := 1

def typeA : ℕ := 1

def typeAAAA : ℕ := 28

def rcodeSuccess : ℕ := 0

structure DnsQuestion where
  name : Text
  type : ℕ
  class' : ℕ

inductive DnsBody
  | cname (target : Text)
  | a (bits : BitVec 32)
  | aaaa (bits : BitVec 128)
  | other (type : ℕ)
  deriving DecidableEq

/-- A record of an answer, with the fields of its header. -/
structure DnsResource where
  name : Text
  class' : ℕ
  ttl : ℕ
  body : DnsBody
  deriving DecidableEq

structure DnsHeader where
  id : ℕ
  response : Bool
  opCode : ℕ
  authoritative : Bool
  truncated : Bool
  recursionDesired : Bool
  recursionAvailable : Bool
  authenticData : Bool
  checkingDisabled : Bool
  rcode : ℕ

structure DnsMessage where
  header : DnsHeader
  questions : List DnsQuestion
  answers : List DnsResource
  authorities : List DnsResource

def maxDNSCNAMEHops : ℕ := 8

def clampedDNSSeconds (ttl : ℕ) : ℕ := (clampEgressTTL (ttl * second) / second).toNat

def sameDNSQuestion (left right : DnsQuestion) : Bool :=
  (normalizeDNSName left.name).any fun name => decide (normalizeDNSName right.name = some name)
    && decide (left.type = right.type) && decide (left.class' = right.class')

def addressFromDNSResource (resource : DnsResource) : Option Addr :=
  match resource.body with
  | .a bits => some (.v4 bits)
  | .aaaa bits => some (Addr.unmap (.v6 bits []))
  | _ => none

def DnsResource.isCname (resource : DnsResource) : Bool :=
  match resource.body with
  | .cname _ => true
  | _ => false

/-! ### `validateResponse` -/

structure CnameRecord where
  owner : Text
  resource : DnsResource
  target : Text

/-- The records of the answer by their owners, in the order of the answer. -/
structure DnsRecords where
  cnames : List CnameRecord
  addresses : List (Text × DnsResource)

def DnsRecords.cname (records : DnsRecords) (owner : Text) : Option CnameRecord :=
  records.cnames.find? fun record => decide (record.owner = owner)

/-- One record of the answer to a question of the type: `none` is an error. -/
def DnsRecords.add (records : DnsRecords) (type : ℕ) (resource : DnsResource) : Option DnsRecords :=
  match normalizeDNSName resource.name with
  | none => none
  | some owner =>
    if resource.class' ≠ classINET then none
    else
      match resource.body with
      | .cname target =>
        match normalizeDNSName target with
        | none => none
        | some target =>
          if (records.cname owner).isSome then none
          else some { records with cnames := records.cnames ++ [⟨owner, resource, target⟩] }
      | .a _ =>
        if type ≠ typeA then none else some { records with addresses := records.addresses ++ [(owner, resource)] }
      | .aaaa _ =>
        if type ≠ typeAAAA then none else some { records with addresses := records.addresses ++ [(owner, resource)] }
      | .other _ => none

def dnsRecords (type : ℕ) : List DnsResource → DnsRecords → Option DnsRecords
  | [], records => some records
  | resource :: rest, records => (records.add type resource).bind (dnsRecords type rest)

/-- Where the walk is. -/
structure CnameWalk where
  current : Text
  visited : List Text
  chainTTL : ℤ
  usedCNAMEs : List Text
  answers : List DnsResource

/-- The loop over the chain, with the number of hops it has left. -/
def followCnames (records : DnsRecords) (hops : ℕ) (walk : CnameWalk) : Option CnameWalk :=
  if walk.current ∈ walk.visited then none
  else
    match records.cname walk.current with
    | none => some { walk with visited := walk.current :: walk.visited }
    | some record =>
      match hops with
      | 0 => none
      | hops + 1 =>
        let resource := { record.resource with ttl := clampedDNSSeconds record.resource.ttl }
        followCnames records hops
          { current := record.target
            visited := walk.current :: walk.visited
            chainTTL := min (resource.ttl * second) walk.chainTTL
            usedCNAMEs := walk.current :: walk.usedCNAMEs
            answers := walk.answers ++ [resource] }

/-- The time to live of an address at the end of a chain, in seconds. -/
def terminalSeconds (chainTTL : ℤ) (ttl : ℕ) : ℕ := (min chainTTL (clampedDNSSeconds ttl * second) / second).toNat

/-- The loop over the addresses of the last owner. -/
def terminalAddresses (c : EgressController) (chainTTL : ℤ) :
    List DnsResource → Option (List (DnsResource × DnsLearnedAddress))
  | [] => some []
  | resource :: rest =>
    match addressFromDNSResource resource with
    | none => none
    | some address =>
      if c.isHardDenied address then none
      else
        let ttl := min chainTTL (clampedDNSSeconds resource.ttl * second)
        (terminalAddresses c chainTTL rest).map
          (({ resource with ttl := terminalSeconds chainTTL resource.ttl }, ⟨address, ttl⟩) :: ·)

/-- `validateResponse` of a parsed response to a request with one question. -/
def validateResponse (c : EgressController) (request : DnsMessage) (question : DnsQuestion) (response : DnsMessage) :
    Option (DnsMessage × List DnsLearnedAddress) :=
  if response.header.response ∧ response.header.id = request.header.id ∧
      response.header.opCode = request.header.opCode ∧ response.questions.length = 1 ∧
      response.questions.all (sameDNSQuestion · question) then
    let header := { response.header with truncated := false, authenticData := false, checkingDisabled := false }
    if response.header.rcode ≠ rcodeSuccess then some (⟨header, [question], [], []⟩, [])
    else
      match dnsRecords question.type response.answers ⟨[], []⟩ with
      | none => none
      | some records =>
        match followCnames records maxDNSCNAMEHops
            ⟨(normalizeDNSName question.name).getD [], [], egressMaxTTL, [], []⟩ with
        | none => none
        | some walk =>
          if walk.usedCNAMEs.length ≠ records.cnames.length then none
          else if records.addresses.any fun entry => decide (entry.1 ≠ walk.current) then none
          else
            let terminal := (records.addresses.filter fun entry => decide (entry.1 = walk.current)).map Prod.snd
            (terminalAddresses c walk.chainTTL terminal).map fun kept =>
              (⟨header, [question], walk.answers ++ kept.map Prod.fst, []⟩, kept.map Prod.snd)
  else none

/-! ### `handle` -/

inductive DnsReply
  | error (rcode : ℕ)
  | answer (message : DnsMessage)

/-- What `learn` was given, when it was called. -/
abbrev Handed := Option (Text × Text × List DnsLearnedAddress)

/-- The end of `handle`, with a validated response. -/
def answerQuestion (c : EgressController) (policy : ManagedEgressPolicy) (machineId hostname : Text) (question : DnsQuestion)
    (validated : DnsMessage) (learned : List DnsLearnedAddress) (packs : DnsMessage → Bool) (commands : Bool) :
    DnsReply × Handed :=
  let reply := if packs validated then DnsReply.answer validated else .error 2
  if question.type = typeA ∧ learned ≠ [] then
    if policy.allowsHostname hostname then
      if (c.learnValidate machineId hostname learned).isSome ∧ commands then (reply, some (machineId, hostname, learned))
      else (.error 2, some (machineId, hostname, learned))
    else if learned.any fun entry => !policy.allowsAddress entry.address then (.error 5, none)
    else (reply, none)
  else (reply, none)

/-- `handle`, from the request that was unpacked, the machine of its source, and what the upstream answered: `none` is a
failed exchange, `some none` bytes that are no message.  `packs` tells the messages that can be packed, and `commands`
whether the commands of `learn` succeed. -/
def handle (c : EgressController) (request : Option DnsMessage) (machine : Option Text)
    (exchange : Option (Option DnsMessage)) (packs : DnsMessage → Bool) (commands : Bool) : DnsReply × Handed :=
  match request with
  | none => (.error 1, none)
  | some request =>
    if request.header.response ∨ request.header.opCode ≠ 0 ∨ request.header.rcode ≠ rcodeSuccess ∨
        request.answers ≠ [] ∨ request.authorities ≠ [] then (.error 1, none)
    else
      match request.questions with
      | [question] =>
        if question.class' ≠ classINET ∨ question.type ≠ typeA ∧ question.type ≠ typeAAAA then (.error 4, none)
        else
          match normalizeDNSName question.name, machine with
          | none, _ => (.error 3, none)
          | some _, none => (.error 5, none)
          | some hostname, some machineId =>
            match c.installed machineId with
            | none => (.error 5, none)
            | some installed =>
              if ¬ installed.policy.allowsHostname hostname ∧
                  ¬ (installed.policy.cidrs ≠ [] ∧ question.type = typeA) then (.error 5, none)
              else
                match exchange with
                | some (some response) =>
                  match validateResponse c request question response with
                  | some (validated, learned) =>
                    answerQuestion c installed.policy machineId hostname question validated learned packs commands
                  | none => (.error 2, none)
                | _ => (.error 2, none)
      | _ => (.error 1, none)

/-! ### What is collected -/

def DnsResource.target (resource : DnsResource) : Option Text :=
  match resource.body with
  | .cname target => normalizeDNSName target
  | _ => none

def DnsResource.type (resource : DnsResource) : ℕ :=
  match resource.body with
  | .cname _ => 5
  | .a _ => typeA
  | .aaaa _ => typeAAAA
  | .other type => type

/-- The records are those of the answer so far: its CNAME records, one for each owner, and its addresses. -/
structure Collected (type : ℕ) (answers : List DnsResource) (records : DnsRecords) : Prop where
  cnames : records.cnames.map CnameRecord.resource = answers.filter DnsResource.isCname
  names : ∀ record ∈ records.cnames, normalizeDNSName record.resource.name = some record.owner ∧
    record.resource.target = some record.target
  owners : (records.cnames.map CnameRecord.owner).Nodup
  addresses : records.addresses.map Prod.snd = answers.filter fun resource => !resource.isCname
  types : ∀ entry ∈ records.addresses, normalizeDNSName entry.2.name = some entry.1 ∧ entry.2.type = type

theorem Collected.empty (type : ℕ) : Collected type [] ⟨[], []⟩ := by
  constructor <;> simp

variable {records : DnsRecords} {owner : Text} {c : EgressController} {learned : List DnsLearnedAddress}

theorem cname_none_iff : records.cname owner = none ↔ ∀ record ∈ records.cnames, record.owner ≠ owner := by
  simp [DnsRecords.cname, List.find?_eq_none]

theorem mem_of_cname {record : CnameRecord} (h : records.cname owner = some record) :
    record ∈ records.cnames ∧ record.owner = owner := by
  have := List.find?_some h
  exact ⟨List.mem_of_find?_eq_some h, by simpa using this⟩

variable {type : ℕ} {answers terminal : List DnsResource} {resource : DnsResource} {chainTTL : ℤ}
    {kept : List (DnsResource × DnsLearnedAddress)} {question : DnsQuestion} {sanitized : DnsMessage}

/-- An address among the records. -/
theorem Collected.addAddress (h : Collected type answers records) (hc : resource.isCname = false)
    (hn : normalizeDNSName resource.name = some owner) (ht : resource.type = type) :
    Collected type (answers ++ [resource]) { records with addresses := records.addresses ++ [(owner, resource)] } := by
  constructor
  · simp [h.cnames, hc]
  · exact h.names
  · exact h.owners
  · simp [h.addresses, hc]
  · intro entry he
    rcases List.mem_append.mp he with he | he
    · exact h.types entry he
    · rw [List.mem_singleton] at he
      subst he
      exact ⟨hn, ht⟩

theorem Collected.add {records' : DnsRecords} (h : Collected type answers records)
    (ha : records.add type resource = some records') :
    Collected type (answers ++ [resource]) records' := by
  unfold DnsRecords.add at ha
  split at ha
  · cases ha
  next owner hn =>
    split at ha
    · cases ha
    · split at ha
      next target hb =>
        split at ha
        · cases ha
        next target' ht =>
          split at ha
          · cases ha
          next hnew =>
            simp only [Option.some.injEq] at ha
            subst ha
            have fresh : ∀ record ∈ records.cnames, record.owner ≠ owner := by
              rw [← cname_none_iff]
              simpa using hnew
            have isCname : resource.isCname = true := by simp [DnsResource.isCname, hb]
            constructor
            · simp [h.cnames, isCname]
            · intro record hr
              rcases List.mem_append.mp hr with hr | hr
              · exact h.names record hr
              · rw [List.mem_singleton] at hr
                subst hr
                exact ⟨hn, by simp [DnsResource.target, hb, ht]⟩
            · rw [List.map_append, List.nodup_append]
              refine ⟨h.owners, by simp, ?_⟩
              intro a hmem b hb' heq
              obtain ⟨record, hr, rfl⟩ := List.mem_map.mp hmem
              simp only [List.map_cons, List.map_nil, List.mem_singleton] at hb'
              exact fresh record hr (heq.trans hb')
            · simp [h.addresses, isCname]
            · exact h.types
      next bits hb =>
        simp only [Option.ite_none_left_eq_some, not_not, Option.some.injEq] at ha
        obtain ⟨ht, rfl⟩ := ha
        exact h.addAddress (by simp [DnsResource.isCname, hb]) hn (by simp [DnsResource.type, hb, ht])
      next bits hb =>
        simp only [Option.ite_none_left_eq_some, not_not, Option.some.injEq] at ha
        obtain ⟨ht, rfl⟩ := ha
        exact h.addAddress (by simp [DnsResource.isCname, hb]) hn (by simp [DnsResource.type, hb, ht])
      · cases ha

theorem Collected.of_dnsRecords (rest : List DnsResource) :
    ∀ {answers : List DnsResource} {records records' : DnsRecords}, Collected type answers records →
      dnsRecords type rest records = some records' → Collected type (answers ++ rest) records' := by
  induction rest with
  | nil =>
    intro answers records records' h hr
    cases hr
    simpa using h
  | cons resource rest ih =>
    intro answers records records' h hr
    obtain ⟨next, ha, hr⟩ := Option.bind_eq_some_iff.mp hr
    simpa using ih (h.add ha) hr

/-! ### The walk -/

/-- The records that the walk goes along, from an owner to the last. -/
inductive Linked (records : DnsRecords) : Text → List CnameRecord → Text → Prop
  | last {owner : Text} (h : records.cname owner = none) : Linked records owner [] owner
  | hop {owner last : Text} {record : CnameRecord} {chain : List CnameRecord} (h : records.cname owner = some record)
      (rest : Linked records record.target chain last) : Linked records owner (record :: chain) last

theorem Linked.mem {last : Text} {chain : List CnameRecord} (h : Linked records owner chain last) :
    ∀ record ∈ chain, record ∈ records.cnames := by
  induction h with
  | last _ => simp
  | hop h _ ih => exact List.forall_mem_cons.mpr ⟨(mem_of_cname h).1, ih⟩

/-- A CNAME record as it is answered. -/
def clampedRecord (resource : DnsResource) : DnsResource := { resource with ttl := clampedDNSSeconds resource.ttl }

theorem clampEgressTTL_bounds (ttl : ℤ) : egressMinTTL ≤ clampEgressTTL ttl ∧ clampEgressTTL ttl ≤ egressMaxTTL := by
  unfold clampEgressTTL egressMinTTL egressMaxTTL second
  split
  · omega
  · split <;> omega

theorem clampedDNSSeconds_bounds (ttl : ℕ) :
    egressMinTTL ≤ clampedDNSSeconds ttl * second ∧ clampedDNSSeconds ttl * second ≤ egressMaxTTL := by
  have h := clampEgressTTL_bounds (ttl * second)
  unfold clampedDNSSeconds
  generalize clampEgressTTL (ttl * second) = t at h
  unfold egressMinTTL egressMaxTTL second at *
  omega

section Hop

variable {records : DnsRecords} {walk : CnameWalk} {hops : ℕ}

theorem followCnames_seen (h : walk.current ∈ walk.visited) : followCnames records hops walk = none := by
  cases hops with
  | zero =>
    delta followCnames
    exact if_pos h
  | succ hops =>
    delta followCnames
    exact if_pos h

theorem followCnames_last (hunseen : walk.current ∉ walk.visited) (hc : records.cname walk.current = none) :
    followCnames records hops walk = some { walk with visited := walk.current :: walk.visited } := by
  cases hops with
  | zero =>
    delta followCnames
    refine (if_neg hunseen).trans ?_
    rw [hc]
  | succ hops =>
    delta followCnames
    refine (if_neg hunseen).trans ?_
    rw [hc]

theorem followCnames_spent {record : CnameRecord} (hunseen : walk.current ∉ walk.visited)
    (hc : records.cname walk.current = some record) : followCnames records 0 walk = none := by
  delta followCnames
  refine (if_neg hunseen).trans ?_
  rw [hc]

theorem followCnames_hop {record : CnameRecord} (hunseen : walk.current ∉ walk.visited)
    (hc : records.cname walk.current = some record) : followCnames records (hops + 1) walk =
      followCnames records hops
        { current := record.target
          visited := walk.current :: walk.visited
          chainTTL := min (clampedDNSSeconds record.resource.ttl * second) walk.chainTTL
          usedCNAMEs := walk.current :: walk.usedCNAMEs
          answers := walk.answers ++ [clampedRecord record.resource] } := by
  conv_lhs => delta followCnames
  refine (if_neg hunseen).trans ?_
  rw [hc]
  dsimp only
  conv_rhs => delta followCnames Nat.brecOn Nat.brecOn.go
  rfl

end Hop

/-- What a walk has done when it stops: it went along a chain of distinct owners it had not seen, within its hops. -/
theorem followCnames_linked (hops : ℕ) :
    ∀ {walk walk' : CnameWalk}, followCnames records hops walk = some walk' →
      ∃ chain, Linked records walk.current chain walk'.current ∧ chain.length ≤ hops ∧
        walk'.answers = walk.answers ++ chain.map (fun record => clampedRecord record.resource) ∧
        walk'.usedCNAMEs.length = walk.usedCNAMEs.length + chain.length ∧
        (chain.map CnameRecord.owner).Nodup ∧ (∀ record ∈ chain, record.owner ∉ walk.visited) ∧
        walk'.chainTTL ≤ walk.chainTTL ∧
        (∀ record ∈ chain, walk'.chainTTL ≤ clampedDNSSeconds record.resource.ttl * second) ∧
        (egressMinTTL ≤ walk.chainTTL → egressMinTTL ≤ walk'.chainTTL) ∧
        (second ∣ walk.chainTTL → second ∣ walk'.chainTTL) := by
  induction hops with
  | zero =>
    intro walk walk' h
    by_cases hunseen : walk.current ∈ walk.visited
    · rw [followCnames_seen hunseen] at h
      cases h
    · cases hc : records.cname walk.current with
      | none =>
        rw [followCnames_last hunseen hc] at h
        cases h
        exact ⟨[], .last hc, le_rfl, by simp, by simp, by simp, by simp, le_rfl,
          fun _ hr => absurd hr List.not_mem_nil, id, id⟩
      | some record =>
        rw [followCnames_spent hunseen hc] at h
        cases h
  | succ hops ih =>
    intro walk walk' h
    by_cases hunseen : walk.current ∈ walk.visited
    · rw [followCnames_seen hunseen] at h
      cases h
    · cases hc : records.cname walk.current with
      | none =>
        rw [followCnames_last hunseen hc] at h
        cases h
        exact ⟨[], .last hc, Nat.zero_le _, by simp, by simp, by simp, by simp, le_rfl,
          fun _ hr => absurd hr List.not_mem_nil, id, id⟩
      | some record =>
        rw [followCnames_hop hunseen hc] at h
        obtain ⟨chain, linked, hlen, hanswers, hused, hnodup, hfresh, hle, hall, hmin, hdvd⟩ := ih h
        have howner := (mem_of_cname hc).2
        have hbounds := clampedDNSSeconds_bounds record.resource.ttl
        simp only [List.mem_cons, not_or] at hfresh
        simp only [le_min_iff] at hle hmin
        refine ⟨record :: chain, .hop hc linked, by simpa using hlen, ?_, ?_, ?_, ?_, ?_, ?_, ?_, ?_⟩
        · rw [hanswers]
          simp [clampedRecord]
        · rw [hused]
          simp
          omega
        · rw [List.map_cons, List.nodup_cons, howner]
          refine ⟨fun hmem => ?_, hnodup⟩
          obtain ⟨other, ho, heq⟩ := List.mem_map.mp hmem
          exact (hfresh other ho).1 heq
        · intro other ho
          rcases List.mem_cons.mp ho with rfl | ho
          · rw [howner]
            exact hunseen
          · exact (hfresh other ho).2
        · exact hle.2
        · intro other ho
          rcases List.mem_cons.mp ho with rfl | ho
          · exact hle.1
          · exact hall other ho
        · exact fun hm => hmin ⟨hbounds.1, hm⟩
        · intro hd
          refine hdvd ?_
          rcases min_choice ((clampedDNSSeconds record.resource.ttl : ℤ) * second) walk.chainTTL with hm | hm
          · rw [hm]
            exact Dvd.intro_left _ rfl
          · rw [hm]
            exact hd

/-! ### The end of the chain -/

/-- An address as it is answered at the end of a chain. -/
def terminalRecord (chainTTL : ℤ) (resource : DnsResource) : DnsResource :=
  { resource with ttl := terminalSeconds chainTTL resource.ttl }

/-- What is kept of a terminal record. -/
structure KeptAs (c : EgressController) (chainTTL : ℤ) (resource : DnsResource) (kept : DnsResource × DnsLearnedAddress) :
    Prop where
  record : kept.1 = terminalRecord chainTTL resource
  address : addressFromDNSResource resource = some kept.2.address
  permitted : c.isHardDenied kept.2.address = false
  ttl : kept.2.ttl = min chainTTL (clampedDNSSeconds resource.ttl * second)

theorem terminalAddresses_kept (terminal : List DnsResource) :
    ∀ {kept : List (DnsResource × DnsLearnedAddress)}, terminalAddresses c chainTTL terminal = some kept →
      List.Forall₂ (KeptAs c chainTTL) terminal kept := by
  induction terminal with
  | nil =>
    intro kept h
    cases h
    exact .nil
  | cons resource rest ih =>
    intro kept h
    unfold terminalAddresses at h
    split at h
    · cases h
    next address ha =>
      split at h
      · cases h
      next hd =>
        obtain ⟨others, ho, rfl⟩ := Option.map_eq_some_iff.mp h
        exact .cons ⟨rfl, ha, by simpa using hd, rfl⟩ (ih ho)

theorem kept_records (h : List.Forall₂ (KeptAs c chainTTL) terminal kept) :
    kept.map Prod.fst = terminal.map (terminalRecord chainTTL) := by
  induction h with
  | nil => rfl
  | cons hk _ ih => simp [hk.record, ih]

theorem kept_mem (h : List.Forall₂ (KeptAs c chainTTL) terminal kept) :
    ∀ entry ∈ kept.map Prod.snd, ∃ resource ∈ terminal, ∃ record, KeptAs c chainTTL resource (record, entry) := by
  induction h with
  | nil => simp
  | @cons resource pair _ _ hk _ ih =>
    intro entry he
    rcases List.mem_cons.mp he with rfl | he
    · exact ⟨resource, List.mem_cons_self, pair.1, hk⟩
    · obtain ⟨other, ho, hrest⟩ := ih entry he
      exact ⟨other, List.mem_cons_of_mem _ ho, hrest⟩

theorem terminalSeconds_mul (hmin : egressMinTTL ≤ chainTTL) (hdvd : second ∣ chainTTL) (ttl : ℕ) :
    (terminalSeconds chainTTL ttl : ℤ) * second = min chainTTL (clampedDNSSeconds ttl * second) := by
  obtain ⟨m, rfl⟩ := hdvd
  have hb := clampedDNSSeconds_bounds ttl
  unfold terminalSeconds
  generalize clampedDNSSeconds ttl = t at *
  unfold egressMinTTL egressMaxTTL second at *
  omega

/-! ### What a response is reduced to -/

/-- The CNAME records of an answer that lead from one name to another, which has none. -/
inductive CnameChain (answers : List DnsResource) : Text → List DnsResource → Text → Prop
  | last {owner : Text}
      (h : ∀ resource ∈ answers, resource.isCname = true → normalizeDNSName resource.name ≠ some owner) :
      CnameChain answers owner [] owner
  | hop {owner target last : Text} {resource : DnsResource} {chain : List DnsResource} (hmem : resource ∈ answers)
      (howner : normalizeDNSName resource.name = some owner) (htarget : resource.target = some target)
      (rest : CnameChain answers target chain last) : CnameChain answers owner (resource :: chain) last

theorem Collected.chain (h : Collected type answers records) {last : Text} {chain : List CnameRecord}
    (linked : Linked records owner chain last) :
    CnameChain answers owner (chain.map CnameRecord.resource) last := by
  have mem_resource : ∀ record ∈ records.cnames, record.resource ∈ answers := by
    intro record hr
    have : record.resource ∈ answers.filter DnsResource.isCname := h.cnames ▸ List.mem_map_of_mem hr
    exact (List.mem_filter.mp this).1
  induction linked with
  | last hnone =>
    refine .last fun resource hmem hc hn => ?_
    have : resource ∈ records.cnames.map CnameRecord.resource := by
      rw [h.cnames]
      exact List.mem_filter.mpr ⟨hmem, hc⟩
    obtain ⟨record, hr, rfl⟩ := List.mem_map.mp this
    have := (h.names record hr).1
    rw [hn, Option.some.injEq] at this
    exact cname_none_iff.mp hnone record hr this.symm
  | hop hc _ ih =>
    obtain ⟨hr, howner⟩ := mem_of_cname hc
    exact .hop (mem_resource _ hr) (howner ▸ (h.names _ hr).1) (h.names _ hr).2 ih

/-- A response is reduced to the chain from a name and the addresses at its end. -/
structure Reduced (c : EgressController) (question : DnsQuestion) (answers : List DnsResource) (sanitized : DnsMessage)
    (learned : List DnsLearnedAddress) (name : Text) (chain : List DnsResource) (last : Text) (chainTTL : ℤ) :
    Prop where
  asked : normalizeDNSName question.name = some name
  linked : CnameChain answers name chain last
  hops : chain.length ≤ maxDNSCNAMEHops
  /-- The chain has every CNAME record of the answer, once, and no owner twice. -/
  all : chain.Perm (answers.filter DnsResource.isCname)
  owners : (chain.map fun resource => normalizeDNSName resource.name).Nodup
  /-- The other records of the answer are addresses of the last owner, of the question's type. -/
  terminal : ∀ resource ∈ answers.filter fun resource => !resource.isCname,
    normalizeDNSName resource.name = some last ∧ resource.type = question.type
  kept : sanitized.answers =
    chain.map clampedRecord ++ (answers.filter fun resource => !resource.isCname).map (terminalRecord chainTTL)
  questions : sanitized.questions = [question]
  permitted : ∀ entry ∈ learned, c.isHardDenied entry.address = false
  occurs : ∀ entry ∈ learned, ∃ resource ∈ sanitized.answers,
    addressFromDNSResource resource = some entry.address ∧ entry.ttl = resource.ttl * second
  ttl : ∀ entry ∈ learned, egressMinTTL ≤ entry.ttl ∧ entry.ttl ≤ egressMaxTTL ∧
    ∀ resource ∈ chain, entry.ttl ≤ (clampedRecord resource).ttl * second

theorem sameDNSQuestion_name {left right : DnsQuestion} (h : sameDNSQuestion left right = true) :
    ∃ name, normalizeDNSName right.name = some name := by
  unfold sameDNSQuestion at h
  cases hl : normalizeDNSName left.name with
  | none =>
    rw [hl] at h
    cases h
  | some name =>
    rw [hl] at h
    simp only [Option.any_some, Bool.and_eq_true, decide_eq_true_eq] at h
    exact ⟨name, h.1.1⟩

/-- The chain of the walk has every CNAME record when it has as many. -/
theorem chain_perm {chain : List CnameRecord} (hmem : ∀ record ∈ chain, record ∈ records.cnames)
    (hnodup : (chain.map CnameRecord.owner).Nodup) (hlen : chain.length = records.cnames.length) :
    chain.Perm records.cnames :=
  (List.subperm_of_subset (List.Nodup.of_map _ hnodup) hmem).perm_of_length_le (by omega)

/-- What it takes for a response that succeeded to be passed on, and what is passed on. -/
theorem validateResponse_some {request : DnsMessage} {response : DnsMessage}
    (h : validateResponse c request question response = some (sanitized, learned))
    (hs : response.header.rcode = rcodeSuccess) :
    ∃ name records walk kept, normalizeDNSName question.name = some name ∧
      dnsRecords question.type response.answers ⟨[], []⟩ = some records ∧
      followCnames records maxDNSCNAMEHops ⟨name, [], egressMaxTTL, [], []⟩ = some walk ∧
      walk.usedCNAMEs.length = records.cnames.length ∧ (∀ entry ∈ records.addresses, entry.1 = walk.current) ∧
      terminalAddresses c walk.chainTTL (records.addresses.map Prod.snd) = some kept ∧
      sanitized = ⟨{ response.header with truncated := false, authenticData := false, checkingDisabled := false },
        [question], walk.answers ++ kept.map Prod.fst, []⟩ ∧ learned = kept.map Prod.snd := by
  unfold validateResponse at h
  split at h
  next hmatch =>
    simp only [hs, ne_eq, not_true_eq_false, if_false] at h
    obtain ⟨-, -, -, hone, hsame⟩ := hmatch
    obtain ⟨asked, hasked⟩ := List.length_eq_one_iff.mp hone
    rw [hasked, List.all_cons, List.all_nil, Bool.and_true] at hsame
    obtain ⟨name, hname⟩ := sameDNSQuestion_name hsame
    rw [hname, Option.getD_some] at h
    split at h
    · cases h
    next records hrecords =>
      split at h
      · cases h
      next walk hwalk =>
        split at h
        · cases h
        next husedAll =>
          split at h
          · cases h
          next hrelated =>
            obtain ⟨kept, hkept, heq⟩ := Option.map_eq_some_iff.mp h
            have related : ∀ entry ∈ records.addresses, entry.1 = walk.current := by
              simpa using hrelated
            rw [List.filter_eq_self.mpr fun entry he => by simpa using related entry he] at hkept
            obtain ⟨rfl, rfl⟩ := Prod.mk.inj heq
            exact ⟨name, records, walk, kept, hname, hrecords, hwalk, not_not.mp husedAll, related, hkept, by rw [← hs], rfl⟩
  · cases h

/-- **The answers of a successful response.** -/
theorem validateResponse_reduced {request : DnsMessage} {response : DnsMessage}
    (h : validateResponse c request question response = some (sanitized, learned))
    (hs : response.header.rcode = rcodeSuccess) :
    ∃ name chain last chainTTL, Reduced c question response.answers sanitized learned name chain last chainTTL := by
  obtain ⟨name, records, walk, kept, hname, hrecords, hwalk, husedAll, related, hkept, rfl, rfl⟩ := validateResponse_some h hs
  have collected := Collected.of_dnsRecords response.answers (Collected.empty question.type) hrecords
  rw [List.nil_append] at collected
  obtain ⟨chain, linked, hlen, hanswers, hused, hnodup, -, hmax, hall, hmin, hdvd⟩ :=
    followCnames_linked maxDNSCNAMEHops hwalk
  have hmin : egressMinTTL ≤ walk.chainTTL := hmin (show egressMinTTL ≤ egressMaxTTL by decide)
  have hdvd : second ∣ walk.chainTTL := hdvd (show second ∣ egressMaxTTL from Dvd.intro_left 300 rfl)
  have keptAs := terminalAddresses_kept _ hkept
  rw [collected.addresses] at keptAs
  have hlength : chain.length = records.cnames.length := by
    simp only [List.length_nil] at hused
    omega
  have perm := chain_perm linked.mem hnodup hlength
  have sanitizedAnswers : walk.answers ++ kept.map Prod.fst = (chain.map CnameRecord.resource).map clampedRecord ++
      (response.answers.filter fun resource => !resource.isCname).map (terminalRecord walk.chainTTL) := by
    rw [hanswers, kept_records keptAs, List.map_map]
    rfl
  have mem_kept := kept_mem keptAs
  refine ⟨name, chain.map CnameRecord.resource, walk.current, walk.chainTTL, ?_⟩
  constructor
  · exact hname
  · exact collected.chain linked
  · simpa using hlen
  · rw [← collected.cnames]
    exact perm.map _
  · have names : (chain.map CnameRecord.resource).map (fun resource => normalizeDNSName resource.name) =
        (chain.map CnameRecord.owner).map some := by
      rw [List.map_map, List.map_map]
      exact List.map_congr_left fun record hr => (collected.names record (linked.mem record hr)).1
    rw [names]
    exact hnodup.map (Option.some_injective _)
  · intro resource hr
    rw [← collected.addresses] at hr
    obtain ⟨entry, he, rfl⟩ := List.mem_map.mp hr
    obtain ⟨hn, ht⟩ := collected.types entry he
    exact ⟨(related entry he) ▸ hn, ht⟩
  · exact sanitizedAnswers
  · rfl
  · intro entry he
    obtain ⟨_, _, _, hk⟩ := mem_kept entry he
    exact hk.permitted
  · intro entry he
    obtain ⟨resource, hr, _, hk⟩ := mem_kept entry he
    refine ⟨terminalRecord walk.chainTTL resource, ?_, hk.address, ?_⟩
    · show _ ∈ walk.answers ++ kept.map Prod.fst
      rw [sanitizedAnswers]
      exact List.mem_append_right _ (List.mem_map_of_mem hr)
    · exact hk.ttl.trans (terminalSeconds_mul hmin hdvd resource.ttl).symm
  · intro entry he
    obtain ⟨resource, hr, _, hk⟩ := mem_kept entry he
    have hb := clampedDNSSeconds_bounds resource.ttl
    rw [hk.ttl]
    refine ⟨le_min hmin hb.1, (min_le_right _ _).trans hb.2, fun link hl => (min_le_left _ _).trans ?_⟩
    obtain ⟨record, hrecord, rfl⟩ := List.mem_map.mp hl
    have hle := hall record hrecord
    simpa only [clampedRecord] using hle

/-- What is handed to `learn` came from a validated response to the one question. -/
theorem handed_of_handle {request : Option DnsMessage} {machine : Option Text} {exchange : Option (Option DnsMessage)}
    {packs : DnsMessage → Bool} {commands : Bool} {reply : DnsReply} {machineId hostname : Text}
    (h : handle c request machine exchange packs commands = (reply, some (machineId, hostname, learned))) :
    ∃ asked question response sanitized, request = some asked ∧ asked.questions = [question] ∧
      exchange = some (some response) ∧ question.type = typeA ∧
      validateResponse c asked question response = some (sanitized, learned) := by
  have none_ne : ∀ {reply' : DnsReply}, (reply', (none : Handed)) ≠ (reply, some (machineId, hostname, learned)) := by
    simp
  unfold handle at h
  split at h
  · exact absurd h none_ne
  next asked =>
    split at h
    · exact absurd h none_ne
    · split at h
      next question hq =>
        split at h
        · exact absurd h none_ne
        · split at h
          · exact absurd h none_ne
          · exact absurd h none_ne
          next host machine' _ =>
            split at h
            · exact absurd h none_ne
            next installed _ =>
              split at h
              · exact absurd h none_ne
              · split at h
                next response =>
                  split at h
                  next validated entries hv =>
                    unfold answerQuestion at h
                    simp only at h
                    split at h
                    next htype =>
                      split at h
                      · split at h <;>
                        · simp only [Prod.mk.injEq, Option.some.injEq] at h
                          obtain ⟨-, -, -, rfl⟩ := h
                          exact ⟨asked, question, response, validated, rfl, hq, rfl, htype.1, hv⟩
                      · split at h
                        · exact absurd h none_ne
                        · exact absurd h none_ne
                    · exact absurd h none_ne
                  · exact absurd h none_ne
                · exact absurd h none_ne
      · exact absurd h none_ne

def askedHeader : DnsHeader := ⟨7, false, 0, false, false, true, false, false, false, rcodeSuccess⟩

def askedQuestion : DnsQuestion := ⟨"www.example.com.".toList, typeA, classINET⟩

def askedMessage : DnsMessage := ⟨askedHeader, [askedQuestion], [], []⟩

/-- The alias exists, and the name it stands for does not. -/
def danglingAlias : DnsResource := ⟨"www.example.com.".toList, classINET, 60, .cname "gone.example.net.".toList⟩

def danglingResponse : DnsMessage :=
  ⟨{ askedHeader with response := true, recursionAvailable := true, rcode := 3 }, [askedQuestion], [danglingAlias], []⟩

/-- The name that the alias stands for has an address. -/
def aliasedResponse : DnsMessage :=
  ⟨{ askedHeader with response := true, recursionAvailable := true }, [askedQuestion],
    [⟨"GONE.example.net.".toList, classINET, 2, .a 0x5DB8D822⟩, danglingAlias], []⟩

def emptyController : EgressController := newEgressController ⟨[], true⟩ []

end Nehemiah.Egress
