import Mathlib
import Nehemiah.Lib.LastWriter
import Nehemiah.Lib.Table

/-!
# Stripe invoice events

`StripeWebhookService.process`: the receipt of an event, the state of its invoice, and the delinquency of
the account.  Each invoice is a last-writer-wins register over its events, ordered by creation time, then
paid before failed, then event id; the account is delinquent while one of its invoices is failed
(`delinquency_converges`).
-/

namespace Nehemiah.Stripe

open Lib

/-! ### Tables -/

/-- A JavaScript string as its UTF-16 code units, which are what `<` compares. -/
abbrev JsString := List ℕ

/-- A Stripe event.  `customer` and `invoiceId` are `data.object.customer` and `data.object.id`, when these
are strings; `created` is in Unix seconds. -/
structure StripeEvent where
  id : JsString
  type : String
  created : ℕ
  customer : Option String
  invoiceId : Option String
  deriving DecidableEq

/-- `stripe_events`. -/
structure EventRow where
  id : JsString
  eventType : String
  stripeCreatedAt : ℕ
  payload : StripeEvent
  processed : Bool

/-- `stripe_invoice_delinquency`. -/
structure InvoiceRow where
  organizationId : String
  stripeInvoiceId : String
  failed : Bool
  stripeEventCreatedAt : ℕ
  stripeEventRank : ℕ
  stripeEventId : JsString

/-- `billing_accounts`. -/
structure AccountRow where
  organizationId : String
  stripeCustomerId : Option String
  delinquentAt : Option ℕ

inductive AuditAction
  | eventIgnored | invoiceChanged (state : Bool) | accountChanged (state : Bool)

structure AuditRow where
  eventId : JsString
  action : AuditAction
  organizationId : String
  stripeInvoiceId : String

structure Db where
  organizations : List String
  accounts : List AccountRow
  events : List EventRow
  invoices : List InvoiceRow
  audits : List AuditRow

/-! ### Processing -/

/-- `targetDelinquent`. -/
def targetDelinquent (type : String) : Option Bool :=
  if type = "invoice.payment_failed" then some true
  else if type = "invoice.paid" then some false
  else none

def eventRank (failed : Bool) : ℕ := if failed then 1 else 0

/-- `newer`. -/
def newer (prior : Option InvoiceRow) (created rank : ℕ) (id : JsString) : Bool :=
  match prior with
  | none => true
  | some p => decide (p.stripeEventCreatedAt < created)
      || created == p.stripeEventCreatedAt
        && (decide (p.stripeEventRank < rank) || rank == p.stripeEventRank && decide (p.stripeEventId < id))

namespace Db

variable (db : Db)

def invoice (organizationId invoiceId : String) : Option InvoiceRow :=
  db.invoices.find? fun row => row.organizationId == organizationId && row.stripeInvoiceId == invoiceId

/-- `INSERT … ON CONFLICT (organization_id, stripe_invoice_id) DO UPDATE`. -/
def upsertInvoice (row : InvoiceRow) : Db :=
  { db with
    invoices :=
      if (db.invoice row.organizationId row.stripeInvoiceId).isSome then
        updateWhere (fun r => r.organizationId == row.organizationId
          && r.stripeInvoiceId == row.stripeInvoiceId) (fun _ => row) db.invoices
      else db.invoices ++ [row] }

def audit (event : StripeEvent) (organizationId invoiceId : String) (action : AuditAction) : Db :=
  { db with audits := db.audits ++ [⟨event.id, action, organizationId, invoiceId⟩] }

/-- The aggregate of an account after one of its invoices was written. -/
def aggregate (event : StripeEvent) (organizationId customer invoiceId : String)
    (prior : AccountRow) : Db :=
  let delinquent := db.invoices.any fun row => row.organizationId == organizationId && row.failed
  if prior.delinquentAt.isSome = delinquent then db
  else
    let accounts := updateWhere
      (fun a => a.organizationId == organizationId && a.stripeCustomerId == some customer)
      (fun a => { a with delinquentAt := if delinquent then some event.created else none }) db.accounts
    audit { db with accounts } event organizationId invoiceId (.accountChanged delinquent)

/-- The part of `process` under the account's lock. -/
def applyInvoice (event : StripeEvent) (organizationId customer invoiceId : String) (target : Bool)
    (prior : AccountRow) : Db :=
  let priorInvoice := db.invoice organizationId invoiceId
  let rank := eventRank target
  if newer priorInvoice event.created rank event.id then
    let written := db.upsertInvoice ⟨organizationId, invoiceId, target, event.created, rank, event.id⟩
    let audited :=
      if priorInvoice.all (·.failed != target) then
        written.audit event organizationId invoiceId (.invoiceChanged target)
      else written
    audited.aggregate event organizationId customer invoiceId prior
  else db.audit event organizationId invoiceId .eventIgnored

/-- `INSERT INTO stripe_events`. -/
def insertEvent (event : StripeEvent) : Db :=
  { db with events := db.events ++ [⟨event.id, event.type, event.created, event, false⟩] }

/-- `UPDATE stripe_events SET processed_at = now()`. -/
def markProcessed (id : JsString) : Db :=
  { db with events := updateWhere (fun row => row.id == id) (fun row => { row with processed := true }) db.events }

/-- `process`; `none` when it throws, and the transaction is rolled back. -/
def process (event : StripeEvent) : Option (Db × Bool) :=
  if db.events.any (·.id == event.id) then some (db, false)
  else
    let received := db.insertEvent event
    match event.customer, event.invoiceId, targetDelinquent event.type with
    | some customer, some invoiceId, some target =>
      match received.accounts.find? (·.stripeCustomerId == some customer) with
      | none => none
      | some account =>
        let organizationId := account.organizationId
        if !received.organizations.contains organizationId then
          some (received.markProcessed event.id, true)
        else
          match received.accounts.find? fun a => a.organizationId == organizationId
            && a.stripeCustomerId == some customer with
          | none => some (received.markProcessed event.id, true)
          | some prior =>
            some ((received.applyInvoice event organizationId customer invoiceId target prior).markProcessed
              event.id, true)
    | _, _, _ => some (received.markProcessed event.id, true)

/-- Events delivered one after the other; the last component collects the answers. -/
def deliver : Db → List StripeEvent → Option (Db × List Bool)
  | db, [] => some (db, [])
  | db, event :: rest => do
    let (x, answer) ← db.process event
    let (y, answers) ← deliver x rest
    some (y, answer :: answers)

end Db

/-! ### The order of events -/

/-- The event reports a failed payment. -/
def StripeEvent.failed (e : StripeEvent) : Bool := e.type == "invoice.payment_failed"

/-- Creation time, then paid before failed, then event id. -/
def StripeEvent.order (e : StripeEvent) : ℕ ×ₗ ℕ ×ₗ JsString :=
  toLex (e.created, toLex (eventRank e.failed, e.id))

/-- The event is an `invoice.paid` or an `invoice.payment_failed` of the customer. -/
structure StripeEvent.InvoiceOf (customer : String) (e : StripeEvent) : Prop where
  customer : e.customer = some customer
  invoice : e.invoiceId.isSome = true
  type : e.type = "invoice.paid" ∨ e.type = "invoice.payment_failed"

/-- The row that the event leaves. -/
def StripeEvent.row (organizationId : String) (e : StripeEvent) : InvoiceRow :=
  ⟨organizationId, e.invoiceId.getD "", e.failed, e.created, eventRank e.failed, e.id⟩

/-- The events of one invoice. -/
def ofInvoice (events : List StripeEvent) (invoiceId : String) : List StripeEvent :=
  events.filter fun e => e.invoiceId == some invoiceId

section Order

variable {e p : StripeEvent} {organizationId customer invoiceId : String}

theorem newer_row : newer (some (p.row organizationId)) e.created (eventRank e.failed) e.id = true
    ↔ p.order < e.order := by
  simp only [newer, Bool.or_eq_true, Bool.and_eq_true, decide_eq_true_eq, beq_iff_eq]
  simp only [StripeEvent.row, StripeEvent.order, Prod.Lex.toLex_lt_toLex]
  rw [eq_comm (a := e.created), eq_comm (a := eventRank e.failed)]

theorem StripeEvent.order_inj (h : e.order = p.order) : e.id = p.id := by
  have h' : (e.created, (eventRank e.failed, e.id)) = (p.created, (eventRank p.failed, p.id)) := h
  exact congrArg (·.2.2) h'

theorem StripeEvent.InvoiceOf.target (h : e.InvoiceOf customer) : targetDelinquent e.type = some e.failed := by
  rcases h.type with ht | ht <;> simp [targetDelinquent, StripeEvent.failed, ht]

theorem ofInvoice_concat (events : List StripeEvent) (he : e.invoiceId = some invoiceId) (i : String) :
    ofInvoice (events ++ [e]) i = if i = invoiceId then ofInvoice events i ++ [e] else ofInvoice events i := by
  simp only [ofInvoice, List.filter_append, List.filter_cons, he, List.filter_nil]
  rcases eq_or_ne i invoiceId with rfl | hi
  · rw [if_pos (beq_self_eq_true _), if_pos rfl]
  · rw [if_neg (by simpa using hi.symm), if_neg hi, List.append_nil]

end Order

/-! ### One delivery -/

namespace Db

/-- The customer is linked to the account of the organization, and to no other. -/
structure Linked (db : Db) (organizationId customer : String) : Prop where
  account : ∃ account, db.accounts.filter (·.stripeCustomerId == some customer) = [account] ∧
    account.organizationId = organizationId
  organization : organizationId ∈ db.organizations

/-- An event with this id is recorded. -/
def received (db : Db) (id : JsString) : Bool := db.events.any (·.id == id)

/-- A row of the organization that has failed. -/
def owes (db : Db) (organizationId : String) : Bool :=
  db.invoices.any fun row => row.organizationId == organizationId && row.failed

/-- The tables say what the events say; `prior` are the rows that were there before them. -/
structure Tracks (db : Db) (prior : List InvoiceRow) (organizationId customer : String)
    (events : List StripeEvent) : Prop where
  linked : db.Linked organizationId customer
  received : ∀ e ∈ events, db.received e.id = true
  rows : ∀ row : InvoiceRow, row.organizationId = organizationId → (row ∈ db.invoices ↔ row ∈ prior ∨
    ∃ e, IsLatest StripeEvent.order (ofInvoice events row.stripeInvoiceId) e ∧ row = e.row organizationId)
  delinquent : events ≠ [] → ∀ account ∈ db.accounts, account.stripeCustomerId = some customer →
    account.delinquentAt.isSome = db.owes organizationId

variable {db x : Db} {organizationId customer invoiceId : String} {events deliveries : List StripeEvent}
  {e : StripeEvent} {prior : List InvoiceRow}

theorem process_received (h : db.received e.id = true) : db.process e = some (db, false) := by
  rw [process]
  exact if_pos h

theorem markProcessed_received (id id' : JsString) :
    (db.markProcessed id).received id' = db.received id' := by
  simp only [received, markProcessed, updateWhere, List.any_map]
  refine congrArg db.events.any (funext fun row => ?_)
  simp only [Function.comp_apply]
  split_ifs <;> rfl

theorem mem_upsertInvoice {row row' : InvoiceRow} : row' ∈ (db.upsertInvoice row).invoices ↔
    row' = row ∨ row' ∈ db.invoices ∧
      ¬ (row'.organizationId = row.organizationId ∧ row'.stripeInvoiceId = row.stripeInvoiceId) := by
  simp only [upsertInvoice]
  split_ifs with h
  · rw [mem_updateWhere]
    constructor
    · rintro ⟨r, hr, rfl⟩
      split_ifs with hkey
      · exact Or.inl rfl
      · exact Or.inr ⟨hr, by simpa using hkey⟩
    · rintro (rfl | ⟨hr, hkey⟩)
      · obtain ⟨r, hr⟩ := Option.isSome_iff_exists.mp h
        have hp := List.find?_some hr
        exact ⟨r, List.mem_of_find?_eq_some hr, if_pos hp⟩
      · exact ⟨row', hr, if_neg (by simpa using hkey)⟩
  · have hnone : ∀ r ∈ db.invoices,
        ¬ (r.organizationId = row.organizationId ∧ r.stripeInvoiceId = row.stripeInvoiceId) := by
      simpa [Db.invoice] using h
    rw [List.mem_append, List.mem_singleton]
    constructor
    · rintro (hr | rfl)
      · exact Or.inr ⟨hr, hnone row' hr⟩
      · exact Or.inl rfl
    · rintro (rfl | ⟨hr, _⟩)
      · exact Or.inr rfl
      · exact Or.inl hr

/-- The row of an invoice is the row of its latest event. -/
theorem Tracks.invoice_eq (h : db.Tracks prior organizationId customer events)
    (hprior : ∀ row ∈ prior, row.organizationId = organizationId → row.stripeInvoiceId ≠ invoiceId) :
    (ofInvoice events invoiceId = [] ∧ db.invoice organizationId invoiceId = none) ∨
      ∃ p, IsLatest StripeEvent.order (ofInvoice events invoiceId) p ∧
        db.invoice organizationId invoiceId = some (p.row organizationId) := by
  cases hi : db.invoice organizationId invoiceId with
  | none =>
    refine Or.inl ⟨?_, rfl⟩
    by_contra hne
    have hlatest : ∃ p, IsLatest StripeEvent.order (ofInvoice events invoiceId) p := isLatest_exists hne
    obtain ⟨p, hp⟩ := hlatest
    have hpi : p.invoiceId = some invoiceId := by simpa using (List.mem_filter.mp hp.1).2
    have hrow : p.row organizationId ∈ db.invoices := by
      refine (h.rows _ rfl).mpr (Or.inr ⟨p, ?_, rfl⟩)
      show IsLatest StripeEvent.order (ofInvoice events (p.invoiceId.getD "")) p
      rwa [hpi]
    have hall := List.find?_eq_none.mp hi _ hrow
    simp [StripeEvent.row, hpi] at hall
  | some row =>
    have hp := List.find?_some hi
    simp only [Bool.and_eq_true, beq_iff_eq] at hp
    rcases (h.rows row hp.1).mp (List.mem_of_find?_eq_some hi) with hrow | ⟨p, hlatest, rfl⟩
    · exact absurd hp.2 (hprior row hrow hp.1)
    · rw [hp.2] at hlatest
      exact Or.inr ⟨p, hlatest, rfl⟩

/-! What each statement leaves alone. -/

@[simp] theorem audit_invoices (i : String) (a : AuditAction) :
    (db.audit e organizationId i a).invoices = db.invoices := rfl

@[simp] theorem audit_accounts (i : String) (a : AuditAction) :
    (db.audit e organizationId i a).accounts = db.accounts := rfl

@[simp] theorem audit_organizations (i : String) (a : AuditAction) :
    (db.audit e organizationId i a).organizations = db.organizations := rfl

@[simp] theorem audit_events (i : String) (a : AuditAction) :
    (db.audit e organizationId i a).events = db.events := rfl

theorem aggregate_frame (db : Db) (e : StripeEvent) (organizationId customer i : String) (account : AccountRow) :
    (db.aggregate e organizationId customer i account).invoices = db.invoices ∧
    (db.aggregate e organizationId customer i account).events = db.events ∧
    (db.aggregate e organizationId customer i account).organizations = db.organizations := by
  simp only [aggregate]
  split_ifs <;> exact ⟨rfl, rfl, rfl⟩

variable {account : AccountRow}

/-- The account with its delinquency set. -/
theorem filter_updateAccount {f : AccountRow → AccountRow} (hf : ∀ a, (f a).stripeCustomerId = a.stripeCustomerId)
    (hacc : db.accounts.filter (·.stripeCustomerId == some customer) = [account])
    (horg : account.organizationId = organizationId) :
    (updateWhere (fun a => a.organizationId == organizationId && a.stripeCustomerId == some customer) f
      db.accounts).filter (·.stripeCustomerId == some customer) = [f account] := by
  have hmem : account ∈ db.accounts.filter (·.stripeCustomerId == some customer) := by
    rw [hacc]
    exact List.mem_singleton_self account
  have hcust : account.stripeCustomerId = some customer := by simpa using (List.mem_filter.mp hmem).2
  have hcomp : (fun a : AccountRow => a.stripeCustomerId == some customer) ∘ (fun a =>
      if (a.organizationId == organizationId && a.stripeCustomerId == some customer) = true then f a else a)
        = fun a => a.stripeCustomerId == some customer := by
    funext a
    show ((if _ then f a else a).stripeCustomerId == some customer) = _
    split_ifs
    · rw [hf]
    · rfl
  rw [updateWhere, List.filter_map, hcomp, hacc, List.map_singleton, if_pos (by simp [horg, hcust])]

/-- After the aggregate is taken, the account is delinquent while a row of the organization is failed. -/
theorem aggregate_linked (e : StripeEvent) (i : String)
    (hacc : db.accounts.filter (·.stripeCustomerId == some customer) = [account])
    (horg : account.organizationId = organizationId) :
    ∃ account', (db.aggregate e organizationId customer i account).accounts.filter
        (·.stripeCustomerId == some customer) = [account'] ∧
      account'.organizationId = organizationId ∧ account'.delinquentAt.isSome = db.owes organizationId := by
  by_cases hsame : account.delinquentAt.isSome = db.owes organizationId
  · have heq : db.aggregate e organizationId customer i account = db := if_pos hsame
    rw [heq]
    exact ⟨account, hacc, horg, hsame⟩
  · have heq : db.aggregate e organizationId customer i account = _ := if_neg hsame
    rw [heq]
    refine ⟨_, filter_updateAccount (fun _ => rfl) hacc horg, horg, ?_⟩
    show (if db.owes organizationId then some e.created else none).isSome = db.owes organizationId
    cases db.owes organizationId <;> rfl

/-- What an event of the customer writes when its id is new. -/
theorem process_fresh (hlinked : db.Linked organizationId customer) (he : e.InvoiceOf customer)
    (hinv : e.invoiceId = some invoiceId) (hnew : db.received e.id = false) :
    ∃ account, db.accounts.filter (·.stripeCustomerId == some customer) = [account] ∧
      account.organizationId = organizationId ∧
      db.process e = some (((db.insertEvent e).applyInvoice e organizationId customer invoiceId e.failed
        account).markProcessed e.id, true) := by
  obtain ⟨account, hacc, horg⟩ := hlinked.account
  refine ⟨account, hacc, horg, ?_⟩
  have hlookup : (db.insertEvent e).accounts.find? (·.stripeCustomerId == some customer) = some account := by
    show db.accounts.find? (·.stripeCustomerId == some customer) = some account
    rw [← List.head?_filter, hacc, List.head?_cons]
  have hprior : ((db.insertEvent e).accounts.find? fun a => a.organizationId == organizationId
      && a.stripeCustomerId == some customer) = some account := by
    show (db.accounts.find? fun a => a.organizationId == organizationId && a.stripeCustomerId == some customer) = _
    rw [← List.head?_filter, ← List.filter_filter, hacc, List.filter_cons_of_pos (by simpa using horg),
      List.head?_cons]
  have horganization : (db.insertEvent e).organizations.contains organizationId = true := by
    show db.organizations.contains organizationId = true
    simpa using hlinked.organization
  have hunseen : ¬ db.events.any (·.id == e.id) = true := by
    rw [show db.events.any (·.id == e.id) = false from hnew]
    exact Bool.false_ne_true
  rw [process, if_neg hunseen]
  simp only [he.customer, hinv, he.target, hlookup, horg, horganization, hprior, Bool.not_true, Bool.false_eq_true,
    if_false]

theorem insertEvent_received (id : JsString) :
    (db.insertEvent e).received id = (db.received id || e.id == id) := by
  simp [received, insertEvent]

/-- A newer event writes its row, and the aggregate is taken over the rows with it. -/
theorem applyInvoice_newer {failed : Bool} (customer : String) (account : AccountRow)
    (h : newer (db.invoice organizationId invoiceId) e.created (eventRank failed) e.id = true) :
    ∃ audited : Db,
      audited.invoices = (db.upsertInvoice ⟨organizationId, invoiceId, failed, e.created, eventRank failed,
        e.id⟩).invoices ∧
      audited.accounts = db.accounts ∧ audited.events = db.events ∧
      audited.organizations = db.organizations ∧
      db.applyInvoice e organizationId customer invoiceId failed account
        = audited.aggregate e organizationId customer invoiceId account := by
  rw [applyInvoice, if_pos h]
  refine ⟨_, ?_, ?_, ?_, ?_, rfl⟩ <;> split_ifs <;> rfl

/-- An event that is not newer leaves the invoice and the account alone. -/
theorem applyInvoice_stale {failed : Bool} (account : AccountRow)
    (h : newer (db.invoice organizationId invoiceId) e.created (eventRank failed) e.id = false) :
    db.applyInvoice e organizationId customer invoiceId failed account
      = db.audit e organizationId invoiceId .eventIgnored := by
  rw [applyInvoice, h]
  exact if_neg Bool.false_ne_true

theorem received_of_events (h : x.events = db.events) (id : JsString) : x.received id = db.received id := by
  rw [received, received, h]

theorem owes_of_invoices (h : x.invoices = db.invoices) : x.owes organizationId = db.owes organizationId := by
  rw [owes, owes, h]

/-- The latest events of the invoice after one more, when it is newer. -/
theorem Tracks.apply_newer (h : db.Tracks prior organizationId customer events)
    (hprior : ∀ row ∈ prior, row.organizationId = organizationId → row.stripeInvoiceId ≠ invoiceId)
    (hinv : e.invoiceId = some invoiceId) (hrec : db.received e.id = true)
    (hacc : db.accounts.filter (·.stripeCustomerId == some customer) = [account])
    (horg : account.organizationId = organizationId)
    (hnewer : newer (db.invoice organizationId invoiceId) e.created (eventRank e.failed) e.id = true) :
    (db.applyInvoice e organizationId customer invoiceId e.failed account).Tracks prior organizationId customer
      (events ++ [e]) := by
  obtain ⟨audited, hinvoices, haccounts, hevents, horgs, heq⟩ := applyInvoice_newer customer account hnewer
  rw [heq]
  obtain ⟨hai, hae, hao⟩ := aggregate_frame audited e organizationId customer invoiceId account
  have hacc₀ : audited.accounts.filter (·.stripeCustomerId == some customer) = [account] := by
    rw [haccounts]
    exact hacc
  obtain ⟨account', hacc', horg', hdel⟩ := aggregate_linked e invoiceId hacc₀ horg
  -- The event is the latest of its invoice from now on.
  have hlatest (e' : StripeEvent) :
      IsLatest StripeEvent.order (ofInvoice (events ++ [e]) invoiceId) e' ↔ e' = e := by
    rw [ofInvoice_concat events hinv, if_pos rfl]
    rcases h.invoice_eq hprior with ⟨hnil, _⟩ | ⟨p, hp, hrow⟩
    · rw [hnil]
      exact isLatest_singleton
    · rw [hrow] at hnewer
      exact isLatest_concat_of_lt hp (newer_row.mp hnewer)
  refine ⟨⟨⟨account', hacc', horg'⟩, ?_⟩, fun e' he' => ?_, fun row hrow => ?_, fun _ a ha hcust => ?_⟩
  · rw [hao, horgs]
    exact h.linked.organization
  · rw [received_of_events (hae.trans hevents)]
    rcases List.mem_append.mp he' with he' | he'
    · exact h.received e' he'
    · rw [List.mem_singleton.mp he']
      exact hrec
  · rw [hai, hinvoices, mem_upsertInvoice]
    have hthis : (⟨organizationId, invoiceId, e.failed, e.created, eventRank e.failed, e.id⟩ : InvoiceRow)
        = e.row organizationId := by
      rw [StripeEvent.row, hinv, Option.getD_some]
    have hkey : (e.row organizationId).stripeInvoiceId = invoiceId := by
      rw [StripeEvent.row, hinv, Option.getD_some]
    rw [hthis, hkey]
    rcases eq_or_ne row.stripeInvoiceId invoiceId with hi | hi
    · rw [hi]
      constructor
      · rintro (rfl | ⟨_, hother⟩)
        · exact Or.inr ⟨e, (hlatest e).mpr rfl, rfl⟩
        · exact absurd ⟨hrow, rfl⟩ hother
      · rintro (hmem | ⟨e', he', rfl⟩)
        · exact absurd hi (hprior row hmem hrow)
        · rw [(hlatest e').mp he']
          exact Or.inl rfl
    · rw [ofInvoice_concat events hinv, if_neg hi, ← h.rows row hrow]
      constructor
      · rintro (rfl | ⟨hmem, _⟩)
        · exact absurd hkey hi
        · exact hmem
      · exact fun hmem => Or.inr ⟨hmem, fun hsame => hi hsame.2⟩
  · have hmem : a ∈ (audited.aggregate e organizationId customer invoiceId account).accounts.filter
        (·.stripeCustomerId == some customer) := List.mem_filter.mpr ⟨ha, by simpa using hcust⟩
    rw [hacc', List.mem_singleton] at hmem
    rw [hmem, hdel, owes_of_invoices hai]

/-- The tables after an event that is not newer. -/
theorem Tracks.apply_stale (h : db.Tracks prior organizationId customer events)
    (hprior : ∀ row ∈ prior, row.organizationId = organizationId → row.stripeInvoiceId ≠ invoiceId)
    (hinv : e.invoiceId = some invoiceId) (hrec : db.received e.id = true) (account : AccountRow)
    (hids : ∀ p ∈ events, p.id ≠ e.id)
    (hnewer : newer (db.invoice organizationId invoiceId) e.created (eventRank e.failed) e.id = false) :
    (db.applyInvoice e organizationId customer invoiceId e.failed account).Tracks prior organizationId customer
      (events ++ [e]) := by
  rw [applyInvoice_stale account hnewer]
  rcases h.invoice_eq hprior with ⟨_, hnone⟩ | ⟨p, hp, hrow⟩
  · rw [hnone] at hnewer
    exact absurd hnewer (Bool.noConfusion)
  have hpe : p ∈ events := (List.mem_filter.mp hp.1).1
  -- The order of the two events is strict, because their ids differ.
  have hlt : e.order < p.order := by
    refine lt_of_le_of_ne (not_lt.mp fun hlt => ?_) fun heq => hids p hpe (StripeEvent.order_inj heq).symm
    rw [hrow, newer_row.mpr hlt] at hnewer
    exact Bool.noConfusion hnewer
  refine ⟨⟨h.linked.account, h.linked.organization⟩, fun e' he' => ?_, fun row hrow' => ?_, fun _ a ha hcust => ?_⟩
  · rcases List.mem_append.mp he' with he' | he'
    · exact h.received e' he'
    · rw [List.mem_singleton.mp he']
      exact hrec
  · show row ∈ db.invoices ↔ _
    rw [h.rows row hrow', ofInvoice_concat events hinv]
    split_ifs with hi
    · rw [hi]
      simp only [isLatest_concat_of_gt hp hlt]
    · rfl
  · exact h.delinquent (List.ne_nil_of_mem hpe) a ha hcust

theorem applyInvoice_events (failed : Bool) (account : AccountRow) :
    (db.applyInvoice e organizationId customer invoiceId failed account).events = db.events := by
  cases hnewer : newer (db.invoice organizationId invoiceId) e.created (eventRank failed) e.id with
  | true =>
    obtain ⟨audited, -, -, hevents, -, heq⟩ := applyInvoice_newer customer account hnewer
    rw [heq, (aggregate_frame audited e organizationId customer invoiceId account).2.1, hevents]
  | false =>
    rw [applyInvoice_stale account hnewer]
    rfl

/-- One new event. -/
theorem Tracks.process (h : db.Tracks prior organizationId customer events) (he : e.InvoiceOf customer)
    (hprior : ∀ row ∈ prior, row.organizationId = organizationId → e.invoiceId ≠ some row.stripeInvoiceId)
    (hids : ∀ p ∈ events, p.id ≠ e.id) (hnew : db.received e.id = false) :
    ∃ x, db.process e = some (x, true) ∧ x.Tracks prior organizationId customer (events ++ [e]) ∧
      ∀ id, x.received id = (db.received id || e.id == id) := by
  obtain ⟨invoiceId, hinv⟩ := Option.isSome_iff_exists.mp he.invoice
  have hprior' : ∀ row ∈ prior, row.organizationId = organizationId → row.stripeInvoiceId ≠ invoiceId :=
    fun row hrow horg heq => hprior row hrow horg (by rw [hinv, heq])
  obtain ⟨account, hacc, horg, heq⟩ := process_fresh h.linked he hinv hnew
  have hreceive : (db.insertEvent e).Tracks prior organizationId customer events := by
    refine ⟨⟨h.linked.account, h.linked.organization⟩, fun p hp => ?_, h.rows, h.delinquent⟩
    rw [insertEvent_received, h.received p hp, Bool.true_or]
  have hrec : (db.insertEvent e).received e.id = true := by
    rw [insertEvent_received, beq_self_eq_true, Bool.or_true]
  have happly : ((db.insertEvent e).applyInvoice e organizationId customer invoiceId e.failed account).Tracks prior
      organizationId customer (events ++ [e]) := by
    cases hnewer : newer ((db.insertEvent e).invoice organizationId invoiceId) e.created (eventRank e.failed) e.id with
    | true => exact hreceive.apply_newer hprior' hinv hrec hacc horg hnewer
    | false => exact hreceive.apply_stale hprior' hinv hrec account hids hnewer
  refine ⟨_, heq, ⟨⟨happly.linked.account, happly.linked.organization⟩, fun p hp => ?_, happly.rows,
    happly.delinquent⟩, fun id => ?_⟩
  · rw [markProcessed_received]
    exact happly.received p hp
  · rw [markProcessed_received, received_of_events (applyInvoice_events e.failed account), insertEvent_received]

/-! ### Deliveries -/

/-- Deliveries of events of the customer: the answers say which of them were new, and the tables say what all
events say that have come. -/
theorem Tracks.deliver (h : db.Tracks prior organizationId customer events) (deliveries : List StripeEvent)
    (hof : ∀ e ∈ deliveries, e.InvoiceOf customer)
    (hprior : ∀ row ∈ prior, row.organizationId = organizationId →
      ∀ e ∈ deliveries, e.invoiceId ≠ some row.stripeInvoiceId)
    (hids : ∀ e ∈ events ++ deliveries, ∀ e' ∈ events ++ deliveries, e.id = e'.id → e = e')
    (hold : ∀ e ∈ deliveries, db.received e.id = true → e ∈ events) :
    ∃ x answers came, db.deliver deliveries = some (x, answers) ∧ x.Tracks prior organizationId customer came ∧
      ∀ e, e ∈ came ↔ e ∈ events ∨ e ∈ deliveries := by
  induction deliveries generalizing db events with
  | nil => exact ⟨db, [], events, rfl, h, fun e => by simp⟩
  | cons e rest ih =>
    have hrest (y : StripeEvent) (hy : y ∈ rest) : y ∈ e :: rest := List.mem_cons_of_mem e hy
    cases hrec : db.received e.id with
    | true =>
      have hmem := hold e List.mem_cons_self hrec
      obtain ⟨x, answers, came, heq, htracks, hcame⟩ := ih h (fun y hy => hof y (hrest y hy))
        (fun row hrow horg y hy => hprior row hrow horg y (hrest y hy))
        (fun y hy z hz => hids y (by simp at hy ⊢; tauto) z (by simp at hz ⊢; tauto))
        (fun y hy => hold y (hrest y hy))
      refine ⟨x, false :: answers, came, ?_, htracks, fun y => ?_⟩
      · simp only [Db.deliver, process_received hrec, Option.bind_eq_bind, Option.bind_some, heq]
      · rw [hcame, List.mem_cons]
        constructor
        · rintro (hy | hy)
          · exact Or.inl hy
          · exact Or.inr (Or.inr hy)
        · rintro (hy | rfl | hy)
          · exact Or.inl hy
          · exact Or.inl hmem
          · exact Or.inr hy
    | false =>
      have hfresh : ∀ p ∈ events, p.id ≠ e.id := by
        intro p hp heq
        have hr := h.received p hp
        rw [heq, hrec] at hr
        exact Bool.noConfusion hr
      obtain ⟨x, hprocess, hx, hreceived⟩ := h.process (hof e List.mem_cons_self)
        (fun row hrow horg => hprior row hrow horg e List.mem_cons_self) hfresh hrec
      have hold' : ∀ z ∈ rest, x.received z.id = true → z ∈ events ++ [e] := by
        intro z hz hzrec
        rw [hreceived, Bool.or_eq_true, beq_iff_eq] at hzrec
        rcases hzrec with hzrec | hid
        · exact List.mem_append_left _ (hold z (hrest z hz) hzrec)
        · have hze : z = e := hids z (by simp [hrest z hz]) e (by simp) hid.symm
          exact List.mem_append_right _ (List.mem_singleton.mpr hze)
      obtain ⟨y, answers, came, heq, htracks, hcame⟩ := ih hx (fun y hy => hof y (hrest y hy))
        (fun row hrow horg y hy => hprior row hrow horg y (hrest y hy))
        (fun y hy z hz => hids y (by simp at hy ⊢; tauto) z (by simp at hz ⊢; tauto)) hold'
      refine ⟨y, true :: answers, came, ?_, htracks, fun z => ?_⟩
      · simp only [Db.deliver, hprocess, Option.bind_eq_bind, Option.bind_some, heq]
      · rw [hcame, List.mem_append, List.mem_singleton, List.mem_cons, or_assoc]

end Db

/-- Whatever the order in which the events of one customer are delivered, and however often, the rows that
they leave are those of the latest event of each invoice, and the account is delinquent exactly while a row of
its organization is failed; an event that has come before changes nothing. -/
theorem delinquency_converges {db : Db} {organizationId customer : String} {events deliveries : List StripeEvent}
    (hlinked : db.Linked organizationId customer)
    (hprior : ∀ row ∈ db.invoices, row.organizationId = organizationId →
      ∀ e ∈ events, e.invoiceId ≠ some row.stripeInvoiceId)
    (hof : ∀ e ∈ events, e.InvoiceOf customer)
    (hids : ∀ e ∈ events, ∀ e' ∈ events, e.id = e'.id → e = e')
    (hnew : ∀ e ∈ events, db.received e.id = false)
    (hne : events ≠ []) (hdeliveries : ∀ e, e ∈ deliveries ↔ e ∈ events) :
    (∃ x answers, db.deliver deliveries = some (x, answers) ∧
      (∀ row : InvoiceRow, row.organizationId = organizationId → (row ∈ x.invoices ↔ row ∈ db.invoices ∨
        ∃ e, IsLatest StripeEvent.order (ofInvoice events row.stripeInvoiceId) e ∧
          row = e.row organizationId)) ∧
      ∃ account, x.accounts.filter (·.stripeCustomerId == some customer) = [account] ∧
        account.organizationId = organizationId ∧ account.delinquentAt.isSome = x.owes organizationId) ∧
    ∀ before e after, deliveries = before ++ e :: after → e ∈ before →
      ∃ x answers, db.deliver before = some (x, answers) ∧ x.process e = some (x, false) := by
  have hstart : db.Tracks db.invoices organizationId customer [] := by
    refine ⟨hlinked, fun e he => absurd he List.not_mem_nil, fun row _ => ⟨Or.inl, ?_⟩,
      fun h => absurd rfl h⟩
    rintro (hmem | ⟨e, he, _⟩)
    · exact hmem
    · exact absurd he.1 List.not_mem_nil
  have hrun (before : List StripeEvent) (hbefore : ∀ e ∈ before, e ∈ events) :=
    hstart.deliver before (fun e he => hof e (hbefore e he))
      (fun row hrow horg e he => hprior row hrow horg e (hbefore e he))
      (fun e he e' he' => hids e (hbefore e he) e' (hbefore e' he'))
      (fun e he hrec => absurd hrec (by rw [hnew e (hbefore e he)]; exact Bool.false_ne_true))
  refine ⟨?_, fun before e after hsplit hmem => ?_⟩
  · obtain ⟨x, answers, came, heq, htracks, hcame⟩ := hrun deliveries fun e he => (hdeliveries e).mp he
    have hsame (e : StripeEvent) : e ∈ came ↔ e ∈ events := by
      rw [hcame, hdeliveries, or_iff_right List.not_mem_nil]
    refine ⟨x, answers, heq, fun row hrow => ?_, ?_⟩
    · rw [htracks.rows row hrow]
      refine or_congr_right (exists_congr fun e => and_congr_left' (isLatest_congr fun p => ?_))
      simp only [ofInvoice, List.mem_filter, hsame]
    · obtain ⟨e, he⟩ := List.exists_mem_of_ne_nil events hne
      obtain ⟨account, hacc, horg⟩ := htracks.linked.account
      have hmem : account ∈ x.accounts.filter (·.stripeCustomerId == some customer) := by
        rw [hacc]
        exact List.mem_singleton_self account
      obtain ⟨hmem, hcust⟩ := List.mem_filter.mp hmem
      exact ⟨account, hacc, horg, htracks.delinquent (List.ne_nil_of_mem ((hsame e).mpr he)) account hmem
        (by simpa using hcust)⟩
  · have hbefore (p : StripeEvent) (hp : p ∈ before) : p ∈ events := by
      rw [← hdeliveries, hsplit]
      exact List.mem_append_left _ hp
    obtain ⟨x, answers, came, heq, htracks, hcame⟩ := hrun before hbefore
    exact ⟨x, answers, heq, Db.process_received (htracks.received e ((hcame e).mpr (Or.inr hmem)))⟩

/-- A payment that fails and a payment in the same second, the failure twice: the invoice stays failed. -/
theorem delinquency_converges_tie :
    let failed : StripeEvent := ⟨[101, 49], "invoice.payment_failed", 1700000000, some "cus_1", some "in_1"⟩
    let paid : StripeEvent := ⟨[101, 50], "invoice.paid", 1700000000, some "cus_1", some "in_1"⟩
    let db : Db := ⟨["org"], [⟨"org", some "cus_1", none⟩], [], [], []⟩
    ∃ x answers, db.deliver [failed, paid, failed] = some (x, answers) ∧
      failed.row "org" ∈ x.invoices := by
  intro failed paid db
  have hcases (e : StripeEvent) (he : e ∈ [failed, paid]) : e = failed ∨ e = paid := by simpa using he
  have hlinked : db.Linked "org" "cus_1" := ⟨⟨⟨"org", some "cus_1", none⟩, rfl, rfl⟩, List.mem_singleton_self _⟩
  have hof : ∀ e ∈ [failed, paid], e.InvoiceOf "cus_1" := by
    intro e he
    rcases hcases e he with rfl | rfl
    · exact ⟨rfl, rfl, Or.inr rfl⟩
    · exact ⟨rfl, rfl, Or.inl rfl⟩
  have hdeliveries : ∀ e, e ∈ [failed, paid, failed] ↔ e ∈ [failed, paid] := by
    intro e
    simp
    tauto
  obtain ⟨⟨x, answers, heq, hrows, _⟩, _⟩ := delinquency_converges hlinked
    (fun row hrow => absurd hrow List.not_mem_nil) hof (by decide) (fun e _ => rfl) (List.cons_ne_nil _ _) hdeliveries
  refine ⟨x, answers, heq, (hrows _ rfl).mpr (Or.inr ⟨failed, ⟨List.mem_cons_self, fun e he => ?_⟩, rfl⟩)⟩
  rcases hcases e he with rfl | rfl
  · exact le_refl _
  · exact (newer_row.mp (show newer (some (paid.row "org")) _ _ _ = true by decide)).le

end Nehemiah.Stripe
