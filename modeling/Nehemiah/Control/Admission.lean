import Nehemiah.Control.Rows

/-!
# Admission by the spend cap

`BillingAdmissionPolicy` of `billing/admission.ts`: a projection of what an organization owes, from its
usage so far, its durable commitments and the commitment that is asked for, against its spend cap.

A numeric of the database reaches the program as a text; `decimal` reads a fraction from it.  The
amounts of the commitments query are sums of microseconds, hence numerics with six digits after the point,
and the query gives `0` where it sums no row, which costs what zero microseconds cost.  The query of the
usage divides by 1024; how many digits PostgreSQL keeps of the quotient is left to the policy.
-/

namespace Nehemiah.Control

open Lib

/-- The errors of an admission, with the texts the service reports. -/
inductive AdmissionError
  | quotaExceeded (message : String)
  | billingRejected (code message : String)
  | capacityUnavailable (message : String)
  | notForkable (message : String)
  | fault (message : String)

/-- Throw unless the condition holds. -/
def demand (c : Prop) [Decidable c] (e : AdmissionError) : Except AdmissionError Unit :=
  if c then .ok () else .error e

theorem demand_ok {c : Prop} [Decidable c] {e : AdmissionError} {u : Unit} (h : demand c e = .ok u) : c := by
  by_contra hc
  rw [demand, if_neg hc] at h
  cases h

def microsPerCent : ℤ := 10000

def mebibytesPerGibibyte : ℤ := 1024

def bytesPerGibibyteHour : ℤ := 1073741824 * 3600

def decimal (value : Numeric) : Except AdmissionError (ℤ × ℤ) :=
  if value.unscaled < 0 then .error (.fault "billing quantity is not a non-negative decimal")
  else .ok (value.unscaled, 10 ^ value.scale)

inductive Quantity
  | text (value : Numeric)
  | bigint (value : ℤ)

def Quantity.parsed : Quantity → Except AdmissionError (ℤ × ℤ)
  | .text value => decimal value
  | .bigint value => .ok (value, 1)

def ceilingPrice (quantity : Quantity) (rate divisor : ℤ) : Except AdmissionError ℤ := do
  demand (0 ≤ rate ∧ 1 ≤ divisor) (.fault "billing rate configuration is invalid")
  let (n, d) ← quantity.parsed
  demand (0 ≤ n) (.fault "billing commitment cannot be negative")
  let numerator := n * rate
  let denominator := d * divisor
  return if numerator = 0 then 0 else (numerator + denominator - 1) / denominator

/-- The rate card has a rate for each dimension, none of them negative, or the constructor throws. -/
structure BillingAdmissionPolicy where
  rates : MeterDimension → ℕ
  plan : String
  /-- The database's `/ 1024` on numerics. -/
  quotient : Numeric → Numeric

structure BillingCommitmentDelta where
  vcpuSeconds : ℤ
  memoryMebibyteSeconds : ℤ
  storageByteSeconds : ℤ

namespace BillingCommitmentDelta

def none : BillingCommitmentDelta := ⟨0, 0, 0⟩

/-- The delta of `time` seconds of a machine with these resources. -/
def machine (time : ℤ) (resources : Resources) : BillingCommitmentDelta :=
  ⟨time * resources .vcpus, time * resources .memoryMb, 0⟩

end BillingCommitmentDelta

namespace Numeric

def add (a b : Numeric) : Numeric :=
  { unscaled := a.unscaled * 10 ^ (max a.scale b.scale - a.scale)
      + b.unscaled * 10 ^ (max a.scale b.scale - b.scale)
    scale := max a.scale b.scale }

def sum (l : List Numeric) : Numeric := l.foldl add ⟨0, 0⟩

/-- `EXTRACT(EPOCH FROM interval)` times an integer. -/
def ofMicroseconds (n : ℤ) : Numeric := ⟨n, 6⟩

end Numeric

/-! ### The queries -/

def UsageOutbox.length (o : UsageOutbox) : ℤ := max (o.periodEnd - o.periodStart) 0

/-- The quantities of `durable_usage` in one dimension. -/
def durableUsage (policy : BillingAdmissionPolicy) (db : Db) (organizationId : String)
    (dimension : MeterDimension) : List Numeric :=
  let pending := db.usageOutbox.filter fun o =>
    decide (o.organizationId = organizationId) && o.processedAt.isNone
  ((db.usageEvents.filter fun e =>
      decide (e.organizationId = organizationId) && decide (e.dimension = dimension)).map (·.quantity))
    ++ match dimension with
      | .vcpuSeconds => pending.map fun o => .ofMicroseconds (o.length * o.vcpus)
      | .gibSeconds => pending.map fun o => policy.quotient (.ofMicroseconds (o.length * o.memoryMb))
      | _ => []

/-- The targets of a machine's extensions. -/
def Db.targets (db : Db) (m : MachineRow) : List ℤ :=
  (db.extendOperations.filter fun o =>
    decide (o.machineId = m.id) && decide (o.organizationId = m.organizationId)).map (·.targetExpiresAt)

/-- `GREATEST(expires_at, COALESCE(max(target_expires_at), '-infinity'))`. -/
def Db.committedUntil (db : Db) (m : MachineRow) : ℤ := (db.targets m).foldl max m.expiresAt

/-- The dimensions in which a machine runs up usage. -/
inductive RuntimeDimension
  | vcpu | memory

def RuntimeDimension.meter : RuntimeDimension → MeterDimension
  | .vcpu => .vcpuSeconds
  | .memory => .gibSeconds

def RuntimeDimension.resource : RuntimeDimension → Resource
  | .vcpu => .vcpus
  | .memory => .memoryMb

/-- The ends of the machine's periods that are recorded in the dimension. -/
def Db.periodEnds (db : Db) (dimension : RuntimeDimension) (m : MachineRow) : List ℤ :=
  ((db.usageEvents.filter fun e => decide (e.machineId = some m.id)
      && decide (e.organizationId = m.organizationId) && decide (e.dimension = dimension.meter)).map
    (·.periodEnd))
  ++ ((db.usageOutbox.filter fun o => decide (o.machineId = m.id)
      && decide (o.organizationId = m.organizationId) && o.processedAt.isNone).map (·.periodEnd))

/-- `vcpu_through` and `memory_through`. -/
def Db.through (db : Db) (dimension : RuntimeDimension) (m : MachineRow) : ℤ :=
  (db.periodEnds dimension m).max?.getD (m.startedAt.getD (m.placedAt.getD m.createdAt))

/-- The microseconds of `machine_commitments` that a machine counts for, at the statement's time. -/
def Db.commitment (db : Db) (time : ℤ) (dimension : RuntimeDimension) (m : MachineRow) : ℤ :=
  (if terminal m.state then 0 else max (db.committedUntil m - time) 0)
    + max (m.stoppedAt.getD time - db.through dimension m) 0

/-- The condition of `machine_commitments`. -/
def commits (organizationId : String) (m : MachineRow) : Bool :=
  decide (m.organizationId = organizationId)
    && (counted m.state || terminal m.state && m.usageFinalizedAt.isNone)

/-- `vcpu_seconds` and `memory_mebibyte_seconds`, in microseconds. -/
def Db.machineCommitments (db : Db) (time : ℤ) (organizationId : String) (dimension : RuntimeDimension) : ℤ :=
  sumWhere (commits organizationId) (fun m => db.commitment time dimension m * m.resources dimension.resource)
    db.machines

/-- `storage_byte_seconds`, in byte-microseconds. -/
def Db.storageCommitments (db : Db) (time : ℤ) (organizationId : String) : ℤ :=
  sumWhere (fun v => decide (v.organizationId = organizationId) && v.deletedAt.isNone
      && decide (time < v.expiresAt))
    (fun v => v.sizeLimitBytes * max (v.expiresAt - time) 0) db.volumes

namespace BillingAdmissionPolicy

variable (policy : BillingAdmissionPolicy)

def usagePrice (db : Db) (organizationId : String) (dimension : MeterDimension) :
    Except AdmissionError ℤ :=
  ceilingPrice (.text (.sum (durableUsage policy db organizationId dimension))) (policy.rates dimension) 1

/-- The projection of `enforce`; `time` is `statement_timestamp()`. -/
def projectedMicros (db : Db) (time : ℤ) (organizationId : String) (additional : BillingCommitmentDelta) :
    Except AdmissionError ℤ := do
  let usage ← meterDimensions.mapM (policy.usagePrice db organizationId)
  let vcpu ← ceilingPrice (.text (.ofMicroseconds (db.machineCommitments time organizationId .vcpu)))
    (policy.rates .vcpuSeconds) 1
  let memory ← ceilingPrice (.text (.ofMicroseconds (db.machineCommitments time organizationId .memory)))
    (policy.rates .gibSeconds) mebibytesPerGibibyte
  let storage ← ceilingPrice (.text (.ofMicroseconds (db.storageCommitments time organizationId)))
    (policy.rates .storageGibHours) bytesPerGibibyteHour
  let moreVcpu ← ceilingPrice (.bigint additional.vcpuSeconds) (policy.rates .vcpuSeconds) 1
  let moreMemory ← ceilingPrice (.bigint additional.memoryMebibyteSeconds) (policy.rates .gibSeconds)
    mebibytesPerGibibyte
  let moreStorage ← ceilingPrice (.bigint additional.storageByteSeconds) (policy.rates .storageGibHours)
    bytesPerGibibyteHour
  return usage.sum + vcpu + memory + storage + moreVcpu + moreMemory + moreStorage

def enforce (db : Db) (time : ℤ) (organizationId : String) (additional : BillingCommitmentDelta) :
    Except AdmissionError Unit :=
  match db.billingAccounts.find? fun a => decide (a.organizationId = organizationId) with
  | none => .ok ()
  | some account =>
    if account.delinquentAt.isSome then
      .error (.billingRejected "billing_delinquent"
        "Organization billing is delinquent; new resource commitments are suspended.")
    else if account.plan ≠ policy.plan then
      .error (.billingRejected "billing_plan_unavailable"
        "Organization billing plan has no active admission rate card.")
    else
      match account.spendCapCents with
      | none => .ok ()
      | some cap => do
        let projected ← policy.projectedMicros db time organizationId additional
        demand (projected ≤ cap * microsPerCent) (.billingRejected "spend_cap_exceeded"
          "Organization spend cap would be exceeded by this resource commitment.")

end BillingAdmissionPolicy

end Nehemiah.Control
