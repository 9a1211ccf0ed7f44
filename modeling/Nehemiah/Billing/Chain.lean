import Nehemiah.Billing.System

/-!
# The chain of pending observations

The drain loop of `ingest` reads the meter state, looks up the next stored observation and processes it,
until there is none.  What it judges does not depend on the tables it writes to: it is the walk of a pure
function over the stored observations.  `meterAfter` and `verdictOf` are the effect of one observation on
the meter state and its verdict, `chain` is the walk, and `drain_chain` says that a drain judges exactly
the chain and leaves hosts and observations alone.
-/

namespace Nehemiah.Billing

/-- The period boundary that the next usage starts from. -/
def MeterState.periodStart (s : MeterState) : Option ℤ := s.lastPeriodEnd.orElse fun _ => s.lastObservedAt

/-- The meter state after one observation. -/
def meterAfter (now : ℤ) (identity : MachineIdentity) (s : MeterState) (o : StoredObservation) :
    MeterState :=
  match anomalyOf identity s o with
  | some anomaly => s.rejected now o anomaly
  | none =>
    if o.kind = .start then s.started identity o
    else
      match s.periodStart with
      | some ps => s.used now o ps
      | none => s

def verdictOf (identity : MachineIdentity) (s : MeterState) (o : StoredObservation) : Verdict :=
  match anomalyOf identity s o with
  | some _ => .quarantined
  | none => if o.kind = .start then .accepted else usedVerdict o

/-- The stored observation that follows the cursor of a meter. -/
def nextStored (observations : List StoredObservation) (identity : MachineIdentity) (s : MeterState) :
    Option StoredObservation :=
  observations.find? fun o => o.machineId == identity.id
    && o.leaseGeneration == identity.leaseGeneration && o.hostBootId == s.hostBootId
    && o.sequence == s.lastSequence + 1

/-- The observations that a drain processes from the meter state `s`, each with its verdict. -/
def chain (now : ℤ) (identity : MachineIdentity) (observations : List StoredObservation) :
    ℕ → MeterState → List Judged
  | 0, _ => []
  | fuel + 1, s =>
    match nextStored observations identity s with
    | none => []
    | some o =>
      (o, verdictOf identity s o)
        :: chain now identity observations fuel (meterAfter now identity s o)

/-- **One observation.** -/
theorem processObservation_meter {db db' : Db} {now : ℤ} {identity : MachineIdentity}
    {s : MeterState} {o : StoredObservation} {v : Verdict}
    (hs : db.meterStates identity.id = some s)
    (h : processObservation db now identity s o = .ok (db', v)) :
    v = verdictOf identity s o ∧
      db'.meterStates = Function.update db.meterStates identity.id
        (some (meterAfter now identity s o)) ∧
      db'.hosts = db.hosts ∧ db'.observations = db.observations := by
  cases processObservation_processed h with
  | rejected anomaly ha =>
    have ht := rejectObservation_tables db now identity s o anomaly hs
    simp only [verdictOf, meterAfter, ha]
    exact ⟨trivial, congrArg Tables.meterStates ht, congrArg Tables.hosts ht,
      congrArg Tables.observations ht⟩
  | started _ ha hk hp =>
    have ht := processStart_tables hs hp
    rw [closeLegacyPrefix_tables] at ht
    simp only [verdictOf, meterAfter, ha, if_pos hk]
    exact ⟨trivial, congrArg Tables.meterStates ht, congrArg Tables.hosts ht,
      congrArg Tables.observations ht⟩
  | used ps _ _ ha hk hps hp =>
    obtain ⟨hv, ht⟩ := processUsage_frame hs hp
    have hps' : s.periodStart = some ps := hps
    simp only [verdictOf, meterAfter, ha, if_neg hk, hps']
    exact ⟨hv, congrArg Tables.meterStates ht, congrArg Tables.hosts ht,
      congrArg Tables.observations ht⟩

/-- **A drain judges the chain**, whatever the tables hold besides. -/
theorem drain_chain (now : ℤ) (identity : MachineIdentity) (fuel : ℕ) : ∀ (db db' : Db) (s : MeterState)
    (judged : List Judged), db.meterStates identity.id = some s →
    drain now identity fuel db = .ok (db', judged) →
    judged = chain now identity db.observations fuel s ∧ db'.hosts = db.hosts ∧
      db'.observations = db.observations ∧ (db'.meterStates identity.id).isSome := by
  induction fuel with
  | zero =>
    intro db db' s judged hs h
    cases h
    exact ⟨rfl, rfl, rfl, by rw [hs]; rfl⟩
  | succ fuel ih =>
    intro db db' s judged hs h
    simp only [drain, stateForUpdate, hs] at h
    have hnext : nextPending db identity s = nextStored db.observations identity s := rfl
    rw [hnext] at h
    split at h
    · next hnone =>
      cases h
      refine ⟨?_, rfl, rfl, by rw [hs]; rfl⟩
      simp only [chain, hnone]
    · next o ho =>
      obtain ⟨⟨db₁, v⟩, hp, h⟩ := bind_ok h
      obtain ⟨⟨db₂, js⟩, hrest, h⟩ := bind_ok h
      cases h
      obtain ⟨hv, hm, hh, hobs⟩ := processObservation_meter hs hp
      obtain ⟨hjs, hh', hobs', hsome⟩ := ih db₁ _ (meterAfter now identity s o) js
        (by rw [hm, Function.update_self]) hrest
      refine ⟨?_, hh'.trans hh, hobs'.trans hobs, hsome⟩
      simp only [chain, ho]
      rw [hv, hjs, hobs]

end Nehemiah.Billing
