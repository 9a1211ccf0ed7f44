import Nehemiah.Control.VolumeQuota

/-!
# Bytes of a volume

What a volume holds is only seen by inspecting the store.  A write grant reserves the bytes that an inspection left,
and stays charged for the settlement time after its capability expires; the broker puts at most one revision for each
reservation.  Every request may read the clock and inspect the store long before it goes on; an inspection lists the
store as it is at one moment.  `volume_within_allocation` is about the runs in which every replay is a `Settled` one.
-/

namespace Nehemiah.Volumes

open Lib

def maximumSinglePutBytes : ℕ := 5 * 1024 * 1024 * 1024

def reservationSettlementSeconds : ℤ := 60

structure Reservation where
  id : String
  volumeId : String
  operationKey : Option String
  attempt : ℕ
  observedSizeAtReservation : ℕ
  maximumBytes : ℕ
  createdAt : ℤ
  expiresAt : ℤ

/-- A stored revision; its key is that of the reservation. -/
structure Revision where
  volumeId : String
  reservationId : String
  sizeBytes : ℕ
deriving DecidableEq

structure Inspection where
  volumeId : String
  revisions : List Revision
  takenAt : ℤ
deriving DecidableEq

def Inspection.observedSizeBytes (i : Inspection) : ℕ := (i.revisions.map Revision.sizeBytes).sum

/-- A write request between its reservation and the call of `issueGrant`. -/
structure Issue where
  volumeId : String
  reservationId : String
  maximumBytes : ℕ
  issuedAt : ℤ
  capabilityExpiresAt : ℤ
  reservationExpiresAt : ℤ
deriving DecidableEq

/-- A PUT capability that the store has signed. -/
structure Capability where
  volumeId : String
  reservationId : String
  maximumBytes : ℕ
  issuedAt : ℤ
  expiresAt : ℤ
  reservationExpiresAt : ℤ
  reservedBytes : ℕ
deriving DecidableEq

/-- An upload that the broker has accepted. -/
structure Upload where
  capability : Capability
  contentLength : ℕ
deriving DecidableEq

structure Broker where
  db : Db
  now : ℤ
  inspections : List Inspection
  /-- The newest first. -/
  reservations : List Reservation
  issues : List Issue
  minted : List Capability
  /-- The capabilities that a response carried. -/
  handedOut : List Capability
  uploads : List Upload
  revisions : List Revision

/-- The path that a write grant is asked for on. -/
inductive GrantPath
  | create
  | grant (ttlSeconds : Option ℤ)

inductive BrokerAction
  | tick (t : ℤ)
  | create (input : CreateInput) (id : String) (createdAt : ℤ) (affordable : Bool)
  | remove (id organizationId : String) (projectId : Option String) (requestedAt : ℤ) (observedSizeBytes : ℕ)
  | inspect (volumeId : String)
  | reserve (path : GrantPath) (inspection : Inspection) (issuedAt : ℤ) (id : String) (affordable : Bool)
  | issueGrant (issue : Issue)
  | markIssued (capability : Capability) (readAt : ℤ)
  | startUpload (capability : Capability) (contentLength : ℕ)
  | commitUpload (upload : Upload)
  | deleteFailedUpload (upload : Upload)

/-- `#grantExpiry`. -/
def grantExpiry (v : Volume) (ttlSeconds issuedAt : ℤ) : ℤ := min v.expiresAt (issuedAt + ttlSeconds * 1000)

namespace GrantPath

def ttlSeconds (v : Volume) : GrantPath → ℤ
  | create => v.createRequestHash.grantTtlSeconds
  | grant ttl => ttl.getD defaultVolumeGrantTtlSeconds

def operationKey : GrantPath → Option String
  | create => some "create"
  | grant _ => none

end GrantPath

namespace Broker

def reservationsOf (s : Broker) (volumeId : String) : List Reservation :=
  s.reservations.filter fun r => decide (r.volumeId = volumeId)

/-- What a live reservation still covers beyond the growth that was observed since. -/
def outstanding (observedSizeBytes : ℕ) (r : Reservation) : ℕ :=
  r.maximumBytes - (observedSizeBytes - r.observedSizeAtReservation)

def outstandingBytes (s : Broker) (volumeId : String) (observedSizeBytes : ℕ) (now : ℤ) : ℕ :=
  sumWhere (fun r => decide (r.expiresAt > now)) (outstanding observedSizeBytes) (s.reservationsOf volumeId)

/-- The reservation of an earlier attempt of the same operation that is still live. -/
def replayed? (s : Broker) (volumeId : String) (operationKey : Option String) (now : ℤ) : Option Reservation :=
  operationKey.bind fun key =>
    (s.reservationsOf volumeId).find? fun r => decide (r.operationKey = some key ∧ r.expiresAt > now)

def attempt (s : Broker) (volumeId : String) (operationKey : Option String) : ℕ :=
  match operationKey with
  | none => 1
  | some key =>
    (((s.reservationsOf volumeId).filter fun r => decide (r.operationKey = some key)).map Reservation.attempt).foldl max 0 + 1

def create (s : Broker) (input : CreateInput) (id : String) (createdAt : ℤ) (affordable : Bool) : Option Broker :=
  match validateCreate input with
  | .error _ => some s
  | .ok request =>
    let v := newVolume request input.idempotencyKey id createdAt
    if createdAt ≤ s.now ∧ id ∉ s.db.volumes.map Volume.id then
      match s.db.admission v affordable with
      | .ok none => some { s with db := s.db.insert v }
      | _ => some s
    else none

/-- The listing of the volume's revisions; an observation above the allocation is refused. -/
def inspect (s : Broker) (volumeId : String) : Option Broker :=
  let inspection : Inspection := ⟨volumeId, s.revisions.filter fun r => decide (r.volumeId = volumeId), s.now⟩
  if (s.db.volume? volumeId).any fun v => decide (inspection.observedSizeBytes ≤ v.sizeLimitBytes) then
    some { s with inspections := inspection :: s.inspections }
  else none

/-- `#issueWrite` up to the reservation.  The inspection is used within the settlement time. -/
def reserve (s : Broker) (path : GrantPath) (inspection : Inspection) (issuedAt : ℤ) (id : String) (affordable : Bool) :
    Option Broker :=
  match s.db.volume? inspection.volumeId with
  | none => none
  | some v =>
    let ttl := path.ttlSeconds v
    let capabilityExpiresAt := grantExpiry v ttl issuedAt
    let observed := inspection.observedSizeBytes
    if inspection ∈ s.inspections ∧ inspection.takenAt ≤ issuedAt ∧ issuedAt ≤ s.now ∧
        issuedAt - inspection.takenAt ≤ reservationSettlementSeconds * 1000 ∧ 1 ≤ ttl ∧ ttl ≤ maximumVolumeGrantTtlSeconds ∧
        v.deletedAt = none ∧ v.expiresAt > issuedAt ∧ observed ≤ v.sizeLimitBytes ∧ id ∉ s.reservations.map Reservation.id then
      let db := s.db.updateVolume v.id fun v => { v with observedSizeBytes := observed }
      match s.replayed? v.id path.operationKey issuedAt with
      | some r => some { s with
          db
          issues := ⟨v.id, r.id, r.maximumBytes, issuedAt, capabilityExpiresAt, r.expiresAt⟩ :: s.issues }
      | none =>
        let outstandingBytes := s.outstandingBytes v.id observed issuedAt
        if affordable ∧ observed + outstandingBytes < v.sizeLimitBytes then
          let r : Reservation := {
            id, volumeId := v.id, operationKey := path.operationKey, attempt := s.attempt v.id path.operationKey
            observedSizeAtReservation := observed
            maximumBytes := v.sizeLimitBytes - observed - outstandingBytes
            createdAt := issuedAt
            expiresAt := capabilityExpiresAt + reservationSettlementSeconds * 1000 }
          some { s with
            db
            reservations := r :: s.reservations
            issues := ⟨v.id, r.id, r.maximumBytes, issuedAt, capabilityExpiresAt, r.expiresAt⟩ :: s.issues }
        else none
    else none

/-- The store signs the capability: its expiry is cut to whole seconds, must lie ahead and may not outlive the
reservation. -/
def issueGrant (s : Broker) (issue : Issue) : Option Broker :=
  let epoch := issue.capabilityExpiresAt / 1000
  let ttlSeconds := epoch - s.now / 1000
  if issue ∈ s.issues ∧ issue.capabilityExpiresAt ≤ issue.reservationExpiresAt ∧ 1 ≤ issue.maximumBytes ∧
      1 ≤ ttlSeconds ∧ ttlSeconds ≤ 900 ∧ epoch * 1000 > s.now then
    some { s with minted := ⟨issue.volumeId, issue.reservationId, min issue.maximumBytes maximumSinglePutBytes, issue.issuedAt,
      epoch * 1000, issue.reservationExpiresAt, issue.maximumBytes⟩ :: s.minted }
  else none

/-- `validateGrant`, for a grant of the brokered store. -/
def validCapability (c : Capability) : Bool :=
  decide (c.expiresAt > c.issuedAt ∧ c.expiresAt ≤ c.reservationExpiresAt ∧
    c.expiresAt - c.issuedAt ≤ maximumVolumeGrantTtlSeconds * 1000 ∧ 0 < c.maximumBytes ∧ c.maximumBytes ≤ c.reservedBytes)

/-- `markWriteGrantIssued`, after which the response carries the capability. -/
def markIssued (s : Broker) (c : Capability) (readAt : ℤ) : Option Broker :=
  if c ∈ s.minted ∧ validCapability c ∧ readAt ≤ s.now ∧
      (s.db.volume? c.volumeId).any (fun v => v.deletedAt.isNone && decide (v.expiresAt > readAt)) ∧
      s.reservations.any (fun r => decide (r.id = c.reservationId ∧ r.expiresAt > readAt)) then
    some { s with handedOut := c :: s.handedOut }
  else none

def stored? (s : Broker) (reservationId : String) : Bool :=
  s.revisions.any fun r => decide (r.reservationId = reservationId)

/-- The broker verifies the capability and the length, and finds no revision. -/
def startUpload (s : Broker) (c : Capability) (contentLength : ℕ) : Option Broker :=
  if c ∈ s.handedOut ∧ c.expiresAt > s.now ∧ 1 ≤ contentLength ∧ contentLength ≤ c.maximumBytes ∧
      contentLength ≤ maximumSinglePutBytes ∧ s.stored? c.reservationId = false then
    some { s with uploads := ⟨c, contentLength⟩ :: s.uploads }
  else none

/-- The store carries out the conditional put. -/
def commitUpload (s : Broker) (u : Upload) : Option Broker :=
  if u ∈ s.uploads ∧ s.stored? u.capability.reservationId = false then
    some { s with revisions := ⟨u.capability.volumeId, u.capability.reservationId, u.contentLength⟩ :: s.revisions }
  else none

/-- The broker takes back a revision whose upload it could not confirm. -/
def deleteFailedUpload (s : Broker) (u : Upload) : Option Broker :=
  if u ∈ s.uploads then
    some { s with revisions := s.revisions.filter fun r => decide (r.reservationId ≠ u.capability.reservationId) }
  else none

/-- The bytes that the store holds for the volume. -/
def volumeBytes (s : Broker) (volumeId : String) : ℕ :=
  sumWhere (fun r => decide (r.volumeId = volumeId)) Revision.sizeBytes s.revisions

end Broker

def brokerStep (s : Broker) : BrokerAction → Option Broker
  | .tick t => if s.now ≤ t then some { s with now := t } else none
  | .create input id createdAt affordable => s.create input id createdAt affordable
  | .remove id organizationId projectId requestedAt observedSizeBytes =>
    some { s with db := s.db.enqueueDeletion id organizationId projectId requestedAt observedSizeBytes }
  | .inspect volumeId => s.inspect volumeId
  | .reserve path inspection issuedAt id affordable => s.reserve path inspection issuedAt id affordable
  | .issueGrant issue => s.issueGrant issue
  | .markIssued capability readAt => s.markIssued capability readAt
  | .startUpload capability contentLength => s.startUpload capability contentLength
  | .commitUpload upload => s.commitUpload upload
  | .deleteFailedUpload upload => s.deleteFailedUpload upload

def emptyBroker (organizations : List Organization) (projects : List Project) (now : ℤ) : Broker :=
  ⟨⟨organizations, projects, [], []⟩, now, [], [], [], [], [], [], []⟩

/-- The volumes hold no more than their allocations, and each capability that was handed out expires at least the
settlement time before its reservation. -/
structure Broker.WithinAllocation (s : Broker) : Prop where
  bytes : ∀ v ∈ s.db.volumes, s.volumeBytes v.id ≤ v.sizeLimitBytes
  settlement : ∀ c ∈ s.handedOut, ∀ r ∈ s.reservations, r.id = c.reservationId →
    c.expiresAt + reservationSettlementSeconds * 1000 ≤ r.expiresAt

/-- A replayed create asks for no later expiry than its reservation covers; uploads reach the store before their
capability expires; and a revision that an inspection has counted after that expiry is not taken back. -/
def Settled (s : Broker) (a : BrokerAction) (_ : Broker) : Prop :=
  match a with
  | .reserve path inspection issuedAt _ _ =>
    ∀ v ∈ s.db.volume? inspection.volumeId, ∀ r ∈ s.replayed? v.id path.operationKey issuedAt,
      grantExpiry v (path.ttlSeconds v) issuedAt + reservationSettlementSeconds * 1000 ≤ r.expiresAt
  | .commitUpload u => s.now < u.capability.expiresAt
  | .deleteFailedUpload u => s.now < u.capability.expiresAt ∨ ∀ i ∈ s.inspections, u.capability.expiresAt ≤ i.takenAt →
      ∀ r ∈ i.revisions, r.reservationId ≠ u.capability.reservationId
  | _ => True

instance (s : Broker) (a : BrokerAction) (t : Broker) : Decidable (Settled s a t) := by
  unfold Settled
  split <;> infer_instance

/-! ## The invariant -/

/-- The bytes stored under the key of a reservation. -/
def storedBytes (revisions : List Revision) (reservationId : String) : ℕ :=
  sumWhere (fun r => decide (r.reservationId = reservationId)) Revision.sizeBytes revisions

/-- What the inspection has seen of the reservation is final: its capabilities had expired. -/
def Inspection.SawEnd (i : Inspection) (r : Reservation) : Prop :=
  i.volumeId = r.volumeId ∧ r.expiresAt ≤ i.takenAt + reservationSettlementSeconds * 1000

/-- Each reservation, with the newest first, was made after the end of all earlier ones had been seen, and was given all
that they had left. -/
def Ordered (inspections : List Inspection) (revisions : List Revision) (limit : ℕ) : List Reservation → Prop
  | [] => True
  | r :: older =>
    r.maximumBytes + r.observedSizeAtReservation = limit ∧
      r.observedSizeAtReservation = (older.map fun p => storedBytes revisions p.id).sum ∧
      (∃ i ∈ inspections, ∀ p ∈ older, i.SawEnd p) ∧ Ordered inspections revisions limit older

/-- What a capability or a request for one needs of its reservation. -/
structure Reservation.Covers (r : Reservation) (volumeId reservationId : String) (expiresAt : ℤ) (maximumBytes : ℕ) : Prop where
  id : r.id = reservationId
  volumeId : r.volumeId = volumeId
  expiresAt : expiresAt + reservationSettlementSeconds * 1000 ≤ r.expiresAt
  maximumBytes : maximumBytes ≤ r.maximumBytes

namespace Broker

structure Inv (s : Broker) : Prop where
  volumes : (s.db.volumes.map Volume.id).Nodup
  reserved : (s.reservations.map Reservation.id).Nodup
  volume : ∀ r ∈ s.reservations, ∃ v ∈ s.db.volumes, v.id = r.volumeId
  issues : ∀ i ∈ s.issues, ∃ r ∈ s.reservations, r.Covers i.volumeId i.reservationId i.capabilityExpiresAt i.maximumBytes
  minted : ∀ c ∈ s.minted, ∃ r ∈ s.reservations, r.Covers c.volumeId c.reservationId c.expiresAt c.maximumBytes
  handedOut : ∀ c ∈ s.handedOut, c ∈ s.minted
  uploads : ∀ u ∈ s.uploads, u.capability ∈ s.minted ∧ u.contentLength ≤ u.capability.maximumBytes
  revisions : ∀ v ∈ s.revisions, ∃ r ∈ s.reservations, r.id = v.reservationId ∧ r.volumeId = v.volumeId
  bounded : ∀ r ∈ s.reservations, storedBytes s.revisions r.id ≤ r.maximumBytes
  inspected : ∀ i ∈ s.inspections, i.takenAt ≤ s.now ∧ ∀ v ∈ i.revisions, ∃ r ∈ s.reservations, r.id = v.reservationId ∧
    r.volumeId = i.volumeId
  final : ∀ i ∈ s.inspections, ∀ r ∈ s.reservations, i.SawEnd r →
    storedBytes i.revisions r.id = storedBytes s.revisions r.id
  ordered : ∀ v ∈ s.db.volumes, Ordered s.inspections s.revisions v.sizeLimitBytes (s.reservationsOf v.id)

section Steps

variable {s t : Broker} {r : Reservation} {volumeId id : String} {inspections : List Inspection} {i : Inspection}

theorem mem_reservationsOf : r ∈ s.reservationsOf volumeId ↔ r ∈ s.reservations ∧ r.volumeId = volumeId := by
  unfold reservationsOf
  rw [List.mem_filter, decide_eq_true_iff]

theorem reservationsOf_nodup (h : s.Inv) (volumeId : String) : ((s.reservationsOf volumeId).map Reservation.id).Nodup := by
  have hsub : (s.reservationsOf volumeId).Sublist s.reservations := List.filter_sublist
  exact h.reserved.sublist (hsub.map Reservation.id)

variable {revisions : List Revision}

theorem ordered_congr {inspections' : List Inspection} {revisions' : List Revision} {limit : ℕ} {rs : List Reservation}
    (h : Ordered inspections revisions limit rs) (hi : ∀ i ∈ inspections, i ∈ inspections')
    (hr : ∀ i ∈ inspections, ∀ r ∈ rs, i.SawEnd r → storedBytes revisions' r.id = storedBytes revisions r.id) :
    Ordered inspections' revisions' limit rs := by
  induction rs with
  | nil => trivial
  | cons r older ih =>
    obtain ⟨hmax, hobserved, ⟨i, hmem, hend⟩, holder⟩ := h
    refine ⟨hmax, ?_, ⟨i, hi i hmem, hend⟩, ih holder fun i hmem r hr' => hr i hmem r (List.mem_cons_of_mem _ hr')⟩
    rw [hobserved]
    apply congrArg List.sum
    apply List.map_congr_left
    intro p hp
    exact (hr i hmem p (List.mem_cons_of_mem _ hp) (hend p hp)).symm

/-- The invariant after the store changed under keys whose end no inspection has seen. -/
theorem Inv.rewritten (h : s.Inv)
    (hfrom : ∀ v ∈ revisions, ∃ r ∈ s.reservations, r.id = v.reservationId ∧ r.volumeId = v.volumeId)
    (hbounded : ∀ r ∈ s.reservations, storedBytes revisions r.id ≤ r.maximumBytes)
    (hsame : ∀ i ∈ s.inspections, ∀ r ∈ s.reservations, i.SawEnd r → storedBytes revisions r.id = storedBytes
     s.revisions r.id) :
    Inv { s with revisions := revisions } := by
  refine ⟨h.volumes, h.reserved, h.volume, h.issues, h.minted, h.handedOut, h.uploads, hfrom, hbounded, h.inspected, ?_, ?_⟩
  · intro i hi r hr hend
    exact (h.final i hi r hr hend).trans (hsame i hi r hr hend).symm
  · intro v hv
    apply ordered_congr (h.ordered v hv) (fun i hi => hi)
    intro i hi r hr
    exact hsame i hi r (mem_reservationsOf.mp hr).1

theorem storedBytes_eq_zero (h : ∀ r ∈ revisions, r.reservationId ≠ id) : storedBytes revisions id = 0 := by
  apply sumWhere_eq_zero
  intro r hr hid
  exact absurd (of_decide_eq_true hid) (h r hr)

theorem stored?_eq_false (h : s.stored? id = false) : ∀ r ∈ s.revisions, r.reservationId ≠ id := by
  intro r hr hid
  have htrue : s.stored? id = true := List.any_eq_true.mpr ⟨r, hr, decide_eq_true hid⟩
  exact Bool.false_ne_true (h.symm.trans htrue)

/-- An upload commits only under a key that the store does not hold, and before the end of its reservation is seen. -/
theorem Inv.committed {u : Upload} (h : s.Inv) (hs : s.commitUpload u = some t) (hg : s.now < u.capability.expiresAt) :
    t.Inv := by
  unfold commitUpload at hs
  split at hs
  case isFalse => cases hs
  case isTrue hguard =>
    obtain ⟨hu, hnone⟩ := hguard
    cases hs
    obtain ⟨hminted, hlength⟩ := h.uploads u hu
    obtain ⟨r, hr, hcovers⟩ := h.minted u.capability hminted
    have hstored (id : String) : storedBytes (⟨u.capability.volumeId, u.capability.reservationId, u.contentLength⟩ :: s.revisions) id =
        (if u.capability.reservationId = id then u.contentLength else 0) + storedBytes s.revisions id := by
      unfold storedBytes
      rw [sumWhere_cons]
      simp only [decide_eq_true_eq]
    apply h.rewritten
    · intro v hv
      rcases List.mem_cons.mp hv with rfl | hv
      · exact ⟨r, hr, hcovers.id, hcovers.volumeId⟩
      · exact h.revisions v hv
    · intro p hp
      rw [hstored]
      by_cases hid : u.capability.reservationId = p.id
      · have hpr : p = r := key_inj h.reserved hp hr (hid.symm.trans hcovers.id.symm)
        have hzero := storedBytes_eq_zero (stored?_eq_false hnone)
        rw [if_pos hid, ← hid, hzero, hpr, Nat.add_zero]
        exact hlength.trans hcovers.maximumBytes
      · rw [if_neg hid, Nat.zero_add]
        exact h.bounded p hp
    · intro i hi p hp hend
      rw [hstored]
      by_cases hid : u.capability.reservationId = p.id
      · -- the capability has not expired, so the end of its reservation lies ahead
        have hpr : p = r := key_inj h.reserved hp hr (hid.symm.trans hcovers.id.symm)
        have htaken := (h.inspected i hi).1
        have hexpires := hcovers.expiresAt
        have hseen := hend.2
        rw [hpr] at hseen
        omega
      · rw [if_neg hid, Nat.zero_add]

theorem storedBytes_filter {p : Revision → Bool} (h : ∀ r ∈ revisions, r.reservationId = id → p r = true) :
    storedBytes (revisions.filter p) id = storedBytes revisions id := by
  unfold storedBytes
  induction revisions with
  | nil => rfl
  | cons r revisions ih =>
    have hrest := ih fun v hv => h v (List.mem_cons_of_mem _ hv)
    by_cases hp : p r = true
    · rw [List.filter_cons_of_pos hp, sumWhere_cons, sumWhere_cons, hrest]
    · have hne : r.reservationId ≠ id := fun hid => hp (h r List.mem_cons_self hid)
      rw [List.filter_cons_of_neg hp, hrest, sumWhere_cons, if_neg (by simp [hne]), Nat.zero_add]

/-- A revision that is taken back was not in an inspection that saw the end of its reservation. -/
theorem Inv.takenBack {u : Upload} (h : s.Inv) (hs : s.deleteFailedUpload u = some t)
    (hg : s.now < u.capability.expiresAt ∨ ∀ i ∈ s.inspections, u.capability.expiresAt ≤ i.takenAt →
      ∀ r ∈ i.revisions, r.reservationId ≠ u.capability.reservationId) : t.Inv := by
  unfold deleteFailedUpload at hs
  split at hs
  case isFalse => cases hs
  case isTrue hu =>
    cases hs
    obtain ⟨hminted, _⟩ := h.uploads u hu
    obtain ⟨r, hr, hcovers⟩ := h.minted u.capability hminted
    have hgone : storedBytes (s.revisions.filter fun r => decide (r.reservationId ≠ u.capability.reservationId))
        u.capability.reservationId = 0 := by
      apply storedBytes_eq_zero
      intro v hv
      exact of_decide_eq_true (List.mem_filter.mp hv).2
    apply h.rewritten
    · intro v hv
      exact h.revisions v (List.mem_filter.mp hv).1
    · intro p hp
      by_cases hid : p.id = u.capability.reservationId
      · rw [hid, hgone]
        exact Nat.zero_le _
      · rw [storedBytes_filter fun v hv hv' => decide_eq_true (hv' ▸ hid)]
        exact h.bounded p hp
    · intro i hi p hp hend
      by_cases hid : p.id = u.capability.reservationId
      · have hpr : p = r := key_inj h.reserved hp hr (hid.trans hcovers.id.symm)
        have htaken := (h.inspected i hi).1
        have hexpires := hcovers.expiresAt
        have hseen := hend.2
        rw [hpr] at hseen
        rcases hg with hbefore | hnot
        · omega
        · have hzero := storedBytes_eq_zero (hnot i hi (by omega))
          rw [hid, hgone, ← hzero, ← hid]
          exact h.final i hi p hp hend
      · exact storedBytes_filter fun v hv hv' => decide_eq_true (hv' ▸ hid)

/-! ### Reservations -/

/-- While some reservation is live for the request, it and what was observed fill the allocation: the oldest live one
was given all that the earlier ones had left, and what they hold has been counted. -/
theorem outstanding_fills {counted : String → ℕ} {limit observed : ℕ} {issuedAt : ℤ} {rs : List Reservation}
    (h : Ordered inspections revisions limit rs)
    (hcounted : ∀ p ∈ rs, p.expiresAt ≤ issuedAt → counted p.id = storedBytes revisions p.id)
    (hobserved : (rs.map fun p => counted p.id).sum ≤ observed) (hlive : ∃ p ∈ rs, p.expiresAt > issuedAt) :
    limit ≤ observed + sumWhere (fun r => decide (r.expiresAt > issuedAt)) (outstanding observed) rs := by
  induction rs with
  | nil =>
    obtain ⟨p, hp, _⟩ := hlive
    cases hp
  | cons r older ih =>
    obtain ⟨hmax, hobs, _, holder⟩ := h
    rw [List.map_cons, List.sum_cons] at hobserved
    rw [sumWhere_cons]
    by_cases hold : ∃ p ∈ older, p.expiresAt > issuedAt
    · have hrest := ih holder (fun p hp => hcounted p (List.mem_cons_of_mem _ hp)) (by omega) hold
      omega
    · have hended : ∀ p ∈ older, p.expiresAt ≤ issuedAt := by
        intro p hp
        by_contra hnot
        exact hold ⟨p, hp, by omega⟩
      have hr : r.expiresAt > issuedAt := by
        obtain ⟨p, hp, hpl⟩ := hlive
        rcases List.mem_cons.mp hp with rfl | hp
        · exact hpl
        · exact absurd (hended p hp) (by omega)
      have hsum : (older.map fun p => counted p.id).sum = r.observedSizeAtReservation := by
        rw [hobs]
        apply congrArg List.sum
        apply List.map_congr_left
        intro p hp
        exact hcounted p (List.mem_cons_of_mem _ hp) (hended p hp)
      rw [if_pos (decide_eq_true hr)]
      unfold outstanding
      omega

theorem observed_eq (i : Inspection) : i.observedSizeBytes = sumWhere (fun _ => true) Revision.sizeBytes i.revisions := by
  unfold Inspection.observedSizeBytes sumWhere
  simp

/-- The reservations of a volume account for all that an inspection of it has counted. -/
theorem Inv.observed_eq_sum (h : s.Inv) (hi : i ∈ s.inspections) :
    i.observedSizeBytes = ((s.reservationsOf i.volumeId).map fun p => storedBytes i.revisions p.id).sum := by
  have hkeys : ((s.reservationsOf i.volumeId).map fun p => storedBytes i.revisions p.id) =
      ((s.reservationsOf i.volumeId).map Reservation.id).map (storedBytes i.revisions) := by
    rw [List.map_map]
    rfl
  rw [observed_eq, hkeys]
  apply Nat.le_antisymm
  · apply sumWhere_le_sum_keys
    · intro v hv _
      obtain ⟨r, hr, hid, hvolume⟩ := (h.inspected i hi).2 v hv
      rw [← hid]
      exact List.mem_map_of_mem (mem_reservationsOf.mpr ⟨hr, hvolume⟩)
    · exact fun _ _ => Nat.zero_le _
  · apply sum_keys_le_sumWhere (reservationsOf_nodup h i.volumeId)
    exact fun _ _ => Nat.zero_le _

theorem Inv.settled {db : Db} (h : s.Inv) (done : String → Prop) (hdb : s.db.Settles done db) :
    Inv { s with db := db } := by
  obtain ⟨g, hg, hsame⟩ := hdb.volumes
  refine ⟨?_, h.reserved, ?_, h.issues, h.minted, h.handedOut, h.uploads, h.revisions, h.bounded, h.inspected, h.final, ?_⟩
  · show (db.volumes.map Volume.id).Nodup
    have hid : Volume.id ∘ g = Volume.id := by
      funext v
      exact (hsame v).id
    rw [hg, List.map_map, hid]
    exact h.volumes
  · intro r hr
    obtain ⟨v, hv, hvr⟩ := h.volume r hr
    refine ⟨g v, ?_, (hsame v).id.trans hvr⟩
    show g v ∈ db.volumes
    rw [hg]
    exact List.mem_map_of_mem hv
  · intro v' hv'
    have hv'' : v' ∈ s.db.volumes.map g := hg ▸ hv'
    obtain ⟨v, hv, rfl⟩ := List.mem_map.mp hv''
    rw [(hsame v).sizeLimitBytes, (hsame v).id]
    exact h.ordered v hv

theorem Inv.inserted {v : Volume} (h : s.Inv) (hfresh : v.id ∉ s.db.volumes.map Volume.id) :
    Inv { s with db := s.db.insert v } := by
  refine ⟨?_, h.reserved, ?_, h.issues, h.minted, h.handedOut, h.uploads, h.revisions, h.bounded, h.inspected, h.final, ?_⟩
  · show ((s.db.volumes ++ [v]).map Volume.id).Nodup
    rw [List.map_append, List.map_singleton, List.nodup_append]
    refine ⟨h.volumes, List.nodup_singleton _, ?_⟩
    intro a ha b hb hab
    exact hfresh (List.mem_singleton.mp hb ▸ hab ▸ ha)
  · intro r hr
    obtain ⟨w, hw, hwr⟩ := h.volume r hr
    exact ⟨w, List.mem_append_left _ hw, hwr⟩
  · intro w hw
    rcases List.mem_append.mp hw with hw | hw
    · exact h.ordered w hw
    · obtain rfl := List.mem_singleton.mp hw
      have hnone : s.reservationsOf w.id = [] := by
        apply List.eq_nil_iff_forall_not_mem.mpr
        intro r hr
        obtain ⟨hmem, hvolume⟩ := mem_reservationsOf.mp hr
        obtain ⟨u, hu, hur⟩ := h.volume r hmem
        exact hfresh (hvolume ▸ hur ▸ List.mem_map_of_mem hu)
      show Ordered s.inspections s.revisions w.sizeLimitBytes (s.reservationsOf w.id)
      rw [hnone]
      trivial

theorem Inv.asked {issue : Issue} (h : s.Inv) (hi : ∃ r ∈ s.reservations,
    r.Covers issue.volumeId issue.reservationId issue.capabilityExpiresAt issue.maximumBytes) :
    Inv { s with issues := issue :: s.issues } := by
  refine ⟨h.volumes, h.reserved, h.volume, ?_, h.minted, h.handedOut, h.uploads, h.revisions, h.bounded, h.inspected,
    h.final, h.ordered⟩
  intro i hmem
  rcases List.mem_cons.mp hmem with rfl | hmem
  · exact hi
  · exact h.issues i hmem

/-- A reservation for a request that found no live one. -/
theorem Inv.reserved_new {v : Volume} (h : s.Inv) (hv : v ∈ s.db.volumes) (hi : i ∈ s.inspections)
    (hvolume : i.volumeId = v.id) (hr : r.volumeId = v.id) (hfresh : r.id ∉ s.reservations.map Reservation.id)
    (hmax : r.maximumBytes + r.observedSizeAtReservation = v.sizeLimitBytes)
    (hobserved : r.observedSizeAtReservation = i.observedSizeBytes)
    (hended : ∀ p ∈ s.reservationsOf v.id, p.expiresAt ≤ i.takenAt + reservationSettlementSeconds * 1000) :
    Inv { s with reservations := r :: s.reservations } := by
  have hnot {p : Reservation} (hp : p ∈ s.reservations) : p.id ≠ r.id := fun hid => hfresh (hid ▸ List.mem_map_of_mem hp)
  have hsaw : ∀ p ∈ s.reservationsOf v.id, i.SawEnd p := by
    intro p hp
    exact ⟨hvolume.trans (mem_reservationsOf.mp hp).2.symm, hended p hp⟩
  have hempty : storedBytes s.revisions r.id = 0 := by
    apply storedBytes_eq_zero
    intro w hw hid
    obtain ⟨p, hp, hpid, _⟩ := h.revisions w hw
    exact hnot hp (hpid.trans hid)
  refine ⟨h.volumes, List.nodup_cons.mpr ⟨hfresh, h.reserved⟩, ?_, ?_, ?_, h.handedOut, h.uploads, ?_, ?_, ?_, ?_, ?_⟩
  · intro p hp
    rcases List.mem_cons.mp hp with rfl | hp
    · exact ⟨v, hv, hr.symm⟩
    · exact h.volume p hp
  · intro j hj
    obtain ⟨p, hp, hc⟩ := h.issues j hj
    exact ⟨p, List.mem_cons_of_mem _ hp, hc⟩
  · intro c hc
    obtain ⟨p, hp, hc⟩ := h.minted c hc
    exact ⟨p, List.mem_cons_of_mem _ hp, hc⟩
  · intro w hw
    obtain ⟨p, hp, hc⟩ := h.revisions w hw
    exact ⟨p, List.mem_cons_of_mem _ hp, hc⟩
  · intro p hp
    rcases List.mem_cons.mp hp with rfl | hp
    · rw [hempty]
      exact Nat.zero_le _
    · exact h.bounded p hp
  · intro j hj
    refine ⟨(h.inspected j hj).1, ?_⟩
    intro w hw
    obtain ⟨p, hp, hc⟩ := (h.inspected j hj).2 w hw
    exact ⟨p, List.mem_cons_of_mem _ hp, hc⟩
  · intro j hj p hp hend
    rcases List.mem_cons.mp hp with rfl | hp
    · rw [hempty]
      apply storedBytes_eq_zero
      intro w hw hid
      obtain ⟨q, hq, hqid, _⟩ := (h.inspected j hj).2 w hw
      exact hnot hq (hqid.trans hid)
    · exact h.final j hj p hp hend
  · intro w hw
    have hw' := h.ordered w hw
    show Ordered s.inspections s.revisions w.sizeLimitBytes ((r :: s.reservations).filter _)
    by_cases hwr : r.volumeId = w.id
    · obtain rfl : v = w := key_inj h.volumes hv hw (hr.symm.trans hwr)
      rw [List.filter_cons_of_pos (p := fun r : Reservation => decide (r.volumeId = v.id)) (decide_eq_true hwr)]
      refine ⟨hmax, ?_, ⟨i, hi, hsaw⟩, hw'⟩
      rw [hobserved, h.observed_eq_sum hi, hvolume]
      apply congrArg List.sum
      apply List.map_congr_left
      intro p hp
      exact h.final i hi p (mem_reservationsOf.mp hp).1 (hsaw p hp)
    · rw [List.filter_cons_of_neg (by simp [hwr])]
      exact hw'

theorem replayed?_some {key : Option String} {now : ℤ} (h : s.replayed? volumeId key now = some r) :
    r ∈ s.reservations ∧ r.volumeId = volumeId := by
  unfold replayed? at h
  obtain ⟨k, _, hr⟩ := Option.bind_eq_some_iff.mp h
  exact mem_reservationsOf.mp (List.mem_of_find?_eq_some hr)

theorem Inv.reserve {path : GrantPath} {issuedAt : ℤ} {affordable : Bool} (h : s.Inv)
    (hs : s.reserve path i issuedAt id affordable = some t)
    (hg : ∀ v ∈ s.db.volume? i.volumeId, ∀ r ∈ s.replayed? v.id path.operationKey issuedAt,
      grantExpiry v (path.ttlSeconds v) issuedAt + reservationSettlementSeconds * 1000 ≤ r.expiresAt) : t.Inv := by
  unfold Broker.reserve at hs
  cases hv : s.db.volume? i.volumeId with
  | none =>
    rw [hv] at hs
    cases hs
  | some v =>
    rw [hv] at hs hg
    obtain ⟨hmem, hvid⟩ := mem_of_volume? hv
    dsimp only at hs
    split at hs
    case isFalse => cases hs
    case isTrue hguard =>
      obtain ⟨hi, htaken, hnow, hwithin, _, _, _, _, hobserved, hfresh⟩ := hguard
      have hdb : Inv { s with db := s.db.updateVolume v.id fun v => { v with observedSizeBytes := i.observedSizeBytes } } :=
        h.settled (fun _ => False) (settles_updateVolume v.id fun w => ⟨rfl, rfl, rfl, rfl, rfl⟩)
      cases hreplay : s.replayed? v.id path.operationKey issuedAt with
      | some r =>
        rw [hreplay] at hs
        cases hs
        obtain ⟨hr, hrvolume⟩ := replayed?_some hreplay
        apply hdb.asked
        exact ⟨r, hr, rfl, hrvolume, hg v rfl r hreplay, Nat.le_refl _⟩
      | none =>
        rw [hreplay] at hs
        dsimp only at hs
        split at hs
        case isFalse => cases hs
        case isTrue hroom =>
          cases hs
          -- no earlier reservation is live for this request, or nothing would be left
          have hended : ∀ p ∈ s.reservationsOf v.id, p.expiresAt ≤ issuedAt := by
            by_contra hnot
            push Not at hnot
            obtain ⟨p, hp, hlive⟩ := hnot
            have hcounted : ∀ q ∈ s.reservationsOf v.id, q.expiresAt ≤ issuedAt →
                storedBytes i.revisions q.id = storedBytes s.revisions q.id := by
              intro q hq hqend
              obtain ⟨hqmem, hqvolume⟩ := mem_reservationsOf.mp hq
              apply h.final i hi q hqmem
              refine ⟨hvid.symm.trans hqvolume.symm, ?_⟩
              omega
            have hobserved : ((s.reservationsOf v.id).map fun q => storedBytes i.revisions q.id).sum ≤ i.observedSizeBytes := by
              rw [h.observed_eq_sum hi, hvid]
            exact absurd hroom.2 (Nat.not_lt.mpr (outstanding_fills (h.ordered v hmem) hcounted hobserved ⟨p, hp, hlive⟩))
          have hzero : s.outstandingBytes v.id i.observedSizeBytes issuedAt = 0 := by
            apply sumWhere_eq_zero
            intro p hp hlive
            exact absurd (of_decide_eq_true hlive) (not_lt.mpr (hended p hp))
          have hvolumes : ∃ w ∈ (s.db.updateVolume v.id fun v => { v with observedSizeBytes := i.observedSizeBytes }).volumes,
              w.id = v.id ∧ w.sizeLimitBytes = v.sizeLimitBytes := by
            refine ⟨if decide (v.id = v.id) then { v with observedSizeBytes := i.observedSizeBytes } else v,
              List.mem_map_of_mem hmem, ?_⟩
            rw [if_pos (decide_eq_true rfl)]
            exact ⟨rfl, rfl⟩
          obtain ⟨w, hw, hwid, hwsize⟩ := hvolumes
          have hreserved := hdb.reserved_new (r := ⟨id, v.id, path.operationKey, s.attempt v.id path.operationKey,
            i.observedSizeBytes, v.sizeLimitBytes - i.observedSizeBytes - s.outstandingBytes v.id i.observedSizeBytes issuedAt,
            issuedAt, grantExpiry v (path.ttlSeconds v) issuedAt + reservationSettlementSeconds * 1000⟩)
            hw hi (hvid.symm.trans hwid.symm) hwid.symm hfresh ?_ rfl ?_
          · exact hreserved.asked ⟨_, List.mem_cons_self, rfl, rfl, le_rfl, Nat.le_refl _⟩
          · show v.sizeLimitBytes - i.observedSizeBytes - s.outstandingBytes v.id i.observedSizeBytes issuedAt +
              i.observedSizeBytes = w.sizeLimitBytes
            rw [hzero, hwsize]
            omega
          · intro p hp
            have hp' := hended p (hwid ▸ hp)
            omega

theorem Inv.signed {issue : Issue} (h : s.Inv) (hs : s.issueGrant issue = some t) : t.Inv := by
  unfold issueGrant at hs
  dsimp only at hs
  split at hs
  case isFalse => cases hs
  case isTrue hguard =>
    cases hs
    obtain ⟨r, hr, hcovers⟩ := h.issues issue hguard.1
    have hcut : issue.capabilityExpiresAt / 1000 * 1000 ≤ issue.capabilityExpiresAt := Int.ediv_mul_le _ (by decide)
    refine ⟨h.volumes, h.reserved, h.volume, h.issues, ?_, ?_, ?_, h.revisions, h.bounded, h.inspected, h.final, h.ordered⟩
    · intro c hc
      rcases List.mem_cons.mp hc with rfl | hc
      · have hexpires := hcovers.expiresAt
        refine ⟨r, hr, hcovers.id, hcovers.volumeId, ?_, (Nat.min_le_left _ _).trans hcovers.maximumBytes⟩
        show issue.capabilityExpiresAt / 1000 * 1000 + reservationSettlementSeconds * 1000 ≤ r.expiresAt
        omega
      · exact h.minted c hc
    · intro c hc
      exact List.mem_cons_of_mem _ (h.handedOut c hc)
    · intro u hu
      exact ⟨List.mem_cons_of_mem _ (h.uploads u hu).1, (h.uploads u hu).2⟩

theorem Inv.marked {c : Capability} {readAt : ℤ} (h : s.Inv) (hs : s.markIssued c readAt = some t) : t.Inv := by
  unfold markIssued at hs
  split at hs
  case isFalse => cases hs
  case isTrue hguard =>
    cases hs
    refine ⟨h.volumes, h.reserved, h.volume, h.issues, h.minted, ?_, h.uploads, h.revisions, h.bounded, h.inspected,
      h.final, h.ordered⟩
    intro d hd
    rcases List.mem_cons.mp hd with rfl | hd
    · exact hguard.1
    · exact h.handedOut d hd

theorem Inv.started {c : Capability} {contentLength : ℕ} (h : s.Inv) (hs : s.startUpload c contentLength = some t) :
    t.Inv := by
  unfold startUpload at hs
  split at hs
  case isFalse => cases hs
  case isTrue hguard =>
    cases hs
    refine ⟨h.volumes, h.reserved, h.volume, h.issues, h.minted, h.handedOut, ?_, h.revisions, h.bounded, h.inspected,
      h.final, h.ordered⟩
    intro u hu
    rcases List.mem_cons.mp hu with rfl | hu
    · exact ⟨h.handedOut c hguard.1, hguard.2.2.2.1⟩
    · exact h.uploads u hu

theorem Inv.inspects (h : s.Inv) (hs : s.inspect volumeId = some t) : t.Inv := by
  unfold inspect at hs
  dsimp only at hs
  split at hs
  case isFalse => cases hs
  case isTrue =>
    cases hs
    refine ⟨h.volumes, h.reserved, h.volume, h.issues, h.minted, h.handedOut, h.uploads, h.revisions, h.bounded, ?_, ?_, ?_⟩
    · intro i hi
      rcases List.mem_cons.mp hi with rfl | hi
      · refine ⟨le_rfl, ?_⟩
        intro v hv
        obtain ⟨hmem, hvolume⟩ := List.mem_filter.mp hv
        obtain ⟨r, hr, hid, hrv⟩ := h.revisions v hmem
        exact ⟨r, hr, hid, hrv.trans (of_decide_eq_true hvolume)⟩
      · exact h.inspected i hi
    · intro i hi r hr hend
      rcases List.mem_cons.mp hi with rfl | hi
      · -- the listing has every revision of the reservation, as all of them are the volume's
        show storedBytes (s.revisions.filter fun v => decide (v.volumeId = volumeId)) r.id = storedBytes s.revisions r.id
        have hvolume : volumeId = r.volumeId := hend.1
        have hall : ∀ v ∈ s.revisions, v.reservationId = r.id → v.volumeId = volumeId := by
          intro v hv hid
          obtain ⟨p, hp, hpid, hpv⟩ := h.revisions v hv
          obtain rfl := key_inj h.reserved hp hr (hpid.trans hid)
          exact hpv.symm.trans hvolume.symm
        exact storedBytes_filter fun v hv hid => decide_eq_true (hall v hv hid)
      · exact h.final i hi r hr hend
    · intro v hv
      exact ordered_congr (h.ordered v hv) (fun i hi => List.mem_cons_of_mem _ hi) fun _ _ _ _ _ => rfl

theorem Inv.created {input : CreateInput} {createdAt : ℤ} {affordable : Bool} (h : s.Inv)
    (hs : s.create input id createdAt affordable = some t) : t.Inv := by
  unfold Broker.create at hs
  cases hrequest : validateCreate input with
  | error error =>
    rw [hrequest] at hs
    cases hs
    exact h
  | ok request =>
    rw [hrequest] at hs
    dsimp only at hs
    split at hs
    case isFalse => cases hs
    case isTrue hguard =>
      split at hs
      · cases hs
        exact h.inserted hguard.2
      · cases hs
        exact h

theorem Inv.step {a : BrokerAction} (h : s.Inv) (hs : brokerStep s a = some t) (hg : Settled s a t) : t.Inv := by
  cases a with
  | tick now =>
    unfold brokerStep at hs
    dsimp only at hs
    split at hs
    case isFalse => cases hs
    case isTrue hle =>
      cases hs
      refine ⟨h.volumes, h.reserved, h.volume, h.issues, h.minted, h.handedOut, h.uploads, h.revisions, h.bounded, ?_,
        h.final, h.ordered⟩
      intro i hi
      exact ⟨(h.inspected i hi).1.trans hle, (h.inspected i hi).2⟩
  | create input id createdAt affordable => exact h.created hs
  | remove id organizationId projectId requestedAt observedSizeBytes =>
    cases hs
    exact h.settled (fun _ => False)
      (settles_enqueueDeletion id organizationId projectId requestedAt observedSizeBytes)
  | inspect volumeId => exact h.inspects hs
  | reserve path i issuedAt id affordable => exact h.reserve hs hg
  | issueGrant issue => exact h.signed hs
  | markIssued c readAt => exact h.marked hs
  | startUpload c contentLength => exact h.started hs
  | commitUpload u => exact h.committed hs hg
  | deleteFailedUpload u => exact h.takenBack hs hg

theorem inv_emptyBroker (organizations : List Organization) (projects : List Project) (now : ℤ) :
    (emptyBroker organizations projects now).Inv where
  volumes := List.nodup_nil
  reserved := List.nodup_nil
  volume _ hr := nomatch hr
  issues _ hi := nomatch hi
  minted _ hc := nomatch hc
  handedOut _ hc := nomatch hc
  uploads _ hu := nomatch hu
  revisions _ hv := nomatch hv
  bounded _ hr := nomatch hr
  inspected _ hi := nomatch hi
  final _ hi := nomatch hi
  ordered _ hv := nomatch hv

/-- The newest reservation and what the earlier ones hold fill the allocation, and it stores no more than it may. -/
theorem Inv.within (h : s.Inv) : s.WithinAllocation where
  bytes := by
    intro v hv
    have hkeys : s.volumeBytes v.id ≤ ((s.reservationsOf v.id).map fun p => storedBytes s.revisions p.id).sum := by
      have hmap : ((s.reservationsOf v.id).map fun p => storedBytes s.revisions p.id) =
          ((s.reservationsOf v.id).map Reservation.id).map (storedBytes s.revisions) := by
        rw [List.map_map]
        rfl
      rw [hmap]
      apply sumWhere_le_sum_keys
      · intro w hw hwv
        obtain ⟨r, hr, hid, hvolume⟩ := h.revisions w hw
        rw [← hid]
        exact List.mem_map_of_mem (mem_reservationsOf.mpr ⟨hr, hvolume.trans (of_decide_eq_true hwv)⟩)
      · exact fun _ _ => Nat.zero_le _
    apply hkeys.trans
    have hordered := h.ordered v hv
    cases hrs : s.reservationsOf v.id with
    | nil => exact Nat.zero_le _
    | cons r older =>
      rw [hrs] at hordered
      obtain ⟨hmax, hobs, _⟩ := hordered
      have hr : r ∈ s.reservationsOf v.id := hrs ▸ List.mem_cons_self
      have hbounded := h.bounded r (mem_reservationsOf.mp hr).1
      rw [List.map_cons, List.sum_cons]
      omega
  settlement := by
    intro c hc r hr hid
    obtain ⟨p, hp, hcovers⟩ := h.minted c (h.handedOut c hc)
    obtain rfl := key_inj h.reserved hr hp (hid.trans hcovers.id.symm)
    exact hcovers.expiresAt

end Steps

end Broker

/-- **A volume never holds more than its allocation**, in every run that replays a create only while its reservation
covers the new expiry, and in which the store is settled by the time that a capability expires. -/
theorem volume_within_allocation {organizations : List Organization} {projects : List Project} {start : ℤ}
    {actions : List BrokerAction} {s : Broker}
    (h : RunIn (fun s a t => brokerStep s a = some t) Settled (emptyBroker organizations projects start) actions s) :
    s.WithinAllocation :=
  (h.invariant (fun _ _ _ hi hs hg => hi.step hs hg) (Broker.inv_emptyBroker organizations projects start)).within

def sampleBroker : Broker :=
  emptyBroker [⟨"00000000-0000-4000-8000-00000000000a", 1⟩]
    [⟨"00000000-0000-4000-8000-00000000000b", "00000000-0000-4000-8000-00000000000a", 1⟩] 0

def sampleCapability (reservationId : String) (issuedAt expiresAt reservationExpiresAt : ℤ) (maximumBytes : ℕ) : Capability :=
  ⟨"vol_1", reservationId, maximumBytes, issuedAt, expiresAt, reservationExpiresAt, maximumBytes⟩

/-- The grant of a request that was issued at `issuedAt`, whose reservation is `reservationId`. -/
def sampleGrantSteps (reservationId : String) (issuedAt expiresAt reservationExpiresAt : ℤ) (maximumBytes : ℕ) :
    List BrokerAction :=
  [.issueGrant ⟨"vol_1", reservationId, maximumBytes, issuedAt, expiresAt, reservationExpiresAt⟩,
    .markIssued (sampleCapability reservationId issuedAt expiresAt reservationExpiresAt maximumBytes) issuedAt]

/-- Two uploads, the second with the bytes that the first one left. -/
theorem volume_within_allocation_sample : ∃ s : Broker, s.volumeBytes "vol_1" = 1048576 ∧ s.WithinAllocation := by
  have hrun : ∃ s, RunIn (fun s a t => brokerStep s a = some t) Settled sampleBroker
      ([.create (sampleCreate "first") "vol_1" 0 true, .inspect "vol_1",
        .reserve .create ⟨"vol_1", [], 0⟩ 0 "r1" true] ++ sampleGrantSteps "r1" 0 300000 360000 1048576 ++
        [.startUpload (sampleCapability "r1" 0 300000 360000 1048576) 1000000,
          .commitUpload ⟨sampleCapability "r1" 0 300000 360000 1048576, 1000000⟩, .tick 360000, .inspect "vol_1",
          .reserve (.grant none) ⟨"vol_1", [⟨"vol_1", "r1", 1000000⟩], 360000⟩ 360000 "r2" true] ++
        sampleGrantSteps "r2" 360000 660000 720000 48576 ++
        [.startUpload (sampleCapability "r2" 360000 660000 720000 48576) 48576,
          .commitUpload ⟨sampleCapability "r2" 360000 660000 720000 48576, 48576⟩]) s ∧
      s.volumeBytes "vol_1" = 1048576 := RunIn.of_test (by decide +kernel)
  obtain ⟨s, hrun, hbytes⟩ := hrun
  exact ⟨s, hbytes, volume_within_allocation hrun⟩

/-- A create that is replayed a minute later gets a capability that lives as long as the old reservation.  An upload
under it comes after an inspection that is used when the reservation has just expired, and the volume is granted
twice. -/
theorem volume_over_allocation : ∃ actions s, Run (fun s a t => brokerStep s a = some t) sampleBroker actions s ∧
    ¬s.WithinAllocation := by
  have hrun : ∃ s, Run (fun s a t => brokerStep s a = some t) sampleBroker
      ([.create (sampleCreate "first") "vol_1" 0 true, .inspect "vol_1", .reserve .create ⟨"vol_1", [], 0⟩ 0 "r1" true,
          .tick 60000, .create (sampleCreate "first") "vol_2" 60000 true, .inspect "vol_1",
          .reserve .create ⟨"vol_1", [], 60000⟩ 60000 "unused" true] ++
        sampleGrantSteps "r1" 60000 360000 360000 1048576 ++
        [.tick 359000, .inspect "vol_1", .startUpload (sampleCapability "r1" 60000 360000 360000 1048576) 1048576,
          .commitUpload ⟨sampleCapability "r1" 60000 360000 360000 1048576, 1048576⟩, .tick 360000,
          .reserve (.grant none) ⟨"vol_1", [], 359000⟩ 360000 "r2" true] ++
        sampleGrantSteps "r2" 360000 660000 720000 1048576 ++
        [.startUpload (sampleCapability "r2" 360000 660000 720000 1048576) 1048576,
          .commitUpload ⟨sampleCapability "r2" 360000 660000 720000 1048576, 1048576⟩]) s ∧
      ∃ v ∈ s.db.volumes, v.sizeLimitBytes < s.volumeBytes v.id := Run.of_test (by decide +kernel)
  obtain ⟨s, hrun, v, hv, hover⟩ := hrun
  refine ⟨_, s, hrun, ?_⟩
  intro hwithin
  exact absurd (hwithin.bytes v hv) (Nat.not_le.mpr hover)

end Nehemiah.Volumes
