import Nehemiah.Control.Calls

/-!
# Host capacity

The reservations of a host are what its machines hold, in every state that any interleaving leads to
(`capacity_conserved`).  So no release gives back more than is reserved, and the system without the clamps
`GREATEST(0, …)` has the same runs.  A placement and a fork fit into what is free, hence the reservations
stay within the totals for as long as no total shrinks.
-/

namespace Nehemiah.Control

open Billing (MachineState HostState HostDesiredState CredentialStatus)
open Lib

variable {policy : BillingAdmissionPolicy} {w w' : World}

/-! ### The clamps -/

/-- The clamps have nothing to do in a step of the system. -/
theorem Sound.step_clamp (h : Sound w) (a : Act) :
    w.step policy greatest0 a = w.step policy (fun n => n) a := by
  have hk := h.balanced.toKeyed
  cases a with
  | call i answer =>
    simp only [World.step]
    split
    · rfl
    · next c hc => rw [next_clamp h.balanced (h.calls c (List.mem_of_getElem? hc))]
  | failFork operationId failure =>
    simp only [World.step, Db.failFork]
    cases ho : w.db.forkOperation? operationId with
    | none => rfl
    | some o =>
      dsimp only
      split_ifs with hp
      · rfl
      · simp only [not_or, not_not] at hp
        rw [h.balanced.settleFork_clamp (hk.forkOperation?_iff.mp ho).1 hp.1]
  | completeForkCleanup operationId token =>
    simp only [World.step, Db.completeForkCleanup]
    cases ho : w.db.forkOperation? operationId with
    | none => rfl
    | some o =>
      dsimp only
      split_ifs with hp
      · rfl
      · simp only [not_or, not_not] at hp
        cases o.cleanupFailure with
        | none => rfl
        | some failure =>
          dsimp only
          rw [h.balanced.settleFork_clamp (hk.forkOperation?_iff.mp ho).1 hp.1]
  | _ => rfl

variable {a : Act} {as : List Act} {db : Db}

theorem Sound.unclamped (h : Sound w) (hs : Step policy greatest0 w a w') : Step policy (fun n => n) w a w' :=
  (h.step_clamp a).symm.trans hs

/-- **A step of the system** has one of the effects. -/
theorem Sound.effect (h : Sound w) (hs : Step policy greatest0 w a w') :
    Effect policy w.now w.db a w'.db := (h.moves (h.unclamped hs)).effect

theorem Sound.step (h : Sound w) (hs : Step policy greatest0 w a w') : Sound w' := by
  have hm := h.moves (h.unclamped hs)
  exact ⟨hm.effect.balanced h.balanced, hm.calls⟩

theorem Sound.empty (now : ℤ) : Sound (World.empty now) := by
  refine ⟨⟨⟨List.nodup_nil, List.nodup_nil, List.nodup_nil⟩, ?_, ?_, ?_, ?_, ?_, ?_, ?_⟩, ?_⟩
  all_goals exact fun _ hx => by cases hx

theorem Sound.run {now : ℤ} (h : Run (Step policy greatest0) (World.empty now) as w) : Sound w :=
  h.invariant (fun _ _ _ hw hs => hw.step hs) (.empty now)

/-- The runs of the system are runs of the system without the clamps. -/
theorem Sound.run_unclamped (h : Sound w) (hr : Run (Step policy greatest0) w as w') :
    Run (Step policy fun n => n) w as w' := by
  induction hr with
  | nil w => exact .nil w
  | cons hs _ ih => exact .cons (h.unclamped hs) (ih (h.step hs))

/-! ### Totals -/

/-- The reservations of every host are within its totals. -/
def Within (db : Db) : Prop := ∀ x ∈ db.hosts, x.reserved ≤ x.total

/-- No total shrinks. -/
def TotalsKept (w : World) (_ : Act) (w' : World) : Prop :=
  ∀ x ∈ w.db.hosts, ∀ x' ∈ w'.db.hosts, x'.id = x.id → x.total ≤ x'.total

theorem Within.reserve (h : Within db) (hk : Keyed db) {host : HostRow} (hhost : db.host? host.id = some host)
    {need : Resources} (hfits : need.fits host.free = true) :
    Within (db.modifyHost host.id (HostRow.reserve need)) := by
  refine forall_updateWhere h fun x hx hid r => ?_
  obtain rfl : x = host := key_inj hk.hosts hx (hk.host?_iff.mp hhost).1 (of_decide_eq_true hid)
  simp only [Resources.fits, decide_eq_true_eq] at hfits
  have hle : need r ≤ x.total r - x.reserved r := (hfits r).trans (min_le_left _ _)
  show x.reserved r + need r ≤ x.total r
  omega

theorem Within.giveBack (h : Within db) {hostId : String} {given : Resources} (hnonneg : 0 ≤ given) :
    Within (db.modifyHost hostId (HostRow.giveBack (fun n => n) given)) := by
  refine forall_updateWhere h fun x hx _ r => ?_
  have hle : x.reserved r ≤ x.total r := h x hx r
  have hpos : 0 ≤ given r := hnonneg r
  show x.reserved r - given r ≤ x.total r
  omega

theorem Within.putHost (h : Within db) (hk : Keyed db) {row : HostRow} (hpos : 0 ≤ row.total)
    (hkept : ∀ x ∈ db.hosts, ∀ x' ∈ (db.putHost row).hosts, x'.id = x.id → x.total ≤ x'.total) :
    Within (db.putHost row) := by
  cases hx : db.host? row.id with
  | some x =>
    obtain ⟨hmem, hid⟩ := hk.host?_iff.mp hx
    have hput : db.putHost row = db.modifyHost row.id fun _ => { row with reserved := x.reserved } := by
      simp only [Db.putHost, hx]
    rw [hput] at hkept ⊢
    refine forall_updateWhere h fun _ _ _ => (h x hmem).trans ?_
    refine hkept x hmem { row with reserved := x.reserved } (mem_updateWhere.mpr ⟨x, hmem, ?_⟩) hid.symm
    exact if_pos (decide_eq_true hid)
  | none =>
    simp only [Db.putHost, hx]
    intro x hx
    obtain hx | hx := List.mem_append.mp hx
    · exact h x hx
    · exact List.mem_singleton.mp hx ▸ hpos

theorem Effect.within {now : ℤ} {db' : Db} (hb : Balanced db) (h : Within db)
    (hkept : ∀ x ∈ db.hosts, ∀ x' ∈ db'.hosts, x'.id = x.id → x.total ≤ x'.total) (e : Effect policy now db a db') :
    Within db' := by
  have hk := hb.toKeyed
  cases e with
  | around _ _ _ hh => exact fun x hx => h x (hh ▸ hx)
  | @organization row => exact fun x hx => h x ((putOrganization_only db row).hosts ▸ hx)
  | project _ _ hp => exact fun x hx => h x ((putProject_only hp).hosts ▸ hx)
  | host hpos => exact h.putHost hk hpos hkept
  | quiet hw =>
    obtain ⟨p, f, rfl, -⟩ := hw
    exact h
  | insert _ hi =>
    unfold Db.insertRequested at hi
    split_ifs at hi
    cases hi
    exact h
  | reserve _ _ _ _ _ hr =>
    obtain ⟨-, host, m, hhost, hs, -, -, rfl⟩ := reserve_ok hr
    obtain ⟨-, hid⟩ := hk.host?_iff.mp hhost
    simp only [HostRow.schedulable, Bool.and_eq_true] at hs
    rw [← hid] at hhost ⊢
    exact h.reserve hk hhost hs.2
  | @release _ id hostId m hm _ _ =>
    unfold Control.release
    rw [hm]
    dsimp only
    split_ifs
    · exact h
    · exact @Within.giveBack (db.setMachine _) h _ _ (hb.nonneg m (hk.machine?_iff.mp hm).1)
  | beginExtend hx =>
    obtain ⟨-, hh, -⟩ := beginExtend_tables hx
    exact fun x hx => h x (hh ▸ hx)
  | completeExtend hx =>
    obtain ⟨-, -, -, -, -, -, rfl | rfl⟩ := completeExtend_ok hx
    exacts [h, h]
  | beginFork hf =>
    obtain ⟨rfl, -⟩ | ⟨_, _, source, host, _, -, -, -, -, hhost, -, -, -, -, -, -, hfits, rfl, -, rfl⟩ :=
      beginFork_ok hf
    · exact h
    · exact @Within.reserve db h hk _ hhost _ hfits
  | operation _ _ _ _ hw =>
    obtain ⟨p, f, rfl, -⟩ := hw
    exact h
  | settleFork ho hs =>
    exact @Within.giveBack db h _ _ (sumWhere_nonneg fun m hm _ => hb.nonneg m hm)

theorem within_run {now : ℤ} (h : RunIn (Step policy greatest0) TotalsKept (World.empty now) as w) : Within w.db := by
  have hinv : Sound w ∧ Within w.db := by
    refine h.invariant (I := fun w => Sound w ∧ Within w.db) ?_ ⟨.empty now, fun _ hx => by cases hx⟩
    intro w a w' ⟨hsound, hwithin⟩ hs hkept
    exact ⟨hsound.step hs, (hsound.effect hs).within hsound.balanced hwithin hkept⟩
  exact hinv.2

/-! ### Conservation -/

/-- **Host capacity is conserved.** -/
theorem capacity_conserved {as : List Act} {now : ℤ}
    (h : Run (Step policy greatest0) (World.empty now) as w) :
    (∀ x ∈ w.db.hosts, ∀ r, x.reserved r = sumWhere (holdsOn x.id) (fun m => m.resources r) w.db.machines) ∧
    Run (Step policy fun n => n) (World.empty now) as w ∧
    (RunIn (Step policy greatest0) TotalsKept (World.empty now) as w →
      ∀ x ∈ w.db.hosts, ∀ r, x.reserved r ≤ x.total r) := by
  refine ⟨fun x hx r => ?_, (Sound.empty now).run_unclamped h, fun hkept x hx => within_run hkept x hx⟩
  rw [(Sound.run h).balanced.reserved x hx]
  exact sumWhere_apply r

/-! A run with a placement that is refused by its host and one that is not. -/

def freeOfCharge : BillingAdmissionPolicy := ⟨fun _ => 0, "standard", fun n => n⟩

def smallHost : HostRow :=
  { id := "h"
    region := "eu"
    architecture := .x8664
    state := .ready
    desiredState := .active
    credentialStatus := .active
    lastHeartbeatAt := some 0
    total := .of 2 1024 2048
    reserved := 0
    reportedAvailable := fun _ => none }

def smallMachine (idempotencyKey : String) : CreateMachine :=
  { organizationId := "o"
    projectId := "p"
    region := "eu"
    architecture := .x8664
    resources := .of 1 512 1024
    image := .template "base"
    ttlSeconds := 60
    idempotencyKey := idempotencyKey }

/-- Two machines fit into the limits. -/
def twoMachines : Limits := ⟨2, .of 2 1024 2048⟩

/-- The start of a machine whose call is the `i`-th, up to its placement. -/
def placing (i : ℕ) (name : String) : List Act :=
  [.create (smallMachine name), .call i (.identity name name 0), .call i .none, .call i (.token name),
    .call i (.placement ⟨0, 0, 0⟩ (some "h"))]

/-- What the host answers is of no matter when it refuses. -/
def noAnswer : HostMachine := ⟨"", .creating, "", "", none, none, 0, false, none, none⟩

def refusedAndPlaced : List Act :=
  [.host smallHost, .organization ⟨"o", twoMachines⟩, .project ⟨"p", "o", twoMachines⟩] ++ placing 0 "a"
    ++ placing 1 "b" ++ [.call 0 (.host .refused noAnswer), .call 0 .none, .call 0 .none]

theorem capacity_conserved_refusedAndPlaced :
    ∃ w, Run (Step freeOfCharge greatest0) (World.empty 0) refusedAndPlaced w ∧
      w.db.machines.map (fun m => (m.id, m.state, m.reservationReleasedAt.isSome)) =
        [("a", .failed, true), ("b", .starting, false)] ∧
      w.db.hosts.map (·.reserved .memoryMb) = [512] ∧
      ∀ x ∈ w.db.hosts, ∀ r, x.reserved r = sumWhere (holdsOn x.id) (fun m => m.resources r) w.db.machines := by
  have hsome : (exec (World.step freeOfCharge greatest0) (World.empty 0) refusedAndPlaced).isSome = true := by
    decide +kernel
  obtain ⟨w, hw⟩ := Option.isSome_iff_exists.mp hsome
  have hfinal : (exec (World.step freeOfCharge greatest0) (World.empty 0) refusedAndPlaced).map
      (fun w => (w.db.machines.map (fun m => (m.id, m.state, m.reservationReleasedAt.isSome)),
        w.db.hosts.map (·.reserved .memoryMb))) =
      some ([("a", .failed, true), ("b", .starting, false)], [512]) := by
    decide +kernel
  rw [hw, Option.map_some, Option.some.injEq, Prod.mk.injEq] at hfinal
  have hrun : Run (Step freeOfCharge greatest0) (World.empty 0) refusedAndPlaced w := .of_exec hw
  exact ⟨w, hrun, hfinal.1, hfinal.2, (capacity_conserved hrun).1⟩

end Nehemiah.Control
