import Nehemiah.Host.Custody

/-!
# No lease vanishes

Every document that the daemon puts on disk follows all the earlier ones, crashes and restarts included,
as long as no commit of a partly rebuilt registry and no commit that is taken back after it is on disk
comes in between (`leases_kept`).
-/

namespace Nehemiah.Host

open Billing Manager Lib

/-- A live lease of the document is not in the registry yet. -/
def Phase.waiting (phase : Phase) : Bool := phase.remaining.any (·.live)

/-- The steps that put no lease at risk: a restart accepts the document; while one of its live leases is
not in the registry yet, no machine becomes ready and none expires; a create that comes back from its boot
finds no other machine under its id; and what a create or a checkpoint takes back is not on disk. -/
def LeasesSafe (cfg : Config) (d : Daemon) (a : Act) (_ : Daemon) : Prop :=
  let mgr := d.manager
  match a with
  | .boot _ available now _ => validSnapshot cfg mgr.store.load.2 available now = true
  | .ready id _ _ => d.phase.waiting = true → (mgr.find id).all (fun r => (mgr.objects r).ready) = true
  | .reap id _ _ _ => d.phase.waiting = true → mgr.find id = none
  | .createAbandon i _ _ _ => (d.placeholder i).all (fun r =>
      mgr.current r || !mgr.registered (mgr.objects r).id) = true
  | .createPublish i driver _ reading _ fault _ => (d.placeholder i).all (fun r =>
      (mgr.current r || !mgr.registered (mgr.objects r).id)
        && !(fault == .afterRename && mgr.current r && metered (mgr.objects r).toMachineRecord
          && !mgr.givesUp r driver reading .none)) = true
  | .checkpoint order _ _ fault => fault = .afterRename → order = []
  | _ => True

instance (cfg : Config) (d : Daemon) (a : Act) (d' : Daemon) : Decidable (LeasesSafe cfg d a d') := by
  apply Act.casesOn (motive := fun a => Decidable (LeasesSafe cfg d a d')) a <;> intros
    <;> dsimp only [LeasesSafe] <;> infer_instance

/-- The documents follow each other, and the registry, or during a restart the document in hand, holds
every lease of theirs. -/
structure Daemon.Kept (d : Daemon) : Prop where
  flights : d.Flights
  archived : d.manager.Archived
  whole : d.up → d.phase.waiting = false → d.manager.Custody
  rebuilding : ∀ {loaded doc operations index started},
    d.phase = .reconciling loaded doc operations index started → d.phase.waiting = true →
      Rebuilding d.manager doc index
  quiet : d.phase.waiting = true ∨ d.phase = .down → d.teardowns = []

section Steps

variable {cfg : Config} {d d' : Daemon} {a : Act}

theorem waiting_of_remaining {phase : Phase} (h : phase.remaining = []) : phase.waiting = false := by
  rw [Phase.waiting, h]
  rfl

theorem remaining_of_past {phase : Phase} (h : phase.past) : phase.remaining = [] := by
  cases phase <;> first | rfl | cases h

/-- Not waiting any more, the registry is whole. -/
theorem kept_of_custody (hflights : d.Flights) (hcustody : d.manager.Custody) (hup : d.up)
    (hwaiting : d.phase.waiting = false) : d.Kept := by
  refine ⟨hflights, hcustody.toArchived, fun _ _ => hcustody, fun _ hw => ?_, fun hq => ?_⟩
  · rw [hwaiting] at hw
    cases hw
  · rcases hq with hw | hdown
    · rw [hwaiting] at hw
      cases hw
    · exact absurd hdown hup

variable {loaded : List PersistedMachine} {doc : MachineStateSnapshot} {operations : List PersistedForkOperation}
    {index : ℕ} {started : Time}

theorem waiting_remaining :
    (Phase.reconciling loaded doc operations index started).waiting = false ↔
      ∀ p ∈ doc.machines.drop index, p.live = false := by
  show (doc.machines.drop index).any (fun p => p.live) = false ↔ _
  rw [List.any_eq_false]
  exact forall₂_congr fun p _ => by rw [Bool.not_eq_true]

/-- A restart that goes on. -/
theorem kept_of_rebuilding (hflights : d.Flights) (hphase : d.phase = .reconciling loaded doc operations index started)
    (hrebuilding : Rebuilding d.manager doc index) (hquiet : d.teardowns = []) : d.Kept := by
  have hup : d.phase ≠ .down := by
    rw [hphase]
    exact Phase.noConfusion
  refine ⟨hflights, hrebuilding.toArchived, fun _ hw => ?_, fun hp _ => ?_, fun _ => hquiet⟩
  · rw [hphase] at hw
    exact hrebuilding.custody (waiting_remaining.mp hw)
  · rw [hphase] at hp
    cases hp
    exact hrebuilding

/-- A process that ends leaves its documents. -/
theorem exit_kept (h : d.manager.Archived) : d.exit.Kept := by
  refine ⟨exit_flights d, h.of_disk rfl rfl, fun hup => absurd rfl hup, fun hp _ => ?_, fun _ => rfl⟩
  cases hp

theorem exit_kept_of {x : Manager} (h : x.Archived) : ((d.withManager x).exit).Kept :=
  exit_kept (d := d.withManager x) h

/-- While the restart waits, only a crash or the next machine of the document changes the manager. -/
theorem waiting_step (h : d.Kept) (hwaiting : d.phase.waiting = true) (hs : Stepped cfg d a d')
    (hg : LeasesSafe cfg d a d') (hstart : d.starting a = none) (hup : d'.up) : d' = d := by
  have hserving : ∀ {p : Prop}, d.phase = .serving → p := fun hp => by
    rw [hp] at hwaiting
    cases hwaiting
  have hother : ∀ {phase : Phase} {p : Prop}, d.phase = phase → phase.waiting = false → p := fun hp hw => by
    rw [hp, hw] at hwaiting
    cases hwaiting
  cases hs with
  | boot _ _ _ _ hp => exact hother hp rfl
  | crash _ => exact absurd rfl hup
  | ready id now fault hp =>
    have hready := hg hwaiting
    show d.withManager (d.manager.becomeReady cfg id now fault) = d
    have hsame : d.manager.becomeReady cfg id now fault = d.manager := by
      simp only [becomeReady]
      cases hr : d.manager.find id with
      | none => rfl
      | some r =>
        rw [hr, Option.all_some] at hready
        exact if_pos hready
    rw [hsame]
    rfl
  | reap id reading now fault hp =>
    have hnone := hg hwaiting
    show d.stopped (d.manager.reap cfg id reading now fault) = d
    simp only [reap]
    rw [hnone]
    rfl
  | teardown i r verified now fault hp hr =>
    rw [h.quiet (Or.inl hwaiting)] at hr
    cases hr
  | reconcileNext => cases hstart
  | reconcileForks loaded doc operations index started readings hp hi =>
    refine hother hp (waiting_of_remaining ?_)
    exact List.drop_eq_nil_of_le hi
  | reconcileCommit _ _ _ _ hp => exact hother hp rfl
  | releaseHeld _ _ _ _ hp => exact hother hp rfl
  | serve hp => exact hother hp rfl
  | destroy _ _ _ _ hp => exact hserving hp
  | extend _ _ _ _ _ _ hp => exact hserving hp
  | checkpoint _ _ _ _ hp => exact hserving hp
  | acknowledge _ _ _ _ hp => exact hserving hp
  | persist _ _ hp => exact hserving hp
  | health _ _ hp => exact hserving hp
  | createBegin _ _ hp => exact hserving hp
  | createReserved _ _ _ _ _ _ _ _ _ hp => exact hserving hp
  | createRefused _ _ _ _ _ _ _ _ _ hp => exact hserving hp
  | createAbandon _ _ _ _ _ _ hp => exact hserving hp
  | createPublish _ _ _ _ _ _ _ _ _ _ _ hp => exact hserving hp
  | createEnd _ _ _ hp => exact hserving hp
  | forkRefused _ _ _ _ _ _ _ hp => exact hserving hp
  | forkReplay _ _ _ _ _ _ _ hp => exact hserving hp
  | forkStarted _ _ _ _ _ _ _ _ _ hp => exact hserving hp
  | forkUnsaved _ _ _ _ _ _ _ _ hp => exact hserving hp
  | forkMoved _ _ _ _ hp => exact hserving hp
  | forkPublish _ _ _ _ _ _ _ _ _ _ _ hp => exact hserving hp
  | forkRollback _ _ _ _ _ _ hp => exact hserving hp
  | forkFinish _ _ _ _ _ _ _ _ _ hp => exact hserving hp
  | forkClose _ _ _ hp => exact hserving hp
  | forkAnswered _ _ _ _ _ _ _ hp => exact hserving hp
  | forkCleaning _ _ _ _ _ _ _ hp => exact hserving hp
  | forkCleaned _ _ hp => exact hserving hp

/-- What is left to be read has no live lease, so the next machine has none. -/
theorem upgraded_dead {p : PersistedMachine} (hp : d.phase = .reconciling loaded doc operations index started)
    (hi : doc.machines[index]? = some p) (hw : d.phase.waiting = false) : (upgraded p).live = false := by
  rw [hp] at hw
  rw [(upgraded_same p).1.live]
  refine waiting_remaining.mp hw p (List.mem_iff_getElem?.mpr ⟨0, ?_⟩)
  rw [List.getElem?_drop, Nat.add_zero]
  exact hi

theorem waiting_next (hp : d.phase = .reconciling loaded doc operations index started) (hw : d.phase.waiting = false)
    (q : PersistedMachine) :
    (Phase.reconciling loaded { doc with machines := doc.machines.set index q } operations
      (index + 1) started).waiting = false := by
  rw [hp] at hw
  rw [waiting_remaining]
  intro p hmem
  rw [List.drop_set_of_lt (Nat.lt_succ_self index)] at hmem
  exact waiting_remaining.mp hw p (List.drop_subset_drop_left doc.machines (Nat.le_succ index) hmem)

/-- A restart that accepts its document. -/
theorem start_kept (h : d.Kept) (bootId : Option String) (available : JailerIdentity → Bool) (now : Time)
    (fault : SaveFault) (hflights : (d.start cfg bootId available now fault).Flights) (hp : d.phase = .down)
    (hvalid : validSnapshot cfg d.manager.store.load.2 available now = true) :
    (d.start cfg bootId available now fault).Kept := by
  set loaded : Manager := { fresh d.manager.store d.manager.saves bootId with
    store := (fresh d.manager.store d.manager.saves bootId).store.load.1 } with hloaded
  set doc := (fresh d.manager.store d.manager.saves bootId).store.load.2 with hdoc
  have hdisk : loaded.store.disk = d.manager.store.disk ∧ doc = d.manager.store.load.2 := by
    have hfile : ∀ s : StateStore, s.load.1.disk = s.disk := fun s => by
      unfold StateStore.load
      split <;> rfl
    refine ⟨hfile _, ?_⟩
    show (StateStore.load { d.manager.store with lastSaved := 0 }).2 = _
    unfold StateStore.load
    cases d.manager.store.disk <;> rfl
  obtain ⟨operations, hops⟩ : ∃ operations, retainedForkOperations cfg doc now = some operations := by
    rw [← hdisk.2] at hvalid
    simp only [validSnapshot, Bool.and_eq_true] at hvalid
    exact Option.isSome_iff_exists.mp hvalid.1.2
  rw [← hdisk.2] at hvalid
  have hstart : d.start cfg bootId available now fault = { d with
      manager := loaded.adopt doc
      phase := .reconciling doc.machines doc operations 0 now } := by
    simp only [Daemon.start]
    rw [← hdoc, hvalid, hops]
  rw [hstart] at hflights ⊢
  have harch : (loaded.adopt doc).Archived := h.archived.of_disk hdisk.1 rfl
  have hlast : (∀ s ∈ (loaded.adopt doc).written, doc.roll.Covers s.roll) ∧
      ∀ p ∈ doc.machines, p.live = true → p.publicId ≠ "" := by
    cases hc : d.manager.store.disk with
    | none =>
      have hnone : d.manager.written = [] := List.getLast?_eq_none_iff.mp (h.archived.disk.symm.trans hc)
      have hempty : doc = emptySnapshot := by
        rw [hdisk.2, StateStore.load, hc]
      refine ⟨fun s hs => ?_, fun p hp => ?_⟩
      · rw [show (loaded.adopt doc).written = d.manager.written from rfl, hnone] at hs
        cases hs
      · rw [hempty] at hp
        cases hp
    | some c =>
      have hfound : doc = c := by
        rw [hdisk.2, StateStore.load, hc]
      obtain ⟨hmem, hcovers⟩ := h.archived.last hc
      rw [hfound]
      exact ⟨hcovers, h.archived.named c hmem⟩
  refine kept_of_rebuilding hflights rfl ⟨harch, hlast.1, fun p hp => ?_, rfl, ⟨[], (List.append_nil _).symm, ?_⟩,
    fun r he => ?_, hlast.2⟩ (h.quiet (Or.inr hp))
  · cases hp
  · exact fun _ ho => (List.not_mem_nil ho).elim
  · cases he

/-- **Every step at which no lease is at risk keeps the invariant.** -/
theorem kept_step (h : d.Kept) (hs : Stepped cfg d a d') (hg : LeasesSafe cfg d a d') : d'.Kept := by
  obtain ⟨hcourse, hflights⟩ := flights_step h.flights hs
  have hcustody : d.phase = .serving → d.manager.Custody := fun hp =>
    h.whole (by rw [Daemon.up, hp]; exact Phase.noConfusion) (by rw [hp]; rfl)
  have hserved : ∀ {removed}, d.phase = .serving → d.Moves a removed d' → d'.manager.Custody → d'.Kept := by
    intro removed hp hmoves hc
    refine kept_of_custody hflights hc hmoves.up ?_
    rcases hmoves.phase with hphase | ⟨_, _, hpast⟩
    · rw [hphase, hp]
      rfl
    · exact waiting_of_remaining (remaining_of_past hpast)
  cases hcourse with
  | «section» scope removed hstart hboots hback hdoes hmoves =>
    by_cases hwaiting : d.phase.waiting = true
    · rw [waiting_step h hwaiting hs hg hstart hmoves.up]
      exact h
    · have hw : d.phase.waiting = false := Bool.eq_false_iff.mpr hwaiting
      have hup : d.up := by
        rcases hmoves.phase with hphase | hpast
        · rw [Daemon.up, ← hphase]
          exact hmoves.up
        · exact hpast.1
      have hhands := does_hands hdoes hboots hback h.flights.placed h.flights.keyed (h.whole hup hw)
      refine kept_of_custody hflights hhands.custody hmoves.up ?_
      rcases hmoves.phase with hphase | ⟨_, _, hpast⟩
      · rw [hphase, hw]
      · exact waiting_of_remaining (remaining_of_past hpast)
  | refused i driver reading now fault task children r ha hr hrefused hmoves =>
    exact ⟨hflights, h.archived, h.whole, h.rebuilding, h.quiet⟩
  | child i driver reading now fault r ok ha hp hr hcurrent hhealthy hidle hm hmoves =>
    have hc := publishChild_custody (hcustody hp) hidle cfg driver reading now fault
    rw [hm] at hc
    exact hserved hp hmoves hc
  | abandoned i reason now fault r ha hp hr hidle hm hmoves =>
    subst ha
    have hkept : (d.placeholder i).all (fun r =>
        d.manager.current r || !d.manager.registered (d.manager.objects r).id) = true := hg
    rw [hr, Option.all_some, Bool.or_eq_true, Bool.not_eq_true'] at hkept
    have hsole := hkept.elim (sole_of_current h.flights.keyed) sole_of_vacant
    refine hserved hp hmoves ?_
    rw [← hm]
    exact (hcustody hp).give_up (hsole r (List.mem_singleton_self r)) hidle cfg _ _ _ now fault
  | published i driver overlayMb reading now fault fault' r ok ha hp hr hidle hm hmoves =>
    subst ha
    have hkept : (d.placeholder i).all (fun r =>
        (d.manager.current r || !d.manager.registered (d.manager.objects r).id)
          && !(fault == .afterRename && d.manager.current r && metered (d.manager.objects r).toMachineRecord
            && !d.manager.givesUp r driver reading .none)) = true := hg
    rw [hr, Option.all_some, Bool.and_eq_true, Bool.or_eq_true, Bool.not_eq_true', Bool.not_eq_true'] at hkept
    have hsole := hkept.1.elim (sole_of_current h.flights.keyed) sole_of_vacant
    have hc := publishCreate_custody (hcustody hp) hidle hsole cfg driver overlayMb reading now fault fault'
      fun hafter => by
        by_cases hcurrent : d.manager.current r = true
        · have hrest := hkept.2
          rw [hafter, hcurrent] at hrest
          by_cases hmetered : metered (d.manager.objects r).toMachineRecord = true
          · rw [hmetered] at hrest
            exact Or.inr (Or.inr (by simpa using hrest))
          · exact Or.inr (Or.inl (Bool.eq_false_iff.mpr hmetered))
        · have hvacant := hkept.1.resolve_left hcurrent
          rw [← Bool.not_eq_true, registered_iff] at hvacant
          exact Or.inl fun hmem => hvacant ⟨r, hmem, rfl⟩
    rw [hm] at hc
    exact hserved hp hmoves hc
  | undone order readings now fault ha hp hne x y hdoes hfiled hy hbooks hfiled' hmoves =>
    subst ha
    have hc := hcustody hp
    have hx := (does_hands hdoes rfl (fun hu => hu.elim) h.flights.placed h.flights.keyed hc).custody
    have hdisk := hx.failed (fun s hs => hc.kept s (written_of_filed hfiled ▸ hs)) hy fun hafter =>
      absurd (hg hafter) hne
    have hyarch := (hx.persist cfg now fault).1.toArchived
    rw [hy] at hyarch
    exact hserved hp hmoves (hc.undone hbooks (hyarch.of_filed hfiled') fun s hs =>
      hdisk s (written_of_filed hfiled' ▸ hs))
  | extended id leaseId key target now fault r ha hp hr hm hmoves =>
    have hc := hcustody hp
    obtain ⟨hpasses, _, hlabel⟩ := modifyMachine_passes d.manager r (fun m => m.extended key target)
      fun _ => ⟨⟨rfl, rfl, rfl⟩, rfl⟩
    have hhands := (hc.hands.next (y := d.manager.modifyMachine r fun m => m.extended key target) hpasses False.elim
      rfl (hlabel hc.labelled)).persist cfg now fault
    rw [← hm] at hhands
    exact hserved hp hmoves hhands.custody
  | boot bootId available now fault ha hp =>
    subst ha
    exact start_kept h bootId available now fault hflights hp hg
  | crash hp => exact exit_kept h.archived
  | lost loaded doc operations index started p probe reading updatedAt now fault reason x doc' ok ha hp hi hreason
      hx =>
    have hset : (doc.machines.set index (upgraded p))[index]? = some (upgraded p) :=
      List.getElem?_set_self (List.getElem?_eq_some_iff.mp hi).1
    have hcases := finalizePersistedMachine_cases d.manager
      { doc with machines := doc.machines.set index (upgraded p) } index (upgraded p) reason updatedAt now fault
    rw [hx] at hcases
    by_cases hwaiting : d.phase.waiting = true
    · have hreb := (h.rebuilding hp hwaiting).upgrade hi
      have hquiet := h.quiet (Or.inl hwaiting)
      rcases hcases with ⟨hdead, heq⟩ | ⟨y, hy, heq⟩ | ⟨_, y, doc₂, ok₂, heq, hsaves, hstore, hok⟩
      · cases heq
        exact kept_of_rebuilding hflights rfl ((hreb.next hset hdead).note rfl rfl) hquiet
      · cases heq
        exact exit_kept_of (h.archived.of_filed hy)
      · cases heq
        obtain ⟨harch, hnext⟩ := hreb.finalize hset reason updatedAt now fault hsaves hstore
        cases ok with
        | false => exact exit_kept_of harch
        | true =>
          obtain ⟨rfl, hbooks⟩ := hok rfl
          exact kept_of_rebuilding hflights rfl ((hnext hbooks).note rfl rfl) hquiet
    · have hw : d.phase.waiting = false := Bool.eq_false_iff.mpr hwaiting
      have hdead := upgraded_dead hp hi hw
      rcases hcases with ⟨_, heq⟩ | ⟨y, hy, heq⟩ | ⟨hlive, _⟩
      · cases heq
        have hc := h.whole (by rw [Daemon.up, hp]; exact Phase.noConfusion) hw
        exact kept_of_custody hflights (hc.note rfl rfl) Phase.noConfusion (waiting_next hp hw (upgraded p))
      · cases heq
        exact exit_kept_of (h.archived.of_filed hy)
      · rw [hdead] at hlive
        cases hlive
  | rejoined loaded doc operations index started p probe reading updatedAt now fault x ok ha hp hi hreason hfree
      hx =>
    have hset : (doc.machines.set index (upgraded p))[index]? = some (upgraded p) :=
      List.getElem?_set_self (List.getElem?_eq_some_iff.mp hi).1
    cases ok with
    | false =>
      have hcommits := reattach_commits d.manager (upgraded p) reading
      rw [hx] at hcommits
      exact exit_kept_of (h.archived.of_disk (congrArg (fun c => c.store.disk) hcommits)
        (congrArg (fun c => c.saves) hcommits))
    | true =>
      have hid := (upgraded_same p).1.id
      have hrejoined := reattach_rejoined d.manager h.flights.placed (hid ▸ hfree) hx
      by_cases hwaiting : d.phase.waiting = true
      · have hreb := (h.rebuilding hp hwaiting).upgrade hi
        exact kept_of_rebuilding hflights rfl (hreb.rejoin hset h.flights.placed hrejoined)
          (h.quiet (Or.inl hwaiting))
      · have hw : d.phase.waiting = false := Bool.eq_false_iff.mpr hwaiting
        have hdead := upgraded_dead hp hi hw
        have hc := h.whole (by rw [Daemon.up, hp]; exact Phase.noConfusion) hw
        obtain ⟨hpasses, _, hlabelled⟩ := hrejoined.passes h.flights.placed hc.labelled fun hlive => by
          rw [hdead] at hlive
          cases hlive
        refine kept_of_custody hflights ⟨h.archived.of_filed hrejoined.filed, fun s hs => ?_, hlabelled⟩
          Phase.noConfusion (waiting_next hp hw (upgraded p))
        exact hpasses.covers_of (hc.kept s (written_of_filed hrejoined.filed ▸ hs))
  | uncommitted now fault m ha hp hm =>
    have hc := h.whole (by rw [Daemon.up, hp]; exact Phase.noConfusion) (by rw [hp]; rfl)
    have harch := (hc.persist cfg now fault).1.toArchived
    rw [hm] at harch
    exact exit_kept_of harch

end Steps

theorem found_kept : (Daemon.found none).Kept := by
  refine ⟨exit_flights (Daemon.found none), ⟨rfl, List.Pairwise.nil, fun s hs => ?_⟩, fun hup => absurd rfl hup,
    fun hp _ => ?_, fun _ => rfl⟩
  · cases hs
  · cases hp

/-- **No lease vanishes.**  From a host without a document, along every run in which no step puts a lease
at risk, crashes and restarts at any point included: every document on disk follows all the earlier ones. -/
theorem leases_kept (cfg : Config) (acts : List Act) (d : Daemon)
    (hrun : RunIn (DaemonStep cfg) (LeasesSafe cfg) (Daemon.found none) acts d) :
    d.manager.written.Pairwise Follows := by
  have h : d.Kept := hrun.invariant (fun _ _ _ h hs hg => kept_step h (Daemon.stepped hs) hg) found_kept
  exact h.archived.ordered.imp follows_of_covers

namespace Sample

/-- Two leases, a checkpoint, and a restart that both machines outlive. -/
def restartWhole : List Act :=
  firstBoot ++ create 0 ++ create 1 ++ [.checkpoint [0, 1] (fun _ => reading 2) 0 .none, .crash, boot, recovered,
    recovered, .ready (hostMachineId 0) 0 .none, .ready (hostMachineId 1) 0 .none,
    .reconcileForks fun _ => reading 3, .reconcileCommit 0 .none, .serve]

/-- The first machine of the document is ready before the second one is read, and the process crashes. -/
def earlyReady : List Act :=
  firstBoot ++ create 0 ++ create 1 ++ [.crash, boot, recovered, .ready (hostMachineId 0) 0 .none, .crash, boot,
    recovered, .ready (hostMachineId 0) 0 .none, .reconcileForks fun _ => reading 3, .reconcileCommit 0 .none, .serve]

end Sample

/-- Both leases are in the last document, at their second observation. -/
theorem leases_kept_restart : ∃ d, RunIn (DaemonStep Sample.config) (LeasesSafe Sample.config) (Daemon.found none)
    Sample.restartWhole d ∧
      (d.manager.written.getLast?.map fun s => s.machines.map (·.metering.sequence)) = some [2, 2] ∧
      d.manager.written.Pairwise Follows := by
  have h : (execIn (Daemon.step Sample.config) (LeasesSafe Sample.config) (Daemon.found none)
      Sample.restartWhole).any (fun d => decide (
        (d.manager.written.getLast?.map fun s => s.machines.map (·.metering.sequence)) = some [2, 2])) = true := by
    decide +kernel
  obtain ⟨d, hrun, hd⟩ := RunIn.of_test h
  exact ⟨d, hrun, hd, leases_kept Sample.config _ d hrun⟩

/-- The lease of the second machine is live in a document on disk, and no later process knows of it: it is
in no registry and in no outbox. -/
theorem early_ready_drops : ∃ d, Run (DaemonStep Sample.config) (Daemon.found none) Sample.earlyReady d ∧
    ¬ d.manager.written.Pairwise Follows ∧ d.phase matches .serving ∧
      ∀ o ∈ d.manager.acknowledged ++ d.manager.meteringOutbox, o.leaseId = Sample.leaseId 1 → o.kind ≠ .final := by
  have h : (exec (Daemon.step Sample.config) (Daemon.found none) Sample.earlyReady).any (fun d => decide (
      ¬ d.manager.written.Pairwise Follows ∧ (d.phase matches .serving) ∧
        ∀ o ∈ d.manager.acknowledged ++ d.manager.meteringOutbox, o.leaseId = Sample.leaseId 1 → o.kind ≠ .final))
      = true := by
    decide +kernel
  exact Run.of_test h

end Nehemiah.Host
