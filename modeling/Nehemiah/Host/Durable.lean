import Nehemiah.Host.Effects

/-!
# Durable commits

A save that answers `nil` should have written the document.  The store skips a document whose generation
is older than the last one saved, and answers `nil` all the same.  Two counters feed it: the manager's own
generation, which only grows, and the generation of the document that a restart works on, which lags
behind when machines that are already re-attached become ready or expire in the meantime.

* `commits_durable`: in every run in which the generations do not wrap around and every recovery save
  comes at a generation that the store has not passed, every save that answered `nil` wrote its document.
* `recovery_save_skipped`: two machines become ready, a third is lost, and its final is dropped.
-/

namespace Nehemiah.Host

open Billing Manager Lib

/-! ### What the saves work on -/

structure Commits where
  store : StateStore
  stateGeneration : ℕ
  saves : List SaveRecord

def Manager.commits (mgr : Manager) : Commits := ⟨mgr.store, mgr.stateGeneration, mgr.saves⟩

section Frames

variable (mgr : Manager)

theorem logTransition_commits (id leaseId : String) (source : Option MachineStatus)
    (target : MachineStatus) (reason : String) :
    (mgr.logTransition id leaseId source target reason).commits = mgr.commits := rfl

theorem recordMeterStart_commits (r : ℕ) (reading : Reading) :
    (mgr.recordMeterStart r reading).1.commits = mgr.commits := by
  have h := recordMeterStart_started mgr r reading
  generalize mgr.recordMeterStart r reading = x at h ⊢
  cases h <;> rfl

theorem sample_commits (r : ℕ) (terminal : Bool) (reading : Reading) :
    (mgr.sample r terminal reading).1.commits = mgr.commits := by
  have h := sample_sampled mgr r terminal reading
  generalize mgr.sample r terminal reading = x at h ⊢
  cases h <;> rfl

theorem sampleAll_commits (readings : ℕ → Reading) (order : List ℕ) : ∀ mgr : Manager,
    (sampleAll readings mgr order).1.commits = mgr.commits := by
  induction order with
  | nil => exact fun _ => rfl
  | cons r rest ih =>
    intro mgr
    have hs := sample_commits mgr r false (readings r)
    simp only [sampleAll]
    split
    · next x heq =>
      rw [heq] at hs
      exact hs
    · next x heq =>
      rw [heq] at hs
      exact (ih x).trans hs

theorem removeChildren_commits (reason : String) (readings : ℕ → Reading) (ids : List String) :
    ∀ mgr : Manager, (removeChildren reason readings mgr ids).1.commits = mgr.commits := by
  induction ids with
  | nil => exact fun _ => rfl
  | cons id rest ih =>
    intro mgr
    simp only [removeChildren]
    split
    · exact ih mgr
    · next r _ =>
      have hs := sample_commits mgr r true (readings r)
      split
      · next x heq =>
        rw [heq] at hs
        exact (ih _).trans hs
      · next x heq =>
        rw [heq] at hs
        exact (ih _).trans hs

theorem removeForkChildren_commits (ids : List String) (reason : String) (readings : ℕ → Reading) :
    (mgr.removeForkChildren ids reason readings).1.commits = mgr.commits := by
  simp only [removeForkChildren]
  split
  · rfl
  · exact removeChildren_commits reason readings _ mgr

theorem restoreForkCleanup_commits (c : ForkCleanupCheckpoint) :
    (mgr.restoreForkCleanup c).commits = mgr.commits := by
  have hfold : ∀ (es : List (ℕ × MachineStatus × MachineMeteringState)) (x : Manager),
      (es.foldl restoreMachine x).commits = x.commits := by
    intro es
    induction es with
    | nil => exact fun _ => rfl
    | cons e es ih => exact fun x => ih (x.restoreMachine e)
  exact hfold c.machines mgr

theorem reserveJailerIdentity_commits {cfg : Config} {id : String} {free : ℕ → Bool}
    {reservationId : String} {x : Manager} {identity : JailerIdentity}
    (h : mgr.reserveJailerIdentity cfg id free reservationId = some (x, identity)) :
    x.commits = mgr.commits := by
  simp only [reserveJailerIdentity] at h
  split at h
  · cases h
    rfl
  · obtain ⟨slot, _, heq⟩ := Option.map_eq_some_iff.mp h
    cases heq
    rfl

theorem reserveChildren_commits (cfg : Config) (source : Machine)
    (cs : List (ManagedForkChild × String × Draw)) :
    ∀ mgr : Manager, (reserveChildren cfg source mgr cs).1.commits = mgr.commits := by
  induction cs with
  | nil => exact fun _ => rfl
  | cons c rest ih =>
    intro mgr
    obtain ⟨c, ip, draw⟩ := c
    simp only [reserveChildren]
    split
    · rfl
    · next held identity heq =>
      have hheld := reserveJailerIdentity_commits mgr heq
      have hrest := (ih ((held.allocate (forkChild source c draw.id ip identity)).1.transition
        (held.allocate (forkChild source c draw.id ip identity)).2 none .booting
        "managed_fork_reserved")).trans hheld
      split
      · next x refs hx =>
        rw [hx] at hrest
        exact hrest
      · next x hx =>
        rw [hx] at hrest
        exact hrest

theorem settleOperations_commits (loaded : List PersistedMachine) (readings : ℕ → Reading)
    (ops : List PersistedForkOperation) :
    ∀ mgr : Manager, (settleOperations loaded readings mgr ops).1.commits = mgr.commits := by
  have hone : ∀ (mgr : Manager) (op : PersistedForkOperation),
      (mgr.settleOperation loaded readings op).1.commits = mgr.commits := by
    intro mgr op
    simp only [settleOperation]
    split
    · split
      · rfl
      · exact removeForkChildren_commits mgr op.childIds _ readings
    · exact removeForkChildren_commits mgr op.childIds _ readings
    · exact removeForkChildren_commits mgr op.childIds _ readings
  induction ops with
  | nil => exact fun _ => rfl
  | cons op rest ih => exact fun mgr => (ih _).trans (hone mgr op)

end Frames

/-! ### Sound commits -/

/-- Every save that answered `nil` wrote its document. -/
def Honest (saves : List SaveRecord) : Prop := ∀ s ∈ saves, s.ok = true → s.disk = some s.snapshot

/-- The saves are honest, the store is not ahead of the manager, and `k` more generations fit. -/
structure Commits.Sound (k : ℕ) (c : Commits) : Prop where
  honest : Honest c.saves
  behind : c.store.lastSaved ≤ c.stateGeneration
  room : c.stateGeneration + k < 2 ^ 64

theorem Commits.Sound.mono {k k' : ℕ} {c : Commits} (h : c.Sound k) (hk : k' ≤ k) : c.Sound k' :=
  ⟨h.honest, h.behind, by have := h.room; omega⟩

/-- A document at a generation that the store has not passed is written, or the save reports it. -/
theorem save_honest (s : StateStore) (snapshot : MachineStateSnapshot) (fault : SaveFault)
    (h : s.lastSaved ≤ snapshot.generation) :
    ((s.save snapshot fault).2 = true → (s.save snapshot fault).1.disk = some snapshot) ∧
      (s.save snapshot fault).1.lastSaved ≤ snapshot.generation := by
  unfold StateStore.save
  rw [if_neg (not_lt.mpr h)]
  cases fault with
  | none => exact ⟨fun _ => rfl, le_refl _⟩
  | beforeRename => exact ⟨fun hf => absurd hf Bool.false_ne_true, h⟩
  | afterRename => exact ⟨fun hf => absurd hf Bool.false_ne_true, h⟩

theorem honest_append {saves : List SaveRecord} {rec : SaveRecord} (h : Honest saves)
    (hrec : rec.ok = true → rec.disk = some rec.snapshot) : Honest (saves ++ [rec]) := by
  intro s hs hok
  rcases List.mem_append.mp hs with hs | hs
  · exact h s hs hok
  · cases List.mem_singleton.mp hs
    exact hrec hok

section Sections

variable (mgr : Manager) (cfg : Config)

/-- **A commit takes one generation.** -/
theorem persist_sound {k : ℕ} (h : mgr.commits.Sound (k + 1)) (now : Time) (fault : SaveFault) :
    (mgr.persist cfg now fault).1.commits.Sound k := by
  have hroom := h.room
  have hbehind := h.behind
  simp only [commits] at hroom hbehind
  have hgen : nextGeneration mgr.stateGeneration = mgr.stateGeneration + 1 :=
    Nat.mod_eq_of_lt (by omega)
  obtain ⟨hdisk, hlast⟩ := save_honest mgr.store
    (mgr.snapshot cfg (nextGeneration mgr.stateGeneration) now) fault (by
      show mgr.store.lastSaved ≤ nextGeneration mgr.stateGeneration
      omega)
  refine ⟨honest_append h.honest hdisk, hlast, ?_⟩
  show nextGeneration mgr.stateGeneration + k < 2 ^ 64
  omega

/-- A commit between changes that no save sees. -/
theorem persist_sound_of_eq {x y z : Manager} {ok : Bool} {now : Time} {fault : SaveFault} {k : ℕ}
    (heq : x.persist cfg now fault = (y, ok)) (hx : x.commits = mgr.commits)
    (hz : z.commits = y.commits) (h : mgr.commits.Sound (k + 1)) : z.commits.Sound k := by
  rw [← hx] at h
  have hs := persist_sound x cfg h now fault
  rw [heq] at hs
  rwa [hz]

theorem persist_sound_after {x : Manager} (now : Time) (fault : SaveFault) {k : ℕ}
    (h : mgr.commits.Sound (k + 1)) (hx : x.commits = mgr.commits) :
    (x.persist cfg now fault).1.commits.Sound k :=
  persist_sound_of_eq mgr cfg rfl hx rfl h

variable {mgr} (h : mgr.commits.Sound 2)

include h

theorem becomeReady_sound (id : String) (now : Time) (fault : SaveFault) :
    (mgr.becomeReady cfg id now fault).commits.Sound 0 := by
  have h1 : mgr.commits.Sound 1 := h.mono (by omega)
  simp only [becomeReady]
  split
  · exact h.mono (by omega)
  · split
    · exact h.mono (by omega)
    · exact persist_sound_after mgr cfg now fault h1 rfl

theorem extend_sound (id leaseId key : String) (target now : Time) (fault : SaveFault) :
    (mgr.extend cfg id leaseId key target now fault).1.commits.Sound 0 := by
  have h0 : mgr.commits.Sound 0 := h.mono (by omega)
  simp only [extend]
  split
  · exact h0
  · split
    · exact h0
    · split
      · split <;> exact h0
      · exact persist_sound_after mgr cfg now fault (h.mono (by omega)) rfl

theorem destroy_sound (id : String) (reading : Reading) (now : Time) (fault : SaveFault) :
    (mgr.destroy cfg id reading now fault).1.commits.Sound 0 := by
  simp only [destroy]
  split
  · exact h.mono (by omega)
  · next r _ =>
    have hs := sample_commits ((mgr.setStatus r .stopping).transition r (some (mgr.objects r).status)
      .stopping "delete_requested") r true reading
    split
    · next x heq =>
      rw [heq] at hs
      exact (show x.commits = mgr.commits from hs) ▸ h.mono (by omega)
    · next x heq =>
      rw [heq] at hs
      split
      · next y hy => exact persist_sound_of_eq mgr cfg hy hs rfl (h.mono (by omega))
      · next y hy =>
        have hsound : y.commits.Sound 0 := persist_sound_of_eq mgr cfg hy hs rfl (h.mono (by omega))
        split <;> exact hsound

theorem reap_sound (id : String) (reading : Reading) (now : Time) (fault : SaveFault) :
    (mgr.reap cfg id reading now fault).1.commits.Sound 0 := by
  simp only [reap]
  split
  · exact h.mono (by omega)
  · next r _ =>
    have hs := sample_commits mgr r true reading
    split
    · next x heq =>
      rw [heq] at hs
      exact (show x.commits = mgr.commits from hs) ▸ h.mono (by omega)
    · next x heq =>
      rw [heq] at hs
      split
      · next y hy => exact persist_sound_of_eq mgr cfg hy hs rfl (h.mono (by omega))
      · next y hy => exact persist_sound_of_eq (k := 0) mgr cfg hy hs rfl (h.mono (by omega))

theorem releaseAfterTeardown_sound (id : String) (expected : Option JailerIdentity) (verified : Bool)
    (now : Time) (fault : SaveFault) :
    (mgr.releaseAfterTeardown cfg id expected verified now fault).commits.Sound 0 := by
  simp only [releaseAfterTeardown]
  split
  · exact h.mono (by omega)
  · split
    · exact h.mono (by omega)
    · split
      · next x hx => exact persist_sound_of_eq mgr cfg hx rfl rfl (h.mono (by omega))
      · next x hx => exact persist_sound_of_eq (k := 0) mgr cfg hx rfl rfl (h.mono (by omega))

theorem checkpoint_sound (order : List ℕ) (readings : ℕ → Reading) (now : Time) (fault : SaveFault) :
    (mgr.checkpoint cfg order readings now fault).1.commits.Sound 0 := by
  simp only [checkpoint]
  split
  · exact h.mono (by omega)
  · split
    · exact h.mono (by omega)
    · have hs := sampleAll_commits readings order mgr
      split
      · next x visited heq =>
        rw [heq] at hs
        exact (show x.commits = mgr.commits from hs) ▸ h.mono (by omega)
      · next x visited heq =>
        rw [heq] at hs
        split
        · next y hy => exact persist_sound_of_eq mgr cfg hy hs rfl (h.mono (by omega))
        · next y hy => exact persist_sound_of_eq (k := 0) mgr cfg hy hs rfl (h.mono (by omega))

theorem acknowledge_sound (sent : List HostUsageObservation) (receipts : List Receipt) (now : Time)
    (fault : SaveFault) : (mgr.acknowledge cfg sent receipts now fault).1.commits.Sound 0 := by
  have h0 : mgr.commits.Sound 0 := h.mono (by omega)
  simp only [acknowledge]
  split
  · exact h0
  · split
    · exact h0
    · split
      · exact h0
      · split
        · next y hy => exact persist_sound_of_eq (k := 0) mgr cfg hy rfl rfl (h.mono (by omega))
        · next y hy => exact persist_sound_of_eq (k := 0) mgr cfg hy rfl rfl (h.mono (by omega))

theorem reserveCreate_sound (req : CreateRequest) (draw : Draw) (refusal : Option HostError)
    (memory : Bool) (now : Time) (fault : SaveFault) :
    (mgr.reserveCreate cfg req draw refusal memory now fault).1.commits.Sound 0 := by
  have h0 : mgr.commits.Sound 0 := h.mono (by omega)
  simp only [reserveCreate]
  split
  · exact h0
  · split
    · exact h0
    · split
      · exact h0
      · split
        · exact h0
        · split
          · exact h0
          · split
            · exact h0
            · next held identity heq =>
              have hheld := reserveJailerIdentity_commits mgr heq
              split
              · next y hy => exact persist_sound_of_eq mgr cfg hy hheld rfl (h.mono (by omega))
              · next y hy => exact persist_sound_of_eq (k := 0) mgr cfg hy hheld rfl (h.mono (by omega))

theorem publishCreate_sound (r : ℕ) (driver : Driver) (overlayMb : ℕ) (reading : Reading) (now : Time)
    (fault fault' : SaveFault) :
    (mgr.publishCreate cfg r driver overlayMb reading now fault fault').1.commits.Sound 0 := by
  have h1 : mgr.commits.Sound 1 := h.mono (by omega)
  simp only [publishCreate]
  split
  · exact persist_sound_after mgr cfg now fault h1 rfl
  · have hs := recordMeterStart_commits ((mgr.started r driver overlayMb).transition r (some .booting)
      .starting "vmm_started") r reading
    split
    · next x heq =>
      rw [heq] at hs
      exact persist_sound_after mgr cfg now fault h1 hs
    · next x heq =>
      rw [heq] at hs
      split
      · next y hy => exact (persist_sound_of_eq (k := 1) mgr cfg hy hs rfl h).mono (by omega)
      · next y hy =>
        have hy1 : y.commits.Sound 1 := persist_sound_of_eq mgr cfg hy hs rfl h
        split
        · exact persist_sound_after y cfg now fault' hy1 rfl
        · exact hy1.mono (by omega)

theorem publishChild_sound (r : ℕ) (driver : Driver) (reading : Reading) (now : Time)
    (fault : SaveFault) : (mgr.publishChild cfg r driver reading now fault).1.commits.Sound 0 := by
  simp only [publishChild]
  split
  · exact h.mono (by omega)
  · have hs := recordMeterStart_commits ((mgr.modifyMachine r fun m =>
      { m with driver := some driver, status := .starting }).transition r (some .booting) .starting
      "managed_fork_vmm_started") r reading
    split
    · next x heq =>
      rw [heq] at hs
      exact (show x.commits = mgr.commits from hs) ▸ h.mono (by omega)
    · next x heq =>
      rw [heq] at hs
      exact persist_sound_after mgr cfg now fault (h.mono (by omega)) hs

theorem rollbackForkChildren_sound (children : List ℕ) (readings : ℕ → Reading) (now : Time)
    (fault : SaveFault) :
    (mgr.rollbackForkChildren cfg children readings now fault).1.commits.Sound 0 := by
  simp only [rollbackForkChildren]
  have hs := removeForkChildren_commits mgr (children.map fun r => (mgr.objects r).id)
    "managed_fork_rollback" readings
  split
  · next y hy => exact persist_sound_of_eq mgr cfg hy hs rfl (h.mono (by omega))
  · next y hy =>
    rw [restoreForkCleanup_commits]
    exact persist_sound_of_eq mgr cfg hy hs rfl (h.mono (by omega))

theorem finishFork_sound (res : ℕ) (failed : Bool) (readings : ℕ → Reading) (now : Time)
    (fault fault' : SaveFault) :
    (mgr.finishFork cfg res failed readings now fault fault').1.commits.Sound 0 := by
  simp only [finishFork]
  split
  · have hs := removeForkChildren_commits mgr (mgr.reservations res).childIds
      "managed_fork_terminal_cleanup" readings
    split
    · next y hy => exact (persist_sound_of_eq (k := 1) mgr cfg hy hs rfl h).mono (by omega)
    · next y hy =>
      have hy1 : y.commits.Sound 1 := persist_sound_of_eq mgr cfg hy hs rfl h
      split
      · next z hz => exact persist_sound_of_eq y cfg hz rfl rfl hy1
      · next z hz =>
        rw [restoreForkCleanup_commits]
        exact persist_sound_of_eq y cfg hz rfl rfl hy1
  · split
    · next y hy => exact (persist_sound_of_eq (k := 1) mgr cfg hy rfl rfl h).mono (by omega)
    · next y hy =>
      have hy1 : y.commits.Sound 1 := persist_sound_of_eq mgr cfg hy rfl rfl h
      have hs := removeForkChildren_commits y (mgr.reservations res).childIds
        "managed_fork_terminal_persist_failed" readings
      split
      · next z hz => exact persist_sound_of_eq y cfg hz hs rfl hy1
      · next z hz =>
        rw [restoreForkCleanup_commits]
        exact persist_sound_of_eq y cfg hz hs rfl hy1

theorem forkReservationResult_sound (res : ℕ) (readings : ℕ → Reading) (now : Time)
    (fault : SaveFault) :
    (mgr.forkReservationResult cfg res readings now fault).1.commits.Sound 0 := by
  have h0 : mgr.commits.Sound 0 := h.mono (by omega)
  simp only [forkReservationResult]
  split
  · exact h0
  · split
    · exact h0
    · split
      · exact h0
      · split
        · split <;> exact h0
        · have hs := removeForkChildren_commits mgr (mgr.reservations res).childIds
            "managed_fork_incomplete_replay_cleanup" readings
          split
          · next y hy => exact persist_sound_of_eq mgr cfg hy hs rfl (h.mono (by omega))
          · next y hy =>
            rw [restoreForkCleanup_commits]
            exact persist_sound_of_eq mgr cfg hy hs rfl (h.mono (by omega))

theorem reserveFork_sound (req : ForkRequest) (source : ℕ) (ips : List String) (probe : ForkProbe)
    (now : Time) (fault fault' : SaveFault) :
    (mgr.reserveFork cfg req source ips probe now fault fault').1.commits.Sound 0 := by
  simp only [reserveFork]
  have hs := reserveChildren_commits cfg (mgr.objects source) (req.children.zip (ips.zip probe.draws)) mgr
  split
  · next x hx =>
    rw [hx] at hs
    exact (show x.commits = mgr.commits from hs) ▸ h.mono (by omega)
  · next x children hx =>
    rw [hx] at hs
    split
    · next y hy => exact (persist_sound_of_eq (k := 1) mgr cfg hy hs rfl h).mono (by omega)
    · next y hy =>
      have hy1 : y.commits.Sound 1 := persist_sound_of_eq mgr cfg hy hs rfl h
      exact persist_sound_after y cfg now fault' hy1 (removeForkChildren_commits y _ _ _)

theorem beginFork_sound (req : ForkRequest) (probe : ForkProbe) (now : Time)
    (fault fault' : SaveFault) :
    (mgr.beginFork cfg req probe now fault fault').1.commits.Sound 0 := by
  obtain ⟨e, x, hx, heq⟩ | ⟨res, _, heq⟩ | ⟨source, ips, _, _, _, _, _, _, heq⟩ :=
    beginFork_cases mgr cfg req probe now fault fault'
  · rw [heq]
    rcases hx with rfl | rfl
    · exact h.mono (by omega)
    · exact (show (mgr.pruneForkReservations now).commits.Sound 2 from h).mono (by omega)
  · rw [heq]
    exact h.mono (by omega)
  · rw [heq]
    exact reserveFork_sound cfg (show (mgr.pruneForkReservations now).commits.Sound 2 from h) req source
      ips probe now fault fault'

end Sections

/-! ### Restart -/

/-- The machine of a document is given up with a final that goes to the document. -/
def Manager.takesRecoverySave (mgr : Manager) (cfg : Config) (p : PersistedMachine) (probe : RuntimeProbe)
    (started : Time) : Bool :=
  (mgr.lostReason cfg p probe started).isSome && decide (0 < p.metering.sequence) && !p.metering.final

/-- The invariant: the saves are honest and the store is not ahead of the manager. -/
structure Daemon.Durable (d : Daemon) : Prop where
  honest : Honest d.manager.saves
  behind : d.manager.store.lastSaved ≤ d.manager.stateGeneration

variable {d : Daemon}

theorem durable_of_sound (h : d.manager.commits.Sound 0) : d.Durable :=
  ⟨h.honest, h.behind⟩

theorem durable_of_commits {x : Manager} (hd : d.manager.commits = x.commits) (honest : Honest x.saves)
    (behind : x.store.lastSaved ≤ x.stateGeneration) : d.Durable := by
  have hstore : d.manager.store = x.store := congrArg Commits.store hd
  have hgen : d.manager.stateGeneration = x.stateGeneration := congrArg Commits.stateGeneration hd
  have hsaves : d.manager.saves = x.saves := congrArg Commits.saves hd
  exact ⟨hsaves ▸ honest, by rw [hstore, hgen]; exact behind⟩

theorem exit_durable (h : Honest d.manager.saves) : d.exit.Durable := ⟨h, le_refl 0⟩

theorem start_durable (h : d.Durable) (cfg : Config) (bootId : Option String) (available : JailerIdentity → Bool)
    (now : Time) (fault : SaveFault) :
    (d.start cfg bootId available now fault).Durable := by
  simp only [Daemon.start]
  split
  · refine ⟨h.honest, ?_⟩
    show (StateStore.load _).1.lastSaved ≤ (StateStore.load _).2.generation
    unfold StateStore.load
    split
    · exact le_refl 0
    · exact le_refl _
  · have hsound : Commits.Sound 1 ⟨⟨none, 0⟩, 0, d.manager.saves⟩ := ⟨h.honest, le_refl 0, by norm_num⟩
    split
    · next x hx => exact durable_of_sound (persist_sound_of_eq _ cfg hx rfl rfl hsound)
    · next x hx =>
      have hx' : x.commits.Sound 0 := persist_sound_of_eq _ cfg hx rfl rfl hsound
      exact exit_durable hx'.honest

/-- A recovery save at a generation that the store has not passed. -/
theorem finalizePersistedMachine_durable {mgr : Manager} (honest : Honest mgr.saves)
    (hbehind : mgr.store.lastSaved ≤ mgr.stateGeneration) (doc : MachineStateSnapshot) (index : ℕ)
    (p : PersistedMachine) (reason : HostUsageObservationQualityReason) (updatedAt : String) (now : Time)
    (fault : SaveFault)
    (hfresh : 0 < p.metering.sequence → p.metering.final = false →
      mgr.store.lastSaved ≤ nextGeneration doc.generation) :
    Honest (mgr.finalizePersistedMachine doc index p reason updatedAt now fault).1.saves ∧
      ((mgr.finalizePersistedMachine doc index p reason updatedAt now fault).2.2 = true →
        (mgr.finalizePersistedMachine doc index p reason updatedAt now fault).1.store.lastSaved
          ≤ (mgr.finalizePersistedMachine doc index p reason updatedAt now fault).1.stateGeneration) := by
  simp only [finalizePersistedMachine]
  split
  · exact ⟨honest, fun _ => hbehind⟩
  · next hlive =>
    rw [not_or] at hlive
    have hle := hfresh (Nat.pos_of_ne_zero hlive.1) (by simpa using hlive.2)
    split
    · exact ⟨honest, fun _ => hbehind⟩
    · split
      · exact ⟨honest, fun _ => hbehind⟩
      · set doc' : MachineStateSnapshot := { doc with
          machines := doc.machines.set index (finalized p)
          meteringOutbox := doc.meteringOutbox ++ [recoveredFinal p reason updatedAt]
          generation := nextGeneration doc.generation
          updatedAt := now } with hdoc
        obtain ⟨hdisk, hlast⟩ := save_honest mgr.store doc' fault hle
        have hhonest : Honest (mgr.saves ++ [⟨doc', (mgr.store.save doc' fault).2,
            (mgr.store.save doc' fault).1.disk⟩]) := honest_append honest hdisk
        simp only [saveRecoverySnapshot, saved, ← hdoc]
        cases hok : (mgr.store.save doc' fault).2 with
        | true =>
          rw [hok] at hhonest
          exact ⟨hhonest, fun _ => hlast⟩
        | false =>
          rw [hok] at hhonest
          exact ⟨hhonest, fun hf => absurd hf Bool.false_ne_true⟩

theorem reattach_commits (mgr : Manager) (p : PersistedMachine) (reading : Reading) :
    (mgr.reattach p reading).1.commits = mgr.commits := by
  have hs := recordMeterStart_commits ((mgr.allocate (mgr.reattached p)).1.transition
    (mgr.allocate (mgr.reattached p)).2 (some p.status) .starting "daemon_reattached")
    (mgr.allocate (mgr.reattached p)).2 reading
  simp only [reattach]
  by_cases hstart : p.metering.sequence = 0 ∧ p.leaseId ≠ ""
  · simp only [if_pos hstart]
    split
    · exact hs
    · split <;> exact hs
  · simp only [if_neg hstart, Bool.not_true, Bool.false_eq_true, if_false]
    split <;> rfl

/-! ### Runs -/

/-- The recovery save of a step, if it makes one, comes at a generation that the store has not passed. -/
def RecoveryFresh (cfg : Config) (d : Daemon) (a : Act) : Prop :=
  match d.phase, a with
  | .reconciling _ doc _ index started, .reconcileNext probe _ _ _ _ =>
    ∀ p ∈ doc.machines[index]?, d.manager.takesRecoverySave cfg (upgraded p) probe started = true →
      d.manager.store.lastSaved ≤ nextGeneration doc.generation
  | _, _ => True

instance (cfg : Config) (d : Daemon) (a : Act) : Decidable (RecoveryFresh cfg d a) := by
  unfold RecoveryFresh
  split <;> infer_instance

/-- The condition on a step: two more generations fit below the wrap-around, and a recovery save comes at
a generation that the store has not passed. -/
def GenerationsFresh (cfg : Config) (d : Daemon) (a : Act) (_ : Daemon) : Prop :=
  d.manager.stateGeneration + 2 < 2 ^ 64 ∧ RecoveryFresh cfg d a

instance (cfg : Config) (d : Daemon) (a : Act) (d' : Daemon) : Decidable (GenerationsFresh cfg d a d') :=
  inferInstanceAs (Decidable (_ ∧ _))

theorem durable_step {cfg : Config} {d' : Daemon} {a : Act} (h : d.Durable) (hstep : DaemonStep cfg d a d')
    (hg : GenerationsFresh cfg d a d') : d'.Durable := by
  have hs : d.manager.commits.Sound 2 := ⟨h.honest, h.behind, hg.1⟩
  have h0 : d.manager.commits.Sound 0 := hs.mono (by omega)
  cases Daemon.stepped hstep with
  | boot bootId available now fault hp => exact start_durable h cfg bootId available now fault
  | crash hp => exact exit_durable h.honest
  | ready id now fault hp => exact durable_of_sound (becomeReady_sound cfg hs id now fault)
  | reap id reading now fault hp =>
    have hr := reap_sound cfg hs id reading now fault
    generalize d.manager.reap cfg id reading now fault = x at hr
    obtain ⟨m, stop⟩ := x
    cases stop <;> exact durable_of_sound hr
  | teardown i r verified now fault hp hr =>
    exact durable_of_sound (releaseAfterTeardown_sound cfg hs _ _ verified now fault)
  | destroy id reading now fault hp =>
    have hr := destroy_sound cfg hs id reading now fault
    generalize d.manager.destroy cfg id reading now fault = x at hr
    obtain ⟨m, stop⟩ := x
    cases stop <;> exact durable_of_sound hr
  | extend id leaseId key target now fault hp =>
    exact durable_of_sound (extend_sound cfg hs id leaseId key target now fault)
  | checkpoint order readings now fault hp hperm =>
    exact durable_of_sound (checkpoint_sound cfg hs order readings now fault)
  | acknowledge sent receipts now fault hp =>
    exact durable_of_sound (acknowledge_sound cfg hs sent receipts now fault)
  | persist now fault hp =>
    exact durable_of_sound (persist_sound_after d.manager cfg now fault (hs.mono (by omega)) rfl)
  | health network cohort hp => exact ⟨h.honest, h.behind⟩
  | createBegin req m hp hm =>
    simp only [beginCreate] at hm
    split at hm
    · cases hm
      exact ⟨h.honest, h.behind⟩
    · cases hm
  | createReserved i draw refusal memory now fault task m r hp hi hpc hid hm =>
    have hr := reserveCreate_sound cfg hs task.req draw refusal memory now fault
    rw [hm] at hr
    exact durable_of_sound hr
  | createRefused i draw refusal memory now fault task m e hp hi hpc hid hm =>
    have hr := reserveCreate_sound cfg hs task.req draw refusal memory now fault
    rw [hm] at hr
    exact durable_of_sound hr
  | createAbandon i reason now fault task r hp hi hpc =>
    exact durable_of_sound (persist_sound_after d.manager cfg now fault (hs.mono (by omega)) rfl)
  | createPublish i driver overlayMb reading now fault fault' task r m ok hp hi hpc hm =>
    have hr := publishCreate_sound cfg hs r driver overlayMb reading now fault fault'
    rw [hm] at hr
    exact durable_of_sound hr
  | createEnd i task id hp hi => cases id <;> exact ⟨h.honest, h.behind⟩
  | forkRefused req probe now fault fault' m e hp _ hm =>
    have hr := beginFork_sound cfg hs req probe now fault fault'
    rw [hm] at hr
    exact durable_of_sound hr
  | forkReplay req probe now fault fault' m res hp _ hm =>
    have hr := beginFork_sound cfg hs req probe now fault fault'
    rw [hm] at hr
    exact durable_of_sound hr
  | forkStarted req probe now fault fault' m res source children hp _ hm =>
    have hr := beginFork_sound cfg hs req probe now fault fault'
    rw [hm] at hr
    exact durable_of_sound hr
  | forkUnsaved req probe now fault fault' m res removed hp _ hm =>
    have hr := beginFork_sound cfg hs req probe now fault fault'
    rw [hm] at hr
    exact durable_of_sound hr
  | forkMoved _ i task pc hp hi hpc => exact ⟨h.honest, h.behind⟩
  | forkPublish i driver reading now fault task children next r m ok hp hi hpc hr hm =>
    have hr := publishChild_sound cfg hs r driver reading now fault
    rw [hm] at hr
    exact durable_of_sound hr
  | forkRollback i readings now fault task children hp hi hpc =>
    exact durable_of_sound (rollbackForkChildren_sound cfg hs children readings now fault)
  | forkFinish i readings now fault fault' task failed m e hp hi hpc hm =>
    have hr := finishFork_sound cfg hs task.res failed readings now fault fault'
    rw [hm] at hr
    exact durable_of_sound hr
  | forkClose i task succeeded hp hi hpc => exact ⟨h.honest, h.behind⟩
  | forkAnswered i readings now fault task m result hp hi hpc hdone hm =>
    have hr := forkReservationResult_sound cfg hs task.res readings now fault
    rw [hm] at hr
    exact durable_of_sound hr
  | forkCleaning i readings now fault task m removed hp hi hpc hdone hm =>
    have hr := forkReservationResult_sound cfg hs task.res readings now fault
    rw [hm] at hr
    exact durable_of_sound hr
  | forkCleaned i task hp hi hpc => exact ⟨h.honest, h.behind⟩
  | reconcileNext loaded doc operations index started p probe reading updatedAt now fault hp hi =>
    have hsave := hg.2
    simp only [RecoveryFresh, hp] at hsave
    simp only [Daemon.reconcileMachine]
    split
    · next reason hreason =>
      -- the only step that saves at a generation of its own
      obtain ⟨hhonest, hlast⟩ := finalizePersistedMachine_durable h.honest h.behind
        { doc with machines := doc.machines.set index (upgraded p) } index (upgraded p) reason updatedAt now
        fault (fun hseq hfinal => hsave p hi (by
          simp only [takesRecoverySave, hreason, hseq, hfinal, Option.isSome_some, decide_true,
            Bool.not_false, Bool.and_self]))
      split
      · next x doc' heq =>
        rw [heq] at hhonest hlast
        exact durable_of_commits (logTransition_commits x _ _ _ _ _) hhonest (hlast rfl)
      · next x doc' heq =>
        rw [heq] at hhonest
        exact exit_durable hhonest
    · have hr := reattach_commits d.manager (upgraded p) reading
      split
      · next x heq =>
        rw [heq] at hr
        exact durable_of_sound ((show x.commits = d.manager.commits from hr) ▸ h0)
      · next x heq =>
        rw [heq] at hr
        exact exit_durable ((show x.commits = d.manager.commits from hr) ▸ h0).honest
  | reconcileForks loaded doc operations index started readings hp hi =>
    have hr := settleOperations_commits loaded readings operations d.manager
    exact durable_of_sound (hr ▸ h0)
  | reconcileCommit now fault m ok hp hm =>
    have hr : m.commits.Sound 0 := persist_sound_of_eq d.manager cfg hm rfl rfl (hs.mono (by omega))
    cases ok with
    | true => exact durable_of_sound hr
    | false => exact exit_durable hr.honest
  | releaseHeld id verified now fault hp hid =>
    exact durable_of_sound (releaseAfterTeardown_sound cfg hs id _ verified now fault)
  | serve hp => exact ⟨h.honest, h.behind⟩

/-- **A reported commit is durable.**  From a host that finds any document, or none, along every run
whose steps keep the generations fresh: every save that answered `nil` left its document in the file. -/
theorem commits_durable (cfg : Config) (doc : Option MachineStateSnapshot) (acts : List Act) (d : Daemon)
    (hrun : RunIn (DaemonStep cfg) (GenerationsFresh cfg) (Daemon.found doc) acts d) :
    ∀ s ∈ d.manager.saves, s.ok = true → s.disk = some s.snapshot := by
  have h0 : (Daemon.found doc).Durable := ⟨fun s hs => (List.not_mem_nil hs).elim, le_refl 0⟩
  exact (hrun.invariant (fun _ _ _ h hs hg => durable_step h hs hg) h0).honest

/-- Three machines run, the daemon restarts, and the first of them is found lost. -/
def Sample.restartRun : List Act :=
  Sample.firstBoot ++ Sample.create 0 ++ Sample.create 1 ++ Sample.create 2 ++
    [.crash, Sample.boot, Sample.lost, Sample.recovered, .ready (Sample.hostMachineId 1) 0 .none]

/-- The saves of a restart in which no recovery save comes after a readiness. -/
theorem commits_durable_restart : ∃ d, Run (DaemonStep Sample.config) (Daemon.found none) Sample.restartRun d ∧
    d.manager.saves.length = 12 ∧ ∀ s ∈ d.manager.saves, s.ok = true → s.disk = some s.snapshot := by
  have h : ((Daemon.found none).runsIn Sample.config (GenerationsFresh Sample.config)
      Sample.restartRun).any (fun d => decide (d.manager.saves.length = 12)) = true := by decide +kernel
  obtain ⟨d, hrun, hd⟩ := Daemon.runsIn_test Sample.config h
  exact ⟨d, hrun.run, hd, commits_durable Sample.config none Sample.restartRun d hrun⟩

/-- Three machines run, the daemon restarts, two of them become ready and the third is found lost. -/
def Sample.skippedRun : List Act :=
  Sample.firstBoot ++ Sample.create 0 ++ Sample.create 1 ++ Sample.create 2 ++
    [.crash, Sample.boot, Sample.recovered, Sample.recovered, .ready (Sample.hostMachineId 0) 0 .none,
     .ready (Sample.hostMachineId 1) 0 .none, Sample.lost]

/-- The recovery save of the third machine answers `nil` and writes nothing. -/
theorem recovery_save_skipped : ∃ d, Run (DaemonStep Sample.config) (Daemon.found none) Sample.skippedRun d ∧
    ∃ s ∈ d.manager.saves, s.ok = true ∧ s.disk ≠ some s.snapshot := by
  have h : ((Daemon.found none).runsIn Sample.config Unguarded Sample.skippedRun).any (fun d =>
      decide (∃ s ∈ d.manager.saves, s.ok = true ∧ s.disk ≠ some s.snapshot)) = true := by decide +kernel
  obtain ⟨d, hrun, hd⟩ := Daemon.runsIn_test Sample.config h
  exact ⟨d, hrun.run, hd⟩

end Nehemiah.Host
