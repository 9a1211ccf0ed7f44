import Nehemiah.Host.Flights

/-!
# What leaves the host

`pendingMeteringBatch` hands the head of the outbox to the control plane.  An operation that appends an
observation saves it before it gives up the lock, or takes it back when the save fails: a create, a destroy, an
expiry, a checkpoint and the cleanups of a fork do so.  The boot of a fork child does not: a start that could
not be saved stays in the outbox, and only a later section of the fork deals with it.

* `pending_saved`: in every run in which the starts of fork children are saved, what `pendingMeteringBatch`
  returns is in the snapshot last saved successfully.
* `pending_written`: where the generations stay fresh besides, that snapshot was written to the file.
* `unsaved_start_pending`: the save of a child's start fails, and the start is in the next batch.

The requests that carry a batch are outside the model; an acknowledgement is a step of its own.
-/

namespace Nehemiah.Host

open Billing Manager Lib

/-! ### The last save -/

/-- The snapshot of the last save that answered `nil`: it was written, or the store had passed its generation and left
the file as it was. -/
def lastSaved (saves : List SaveRecord) : Option MachineStateSnapshot :=
  (saves.reverse.find? (·.ok)).map (·.snapshot)

/-- The outbox of the snapshot last saved successfully. -/
def secured (saves : List SaveRecord) : List HostUsageObservation :=
  (lastSaved saves).elim [] (·.meteringOutbox)

theorem secured_append (saves : List SaveRecord) (s : SaveRecord) :
    secured (saves ++ [s]) = if s.ok then s.snapshot.meteringOutbox else secured saves := by
  simp only [secured, lastSaved, List.reverse_append, List.reverse_singleton, List.singleton_append,
    List.find?_cons]
  cases s.ok <;> rfl

theorem mem_secured {saves : List SaveRecord} {o : HostUsageObservation} :
    o ∈ secured saves ↔ ∃ s, lastSaved saves = some s ∧ o ∈ s.meteringOutbox := by
  simp only [secured]
  cases lastSaved saves with
  | none => simp
  | some s => simp

/-- The outbox holds only what the snapshot last saved successfully holds. -/
def Manager.Backed (mgr : Manager) : Prop := mgr.meteringOutbox ⊆ secured mgr.saves

/-- Since `mgr`, no save has succeeded, and the outbox has only grown. -/
structure Manager.Drafts (mgr x : Manager) : Prop where
  saves : secured x.saves = secured mgr.saves
  outbox : mgr.meteringOutbox <+: x.meteringOutbox

section Saves

variable {mgr x y : Manager} {cfg : Config} {now : Time} {fault : SaveFault}

theorem persist_saves (x : Manager) (cfg : Config) (now : Time) (fault : SaveFault) :
    secured (x.persist cfg now fault).1.saves
      = if (x.persist cfg now fault).2 then x.meteringOutbox else secured x.saves :=
  secured_append x.saves _

/-- **What a save that succeeds has written is backed.** -/
theorem persist_backed (heq : x.persist cfg now fault = (y, true)) : y.Backed := by
  have hs := persist_saves x cfg now fault
  rw [heq] at hs
  have hout : y.meteringOutbox = x.meteringOutbox := congrArg Books.meteringOutbox (persist_books heq).1
  intro o ho
  show o ∈ secured y.saves
  rw [hs, if_pos rfl, ← hout]
  exact ho

namespace Manager.Drafts

theorem refl (mgr : Manager) : mgr.Drafts mgr := ⟨rfl, List.prefix_refl _⟩

theorem trans (h : mgr.Drafts x) (h' : x.Drafts y) : mgr.Drafts y :=
  ⟨h'.saves.trans h.saves, h.outbox.trans h'.outbox⟩

/-- A change of anything else. -/
theorem frame (h : mgr.Drafts x) (hsaves : y.saves = x.saves) (hout : y.meteringOutbox = x.meteringOutbox) :
    mgr.Drafts y :=
  ⟨by rw [hsaves, h.saves], by rw [hout]; exact h.outbox⟩

theorem commits (h : mgr.Drafts x) (hcommits : y.commits = x.commits)
    (hout : y.meteringOutbox = x.meteringOutbox) : mgr.Drafts y :=
  h.frame (congrArg Commits.saves hcommits) hout

theorem failed (h : mgr.Drafts x) (heq : x.persist cfg now fault = (y, false)) : mgr.Drafts y := by
  have hs := persist_saves x cfg now fault
  rw [heq] at hs
  have hout : y.meteringOutbox = x.meteringOutbox := congrArg Books.meteringOutbox (persist_books heq).1
  exact ⟨by rw [hs, if_neg Bool.false_ne_true, h.saves], by rw [hout]; exact h.outbox⟩

/-- A save fails, of a state with the same outbox. -/
theorem unsaved {z : Manager} (h : mgr.Drafts x) (heq : z.persist cfg now fault = (y, false))
    (hsaves : z.saves = x.saves) (hout : z.meteringOutbox = x.meteringOutbox) : mgr.Drafts y :=
  (h.frame hsaves hout).failed heq

/-- **What was appended is taken back.** -/
theorem withdrawn (h : mgr.Drafts x) (hb : mgr.Backed) (hsaves : y.saves = x.saves)
    (hout : y.meteringOutbox = x.meteringOutbox.take mgr.meteringOutbox.length) : y.Backed := by
  intro o ho
  rw [hout, ← List.prefix_iff_eq_take.mp h.outbox] at ho
  rw [hsaves, h.saves]
  exact hb ho

/-- Nothing was appended. -/
theorem unchanged (h : mgr.Drafts x) (hb : mgr.Backed) (hout : x.meteringOutbox = mgr.meteringOutbox) :
    x.Backed := by
  intro o ho
  rw [hout] at ho
  rw [h.saves]
  exact hb ho

theorem sample {r : ℕ} {terminal ok : Bool} {reading : Reading} (h : mgr.Drafts x)
    (heq : x.sample r terminal reading = (y, ok)) : mgr.Drafts y := by
  have hv := sample_visits x heq
  exact h.trans ⟨congrArg (fun f : Filed => secured f.commits.saves) hv.filed, hv.outbox⟩

theorem meter {r : ℕ} {ok : Bool} {reading : Reading} (h : mgr.Drafts x)
    (heq : x.recordMeterStart r reading = (y, ok)) : mgr.Drafts y := by
  obtain ⟨_, hout, hfiled, _⟩ := meter_registry x heq
  exact h.trans ⟨congrArg (fun f : Filed => secured f.commits.saves) hfiled, hout⟩

theorem sampleAll (h : mgr.Drafts x) (readings : ℕ → Reading) (order : List ℕ) :
    mgr.Drafts (sampleAll readings x order).1 := by
  have hv := sampleAll_visits readings order x
  exact h.trans ⟨congrArg (fun f : Filed => secured f.commits.saves) hv.filed, hv.outbox⟩

end Manager.Drafts

/-- **A save with nothing new in the outbox**, whether it succeeds or not. -/
theorem Manager.Backed.settled (hb : mgr.Backed) (hsaves : x.saves = mgr.saves)
    (hout : x.meteringOutbox = mgr.meteringOutbox) : (x.persist cfg now fault).1.Backed := by
  have hx : mgr.Drafts x := (Drafts.refl mgr).frame hsaves hout
  cases hp : x.persist cfg now fault with
  | mk y ok =>
    cases ok with
    | true => exact persist_backed hp
    | false =>
      have hy : y.meteringOutbox = x.meteringOutbox := congrArg Books.meteringOutbox (persist_books hp).1
      exact (hx.failed hp).unchanged hb (hy.trans hout)

/-! ### Cleanup -/

theorem removeChildren_drafts (reason : String) (readings : ℕ → Reading) (ids : List String) :
    ∀ x : Manager, mgr.Drafts x → mgr.Drafts (removeChildren reason readings x ids).1 := by
  induction ids with
  | nil => exact fun _ h => h
  | cons id rest ih =>
    intro x h
    simp only [removeChildren]
    split
    · exact ih x h
    · next r _ =>
      split
      · next y heq => exact ih _ ((h.sample heq).frame rfl rfl)
      · next y heq => exact ih _ ((h.sample heq).frame rfl rfl)

theorem Manager.Drafts.removeForkChildren (h : mgr.Drafts x) (ids : List String) (reason : String)
    (readings : ℕ → Reading) : mgr.Drafts (x.removeForkChildren ids reason readings).1 := by
  simp only [Manager.removeForkChildren]
  split
  · exact h.frame rfl rfl
  · exact removeChildren_drafts reason readings _ x h

/-- Machines that are not metered leave without an observation. -/
theorem removeChildren_unmetered (reason : String) (readings : ℕ → Reading) (ids : List String) :
    ∀ x : Manager, (∀ id ∈ ids, ∀ r, x.find id = some r → (x.objects r).metering.sequence = 0) →
      (removeChildren reason readings x ids).1.meteringOutbox = x.meteringOutbox := by
  induction ids with
  | nil => exact fun _ _ => rfl
  | cons id rest ih =>
    intro x h
    simp only [removeChildren]
    split
    · exact ih x fun id' hid' => h id' (List.mem_cons_of_mem _ hid')
    · next r hr =>
      have hskip : x.sample r true (readings r) = (x, true) := by
        simp only [Manager.sample]
        rw [if_pos (Or.inl (h id List.mem_cons_self r hr))]
      rw [hskip]
      refine ih _ fun id' hid' r' hr' => h id' (List.mem_cons_of_mem _ hid') r' ?_
      have hfind : (x.unregister id).find id' = some r' := hr'
      rw [find_unregister] at hfind
      split at hfind
      · cases hfind
      · exact hfind

theorem removeForkChildren_unmetered {ids : List String} (reason : String) (readings : ℕ → Reading)
    (h : ∀ id ∈ ids, ∀ r, x.find id = some r → (x.objects r).metering.sequence = 0) :
    (x.removeForkChildren ids reason readings).1.meteringOutbox = x.meteringOutbox := by
  simp only [Manager.removeForkChildren]
  split
  · rfl
  · exact removeChildren_unmetered reason readings _ x fun id hid => h id (List.mem_eraseDups.mp hid)

/-- **A cleanup that is put back leaves the outbox as it was at the checkpoint.** -/
theorem Manager.Drafts.restored (h : mgr.Drafts x) (hb : mgr.Backed) (ids : List String) :
    (x.restoreForkCleanup (mgr.captureForkCleanup ids)).Backed := by
  have hfold : ∀ (es : List (ℕ × MachineStatus × MachineMeteringState)) (y : Manager),
      (es.foldl restoreMachine y).meteringOutbox = y.meteringOutbox := by
    intro es
    induction es with
    | nil => exact fun _ => rfl
    | cons e es ih => exact fun y => ih (y.restoreMachine e)
  refine h.withdrawn hb (congrArg Commits.saves (restoreForkCleanup_commits x _)) ?_
  show ((mgr.captureForkCleanup ids).machines.foldl restoreMachine x).meteringOutbox.take _ = _
  rw [hfold]
  rfl

end Saves

/-! ### Sections -/

section Sections

variable {mgr : Manager} (cfg : Config) (hb : mgr.Backed)

include hb

theorem becomeReady_backed (id : String) (now : Time) (fault : SaveFault) :
    (mgr.becomeReady cfg id now fault).Backed := by
  simp only [becomeReady]
  split
  · exact hb
  · split
    · exact hb
    · exact hb.settled rfl rfl

theorem extend_backed (id leaseId key : String) (target now : Time) (fault : SaveFault) :
    (mgr.extend cfg id leaseId key target now fault).1.Backed := by
  simp only [extend]
  split
  · exact hb
  · split
    · exact hb
    · split
      · split <;> exact hb
      · dsimp only
        exact hb.settled rfl rfl

theorem destroy_backed (id : String) (reading : Reading) (now : Time) (fault : SaveFault) :
    (mgr.destroy cfg id reading now fault).1.Backed := by
  simp only [destroy]
  split
  · exact hb
  · next r _ =>
    have hstop : mgr.Drafts ((mgr.setStatus r .stopping).transition r (some (mgr.objects r).status) .stopping
        "delete_requested") := (Drafts.refl mgr).frame rfl rfl
    split
    · next x heq => exact (hstop.sample heq).withdrawn hb rfl rfl
    · next x heq =>
      have hx : mgr.Drafts ((x.unregister id).transition r (some .stopping) .stopped "deleted") :=
        (hstop.sample heq).frame rfl rfl
      split
      · next y hy => exact persist_backed hy
      · next y hy =>
        have hy' := hx.failed hy
        split
        · exact hy'.withdrawn hb rfl rfl
        · next hunmetered =>
          -- an unmetered machine was not sampled, so the failed save hides nothing
          refine hy'.unchanged hb ?_
          have hout : y.meteringOutbox = x.meteringOutbox := congrArg Books.meteringOutbox (persist_books hy).1
          rw [hout]
          have hs := sample_sampled ((mgr.setStatus r .stopping).transition r (some (mgr.objects r).status)
            .stopping "delete_requested") r true reading
          rw [heq] at hs
          cases hs with
          | skipped _ => rfl
          | emitted _ _ _ s healthy _ _ _ _ =>
            rw [emit_object] at hunmetered
            exact absurd (Nat.succ_pos _) hunmetered

theorem reap_backed (id : String) (reading : Reading) (now : Time) (fault : SaveFault) :
    (mgr.reap cfg id reading now fault).1.Backed := by
  simp only [reap]
  split
  · exact hb
  · next r _ =>
    split
    · next x heq => exact ((Drafts.refl mgr).sample heq).withdrawn hb rfl rfl
    · next x heq =>
      have hx : mgr.Drafts ((x.unregister id).transition r (some (mgr.objects r).status) .stopped
          "ttl_expired") := ((Drafts.refl mgr).sample heq).frame rfl rfl
      split
      · next y hy => exact persist_backed hy
      · next y hy => exact (hx.failed hy).withdrawn hb rfl rfl

theorem releaseAfterTeardown_backed (id : String) (expected : Option JailerIdentity) (verified : Bool)
    (now : Time) (fault : SaveFault) : (mgr.releaseAfterTeardown cfg id expected verified now fault).Backed := by
  simp only [releaseAfterTeardown]
  split
  · exact hb
  · split
    · exact hb
    · have hdraft : mgr.Drafts (mgr.releaseIdentity id) := (Drafts.refl mgr).frame rfl rfl
      split
      · next y hy => exact persist_backed hy
      · next y hy =>
        have hout : y.meteringOutbox = mgr.meteringOutbox := congrArg Books.meteringOutbox (persist_books hy).1
        exact ((hdraft.failed hy).frame rfl rfl).unchanged hb hout

theorem checkpoint_backed (order : List ℕ) (readings : ℕ → Reading) (now : Time) (fault : SaveFault) :
    (mgr.checkpoint cfg order readings now fault).1.Backed := by
  simp only [checkpoint]
  split
  · exact hb
  · split
    · exact hb
    · have hall := (Drafts.refl mgr).sampleAll readings order
      split
      · next x visited heq =>
        rw [heq] at hall
        exact hall.withdrawn hb rfl rfl
      · next x visited heq =>
        rw [heq] at hall
        split
        · next y hy => exact persist_backed hy
        · next y hy => exact (hall.failed hy).withdrawn hb rfl rfl

/-- An acknowledgement removes what was delivered, or leaves the outbox as it was. -/
theorem acknowledge_backed (sent : List HostUsageObservation) (receipts : List Receipt) (now : Time)
    (fault : SaveFault) : (mgr.acknowledge cfg sent receipts now fault).1.Backed := by
  simp only [acknowledge]
  split
  · exact hb
  · split
    · exact hb
    · split
      · exact hb
      · split
        · next y hy =>
          show y.Backed
          exact persist_backed hy
        · next y hy =>
          have hs := persist_saves { mgr with
            meteringOutbox := mgr.meteringOutbox.drop sent.length
            acknowledged := mgr.acknowledged ++ mgr.meteringOutbox.take sent.length } cfg now fault
          rw [hy] at hs
          intro o ho
          show o ∈ secured y.saves
          rw [hs, if_neg Bool.false_ne_true]
          exact hb ho

theorem reserveCreate_backed (req : CreateRequest) (draw : Draw) (refusal : Option HostError)
    (memory : Bool) (now : Time) (fault : SaveFault) :
    (mgr.reserveCreate cfg req draw refusal memory now fault).1.Backed := by
  simp only [reserveCreate]
  split
  · exact hb
  · split
    · exact hb
    · split
      · exact hb
      · split
        · exact hb
        · split
          · exact hb
          · split
            · exact hb
            · next held identity heq =>
              obtain ⟨identities, rfl⟩ := reserveJailerIdentity_same mgr cfg heq
              have hdraft : mgr.Drafts (({ mgr with jailerIdentities := identities }.allocate
                  (createdMachine req draw.id identity)).1.transition
                  ({ mgr with jailerIdentities := identities }.allocate
                    (createdMachine req draw.id identity)).2 none .booting "create") :=
                (Drafts.refl mgr).frame rfl rfl
              split
              · next y hy => exact persist_backed hy
              · next y hy =>
                have hout : y.meteringOutbox = mgr.meteringOutbox :=
                  congrArg Books.meteringOutbox (persist_books hy).1
                exact ((hdraft.failed hy).frame rfl rfl).unchanged hb hout

theorem abandonCreate_backed (r : ℕ) (reason : String) (now : Time) (fault : SaveFault) :
    (mgr.abandonCreate cfg r reason now fault).Backed :=
  hb.settled rfl rfl

theorem publishCreate_backed (r : ℕ) (driver : Driver) (overlayMb : ℕ) (reading : Reading) (now : Time)
    (fault fault' : SaveFault) :
    (mgr.publishCreate cfg r driver overlayMb reading now fault fault').1.Backed := by
  simp only [publishCreate]
  split
  · exact hb.settled rfl rfl
  · set running := (mgr.started r driver overlayMb).transition r (some .booting) .starting "vmm_started"
      with hrunning
    have hrun : mgr.Drafts running := (Drafts.refl mgr).frame rfl rfl
    split
    · next x heq =>
      obtain ⟨_, _, hfiled, hfailed⟩ := meter_registry running heq
      have hsaves : x.saves = mgr.saves := congrArg (fun f : Filed => f.commits.saves) hfiled
      have hout : x.meteringOutbox = mgr.meteringOutbox := congrArg Books.meteringOutbox (hfailed rfl)
      exact hb.settled hsaves hout
    · next x heq =>
      have hx : mgr.Drafts x := hrun.meter heq
      split
      · next y hy => exact persist_backed hy
      · next y hy =>
        split
        · have hundone : Manager.Backed { y.setMetering r {} with
              meteringOutbox := y.meteringOutbox.take mgr.meteringOutbox.length } :=
            (hx.failed hy).withdrawn hb rfl rfl
          exact hundone.settled rfl rfl
        · next hunmetered =>
          refine (hx.failed hy).unchanged hb ?_
          have hout : y.meteringOutbox = x.meteringOutbox := congrArg Books.meteringOutbox (persist_books hy).1
          have hs := recordMeterStart_started running r reading
          rw [heq] at hs
          cases hs with
          | unmetered _ => exact hout
          | emitted now healthy _ _ _ _ =>
            rw [emit_object] at hunmetered
            exact absurd one_pos hunmetered

theorem rollbackForkChildren_backed (children : List ℕ) (readings : ℕ → Reading) (now : Time)
    (fault : SaveFault) : (mgr.rollbackForkChildren cfg children readings now fault).1.Backed := by
  simp only [rollbackForkChildren]
  have hremoved := (Drafts.refl mgr).removeForkChildren (children.map fun r => (mgr.objects r).id)
    "managed_fork_rollback" readings
  split
  · next y hy => exact persist_backed hy
  · next y hy => exact (hremoved.failed hy).restored hb _

theorem finishFork_backed (res : ℕ) (failed : Bool) (readings : ℕ → Reading) (now : Time)
    (fault fault' : SaveFault) : (mgr.finishFork cfg res failed readings now fault fault').1.Backed := by
  simp only [finishFork]
  split
  · have hremoved := (Drafts.refl mgr).removeForkChildren (mgr.reservations res).childIds
      "managed_fork_terminal_cleanup" readings
    split
    · next y hy => exact persist_backed hy
    · next y hy =>
      have hy' : mgr.Drafts y := hremoved.unsaved hy rfl rfl
      split
      · next z hz => exact persist_backed hz
      · next z hz => exact (hy'.failed hz).restored hb _
  · split
    · next y hy => exact persist_backed hy
    · next y hy =>
      have hsucceeded : mgr.Drafts (mgr.modifyReservation res fun v => { v with state := .succeeded, err := none }) :=
        (Drafts.refl mgr).frame rfl rfl
      have hremoved := (hsucceeded.failed hy).removeForkChildren (mgr.reservations res).childIds
        "managed_fork_terminal_persist_failed" readings
      split
      · next z hz => exact persist_backed hz
      · next z hz => exact (hremoved.unsaved hz rfl rfl).restored hb _

theorem forkReservationResult_backed (res : ℕ) (readings : ℕ → Reading) (now : Time) (fault : SaveFault) :
    (mgr.forkReservationResult cfg res readings now fault).1.Backed := by
  simp only [forkReservationResult]
  split
  · exact hb
  · split
    · exact hb
    · split
      · exact hb
      · split
        · split <;> exact hb
        · have hremoved := (Drafts.refl mgr).removeForkChildren (mgr.reservations res).childIds
            "managed_fork_incomplete_replay_cleanup" readings
          split
          · next y hy => exact persist_backed hy
          · next y hy => exact (hremoved.unsaved hy rfl rfl).restored hb _

/-- The children of a reservation that could not be saved are not metered, so their removal appends
nothing. -/
theorem reserveFork_backed (hp : mgr.Placed) (req : ForkRequest) (source : ℕ) (ips : List String)
    (probe : ForkProbe) (now : Time) (fault fault' : SaveFault)
    (hfree : ∀ id ∈ (req.children.zip (ips.zip probe.draws)).map (·.2.2.id), mgr.registered id = false) :
    (mgr.reserveFork cfg req source ips probe now fault fault').1.Backed := by
  have hreserved := reserveChildren_reserved cfg (mgr.objects source)
    (req.children.zip (ips.zip probe.draws)) mgr
  have hcommits := reserveChildren_commits cfg (mgr.objects source)
    (req.children.zip (ips.zip probe.draws)) mgr
  simp only [reserveFork]
  split
  · next x hx =>
    rw [hx] at hreserved hcommits
    exact ((Drafts.refl mgr).commits hcommits hreserved.outbox).unchanged hb hreserved.outbox
  · next x children hx =>
    rw [hx] at hreserved hcommits
    simp only [Option.getD_some] at hreserved
    split
    · next y hy => exact persist_backed hy
    · next y hy =>
      have hx' : mgr.Drafts x := (Drafts.refl mgr).commits hcommits hreserved.outbox
      have hdraft : mgr.Drafts y := hx'.unsaved hy rfl rfl
      have hbooks := (persist_books hy).1
      have hobjects : y.objects = x.objects := congrArg Books.objects hbooks
      have hmachines : y.machines = x.machines := congrArg Books.machines hbooks
      have hy' : y.meteringOutbox = mgr.meteringOutbox :=
        (congrArg Books.meteringOutbox hbooks).trans hreserved.outbox
      have hunmetered : ∀ id ∈ children.map (fun r => (x.objects r).id), ∀ r, y.find id = some r →
          (y.objects r).metering.sequence = 0 := by
        intro id hid r hr
        obtain ⟨hmem, rfl⟩ := find_some hr
        rw [hmachines] at hmem
        rw [hobjects] at hid ⊢
        rcases hreserved.admits.refs r hmem with hold | ⟨hge, hlt, _⟩
        · -- the id was drawn, so no machine had it
          obtain ⟨child, hchild, hcid⟩ := List.mem_map.mp hid
          have hdrawn := hfree _ (hreserved.children child hchild).2
          rw [← Bool.not_eq_true, registered_iff] at hdrawn
          refine absurd ⟨r, hold, ?_⟩ hdrawn
          rw [hcid, hreserved.same r (hp r hold)]
        · rw [hreserved.unmetered r hge hlt]
      have hremoved := removeForkChildren_unmetered "managed_fork_reservation_persist_failed"
        (fun _ => ⟨none, none, ""⟩) hunmetered
      have hsaves := hdraft.removeForkChildren (children.map fun r => (x.objects r).id)
        "managed_fork_reservation_persist_failed" fun _ => ⟨none, none, ""⟩
      exact (hsaves.unchanged hb (hremoved.trans hy')).settled rfl rfl

theorem beginFork_backed (hp : mgr.Placed) {req : ForkRequest} {probe : ForkProbe}
    (hdraws : ForkDraws mgr req probe) (now : Time) (fault fault' : SaveFault) :
    (mgr.beginFork cfg req probe now fault fault').1.Backed := by
  have hpruned : (mgr.pruneForkReservations now).Backed := hb
  obtain ⟨e, x, hx, heq⟩ | ⟨res, _, heq⟩ | ⟨source, ips, _, _, _, _, _, hips, heq⟩ :=
    beginFork_cases mgr cfg req probe now fault fault'
  · rw [heq]
    rcases hx with rfl | rfl
    · exact hb
    · exact hpruned
  · rw [heq]
    exact hb
  · rw [heq]
    refine reserveFork_backed cfg hpruned hp req source ips probe now fault fault' fun id hid => ?_
    obtain ⟨c, hc, rfl⟩ := List.mem_map.mp hid
    have hdraw := (List.of_mem_zip (List.of_mem_zip hc).2).2
    exact newIdFree_registered (hdraws.free _ (List.mem_map_of_mem hdraw))

end Sections

/-! ### The boot of a fork child -/

/-- A save at this generation answers `nil`. -/
def StateStore.answersNil (s : StateStore) (generation : ℕ) (fault : SaveFault) : Bool :=
  decide (generation < s.lastSaved) || decide (fault = .none)

theorem save_answersNil (s : StateStore) (snapshot : MachineStateSnapshot) (fault : SaveFault) :
    (s.save snapshot fault).2 = s.answersNil snapshot.generation fault := by
  unfold StateStore.save StateStore.answersNil
  by_cases hold : snapshot.generation < s.lastSaved
  · rw [if_pos hold, decide_eq_true hold, Bool.true_or]
  · rw [if_neg hold, decide_eq_false hold]
    cases fault <;> rfl

/-- The boot of this child records a start: the child is registered, the host takes new work, the lease is
metered, the outbox has room and the clock can be read. -/
def Manager.recordsStart (mgr : Manager) (r : ℕ) (driver : Driver) (reading : Reading) : Bool :=
  let m := mgr.objects r
  mgr.current r && mgr.admissionHealthy && metered m.toMachineRecord && decide (1 < driver.pid)
    && (if m.meteringReserved then
          mgr.hostBootId != "" && decide (mgr.meteringOutbox.length < maxMeteringOutbox)
        else mgr.meteringCanReserve 1)
    && reading.monotonic.isSome

/-- A start that is recorded has passed every check. -/
theorem recordMeterStart_appends {x y : Manager} {r : ℕ} {reading : Reading} {ok : Bool}
    (heq : x.recordMeterStart r reading = (y, ok)) : y.meteringOutbox = x.meteringOutbox ∨
      metered (x.objects r).toMachineRecord = true ∧ (x.objects r).driver.all (·.pid ≤ 1) = false ∧
      (if (x.objects r).meteringReserved then
        x.hostBootId != "" && decide (x.meteringOutbox.length < maxMeteringOutbox)
      else x.meteringCanReserve 1) = true ∧ reading.monotonic.isSome = true := by
  have hs := recordMeterStart_started x r reading
  rw [heq] at hs
  cases hs with
  | unmetered _ => exact Or.inl rfl
  | failed healthy => exact Or.inl rfl
  | emitted now healthy hmetered hclock hboot hroom =>
    refine Or.inr ⟨hmetered, ?_, ?_, by rw [hclock]; rfl⟩
    · cases hdriver : (x.objects r).driver.all (·.pid ≤ 1) with
      | false => rfl
      | true =>
        simp only [recordMeterStart, hmetered, hdriver] at heq
        cases (Prod.ext_iff.mp heq).2
    · cases hreserved : (x.objects r).meteringReserved with
      | true =>
        rw [if_pos rfl, bne_iff_ne.mpr hboot, decide_eq_true hroom]
        rfl
      | false =>
        cases hfree : x.meteringCanReserve 1 with
        | true => rfl
        | false =>
          simp only [recordMeterStart, hmetered, hreserved, hfree, Bool.not_true, Bool.not_false, Bool.and_self,
            Bool.false_eq_true, if_false, if_true] at heq
          split at heq <;> cases congrArg Prod.snd heq

theorem publishChild_backed {mgr : Manager} (cfg : Config) (hb : mgr.Backed) (r : ℕ) (driver : Driver)
    (reading : Reading) (now : Time) (fault : SaveFault)
    (hsaved : mgr.recordsStart r driver reading = true →
      mgr.store.answersNil (nextGeneration mgr.stateGeneration) fault = true) :
    (mgr.publishChild cfg r driver reading now fault).1.Backed := by
  simp only [publishChild]
  split
  · exact hb
  · next hkept =>
    set running := (mgr.modifyMachine r fun m =>
      { m with driver := some driver, status := .starting }).transition r (some .booting) .starting
      "managed_fork_vmm_started" with hrunning
    have hrun : mgr.Drafts running := (Drafts.refl mgr).frame rfl rfl
    split
    · next x heq =>
      obtain ⟨_, _, _, hfailed⟩ := meter_registry running heq
      have hout : x.meteringOutbox = mgr.meteringOutbox := congrArg Books.meteringOutbox (hfailed rfl)
      exact (hrun.meter heq).unchanged hb hout
    · next x heq =>
      obtain ⟨_, _, hfiled, _⟩ := meter_registry running heq
      have hcommits : x.commits = mgr.commits := congrArg Filed.commits hfiled
      rcases recordMeterStart_appends heq with hout | ⟨hmetered, hpid, hroom, hclock⟩
      · exact hb.settled (congrArg Commits.saves hcommits) hout
      · have hobj : running.objects r = { mgr.objects r with driver := some driver, status := .starting } := by
          simp only [hrunning, transition, Manager.logTransition, modifyMachine, Function.update_self]
        have hreserved : ∀ r', (running.objects r').meteringReserved = (mgr.objects r').meteringReserved := by
          intro r'
          simp only [hrunning, transition, Manager.logTransition, modifyMachine]
          by_cases hr : r' = r
          · rw [hr, Function.update_self]
          · rw [Function.update_of_ne hr]
        have hcan : running.meteringCanReserve 1 = mgr.meteringCanReserve 1 := by
          simp only [meteringCanReserve, hreserved]
          rfl
        have hstart : mgr.recordsStart r driver reading = true := by
          rw [hobj] at hmetered hpid hroom
          rw [hcan] at hroom
          simp only [Bool.or_eq_true, bne_iff_ne, ne_eq, not_or, not_not, Bool.not_eq_true',
            Bool.not_eq_false] at hkept
          have hpid' : 1 < driver.pid := by simpa using hpid
          have hmetered' : metered (mgr.objects r).toMachineRecord = true := hmetered
          have hroom' : (if (mgr.objects r).meteringReserved then
              mgr.hostBootId != "" && decide (mgr.meteringOutbox.length < maxMeteringOutbox)
            else mgr.meteringCanReserve 1) = true := hroom
          simp only [Manager.recordsStart, Manager.current, hkept.1, hkept.2, hmetered', hroom', hclock, hpid',
            beq_self_eq_true, decide_true, Bool.and_self]
        have hnil : (x.persist cfg now fault).2 = true := by
          have hstore : x.store = mgr.store := congrArg Commits.store hcommits
          have hgen : x.stateGeneration = mgr.stateGeneration := congrArg Commits.stateGeneration hcommits
          have hans := save_answersNil x.store (x.snapshot cfg (nextGeneration x.stateGeneration) now) fault
          have hgen' : (x.snapshot cfg (nextGeneration x.stateGeneration) now).generation
              = nextGeneration mgr.stateGeneration := by
            rw [← hgen]
            rfl
          rw [hgen', hstore, hsaved hstart, ← hstore] at hans
          exact hans
        exact persist_backed (Prod.ext rfl hnil)

/-! ### Runs -/

/-- The start that a boot of a fork child records is saved. -/
def startSaved (d : Daemon) : Act → Bool
  | .forkPublish i driver reading _ fault =>
    (d.child i).all fun r => !d.manager.recordsStart r driver reading
      || d.manager.store.answersNil (nextGeneration d.manager.stateGeneration) fault
  | _ => true

/-- The condition on a step: when it boots a fork child and records its start, its save does not fail. -/
def StartsSaved (d : Daemon) (a : Act) (_ : Daemon) : Prop := startSaved d a = true

instance (d : Daemon) (a : Act) (d' : Daemon) : Decidable (StartsSaved d a d') :=
  inferInstanceAs (Decidable (_ = true))

/-- The restart is committed. -/
def Phase.committed : Phase → Bool
  | .settling => true
  | .serving => true
  | _ => false

/-- The invariant: from the commit of the restart on, the outbox is backed. -/
structure Daemon.Secured (d : Daemon) : Prop where
  flights : d.Flights
  backed : d.phase.committed = true → d.manager.Backed

theorem secured_step {cfg : Config} {d d' : Daemon} {a : Act} (h : d.Secured) (hstep : DaemonStep cfg d a d')
    (hg : StartsSaved d a d') : d'.Secured := by
  have hs := Daemon.stepped hstep
  refine ⟨(flights_step h.flights hs).flights, ?_⟩
  have hserving : d.phase = .serving → d.manager.Backed := fun hp => h.backed (by rw [hp]; rfl)
  cases hs with
  | boot bootId available now fault hp =>
    simp only [Daemon.start]
    split
    · intro hc
      cases hc
    · split
      · next x hx => exact fun _ => persist_backed hx
      · intro hc
        cases hc
  | crash hp =>
    intro hc
    cases hc
  | ready id now fault hp => exact fun hc => becomeReady_backed cfg (h.backed hc) id now fault
  | reap id reading now fault hp =>
    rw [stopped_eq]
    exact fun hc => reap_backed cfg (h.backed hc) id reading now fault
  | teardown i r verified now fault hp hr =>
    exact fun hc => releaseAfterTeardown_backed cfg (h.backed hc) _ _ verified now fault
  | destroy id reading now fault hp =>
    rw [stopped_eq]
    exact fun _ => destroy_backed cfg (hserving hp) id reading now fault
  | extend id leaseId key target now fault hp =>
    exact fun _ => extend_backed cfg (hserving hp) id leaseId key target now fault
  | checkpoint order readings now fault hp _ =>
    exact fun _ => checkpoint_backed cfg (hserving hp) order readings now fault
  | acknowledge sent receipts now fault hp =>
    exact fun _ => acknowledge_backed cfg (hserving hp) sent receipts now fault
  | persist now fault hp => exact fun _ => (hserving hp).settled rfl rfl
  | health network cohort hp => exact fun _ => hserving hp
  | createBegin req m hp hm =>
    simp only [beginCreate] at hm
    split at hm
    · cases hm
      exact fun _ => hserving hp
    · cases hm
  | createReserved i draw refusal memory now fault task m r hp hi hpc hid hm =>
    have hr := reserveCreate_backed cfg (hserving hp) task.req draw refusal memory now fault
    rw [hm] at hr
    exact fun _ => hr
  | createRefused i draw refusal memory now fault task m e hp hi hpc hid hm =>
    have hr := reserveCreate_backed cfg (hserving hp) task.req draw refusal memory now fault
    rw [hm] at hr
    exact fun _ => hr
  | createAbandon i reason now fault task r hp hi hpc =>
    exact fun _ => abandonCreate_backed cfg (hserving hp) r reason now fault
  | createPublish i driver overlayMb reading now fault fault' task r m ok hp hi hpc hm =>
    have hr := publishCreate_backed cfg (hserving hp) r driver overlayMb reading now fault fault'
    rw [hm] at hr
    exact fun _ => hr
  | createEnd i task id hp hi => cases id <;> exact fun _ => hserving hp
  | forkRefused req probe now fault fault' m e hp hdraws hm =>
    have hr := beginFork_backed cfg (hserving hp) h.flights.placed hdraws now fault fault'
    rw [hm] at hr
    exact fun _ => hr
  | forkReplay req probe now fault fault' m res hp hdraws hm =>
    have hr := beginFork_backed cfg (hserving hp) h.flights.placed hdraws now fault fault'
    rw [hm] at hr
    exact fun _ => hr
  | forkStarted req probe now fault fault' m res source children hp hdraws hm =>
    have hr := beginFork_backed cfg (hserving hp) h.flights.placed hdraws now fault fault'
    rw [hm] at hr
    exact fun _ => hr
  | forkUnsaved req probe now fault fault' m res removed hp hdraws hm =>
    have hr := beginFork_backed cfg (hserving hp) h.flights.placed hdraws now fault fault'
    rw [hm] at hr
    exact fun _ => hr
  | forkMoved _ i task pc hp hi hpc ha => exact fun _ => hserving hp
  | forkPublish i driver reading now fault task children next r m ok hp hi hpc hr hm =>
    have hchild : d.child i = some r := by
      obtain ⟨res, pc⟩ := task
      cases hpc
      simp only [Daemon.child, hi, hr]
    have hb := publishChild_backed cfg (hserving hp) r driver reading now fault fun hstart => by
      simpa [StartsSaved, startSaved, hchild, hstart] using hg
    rw [hm] at hb
    exact fun _ => hb
  | forkRollback i readings now fault task children hp hi hpc =>
    exact fun _ => rollbackForkChildren_backed cfg (hserving hp) children readings now fault
  | forkFinish i readings now fault fault' task failed m e hp hi hpc hm =>
    have hr := finishFork_backed cfg (hserving hp) task.res failed readings now fault fault'
    rw [hm] at hr
    exact fun _ => hr
  | forkClose i task succeeded hp hi hpc => exact fun _ => hserving hp
  | forkAnswered i readings now fault task m result hp hi hpc hdone hm =>
    have hr := forkReservationResult_backed cfg (hserving hp) task.res readings now fault
    rw [hm] at hr
    exact fun _ => hr
  | forkCleaning i readings now fault task m removed hp hi hpc hdone hm =>
    have hr := forkReservationResult_backed cfg (hserving hp) task.res readings now fault
    rw [hm] at hr
    exact fun _ => hr
  | forkCleaned i task hp hi hpc => exact fun _ => hserving hp
  | reconcileNext loaded doc operations index started p probe reading updatedAt now fault hp hi =>
    simp only [Daemon.reconcileMachine]
    split
    · split <;> (intro hc; cases hc)
    · split <;> (intro hc; cases hc)
  | reconcileForks loaded doc operations index started readings hp hi =>
    intro hc
    cases hc
  | reconcileCommit now fault m ok hp hm =>
    cases ok with
    | true => exact fun _ => persist_backed hm
    | false =>
      intro hc
      cases hc
  | releaseHeld id verified now fault hp hid =>
    exact fun hc => releaseAfterTeardown_backed cfg (h.backed hc) id _ verified now fault
  | serve hp => exact fun _ => h.backed (by rw [hp]; rfl)

theorem secured_run {cfg : Config} {doc : Option MachineStateSnapshot} {acts : List Act} {d : Daemon}
    (hrun : RunIn (DaemonStep cfg) StartsSaved (Daemon.found doc) acts d) : d.Secured := by
  have h0 : (Daemon.found doc).Secured := by
    refine ⟨empty_flights rfl rfl rfl rfl trivial, ?_⟩
    intro hc
    cases hc
  exact hrun.invariant (fun _ _ _ h hs hg => secured_step h hs hg) h0

theorem Daemon.Secured.pending {d : Daemon} (h : d.Secured) (hp : d.phase = .serving) :
    ∀ o ∈ d.manager.pendingMeteringBatch, ∃ s, lastSaved d.manager.saves = some s ∧ o ∈ s.meteringOutbox :=
  fun _ ho => mem_secured.mp (h.backed (by rw [hp]; rfl) (List.mem_of_mem_take ho))

/-- **Only durable observations leave the host.**  From a host that finds any document, or none, along every
run in which the starts of fork children are saved: while the host serves, every observation that
`pendingMeteringBatch` returns is in the snapshot last saved successfully. -/
theorem pending_saved (cfg : Config) (doc : Option MachineStateSnapshot) (acts : List Act) (d : Daemon)
    (hrun : RunIn (DaemonStep cfg) StartsSaved (Daemon.found doc) acts d) (hp : d.phase = .serving) :
    ∀ o ∈ d.manager.pendingMeteringBatch, ∃ s, lastSaved d.manager.saves = some s ∧ o ∈ s.meteringOutbox :=
  (secured_run hrun).pending hp

/-- **The batch is in a document that was written.**  Along every run in which besides every recovery save comes at a
generation that the store has not passed, the save that the batch is in left its document in the file. -/
theorem pending_written (cfg : Config) (doc : Option MachineStateSnapshot) (acts : List Act) (d : Daemon)
    (hrun : RunIn (DaemonStep cfg) (fun d a d' => StartsSaved d a d' ∧ GenerationsFresh cfg d a d') (Daemon.found doc)
      acts d) (hp : d.phase = .serving) :
    ∀ o ∈ d.manager.pendingMeteringBatch, ∃ r ∈ d.manager.saves, lastSaved d.manager.saves = some r.snapshot ∧
      r.disk = some r.snapshot ∧ o ∈ r.snapshot.meteringOutbox := by
  have hdurable : d.Durable := hrun.invariant (fun _ _ _ h hs hg => durable_step h hs hg.2)
    ⟨fun _ hs => (List.not_mem_nil hs).elim, le_refl 0⟩
  have hsecured := secured_run (hrun.mono fun _ _ _ hg => hg.1)
  intro o ho
  obtain ⟨s, hlast, hmem⟩ := hsecured.pending hp o ho
  obtain ⟨r, hfound, rfl⟩ := Option.map_eq_some_iff.mp hlast
  have hr : r ∈ d.manager.saves := List.mem_reverse.mp (List.mem_of_find?_eq_some hfound)
  exact ⟨r, hr, hlast, hdurable.honest r hr (List.find?_some hfound), hmem⟩

def Phase.serves : Phase → Bool
  | .serving => true
  | _ => false

theorem serves_iff {phase : Phase} : phase.serves = true ↔ phase = .serving := by
  cases phase <;> simp [Phase.serves]

/-- A machine runs and is forked, and the child's start is saved. -/
def Sample.forkedRun : List Act := Sample.firstBoot ++ Sample.create 0 ++ Sample.fork

theorem pending_saved_fork : ∃ d, RunIn (DaemonStep Sample.config) StartsSaved (Daemon.found none)
    Sample.forkedRun d ∧ d.manager.pendingMeteringBatch.length = 2 ∧
    ∀ o ∈ d.manager.pendingMeteringBatch, ∃ s, lastSaved d.manager.saves = some s ∧ o ∈ s.meteringOutbox := by
  have h : ((Daemon.found none).runsIn Sample.config StartsSaved Sample.forkedRun).any (fun d =>
      decide (d.manager.pendingMeteringBatch.length = 2 ∧ d.phase.serves = true)) = true := by decide +kernel
  obtain ⟨d, hrun, hlength, hserves⟩ := Daemon.runsIn_test Sample.config h
  exact ⟨d, hrun, hlength, pending_saved Sample.config none Sample.forkedRun d hrun (serves_iff.mp hserves)⟩

/-- The same run, but the save after the child's boot fails. -/
def Sample.unsavedStartRun : List Act :=
  Sample.firstBoot ++ Sample.create 0 ++
    [.forkBegin Sample.forkRequest ⟨none, true, "", [Sample.draw 1]⟩ 0 .none .none,
     .forkCheck 0 true,
     .forkPublish 0 (Sample.driver 1) (Sample.reading 2) 0 .beforeRename]

/-- The child's start is in the next batch, and not in the snapshot last saved successfully. -/
theorem unsaved_start_pending : ∃ d, Run (DaemonStep Sample.config) (Daemon.found none) Sample.unsavedStartRun d ∧
    d.phase = .serving ∧ ∃ o ∈ d.manager.pendingMeteringBatch,
      ¬ ∃ s, lastSaved d.manager.saves = some s ∧ o ∈ s.meteringOutbox := by
  have h : ((Daemon.found none).runsIn Sample.config Unguarded Sample.unsavedStartRun).any (fun d =>
      decide (d.phase.serves = true ∧ ∃ o ∈ d.manager.pendingMeteringBatch,
        o ∉ secured d.manager.saves)) = true := by decide +kernel
  obtain ⟨d, hrun, hserves, o, ho, hnot⟩ := Daemon.runsIn_test Sample.config h
  exact ⟨d, hrun.run, serves_iff.mp hserves, o, ho, fun hs => hnot (mem_secured.mpr hs)⟩

end Nehemiah.Host
