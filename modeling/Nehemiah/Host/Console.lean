import Mathlib
import Nehemiah.Lib.Run

/-!
# Console fan-out

One pump reads the child's stdout.  A broadcast appends its chunk to the scrollback and copies the list of
subscribers in one critical section, and sends to the copied subscribers after it has left that section; `Subscribe`,
`Unsubscribe` and `closeSubs` are one critical section each and may fall between two of the sends.  `console_fan_out` is
about all runs.
-/

namespace Nehemiah.Console

open Lib

abbrev Bytes := List UInt8

def scrollbackCap : ℕ := 256 * 1024

/-- The size of the buffer that the pump reads into. -/
def readCap : ℕ := 32 * 1024

/-- The capacity of a subscriber's channel. -/
def subCap : ℕ := 512

/-- A chunk that the pump offered to a subscriber, with the number of chunks that the channel held then. -/
structure Offer where
  chunk : Bytes
  held : ℕ

/-- A `consoleSub`: its channel, and the history of what the subscriber was given. -/
structure ConsoleSub where
  ch : List Bytes
  closed : Bool
  snapshot : Bytes
  received : List Bytes
  offers : List Offer

/-- What the pump is doing: the chunk of the broadcast with the copied subscribers that are still to be sent to. -/
inductive Pump
  | reading
  | sending (chunk : Bytes) (rest : List ℕ)
  | finished
deriving DecidableEq

inductive Panic
  | sendOnClosed
  | closeOfClosed
deriving DecidableEq

/-- A console with every `consoleSub` that was allocated for it; a pointer to one is its position in `allocated`. -/
structure State where
  scrollback : Bytes
  subs : List ℕ
  closed : Bool
  pump : Pump
  allocated : List ConsoleSub
  output : Bytes
  panic : Option Panic

def newConsole : State where
  scrollback := []
  subs := []
  closed := false
  pump := .reading
  allocated := []
  output := []
  panic := none

inductive Action
  | broadcast (chunk : Bytes) (order : List ℕ)
  | send
  | endOfStream
  | subscribe
  | unsubscribe (i : ℕ)
  | closeSubs
  | receive (i : ℕ)

def keepTail (bytes : Bytes) : Bytes := bytes.drop (bytes.length - scrollbackCap)

namespace Pump

def pending : Pump → List ℕ
  | sending _ rest => rest
  | _ => []

def chunk : Pump → Bytes
  | sending chunk _ => chunk
  | _ => []

end Pump

namespace ConsoleSub

/-- The non-blocking send on an open channel: a full buffer drops the chunk. -/
def offer (c : ConsoleSub) (chunk : Bytes) : ConsoleSub :=
  { c with
    ch := if c.ch.length < subCap then c.ch ++ [chunk] else c.ch
    offers := c.offers ++ [⟨chunk, c.ch.length⟩] }

def close (c : ConsoleSub) : ConsoleSub := { c with closed := true }

end ConsoleSub

namespace State

/-- The first half of a broadcast.  The order of the copy is the iteration order of the map. -/
def broadcast (s : State) (chunk : Bytes) (order : List ℕ) : Option State :=
  if s.pump = .reading ∧ 0 < chunk.length ∧ chunk.length ≤ readCap ∧ order.Perm s.subs then
    some { s with
      scrollback := keepTail (s.scrollback ++ chunk)
      pump := .sending chunk order
      output := s.output ++ chunk }
  else none

/-- The next send of the second half; a send on a closed channel ends the daemon. -/
def send (s : State) : Option State :=
  match s.pump with
  | .sending _ [] => some { s with pump := .reading }
  | .sending chunk (i :: rest) =>
    s.allocated[i]?.map fun c =>
      if c.closed then { s with panic := some .sendOnClosed }
      else { s with pump := .sending chunk rest, allocated := s.allocated.modify i (·.offer chunk) }
  | _ => none

/-- Delete a subscriber from the map and close its channel. -/
def deleteSub (s : State) (i : ℕ) : State :=
  { s with
    subs := s.subs.filter (· ≠ i)
    allocated := s.allocated.modify i (·.close)
    panic := if s.allocated[i]?.any (·.closed) then some .closeOfClosed else s.panic }

def unsubscribe (s : State) (i : ℕ) : State := if i ∈ s.subs then s.deleteSub i else s

def closeSubs (s : State) : State :=
  if s.closed then s else s.subs.foldl deleteSub { s with closed := true }

def subscribe (s : State) : State :=
  { s with
    subs := if s.closed then s.subs else s.subs ++ [s.allocated.length]
    allocated := s.allocated ++ [⟨[], s.closed, s.scrollback, [], []⟩] }

/-- A subscriber takes the oldest chunk of its channel. -/
def receive (s : State) (i : ℕ) : Option State :=
  match s.allocated[i]? with
  | some ⟨chunk :: _, _, _, _, _⟩ =>
    some { s with allocated := s.allocated.modify i fun c =>
      { c with ch := c.ch.tail, received := c.received ++ [chunk] } }
  | _ => none

end State

/-- One step of the daemon; after a panic there are no more. -/
def step (s : State) (a : Action) : Option State :=
  if s.panic.isSome then none else
  match a with
  | .broadcast chunk order => s.broadcast chunk order
  | .send => s.send
  | .endOfStream => if s.pump = .reading then some { s.closeSubs with pump := .finished } else none
  | .subscribe => some s.subscribe
  | .unsubscribe i => if i < s.allocated.length then some (s.unsubscribe i) else none
  | .closeSubs => some s.closeSubs
  | .receive i => s.receive i

/-- The channels that a step closes. -/
def State.closes (s : State) : Action → List ℕ
  | .unsubscribe i => s.subs.filter (· = i)
  | .closeSubs | .endOfStream => if s.closed then [] else s.subs
  | _ => []

/-- The step closes no channel that the broadcast in progress has still to send to. -/
def BetweenSends (s : State) (a : Action) (_ : State) : Prop := ∀ i ∈ s.closes a, i ∉ s.pump.pending

instance (s : State) (a : Action) (t : State) : Decidable (BetweenSends s a t) := by
  unfold BetweenSends
  infer_instance

/-- What a subscriber saw is a contiguous stretch of the output: the scrollback it was given, then the chunks it was
offered.  Received and buffered are those of the offered chunks, in order, that did not find the buffer full. -/
structure Exact (output : Bytes) (c : ConsoleSub) : Prop where
  stretch : c.snapshot ++ (c.offers.map (·.chunk)).flatten <:+: output
  kept : c.received ++ c.ch = (c.offers.filter (·.held ≠ subCap)).map (·.chunk)
  held : ∀ o ∈ c.offers, o.held ≤ subCap

/-! ## What the operations do to a subscriber -/

section Frames

variable {s t : State} {i j : ℕ} {c c' : ConsoleSub} {chunk : Bytes}

theorem getElem?_modify_some {f : ConsoleSub → ConsoleSub} {cs : List ConsoleSub}
    (h : (cs.modify i f)[j]? = some c') : ∃ c, cs[j]? = some c ∧ c' = if i = j then f c else c := by
  rw [List.getElem?_modify] at h
  obtain ⟨c, hc, rfl⟩ := Option.map_eq_some_iff.mp h
  exact ⟨c, hc, rfl⟩

/-- What `closeSubs` does, as far as the subscribers in `l` are concerned. -/
theorem foldl_deleteSub (l : List ℕ) (s : State) :
    (l.foldl State.deleteSub s).pump = s.pump ∧ (l.foldl State.deleteSub s).output = s.output ∧
      (l.foldl State.deleteSub s).allocated.length = s.allocated.length ∧
      ∀ j, (l.foldl State.deleteSub s).allocated[j]? =
        s.allocated[j]?.map fun c => if j ∈ l then c.close else c := by
  induction l generalizing s with
  | nil => exact ⟨rfl, rfl, rfl, fun j => by simp⟩
  | cons i l ih =>
    obtain ⟨hpump, houtput, hlength, hall⟩ := ih (s.deleteSub i)
    refine ⟨hpump, houtput, hlength.trans (List.length_modify ..), fun j => ?_⟩
    rw [List.foldl_cons, hall j]
    show ((s.allocated.modify i (·.close))[j]?).map _ = _
    rw [List.getElem?_modify, Option.map_eq_map, Option.map_map]
    apply Option.map_congr
    intro c _
    by_cases hij : i = j
    · by_cases hj : j ∈ l <;> simp [hij, hj, ConsoleSub.close]
    · simp [hij, List.mem_cons, Ne.symm hij]

theorem closeSubs_spec (s : State) :
    s.closeSubs.pump = s.pump ∧ s.closeSubs.output = s.output ∧
      s.closeSubs.allocated.length = s.allocated.length ∧
      ∀ j, s.closeSubs.allocated[j]? =
        s.allocated[j]?.map fun c => if j ∈ s.closes .closeSubs then c.close else c := by
  unfold State.closeSubs State.closes
  by_cases hclosed : s.closed = true
  · rw [if_pos hclosed, if_pos hclosed]
    exact ⟨rfl, rfl, rfl, fun j => by simp⟩
  · rw [if_neg hclosed, if_neg hclosed]
    exact foldl_deleteSub s.subs { s with closed := true }

theorem unsubscribe_spec (s : State) (i : ℕ) :
    (s.unsubscribe i).pump = s.pump ∧ (s.unsubscribe i).output = s.output ∧
      (s.unsubscribe i).allocated.length = s.allocated.length ∧
      ∀ j, (s.unsubscribe i).allocated[j]? =
        s.allocated[j]?.map fun c => if j ∈ s.closes (.unsubscribe i) then c.close else c := by
  have hmem (j : ℕ) : j ∈ s.closes (.unsubscribe i) ↔ j ∈ s.subs ∧ j = i := by
    show j ∈ s.subs.filter (· = i) ↔ _
    rw [List.mem_filter, decide_eq_true_iff]
  unfold State.unsubscribe
  by_cases hi : i ∈ s.subs
  · rw [if_pos hi]
    refine ⟨rfl, rfl, List.length_modify .., fun j => ?_⟩
    show (s.allocated.modify i (·.close))[j]? = _
    rw [List.getElem?_modify, Option.map_eq_map]
    apply Option.map_congr
    intro c _
    by_cases hij : i = j
    · rw [if_pos hij, if_pos ((hmem j).mpr ⟨hij ▸ hi, hij.symm⟩)]
    · rw [if_neg hij, if_neg fun h => hij ((hmem j).mp h).2.symm]
  · rw [if_neg hi]
    refine ⟨rfl, rfl, rfl, fun j => ?_⟩
    have hj : j ∉ s.closes (.unsubscribe i) := fun h => hi (((hmem j).mp h).2 ▸ ((hmem j).mp h).1)
    simp [hj]

end Frames

/-! ## The invariant -/

namespace ConsoleSub

/-- The stretch of the output that was given or offered to the subscriber. -/
def seen (c : ConsoleSub) : Bytes := c.snapshot ++ (c.offers.map (·.chunk)).flatten

/-- The channel holds what was kept of the offers and not yet received. -/
structure Queued (c : ConsoleSub) : Prop where
  kept : c.received ++ c.ch = (c.offers.filter (·.held ≠ subCap)).map (·.chunk)
  held : ∀ o ∈ c.offers, o.held ≤ subCap
  room : c.ch.length ≤ subCap

theorem Queued.offer {c : ConsoleSub} (h : c.Queued) (chunk : Bytes) : (c.offer chunk).Queued where
  kept := by
    unfold ConsoleSub.offer
    by_cases hroom : c.ch.length < subCap
    · have hne : c.ch.length ≠ subCap := by omega
      simp only [if_pos hroom, List.filter_append, List.map_append, ← h.kept]
      simp [hne]
    · have heq : c.ch.length = subCap := by
        have := h.room
        omega
      simp only [if_neg hroom, List.filter_append, List.map_append, ← h.kept]
      simp [heq]
  held := by
    intro o ho
    rcases List.mem_append.mp ho with ho | ho
    · exact h.held o ho
    · obtain rfl := List.mem_singleton.mp ho
      exact h.room
  room := by
    show (if c.ch.length < subCap then c.ch ++ [chunk] else c.ch).length ≤ subCap
    by_cases hroom : c.ch.length < subCap
    · rw [if_pos hroom, List.length_append]
      exact hroom
    · rw [if_neg hroom]
      exact h.room

theorem seen_offer (c : ConsoleSub) (chunk : Bytes) : (c.offer chunk).seen = c.seen ++ chunk := by
  simp [seen, offer]

end ConsoleSub

/-- The subscriber has been given a contiguous stretch of the output.  A copied one that is still to be sent to misses
the chunk of the broadcast; a registered one misses nothing else. -/
def Upto (s : State) (i : ℕ) (c : ConsoleSub) : Prop :=
  ∃ before after, s.output = before ++ c.seen ++ after ∧ (i ∈ s.pump.pending → after = s.pump.chunk) ∧
    (i ∈ s.subs → i ∉ s.pump.pending → after = [])

structure Inv (s : State) : Prop where
  registered : s.subs.Nodup
  copied : s.pump.pending.Nodup
  allocated : ∀ i ∈ s.pump.pending, i < s.allocated.length
  opened : ∀ i ∈ s.subs, ∃ c, s.allocated[i]? = some c ∧ c.closed = false
  tail : s.scrollback <:+ s.output
  upto : ∀ i c, s.allocated[i]? = some c → Upto s i c
  queued : ∀ (i : ℕ) (c : ConsoleSub), s.allocated[i]? = some c → c.Queued
  once : s.panic ≠ some .closeOfClosed

/-- No copied subscriber that is still to be sent to has a closed channel. -/
def OpenPending (s : State) : Prop := ∀ i ∈ s.pump.pending, ∀ c, s.allocated[i]? = some c → c.closed = false

section Steps

variable {s t : State} {i j : ℕ} {a : Action} {chunk : Bytes} {order : List ℕ}

theorem inv_newConsole : Inv newConsole where
  registered := List.nodup_nil
  copied := List.nodup_nil
  allocated := by
    intro i hi
    cases hi
  opened := by
    intro i hi
    cases hi
  tail := List.suffix_rfl
  upto := by
    intro i c hc
    cases hc
  queued := by
    intro i c hc
    cases hc
  once := by decide

theorem keepTail_suffix (bytes : Bytes) : keepTail bytes <:+ bytes := List.drop_suffix _ _

theorem Inv.broadcast (h : Inv s) (hs : s.broadcast chunk order = some t) : Inv t := by
  unfold State.broadcast at hs
  split at hs
  case isFalse => cases hs
  case isTrue hguard =>
    obtain ⟨hreading, _, _, horder⟩ := hguard
    rw [Option.some.injEq] at hs
    subst hs
    have htail : keepTail (s.scrollback ++ chunk) <:+ s.output ++ chunk := by
      apply (keepTail_suffix (s.scrollback ++ chunk)).trans
      obtain ⟨before, hbefore⟩ := h.tail
      exact ⟨before, by rw [← hbefore, List.append_assoc]⟩
    refine ⟨h.registered, horder.nodup_iff.mpr h.registered, ?_, h.opened, ?_, ?_, h.queued, h.once⟩
    · intro i hi
      obtain ⟨c, hc, _⟩ := h.opened i (horder.mem_iff.mp hi)
      exact (List.getElem?_eq_some_iff.mp hc).1
    · dsimp only
      exact htail
    · intro i c hc
      obtain ⟨before, after, houtput, _, hlive⟩ := h.upto i c hc
      refine ⟨before, after ++ chunk, ?_, ?_, ?_⟩
      · show s.output ++ chunk = _
        rw [houtput, List.append_assoc]
      · intro hi
        have hnil : after = [] := by
          apply hlive (horder.mem_iff.mp hi)
          rw [hreading]
          exact List.not_mem_nil
        rw [hnil]
        rfl
      · intro hi hni
        exact absurd (horder.mem_iff.mpr hi) hni

theorem Inv.sent {rest : List ℕ} {c : ConsoleSub} (h : Inv s) (hp : s.pump = .sending chunk (i :: rest))
    (hc : s.allocated[i]? = some c) :
    Inv { s with pump := .sending chunk rest, allocated := s.allocated.modify i (·.offer chunk) } := by
  have hpending : s.pump.pending = i :: rest := by rw [hp]; rfl
  have hnodup : (i :: rest).Nodup := hpending ▸ h.copied
  refine ⟨h.registered, (List.nodup_cons.mp hnodup).2, ?_, ?_, h.tail, ?_, ?_, h.once⟩
  · intro j hj
    show j < (s.allocated.modify i _).length
    rw [List.length_modify]
    apply h.allocated
    rw [hpending]
    exact List.mem_cons_of_mem _ hj
  · intro j hj
    obtain ⟨d, hd, hopen⟩ := h.opened j hj
    show ∃ c, (s.allocated.modify i _)[j]? = some c ∧ _
    rw [List.getElem?_modify, hd]
    refine ⟨_, rfl, ?_⟩
    show (if i = j then d.offer chunk else d).closed = false
    split
    · exact hopen
    · exact hopen
  · intro j d' hd'
    obtain ⟨d, hd, rfl⟩ := getElem?_modify_some hd'
    obtain ⟨before, after, houtput, hpend, hlive⟩ := h.upto j d hd
    by_cases hij : i = j
    · subst hij
      have hafter : after = chunk := by
        rw [hpend (by rw [hpending]; exact List.mem_cons_self), hp]
        rfl
      rw [if_pos rfl]
      refine ⟨before, [], ?_, ?_, fun _ _ => rfl⟩
      · show s.output = _
        rw [houtput, hafter, ConsoleSub.seen_offer, List.append_nil, List.append_assoc]
      · intro hi
        exact absurd hi (List.nodup_cons.mp hnodup).1
    · rw [if_neg hij]
      refine ⟨before, after, houtput, ?_, ?_⟩
      · intro hj
        rw [hpend (by rw [hpending]; exact List.mem_cons_of_mem _ hj), hp]
        rfl
      · intro hj hnj
        apply hlive hj
        rw [hpending, List.mem_cons]
        rintro (rfl | hjr)
        · exact hij rfl
        · exact hnj hjr
  · intro j d' hd'
    obtain ⟨d, hd, rfl⟩ := getElem?_modify_some hd'
    split
    · exact (h.queued j d hd).offer chunk
    · exact h.queued j d hd

theorem Inv.idle {pump : Pump} (h : Inv s) (hp : s.pump.pending = []) (hpump : pump.pending = []) :
    Inv { s with pump := pump } := by
  refine ⟨h.registered, ?_, ?_, h.opened, h.tail, ?_, h.queued, h.once⟩
  · show pump.pending.Nodup
    rw [hpump]
    exact List.nodup_nil
  · show ∀ i ∈ pump.pending, _
    rw [hpump]
    intro i hi
    cases hi
  · intro i c hc
    obtain ⟨before, after, houtput, _, hlive⟩ := h.upto i c hc
    refine ⟨before, after, houtput, ?_, ?_⟩
    · show i ∈ pump.pending → _
      rw [hpump]
      intro hi
      cases hi
    · intro hi _
      apply hlive hi
      rw [hp]
      exact List.not_mem_nil

theorem Inv.send (h : Inv s) (hs : s.send = some t) : Inv t := by
  unfold State.send at hs
  split at hs
  case h_1 chunk hp =>
    cases hs
    exact h.idle (by rw [hp]; rfl) rfl
  case h_2 chunk i rest hp =>
    obtain ⟨c, hc, rfl⟩ := Option.map_eq_some_iff.mp hs
    split
    · exact ⟨h.registered, h.copied, h.allocated, h.opened, h.tail, h.upto, h.queued, nofun⟩
    · exact h.sent hp hc
  case h_3 => cases hs

theorem Inv.deleteSub (h : Inv s) (hi : i ∈ s.subs) : Inv (s.deleteSub i) := by
  refine ⟨h.registered.filter _, h.copied, ?_, ?_, h.tail, ?_, ?_, ?_⟩
  · intro j hj
    show j < (s.allocated.modify i _).length
    rw [List.length_modify]
    exact h.allocated j hj
  · intro j hj
    obtain ⟨hj, hji⟩ := List.mem_filter.mp hj
    obtain ⟨d, hd, hopen⟩ := h.opened j hj
    show ∃ c, (s.allocated.modify i _)[j]? = some c ∧ _
    rw [List.getElem?_modify, hd]
    exact ⟨d, congrArg some (if_neg (Ne.symm (of_decide_eq_true hji))), hopen⟩
  · intro j d' hd'
    obtain ⟨d, hd, rfl⟩ := getElem?_modify_some hd'
    obtain ⟨before, after, houtput, hpend, hlive⟩ := h.upto j d hd
    have hseen : (if i = j then d.close else d).seen = d.seen := by
      split
      · rfl
      · rfl
    refine ⟨before, after, ?_, hpend, ?_⟩
    · rw [hseen]
      exact houtput
    · intro hj hnj
      exact hlive (List.mem_filter.mp hj).1 hnj
  · intro j d' hd'
    obtain ⟨d, hd, rfl⟩ := getElem?_modify_some hd'
    have hq := h.queued j d hd
    split
    · exact ⟨hq.kept, hq.held, hq.room⟩
    · exact hq
  · obtain ⟨c, hc, hopen⟩ := h.opened i hi
    show (if s.allocated[i]?.any (·.closed) then some Panic.closeOfClosed else s.panic) ≠ _
    rw [hc, Option.any_some, hopen]
    exact h.once

theorem Inv.unsubscribe (h : Inv s) (i : ℕ) : Inv (s.unsubscribe i) := by
  unfold State.unsubscribe
  split
  case isTrue hi => exact h.deleteSub hi
  case isFalse => exact h

/-- Each subscriber of the list is still registered when its turn comes. -/
theorem Inv.deleteSubs {l : List ℕ} (h : Inv s) (hn : l.Nodup) (hl : ∀ i ∈ l, i ∈ s.subs) :
    Inv (l.foldl State.deleteSub s) := by
  induction l generalizing s with
  | nil => exact h
  | cons i l ih =>
    obtain ⟨hil, hn⟩ := List.nodup_cons.mp hn
    apply ih (h.deleteSub (hl i List.mem_cons_self)) hn
    intro j hj
    apply List.mem_filter.mpr
    refine ⟨hl j (List.mem_cons_of_mem _ hj), decide_eq_true ?_⟩
    rintro rfl
    exact hil hj

theorem Inv.closeSubs (h : Inv s) : Inv s.closeSubs := by
  unfold State.closeSubs
  split
  · exact h
  · have hclosed : Inv { s with closed := true } :=
      ⟨h.registered, h.copied, h.allocated, h.opened, h.tail, h.upto, h.queued, h.once⟩
    exact hclosed.deleteSubs h.registered fun i hi => hi

theorem Inv.subscribe (h : Inv s) : Inv s.subscribe := by
  have hold {i : ℕ} {c : ConsoleSub} (hc : s.allocated[i]? = some c) :
      (s.allocated ++ [⟨[], s.closed, s.scrollback, [], []⟩])[i]? = some c :=
    (List.getElem?_append_left (List.getElem?_eq_some_iff.mp hc).1).trans hc
  have hnew {i : ℕ} {c : ConsoleSub}
      (hc : (s.allocated ++ [⟨[], s.closed, s.scrollback, [], []⟩])[i]? = some c) :
      s.allocated[i]? = some c ∨ i = s.allocated.length ∧ c = ⟨[], s.closed, s.scrollback, [], []⟩ := by
    rcases List.getElem?_append .. ▸ hc with hc
    split at hc
    · exact Or.inl hc
    · have hlt := (List.getElem?_eq_some_iff.mp hc).1
      have hi : i = s.allocated.length := by
        rw [List.length_singleton] at hlt
        omega
      subst hi
      rw [Nat.sub_self] at hc
      exact Or.inr ⟨rfl, (Option.some.inj hc).symm⟩
  have hfresh : s.allocated.length ∉ s.subs := by
    intro hi
    obtain ⟨c, hc, _⟩ := h.opened _ hi
    exact absurd (List.getElem?_eq_some_iff.mp hc).1 (Nat.lt_irrefl _)
  have hsubs {i : ℕ} (hi : i ∈ s.subscribe.subs) : i ∈ s.subs ∨ s.closed = false ∧ i = s.allocated.length := by
    unfold State.subscribe at hi
    by_cases hclosed : s.closed = true
    · exact Or.inl (by simpa [hclosed] using hi)
    · simpa [hclosed] using hi
  refine ⟨?_, h.copied, ?_, ?_, h.tail, ?_, ?_, h.once⟩
  · show (if s.closed then s.subs else s.subs ++ [s.allocated.length]).Nodup
    split
    · exact h.registered
    · rw [List.nodup_append]
      refine ⟨h.registered, List.nodup_singleton _, ?_⟩
      intro i hi j hj hij
      exact hfresh (List.mem_singleton.mp hj ▸ hij ▸ hi)
  · intro i hi
    show i < (s.allocated ++ _).length
    rw [List.length_append]
    exact Nat.lt_add_right _ (h.allocated i hi)
  · intro i hi
    rcases hsubs hi with hi | ⟨hopen, rfl⟩
    · obtain ⟨c, hc, hopen⟩ := h.opened i hi
      exact ⟨c, hold hc, hopen⟩
    · exact ⟨_, List.getElem?_concat_length, hopen⟩
  · intro i c hc
    rcases hnew hc with hc | ⟨rfl, rfl⟩
    · obtain ⟨before, after, houtput, hpend, hlive⟩ := h.upto i c hc
      refine ⟨before, after, houtput, hpend, ?_⟩
      intro hi hni
      rcases hsubs hi with hi | ⟨_, rfl⟩
      · exact hlive hi hni
      · exact absurd (List.getElem?_eq_some_iff.mp hc).1 (Nat.lt_irrefl _)
    · obtain ⟨before, hbefore⟩ := h.tail
      refine ⟨before, [], ?_, ?_, fun _ _ => rfl⟩
      · show s.output = before ++ (s.scrollback ++ []) ++ []
        rw [List.append_nil, List.append_nil, hbefore]
      · intro hi
        exact absurd (h.allocated _ hi) (Nat.lt_irrefl _)
  · intro i c hc
    rcases hnew hc with hc | ⟨rfl, rfl⟩
    · exact h.queued i c hc
    · exact ⟨rfl, nofun, Nat.zero_le _⟩

theorem Inv.receive (h : Inv s) (hs : s.receive i = some t) : Inv t := by
  unfold State.receive at hs
  split at hs
  case h_2 => cases hs
  case h_1 c₀ chunk ch closed snapshot received offers hc₀ =>
    cases hs
    refine ⟨h.registered, h.copied, ?_, ?_, h.tail, ?_, ?_, h.once⟩
    · intro j hj
      show j < (s.allocated.modify i _).length
      rw [List.length_modify]
      exact h.allocated j hj
    · intro j hj
      obtain ⟨d, hd, hopen⟩ := h.opened j hj
      show ∃ c, (s.allocated.modify i _)[j]? = some c ∧ _
      rw [List.getElem?_modify, hd]
      refine ⟨_, rfl, ?_⟩
      show (if i = j then _ else d).closed = false
      split
      · exact hopen
      · exact hopen
    · intro j d' hd'
      obtain ⟨d, hd, rfl⟩ := getElem?_modify_some hd'
      obtain ⟨before, after, houtput, hrest⟩ := h.upto j d hd
      refine ⟨before, after, ?_, hrest⟩
      split
      · exact houtput
      · exact houtput
    · intro j d' hd'
      obtain ⟨d, hd, rfl⟩ := getElem?_modify_some hd'
      have hq := h.queued j d hd
      by_cases hij : i = j
      · subst hij
        rw [if_pos rfl]
        obtain rfl := Option.some.inj (hd.symm.trans hc₀)
        refine ⟨?_, hq.held, Nat.le_of_succ_le hq.room⟩
        show (received ++ [chunk]) ++ ch = _
        rw [List.append_assoc, List.singleton_append]
        exact hq.kept
      · rw [if_neg hij]
        exact hq

theorem Inv.step (h : Inv s) (hs : step s a = some t) : Inv t := by
  unfold Console.step at hs
  split at hs
  case isTrue => cases hs
  case isFalse =>
    cases a with
    | broadcast chunk order => exact h.broadcast hs
    | send => exact h.send hs
    | endOfStream =>
      dsimp only at hs
      split at hs
      case isFalse => cases hs
      case isTrue hreading =>
        cases hs
        refine h.closeSubs.idle ?_ rfl
        rw [(closeSubs_spec s).1, hreading]
        rfl
    | subscribe =>
      cases hs
      exact h.subscribe
    | unsubscribe i =>
      dsimp only at hs
      split at hs
      case isFalse => cases hs
      case isTrue =>
        cases hs
        exact h.unsubscribe i
    | closeSubs =>
      cases hs
      exact h.closeSubs
    | receive i => exact h.receive hs

theorem Inv.run {actions : List Action} (h : Run (fun s a t => Console.step s a = some t) newConsole actions s) :
    Inv s :=
  h.invariant (fun _ _ _ hi hs => hi.step hs) inv_newConsole

/-! ## Sends on closed channels -/

theorem step_alive (hs : step s a = some t) : s.panic = none := by
  unfold step at hs
  split at hs
  case isTrue => cases hs
  case isFalse h => exact Option.not_isSome_iff_eq_none.mp h

/-- A step that closes channels leaves the pump where it is. -/
theorem openPending_close {closed : List ℕ} (h : Inv s) (hpump : t.pump = s.pump)
    (hall : ∀ j, t.allocated[j]? = s.allocated[j]?.map fun c => if j ∈ closed then c.close else c) :
    OpenPending t ↔ OpenPending s ∧ ∀ i ∈ closed, i ∉ s.pump.pending := by
  constructor
  · intro hopen
    have hclosed : ∀ i ∈ closed, i ∉ s.pump.pending := by
      intro i hi hp
      have hlt := h.allocated i hp
      have ht : t.allocated[i]? = some (s.allocated[i].close) := by
        rw [hall, List.getElem?_eq_getElem hlt, Option.map_some, if_pos hi]
      exact nomatch hopen i (hpump ▸ hp) _ ht
    refine ⟨?_, hclosed⟩
    intro i hi c hc
    apply hopen i (hpump ▸ hi)
    rw [hall, hc, Option.map_some, if_neg fun h => hclosed i h hi]
  · rintro ⟨hopen, hclosed⟩ i hi c' hc'
    rw [hpump] at hi
    rw [hall, Option.map_eq_some_iff] at hc'
    obtain ⟨c, hc, rfl⟩ := hc'
    rw [if_neg fun h => hclosed i h hi]
    exact hopen i hi c hc

theorem openPending_idle (hp : s.pump.pending = []) : OpenPending s := by
  intro i hi
  rw [hp] at hi
  cases hi

/-- What the next send does when the remaining channels are open, and that it ends the daemon otherwise only by a send
on a closed channel. -/
theorem openPending_send (h : Inv s) (hs : s.send = some t) (halive : s.panic = none) :
    t.panic = none ∧ OpenPending t ↔ OpenPending s := by
  unfold State.send at hs
  split at hs
  case h_1 chunk hp =>
    cases hs
    exact ⟨fun _ => openPending_idle (by rw [hp]; rfl), fun _ => ⟨halive, openPending_idle rfl⟩⟩
  case h_2 chunk i rest hp =>
    have hpending : s.pump.pending = i :: rest := by rw [hp]; rfl
    have hfresh : i ∉ rest := (List.nodup_cons.mp (hpending ▸ h.copied)).1
    obtain ⟨c, hc, rfl⟩ := Option.map_eq_some_iff.mp hs
    by_cases hclosed : c.closed = true
    · rw [if_pos hclosed]
      constructor
      · intro ht
        exact nomatch ht.1
      · intro hopen
        exact nomatch (hopen i (by rw [hpending]; exact List.mem_cons_self) c hc).symm.trans hclosed
    · rw [if_neg hclosed]
      have hat {j : ℕ} (hj : j ∈ rest) :
          (s.allocated.modify i (·.offer chunk))[j]? = s.allocated[j]? := by
        rw [List.getElem?_modify]
        have hij : i ≠ j := fun hij => hfresh (hij ▸ hj)
        simp [hij]
      constructor
      · rintro ⟨_, hopen⟩ j hj d hd
        rw [hpending, List.mem_cons] at hj
        rcases hj with rfl | hj
        · obtain rfl := Option.some.inj (hc.symm.trans hd)
          exact Bool.eq_false_iff.mpr hclosed
        · exact hopen j hj d ((hat hj).trans hd)
      · intro hopen
        refine ⟨halive, ?_⟩
        intro j hj d hd
        exact hopen j (by rw [hpending]; exact List.mem_cons_of_mem _ hj) d ((hat hj).symm.trans hd)
  case h_3 => cases hs

theorem deleteSub_panic (s : State) (i : ℕ) :
    (s.deleteSub i).panic = s.panic ∨ (s.deleteSub i).panic = some .closeOfClosed := by
  show (if _ then some Panic.closeOfClosed else s.panic) = s.panic ∨ (if _ then _ else s.panic) = _
  split
  · exact Or.inr rfl
  · exact Or.inl rfl

theorem closeSubs_panic (h : Inv s) (halive : s.panic = none) : s.closeSubs.panic = none := by
  have hfold : ∀ (l : List ℕ) (s : State), (l.foldl State.deleteSub s).panic = s.panic ∨
      (l.foldl State.deleteSub s).panic = some .closeOfClosed := by
    intro l
    induction l with
    | nil => exact fun s => Or.inl rfl
    | cons i l ih =>
      intro s
      rcases ih (s.deleteSub i) with hp | hp
      · rw [List.foldl_cons, hp]
        exact deleteSub_panic s i
      · exact Or.inr hp
  have honce := h.closeSubs.once
  unfold State.closeSubs at honce ⊢
  split
  · exact halive
  · rename_i hopen
    rw [if_neg hopen] at honce
    exact ((hfold s.subs { s with closed := true }).resolve_right honce).trans halive

theorem unsubscribe_panic (h : Inv s) (halive : s.panic = none) (i : ℕ) : (s.unsubscribe i).panic = none := by
  have honce := (h.unsubscribe i).once
  unfold State.unsubscribe at honce ⊢
  split
  · rename_i hi
    rw [if_pos hi] at honce
    exact ((deleteSub_panic s i).resolve_right honce).trans halive
  · exact halive

/-- The daemon survives a step, with every remaining send of the broadcast going to an open channel, exactly if these
channels were open before and the step closed none of them. -/
theorem step_openPending (h : Inv s) (hs : step s a = some t) :
    t.panic = none ∧ OpenPending t ↔ OpenPending s ∧ BetweenSends s a t := by
  have halive := step_alive hs
  have hkeep (hpanic : t.panic = none) (hcloses : s.closes a = []) (hopen : OpenPending t ↔ OpenPending s) :
      t.panic = none ∧ OpenPending t ↔ OpenPending s ∧ BetweenSends s a t := by
    rw [hopen]
    unfold BetweenSends
    simp [hpanic, hcloses]
  unfold step at hs
  rw [halive, if_neg nofun] at hs
  cases a with
  | broadcast chunk order =>
    dsimp only at hs
    unfold State.broadcast at hs
    split at hs
    case isFalse => cases hs
    case isTrue hguard =>
      obtain ⟨hreading, _, _, horder⟩ := hguard
      rw [Option.some.injEq] at hs
      subst hs
      refine hkeep halive rfl ⟨fun _ => openPending_idle (by rw [hreading]; rfl), fun _ => ?_⟩
      intro i hi c hc
      obtain ⟨d, hd, hopen⟩ := h.opened i (horder.mem_iff.mp hi)
      obtain rfl := Option.some.inj (hd.symm.trans hc)
      exact hopen
  | send =>
    have hsend := openPending_send h hs halive
    unfold BetweenSends
    rw [hsend]
    exact ⟨fun hopen => ⟨hopen, nofun⟩, fun hopen => hopen.1⟩
  | endOfStream =>
    dsimp only at hs
    split at hs
    case isFalse => cases hs
    case isTrue hreading =>
      cases hs
      have hp : s.pump.pending = [] := by rw [hreading]; rfl
      refine ⟨fun _ => ⟨openPending_idle hp, ?_⟩, fun _ => ⟨closeSubs_panic h halive, openPending_idle rfl⟩⟩
      intro i _
      rw [hp]
      exact List.not_mem_nil
  | subscribe =>
    cases hs
    refine hkeep halive rfl ⟨?_, ?_⟩
    · intro hopen i hi c hc
      exact hopen i hi c ((List.getElem?_append_left (h.allocated i hi)).trans hc)
    · intro hopen i hi c hc
      exact hopen i hi c ((List.getElem?_append_left (h.allocated i hi)).symm.trans hc)
  | unsubscribe i =>
    dsimp only at hs
    split at hs
    case isFalse => cases hs
    case isTrue =>
      cases hs
      obtain ⟨hpump, _, _, hall⟩ := unsubscribe_spec s i
      rw [openPending_close h hpump hall]
      exact and_iff_right (unsubscribe_panic h halive i)
  | closeSubs =>
    cases hs
    obtain ⟨hpump, _, _, hall⟩ := closeSubs_spec s
    rw [openPending_close h hpump hall]
    exact and_iff_right (closeSubs_panic h halive)
  | receive i =>
    dsimp only at hs
    unfold State.receive at hs
    split at hs
    case h_2 => cases hs
    case h_1 c₀ chunk ch closed snapshot received offers hc₀ =>
      cases hs
      refine hkeep halive rfl ⟨?_, ?_⟩
      · intro hopen j hj d hd
        have hd' := hopen j hj _ ((List.getElem?_modify ..).trans (by rw [hd]; rfl))
        dsimp only at hd'
        split at hd'
        · exact hd'
        · exact hd'
      · intro hopen j hj d' hd'
        obtain ⟨d, hd, rfl⟩ := getElem?_modify_some hd'
        split
        · exact hopen j hj d hd
        · exact hopen j hj d hd

end Steps

section Runs

variable {s u : State} {actions : List Action}

theorem Inv.exact (h : Inv s) {c : ConsoleSub} (hc : c ∈ s.allocated) : Exact s.output c := by
  obtain ⟨i, hi⟩ := List.getElem?_of_mem hc
  obtain ⟨before, after, houtput, _⟩ := h.upto i c hi
  have hq := h.queued i c hi
  exact ⟨⟨before, after, houtput.symm⟩, hq.kept, hq.held⟩

/-- No step of the run panicked, and each subscriber was given a contiguous stretch of the guest's output. -/
def FanOut (s : State) : Prop := s.panic = none ∧ ∀ c ∈ s.allocated, Exact s.output c

theorem survives (h : RunIn (fun s a t => step s a = some t) BetweenSends s actions u) (hs : Inv s)
    (halive : s.panic = none) (hopen : OpenPending s) : u.panic = none ∧ OpenPending u := by
  induction h with
  | nil s => exact ⟨halive, hopen⟩
  | cons hst hg _ ih =>
    obtain ⟨halive, hopen⟩ := (step_openPending hs hst).mpr ⟨hopen, hg⟩
    exact ih (hs.step hst) halive hopen

theorem survived (h : Run (fun s a t => step s a = some t) s actions u) (hs : Inv s) (halive : u.panic = none)
    (hopen : OpenPending u) :
    s.panic = none ∧ OpenPending s ∧ RunIn (fun s a t => step s a = some t) BetweenSends s actions u := by
  induction h with
  | nil s => exact ⟨halive, hopen, .nil s⟩
  | cons hst _ ih =>
    obtain ⟨ht, hopen, hrun⟩ := ih (hs.step hst) halive hopen
    obtain ⟨hopen, hg⟩ := (step_openPending hs hst).mp ⟨ht, hopen⟩
    exact ⟨step_alive hst, hopen, .cons hst hg hrun⟩

/-- **Exact fan-out.**  The fan-out is exact in every state of a run whose steps close channels only between the sends
of a broadcast, and a run that got through its last broadcast has no other step. -/
theorem console_fan_out (h : Run (fun s a t => step s a = some t) newConsole actions s) :
    (RunIn (fun s a t => step s a = some t) BetweenSends newConsole actions s → FanOut s) ∧
      (s.pump.pending = [] → FanOut s →
        RunIn (fun s a t => step s a = some t) BetweenSends newConsole actions s) := by
  have hinv := Inv.run h
  constructor
  · intro hrun
    have halive := survives hrun inv_newConsole rfl (openPending_idle rfl)
    exact ⟨halive.1, fun c hc => hinv.exact hc⟩
  · intro hp hfan
    exact (survived h inv_newConsole hfan.1 (openPending_idle hp)).2.2

/-- Two clients; the second subscribes between two chunks and leaves after it received one. -/
theorem console_fan_out_session : ∃ s, (s.allocated.map (·.snapshot) = [[], [1]] ∧
    s.allocated.map (·.received) = [[[1], [2]], [[2]]]) ∧ FanOut s := by
  have hrun : ∃ s, RunIn (fun s a t => step s a = some t) BetweenSends newConsole
      [.subscribe, .broadcast [1] [0], .subscribe, .send, .send, .broadcast [2] [1, 0], .send, .receive 0, .send, .send,
        .receive 1, .unsubscribe 1, .receive 0] s ∧ (s.allocated.map (·.snapshot) = [[], [1]] ∧
        s.allocated.map (·.received) = [[[1], [2]], [[2]]]) := RunIn.of_test (by decide +kernel)
  obtain ⟨s, hrun, hs⟩ := hrun
  exact ⟨s, hs, (console_fan_out hrun.run).1 hrun⟩

/-- A client that leaves between the copy of the list and the send to it takes the daemon down. -/
theorem unsubscribed_during_broadcast : ∃ actions s,
    Run (fun s a t => step s a = some t) newConsole actions s ∧ ¬FanOut s := by
  have hrun : ∃ s, Run (fun s a t => step s a = some t) newConsole
      [.subscribe, .broadcast [1] [0], .unsubscribe 0, .send] s ∧ s.panic = some .sendOnClosed :=
    Run.of_test (by decide +kernel)
  obtain ⟨s, hrun, hs⟩ := hrun
  refine ⟨_, s, hrun, ?_⟩
  rintro ⟨hnone, _⟩
  exact nomatch hnone.symm.trans hs

end Runs

end Nehemiah.Console
