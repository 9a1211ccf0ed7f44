import Nehemiah.Lib.Run

/-!
# The channel to a machine

A channel has one current socket, a bounded queue between its sockets and the readers of its output, and reconnects that
may be under way.  A socket that has opened is attached only when the fiber that waits for it runs, and a reader counts
an item off only when its fiber runs; anything may happen in between.

`channel_sound` is what a channel keeps in a run whose steps are careful, and `leaking_unsound` are three orders of events
in which it does not.  The requests of a dial are those of `Sdk.Requests`; here a target is found or not.  The times
between two attempts, and what a frame says, are outside the model.
-/

namespace Nehemiah.Sdk.Channel

open Nehemiah.Lib

abbrev Bytes := List UInt8

def maxChannelBacklogBytes : ℕ := 4194304

def maxChannelBacklogFrames : ℕ := 256

def maxChannelBufferedAmountBytes : ℕ := 4194304

inductive Capability
  | tty
  | vnc

def maximumFrameBytes : Capability → ℕ
  | .tty => 65536
  | .vnc => 1048576

inductive BacklogLimit
  | bytes
  | frames

inductive SendLimit
  | frame
  | buffered

inductive ChannelTerminalError
  | backlogExceeded (limit : BacklogLimit)
  | sendLimitExceeded (attemptedBytes : ℕ) (limit : SendLimit)

/-! ### The queue -/

/-- `stale` says of a frame that its socket had been superseded or closed when it arrived. -/
structure ChannelFrame where
  source : ℕ
  data : Bytes
  stale : Bool
deriving DecidableEq

/-- The signal of a disconnect names the socket that was lost. -/
inductive ChannelQueueItem
  | frame (f : ChannelFrame)
  | disconnect (socket : ℕ)
  | backlogFailure
deriving DecidableEq

def framesOf (l : List ChannelQueueItem) : List ChannelFrame :=
  l.filterMap fun | .frame f => some f | _ => none

def signals (l : List ChannelQueueItem) : List ℕ :=
  l.filterMap fun | .disconnect i => some i | _ => none

def failures (l : List ChannelQueueItem) : ℕ := l.countP (· = .backlogFailure)

def bytesOf (l : List ChannelQueueItem) : ℕ := ((framesOf l).map (·.data.length)).sum

/-- The queue with its two counters. `delivered` are the items that a reader has been given and has not yet looked at;
`waiting` are the readers of an empty queue. The rest is history: what the output has yielded, the losses that have
ended it, its failures, the losses of a current socket, the signals that were thrown away, and whether an offer has
found the queue full. -/
structure Mailbox where
  queue : List ChannelQueueItem
  waiting : ℕ
  delivered : List ChannelQueueItem
  queuedFrames : ℕ
  queuedBytes : ℕ
  yielded : List ChannelFrame
  ended : List ℕ
  failed : ℕ
  lost : List ℕ
  dropped : List ℕ
  overflowed : Bool

namespace Mailbox

/-- A waiting reader is served at once. -/
def offer (m : Mailbox) (item : ChannelQueueItem) : Mailbox :=
  if 0 < m.waiting then { m with waiting := m.waiting - 1, delivered := m.delivered ++ [item] }
  else if m.queue.length < maxChannelBacklogFrames + 1 then { m with queue := m.queue ++ [item] }
  else { m with overflowed := true }

def drainQueuedFrames (m : Mailbox) : Mailbox :=
  { m with
    queue := []
    queuedFrames := m.queuedFrames - (framesOf m.queue).length
    queuedBytes := m.queuedBytes - bytesOf m.queue
    dropped := m.dropped ++ signals m.queue }

def take (m : Mailbox) : Mailbox :=
  match m.queue with
  | [] => { m with waiting := m.waiting + 1 }
  | item :: rest => { m with queue := rest, delivered := m.delivered ++ [item] }

def admitFrame (m : Mailbox) (f : ChannelFrame) : Mailbox :=
  { m with queuedBytes := m.queuedBytes + f.data.length, queuedFrames := m.queuedFrames + 1 }.offer (.frame f)

def lose (m : Mailbox) (i : ℕ) : Mailbox := { m with lost := m.lost ++ [i] }.offer (.disconnect i)

/-- The reader looks at the item that it has been given. -/
def observe (m : Mailbox) (k : ℕ) : ChannelQueueItem → Mailbox
  | .frame f =>
    { m with
      delivered := m.delivered.eraseIdx k
      queuedBytes := m.queuedBytes - f.data.length
      queuedFrames := m.queuedFrames - 1
      yielded := m.yielded ++ [f] }
  | .disconnect i => { m with delivered := m.delivered.eraseIdx k, ended := m.ended ++ [i] }
  | .backlogFailure => { m with delivered := m.delivered.eraseIdx k, failed := m.failed + 1 }

end Mailbox

/-! ### Sockets -/

inductive Phase
  | absent
  | connecting
  | opened
  | failed
deriving DecidableEq

/-- `gone` is set by the close event and `shut` by the call of `close`; `closed` is the variable of the handlers, and
`onclose` and `onmessage` say whether these are set. `left` is how often the fiber that waits for it may dial again. -/
structure Socket where
  phase : Phase
  attached : Bool
  superseded : Bool
  gone : Bool
  shut : Bool
  closed : Bool
  onclose : Bool
  onmessage : Bool
  left : ℕ

def Socket.new : Socket := ⟨.absent, false, false, false, false, false, true, true, 0⟩

def Socket.stale (x : Socket) : Bool := x.superseded || x.gone || x.shut

/-- The handlers are taken off and the socket is closed. -/
def Socket.close (x : Socket) : Socket := { x with onclose := false, onmessage := false, shut := true }

/-- The close event has come; the handler notes it when it is set. -/
def Socket.disconnect (x : Socket) : Socket := { x with gone := true, closed := x.closed || x.onclose }

/-- `targeting` are the fibers that are about to dial, with the attempts that they have left. -/
structure State where
  box : Mailbox
  sockets : ℕ → Socket
  targeting : List ℕ
  established : Bool
  current : Option ℕ
  released : Bool
  disconnectPending : Bool
  terminalError : Option ChannelTerminalError

def initial : State where
  box := ⟨[], 0, [], 0, 0, [], [], 0, [], [], false⟩
  sockets := fun _ => .new
  targeting := [0]
  established := false
  current := none
  released := false
  disconnectPending := false
  terminalError := none

namespace State

def setSocket (s : State) (i : ℕ) (f : Socket → Socket) : State :=
  { s with sockets := Function.update s.sockets i (f (s.sockets i)) }

def failTerminal (s : State) (i : ℕ) (error : ChannelTerminalError) : State :=
  if s.released ∨ s.terminalError.isSome then s
  else
    { s.setSocket i Socket.close with
      terminalError := some error
      disconnectPending := false
      current := if s.current = some i then none else s.current
      box := s.box.drainQueuedFrames.offer .backlogFailure }

def offerFrame (s : State) (i : ℕ) (bytes : Bytes) : State :=
  if bytes = [] then s
  else if maxChannelBacklogBytes - s.box.queuedBytes < bytes.length then s.failTerminal i (.backlogExceeded .bytes)
  else if maxChannelBacklogFrames ≤ s.box.queuedFrames then s.failTerminal i (.backlogExceeded .frames)
  else { s with box := s.box.admitFrame ⟨i, bytes, (s.sockets i).stale⟩ }

/-- A fiber whose attempt has failed dials again while it may. -/
def again (left : ℕ) (targeting : List ℕ) : List ℕ := if left = 0 then targeting else targeting ++ [left - 1]

def connectFailed (s : State) (i : ℕ) : State :=
  { s.setSocket i fun x => { x with phase := .failed } with targeting := again (s.sockets i).left s.targeting }

def onclose (s : State) (i : ℕ) : State :=
  let t := s.setSocket i Socket.disconnect
  if !(s.sockets i).onclose then t
  else if (s.sockets i).phase = .connecting then t.connectFailed i
  else if s.released ∨ s.current ≠ some i then t
  else { t with current := none, disconnectPending := true, box := s.box.lose i }

/-- A message that is neither text nor bytes is `none`. -/
def onmessage (s : State) (i : ℕ) : Option Bytes → State
  | some bytes =>
    if (s.sockets i).onmessage ∧ (s.sockets i).closed = false ∧ s.released = false ∧ s.terminalError = none then
      s.offerFrame i bytes
    else s
  | none => s

def attach (s : State) (i : ℕ) : State :=
  let t := match s.current with
    | some j => s.setSocket j fun x => { x.close with superseded := true }
    | none => s
  { t.setSocket i fun x => { x with attached := true } with current := some i, established := true }

def observe (s : State) (k : ℕ) (item : ChannelQueueItem) : State :=
  { s with
    box := s.box.observe k item
    disconnectPending := match item with
      | .disconnect _ => false
      | _ => s.disconnectPending }

def sendLimit (capability : Capability) (bytes bufferedAmount : ℕ) : Option SendLimit :=
  if maximumFrameBytes capability < bytes then some .frame
  else if maxChannelBufferedAmountBytes - bytes < bufferedAmount then some .buffered
  else none

/-- `open` is whether the socket says that it is open; a buffered amount that is no finite number counts as zero. -/
def send (s : State) (capability : Capability) (bytes : ℕ) (bufferedAmount : Option ℕ) (isOpen : Bool) : State :=
  if s.terminalError.isSome then s
  else
    match s.current with
    | none => s
    | some i =>
      if !isOpen then s
      else
        match sendLimit capability bytes (bufferedAmount.getD 0) with
        | some limit => s.failTerminal i (.sendLimitExceeded bytes limit)
        | none => s

def reconnect (s : State) (maxAttempts : ℕ) : State :=
  if s.terminalError.isSome ∨ s.released ∨ s.disconnectPending then s
  else { s with targeting := s.targeting ++ [maxAttempts] }

def release (s : State) : State :=
  let t := match s.current with
    | some i => s.setSocket i Socket.close
    | none => s
  { t with released := true, box := { s.box.drainQueuedFrames with waiting := 0 } }

end State

/-! ### Steps -/

inductive Action
  | dial (k i : ℕ)
  | targetFailed (k : ℕ)
  | opened (i : ℕ)
  | errored (i : ℕ)
  | closed (i : ℕ)
  | message (i : ℕ) (data : Option Bytes)
  | attach (i : ℕ)
  | take
  | observe (k : ℕ)
  | send (bytes : ℕ) (bufferedAmount : Option ℕ) (isOpen : Bool)
  | reconnect (maxAttempts : ℕ)
  | release

def step (capability : Capability) (s : State) : Action → Option State
  | .dial k i =>
    match s.targeting[k]? with
    | some left =>
      if (s.sockets i).phase = .absent then
        some { s.setSocket i fun x => { x with phase := .connecting, left := left } with
          targeting := s.targeting.eraseIdx k }
      else none
    | none => none
  | .targetFailed k =>
    s.targeting[k]?.map fun left => { s with targeting := State.again left (s.targeting.eraseIdx k) }
  | .opened i =>
    if (s.sockets i).phase = .connecting then some (s.setSocket i fun x => { x with phase := .opened }) else none
  | .errored i =>
    match (s.sockets i).phase with
    | .absent => none
    | .connecting => some (s.connectFailed i)
    | _ => some s
  | .closed i => if (s.sockets i).phase = .absent ∨ (s.sockets i).gone then none else some (s.onclose i)
  | .message i data => if (s.sockets i).phase = .opened then some (s.onmessage i data) else none
  | .attach i =>
    if (s.sockets i).phase = .opened ∧ (s.sockets i).attached = false then some (s.attach i) else none
  | .take => some (if s.released then s else { s with box := s.box.take })
  | .observe k => s.box.delivered[k]?.map fun item => s.observe k item
  | .send bytes bufferedAmount isOpen => some (s.send capability bytes bufferedAmount isOpen)
  | .reconnect maxAttempts => if s.established then some (s.reconnect maxAttempts) else none
  | .release => if s.established ∧ s.released = false then some s.release else none

/-! ### What a channel promises -/

/-- The backlog is bounded and counted, no offer finds the queue full, no frame of an old socket is yielded, the
current socket is one that has not closed, every loss has one signal, which ends the output once unless a failure or
the release has taken its place, and after the release every socket that has opened is closed. -/
structure Sound (s : State) : Prop where
  frames : s.box.queuedFrames = (framesOf s.box.queue).length + (framesOf s.box.delivered).length
  bytes : s.box.queuedBytes = bytesOf s.box.queue + bytesOf s.box.delivered
  framesBounded : s.box.queuedFrames ≤ maxChannelBacklogFrames
  bytesBounded : s.box.queuedBytes ≤ maxChannelBacklogBytes
  roomy : s.box.overflowed = false
  fresh : ∀ f ∈ s.box.yielded, f.stale = false
  alive : s.released = false → s.terminalError = none → ∀ i, s.current = some i → (s.sockets i).gone = false
  signalled : ∀ i, s.box.lost.count i =
    s.box.ended.count i + (signals s.box.queue).count i + (signals s.box.delivered).count i + s.box.dropped.count i
  once : s.box.lost.Nodup
  kept : s.released = false → s.terminalError = none → s.box.dropped = []
  terminated : s.released = false →
    s.box.failed + failures s.box.queue + failures s.box.delivered = if s.terminalError.isSome then 1 else 0
  shutdown : s.released = true → ∀ i, (s.sockets i).phase = .opened → (s.sockets i).shut ∨ (s.sockets i).gone

/-- The steps at which the channel is not overtaken: no socket opens after the release, or waits at it to be attached;
none is attached that has closed; and two disconnects do not meet in a full queue. -/
def Careful (s : State) : Action → Prop
  | .opened _ => s.released = false
  | .release => ∀ i, (s.sockets i).phase = .opened → (s.sockets i).attached = false →
      (s.sockets i).shut ∨ (s.sockets i).gone
  | .attach i => s.released = true ∨ s.terminalError.isSome ∨ (s.sockets i).gone = false
  | .closed i => s.current = some i → signals s.box.queue ≠ [] → s.box.queue.length < maxChannelBacklogFrames + 1
  | .message _ _ => 1 < (signals s.box.queue).length → s.box.queue.length < maxChannelBacklogFrames + 1
  | _ => True

/-! ### The ledger of the queue -/

section ledger

variable {l l' : List ChannelQueueItem} {m : Mailbox} {item : ChannelQueueItem} {f : ChannelFrame} {i k : ℕ}
  {failed released : Bool}

theorem framesOf_append : framesOf (l ++ l') = framesOf l ++ framesOf l' := List.filterMap_append

theorem signals_append : signals (l ++ l') = signals l ++ signals l' := List.filterMap_append

theorem failures_append : failures (l ++ l') = failures l + failures l' := List.countP_append

theorem bytesOf_append : bytesOf (l ++ l') = bytesOf l + bytesOf l' := by
  rw [bytesOf, framesOf_append, List.map_append, List.sum_append]
  rfl

@[simp] theorem framesOf_frame : framesOf [.frame f] = [f] := rfl

@[simp] theorem framesOf_disconnect : framesOf [.disconnect i] = [] := rfl

@[simp] theorem framesOf_failure : framesOf [.backlogFailure] = [] := rfl

@[simp] theorem bytesOf_nil : bytesOf [] = 0 := rfl

@[simp] theorem bytesOf_frame : bytesOf [.frame f] = f.data.length := Nat.add_zero _

@[simp] theorem bytesOf_disconnect : bytesOf [.disconnect i] = 0 := rfl

@[simp] theorem bytesOf_failure : bytesOf [.backlogFailure] = 0 := rfl

@[simp] theorem signals_nil : signals [] = [] := rfl

@[simp] theorem signals_frame : signals [.frame f] = [] := rfl

@[simp] theorem signals_disconnect : signals [.disconnect i] = [i] := rfl

@[simp] theorem signals_failure : signals [.backlogFailure] = [] := rfl

@[simp] theorem failures_nil : failures [] = 0 := rfl

@[simp] theorem failures_frame : failures [.frame f] = 0 := rfl

@[simp] theorem failures_disconnect : failures [.disconnect i] = 0 := rfl

@[simp] theorem failures_failure : failures [.backlogFailure] = 1 := rfl

theorem length_split (l : List ChannelQueueItem) :
    l.length = (framesOf l).length + (signals l).length + failures l := by
  induction l with
  | nil => rfl
  | cons item l ih =>
    cases item <;> simp [framesOf, signals, failures] at ih ⊢ <;> omega

theorem erase_split (h : l[k]? = some item) : ∃ a b, l = a ++ item :: b ∧ l.eraseIdx k = a ++ b := by
  obtain ⟨hk, hitem⟩ := List.getElem?_eq_some_iff.mp h
  refine ⟨l.take k, l.drop (k + 1), ?_, List.eraseIdx_eq_take_drop_succ l k⟩
  rw [← hitem, List.cons_getElem_drop_succ, List.take_append_drop]

/-- What a list holds besides one of its items. -/
theorem erase_counts (h : l[k]? = some item) :
    (framesOf l).length = (framesOf (l.eraseIdx k)).length + (framesOf [item]).length ∧
    bytesOf l = bytesOf (l.eraseIdx k) + bytesOf [item] ∧
    (∀ i, (signals l).count i = (signals (l.eraseIdx k)).count i + (signals [item]).count i) ∧
    failures l = failures (l.eraseIdx k) + failures [item] ∧
    ∀ f, f ∈ framesOf l ↔ f ∈ framesOf (l.eraseIdx k) ∨ f ∈ framesOf [item] := by
  obtain ⟨a, b, hsplit, herase⟩ := erase_split h
  have hcons : l = a ++ ([item] ++ b) := hsplit
  rw [herase, hcons]
  simp only [framesOf_append, bytesOf_append, signals_append, failures_append, List.length_append, List.count_append,
    List.mem_append]
  refine ⟨by omega, by omega, fun i => by omega, by omega, fun f => by tauto⟩

/-- The counters are those of the items that are queued or with a reader; `failed` says that the channel has failed. -/
structure Ledger (m : Mailbox) (failed released : Bool) : Prop where
  frames : m.queuedFrames = (framesOf m.queue).length + (framesOf m.delivered).length
  bytes : m.queuedBytes = bytesOf m.queue + bytesOf m.delivered
  framesBounded : m.queuedFrames ≤ maxChannelBacklogFrames
  bytesBounded : m.queuedBytes ≤ maxChannelBacklogBytes
  roomy : m.overflowed = false
  fresh : ∀ f ∈ framesOf m.queue ++ framesOf m.delivered ++ m.yielded, f.stale = false
  signalled : ∀ i, m.lost.count i =
    m.ended.count i + (signals m.queue).count i + (signals m.delivered).count i + m.dropped.count i
  once : m.lost.Nodup
  kept : released = false → failed = false → m.dropped = []
  terminated : released = false → m.failed + failures m.queue + failures m.delivered = if failed then 1 else 0
  drained : failed = true → framesOf m.queue = []

theorem offer_room (m : Mailbox) (item : ChannelQueueItem) (h : m.queue.length < maxChannelBacklogFrames + 1) :
    m.offer item = { m with waiting := m.waiting - 1, delivered := m.delivered ++ [item] } ∨
      m.offer item = { m with queue := m.queue ++ [item] } := by
  unfold Mailbox.offer
  by_cases hwaiting : 0 < m.waiting
  · rw [if_pos hwaiting]
    exact .inl rfl
  · rw [if_neg hwaiting, if_pos h]
    exact .inr rfl

/-- With one disconnect in the queue at most, a frame that the counter admits finds room. -/
theorem Ledger.frame_room (h : Ledger m false released) (hreleased : released = false)
    (hcount : m.queuedFrames < maxChannelBacklogFrames)
    (hguard : 1 < (signals m.queue).length → m.queue.length < maxChannelBacklogFrames + 1) :
    m.queue.length < maxChannelBacklogFrames + 1 := by
  by_cases hmany : 1 < (signals m.queue).length
  · exact hguard hmany
  · have hsplit := length_split m.queue
    have hframes := h.frames
    have hnone := h.terminated hreleased
    simp only [Bool.false_eq_true, if_false] at hnone
    omega

theorem Ledger.admitFrame (h : Ledger m false false) (hfresh : f.stale = false)
    (hbytes : f.data.length ≤ maxChannelBacklogBytes - m.queuedBytes) (hcount : m.queuedFrames < maxChannelBacklogFrames)
    (hguard : 1 < (signals m.queue).length → m.queue.length < maxChannelBacklogFrames + 1) :
    Ledger (m.admitFrame f) false false := by
  have hroom := h.frame_room rfl hcount hguard
  have hfits := h.bytesBounded
  have hnew : ∀ f' ∈ framesOf m.queue ++ framesOf m.delivered ++ m.yielded ++ [f], f'.stale = false := by
    intro f' hf'
    rcases List.mem_append.mp hf' with hf' | hf'
    · exact h.fresh f' hf'
    · exact List.mem_singleton.mp hf' ▸ hfresh
  rw [Mailbox.admitFrame]
  rcases offer_room { m with
      queuedBytes := m.queuedBytes + f.data.length, queuedFrames := m.queuedFrames + 1 } (.frame f) hroom with
    heq | heq
  all_goals
    rw [heq]
    have hframes := h.frames
    have hcounted := h.bytes
    refine ⟨?_, ?_, hcount, ?_, h.roomy, fun f' hf' => hnew f' ?_, fun i => ?_, h.once, h.kept, fun hr => ?_,
      fun hf => by cases hf⟩
    · simp only [framesOf_append, framesOf_frame, List.length_append, List.length_singleton]
      omega
    · simp only [bytesOf_append, bytesOf_frame]
      omega
    · simp only
      omega
    · simp only [framesOf_append, framesOf_frame, List.mem_append] at hf' ⊢
      tauto
    · simp only [signals_append, signals_frame, List.append_nil]
      exact h.signalled i
    · simp only [failures_append, failures_frame, Nat.add_zero]
      exact h.terminated hr

theorem Ledger.lose (h : Ledger m failed false) (hnew : i ∉ m.lost)
    (hguard : signals m.queue ≠ [] → m.queue.length < maxChannelBacklogFrames + 1) :
    Ledger (m.lose i) failed false := by
  have hroom : m.queue.length < maxChannelBacklogFrames + 1 := by
    by_cases hsignals : signals m.queue = []
    · have hsplit := length_split m.queue
      have hframes := h.frames
      have hbounded := h.framesBounded
      have hterminated := h.terminated rfl
      rw [hsignals, List.length_nil] at hsplit
      cases failed with
      | true =>
        have hdrained := h.drained rfl
        rw [hdrained, List.length_nil] at hsplit
        simp only [if_true] at hterminated
        have hmax : maxChannelBacklogFrames = 256 := rfl
        omega
      | false =>
        simp only [Bool.false_eq_true, if_false] at hterminated
        omega
    · exact hguard hsignals
  rw [Mailbox.lose]
  rcases offer_room { m with lost := m.lost ++ [i] } (.disconnect i) hroom with heq | heq
  all_goals
    rw [heq]
    refine ⟨?_, ?_, h.framesBounded, h.bytesBounded, h.roomy, ?_, fun j => ?_, ?_, h.kept, fun hr => ?_, fun hf => ?_⟩
    · simp only [framesOf_append, framesOf_disconnect, List.append_nil]
      exact h.frames
    · simp only [bytesOf_append, bytesOf_disconnect, Nat.add_zero]
      exact h.bytes
    · simp only [framesOf_append, framesOf_disconnect, List.append_nil]
      exact h.fresh
    · have hcount := h.signalled j
      simp only [signals_append, signals_disconnect, List.count_append]
      omega
    · exact List.nodup_append.mpr ⟨h.once, List.nodup_singleton i, fun a ha b hb hab => hnew
        (List.mem_singleton.mp hb ▸ hab ▸ ha)⟩
    · simp only [failures_append, failures_disconnect, Nat.add_zero]
      exact h.terminated hr
    · simp only [framesOf_append, framesOf_disconnect, List.append_nil]
      exact h.drained hf

/-- What is drained is counted off, and its signals are thrown away. -/
theorem Ledger.fail (h : Ledger m false false) : Ledger (m.drainQueuedFrames.offer .backlogFailure) true false := by
  have hframes := h.frames
  have hbytes := h.bytes
  have hbounded := h.framesBounded
  have hfits := h.bytesBounded
  have hterminated := h.terminated rfl
  simp only [Bool.false_eq_true, if_false] at hterminated
  rcases offer_room m.drainQueuedFrames .backlogFailure (Nat.succ_pos _) with heq | heq
  all_goals
    rw [heq]
    refine ⟨?_, ?_, ?_, ?_, h.roomy, fun f hf => h.fresh f ?_, fun j => ?_, h.once, fun _ hf => (by cases hf),
      fun _ => ?_, fun _ => ?_⟩
    · simp only [Mailbox.drainQueuedFrames, framesOf_append, framesOf_failure, List.append_nil, List.nil_append]
      simp only [framesOf, List.filterMap_nil, List.length_nil] at hframes ⊢
      omega
    · simp only [Mailbox.drainQueuedFrames, bytesOf_append, bytesOf_failure, List.nil_append]
      have hnil : bytesOf [] = 0 := rfl
      omega
    · simp only [Mailbox.drainQueuedFrames]
      omega
    · simp only [Mailbox.drainQueuedFrames]
      omega
    · simp only [Mailbox.drainQueuedFrames, framesOf_append, framesOf_failure, List.append_nil, List.nil_append,
        List.mem_append] at hf ⊢
      have hnil : f ∉ framesOf [] := List.not_mem_nil
      tauto
    · have hcount := h.signalled j
      have hnil : (signals []).count j = 0 := rfl
      simp only [Mailbox.drainQueuedFrames, signals_append, signals_failure, List.append_nil, List.nil_append,
        List.count_append, List.count_nil]
      omega
    · have hnil : failures [] = 0 := rfl
      simp only [Mailbox.drainQueuedFrames, failures_append, failures_failure, List.nil_append, if_true]
      omega
    · rfl

theorem Ledger.release (h : Ledger m failed false) :
    Ledger { m.drainQueuedFrames with waiting := 0 } failed true := by
  have hframes := h.frames
  have hbytes := h.bytes
  have hbounded := h.framesBounded
  have hfits := h.bytesBounded
  have hnil : bytesOf [] = 0 := rfl
  refine ⟨?_, ?_, ?_, ?_, h.roomy, fun f hf => h.fresh f ?_, fun j => ?_, h.once, fun hr => (by cases hr),
    fun hr => (by cases hr), fun _ => rfl⟩
  · simp only [Mailbox.drainQueuedFrames]
    simp only [framesOf, List.filterMap_nil, List.length_nil] at hframes ⊢
    omega
  · simp only [Mailbox.drainQueuedFrames]
    omega
  · simp only [Mailbox.drainQueuedFrames]
    omega
  · simp only [Mailbox.drainQueuedFrames]
    omega
  · simp only [Mailbox.drainQueuedFrames, List.mem_append] at hf ⊢
    have hnone : f ∉ framesOf [] := List.not_mem_nil
    tauto
  · have hcount := h.signalled j
    have hnone : (signals []).count j = 0 := rfl
    simp only [Mailbox.drainQueuedFrames, List.count_append]
    omega

theorem take_nil (h : m.queue = []) : m.take = { m with waiting := m.waiting + 1 } := by
  unfold Mailbox.take
  split
  · rfl
  · rename_i hcons
    rw [h] at hcons
    cases hcons

theorem take_cons (h : m.queue = item :: l) : m.take = { m with queue := l, delivered := m.delivered ++ [item] } := by
  unfold Mailbox.take
  split
  · rename_i hnil
    rw [h] at hnil
    cases hnil
  · rename_i hcons
    rw [h] at hcons
    cases hcons
    rfl

theorem Ledger.take (h : Ledger m failed released) : Ledger m.take failed released := by
  cases hqueue : m.queue with
  | nil =>
    rw [take_nil hqueue]
    exact ⟨h.frames, h.bytes, h.framesBounded, h.bytesBounded, h.roomy, h.fresh, h.signalled, h.once, h.kept,
      h.terminated, h.drained⟩
  | cons item rest =>
    rw [take_cons hqueue]
    have hcons : m.queue = [item] ++ rest := hqueue
    have hframes := h.frames
    have hbytes := h.bytes
    rw [hcons, framesOf_append, List.length_append] at hframes
    rw [hcons, bytesOf_append] at hbytes
    refine ⟨?_, ?_, h.framesBounded, h.bytesBounded, h.roomy, fun f hf => h.fresh f ?_, fun j => ?_, h.once, h.kept,
      fun hr => ?_, fun hf => ?_⟩
    · simp only [framesOf_append, List.length_append]
      omega
    · simp only [bytesOf_append]
      omega
    · simp only [hcons, framesOf_append, List.mem_append] at hf ⊢
      tauto
    · have hcount := h.signalled j
      simp only [hcons, signals_append, List.count_append] at hcount ⊢
      omega
    · have hterminated := h.terminated hr
      simp only [hcons, failures_append] at hterminated ⊢
      omega
    · have hdrained := h.drained hf
      rw [hcons, framesOf_append] at hdrained
      exact (List.append_eq_nil_iff.mp hdrained).2

theorem Ledger.observe (h : Ledger m failed released) (hk : m.delivered[k]? = some item) :
    Ledger (m.observe k item) failed released := by
  obtain ⟨hlength, hsize, hcount, hfailures, hmem⟩ := erase_counts hk
  have hframes := h.frames
  have hbytes := h.bytes
  have hbounded := h.framesBounded
  have hfits := h.bytesBounded
  have hsignalled := h.signalled
  cases item with
  | frame f =>
    simp only [framesOf_frame, bytesOf_frame, signals_frame, failures_frame, List.length_singleton, List.count_nil,
      List.mem_singleton] at hlength hsize hcount hfailures hmem
    refine ⟨?_, ?_, ?_, ?_, h.roomy, fun f' hf' => h.fresh f' ?_, fun j => ?_, h.once, h.kept, fun hr => ?_, h.drained⟩
    · simp only [Mailbox.observe]
      omega
    · simp only [Mailbox.observe]
      omega
    · simp only [Mailbox.observe]
      omega
    · simp only [Mailbox.observe]
      omega
    · simp only [Mailbox.observe, List.mem_append, List.mem_singleton] at hf' ⊢
      have hwas := hmem f'
      tauto
    · have hsignal := hsignalled j
      rw [hcount j] at hsignal
      exact hsignal
    · have hterminated := h.terminated hr
      rw [hfailures] at hterminated
      exact hterminated
  | disconnect i =>
    simp only [framesOf_disconnect, bytesOf_disconnect, signals_disconnect, failures_disconnect, List.length_nil,
      List.not_mem_nil, or_false] at hlength hsize hcount hfailures hmem
    refine ⟨?_, ?_, hbounded, hfits, h.roomy, fun f' hf' => h.fresh f' ?_, fun j => ?_, h.once, h.kept, fun hr => ?_,
      h.drained⟩
    · simp only [Mailbox.observe]
      omega
    · simp only [Mailbox.observe]
      omega
    · simp only [Mailbox.observe, List.mem_append] at hf' ⊢
      have hwas := hmem f'
      tauto
    · have hsignal := hsignalled j
      have hfewer := hcount j
      simp only [Mailbox.observe, List.count_append]
      omega
    · have hterminated := h.terminated hr
      rw [hfailures] at hterminated
      exact hterminated
  | backlogFailure =>
    simp only [framesOf_failure, bytesOf_failure, signals_failure, failures_failure, List.length_nil, List.count_nil,
      List.not_mem_nil, or_false] at hlength hsize hcount hfailures hmem
    refine ⟨?_, ?_, hbounded, hfits, h.roomy, fun f' hf' => h.fresh f' ?_, fun j => ?_, h.once, h.kept, fun hr => ?_,
      h.drained⟩
    · simp only [Mailbox.observe]
      omega
    · simp only [Mailbox.observe]
      omega
    · simp only [Mailbox.observe, List.mem_append] at hf' ⊢
      have hwas := hmem f'
      tauto
    · have hsignal := hsignalled j
      rw [hcount j] at hsignal
      exact hsignal
    · have hterminated := h.terminated hr
      simp only [Mailbox.observe]
      omega

end ledger

/-! ### The wiring of the sockets -/

/-- What the handlers of one socket are set to. -/
structure Socket.Wired (x : Socket) : Prop where
  superseded : x.superseded = true → x.onmessage = false
  shut : x.shut = true → x.onmessage = false
  gone : x.gone = true → x.onmessage = false ∨ x.closed = true
  onclose : x.onclose = false → x.onmessage = false
  attached : x.attached = true → x.phase = .opened

variable {x : Socket}

theorem Socket.Wired.fresh (h : x.Wired) (hmessage : x.onmessage = true) (hclosed : x.closed = false) :
    x.stale = false := by
  rcases h with ⟨hsuperseded, hshut, hgone, -, -⟩
  rw [hmessage] at hsuperseded hshut hgone
  rw [hclosed] at hgone
  cases h₁ : x.superseded
  · cases h₂ : x.gone
    · cases h₃ : x.shut
      · rw [Socket.stale, h₁, h₂, h₃]
        rfl
      · cases hshut h₃
    · rcases hgone h₂ with h | h <;> cases h
  · cases hsuperseded h₁

theorem Socket.Wired.close (h : x.Wired) : x.close.Wired :=
  ⟨fun _ => rfl, fun _ => rfl, fun _ => .inl rfl, fun _ => rfl, h.attached⟩

theorem Socket.Wired.disconnect (h : x.Wired) : x.disconnect.Wired := by
  refine ⟨h.superseded, h.shut, fun _ => ?_, h.onclose, h.attached⟩
  cases honclose : x.onclose with
  | true =>
    refine .inr ?_
    rw [Socket.disconnect, honclose, Bool.or_true]
  | false => exact .inl (h.onclose honclose)

/-- The sockets of a channel: the current one is attached and, while the channel works, it listens and lives; one that
was attached is current or closed; and after the release all are closed that have opened. -/
structure Wiring (s : State) : Prop where
  wired : ∀ i, (s.sockets i).Wired
  current : ∀ i, s.current = some i → (s.sockets i).attached = true
  fresh : s.terminalError = none → ∀ i, (s.sockets i).onclose = false → (s.sockets i).attached = true
  attached : ∀ i, (s.sockets i).attached = true →
    s.current = some i ∨ (s.sockets i).shut = true ∨ (s.sockets i).gone = true
  listening : s.released = false → s.terminalError = none → ∀ i, s.current = some i → (s.sockets i).onclose = true
  alive : s.released = false → s.terminalError = none → ∀ i, s.current = some i → (s.sockets i).gone = false
  shutdown : s.released = true → ∀ i, (s.sockets i).phase = .opened →
    (s.sockets i).shut = true ∨ (s.sockets i).gone = true
  lost : ∀ i ∈ s.box.lost, (s.sockets i).gone = true

structure Inv (s : State) : Prop where
  ledger : Ledger s.box s.terminalError.isSome s.released
  wiring : Wiring s

section wiring

variable {s t : State} {i : ℕ} {f : Socket → Socket}

theorem setSocket_self : (s.setSocket i f).sockets i = f (s.sockets i) := Function.update_self _ _ _

theorem setSocket_other {j : ℕ} (h : j ≠ i) : (s.setSocket i f).sockets j = s.sockets j := Function.update_of_ne h _ _

theorem setSocket_forall {P : ℕ → Socket → Prop} (h : ∀ j, j ≠ i → P j (s.sockets j)) (hi : P i (f (s.sockets i))) (j : ℕ) :
    P j ((s.setSocket i f).sockets j) := by
  by_cases hj : j = i
  · subst hj
    rw [setSocket_self]
    exact hi
  · rw [setSocket_other hj]
    exact h j hj

variable {m : Mailbox} {item : ChannelQueueItem}

theorem offer_lost : (m.offer item).lost = m.lost := by
  unfold Mailbox.offer
  split
  · rfl
  · split <;> rfl

theorem take_lost : m.take.lost = m.lost := by
  unfold Mailbox.take
  split <;> rfl

theorem observe_lost {k : ℕ} : (m.observe k item).lost = m.lost := by
  cases item <;> rfl

/-- Only the sockets, the current one, the two ends of the channel and the losses matter. -/
theorem Wiring.congr (h : Wiring s) (hsockets : t.sockets = s.sockets) (hcurrent : t.current = s.current)
    (hreleased : t.released = s.released) (hterminal : t.terminalError = s.terminalError)
    (hlost : t.box.lost = s.box.lost) : Wiring t := by
  obtain ⟨box, sockets, targeting, established, current, released, disconnectPending, terminalError⟩ := t
  simp only at hsockets hcurrent hreleased hterminal hlost
  subst hsockets hcurrent hreleased hterminal
  exact ⟨h.wired, h.current, h.fresh, h.attached, h.listening, h.alive, h.shutdown, fun i hi => h.lost i (hlost ▸ hi)⟩

/-- A socket moves on to another phase. -/
theorem Wiring.setPhase (h : Wiring s) (hflags : ∀ x : Socket, { f x with phase := x.phase, left := x.left } = x)
    (hattached : (s.sockets i).attached = true → (f (s.sockets i)).phase = .opened)
    (hopened : s.released = true → (f (s.sockets i)).phase = .opened →
      (s.sockets i).shut = true ∨ (s.sockets i).gone = true) : Wiring (s.setSocket i f) := by
  have hsame := hflags (s.sockets i)
  have hatt : (f (s.sockets i)).attached = (s.sockets i).attached := congrArg (·.attached) hsame
  have hsup : (f (s.sockets i)).superseded = (s.sockets i).superseded := congrArg (·.superseded) hsame
  have hgone : (f (s.sockets i)).gone = (s.sockets i).gone := congrArg (·.gone) hsame
  have hshut : (f (s.sockets i)).shut = (s.sockets i).shut := congrArg (·.shut) hsame
  have hclosed : (f (s.sockets i)).closed = (s.sockets i).closed := congrArg (·.closed) hsame
  have honclose : (f (s.sockets i)).onclose = (s.sockets i).onclose := congrArg (·.onclose) hsame
  have honmessage : (f (s.sockets i)).onmessage = (s.sockets i).onmessage := congrArg (·.onmessage) hsame
  have hwired := h.wired i
  refine ⟨?_, ?_, fun hterminal => ?_, ?_, fun hr ht => ?_, fun hr ht => ?_, fun hr => ?_, ?_⟩
  · refine setSocket_forall (P := fun _ x => x.Wired) (fun j _ => h.wired j) ⟨?_, ?_, ?_, ?_, ?_⟩
    · rw [hsup, honmessage]
      exact hwired.superseded
    · rw [hshut, honmessage]
      exact hwired.shut
    · rw [hgone, honmessage, hclosed]
      exact hwired.gone
    · rw [honclose, honmessage]
      exact hwired.onclose
    · rw [hatt]
      exact hattached
  · refine setSocket_forall (P := fun j x => s.current = some j → x.attached = true) (fun j _ => h.current j) ?_
    rw [hatt]
    exact h.current i
  · refine setSocket_forall (P := fun _ x => x.onclose = false → x.attached = true) (fun j _ => h.fresh hterminal j) ?_
    rw [honclose, hatt]
    exact h.fresh hterminal i
  · refine setSocket_forall (P := fun j x => x.attached = true → s.current = some j ∨ x.shut = true ∨ x.gone = true)
      (fun j _ => h.attached j) ?_
    rw [hatt, hshut, hgone]
    exact h.attached i
  · refine setSocket_forall (P := fun j x => s.current = some j → x.onclose = true)
      (fun j _ => h.listening hr ht j) ?_
    rw [honclose]
    exact h.listening hr ht i
  · refine setSocket_forall (P := fun j x => s.current = some j → x.gone = false) (fun j _ => h.alive hr ht j) ?_
    rw [hgone]
    exact h.alive hr ht i
  · refine setSocket_forall (P := fun _ x => x.phase = .opened → x.shut = true ∨ x.gone = true)
      (fun j _ => h.shutdown hr j) ?_
    rw [hshut, hgone]
    exact hopened hr
  · refine setSocket_forall (P := fun j x => j ∈ s.box.lost → x.gone = true) (fun j _ => h.lost j) ?_
    rw [hgone]
    exact h.lost i

/-- The close event of a socket that is not the current one of a working channel. -/
theorem Wiring.setGone (h : Wiring s) (hnot : s.released = false → s.terminalError = none → s.current ≠ some i) :
    Wiring (s.setSocket i Socket.disconnect) := by
  refine ⟨?_, ?_, fun hterminal => ?_, ?_, fun hr ht => ?_, fun hr ht => ?_, fun hr => ?_, ?_⟩
  · exact setSocket_forall (P := fun _ x => x.Wired) (fun j _ => h.wired j) (h.wired i).disconnect
  · exact setSocket_forall (P := fun j x => s.current = some j → x.attached = true) (fun j _ => h.current j) (h.current i)
  · exact setSocket_forall (P := fun _ x => x.onclose = false → x.attached = true) (fun j _ => h.fresh hterminal j)
      (h.fresh hterminal i)
  · exact setSocket_forall (P := fun j x => x.attached = true → s.current = some j ∨ x.shut = true ∨ x.gone = true)
      (fun j _ => h.attached j) fun _ => .inr (.inr rfl)
  · exact setSocket_forall (P := fun j x => s.current = some j → x.onclose = true) (fun j _ => h.listening hr ht j)
      (h.listening hr ht i)
  · exact setSocket_forall (P := fun j x => s.current = some j → x.gone = false) (fun j _ => h.alive hr ht j)
      fun hcurrent => absurd hcurrent (hnot hr ht)
  · exact setSocket_forall (P := fun _ x => x.phase = .opened → x.shut = true ∨ x.gone = true)
      (fun j _ => h.shutdown hr j) fun _ => .inr rfl
  · exact setSocket_forall (P := fun j x => j ∈ s.box.lost → x.gone = true) (fun j _ => h.lost j) fun _ => rfl

/-- The close event of the current socket of a working channel. -/
theorem Wiring.lose {box : Mailbox} (h : Wiring s) (hreleased : s.released = false) (hcurrent : s.current = some i)
    (hlost : box.lost = s.box.lost ++ [i]) :
    Wiring { s.setSocket i Socket.disconnect with
      current := none, disconnectPending := true, box := box } := by
  refine ⟨?_, fun j hj => (by cases hj), fun hterminal => ?_, ?_, fun _ _ j hj => (by cases hj),
    fun _ _ j hj => (by cases hj), fun hr => ?_, fun j hj => ?_⟩
  · exact setSocket_forall (f := Socket.disconnect) (P := fun _ x => x.Wired) (fun j _ => h.wired j)
      (h.wired i).disconnect
  · exact setSocket_forall (f := Socket.disconnect) (P := fun _ x => x.onclose = false → x.attached = true)
      (fun j _ => h.fresh hterminal j) (h.fresh hterminal i)
  · refine setSocket_forall (f := Socket.disconnect)
      (P := fun j x => x.attached = true → none = some j ∨ x.shut = true ∨ x.gone = true) (fun j hj hatt => ?_)
      fun _ => .inr (.inr rfl)
    rcases h.attached j hatt with hnow | hclosed
    · rw [hcurrent] at hnow
      exact absurd (Option.some_injective _ hnow).symm hj
    · exact .inr hclosed
  · have hfalse : s.released = true := hr
    rw [hreleased] at hfalse
    cases hfalse
  · refine setSocket_forall (f := Socket.disconnect) (P := fun j x => j ∈ box.lost → x.gone = true)
      (fun j hji hbox => ?_) (fun _ => rfl) j hj
    rw [hlost] at hbox
    rcases List.mem_append.mp hbox with hbox | hbox
    · exact h.lost j hbox
    · exact absurd (List.mem_singleton.mp hbox) hji

theorem Wiring.failTerminal {error : ChannelTerminalError} (h : Wiring s) (hreleased : s.released = false) {box : Mailbox}
    (hlost : box.lost = s.box.lost) :
    Wiring { s.setSocket i Socket.close with
      terminalError := some error
      disconnectPending := false
      current := if s.current = some i then none else s.current
      box := box } := by
  have hcurrent : ∀ j, (if s.current = some i then none else s.current) = some j → s.current = some j ∧ j ≠ i := by
    intro j hj
    split at hj
    · cases hj
    · rename_i hother
      refine ⟨hj, ?_⟩
      rintro rfl
      exact hother hj
  refine ⟨?_, fun j hj => ?_, fun hterminal => (by cases hterminal), fun j hj => ?_, fun _ hterminal => (by cases hterminal),
    fun _ hterminal => (by cases hterminal), fun hr => ?_, fun j hj => ?_⟩
  · exact setSocket_forall (P := fun _ x => x.Wired) (fun j _ => h.wired j) (h.wired i).close
  · obtain ⟨hold, hne⟩ := hcurrent j hj
    have hatt := h.current j hold
    rw [← setSocket_other (f := Socket.close) hne] at hatt
    exact hatt
  · by_cases hne : j = i
    · subst hne
      refine .inr (.inl ?_)
      simp only
      rw [setSocket_self]
      rfl
    · simp only at hj ⊢
      rw [setSocket_other hne] at hj ⊢
      rcases h.attached j hj with hold | hclosed
      · refine .inl ?_
        rw [if_neg]
        · exact hold
        · rw [hold]
          exact fun h => hne (Option.some_injective _ h)
      · exact .inr hclosed
  · have hfalse : s.released = true := hr
    rw [hreleased] at hfalse
    cases hfalse
  · refine setSocket_forall (P := fun j x => j ∈ s.box.lost → x.gone = true) (fun j _ => h.lost j) (h.lost i) j ?_
    exact hlost ▸ hj

/-- The current socket is closed, and none takes its place yet. -/
theorem Wiring.supersede {j : ℕ} (h : Wiring s) (hcurrent : s.current = some j) :
    Wiring { s.setSocket j fun x => { x.close with superseded := true } with current := none } := by
  refine ⟨?_, fun k hk => (by cases hk), fun hterminal => ?_, ?_, fun _ _ k hk => (by cases hk),
    fun _ _ k hk => (by cases hk), fun hreleased => ?_, ?_⟩
  · exact setSocket_forall (f := fun x => { x.close with superseded := true }) (P := fun _ x => x.Wired)
      (fun k _ => h.wired k) ⟨fun _ => rfl, fun _ => rfl, fun _ => .inl rfl, fun _ => rfl, (h.wired j).attached⟩
  · exact setSocket_forall (f := fun x => { x.close with superseded := true })
      (P := fun _ x => x.onclose = false → x.attached = true) (fun k _ => h.fresh hterminal k)
      fun _ => h.current j hcurrent
  · refine setSocket_forall (f := fun x => { x.close with superseded := true })
      (P := fun k x => x.attached = true → none = some k ∨ x.shut = true ∨ x.gone = true) (fun k hk hatt => ?_)
      fun _ => .inr (.inl rfl)
    rcases h.attached k hatt with hnow | hclosed
    · rw [hcurrent] at hnow
      exact absurd (Option.some_injective _ hnow).symm hk
    · exact .inr hclosed
  · exact setSocket_forall (f := fun x => { x.close with superseded := true })
      (P := fun _ x => x.phase = .opened → x.shut = true ∨ x.gone = true) (fun k _ => h.shutdown hreleased k)
      fun _ => .inl rfl
  · exact setSocket_forall (f := fun x => { x.close with superseded := true })
      (P := fun k x => k ∈ s.box.lost → x.gone = true) (fun k _ => h.lost k) (h.lost j)

/-- A socket takes a place that is free. -/
theorem Wiring.attachFree (h : Wiring s) (hnone : s.current = none) (hphase : (s.sockets i).phase = .opened)
    (hatt : (s.sockets i).attached = false)
    (hgone : s.released = true ∨ s.terminalError.isSome ∨ (s.sockets i).gone = false) : Wiring (s.attach i) := by
  have hwired := h.wired i
  have hcurrent : ∀ j, some i = some j → j = i := fun j hj => (Option.some_injective _ hj).symm
  simp only [State.attach, hnone]
  refine ⟨?_, ?_, fun hterminal => ?_, ?_, fun _ hterminal => ?_, fun hreleased hterminal => ?_, fun hreleased => ?_, ?_⟩
  · exact setSocket_forall (f := fun x => { x with attached := true }) (P := fun _ x => x.Wired) (fun j _ => h.wired j)
      ⟨hwired.superseded, hwired.shut, hwired.gone, hwired.onclose, fun _ => hphase⟩
  · exact setSocket_forall (f := fun x => { x with attached := true }) (P := fun j x => some i = some j → x.attached = true)
      (fun j hj hcur => absurd (hcurrent j hcur) hj) fun _ => rfl
  · exact setSocket_forall (f := fun x => { x with attached := true })
      (P := fun _ x => x.onclose = false → x.attached = true) (fun j _ => h.fresh hterminal j) fun _ => rfl
  · refine setSocket_forall (f := fun x => { x with attached := true })
      (P := fun j x => x.attached = true → some i = some j ∨ x.shut = true ∨ x.gone = true) (fun j _ hj => ?_)
      fun _ => .inl rfl
    rcases h.attached j hj with hnow | hclosed
    · rw [hnone] at hnow
      cases hnow
    · exact .inr hclosed
  · refine setSocket_forall (f := fun x => { x with attached := true }) (P := fun j x => some i = some j → x.onclose = true)
      (fun j hj hcur => absurd (hcurrent j hcur) hj) fun _ => ?_
    cases honclose : (s.sockets i).onclose with
    | true => rfl
    | false =>
      have hattached := h.fresh hterminal i honclose
      rw [hatt] at hattached
      cases hattached
  · refine setSocket_forall (f := fun x => { x with attached := true }) (P := fun j x => some i = some j → x.gone = false)
      (fun j hj hcur => absurd (hcurrent j hcur) hj) fun _ => ?_
    simp only at hreleased hterminal
    rcases hgone with hgone | hgone | hgone
    · have hnot : s.released = false := hreleased
      rw [hnot] at hgone
      cases hgone
    · have hnot : s.terminalError = none := hterminal
      rw [hnot] at hgone
      cases hgone
    · exact hgone
  · exact setSocket_forall (f := fun x => { x with attached := true })
      (P := fun _ x => x.phase = .opened → x.shut = true ∨ x.gone = true) (fun j _ => h.shutdown hreleased j)
      (h.shutdown hreleased i)
  · exact setSocket_forall (f := fun x => { x with attached := true }) (P := fun j x => j ∈ s.box.lost → x.gone = true)
      (fun j _ => h.lost j) (h.lost i)

theorem attach_supersede {j : ℕ} (h : s.current = some j) :
    s.attach i = { s.setSocket j fun x => { x.close with superseded := true } with current := none }.attach i := by
  simp only [State.attach, h]
  rfl

theorem Wiring.attach (h : Wiring s) (hphase : (s.sockets i).phase = .opened) (hatt : (s.sockets i).attached = false)
    (hgone : s.released = true ∨ s.terminalError.isSome ∨ (s.sockets i).gone = false) : Wiring (s.attach i) := by
  cases hcurrent : s.current with
  | none => exact h.attachFree hcurrent hphase hatt hgone
  | some j =>
    have hij : i ≠ j := by
      rintro rfl
      have hattached := h.current i hcurrent
      rw [hatt] at hattached
      cases hattached
    have hsame : (s.setSocket j fun x => { x.close with superseded := true }).sockets i = s.sockets i := setSocket_other hij
    rw [attach_supersede hcurrent]
    refine (h.supersede hcurrent).attachFree rfl ?_ ?_ ?_
    · exact hsame ▸ hphase
    · exact hsame ▸ hatt
    · exact hsame ▸ hgone

theorem Wiring.release (h : Wiring s)
    (hwaiting : ∀ i, (s.sockets i).phase = .opened → (s.sockets i).attached = false →
      (s.sockets i).shut = true ∨ (s.sockets i).gone = true) : Wiring s.release := by
  have hsockets : ∀ j, s.release.sockets j = s.sockets j ∧ s.current ≠ some j ∨
      s.release.sockets j = (s.sockets j).close ∧ s.current = some j := by
    intro j
    unfold State.release
    cases hcurrent : s.current with
    | none => exact .inl ⟨rfl, fun h => by cases h⟩
    | some k =>
      by_cases hjk : j = k
      · subst hjk
        exact .inr ⟨setSocket_self, rfl⟩
      · exact .inl ⟨setSocket_other hjk, fun h => hjk (Option.some_injective _ h).symm⟩
  have hcurrent : s.release.current = s.current := by
    cases hc : s.current with
    | none => simp only [State.release, hc]
    | some k => simp only [State.release, hc, State.setSocket]
  have hterminal : s.release.terminalError = s.terminalError := by
    unfold State.release
    cases s.current <;> rfl
  refine ⟨fun j => ?_, fun j hj => ?_, fun hfree j => ?_, fun j hj => ?_, fun hr => (by cases hr), fun hr => (by cases hr),
    fun _ j hj => ?_, fun j hj => ?_⟩
  · rcases hsockets j with ⟨heq, -⟩ | ⟨heq, -⟩
    · rw [heq]
      exact h.wired j
    · rw [heq]
      exact (h.wired j).close
  · have hatt := h.current j (hcurrent ▸ hj)
    rcases hsockets j with ⟨heq, -⟩ | ⟨heq, -⟩
    · rw [heq]
      exact hatt
    · rw [heq]
      exact hatt
  · rcases hsockets j with ⟨heq, -⟩ | ⟨heq, hold⟩
    · rw [heq]
      exact h.fresh (hterminal ▸ hfree) j
    · rw [heq]
      exact fun _ => h.current j hold
  · rcases hsockets j with ⟨heq, -⟩ | ⟨heq, -⟩
    · rw [heq] at hj ⊢
      rw [hcurrent]
      exact h.attached j hj
    · rw [heq]
      exact .inr (.inl rfl)
  · rcases hsockets j with ⟨heq, hold⟩ | ⟨heq, -⟩
    · rw [heq] at hj ⊢
      cases hatt : (s.sockets j).attached with
      | false => exact hwaiting j hj hatt
      | true => exact (h.attached j hatt).resolve_left hold
    · rw [heq]
      exact .inl rfl
  · have hwas := h.lost j hj
    rcases hsockets j with ⟨heq, -⟩ | ⟨heq, -⟩
    · rw [heq]
      exact hwas
    · rw [heq]
      exact hwas

end wiring

/-! ### Steps and runs -/

section steps

variable {s t : State} {i : ℕ} {a : Action} {capability : Capability}

theorem Inv.failTerminal {error : ChannelTerminalError} (h : Inv s) : Inv (s.failTerminal i error) := by
  unfold State.failTerminal
  split
  · exact h
  · rename_i hworks
    obtain ⟨hreleased, hterminal⟩ := not_or.mp hworks
    rw [Bool.not_eq_true] at hreleased hterminal
    have hledger := h.ledger
    rw [hreleased, hterminal] at hledger
    refine ⟨?_, h.wiring.failTerminal hreleased offer_lost⟩
    have hfailed := hledger.fail
    rw [← hreleased] at hfailed
    exact hfailed

theorem Inv.offerFrame {bytes : Bytes} (h : Inv s) (hreleased : s.released = false) (hterminal : s.terminalError = none)
    (hfresh : (s.sockets i).stale = false)
    (hguard : 1 < (signals s.box.queue).length → s.box.queue.length < maxChannelBacklogFrames + 1) :
    Inv (s.offerFrame i bytes) := by
  unfold State.offerFrame
  split
  · exact h
  · split
    · exact h.failTerminal
    · rename_i hbytes
      split
      · exact h.failTerminal
      · rename_i hframes
        have hledger := h.ledger
        rw [hreleased, hterminal] at hledger
        refine ⟨?_, h.wiring.congr rfl rfl rfl rfl offer_lost⟩
        have hadmitted := hledger.admitFrame (f := ⟨i, bytes, (s.sockets i).stale⟩) hfresh (not_lt.mp hbytes)
          (not_le.mp hframes) hguard
        simp only
        rw [hreleased, hterminal]
        exact hadmitted

theorem Inv.onmessage {data : Option Bytes} (h : Inv s)
    (hguard : 1 < (signals s.box.queue).length → s.box.queue.length < maxChannelBacklogFrames + 1) :
    Inv (s.onmessage i data) := by
  unfold State.onmessage
  cases data with
  | none => exact h
  | some bytes =>
    simp only
    split
    · rename_i hlistens
      obtain ⟨hmessage, hclosed, hreleased, hterminal⟩ := hlistens
      exact h.offerFrame hreleased hterminal ((h.wiring.wired i).fresh hmessage hclosed) hguard
    · exact h

/-- A socket that is waited for is attached to nothing. -/
theorem Inv.connecting (h : Inv s) (hphase : (s.sockets i).phase = .connecting) : (s.sockets i).attached = false := by
  cases hatt : (s.sockets i).attached with
  | false => rfl
  | true =>
    have hopened := (h.wiring.wired i).attached hatt
    rw [hphase] at hopened
    cases hopened

theorem Inv.connectFailed (h : Inv s) (hphase : (s.sockets i).phase = .connecting) : Inv (s.connectFailed i) := by
  refine ⟨h.ledger, Wiring.congr (h.wiring.setPhase (i := i) (f := fun x => { x with phase := .failed }) (fun x => rfl) ?_ ?_)
    rfl rfl rfl rfl rfl⟩
  · intro hatt
    rw [h.connecting hphase] at hatt
    cases hatt
  · intro _ hopened
    cases hopened

theorem Inv.onclose (h : Inv s) (hgone : (s.sockets i).gone = false)
    (hguard : s.current = some i → signals s.box.queue ≠ [] → s.box.queue.length < maxChannelBacklogFrames + 1) :
    Inv (s.onclose i) := by
  unfold State.onclose
  simp only
  split
  · rename_i honclose
    rw [Bool.not_eq_true'] at honclose
    refine ⟨h.ledger, h.wiring.setGone fun hreleased hterminal hcurrent => ?_⟩
    have hlistening := h.wiring.listening hreleased hterminal i hcurrent
    rw [honclose] at hlistening
    cases hlistening
  · split
    · rename_i hphase
      have hnot : s.released = false → s.terminalError = none → s.current ≠ some i := by
        intro _ _ hcurrent
        have hatt := h.wiring.current i hcurrent
        rw [h.connecting hphase] at hatt
        cases hatt
      have hgoes : Inv (s.setSocket i Socket.disconnect) :=
        ⟨h.ledger, h.wiring.setGone hnot⟩
      refine hgoes.connectFailed ?_
      rw [setSocket_self]
      exact hphase
    · split
      · rename_i hother
        refine ⟨h.ledger, h.wiring.setGone fun hreleased _ hcurrent => ?_⟩
        rcases hother with hother | hother
        · rw [hreleased] at hother
          cases hother
        · exact hother hcurrent
      · rename_i hloses
        obtain ⟨hreleased, hcurrent⟩ := not_or.mp hloses
        rw [Bool.not_eq_true] at hreleased
        rw [not_not] at hcurrent
        have hnew : i ∉ s.box.lost := by
          intro hi
          have hwas := h.wiring.lost i hi
          rw [hgone] at hwas
          cases hwas
        have hledger := h.ledger
        rw [hreleased] at hledger
        have hlost : (s.box.lose i).lost = s.box.lost ++ [i] := offer_lost
        refine ⟨?_, ?_⟩
        · have hloss := hledger.lose hnew (hguard hcurrent)
          rw [← hreleased] at hloss
          exact hloss
        · exact h.wiring.lose hreleased hcurrent hlost

/-- **Step.**  A careful step keeps the channel in order. -/
theorem Inv.step (h : Inv s) (hstep : step capability s a = some t) (hcareful : Careful s a) : Inv t := by
  cases a with
  | dial k i =>
    simp only [Channel.step] at hstep
    split at hstep
    · split at hstep
      · rename_i left _ hphase
        cases hstep
        refine ⟨h.ledger, Wiring.congr (h.wiring.setPhase (i := i) (f := fun x => { x with phase := .connecting, left := left })
          (fun x => rfl) ?_ ?_) rfl rfl rfl rfl rfl⟩
        · intro hatt
          have hopened := (h.wiring.wired i).attached hatt
          rw [hphase] at hopened
          cases hopened
        · intro _ hopened
          cases hopened
      · cases hstep
    · cases hstep
  | targetFailed k =>
    obtain ⟨left, -, rfl⟩ := Option.map_eq_some_iff.mp hstep
    exact ⟨h.ledger, h.wiring.congr rfl rfl rfl rfl rfl⟩
  | opened i =>
    simp only [Channel.step] at hstep
    split at hstep
    · rename_i hphase
      cases hstep
      refine ⟨h.ledger, h.wiring.setPhase (fun x => rfl) (fun _ => rfl) fun hreleased _ => ?_⟩
      have hnot : s.released = false := hcareful
      rw [hreleased] at hnot
      cases hnot
    · cases hstep
  | errored i =>
    simp only [Channel.step] at hstep
    split at hstep
    · cases hstep
    · rename_i hphase
      cases hstep
      exact h.connectFailed hphase
    · cases hstep
      exact h
  | closed i =>
    simp only [Channel.step] at hstep
    split at hstep
    · cases hstep
    · rename_i hfirst
      cases hstep
      exact h.onclose (Bool.not_eq_true _ ▸ (not_or.mp hfirst).2) hcareful
  | message i data =>
    simp only [Channel.step] at hstep
    split at hstep
    · cases hstep
      exact h.onmessage hcareful
    · cases hstep
  | attach i =>
    simp only [Channel.step] at hstep
    split at hstep
    · rename_i hready
      cases hstep
      have hsame : (s.attach i).box = s.box ∧ (s.attach i).terminalError = s.terminalError ∧
          (s.attach i).released = s.released := by
        unfold State.attach
        cases s.current <;> exact ⟨rfl, rfl, rfl⟩
      refine ⟨?_, h.wiring.attach hready.1 hready.2 hcareful⟩
      rw [hsame.1, hsame.2.1, hsame.2.2]
      exact h.ledger
    · cases hstep
  | take =>
    cases hstep
    split
    · exact h
    · exact ⟨h.ledger.take, h.wiring.congr rfl rfl rfl rfl take_lost⟩
  | observe k =>
    obtain ⟨item, hitem, rfl⟩ := Option.map_eq_some_iff.mp hstep
    exact ⟨h.ledger.observe hitem, h.wiring.congr rfl rfl rfl rfl observe_lost⟩
  | send bytes bufferedAmount isOpen =>
    cases hstep
    unfold State.send
    split
    · exact h
    · split
      · exact h
      · split
        · exact h
        · split
          · exact h.failTerminal
          · exact h
  | reconnect maxAttempts =>
    simp only [Channel.step] at hstep
    split at hstep
    · cases hstep
      unfold State.reconnect
      split
      · exact h
      · exact ⟨h.ledger, h.wiring.congr rfl rfl rfl rfl rfl⟩
    · cases hstep
  | release =>
    simp only [Channel.step] at hstep
    split at hstep
    · rename_i hready
      cases hstep
      have hsame : s.release.box = { s.box.drainQueuedFrames with waiting := 0 } ∧
          s.release.terminalError = s.terminalError ∧ s.release.released = true := by
        unfold State.release
        cases s.current <;> exact ⟨rfl, rfl, rfl⟩
      refine ⟨?_, h.wiring.release hcareful⟩
      rw [hsame.1, hsame.2.1, hsame.2.2]
      have hledger := h.ledger
      rw [hready.2] at hledger
      exact hledger.release
    · cases hstep

theorem Inv.initial : Inv initial := by
  refine ⟨⟨rfl, rfl, Nat.zero_le _, Nat.zero_le _, rfl, fun f hf => (by cases hf), fun _ => rfl, List.nodup_nil,
    fun _ _ => rfl, fun _ => rfl, fun _ => rfl⟩, ?_⟩
  refine ⟨fun i => ⟨fun h => (by cases h), fun h => (by cases h), fun h => (by cases h), fun h => (by cases h),
    fun h => (by cases h)⟩, fun i hi => (by cases hi), fun _ i hi => (by cases hi), fun i hi => (by cases hi),
    fun _ _ i hi => (by cases hi), fun _ _ i hi => (by cases hi), fun h => (by cases h), fun i hi => (by cases hi)⟩

theorem Inv.sound (h : Inv s) : Sound s where
  frames := h.ledger.frames
  bytes := h.ledger.bytes
  framesBounded := h.ledger.framesBounded
  bytesBounded := h.ledger.bytesBounded
  roomy := h.ledger.roomy
  fresh := fun f hf => h.ledger.fresh f (List.mem_append_right _ hf)
  alive := h.wiring.alive
  signalled := h.ledger.signalled
  once := h.ledger.once
  kept := fun hreleased hterminal => h.ledger.kept hreleased (hterminal ▸ rfl)
  terminated := h.ledger.terminated
  shutdown := h.wiring.shutdown

end steps

/-- **Channels.**  In a run whose steps are careful the channel keeps what it promises, in every state that the run
reaches. -/
theorem channel_sound (capability : Capability) (actions : List Action) (s : State)
    (h : RunIn (fun s a t => step capability s a = some t) (fun s a _ => Careful s a) initial actions s) : Sound s :=
  (h.invariant (fun _ _ _ hs hstep hcareful => hs.step hstep hcareful) Inv.initial).sound

/-- The reconnect that is under way when the scope is released opens its socket afterwards. -/
def leaking : List Action :=
  [.dial 0 0, .opened 0, .attach 0, .reconnect 3, .dial 0 1, .release, .opened 1, .attach 1]

/-- The socket closes before the fiber that waits for it attaches it. -/
def stillborn : List Action := [.dial 0 0, .opened 0, .closed 0, .attach 0]

/-- With a full backlog the current socket closes, and so does the one that a reconnect attaches next. -/
def crowded : List Action :=
  [.dial 0 0, .opened 0, .attach 0, .reconnect 3, .dial 0 1, .opened 1] ++
    List.replicate 256 (.message 0 (some [0])) ++ [.closed 0, .attach 1, .closed 1]

/-- A socket stays open after the release, a channel takes a closed socket for its connection, and the second signal
finds no room. -/
theorem leaking_unsound :
    (∃ s, Run (fun s a t => step .tty s a = some t) initial leaking s ∧ ¬ Sound s) ∧
    (∃ s, Run (fun s a t => step .tty s a = some t) initial stillborn s ∧ ¬ Sound s) ∧
    ∃ s, Run (fun s a t => step .tty s a = some t) initial crowded s ∧ ¬ Sound s := by
  refine ⟨?_, ?_, ?_⟩
  · obtain ⟨s, hrun, hreleased, hphase, hshut, hgone⟩ : ∃ s, Run (fun s a t => step .tty s a = some t) initial leaking s ∧
        s.released = true ∧ (s.sockets 1).phase = .opened ∧ (s.sockets 1).shut = false ∧ (s.sockets 1).gone = false := by
      refine Run.of_test ?_
      decide +kernel
    refine ⟨s, hrun, fun h => ?_⟩
    rcases h.shutdown hreleased 1 hphase with hclosed | hclosed
    · rw [hshut] at hclosed
      cases hclosed
    · rw [hgone] at hclosed
      cases hclosed
  · obtain ⟨s, hrun, hreleased, hterminal, hcurrent, hgone⟩ : ∃ s,
        Run (fun s a t => step .tty s a = some t) initial stillborn s ∧
          s.released = false ∧ s.terminalError = none ∧ s.current = some 0 ∧ (s.sockets 0).gone = true := by
      refine Run.of_test ?_
      decide +kernel
    refine ⟨s, hrun, fun h => ?_⟩
    have halive := h.alive hreleased hterminal 0 hcurrent
    rw [hgone] at halive
    cases halive
  · obtain ⟨s, hrun, hoverflowed⟩ : ∃ s, Run (fun s a t => step .tty s a = some t) initial crowded s ∧
        s.box.overflowed = true := by
      refine Run.of_test ?_
      decide +kernel
    refine ⟨s, hrun, fun h => ?_⟩
    have hroomy := h.roomy
    rw [hoverflowed] at hroomy
    cases hroomy

/-- A socket is lost behind a frame, the reader sees both, another socket takes its place, and the scope is released
with a frame in the queue. -/
def releasing : List Action :=
  [.dial 0 0, .opened 0, .attach 0, .message 0 (some [1]), .closed 0, .take, .observe 0, .take, .observe 0,
    .reconnect 3, .dial 0 1, .opened 1, .attach 1, .message 1 (some [2]), .release]

theorem released_sound : ∃ s : State, s.released = true ∧ s.current = some 1 ∧ s.box.ended = [0] ∧
    s.box.yielded.map ChannelFrame.data = [[1]] ∧ s.box.queue = [] ∧ Sound s := by
  refine ⟨_, ?_, ?_, ?_, ?_, ?_, channel_sound .tty releasing _ (.cons rfl trivial (.cons rfl rfl
    (.cons rfl (.inr (.inr rfl)) (.cons rfl ?_ (.cons rfl ?_ (.cons rfl trivial (.cons rfl trivial (.cons rfl trivial
    (.cons rfl trivial (.cons rfl trivial (.cons rfl trivial (.cons rfl rfl (.cons rfl (.inr (.inr rfl))
    (.cons rfl ?_ (.cons rfl ?_ (.nil _))))))))))))))))⟩
  · rfl
  · rfl
  · rfl
  · rfl
  · rfl
  · intro hmany
    exact absurd hmany (by decide)
  · intro _ hsignals
    exact absurd rfl hsignals
  · intro hmany
    exact absurd hmany (by decide)
  · intro i hopened hattached
    obtain _ | _ | i := i
    · cases hattached
    · cases hattached
    · cases hopened

end Nehemiah.Sdk.Channel
