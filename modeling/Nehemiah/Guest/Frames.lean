import Nehemiah.Lib.Run

/-!
# Frames between the guest agent and the host

A frame is the JSON of its fields after four bytes of length.  In the guest, a session writes its frames through one
lock: output until the session is cancelled or its terminal frame is sent, and one terminal frame.  The connection takes
the bytes in parts and may fail between any two; what JSON makes of a frame is a parameter.  `frames_in_step` is what
the host can read.
-/

namespace Nehemiah.Guest

open Lib

abbrev Bytes := List UInt8

/-- `protocolFrame` and `guestAgentFrame`. -/
structure ProtocolFrame where
  version : ℤ
  type : String
  command : String
  timeoutMS : ℤ
  maxOutput : ℤ
  pty : Bool
  rows : ℕ
  cols : ℕ
  path : String
  mode : ℕ
  size : ℤ
  data : Bytes
  exitCode : Option ℤ
  timedOut : Bool
  truncated : Bool
  code : String
  error : String
deriving DecidableEq

/-- A frame with the fields that are left out. -/
def emptyFrame : ProtocolFrame :=
  ⟨0, "", "", 0, 0, false, 0, 0, "", 0, 0, [], none, false, false, "", ""⟩

/-- `encoding/json` on frames. -/
structure Codec where
  marshal : ProtocolFrame → Option Bytes
  unmarshal : Bytes → Option ProtocolFrame

def maxFrameSize : ℕ := 2 ^ 20

/-- The length as four bytes, the highest first. -/
def frameHeader (n : ℕ) : Bytes :=
  [UInt8.ofNat (n / 16777216), UInt8.ofNat (n / 65536), UInt8.ofNat (n / 256), UInt8.ofNat n]

/-! ### Writing -/

/-- What the calls of `Write` bring, one after the other: how many bytes are taken, and whether an error is returned.
A call that is not described fails. -/
abbrev Script := List (ℕ × Bool)

/-- The bytes that go out, whether all did, and the calls that are left. -/
def writeAll : Script → Bytes → Bytes × Bool × Script
  | script, [] => ([], true, script)
  | [], _ :: _ => ([], false, [])
  | (n, failed) :: script, b :: p =>
    if failed then ((b :: p).take n, false, script)
    else if n = 0 then ([], false, script)
    else
      let rest := writeAll script ((b :: p).drop n)
      ((b :: p).take n ++ rest.1, rest.2)

/-- The bytes of a frame, unless it is too large. -/
def Codec.encode (codec : Codec) (f : ProtocolFrame) : Option Bytes :=
  match codec.marshal f with
  | none => none
  | some raw => if maxFrameSize < raw.length then none else some (frameHeader raw.length ++ raw)

/-- `writeFrame`: what goes out, and whether it returns without an error. -/
def writeFrame (codec : Codec) (script : Script) (f : ProtocolFrame) : Bytes × Bool :=
  match codec.marshal f with
  | none => ([], false)
  | some raw =>
    if maxFrameSize < raw.length then ([], false)
    else
      let header := writeAll script (frameHeader raw.length)
      if header.2.1 then
        let body := writeAll header.2.2 raw
        (header.1 ++ body.1, body.2.1)
      else (header.1, false)

/-- `lockedFrameWriter`, with the bytes that have gone out and the frames that were begun, each with whether it is
terminal. -/
structure LockedFrameWriter where
  terminalSent : Bool
  forced : Option ProtocolFrame
  cancelled : Bool
  delivered : Bytes
  begun : List (ProtocolFrame × Bool)

def newLockedFrameWriter : LockedFrameWriter := ⟨false, none, false, [], []⟩

/-- The calls of the goroutines of a session, each with what the connection does to its writes. -/
inductive WriterAct
  | send (f : ProtocolFrame) (script : Script)
  | sendTerminal (f : ProtocolFrame) (script : Script)
  | forceOutcome (f : ProtocolFrame)
  | finalize (result : ProtocolFrame) (script : Script)
  | cancel

namespace LockedFrameWriter

variable (codec : Codec)

/-- A frame is dropped after the terminal one, and output also once the session is cancelled. -/
def drops (w : LockedFrameWriter) (terminal : Bool) : Bool := w.terminalSent || !terminal && w.cancelled

def writeLocked (w : LockedFrameWriter) (f : ProtocolFrame) (terminal : Bool) (script : Script) : LockedFrameWriter :=
  if w.drops terminal then w
  else
    { w with
      terminalSent := w.terminalSent || terminal
      delivered := w.delivered ++ (writeFrame codec script f).1
      begun := if (codec.encode f).isSome then w.begun ++ [(f, terminal)] else w.begun }

def forceOutcome (w : LockedFrameWriter) (f : ProtocolFrame) : LockedFrameWriter :=
  if w.forced = none ∧ ¬ w.terminalSent then { w with forced := some f } else w

/-- The frame that an action writes, and whether as the terminal one. -/
def frameOf (w : LockedFrameWriter) : WriterAct → Option (ProtocolFrame × Bool × Script)
  | .send f script => some (f, false, script)
  | .sendTerminal f script => some (f, true, script)
  | .finalize result script => some (w.forced.getD result, true, script)
  | .forceOutcome _ => none
  | .cancel => none

/-- One call, under the lock.  The session may be cancelled at any time, and is after a write has failed. -/
def next (w : LockedFrameWriter) (a : WriterAct) : LockedFrameWriter :=
  match a with
  | .forceOutcome f => w.forceOutcome f
  | .cancel => { w with cancelled := true }
  | a =>
    match w.frameOf a with
    | some (f, terminal, script) => w.writeLocked codec f terminal script
    | none => w

end LockedFrameWriter

/-! ### Reading -/

/-- `readGuestFrame`: the frame and what is left of the stream; `none` is an error, also when the stream ends. -/
def readGuestFrame (codec : Codec) : Bytes → Option (ProtocolFrame × Bytes)
  | b₃ :: b₂ :: b₁ :: b₀ :: rest =>
    let n := b₃.toNat * 16777216 + b₂.toNat * 65536 + b₁.toNat * 256 + b₀.toNat
    if n = 0 ∨ maxFrameSize < n then none
    else if rest.length < n then none
    else
      match codec.unmarshal (rest.take n) with
      | some f => if f.type = "" then none else some (f, rest.drop n)
      | none => none
  | _ => none

/-- The frames that the host decodes one after the other, up to the first error. -/
def hostReads (codec : Codec) : ℕ → Bytes → List ProtocolFrame
  | 0, _ => []
  | n + 1, stream =>
    match readGuestFrame codec stream with
    | some (f, rest) => f :: hostReads codec n rest
    | none => []

/-! ### What goes out of one frame -/

theorem writeAll_begins (script : Script) (p : Bytes) : (writeAll script p).1 <+: p := by
  fun_induction writeAll script p with
  | case1 script => exact List.prefix_rfl
  | case2 b p => exact List.nil_prefix
  | case3 => exact List.take_prefix _ _
  | case4 => exact List.nil_prefix
  | case5 n failed script b p _ _ _ ih =>
    calc (b :: p).take n ++ (writeAll script ((b :: p).drop n)).1
        <+: (b :: p).take n ++ (b :: p).drop n := (List.prefix_append_right_inj _).mpr ih
      _ = b :: p := List.take_append_drop n (b :: p)

theorem writeAll_ok (script : Script) (p : Bytes) (h : (writeAll script p).2.1 = true) : (writeAll script p).1 = p := by
  fun_induction writeAll script p with
  | case1 script => rfl
  | case2 b p => cases h
  | case3 => cases h
  | case4 => cases h
  | case5 n failed script b p _ _ _ ih =>
    show (b :: p).take n ++ (writeAll script ((b :: p).drop n)).1 = b :: p
    rw [ih h, List.take_append_drop]

/-- A frame goes out in whole or up to some byte. -/
theorem writeFrame_prefix (codec : Codec) (script : Script) (f : ProtocolFrame) :
    (writeFrame codec script f).1 <+: (codec.encode f).getD [] := by
  unfold writeFrame Codec.encode
  cases codec.marshal f with
  | none => exact List.nil_prefix
  | some raw =>
    simp only
    split
    · exact List.nil_prefix
    · split
      next hok =>
        rw [Option.getD_some, writeAll_ok _ _ hok]
        exact (List.prefix_append_right_inj _).mpr (writeAll_begins _ raw)
      · exact (writeAll_begins _ _).trans (List.prefix_append _ _)

/-! ### The writer -/

namespace LockedFrameWriter

variable (codec : Codec)

/-- The frames that were begun, one after the other. -/
def stream (w : LockedFrameWriter) : Bytes := w.begun.flatMap fun b => (codec.encode b.1).getD []

/-- Every frame that was begun has gone out whole. -/
def Whole (w : LockedFrameWriter) : Prop := w.delivered = w.stream codec

/-- Nothing is begun after a terminal frame, and what is begun can be encoded. -/
structure Orderly (w : LockedFrameWriter) : Prop where
  last : w.begun.Pairwise fun a _ => a.2 = false
  sent : ∀ b ∈ w.begun, b.2 = true → w.terminalSent = true
  encoded : ∀ b ∈ w.begun, (codec.encode b.1).isSome = true

variable {codec} {w : LockedFrameWriter}

theorem Orderly.writeLocked (h : Orderly codec w) (f : ProtocolFrame) (terminal : Bool) (script : Script) :
    Orderly codec (w.writeLocked codec f terminal script) := by
  unfold LockedFrameWriter.writeLocked
  split
  · exact h
  next hdrops =>
    have open' : w.terminalSent = false := by
      rw [drops, Bool.or_eq_true, not_or] at hdrops
      simpa using hdrops.1
    have before : ∀ b ∈ w.begun, b.2 = false := by
      intro b hb
      cases ht : b.2 with
      | false => rfl
      | true => rw [← open', h.sent b hb ht]
    by_cases he : (codec.encode f).isSome = true
    · constructor
      · simp only [he, if_true, List.pairwise_append, List.pairwise_singleton, List.mem_singleton]
        exact ⟨h.last, trivial, fun a ha b _ => before a ha⟩
      · simp only [he, if_true]
        intro b hb ht
        rcases List.mem_append.mp hb with hb | hb
        · rw [before b hb] at ht
          cases ht
        · rw [List.mem_singleton] at hb
          subst hb
          simp [show terminal = true from ht]
      · simp only [he, if_true]
        intro b hb
        rcases List.mem_append.mp hb with hb | hb
        · exact h.encoded b hb
        · rw [List.mem_singleton] at hb
          subst hb
          exact he
    · simp only [he]
      exact ⟨h.last, fun b hb ht => by simp [h.sent b hb ht], h.encoded⟩

/-- **Step lemma**, for any call. -/
theorem Orderly.next (h : Orderly codec w) (a : WriterAct) : Orderly codec (w.next codec a) := by
  cases a with
  | send f script => exact h.writeLocked f false script
  | sendTerminal f script => exact h.writeLocked f true script
  | finalize result script => exact h.writeLocked _ true script
  | cancel => exact ⟨h.last, h.sent, h.encoded⟩
  | forceOutcome f =>
    show Orderly codec (w.forceOutcome f)
    unfold LockedFrameWriter.forceOutcome
    split
    · exact ⟨h.last, h.sent, h.encoded⟩
    · exact h

theorem stream_prefix_writeLocked (h : Whole codec w) (f : ProtocolFrame) (terminal : Bool) (script : Script) :
    (w.writeLocked codec f terminal script).delivered <+: (w.writeLocked codec f terminal script).stream codec := by
  unfold LockedFrameWriter.writeLocked
  split
  · rw [show w.delivered = w.stream codec from h]
  · have goesOut := writeFrame_prefix codec script f
    have h : w.delivered = w.stream codec := h
    cases he : codec.encode f with
    | some encoded =>
      rw [he, Option.getD_some] at goesOut
      simp only [stream, Option.isSome_some, if_true, List.flatMap_append, List.flatMap_singleton, he, Option.getD_some]
      rw [h]
      exact (List.prefix_append_right_inj _).mpr goesOut
    | none =>
      rw [he, Option.getD_none, List.prefix_nil] at goesOut
      simp only [stream, Option.isSome_none, Bool.false_eq_true, if_false]
      rw [goesOut, List.append_nil, h]
      exact List.prefix_rfl

/-- A frame is written only while every frame before it has gone out whole. -/
def WritesWhole (codec : Codec) (w : LockedFrameWriter) (a : WriterAct) : Prop :=
  ∀ f terminal script, w.frameOf a = some (f, terminal, script) → w.drops terminal = false → Whole codec w

/-- **Step lemma**, for calls that write after whole frames. -/
theorem prefix_next (h : w.delivered <+: w.stream codec) {a : WriterAct} (hg : WritesWhole codec w a) :
    (w.next codec a).delivered <+: (w.next codec a).stream codec := by
  have writes : ∀ f terminal script, w.frameOf a = some (f, terminal, script) →
      (w.writeLocked codec f terminal script).delivered <+: (w.writeLocked codec f terminal script).stream codec := by
    intro f terminal script hf
    cases hd : w.drops terminal with
    | true =>
      have dropped : w.writeLocked codec f terminal script = w := by simp [LockedFrameWriter.writeLocked, hd]
      rw [dropped]
      exact h
    | false => exact stream_prefix_writeLocked (hg f terminal script hf hd) f terminal script
  cases a with
  | send f script => exact writes f false script rfl
  | sendTerminal f script => exact writes f true script rfl
  | finalize result script => exact writes _ true script rfl
  | cancel => exact h
  | forceOutcome f =>
    show (w.forceOutcome f).delivered <+: (w.forceOutcome f).stream codec
    unfold LockedFrameWriter.forceOutcome
    split
    · exact h
    · exact h

end LockedFrameWriter

/-! ### The host at the other end -/

theorem header_value {n : ℕ} (h : n ≤ maxFrameSize) :
    (UInt8.ofNat (n / 16777216)).toNat * 16777216 + (UInt8.ofNat (n / 65536)).toNat * 65536 +
      (UInt8.ofNat (n / 256)).toNat * 256 + (UInt8.ofNat n).toNat = n := by
  unfold maxFrameSize at h
  simp only [UInt8.toNat_ofNat']
  omega

/-- What the host reads after a header. -/
theorem readGuestFrame_header (codec : Codec) {raw rest : Bytes} (hraw : raw.length ≤ maxFrameSize) {f : ProtocolFrame}
    {left : Bytes} (h : readGuestFrame codec (frameHeader raw.length ++ rest) = some (f, left)) :
    raw.length ≤ rest.length ∧ codec.unmarshal (rest.take raw.length) = some f ∧ left = rest.drop raw.length := by
  unfold readGuestFrame at h
  simp only [frameHeader, List.cons_append, List.nil_append, header_value hraw] at h
  split at h
  · cases h
  · split at h
    · cases h
    next hlen =>
      split at h
      next g hg =>
        split at h
        · cases h
        · simp only [Option.some.injEq, Prod.mk.injEq] at h
          obtain ⟨rfl, rfl⟩ := h
          exact ⟨by omega, hg, rfl⟩
      · cases h

theorem readGuestFrame_length {codec : Codec} {bytes left : Bytes} {f : ProtocolFrame}
    (h : readGuestFrame codec bytes = some (f, left)) : 4 ≤ bytes.length := by
  unfold readGuestFrame at h
  split at h
  · simp
  · cases h

/-- From a part of a stream of frames the host decodes what those frames decode to, in their order. -/
theorem hostReads_prefix (codec : Codec) (n : ℕ) (frames : List ProtocolFrame)
    (hframes : ∀ f ∈ frames, (codec.encode f).isSome = true) :
    ∀ {bytes : Bytes}, bytes <+: frames.flatMap (fun f => (codec.encode f).getD []) →
      hostReads codec n bytes <+: frames.filterMap fun f => (codec.marshal f).bind codec.unmarshal := by
  induction n generalizing frames with
  | zero => exact fun _ => List.nil_prefix
  | succ n ih =>
    intro bytes hb
    unfold hostReads
    cases hr : readGuestFrame codec bytes with
    | none => exact List.nil_prefix
    | some read =>
      obtain ⟨g, left⟩ := read
      have four := readGuestFrame_length hr
      cases frames with
      | nil =>
        rw [List.flatMap_nil, List.prefix_nil] at hb
        subst hb
        cases hr
      | cons f frames =>
        have hf := hframes f List.mem_cons_self
        unfold Codec.encode at hf
        cases hm : codec.marshal f with
        | none =>
          rw [hm] at hf
          cases hf
        | some raw =>
          rw [hm] at hf
          simp only at hf
          split at hf
          · cases hf
          next hsize =>
            have encoded : codec.encode f = some (frameHeader raw.length ++ raw) := by
              simp [Codec.encode, hm, hsize]
            rw [List.flatMap_cons, encoded, Option.getD_some, List.append_assoc] at hb
            -- the stream has the header, so that the host takes the length of this frame
            obtain ⟨rest, rfl⟩ : ∃ rest, bytes = frameHeader raw.length ++ rest := by
              have : frameHeader raw.length <+: bytes := by
                refine List.prefix_of_prefix_length_le (List.prefix_append _ _) hb ?_
                simpa [frameHeader] using four
              exact this.imp fun _ h => h.symm
            obtain ⟨hlen, hdecoded, rfl⟩ := readGuestFrame_header codec (by omega) hr
            have hrest := (List.prefix_append_right_inj _).mp hb
            have hraw : rest.take raw.length = raw := by
              have : raw <+: rest := List.prefix_of_prefix_length_le (List.prefix_append _ _) hrest hlen
              exact List.prefix_iff_eq_take.mp this |>.symm
            have hleft : rest.drop raw.length <+: frames.flatMap fun f => (codec.encode f).getD [] := by
              rw [← List.take_append_drop raw.length rest, hraw] at hrest
              exact (List.prefix_append_right_inj _).mp hrest
            rw [hraw] at hdecoded
            rw [List.filterMap_cons_some (by rw [hm]; exact hdecoded), List.cons_prefix_cons]
            exact ⟨rfl, ih frames (fun f hf => hframes f (List.mem_cons_of_mem _ hf)) hleft⟩

/-- The calls of a session, one after the other. -/
def writerStep (codec : Codec) (w : LockedFrameWriter) (a : WriterAct) (w' : LockedFrameWriter) : Prop :=
  w' = w.next codec a

/-- **The stream of a session stays in step.**  In every run in which a frame is written only while those before it have
gone out whole, what has been delivered is the beginning of the frames that were written, one after the other, and the
host decodes these and no others.  In every run at most one of them is terminal, and it is the last. -/
theorem frames_in_step (codec : Codec) :
    (∀ acts w, RunIn (writerStep codec) (fun w a _ => LockedFrameWriter.WritesWhole codec w a) newLockedFrameWriter
        acts w →
      w.delivered <+: w.stream codec ∧
      ∀ n, hostReads codec n w.delivered <+:
        (w.begun.map Prod.fst).filterMap fun f => (codec.marshal f).bind codec.unmarshal) ∧
    ∀ acts w, Run (writerStep codec) newLockedFrameWriter acts w → w.begun.Pairwise fun a _ => a.2 = false := by
  have orderly : ∀ acts w, Run (writerStep codec) newLockedFrameWriter acts w →
      LockedFrameWriter.Orderly codec w := by
    intro acts w h
    refine h.invariant (fun s a t hs hst => ?_) ⟨by simp [newLockedFrameWriter], by simp [newLockedFrameWriter],
      by simp [newLockedFrameWriter]⟩
    rw [show t = s.next codec a from hst]
    exact hs.next a
  refine ⟨fun acts w h => ?_, fun acts w h => (orderly acts w h).last⟩
  have inStep : w.delivered <+: w.stream codec := by
    refine h.invariant (I := fun w => w.delivered <+: w.stream codec) (fun s a t hs hst hg => ?_) List.prefix_rfl
    rw [show t = s.next codec a from hst]
    exact LockedFrameWriter.prefix_next hs hg
  refine ⟨inStep, fun n => ?_⟩
  refine hostReads_prefix codec n (w.begun.map Prod.fst) (fun f hf => ?_) ?_
  · obtain ⟨b, hb, rfl⟩ := List.mem_map.mp hf
    exact (orderly acts w h.run).encoded b hb
  · rw [List.flatMap_map]
    exact inStep

/-! ### A frame that is cut off -/

def asciiBytes (s : String) : Bytes := s.toList.map fun c => UInt8.ofNat c.toNat

def outputFrame : ProtocolFrame := { emptyFrame with type := "stdout", data := asciiBytes "hi" }

def resultFrame : ProtocolFrame := { emptyFrame with type := "result", exitCode := some 0 }

/-- The JSON of the two frames. -/
def outputCodec : Codec where
  marshal f :=
    if f = outputFrame then some (asciiBytes "\x7b\"type\":\"stdout\",\"data\":\"aGk=\"\x7d")
    else if f = resultFrame then some (asciiBytes "\x7b\"type\":\"result\",\"exit_code\":0\x7d")
    else none
  unmarshal raw :=
    if raw = asciiBytes "\x7b\"type\":\"stdout\",\"data\":\"aGk=\"\x7d" then some outputFrame
    else if raw = asciiBytes "\x7b\"type\":\"result\",\"exit_code\":0\x7d" then some resultFrame
    else none

/-- The deadline passes when ten bytes of the output are out; the session is cancelled, and its result is written. -/
def cutOff : List WriterAct :=
  [.send outputFrame [(4, false), (6, true)], .cancel, .finalize resultFrame [(4, false), (64, false)]]

/-- The result follows ten bytes of output, so that the host decodes nothing. -/
theorem cutOff_out_of_step :
    ∃ w, Run (writerStep outputCodec) newLockedFrameWriter cutOff w ∧ ¬ w.delivered <+: w.stream outputCodec ∧
      w.begun = [(outputFrame, false), (resultFrame, true)] ∧ hostReads outputCodec 2 w.delivered = [] := by
  refine ⟨_, .cons rfl (.cons rfl (.cons rfl (.nil _))), ?_⟩
  decide +kernel

/-- A session that is read at the other end. -/
theorem whole_in_step :
    ∃ w, RunIn (writerStep outputCodec) (fun w a _ => LockedFrameWriter.WritesWhole outputCodec w a) newLockedFrameWriter
        [.send outputFrame [(4, false), (64, false)], .finalize resultFrame [(4, false), (64, false)]] w ∧
      hostReads outputCodec 2 w.delivered = [outputFrame, resultFrame] ∧ w.delivered <+: w.stream outputCodec := by
  have run : RunIn (writerStep outputCodec) (fun w a _ => LockedFrameWriter.WritesWhole outputCodec w a)
      newLockedFrameWriter
      [.send outputFrame [(4, false), (64, false)], .finalize resultFrame [(4, false), (64, false)]]
      ((newLockedFrameWriter.next outputCodec (.send outputFrame [(4, false), (64, false)])).next outputCodec
        (.finalize resultFrame [(4, false), (64, false)])) := by
    refine .cons rfl ?_ (.cons rfl ?_ (.nil _))
    · intro _ _ _ _ _
      rfl
    · intro _ _ _ _ _
      show LockedFrameWriter.delivered _ = LockedFrameWriter.stream _ _
      decide +kernel
  exact ⟨_, run, by decide +kernel, ((frames_in_step outputCodec).1 _ _ run).1⟩

end Nehemiah.Guest
