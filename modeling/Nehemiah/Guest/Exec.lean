import Nehemiah.Guest.Frames

/-!
# A command in the guest

A command writes to two pipes, or to one terminal; a reader for each takes what is there in chunks, subject to a budget
that they share, and sends it.  With pipes the readers come to their ends before the command is waited for.  With a terminal
the command is waited for first, and then the terminal is closed, with whatever the reader has not read (`output_complete`).

The bytes of a terminal are those that its line discipline hands on.  Processes that the command leaves behind write as
the command.
-/

namespace Nehemiah.Guest

open Lib

inductive Channel
  | stdout
  | stderr
  | pty
deriving DecidableEq

def Channel.frameType : Channel → String
  | .stdout => "stdout"
  | .stderr => "stderr"
  | .pty => "pty"

def frameChunkSize : ℕ := 32 * 1024

def defaultOutputSize : ℤ := 64 * 1024

def maxOutputSize : ℤ := 1024 * 1024

/-! ### The budget -/

structure OutputBudget where
  remaining : ℤ
  truncated : Bool

def newOutputBudget (requested : ℤ) : OutputBudget :=
  let requested := if requested ≤ 0 then defaultOutputSize else requested
  ⟨if maxOutputSize < requested then maxOutputSize else requested, false⟩

def OutputBudget.take (b : OutputBudget) (p : Bytes) : Bytes × OutputBudget :=
  if b.remaining < p.length then
    let p := p.take b.remaining.toNat
    (p, ⟨b.remaining - p.length, true⟩)
  else (p, { b with remaining := b.remaining - p.length })

/-! ### The session -/

/-- Where a reader is: `holding` what it read, `sending` what the budget left of it, or about to cancel the session
after a send that failed. -/
inductive Reader
  | reading
  | holding (p : Bytes)
  | sending (p : Bytes)
  | cancelling
  | done
  deriving DecidableEq

/-- One output of the command: all that was written to it, and the part that is not read. -/
structure Output where
  written : Bytes
  unread : Bytes
  hungUp : Bool
  reader : Reader

inductive CtxErr
  | deadlineExceeded
  | canceled
  deriving DecidableEq

structure ExecSession where
  pty : Bool
  output : Channel → Output
  budget : OutputBudget
  ctx : Option CtxErr
  exited : Option ℤ
  masterClosed : Bool
  frames : List ProtocolFrame
  /-- The result frame, and the state of the context when it was made. -/
  result : Option (ProtocolFrame × Option CtxErr)

inductive ExecAct
  | write (c : Channel) (p : Bytes)
  | hangUp (c : Channel)
  | exit (code : ℤ)
  | expire
  | cancel
  | read (c : Channel) (n : ℕ)
  | eof (c : Channel)
  | take (c : Channel)
  | send (c : Channel) (sent : Bool)
  | cancelAfter (c : Channel)
  | closeMaster
  | finalize
  deriving DecidableEq

/-- `commandResult`. -/
def commandResult (ctx : Option CtxErr) (code : ℤ) : ℤ × Bool :=
  match ctx with
  | some .deadlineExceeded => (124, true)
  | some .canceled => (130, false)
  | none => (code, false)

def outputFrameOf (c : Channel) (p : Bytes) : ProtocolFrame := { emptyFrame with type := c.frameType, data := p }

namespace ExecSession

/-- The outputs that a session has. -/
def channels (s : ExecSession) : List Channel := if s.pty then [.pty] else [.stdout, .stderr]

def start (pty : Bool) (maxOutput : ℤ) : ExecSession where
  pty := pty
  output := fun _ => ⟨[], [], false, .reading⟩
  budget := newOutputBudget maxOutput
  ctx := none
  exited := none
  masterClosed := false
  frames := []
  result := none

def put (s : ExecSession) (c : Channel) (o : Output) : ExecSession := { s with output := Function.update s.output c o }

def resultFrameOf (s : ExecSession) (code : ℤ) : ProtocolFrame :=
  { emptyFrame with
    type := "result"
    exitCode := some (commandResult s.ctx code).1
    timedOut := (commandResult s.ctx code).2
    truncated := s.budget.truncated }

/-- One step of a reader that sends; the session must not be cancelled for the frame to go out. -/
def send (s : ExecSession) (c : Channel) (p : Bytes) (sent : Bool) : ExecSession :=
  let o := s.output c
  if s.ctx ≠ none then s.put c { o with reader := .reading }
  else if sent then { s.put c { o with reader := .reading } with frames := s.frames ++ [outputFrameOf c p] }
  else s.put c { o with reader := .cancelling }

/-- All readers have returned, and the command has been waited for. -/
def mayFinalize (s : ExecSession) : Bool :=
  s.exited.isSome && s.result.isNone && (!s.pty || s.masterClosed) &&
    s.channels.all fun c => decide ((s.output c).reader = .done)

def next (s : ExecSession) : ExecAct → Option ExecSession
  | .write c p =>
    let o := s.output c
    if c ∈ s.channels ∧ ¬ o.hungUp ∧ ¬ (s.pty ∧ s.masterClosed) then
      some (s.put c { o with written := o.written ++ p, unread := o.unread ++ p })
    else none
  | .hangUp c => if c ∈ s.channels then some (s.put c { s.output c with hungUp := true }) else none
  | .exit code => if s.exited = none then some { s with exited := some code } else none
  | .expire => some { s with ctx := some (s.ctx.getD .deadlineExceeded) }
  | .cancel => some { s with ctx := some (s.ctx.getD .canceled) }
  | .read c n =>
    let o := s.output c
    if c ∈ s.channels ∧ o.reader = .reading ∧ 0 < n ∧ n ≤ frameChunkSize ∧ n ≤ o.unread.length then
      some (s.put c { o with unread := o.unread.drop n, reader := .holding (o.unread.take n) })
    else none
  | .eof c =>
    let o := s.output c
    if c ∈ s.channels ∧ o.reader = .reading ∧ o.unread = [] ∧ (o.hungUp ∨ s.pty ∧ s.masterClosed) then
      some (s.put c { o with reader := .done })
    else none
  | .take c =>
    match (s.output c).reader with
    | .holding p =>
      let taken := s.budget.take p
      let reader := if taken.1 = [] then Reader.reading else .sending taken.1
      some { s.put c { s.output c with reader := reader } with budget := taken.2 }
    | _ => none
  | .send c sent =>
    match (s.output c).reader with
    | .sending p => some (s.send c p sent)
    | _ => none
  | .cancelAfter c =>
    if (s.output c).reader = .cancelling then
      some { s.put c { s.output c with reader := .reading } with ctx := some (s.ctx.getD .canceled) }
    else none
  | .closeMaster =>
    if s.pty ∧ s.exited.isSome ∧ ¬ s.masterClosed then
      some { s.put .pty { s.output .pty with unread := [] } with masterClosed := true }
    else none
  | .finalize =>
    match s.exited with
    | some code => if s.mayFinalize then some { s with result := some (s.resultFrameOf code, s.ctx) } else none
    | none => none

/-- The frames of the session, with its result. -/
def sent (s : ExecSession) : List ProtocolFrame := s.frames ++ (s.result.map Prod.fst).toList

end ExecSession

/-! ### The host -/

structure GuestExecResult where
  stdout : Bytes
  stderr : Bytes
  pty : Bytes
  exitCode : ℤ
  timedOut : Bool
  truncated : Bool
  deriving DecidableEq

inductive ExecError
  | connection
  | omittedExitCode
  | remote (code message : String)
  | unexpectedFrame (type : String)
  | exceededBound
  deriving DecidableEq

/-- What `Exec` asks for at most. -/
def execMaxOutput (maxOutput : ℤ) : ℤ :=
  let maxOutput := if maxOutput ≤ 0 then 65536 else maxOutput
  if 1048576 < maxOutput then 1048576 else maxOutput

/-- The loop of `guestAgentClient.Exec`, over the frames that arrive; the connection ends after them. -/
def execLoop (maxOutput : ℤ) : List ProtocolFrame → GuestExecResult → ℤ → Except ExecError GuestExecResult
  | [], _, _ => .error .connection
  | f :: rest, result, captured =>
    let more (result : GuestExecResult) : Except ExecError GuestExecResult :=
      let captured := captured + f.data.length
      if maxOutput < captured then .error .exceededBound else execLoop maxOutput rest result captured
    if f.type = "stdout" then more { result with stdout := result.stdout ++ f.data }
    else if f.type = "stderr" then more { result with stderr := result.stderr ++ f.data }
    else if f.type = "pty" then more { result with pty := result.pty ++ f.data }
    else if f.type = "result" then
      match f.exitCode with
      | none => .error .omittedExitCode
      | some code => .ok { result with exitCode := code, timedOut := f.timedOut, truncated := f.truncated }
    else if f.type = "error" then .error (.remote f.code f.error)
    else .error (.unexpectedFrame f.type)

def exec (maxOutput : ℤ) (frames : List ProtocolFrame) : Except ExecError GuestExecResult :=
  execLoop (execMaxOutput maxOutput) frames ⟨[], [], [], 0, false, false⟩ 0

def GuestExecResult.output (r : GuestExecResult) : Channel → Bytes
  | .stdout => r.stdout
  | .stderr => r.stderr
  | .pty => r.pty

/-! ### The host's loop -/

theorem frameType_injective {c c' : Channel} (h : c.frameType = c'.frameType) : c = c' := by
  cases c <;> cases c' <;> first | rfl | exact absurd h (by decide)

/-- The bytes of the frames of one output. -/
def delivered (frames : List ProtocolFrame) (c : Channel) : Bytes :=
  (frames.filter fun f => decide (f.type = c.frameType)).flatMap ProtocolFrame.data

theorem delivered_append (frames frames' : List ProtocolFrame) (c : Channel) :
    delivered (frames ++ frames') c = delivered frames c ++ delivered frames' c := by
  simp [delivered]

theorem delivered_self (c : Channel) (p : Bytes) : delivered [outputFrameOf c p] c = p := by
  simp [delivered, outputFrameOf]

theorem delivered_other {c c' : Channel} (h : c' ≠ c) (p : Bytes) : delivered [outputFrameOf c p] c' = [] := by
  have : c.frameType ≠ c'.frameType := fun heq => h (frameType_injective heq.symm)
  simp [delivered, outputFrameOf, this]

/-- A frame of output. -/
def IsOutput (f : ProtocolFrame) : Prop := ∃ c p, f = outputFrameOf c p

/-- A frame of a result. -/
def IsResult (f : ProtocolFrame) : Prop := f.type = "result" ∧ ∃ code, f.exitCode = some code

def GuestExecResult.add (r : GuestExecResult) (c : Channel) (p : Bytes) : GuestExecResult :=
  match c with
  | .stdout => { r with stdout := r.stdout ++ p }
  | .stderr => { r with stderr := r.stderr ++ p }
  | .pty => { r with pty := r.pty ++ p }

theorem output_add (r : GuestExecResult) (c c' : Channel) (p : Bytes) :
    (r.add c p).output c' = r.output c' ++ delivered [outputFrameOf c p] c' := by
  by_cases h : c' = c
  · subst h
    rw [delivered_self]
    cases c' <;> rfl
  · rw [delivered_other h, List.append_nil]
    cases c <;> cases c' <;> first | rfl | exact absurd rfl h

theorem execLoop_output (maxOutput : ℤ) (c : Channel) (p : Bytes) (rest : List ProtocolFrame) (r : GuestExecResult)
    (captured : ℤ) :
    execLoop maxOutput (outputFrameOf c p :: rest) r captured =
      if maxOutput < captured + p.length then .error .exceededBound
      else execLoop maxOutput rest (r.add c p) (captured + p.length) := by
  cases c <;> rfl

theorem execLoop_result {f : ProtocolFrame} {code : ℤ} (htype : f.type = "result") (hcode : f.exitCode = some code)
    (maxOutput : ℤ) (rest : List ProtocolFrame) (r : GuestExecResult) (captured : ℤ) :
    execLoop maxOutput (f :: rest) r captured =
      .ok { r with exitCode := code, timedOut := f.timedOut, truncated := f.truncated } := by
  unfold execLoop
  simp [htype, hcode]

/-- The bytes of some frames. -/
def dataLength (frames : List ProtocolFrame) : ℕ := (frames.map fun f => f.data.length).sum

theorem dataLength_append (frames frames' : List ProtocolFrame) :
    dataLength (frames ++ frames') = dataLength frames + dataLength frames' := by
  simp [dataLength]

theorem dataLength_le_of_prefix {frames frames' : List ProtocolFrame} (h : frames <+: frames') :
    dataLength frames ≤ dataLength frames' := by
  obtain ⟨rest, rfl⟩ := h
  rw [dataLength_append]
  omega

variable {maxOutput : ℤ} {acts : List ExecAct}

/-- Frames within the bound are read to their end. -/
theorem execLoop_frames (frames : List ProtocolFrame) (hframes : ∀ f ∈ frames, IsOutput f) :
    ∀ (rest : List ProtocolFrame) (r : GuestExecResult) (captured : ℤ), captured + dataLength frames ≤ maxOutput →
      ∃ r', execLoop maxOutput (frames ++ rest) r captured =
          execLoop maxOutput rest r' (captured + dataLength frames) ∧
        ∀ c, r'.output c = r.output c ++ delivered frames c := by
  induction frames with
  | nil =>
    intro rest r captured _
    exact ⟨r, by simp [dataLength], fun c => by simp [delivered]⟩
  | cons f frames ih =>
    intro rest r captured hbound
    obtain ⟨c, p, rfl⟩ := hframes f List.mem_cons_self
    have hlength : dataLength (outputFrameOf c p :: frames) = p.length + dataLength frames := by
      simp [dataLength, outputFrameOf]
    rw [hlength] at hbound ⊢
    obtain ⟨r', hloop, hout⟩ := ih (fun f hf => hframes f (List.mem_cons_of_mem _ hf)) rest (r.add c p)
      (captured + p.length) (by omega)
    refine ⟨r', ?_, fun c' => ?_⟩
    · rw [List.cons_append, execLoop_output, if_neg (by omega), hloop]
      congr 1
      omega
    · rw [hout, output_add, List.append_assoc, ← delivered_append, List.singleton_append]

/-! ### The budget is kept -/

/-- What a reader has taken of the budget and not sent. -/
def Reader.taken : Reader → ℕ
  | .sending p => p.length
  | _ => 0

namespace ExecSession

def pending (s : ExecSession) : ℕ :=
  (s.output .stdout).reader.taken + (s.output .stderr).reader.taken + (s.output .pty).reader.taken

theorem pending_put (s : ExecSession) (c : Channel) (o : Output) :
    (s.put c o).pending + (s.output c).reader.taken = s.pending + o.reader.taken := by
  cases c <;> simp [pending, put, Function.update] <;> omega

/-- What was taken of the budget is in frames or about to be, the frames are of output, and the result is one. -/
structure Budgeted (bound : ℤ) (s : ExecSession) : Prop where
  frames : ∀ f ∈ s.frames, IsOutput f
  remaining : 0 ≤ s.budget.remaining
  total : dataLength s.frames + s.pending + s.budget.remaining ≤ bound
  result : ∀ r, s.result = some r → IsResult r.1

theorem Budgeted.put {bound : ℤ} {s : ExecSession} (h : Budgeted bound s) {c : Channel} {o : Output}
    (ho : o.reader.taken ≤ (s.output c).reader.taken) : Budgeted bound (s.put c o) := by
  have hp := pending_put s c o
  have ht := h.total
  refine ⟨h.frames, h.remaining, ?_, h.result⟩
  show (dataLength s.frames : ℤ) + (s.put c o).pending + s.budget.remaining ≤ bound
  omega

end ExecSession

theorem take_budget (b : OutputBudget) (p : Bytes) (h : 0 ≤ b.remaining) :
    0 ≤ (b.take p).2.remaining ∧ ((b.take p).1.length : ℤ) + (b.take p).2.remaining = b.remaining := by
  unfold OutputBudget.take
  split
  next hlt =>
    simp only [List.length_take]
    omega
  next hle =>
    simp only
    omega

theorem newOutputBudget_remaining (maxOutput : ℤ) :
    0 ≤ (newOutputBudget (execMaxOutput maxOutput)).remaining ∧
      (newOutputBudget (execMaxOutput maxOutput)).remaining ≤ execMaxOutput maxOutput := by
  unfold newOutputBudget execMaxOutput defaultOutputSize maxOutputSize
  simp only
  split_ifs <;> omega

theorem take_whole {b : OutputBudget} {p : Bytes} (h : (b.take p).2.truncated = false) :
    b.truncated = false ∧ (b.take p).1 = p := by
  unfold OutputBudget.take at h ⊢
  split_ifs at h ⊢
  exact ⟨h, rfl⟩

/-! ### What a step does -/

namespace ExecSession

@[simp] theorem put_self (s : ExecSession) (c : Channel) (o : Output) : (s.put c o).output c = o := by
  simp [put]

@[simp] theorem put_other (s : ExecSession) {c c' : Channel} (o : Output) (h : c' ≠ c) :
    (s.put c o).output c' = s.output c' := by
  simp [put, h]

/-- The steps of a session, with what each requires. -/
inductive Moved (s : ExecSession) : ExecAct → ExecSession → Prop
  | write {c : Channel} (p : Bytes) (hc : c ∈ s.channels) (hup : ¬ (s.output c).hungUp)
      (hmaster : ¬ (s.pty ∧ s.masterClosed)) :
      Moved s (.write c p) (s.put c
        { s.output c with written := (s.output c).written ++ p, unread := (s.output c).unread ++ p })
  | hangUp {c : Channel} (hc : c ∈ s.channels) : Moved s (.hangUp c) (s.put c { s.output c with hungUp := true })
  | exit (code : ℤ) : Moved s (.exit code) { s with exited := some code }
  | expire : Moved s .expire { s with ctx := some (s.ctx.getD .deadlineExceeded) }
  | cancel : Moved s .cancel { s with ctx := some (s.ctx.getD .canceled) }
  | read {c : Channel} {n : ℕ} (hc : c ∈ s.channels) (hr : (s.output c).reader = .reading) :
      Moved s (.read c n) (s.put c
        { s.output c with unread := (s.output c).unread.drop n, reader := .holding ((s.output c).unread.take n) })
  | eof {c : Channel} (hc : c ∈ s.channels) (hr : (s.output c).reader = .reading) (hempty : (s.output c).unread = [])
      (hup : (s.output c).hungUp ∨ s.pty ∧ s.masterClosed) :
      Moved s (.eof c) (s.put c { s.output c with reader := .done })
  | take {c : Channel} {p : Bytes} (hr : (s.output c).reader = .holding p) :
      Moved s (.take c)
        { s.put c { s.output c with
              reader := if (s.budget.take p).1 = [] then Reader.reading else .sending (s.budget.take p).1 } with
          budget := (s.budget.take p).2 }
  | dropped {c : Channel} {p : Bytes} (sent : Bool) (hr : (s.output c).reader = .sending p) (hctx : s.ctx ≠ none) :
      Moved s (.send c sent) (s.put c { s.output c with reader := .reading })
  | sent {c : Channel} {p : Bytes} (hr : (s.output c).reader = .sending p) :
      Moved s (.send c true)
        { s.put c { s.output c with reader := .reading } with frames := s.frames ++ [outputFrameOf c p] }
  | failed {c : Channel} {p : Bytes} (hr : (s.output c).reader = .sending p) :
      Moved s (.send c false) (s.put c { s.output c with reader := .cancelling })
  | cancelAfter {c : Channel} (hr : (s.output c).reader = .cancelling) :
      Moved s (.cancelAfter c)
        { s.put c { s.output c with reader := .reading } with ctx := some (s.ctx.getD .canceled) }
  | closeMaster (hpty : s.pty) :
      Moved s .closeMaster { s.put .pty { s.output .pty with unread := [] } with masterClosed := true }
  | finalize {code : ℤ} (hmay : s.mayFinalize) :
      Moved s .finalize { s with result := some (s.resultFrameOf code, s.ctx) }

theorem send_moved {s : ExecSession} {c : Channel} {p : Bytes} (hr : (s.output c).reader = .sending p) (sent : Bool) :
    Moved s (.send c sent) (s.send c p sent) := by
  unfold send
  simp only
  split_ifs with hctx hsent
  · exact .dropped sent hr hctx
  · subst hsent
    exact .sent hr
  · rw [Bool.not_eq_true] at hsent
    subst hsent
    exact .failed hr

theorem next_moved {s t : ExecSession} {a : ExecAct} (h : s.next a = some t) : Moved s a t := by
  cases a with
  | write c p =>
    simp only [next, Option.ite_none_right_eq_some, Option.some.injEq] at h
    obtain ⟨⟨hc, hup, hmaster⟩, rfl⟩ := h
    exact .write p hc hup hmaster
  | hangUp c =>
    simp only [next, Option.ite_none_right_eq_some, Option.some.injEq] at h
    obtain ⟨hc, rfl⟩ := h
    exact .hangUp hc
  | exit code =>
    simp only [next, Option.ite_none_right_eq_some, Option.some.injEq] at h
    obtain ⟨_, rfl⟩ := h
    exact .exit code
  | expire =>
    cases h
    exact .expire
  | cancel =>
    cases h
    exact .cancel
  | read c n =>
    simp only [next, Option.ite_none_right_eq_some, Option.some.injEq] at h
    obtain ⟨⟨hc, hr, _⟩, rfl⟩ := h
    exact .read hc hr
  | eof c =>
    simp only [next, Option.ite_none_right_eq_some, Option.some.injEq] at h
    obtain ⟨⟨hc, hr, hempty, hup⟩, rfl⟩ := h
    exact .eof hc hr hempty hup
  | take c =>
    simp only [next] at h
    split at h
    next p hr =>
      cases h
      exact .take hr
    · cases h
  | send c sent =>
    simp only [next] at h
    split at h
    next p hr =>
      cases h
      exact send_moved hr sent
    · cases h
  | cancelAfter c =>
    simp only [next, Option.ite_none_right_eq_some, Option.some.injEq] at h
    obtain ⟨hr, rfl⟩ := h
    exact .cancelAfter hr
  | closeMaster =>
    simp only [next, Option.ite_none_right_eq_some, Option.some.injEq] at h
    obtain ⟨⟨hpty, _⟩, rfl⟩ := h
    exact .closeMaster hpty
  | finalize =>
    simp only [next] at h
    split at h
    · simp only [Option.ite_none_right_eq_some, Option.some.injEq] at h
      obtain ⟨hmay, rfl⟩ := h
      exact .finalize hmay
    · cases h

theorem Budgeted.moved {bound : ℤ} {s t : ExecSession} {a : ExecAct} (h : Budgeted bound s) (hst : Moved s a t) :
    Budgeted bound t := by
  cases hst with
  | write p hc hup hmaster => exact h.put le_rfl
  | hangUp hc => exact h.put le_rfl
  | exit code => exact ⟨h.frames, h.remaining, h.total, h.result⟩
  | expire => exact ⟨h.frames, h.remaining, h.total, h.result⟩
  | cancel => exact ⟨h.frames, h.remaining, h.total, h.result⟩
  | read hc hr => exact h.put (Nat.zero_le _)
  | eof hc hr hempty hup => exact h.put (Nat.zero_le _)
  | @take c p hr =>
    obtain ⟨hremaining, htake⟩ := take_budget s.budget p h.remaining
    have hp := pending_put s c { s.output c with
      reader := if (s.budget.take p).1 = [] then Reader.reading else .sending (s.budget.take p).1 }
    have htaken : Reader.taken (if (s.budget.take p).1 = [] then Reader.reading else .sending (s.budget.take p).1) =
        (s.budget.take p).1.length := by
      split_ifs with hnil
      · simp [Reader.taken, hnil]
      · rfl
    rw [hr, htaken] at hp
    have ht := h.total
    refine ⟨h.frames, hremaining, ?_, h.result⟩
    show (dataLength s.frames : ℤ) + (s.put c _).pending + (s.budget.take p).2.remaining ≤ bound
    simp only [Reader.taken] at hp ⊢
    omega
  | dropped sent hr hctx => exact h.put (Nat.zero_le _)
  | @sent c p hr =>
    have hp := pending_put s c { s.output c with reader := .reading }
    have ht := h.total
    have hlength : dataLength [outputFrameOf c p] = p.length := by
      simp [dataLength, outputFrameOf]
    rw [hr] at hp
    refine ⟨fun f hf => ?_, h.remaining, ?_, h.result⟩
    · rcases List.mem_append.mp hf with hf | hf
      · exact h.frames f hf
      · exact ⟨c, p, List.mem_singleton.mp hf⟩
    · show (dataLength (s.frames ++ [outputFrameOf c p]) : ℤ) + (s.put c _).pending + s.budget.remaining ≤ bound
      rw [dataLength_append, hlength]
      simp only [Reader.taken] at hp ⊢
      omega
  | failed hr => exact h.put (Nat.zero_le _)
  | @cancelAfter c hr =>
    have := h.put (c := c) (o := { s.output c with reader := .reading }) (Nat.zero_le _)
    exact ⟨this.frames, this.remaining, this.total, h.result⟩
  | closeMaster hpty =>
    have := h.put (c := .pty) (o := { s.output .pty with unread := [] }) le_rfl
    exact ⟨this.frames, this.remaining, this.total, h.result⟩
  | finalize hmay =>
    refine ⟨h.frames, h.remaining, h.total, fun r hr => ?_⟩
    cases hr
    exact ⟨rfl, _, rfl⟩

theorem start_budgeted (pty : Bool) (maxOutput : ℤ) :
    Budgeted (execMaxOutput maxOutput) (start pty (execMaxOutput maxOutput)) := by
  obtain ⟨hzero, hle⟩ := newOutputBudget_remaining maxOutput
  refine ⟨by simp [start], hzero, ?_, fun r hr => by cases hr⟩
  simp only [start, pending, Reader.taken, dataLength, List.map_nil, List.sum_nil]
  omega

/-! ### What was written is delivered -/

/-- Nothing has been left out so far. -/
structure Whole (s : ExecSession) : Prop where
  untruncated : s.budget.truncated = false
  live : s.ctx = none
  unfailed : ∀ c, (s.output c).reader ≠ .cancelling

end ExecSession

/-- What a reader has read and not sent. -/
def Reader.held : Reader → Bytes
  | .holding p => p
  | .sending p => p
  | _ => []

namespace ExecSession

/-- Written bytes are in frames, with a reader, or unread, as long as nothing has been left out; a reader comes to its end
when there is no more, and the result is made after that. -/
structure Kept (s : ExecSession) : Prop where
  idle : ∀ c, c ∉ s.channels → s.output c = ⟨[], [], false, .reading⟩
  ended : ∀ c, (s.output c).reader = .done →
    (s.output c).unread = [] ∧ ((s.output c).hungUp ∨ s.pty ∧ s.masterClosed)
  bytes : s.Whole → ∀ c,
    delivered s.frames c ++ (s.output c).reader.held ++ (s.output c).unread = (s.output c).written
  result : ∀ f ctx, s.result = some (f, ctx) →
    (∀ c ∈ s.channels, (s.output c).reader = .done) ∧
      (∃ code, f = { s with ctx := ctx }.resultFrameOf code) ∧
      (s.budget.truncated = false → ctx = none → ∀ c, delivered s.frames c = (s.output c).written)

theorem start_kept (pty : Bool) (maxOutput : ℤ) : Kept (start pty maxOutput) where
  idle c _ := rfl
  ended c h := by cases h
  bytes _ c := rfl
  result f ctx h := by cases h

variable {s t : ExecSession} {c : Channel}

theorem Kept.channel (h : Kept s) (hr : (s.output c).reader ≠ .reading) : c ∈ s.channels := by
  by_contra hc
  exact hr (by rw [h.idle c hc])

theorem Kept.delivered_idle (h : Kept s) (hw : s.Whole) (hc : c ∉ s.channels) : delivered s.frames c = [] := by
  have := h.bytes hw c
  rw [h.idle c hc] at this
  simpa [Reader.held] using this

/-- A step of one output that is not at its end. -/
theorem Kept.put (h : Kept s) {o : Output} (hc : c ∈ s.channels) (hnot : (s.output c).reader ≠ .done)
    (hout : t.output = Function.update s.output c o) (hpty : t.pty = s.pty) (hmaster : t.masterClosed = s.masterClosed)
    (hresult : t.result = s.result) (hended : o.reader = .done → o.unread = [] ∧ (o.hungUp ∨ s.pty ∧ s.masterClosed))
    (hbytes : t.Whole → s.Whole ∧ (∀ c' ≠ c, delivered t.frames c' = delivered s.frames c') ∧
      (delivered s.frames c ++ (s.output c).reader.held ++ (s.output c).unread = (s.output c).written →
        delivered t.frames c ++ o.reader.held ++ o.unread = o.written)) : Kept t := by
  have hself : t.output c = o := by
    rw [hout, Function.update_self]
  have hother : ∀ c', c' ≠ c → t.output c' = s.output c' := fun c' hne => by
    rw [hout, Function.update_of_ne hne]
  have hchannels : t.channels = s.channels := by
    unfold channels
    rw [hpty]
  refine ⟨fun c' hc' => ?_, fun c' hd => ?_, fun hw c' => ?_, fun f ctx hf => ?_⟩
  · rw [hchannels] at hc'
    rw [hother c' (fun heq => hc' (heq ▸ hc))]
    exact h.idle c' hc'
  · rw [hpty, hmaster]
    by_cases heq : c' = c
    · subst heq
      rw [hself] at hd ⊢
      exact hended hd
    · rw [hother c' heq] at hd ⊢
      exact h.ended c' hd
  · obtain ⟨hsw, hframes, hstep⟩ := hbytes hw
    by_cases heq : c' = c
    · subst heq
      rw [hself]
      exact hstep (h.bytes hsw c')
    · rw [hother c' heq, hframes c' heq]
      exact h.bytes hsw c'
  · -- the readers of a session that has its result are all at their ends
    rw [hresult] at hf
    exact absurd ((h.result f ctx hf).1 c hc) hnot

/-- A step that changes no output. -/
theorem Kept.congr (h : Kept s) (hout : t.output = s.output) (hpty : t.pty = s.pty)
    (hmaster : s.masterClosed → t.masterClosed) (hresult : t.result = s.result) (hbudget : t.budget = s.budget)
    (hframes : t.frames = s.frames) (hctx : t.ctx = none → s.ctx = none) : Kept t := by
  have hchannels : t.channels = s.channels := by
    unfold channels
    rw [hpty]
  refine ⟨fun c hc => ?_, fun c hd => ?_, fun hw c => ?_, fun f ctx hf => ?_⟩
  · rw [hout]
    exact h.idle c (hchannels ▸ hc)
  · rw [hout] at hd ⊢
    rw [hpty]
    exact (h.ended c hd).imp_right (Or.imp_right (And.imp_right hmaster))
  · rw [hout, hframes]
    exact h.bytes ⟨hbudget ▸ hw.untruncated, hctx hw.live, fun c => hout ▸ hw.unfailed c⟩ c
  · rw [hresult] at hf
    obtain ⟨hdone, ⟨code, hcode⟩, hall⟩ := h.result f ctx hf
    rw [hchannels, hout, hframes, hbudget]
    refine ⟨hdone, ⟨code, ?_⟩, hall⟩
    rw [hcode]
    simp only [resultFrameOf]

/-- Nothing had been left out before a step that put an output whose reader was not cancelling. -/
theorem Whole.of_update {o : Output} (hw : t.Whole) (hout : t.output = Function.update s.output c o)
    (hr : (s.output c).reader ≠ .cancelling) (hbudget : t.budget.truncated = false → s.budget.truncated = false)
    (hctx : t.ctx = none → s.ctx = none) :
    s.Whole := by
  refine ⟨hbudget hw.untruncated, hctx hw.live, fun c' => ?_⟩
  by_cases heq : c' = c
  · exact heq ▸ hr
  · have := hw.unfailed c'
    rwa [hout, Function.update_of_ne heq] at this

/-- The terminal is closed when its reader has read all of it. -/
def ClosesDrained (s : ExecSession) (a : ExecAct) : Prop :=
  a = .closeMaster → s.pty → (s.output .pty).unread = []

instance (s : ExecSession) (a : ExecAct) : Decidable (s.ClosesDrained a) :=
  inferInstanceAs (Decidable (_ → _ → _))

/-- Hanging up only changes whether more may be written. -/
theorem Kept.hangUp (h : Kept s) (hc : c ∈ s.channels) : Kept (s.put c { s.output c with hungUp := true }) := by
  have hsame : ∀ c', ∃ up : Bool, (s.put c { s.output c with hungUp := true }).output c' = { s.output c' with hungUp := up } ∧
      ((s.output c').hungUp → up) := by
    intro c'
    by_cases heq : c' = c
    · subst heq
      exact ⟨true, put_self s c' _, fun _ => rfl⟩
    · exact ⟨(s.output c').hungUp, put_other s _ heq, id⟩
  refine ⟨fun c' hc' => ?_, fun c' hd => ?_, fun hw c' => ?_, fun f ctx hf => ?_⟩
  · have hne : c' ≠ c := fun heq => hc' (heq ▸ hc)
    rw [put_other s _ hne]
    exact h.idle c' hc'
  · obtain ⟨up, hout, hup⟩ := hsame c'
    rw [hout] at hd ⊢
    obtain ⟨hempty, hend⟩ := h.ended c' hd
    exact ⟨hempty, hend.imp_left hup⟩
  · have hsw : s.Whole := by
      refine ⟨hw.untruncated, hw.live, fun c' => ?_⟩
      obtain ⟨up, hout, _⟩ := hsame c'
      have hunfailed := hw.unfailed c'
      rwa [hout] at hunfailed
    obtain ⟨up, hout, _⟩ := hsame c'
    rw [hout]
    exact h.bytes hsw c'
  · obtain ⟨hdone, hframe, hall⟩ := h.result f ctx hf
    refine ⟨fun c' hc' => ?_, hframe, fun htr hctx c' => ?_⟩
    · obtain ⟨up, hout, _⟩ := hsame c'
      rw [hout]
      exact hdone c' hc'
    · obtain ⟨up, hout, _⟩ := hsame c'
      rw [hout]
      exact hall htr hctx c'

/-- Once every reader is at its end, what was written is in the frames. -/
theorem Kept.all_delivered (h : Kept s) (hdone : ∀ c ∈ s.channels, (s.output c).reader = .done)
    (htr : s.budget.truncated = false) (hlive : s.ctx = none) (c : Channel) :
    delivered s.frames c = (s.output c).written := by
  have hw : s.Whole := by
    refine ⟨htr, hlive, fun c => ?_⟩
    by_cases hc : c ∈ s.channels
    · simp [hdone c hc]
    · simp [h.idle c hc]
  by_cases hc : c ∈ s.channels
  · have hbytes := h.bytes hw c
    rw [(h.ended c (hdone c hc)).1, hdone c hc] at hbytes
    simpa [Reader.held] using hbytes
  · rw [h.delivered_idle hw hc, h.idle c hc]

theorem Kept.moved {a : ExecAct} (h : Kept s) (hst : Moved s a t) (hdrained : ClosesDrained s a) : Kept t := by
  cases hst with
  | @write c p hc hup hmaster =>
    have hnot : (s.output c).reader ≠ .done := fun hd => (h.ended c hd).2.elim hup hmaster
    refine h.put hc hnot rfl rfl rfl rfl (fun hd => absurd hd hnot) (fun hw => ?_)
    by_cases hr : (s.output c).reader = .cancelling
    · exact absurd (by rw [put_self]; exact hr) (hw.unfailed c)
    · refine ⟨hw.of_update rfl hr id id, fun _ _ => rfl, fun heq => ?_⟩
      show delivered s.frames c ++ (s.output c).reader.held ++ ((s.output c).unread ++ p) = (s.output c).written ++ p
      rw [← heq, List.append_assoc _ _ p]
  | hangUp hc => exact h.hangUp hc
  | exit code => exact h.congr rfl rfl id rfl rfl rfl id
  | expire => exact h.congr rfl rfl id rfl rfl rfl (fun hnone => absurd hnone (Option.some_ne_none _))
  | cancel => exact h.congr rfl rfl id rfl rfl rfl (fun hnone => absurd hnone (Option.some_ne_none _))
  | @read c n hc hr =>
    refine h.put hc (by simp [hr]) rfl rfl rfl rfl (fun hd => by cases hd) (fun hw => ?_)
    refine ⟨hw.of_update rfl (by simp [hr]) id id, fun _ _ => rfl, fun heq => ?_⟩
    show delivered s.frames c ++ (s.output c).unread.take n ++ (s.output c).unread.drop n = (s.output c).written
    rw [List.append_assoc, List.take_append_drop, ← heq, hr]
    simp [Reader.held]
  | @eof c hc hr hempty hup =>
    refine h.put hc (by simp [hr]) rfl rfl rfl rfl (fun _ => ⟨hempty, hup⟩) (fun hw => ?_)
    refine ⟨hw.of_update rfl (by simp [hr]) id id, fun _ _ => rfl, fun heq => ?_⟩
    rw [← heq, hr]
    rfl
  | @take c p hr =>
    refine h.put (h.channel (by simp [hr])) (by simp [hr]) rfl rfl rfl rfl (fun hd => ?_) (fun hw => ?_)
    · simp only at hd
      split_ifs at hd
    · obtain ⟨htr, htaken⟩ := take_whole hw.untruncated
      refine ⟨hw.of_update rfl (by simp [hr]) (fun _ => htr) id, fun _ _ => rfl, fun heq => ?_⟩
      have hheld : Reader.held (if (s.budget.take p).1 = [] then Reader.reading else .sending (s.budget.take p).1) = p := by
        rw [htaken]
        split_ifs with hnil
        · exact hnil.symm
        · rfl
      rw [← heq, hr]
      simp only [hheld]
      rfl
  | @dropped c p sent hr hctx =>
    exact h.put (h.channel (by simp [hr])) (by simp [hr]) rfl rfl rfl rfl (fun hd => by cases hd)
      (fun hw => absurd hw.live hctx)
  | @sent c p hr =>
    refine h.put (h.channel (by simp [hr])) (by simp [hr]) rfl rfl rfl rfl (fun hd => by cases hd) (fun hw => ?_)
    refine ⟨hw.of_update rfl (by simp [hr]) id id, fun c' hne => ?_, fun heq => ?_⟩
    · rw [delivered_append, delivered_other hne, List.append_nil]
    · rw [← heq, hr, delivered_append, delivered_self]
      simp [Reader.held]
  | @failed c p hr =>
    refine h.put (h.channel (by simp [hr])) (by simp [hr]) rfl rfl rfl rfl (fun hd => by cases hd) (fun hw => ?_)
    exact absurd (by rw [put_self]) (hw.unfailed c)
  | @cancelAfter c hr =>
    refine h.put (h.channel (by simp [hr])) (by simp [hr]) rfl rfl rfl rfl (fun hd => by cases hd) (fun hw => ?_)
    exact absurd hw.live (Option.some_ne_none _)
  | closeMaster hpty =>
    refine h.congr ?_ rfl (fun _ => rfl) rfl rfl rfl id
    have hsame : ({ s.output .pty with unread := [] } : Output) = s.output .pty := by
      rw [← hdrained rfl hpty]
    show Function.update s.output .pty { s.output .pty with unread := [] } = s.output
    rw [hsame, Function.update_eq_self]
  | @finalize code hmay =>
    have hdone : ∀ c ∈ s.channels, (s.output c).reader = .done := by
      simp only [mayFinalize, Bool.and_eq_true, List.all_eq_true, decide_eq_true_eq] at hmay
      exact hmay.2
    refine ⟨h.idle, h.ended, fun hw => h.bytes ⟨hw.untruncated, hw.live, hw.unfailed⟩, fun f ctx hf => ?_⟩
    rw [Option.some.injEq, Prod.mk.injEq] at hf
    obtain ⟨rfl, rfl⟩ := hf
    exact ⟨hdone, ⟨code, rfl⟩, h.all_delivered hdone⟩

end ExecSession

/-! ### What the host returns -/

/-- One step of a session. -/
def execStep (s : ExecSession) (a : ExecAct) (t : ExecSession) : Prop := s.next a = some t

variable {s : ExecSession}

theorem next_pty {t : ExecSession} {a : ExecAct} (h : execStep s a t) : t.pty = s.pty := by
  cases ExecSession.next_moved h <;> rfl

theorem run_budgeted {pty : Bool} (h : Run execStep (.start pty (execMaxOutput maxOutput)) acts s) :
    s.Budgeted (execMaxOutput maxOutput) :=
  h.invariant (fun _ _ _ hs hst => hs.moved (ExecSession.next_moved hst)) (ExecSession.start_budgeted pty maxOutput)

theorem run_kept {pty : Bool} (h : RunIn execStep (fun s a _ => s.ClosesDrained a) (.start pty maxOutput) acts s) :
    s.Kept :=
  h.invariant (fun _ _ _ hs hst hg => hs.moved (ExecSession.next_moved hst) hg) (ExecSession.start_kept pty maxOutput)

/-- A session with pipes has no terminal to close. -/
theorem piped_drained {t : ExecSession} (h : Run execStep s acts t) (hpty : s.pty = false) :
    RunIn execStep (fun s a _ => s.ClosesDrained a) s acts t := by
  induction h with
  | nil s => exact .nil s
  | cons hst _ ih =>
    refine .cons hst (fun _ hp => ?_) (ih (by rw [next_pty hst, hpty]))
    rw [hpty] at hp
    cases hp

/-- What `Exec` makes of a beginning of what the session sent: the connection has ended before the result, or all
frames have been read. -/
theorem exec_prefix {l : List ProtocolFrame} (hbudget : s.Budgeted (execMaxOutput maxOutput)) (hl : l <+: s.sent) :
    exec maxOutput l = .error .connection ∨
      ∃ f ctx r, s.result = some (f, ctx) ∧ exec maxOutput l = execLoop (execMaxOutput maxOutput) [f] r
        (dataLength s.frames) ∧ ∀ c, r.output c = delivered s.frames c := by
  have hlength : (dataLength s.frames : ℤ) ≤ execMaxOutput maxOutput := by
    have := hbudget.total
    have := hbudget.remaining
    omega
  have hcut : ∀ l', l' <+: s.frames → exec maxOutput l' = .error .connection := by
    intro l' hl'
    have hle := dataLength_le_of_prefix hl'
    obtain ⟨r', hloop, _⟩ := @execLoop_frames (execMaxOutput maxOutput) l' (fun f hf => hbudget.frames f (hl'.subset hf))
      [] ⟨[], [], [], 0, false, false⟩ 0 (by omega)
    rw [List.append_nil] at hloop
    exact hloop
  cases hres : s.result with
  | none =>
    simp only [ExecSession.sent, hres, Option.map_none, Option.toList_none, List.append_nil] at hl
    exact .inl (hcut l hl)
  | some fr =>
    obtain ⟨f, ctx⟩ := fr
    simp only [ExecSession.sent, hres, Option.map_some, Option.toList_some] at hl
    rcases List.prefix_concat_iff.mp hl with rfl | hl
    · obtain ⟨r', hloop, hout⟩ := @execLoop_frames (execMaxOutput maxOutput) s.frames hbudget.frames [f]
        ⟨[], [], [], 0, false, false⟩ 0 (by omega)
      rw [zero_add] at hloop
      refine .inr ⟨f, ctx, r', rfl, hloop, fun c => ?_⟩
      rw [hout c]
      cases c <;> rfl
    · exact .inl (hcut l hl)

/-- The session was cancelled before its result was made. -/
def ExecSession.cancelled (s : ExecSession) : Bool := s.result.any fun r => decide (r.2 = some .canceled)

/-- The command writes to its terminal and exits; the terminal is closed before the reader has come to it. -/
def lostTail : List ExecAct :=
  [.write .pty (asciiBytes "done"), .hangUp .pty, .exit 0, .closeMaster, .eof .pty, .finalize]

/-- The same, when the reader is first. -/
def readTail : List ExecAct :=
  [.write .pty (asciiBytes "done"), .hangUp .pty, .exit 0, .read .pty 4, .closeMaster, .take .pty, .send .pty true,
    .eof .pty, .finalize]

end Nehemiah.Guest
