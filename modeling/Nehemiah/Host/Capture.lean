import Nehemiah.Lib.Run

/-!
# Commands on the serial console

A command is typed into the console and its output is read from a subscription until a text appears: for `execCapture`
the sentinel with the exit code, for `runGuestCommand` the prompt.  Between two steps of the capture the console may
deliver chunks, or close, and the deadline may pass.

`capture_answers` is that a capture ends and what `execCapture` answers, and `drain_spins` two runs in which it does not
end, or answers another code.  What `runGuestCommand` makes of its output, and the lock of the console, are outside the
model.
-/

namespace Nehemiah.Capture

open Nehemiah.Lib

abbrev Bytes := List UInt8

/-! ### Control sequences -/

def csiParam (b : UInt8) : Bool := (48 ≤ b && b ≤ 57) || b == 59 || b == 63

def letter (b : UInt8) : Bool := (65 ≤ b && b ≤ 90) || (97 ≤ b && b ≤ 122)

def digit (b : UInt8) : Bool := 48 ≤ b && b ≤ 57

/-- The length of what follows an escape byte and belongs to its sequence; zero when there is no sequence. -/
def skipLen : Bytes → ℕ
  | [] => 0
  | b :: s =>
    if b = 91 then
      match s.drop (s.takeWhile csiParam).length with
      | c :: _ => if letter c then (s.takeWhile csiParam).length + 2 else 0
      | [] => 0
    else if b = 93 then
      if (s.takeWhile (· != 7)).length < s.length then (s.takeWhile (· != 7)).length + 2 else 0
    else 0

/-- More bytes may still make a sequence of it. -/
def unfinished : Bytes → Bool
  | [] => true
  | b :: s =>
    if b = 91 then (s.takeWhile csiParam).length == s.length
    else if b = 93 then (s.takeWhile (· != 7)).length == s.length
    else false

/-- `n` bytes are still to be dropped. -/
def stripFrom : ℕ → Bytes → Bytes
  | _, [] => []
  | n + 1, _ :: s => stripFrom n s
  | 0, b :: s =>
    if b = 13 then stripFrom 0 s
    else if b = 27 then if skipLen s = 0 then b :: stripFrom 0 s else stripFrom (skipLen s) s
    else b :: stripFrom 0 s

def stripANSI (s : Bytes) : Bytes := stripFrom 0 s

/-- What has been stripped up to the first sequence that more bytes could finish. -/
def settledFrom : ℕ → Bytes → Bytes
  | _, [] => []
  | n + 1, _ :: s => settledFrom n s
  | 0, b :: s =>
    if b = 13 then settledFrom 0 s
    else if b = 27 then
      if skipLen s = 0 then if unfinished s then [] else b :: settledFrom 0 s else settledFrom (skipLen s) s
    else b :: settledFrom 0 s

def settled (s : Bytes) : Bytes := settledFrom 0 s

theorem skipLen_append {s t : Bytes} (h : skipLen s ≠ 0 ∨ unfinished s = false) : skipLen (s ++ t) = skipLen s := by
  cases s with
  | nil =>
    rcases h with h | h
    · exact absurd rfl h
    · cases h
  | cons b s =>
    simp only [List.cons_append, skipLen, unfinished] at h ⊢
    by_cases hcsi : b = 91
    · simp only [hcsi, if_true] at h ⊢
      have hlt : (s.takeWhile csiParam).length < s.length := by
        have hle := (List.takeWhile_prefix csiParam (l := s)).length_le
        by_contra hnot
        have heq : (s.takeWhile csiParam).length = s.length := by omega
        rw [heq, List.drop_length] at h
        rcases h with h | h
        · exact h rfl
        · simp at h
      rw [List.takeWhile_append, if_neg hlt.ne, List.drop_append_of_le_length hlt.le]
      cases hdrop : s.drop (s.takeWhile csiParam).length with
      | nil =>
        have hlength := congrArg List.length hdrop
        rw [List.length_drop, List.length_nil] at hlength
        omega
      | cons c rest => rfl
    · simp only [if_neg hcsi] at h ⊢
      by_cases hosc : b = 93
      · simp only [hosc, if_true] at h ⊢
        have hlt : (s.takeWhile (· != 7)).length < s.length := by
          have hle := (List.takeWhile_prefix (· != 7) (l := s)).length_le
          by_contra hnot
          have heq : (s.takeWhile (· != 7)).length = s.length := by omega
          rw [if_neg hnot, heq] at h
          rcases h with h | h
          · exact h rfl
          · simp at h
        have hlong : (s.takeWhile (· != 7)).length < (s ++ t).length := by
          rw [List.length_append]
          omega
        rw [List.takeWhile_append, if_neg hlt.ne, if_pos hlt, if_pos hlong]
      · simp only [if_neg hosc]

theorem unfinished_append {s t : Bytes} (hskip : skipLen s = 0) (h : unfinished s = false) :
    unfinished (s ++ t) = false := by
  cases s with
  | nil => cases h
  | cons b s =>
    simp only [List.cons_append, unfinished] at h ⊢
    by_cases hcsi : b = 91
    · simp only [hcsi, if_true] at h ⊢
      have hne : (s.takeWhile csiParam).length ≠ s.length := by simpa using h
      have hle := (List.takeWhile_prefix csiParam (l := s)).length_le
      rw [List.takeWhile_append, if_neg hne, List.length_append]
      have hlong : (s.takeWhile csiParam).length ≠ s.length + t.length := by omega
      simpa using hlong
    · simp only [if_neg hcsi] at h ⊢
      by_cases hosc : b = 93
      · simp only [hosc, if_true] at h ⊢
        have hne : (s.takeWhile (· != 7)).length ≠ s.length := by simpa using h
        have hle := (List.takeWhile_prefix (· != 7) (l := s)).length_le
        rw [List.takeWhile_append, if_neg hne, List.length_append]
        have hlong : (s.takeWhile (· != 7)).length ≠ s.length + t.length := by omega
        simpa using hlong
      · simp only [if_neg hosc]

/-- What is settled stays at the front when more comes, and stays settled. -/
theorem settledFrom_begins (n : ℕ) (s t : Bytes) :
    settledFrom n s <+: stripFrom n (s ++ t) ∧ settledFrom n s <+: settledFrom n (s ++ t) := by
  induction s generalizing n with
  | nil =>
    cases n <;> exact ⟨List.nil_prefix, List.nil_prefix⟩
  | cons b s ih =>
    have hcons := (ih 0).imp (List.prefix_cons_inj b).mpr (List.prefix_cons_inj b).mpr
    cases n with
    | succ n => exact ih n
    | zero =>
      simp only [List.cons_append, settledFrom, stripFrom]
      split
      · exact ih 0
      · split
        · by_cases hskip : skipLen s = 0
          · cases hopen : unfinished s with
            | true =>
              rw [if_pos hskip, if_pos rfl]
              exact ⟨List.nil_prefix, List.nil_prefix⟩
            | false =>
              simp only [skipLen_append (.inr hopen), hskip, unfinished_append hskip hopen, if_true]
              exact hcons
          · simp only [skipLen_append (.inl hskip), hskip, if_false]
            exact ih _
        · exact hcons

theorem settled_strip (s : Bytes) : settled s <+: stripANSI s := by
  have h := (settledFrom_begins 0 s []).1
  rwa [List.append_nil] at h

theorem settled_mono {s t : Bytes} (h : s <+: t) : settled s <+: settled t := by
  obtain ⟨rest, rfl⟩ := h
  exact (settledFrom_begins 0 s rest).2

/-! ### The sentinel -/

/-- The first place of a text. -/
def index (sub : Bytes) : Bytes → Option ℕ
  | [] => if sub = [] then some 0 else none
  | b :: s => if sub.isPrefixOf (b :: s) then some 0 else (index sub s).map (· + 1)

/-- The text `sub` with a digit behind it stands here. -/
def marked (sub s : Bytes) : Bool := sub.isPrefixOf s && (s.drop sub.length).head?.any digit

/-- The first match of the sentinel: what precedes it, its digits, and what follows them. -/
def findExit (sub : Bytes) : Bytes → Option (Bytes × Bytes × Bytes)
  | [] => none
  | b :: s =>
    if marked sub (b :: s) then
      some ([], ((b :: s).drop sub.length).takeWhile digit, ((b :: s).drop sub.length).dropWhile digit)
    else (findExit sub s).map fun m => (b :: m.1, m.2)

section sentinel

variable {sub s t before digits after u : Bytes}

theorem findExit_split (h : findExit sub s = some (before, digits, after)) :
    s = before ++ (sub ++ (digits ++ after)) ∧ digits ≠ [] := by
  induction s generalizing before with
  | nil => cases h
  | cons b s ih =>
    simp only [findExit] at h
    split at h
    · rename_i hmarked
      cases h
      obtain ⟨hsub, hdigit⟩ := Bool.and_eq_true_iff.mp hmarked
      refine ⟨?_, ?_⟩
      · rw [List.takeWhile_append_dropWhile, List.nil_append]
        obtain ⟨rest, hrest⟩ := List.isPrefixOf_iff_prefix.mp hsub
        rw [← hrest, List.drop_left]
      · cases hdrop : (b :: s).drop sub.length with
        | nil =>
          rw [hdrop] at hdigit
          cases hdigit
        | cons c rest =>
          rw [hdrop] at hdigit
          have hc : digit c = true := hdigit
          rw [List.takeWhile_cons, if_pos hc]
          exact List.cons_ne_nil _ _
    · obtain ⟨⟨before', m⟩, hm, heq⟩ := Option.map_eq_some_iff.mp h
      cases heq
      obtain ⟨hsplit, hdigits⟩ := ih hm
      exact ⟨by rw [List.cons_append, ← hsplit], hdigits⟩

theorem marked_append (h : sub.length < s.length) : marked sub (s ++ t) = marked sub s := by
  have hprefix : sub.isPrefixOf (s ++ t) = sub.isPrefixOf s := by
    rw [Bool.eq_iff_iff, List.isPrefixOf_iff_prefix, List.isPrefixOf_iff_prefix]
    exact ⟨fun hsub => List.prefix_of_prefix_length_le hsub (List.prefix_append s t) h.le,
      fun hsub => hsub.trans (List.prefix_append s t)⟩
  have hdrop : s.drop sub.length ≠ [] := by
    rw [Ne, List.drop_eq_nil_iff]
    omega
  rw [marked, marked, hprefix, List.drop_append_of_le_length h.le, List.head?_append_of_ne_nil _ hdrop]

/-- A match that is complete is the first one of every longer text. -/
theorem findExit_append (h : findExit sub s = some (before, digits, after)) (hafter : after ≠ []) :
    findExit sub (s ++ t) = some (before, digits, after ++ t) := by
  induction s generalizing before with
  | nil => cases h
  | cons b s ih =>
    have hlong : sub.length < (b :: s).length := by
      obtain ⟨hsplit, hdigits⟩ := findExit_split h
      have hlength := congrArg List.length hsplit
      have hpos := List.length_pos_of_ne_nil hdigits
      simp only [List.length_append] at hlength
      omega
    have hmarked := marked_append (t := t) hlong
    rw [List.cons_append] at hmarked ⊢
    simp only [findExit, hmarked] at h ⊢
    split at h
    · cases h
      have hsplit : (b :: (s ++ t)).drop sub.length = (b :: s).drop sub.length ++ t := by
        rw [← List.cons_append, List.drop_append_of_le_length hlong.le]
      have hpart : (((b :: s).drop sub.length).takeWhile digit).length ≠ ((b :: s).drop sub.length).length := by
        intro heq
        refine hafter ?_
        have hboth := congrArg List.length
          (List.takeWhile_append_dropWhile (p := digit) (l := (b :: s).drop sub.length))
        rw [List.length_append] at hboth
        exact List.length_eq_zero_iff.mp (by omega)
      rw [if_pos ‹_›, hsplit, List.takeWhile_append, if_neg hpart, List.dropWhile_append, if_neg]
      rw [List.isEmpty_iff]
      exact hafter
    · obtain ⟨⟨before', m⟩, hm, heq⟩ := Option.map_eq_some_iff.mp h
      cases heq
      rw [if_neg ‹_›, ih hm]
      rfl

/-- The first match is the first match of what is left when the text before it is cut. -/
theorem findExit_drop (h : findExit sub (u ++ s) = some (u ++ before, digits, after)) :
    findExit sub s = some (before, digits, after) := by
  induction u with
  | nil => exact h
  | cons b u ih =>
    simp only [List.cons_append, findExit] at h
    split at h
    · cases h
    · obtain ⟨⟨before', m⟩, hm, heq⟩ := Option.map_eq_some_iff.mp h
      cases heq
      exact ih hm

end sentinel

/-! ### The response -/

/-- `marker` and an equals sign. -/
def sentinel (marker : Bytes) : Bytes := marker ++ [61]

/-- The sentinel as it was typed. -/
def echoed (marker : Bytes) : Bytes := marker ++ [61, 36, 63]

def agentPrompt : Bytes := [64, 62, 32]

def execOutputCap : ℕ := 65536

def guestAgentTimeoutExitCode : ℕ := 124

/-- `\n…(truncated)` -/
def truncatedNote : Bytes :=
  [10, 226, 128, 166, 40, 116, 114, 117, 110, 99, 97, 116, 101, 100, 41]

def trim (drop : UInt8 → Bool) (s : Bytes) : Bytes := ((s.dropWhile drop).reverse.dropWhile drop).reverse

def newline (b : UInt8) : Bool := b == 13 || b == 10

def capped (cap : ℕ) (s : Bytes) : Bytes := if cap < s.length then s.take cap ++ truncatedNote else s

def number (digits : Bytes) : ℕ := digits.foldl (fun n b => n * 10 + (b.toNat - 48)) 0

/-- A number that is no 64-bit integer is refused. -/
def atoi (digits : Bytes) : Option ℕ := if number digits < 2 ^ 63 then some (number digits) else none

/-- The text behind the line with the typed command. -/
def dropEcho (marker s : Bytes) : Bytes :=
  match index (echoed marker) s with
  | none => s
  | some i =>
    match index [10] (s.drop i) with
    | some j => s.drop (i + j + 1)
    | none => []

def dropPrompt (s : Bytes) : Bytes :=
  match index agentPrompt s with
  | some i => s.take i
  | none => s

structure ExecResponse where
  output : Bytes
  exitCode : Option ℕ
  timedOut : Bool
deriving DecidableEq

def execFinalize (raw marker : Bytes) (deadlineHit : Bool) : ExecResponse :=
  let s := dropEcho marker (stripANSI raw)
  let resp : ExecResponse := ⟨[], if deadlineHit then some guestAgentTimeoutExitCode else none, deadlineHit⟩
  match findExit (sentinel marker) s with
  | some (before, digits, _) =>
    let resp := match atoi digits with
      | some code => { resp with exitCode := some code, timedOut := false }
      | none => resp
    { resp with output := capped execOutputCap (trim newline (dropPrompt before)) }
  | none => { resp with output := capped execOutputCap (trim newline (dropPrompt s)) }

/-! ### The capture -/

def subCap : ℕ := 512

/-- Why the capture has ended. -/
inductive Ending
  | writeFailed
  | closed
  | matched
  | deadline
deriving DecidableEq

inductive Pc
  | drain
  | write (left : ℕ)
  | capture (buf : Bytes)
  | grace (buf : Bytes)
  | done (buf : Bytes) (ending : Ending)
deriving DecidableEq

/-- `stream` is what the console has produced since the drain ended and until the deadline. -/
structure State where
  pc : Pc
  ch : List Bytes
  closed : Bool
  expired : Bool
  stream : Bytes
deriving DecidableEq

/-- The subscription holds what was buffered before. -/
def initial (buffered : List Bytes) : State := ⟨.drain, buffered, false, false, []⟩

/-- `poll` is the next step of the capture, in which `ok` says whether a write succeeds; `timeout` is that of the select
which takes the deadline. -/
inductive Action
  | chunk (bytes : Bytes)
  | close
  | expire
  | poll (ok : Bool)
  | timeout

def Pc.listening : Pc → Bool
  | .drain => false
  | .done _ _ => false
  | _ => true

def Pc.draining : Pc → Bool
  | .drain => true
  | _ => false

/-- The command takes `pieces + 1` writes, and `stop` says of what has been read that the capture may end. -/
def poll (stop : Bytes → Bool) (pieces : ℕ) (ok : Bool) (s : State) : Option State :=
  match s.pc with
  | .drain =>
    match s.ch with
    | _ :: rest => some { s with ch := rest }
    | [] => if s.closed then some s else some { s with pc := .write pieces }
  | .write left =>
    if ok then
      match left with
      | left + 1 => some { s with pc := .write left }
      | 0 => some { s with pc := .capture [] }
    else some { s with pc := .done [] .writeFailed }
  | .capture buf =>
    match s.ch with
    | c :: rest =>
      if stop (buf ++ c) then some { s with pc := .grace (buf ++ c), ch := rest }
      else some { s with pc := .capture (buf ++ c), ch := rest }
    | [] => if s.closed then some { s with pc := .done buf .closed } else none
  | .grace buf =>
    match s.ch with
    | c :: rest => some { s with pc := .grace (buf ++ c), ch := rest }
    | [] => some { s with pc := .done buf .matched }
  | .done _ _ => none

def step (stop : Bytes → Bool) (pieces : ℕ) (s : State) : Action → Option State
  | .chunk c =>
    if s.closed then none
    else
      some { s with
        ch := if s.ch.length < subCap then s.ch ++ [c] else s.ch
        stream := if s.pc.draining ∨ s.expired then s.stream else s.stream ++ c }
  | .close => some { s with closed := true }
  | .expire =>
    match s.pc with
    | .drain => none
    | .write _ => none
    | _ => some { s with expired := true }
  | .poll ok => poll stop pieces ok s
  | .timeout =>
    match s.pc with
    | .capture buf => if s.expired then some { s with pc := .done buf .deadline } else none
    | _ => none

def execStop (marker buf : Bytes) : Bool := (findExit (sentinel marker) (stripANSI buf)).isSome

def promptStop (buf : Bytes) : Bool := (index agentPrompt (stripANSI buf)).isSome

/-- What `execCapture` returns. -/
def execCapture (marker buf : Bytes) : Ending → ExecResponse
  | .writeFailed => ⟨[], none, true⟩
  | .deadline => execFinalize buf marker true
  | _ => execFinalize buf marker false

/-! ### What a capture promises -/

/-- The steps that the capture takes by itself. -/
def Action.own : Action → Bool
  | .poll _ => true
  | .timeout => true
  | _ => false

/-- How many steps the capture can take by itself. -/
def rank (pieces : ℕ) (s : State) : ℕ :=
  match s.pc with
  | .drain => s.ch.length + pieces + 4
  | .write left => s.ch.length + left + 3
  | .capture _ => s.ch.length + 2
  | .grace _ => s.ch.length + 1
  | .done _ _ => 0

/-- By itself the capture takes no more steps than its rank, and with the deadline past it can always go on until it
has returned. -/
def Ends (stop : Bytes → Bool) (pieces : ℕ) (s : State) : Prop :=
  (∀ actions t, (∀ a ∈ actions, Action.own a = true) → Run (fun s a t => step stop pieces s a = some t) s actions t →
    actions.length ≤ rank pieces s) ∧
  ((∃ buf ending, s.pc = .done buf ending) ∨ (∃ buf, s.pc = .capture buf ∧ s.expired = false) ∨
    ∃ a t, Action.own a = true ∧ step stop pieces s a = some t)

/-- The executed sentinel of a stream with a byte behind its digits: its exit code, and the output before it. -/
def executed (marker stream : Bytes) : Option (ℕ × Bytes) :=
  match findExit (sentinel marker) (settled stream) with
  | some (before, digits, _ :: _) =>
    (atoi digits).map fun code => (code, capped execOutputCap (trim newline (dropEcho marker before)))
  | _ => none

/-- A capture of a command that was typed gives the exit code and the output of the sentinel that came in time. -/
def Answered (marker : Bytes) (s : State) : Prop :=
  ∀ buf ending, s.pc = .done buf ending → ending ≠ .writeFailed → ∀ code output,
    executed marker s.stream = some (code, output) → execCapture marker buf ending = ⟨output, some code, false⟩

/-- The sentinel has been read with a byte behind its digits, the typed line ends before it, and the output has no
prompt. -/
def Complete (marker buf : Bytes) : Prop :=
  ∃ before digits b after, findExit (sentinel marker) (settled buf) = some (before, digits, b :: after) ∧
    dropEcho marker (stripANSI buf) = dropEcho marker before ++ (stripANSI buf).drop before.length ∧
    index agentPrompt (dropEcho marker before) = none

/-- The steps of a capture that is not cut short: the console does not close while the capture drains, no chunk is
dropped, the grace ends after a whole sentinel, and the deadline is taken without one. -/
def Careful (marker : Bytes) (s : State) : Action → Prop
  | .close => s.pc.draining = false
  | .chunk _ => s.pc.listening = true → s.ch.length < subCap
  | .poll _ => ∀ buf, s.pc = .grace buf → s.ch = [] → Complete marker buf
  | .timeout => executed marker s.stream = none
  | .expire => True

/-! ### The capture ends -/

section ends

variable {stop : Bytes → Bool} {pieces : ℕ} {s t : State} {a : Action}

/-- The console is open while the capture drains. -/
def State.openWhileDraining (s : State) : Prop := s.pc.draining = true → s.closed = false

theorem own_step (hopen : s.openWhileDraining) (hown : a.own = true) (hstep : step stop pieces s a = some t) :
    rank pieces t < rank pieces s ∧ t.openWhileDraining := by
  obtain ⟨pc, ch, closed, expired, stream⟩ := s
  cases a with
  | chunk c => cases hown
  | close => cases hown
  | expire => cases hown
  | timeout =>
    cases pc <;> simp only [step] at hstep <;> try cases hstep
    split at hstep
    · cases hstep
      exact ⟨Nat.succ_pos _, fun h => by cases h⟩
    · cases hstep
  | poll ok =>
    cases pc with
    | drain =>
      have hclosed : closed = false := hopen rfl
      cases ch with
      | nil =>
        simp only [step, poll, hclosed, Bool.false_eq_true, if_false] at hstep
        cases hstep
        exact ⟨by simp only [rank]; omega, fun h => by cases h⟩
      | cons c rest =>
        simp only [step, poll] at hstep
        cases hstep
        exact ⟨by simp only [rank, List.length_cons]; omega, hopen⟩
    | write left =>
      cases ok with
      | false =>
        cases hstep
        exact ⟨Nat.succ_pos _, fun h => by cases h⟩
      | true =>
        cases left <;> cases hstep <;> exact ⟨by simp only [rank]; omega, fun h => by cases h⟩
    | capture buf =>
      cases ch with
      | nil =>
        simp only [step, poll] at hstep
        split at hstep
        · cases hstep
          exact ⟨Nat.succ_pos _, fun h => by cases h⟩
        · cases hstep
      | cons c rest =>
        simp only [step, poll] at hstep
        split at hstep <;> cases hstep <;>
          exact ⟨by simp only [rank, List.length_cons]; omega, fun h => by cases h⟩
    | grace buf =>
      cases ch with
      | nil =>
        cases hstep
        exact ⟨Nat.succ_pos _, fun h => by cases h⟩
      | cons c rest =>
        cases hstep
        exact ⟨by simp only [rank, List.length_cons]; omega, fun h => by cases h⟩
    | done buf ending => cases hstep

theorem own_run (hopen : s.openWhileDraining) {actions : List Action} (hown : ∀ a ∈ actions, Action.own a = true)
    (hrun : Run (fun s a t => step stop pieces s a = some t) s actions t) : actions.length ≤ rank pieces s := by
  induction hrun with
  | nil s => exact Nat.zero_le _
  | cons hstep _ ih =>
    obtain ⟨hlt, hopen'⟩ := own_step hopen (hown _ List.mem_cons_self) hstep
    have hrest := ih hopen' fun a ha => hown a (List.mem_cons_of_mem _ ha)
    rw [List.length_cons]
    omega

/-- **The capture ends.**  While it drains an open console. -/
theorem ends_of_open (hopen : s.openWhileDraining) : Ends stop pieces s := by
  refine ⟨fun actions t hown hrun => own_run hopen hown hrun, ?_⟩
  obtain ⟨pc, ch, closed, expired, stream⟩ := s
  cases pc with
  | drain =>
    have hclosed : closed = false := hopen rfl
    cases ch with
    | nil =>
      refine .inr (.inr ⟨.poll true, ⟨.write pieces, [], closed, expired, stream⟩, rfl, ?_⟩)
      simp only [step, poll, hclosed, Bool.false_eq_true, if_false]
    | cons c rest => exact .inr (.inr ⟨.poll true, ⟨.drain, rest, closed, expired, stream⟩, rfl, rfl⟩)
  | write left =>
    cases left with
    | zero => exact .inr (.inr ⟨.poll true, ⟨.capture [], ch, closed, expired, stream⟩, rfl, rfl⟩)
    | succ left => exact .inr (.inr ⟨.poll true, ⟨.write left, ch, closed, expired, stream⟩, rfl, rfl⟩)
  | capture buf =>
    cases hexpired : expired with
    | false => exact .inr (.inl ⟨buf, rfl, rfl⟩)
    | true => exact .inr (.inr ⟨.timeout, ⟨.done buf .deadline, ch, closed, true, stream⟩, rfl, rfl⟩)
  | grace buf =>
    cases ch with
    | nil => exact .inr (.inr ⟨.poll true, ⟨.done buf .matched, [], closed, expired, stream⟩, rfl, rfl⟩)
    | cons c rest => exact .inr (.inr ⟨.poll true, ⟨.grace (buf ++ c), rest, closed, expired, stream⟩, rfl, rfl⟩)
  | done buf ending => exact .inl ⟨buf, ending, rfl⟩

theorem draining_poll {ok : Bool} (h : poll stop pieces ok s = some t) :
    (t.pc.draining = true → s.pc.draining = true) ∧ t.closed = s.closed := by
  obtain ⟨pc, ch, closed, expired, stream⟩ := s
  cases pc with
  | drain =>
    cases ch with
    | nil =>
      simp only [poll] at h
      split at h <;> cases h <;> exact ⟨fun _ => rfl, rfl⟩
    | cons c rest =>
      cases h
      exact ⟨fun _ => rfl, rfl⟩
  | write left =>
    cases ok with
    | false =>
      cases h
      exact ⟨fun hd => (by cases hd), rfl⟩
    | true => cases left <;> cases h <;> exact ⟨fun hd => (by cases hd), rfl⟩
  | capture buf =>
    cases ch with
    | nil =>
      simp only [poll] at h
      split at h
      · cases h
        exact ⟨fun hd => (by cases hd), rfl⟩
      · cases h
    | cons c rest =>
      simp only [poll] at h
      split at h <;> cases h <;> exact ⟨fun hd => (by cases hd), rfl⟩
  | grace buf => cases ch <;> cases h <;> exact ⟨fun hd => (by cases hd), rfl⟩
  | done buf ending => cases h

/-- The console does not close while the capture drains. -/
def StaysOpen (s : State) : Action → Prop
  | .close => s.pc.draining = false
  | _ => True

theorem open_step (hopen : s.openWhileDraining) (hstep : step stop pieces s a = some t) (hguard : StaysOpen s a) :
    t.openWhileDraining := by
  cases a with
  | chunk c =>
    simp only [step] at hstep
    split at hstep
    · cases hstep
    · cases hstep
      exact hopen
  | close =>
    cases hstep
    intro hdraining
    have hnot : s.pc.draining = false := hguard
    rw [hnot] at hdraining
    cases hdraining
  | expire =>
    simp only [step] at hstep
    split at hstep <;> cases hstep
    exact hopen
  | poll ok =>
    obtain ⟨hdraining, hclosed⟩ := draining_poll hstep
    intro h
    rw [hclosed]
    exact hopen (hdraining h)
  | timeout =>
    simp only [step] at hstep
    split at hstep
    · split at hstep
      · cases hstep
        exact fun h => by cases h
      · cases hstep
    · cases hstep

end ends

/-! ### The sentinel is found -/

section answers

variable {marker buf stream : Bytes} {pieces : ℕ} {s t : State} {a : Action}

theorem dropEcho_suffix (marker s : Bytes) : dropEcho marker s <:+ s := by
  unfold dropEcho
  split
  · exact List.suffix_rfl
  · split
    · exact List.drop_suffix _ _
    · exact List.nil_suffix

theorem findExit_mono {sub x y before digits after : Bytes} {b : UInt8} (hxy : x <+: y)
    (h : findExit sub x = some (before, digits, b :: after)) :
    ∃ rest, findExit sub y = some (before, digits, b :: after ++ rest) := by
  obtain ⟨rest, rfl⟩ := hxy
  exact ⟨rest, findExit_append h (List.cons_ne_nil _ _)⟩

/-- A sentinel that has been read whole is answered with its exit code and the output before it. -/
theorem execFinalize_complete {before digits after : Bytes} {b : UInt8} {code : ℕ}
    (hfound : findExit (sentinel marker) (settled buf) = some (before, digits, b :: after))
    (hecho : dropEcho marker (stripANSI buf) = dropEcho marker before ++ (stripANSI buf).drop before.length)
    (hprompt : index agentPrompt (dropEcho marker before) = none) (hcode : atoi digits = some code) :
    execFinalize buf marker false = ⟨capped execOutputCap (trim newline (dropEcho marker before)), some code, false⟩ := by
  obtain ⟨rest, hwhole⟩ := findExit_mono (settled_strip buf) hfound
  obtain ⟨u, hu⟩ := dropEcho_suffix marker before
  have hsplit : stripANSI buf = u ++ dropEcho marker (stripANSI buf) := by
    rw [hecho, ← List.append_assoc, hu]
    have hparts := (findExit_split hwhole).1
    rw [hparts, List.drop_left]
  have hexit : findExit (sentinel marker) (dropEcho marker (stripANSI buf)) =
      some (dropEcho marker before, digits, b :: after ++ rest) := by
    refine findExit_drop (u := u) ?_
    rw [← hsplit, hu]
    exact hwhole
  have hclean : dropPrompt (dropEcho marker before) = dropEcho marker before := by
    rw [dropPrompt, hprompt]
  simp only [execFinalize, hexit, hcode, hclean]

theorem complete_answered (hcomplete : Complete marker buf) (hsame : buf <+: stream ∨ stream <+: buf) {code : ℕ}
    {output : Bytes} (hexecuted : executed marker stream = some (code, output)) :
    execFinalize buf marker false = ⟨output, some code, false⟩ := by
  obtain ⟨before, digits, b, after, hfound, hecho, hprompt⟩ := hcomplete
  unfold executed at hexecuted
  split at hexecuted
  · rename_i before' digits' b' after' hstream
    obtain ⟨code', hcode, heq⟩ := Option.map_eq_some_iff.mp hexecuted
    cases heq
    have hagree : before' = before ∧ digits' = digits := by
      rcases hsame with hsame | hsame
      · obtain ⟨rest, hlater⟩ := findExit_mono (settled_mono hsame) hfound
        rw [hlater] at hstream
        cases hstream
        exact ⟨rfl, rfl⟩
      · obtain ⟨rest, hlater⟩ := findExit_mono (settled_mono hsame) hstream
        rw [hlater] at hfound
        cases hfound
        exact ⟨rfl, rfl⟩
    rw [hagree.2] at hcode
    rw [hagree.1]
    exact execFinalize_complete hfound hecho hprompt hcode
  · cases hexecuted

/-- Where the capture has not seen a sentinel, the stream that it has read has none. -/
theorem unseen (hstop : execStop marker buf = false) (hread : stream <+: buf) : executed marker stream = none := by
  unfold executed
  split
  · rename_i before digits b after hstream
    obtain ⟨rest, hlater⟩ := findExit_mono ((settled_mono hread).trans (settled_strip buf)) hstream
    rw [execStop, hlater] at hstop
    cases hstop
  · rfl

/-- What the capture has read and what the console has produced: the same, until the deadline has passed. -/
def Reads (s : State) (buf : Bytes) : Prop :=
  s.stream <+: buf ++ s.ch.flatten ∧ (s.expired = false → s.stream = buf ++ s.ch.flatten)

/-- The invariant of a capture, by its point. -/
def Inv (marker : Bytes) (s : State) : Prop :=
  match s.pc with
  | .drain => s.stream = [] ∧ s.closed = false
  | .write _ => Reads s []
  | .capture buf => Reads s buf ∧ execStop marker buf = false
  | .grace buf => Reads s buf
  | .done _ .writeFailed => True
  | .done buf .closed => execStop marker buf = false ∧ s.stream <+: buf ∧ s.closed = true
  | .done buf .matched => Complete marker buf ∧ (buf <+: s.stream ∨ s.expired = true ∧ s.stream <+: buf)
  | .done _ .deadline => executed marker s.stream = none ∧ s.expired = true

theorem Inv.answered (h : Inv marker s) : Answered marker s := by
  intro buf ending hpc hwritten code output hexecuted
  unfold Inv at h
  rw [hpc] at h
  cases ending with
  | writeFailed => exact absurd rfl hwritten
  | closed =>
    rw [unseen h.1 h.2.1] at hexecuted
    cases hexecuted
  | matched =>
    refine complete_answered h.1 ?_ hexecuted
    rcases h.2 with hread | ⟨-, hread⟩
    · exact .inl hread
    · exact .inr hread
  | deadline =>
    rw [h.1] at hexecuted
    cases hexecuted

theorem execStop_nil : execStop marker [] = false := rfl

/-- A chunk for which there is room is both produced and buffered. -/
theorem Reads.chunk {c : Bytes} (h : Reads s buf) (hroom : s.ch.length < subCap) (hpc : s.pc.draining = false) :
    Reads { s with
      ch := if s.ch.length < subCap then s.ch ++ [c] else s.ch
      stream := if s.pc.draining ∨ s.expired then s.stream else s.stream ++ c } buf := by
  have hflat : (s.ch ++ [c]).flatten = s.ch.flatten ++ c := by
    rw [List.flatten_append, List.flatten_singleton]
  unfold Reads
  simp only [if_pos hroom, hpc, Bool.false_eq_true, false_or, hflat, ← List.append_assoc]
  cases hexpired : s.expired with
  | true =>
    simp only [if_true]
    exact ⟨h.1.trans (List.prefix_append _ _), fun hlate => by cases hlate⟩
  | false =>
    have heq := h.2 hexpired
    simp only [Bool.false_eq_true, if_false, heq]
    exact ⟨List.prefix_rfl, fun _ => trivial⟩

theorem Inv.chunk {c : Bytes} (h : Inv marker s) (hclosed : s.closed = false)
    (hroom : s.pc.listening = true → s.ch.length < subCap) :
    Inv marker { s with
      ch := if s.ch.length < subCap then s.ch ++ [c] else s.ch
      stream := if s.pc.draining ∨ s.expired then s.stream else s.stream ++ c } := by
  obtain ⟨pc, ch, closed, expired, stream⟩ := s
  cases pc with
  | drain => exact h
  | write left => exact Reads.chunk h (hroom rfl) rfl
  | capture buf => exact ⟨Reads.chunk h.1 (hroom rfl) rfl, h.2⟩
  | grace buf => exact Reads.chunk h (hroom rfl) rfl
  | done buf ending =>
    cases ending with
    | writeFailed => trivial
    | closed =>
      have hwas : closed = true := h.2.2
      have hnow : closed = false := hclosed
      rw [hwas] at hnow
      cases hnow
    | matched =>
      obtain ⟨hcomplete, hread⟩ := h
      refine ⟨hcomplete, ?_⟩
      cases expired with
      | true => exact hread
      | false =>
        rcases hread with hread | ⟨hlate, -⟩
        · exact .inl (hread.trans (List.prefix_append _ _))
        · cases hlate
    | deadline =>
      obtain ⟨hnone, hlate⟩ := h
      have hexpired : expired = true := hlate
      subst hexpired
      exact ⟨hnone, rfl⟩

theorem Reads.next {c : Bytes} {rest : List Bytes} {expired closed : Bool} {pc pc' : Pc}
    (h : Reads ⟨pc, c :: rest, closed, expired, stream⟩ buf) : Reads ⟨pc', rest, closed, expired, stream⟩ (buf ++ c) := by
  unfold Reads at h ⊢
  simp only [List.flatten_cons, List.append_assoc] at h ⊢
  exact h

theorem Inv.poll {ok : Bool} (h : Inv marker s) (hpoll : poll (execStop marker) pieces ok s = some t)
    (hcareful : Careful marker s (.poll ok)) : Inv marker t := by
  obtain ⟨pc, ch, closed, expired, stream⟩ := s
  cases pc with
  | drain =>
    cases ch with
    | nil =>
      have hclosed : closed = false := h.2
      simp only [Capture.poll, hclosed, Bool.false_eq_true, if_false] at hpoll
      cases hpoll
      have hstream : stream = [] := h.1
      subst hstream
      exact ⟨List.prefix_rfl, fun _ => rfl⟩
    | cons c rest =>
      cases hpoll
      exact h
  | write left =>
    cases ok with
    | false =>
      cases hpoll
      trivial
    | true =>
      cases left with
      | zero =>
        cases hpoll
        exact ⟨h, execStop_nil⟩
      | succ left =>
        cases hpoll
        exact h
  | capture buf =>
    obtain ⟨hreads, hstop⟩ := h
    cases ch with
    | nil =>
      simp only [Capture.poll] at hpoll
      split at hpoll
      · rename_i hclosed
        cases hpoll
        refine ⟨hstop, ?_, hclosed⟩
        have hread := hreads.1
        simp only [List.flatten_nil, List.append_nil] at hread
        exact hread
      · cases hpoll
    | cons c rest =>
      simp only [Capture.poll] at hpoll
      split at hpoll
      · cases hpoll
        exact hreads.next
      · rename_i hnot
        cases hpoll
        exact ⟨hreads.next, Bool.not_eq_true _ ▸ hnot⟩
  | grace buf =>
    cases ch with
    | nil =>
      cases hpoll
      refine ⟨hcareful buf rfl rfl, ?_⟩
      have hreads : Reads ⟨.grace buf, [], closed, expired, stream⟩ buf := h
      unfold Reads at hreads
      simp only [List.flatten_nil, List.append_nil] at hreads
      cases expired with
      | true => exact .inr ⟨rfl, hreads.1⟩
      | false =>
        have heq := hreads.2 rfl
        subst heq
        exact .inl List.prefix_rfl
    | cons c rest =>
      cases hpoll
      exact Reads.next h
  | done buf ending => cases hpoll

/-- **Step.**  A careful step keeps the invariant. -/
theorem Inv.step (h : Inv marker s) (hstep : step (execStop marker) pieces s a = some t) (hcareful : Careful marker s a) :
    Inv marker t := by
  cases a with
  | chunk c =>
    simp only [Capture.step] at hstep
    split at hstep
    · cases hstep
    · rename_i hopen
      cases hstep
      exact h.chunk (Bool.not_eq_true _ ▸ hopen) hcareful
  | close =>
    cases hstep
    obtain ⟨pc, ch, closed, expired, stream⟩ := s
    cases pc with
    | drain =>
      have hnot : (true : Bool) = false := hcareful
      cases hnot
    | write left => exact h
    | capture buf => exact h
    | grace buf => exact h
    | done buf ending =>
      cases ending with
      | closed => exact ⟨h.1, h.2.1, rfl⟩
      | writeFailed => trivial
      | matched => exact h
      | deadline => exact h
  | expire =>
    obtain ⟨pc, ch, closed, expired, stream⟩ := s
    cases pc with
    | drain => cases hstep
    | write left => cases hstep
    | capture buf =>
      cases hstep
      exact ⟨⟨h.1.1, fun hlate => by cases hlate⟩, h.2⟩
    | grace buf =>
      cases hstep
      exact ⟨And.left h, fun hlate => by cases hlate⟩
    | done buf ending =>
      cases hstep
      cases ending with
      | closed => exact h
      | writeFailed => trivial
      | matched =>
        refine ⟨h.1, ?_⟩
        rcases h.2 with hread | ⟨-, hread⟩
        · exact .inl hread
        · exact .inr ⟨rfl, hread⟩
      | deadline => exact ⟨h.1, rfl⟩
  | poll ok => exact h.poll hstep hcareful
  | timeout =>
    simp only [Capture.step] at hstep
    split at hstep
    · split at hstep
      · rename_i hexpired
        cases hstep
        exact ⟨hcareful, hexpired⟩
      · cases hstep
    · cases hstep

end answers

/-- **Captures.**  In a run in which the console does not close while the capture drains, a capture ends, whatever text it
waits for; and in a careful run of `execCapture` the sentinel that comes in time is answered with its exit code and the
output before it. -/
theorem capture_answers (marker : Bytes) (pieces : ℕ) (buffered : List Bytes) (actions : List Action) (s : State) :
    (∀ stop, RunIn (fun s a t => step stop pieces s a = some t) (fun s a _ => StaysOpen s a) (initial buffered) actions s →
      Ends stop pieces s) ∧
    (RunIn (fun s a t => step (execStop marker) pieces s a = some t) (fun s a _ => Careful marker s a) (initial buffered)
      actions s → Answered marker s) := by
  refine ⟨fun stop h => ?_, fun h => ?_⟩
  · have hopen : (initial buffered).openWhileDraining := fun _ => rfl
    exact ends_of_open (h.invariant (I := State.openWhileDraining)
      (fun _ _ _ hs hstep hguard => open_step hs hstep hguard) hopen)
  · have hinitial : Inv marker (initial buffered) := ⟨rfl, rfl⟩
    exact (h.invariant (fun _ _ _ hs hstep hcareful => hs.step hstep hcareful) hinitial).answered

/-- `__EXIT_` -/
def sampleMarker : Bytes := [95, 95, 69, 88, 73, 84, 95]

/-- `hi; echo __EXIT_=$?` and the end of the line. -/
def typed : Bytes :=
  [104, 105, 59, 32, 101, 99, 104, 111, 32] ++ echoed sampleMarker ++ [13, 10]

/-- `hi` and the sentinel, each with the end of its line. -/
def printed : Bytes := [104, 105, 13, 10] ++ sentinel sampleMarker ++ [49, 50, 55, 13, 10]

/-- The command is written in two pieces, the console gives it back, and then what it has printed. -/
def whole : List Action :=
  List.replicate 4 (.poll true) ++ [.chunk typed, .poll true, .chunk printed, .poll true, .poll true]

theorem capture_answers_whole :
    ∃ s, Run (fun s a t => step (execStop sampleMarker) 1 s a = some t) (initial [[36, 32]]) whole s ∧
      s.pc = .done (typed ++ printed) .matched ∧
      execCapture sampleMarker (typed ++ printed) .matched = ⟨[104, 105], some 127, false⟩ := by
  have hgoes : step (execStop sampleMarker) 1 ⟨.capture [], [typed], false, false, typed⟩ (.poll true) =
      some ⟨.capture typed, [], false, false, typed⟩ := by
    decide +kernel
  have hstops : step (execStop sampleMarker) 1 ⟨.capture typed, [printed], false, false, typed ++ printed⟩ (.poll true) =
      some ⟨.grace (typed ++ printed), [], false, false, typed ++ printed⟩ := by
    decide +kernel
  have hcomplete : Complete sampleMarker (typed ++ printed) :=
    ⟨typed.filter (· != 13) ++ [104, 105, 10], [49, 50, 55], 10, [], by decide +kernel⟩
  have hwaits : ∀ pc ch (stream : Bytes), (∀ buf, pc ≠ .grace buf) →
      Careful sampleMarker ⟨pc, ch, false, false, stream⟩ (.poll true) :=
    fun _ _ _ hpc buf hbuf _ => absurd hbuf (hpc buf)
  have hdrain : ∀ buf, Pc.drain ≠ .grace buf := fun _ h => by cases h
  have hwrite : ∀ left buf, Pc.write left ≠ .grace buf := fun _ _ h => by cases h
  have hcapture : ∀ read buf, Pc.capture read ≠ .grace buf := fun _ _ h => by cases h
  have hrun : RunIn (fun s a t => step (execStop sampleMarker) 1 s a = some t) (fun s a _ => Careful sampleMarker s a)
      (initial [[36, 32]]) whole ⟨.done (typed ++ printed) .matched, [], false, false, typed ++ printed⟩ :=
    .cons rfl (hwaits _ _ _ hdrain) (.cons rfl (hwaits _ _ _ hdrain) (.cons rfl (hwaits _ _ _ (hwrite 1))
      (.cons rfl (hwaits _ _ _ (hwrite 0)) (.cons rfl (fun _ => by decide) (.cons hgoes (hwaits _ _ _ (hcapture _))
      (.cons rfl (fun _ => by decide) (.cons hstops (hwaits _ _ _ (hcapture _))
      (.cons rfl (fun _ hbuf _ => Pc.grace.inj hbuf ▸ hcomplete) (.nil _)))))))))
  exact ⟨_, hrun.run, rfl, (capture_answers sampleMarker 1 _ _ _).2 hrun _ _ rfl (by decide) 127 _ (by decide +kernel)⟩

/-- The sentinel `=127` comes in two chunks, the second after the grace. -/
def torn : List Action :=
  [.poll true, .poll true, .chunk (sampleMarker ++ [61, 49]), .poll true, .poll true, .chunk [50, 55, 10]]

/-- A console that closes while the capture drains is polled for ever, for either command; and a sentinel that comes in
two chunks is answered with the exit code 1 instead of 127. -/
theorem drain_spins :
    (∀ n, Run (fun s a t => step promptStop 0 s a = some t) (initial []) (.close :: List.replicate n (.poll true))
      ⟨.drain, [], true, false, []⟩) ∧
    (∃ s, Run (fun s a t => step (execStop sampleMarker) 0 s a = some t) (initial []) [.close] s ∧
      ¬ Ends (execStop sampleMarker) 0 s) ∧
    ∃ s, Run (fun s a t => step (execStop sampleMarker) 0 s a = some t) (initial []) torn s ∧ ¬ Answered sampleMarker s := by
  have hspins : ∀ stop n, Run (fun s a t => step stop 0 s a = some t) ⟨.drain, [], true, false, []⟩
      (List.replicate n (.poll true)) ⟨.drain, [], true, false, []⟩ := by
    intro stop n
    induction n with
    | zero => exact .nil _
    | succ n ih => exact .cons rfl ih
  refine ⟨fun n => .cons rfl (hspins _ n), ⟨⟨.drain, [], true, false, []⟩, .cons rfl (.nil _), fun h => ?_⟩, ?_⟩
  · have hbound := h.1 (List.replicate 5 (.poll true)) _ (fun a ha => (List.eq_of_mem_replicate ha) ▸ rfl) (hspins _ 5)
    exact absurd hbound (by decide)
  · refine ⟨⟨.done (sampleMarker ++ [61, 49]) .matched, [[50, 55, 10]], false, false, sampleMarker ++ [61, 49, 50, 55, 10]⟩,
      Run.of_exec (by decide +kernel), fun h => ?_⟩
    have hanswer := h _ _ rfl (by decide) 127 [] (by decide +kernel)
    exact absurd hanswer (by decide +kernel)

end Nehemiah.Capture
