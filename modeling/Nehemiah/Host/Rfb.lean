import Mathlib

/-!
# The RFB client

`newRFBClient` and `rfbClient.Screenshot` against the bytes that a guest sends.  The client knows RFB 3.8 with the
None security type and the Raw encoding.  What it writes is left out, and a read that ends early or late is the end
of the bytes.  `rfb_in_step` says when the two stay in step.
-/

namespace Nehemiah.Host.Rfb

abbrev Bytes := List UInt8

/-- Big-endian numbers. -/
def be (bytes : Bytes) : ℕ := bytes.foldl (fun n b => n * 256 + b.toNat) 0

/-- The bytes from `i` to `j` as a number. -/
def field (bytes : Bytes) (i j : ℕ) : ℕ := be ((bytes.take j).drop i)

/-- `io.ReadFull` of `n` bytes. -/
def readFull (n : ℕ) (s : Bytes) : Option (Bytes × Bytes) :=
  if n ≤ s.length then some (s.take n, s.drop n) else none

/-- A read whose error is not looked at: the buffer stays zero where nothing came. -/
def readSome (n : ℕ) (s : Bytes) : Bytes × Bytes := (s.take n ++ List.replicate (n - s.length) 0, s.drop n)

inductive RfbError
  | eof
  | security (reason : Bytes)
  | noneNotOffered
  | result (reason : Bytes)
  | badSize (width height : ℕ)
  | unsupportedEncoding (enc : ℕ)
  | unknownMessage (mt : UInt8)

def readString32 (s : Bytes) : Bytes :=
  match readFull 4 s with
  | none => []
  | some (h, s) => (readSome (min (be h) 4096) s).1

/-! ### The handshake -/

structure Client where
  width : ℕ
  height : ℕ

/-- The client takes a framebuffer of these sides. -/
def Client.sized (c : Client) : Prop := 1 ≤ c.width ∧ 1 ≤ c.height ∧ c.width ≤ 4096 ∧ c.height ≤ 4096

instance (c : Client) : Decidable c.sized := inferInstanceAs (Decidable (_ ∧ _))

/-- The name of the desktop is read only when it is short. -/
def skipName (nameLen : ℕ) (s : Bytes) : Bytes := if 0 < nameLen ∧ nameLen < 4096 then s.drop nameLen else s

/-- From `ServerInit` on. -/
def serverInit (s : Bytes) : Except RfbError (Client × Bytes) :=
  match readFull 24 s with
  | none => .error .eof
  | some (head, s) =>
    let c : Client := ⟨field head 0 2, field head 2 4⟩
    let s := skipName (field head 20 24) s
    if c.sized then .ok (c, s) else .error (.badSize c.width c.height)

/-- From the security types on. -/
def negotiate (s : Bytes) : Except RfbError (Client × Bytes) :=
  match readFull 1 s with
  | none => .error .eof
  | some (nb, s) =>
    if be nb = 0 then .error (.security (readString32 s))
    else
      match readFull (be nb) s with
      | none => .error .eof
      | some (types, s) =>
        if !types.contains 1 then .error .noneNotOffered
        else
          match readFull 4 s with
          | none => .error .eof
          | some (res, s) => if be res ≠ 0 then .error (.result (readString32 s)) else serverInit s

def handshake (s : Bytes) : Except RfbError (Client × Bytes) :=
  match readFull 12 s with
  | none => .error .eof
  | some (_, s) => negotiate s

/-! ### Images -/

structure RGBA where
  r : UInt8
  g : UInt8
  b : UInt8
  a : UInt8

/-- The pixels of an image; those outside its rectangle are not set. -/
abbrev Image := ℕ → ℕ → RGBA

def blank : Image := fun _ _ => ⟨0, 0, 0, 0⟩

/-- `image.RGBA.SetRGBA`, which ignores a point outside the image. -/
def setRGBA (c : Client) (img : Image) (x y : ℕ) (color : RGBA) : Image :=
  if x < c.width ∧ y < c.height then fun x' y' => if x' = x ∧ y' = y then color else img x' y' else img

/-- The pixel of a rectangle of width `rw`: blue, green, red and a byte that is not used. -/
def pixel (buf : Bytes) (rw xx yy : ℕ) : RGBA :=
  let o := (yy * rw + xx) * 4
  ⟨buf.getD (o + 2) 0, buf.getD (o + 1) 0, buf.getD o 0, 255⟩

def drawRow (c : Client) (rx y rw yy : ℕ) (buf : Bytes) (img : Image) : Image :=
  (List.range rw).foldl (fun img xx => setRGBA c img (rx + xx) y (pixel buf rw xx yy)) img

def draw (c : Client) (rx ry rw rh : ℕ) (buf : Bytes) (img : Image) : Image :=
  (List.range rh).foldl (fun img yy => drawRow c rx (ry + yy) rw yy buf img) img

/-! ### Screenshots -/

/-- What a call has got, and the sizes of the buffers that it asked for on the way. -/
structure Got (α : Type) where
  requested : List ℕ
  value : Except RfbError α

def Got.fail {α : Type} (e : RfbError) : Got α := ⟨[], .error e⟩

/-- The rectangles of an update that are still to come. -/
def rects (c : Client) : ℕ → Bytes → Image → Got (Image × Bytes)
  | 0, s, img => ⟨[], .ok (img, s)⟩
  | n + 1, s, img =>
    match readFull 12 s with
    | none => .fail .eof
    | some (rh, s) =>
      if field rh 8 12 ≠ 0 then .fail (.unsupportedEncoding (field rh 8 12))
      else
        let size := field rh 4 6 * field rh 6 8 * 4
        match readFull size s with
        | none => ⟨[size], .error .eof⟩
        | some (buf, s) =>
          let later := rects c n s (draw c (field rh 0 2) (field rh 2 4) (field rh 4 6) (field rh 6 8) buf img)
          ⟨size :: later.requested, later.value⟩

/-- The messages until the next update; each takes a byte at least, and `fuel` is more than there are bytes. -/
def messages (c : Client) : ℕ → Bytes → Got (Image × Bytes)
  | 0, _ => .fail .eof
  | _ + 1, [] => .fail .eof
  | fuel + 1, mt :: s =>
    if mt = 0 then
      match readFull 3 s with
      | none => .fail .eof
      | some (hdr, s) => rects c (field hdr 1 3) s blank
    else if mt = 1 then
      let m := readSome 5 s
      messages c fuel (m.2.drop (field m.1 3 5 * 6))
    else if mt = 2 then messages c fuel s
    else if mt = 3 then
      let m := readSome 7 s
      messages c fuel (m.2.drop (field m.1 3 7))
    else .fail (.unknownMessage mt)

def screenshot (c : Client) (s : Bytes) : Got (Image × Bytes) := messages c (s.length + 1) s

/-- The handshake and `n` screenshots, and the bytes that are left. -/
def screenshots (c : Client) : ℕ → Bytes → Except RfbError (List Image × Bytes)
  | 0, s => .ok ([], s)
  | n + 1, s =>
    match (screenshot c s).value with
    | .error e => .error e
    | .ok (img, s) =>
      match screenshots c n s with
      | .error e => .error e
      | .ok (imgs, s) => .ok (img :: imgs, s)

def session (n : ℕ) (s : Bytes) : Except RfbError (List Image × Bytes) :=
  match handshake s with
  | .error e => .error e
  | .ok (c, s) => screenshots c n s

/-! ### What a guest sends -/

/-- The guest's side of the handshake. -/
structure Hello where
  version : Bytes
  types : Bytes
  result : Bytes
  init : Bytes
  name : Bytes
  version_length : version.length = 12
  types_length : types.length < 256
  offers : (1 : UInt8) ∈ types
  result_zero : result.length = 4 ∧ be result = 0
  init_length : init.length = 24
  named : name.length = field init 20 24

def Hello.bytes (h : Hello) : Bytes :=
  h.version ++ (UInt8.ofNat h.types.length :: h.types) ++ h.result ++ h.init ++ h.name

def Hello.client (h : Hello) : Client := ⟨field h.init 0 2, field h.init 2 4⟩

/-- A message that is not an update. -/
inductive Quiet
  | colourMap (header entries : Bytes) (framed : header.length = 5 ∧ entries.length = field header 3 5 * 6)
  | bell
  | cutText (header text : Bytes) (framed : header.length = 7 ∧ text.length = field header 3 7)

def Quiet.bytes : Quiet → Bytes
  | .colourMap header entries _ => 1 :: (header ++ entries)
  | .bell => [2]
  | .cutText header text _ => 3 :: (header ++ text)

/-- A rectangle in the Raw encoding, within the framebuffer. -/
structure Rect (c : Client) where
  header : Bytes
  pixels : Bytes
  header_length : header.length = 12
  raw : field header 8 12 = 0
  filled : pixels.length = field header 4 6 * field header 6 8 * 4
  within : field header 0 2 + field header 4 6 ≤ c.width ∧ field header 2 4 + field header 6 8 ≤ c.height

def Rect.bytes {c : Client} (r : Rect c) : Bytes := r.header ++ r.pixels

structure Update (c : Client) where
  header : Bytes
  rects : List (Rect c)
  framed : header.length = 3 ∧ rects.length = field header 1 3

def Update.bytes {c : Client} (u : Update c) : Bytes := 0 :: (u.header ++ u.rects.flatMap Rect.bytes)

/-- The messages up to an update. -/
structure Frame (c : Client) where
  quiet : List Quiet
  update : Update c

def Frame.bytes {c : Client} (f : Frame c) : Bytes := f.quiet.flatMap Quiet.bytes ++ f.update.bytes

/-- The image with a rectangle laid over it. -/
def Rect.over {c : Client} (img : Image) (r : Rect c) : Image := fun x y =>
  if field r.header 0 2 ≤ x ∧ x < field r.header 0 2 + field r.header 4 6 ∧
      field r.header 2 4 ≤ y ∧ y < field r.header 2 4 + field r.header 6 8 then
    pixel r.pixels (field r.header 4 6) (x - field r.header 0 2) (y - field r.header 2 4)
  else img x y

def Update.image {c : Client} (u : Update c) : Image := u.rects.foldl Rect.over blank

/-- After the handshake and any number of screenshots the client has read just the messages up to there, and has the
images of their updates. -/
def InStep (h : Hello) (frames : List (Frame h.client)) (rest : Bytes) : Prop :=
  ∀ n ≤ frames.length, session n (h.bytes ++ frames.flatMap Frame.bytes ++ rest) =
    .ok ((frames.take n).map (·.update.image), (frames.drop n).flatMap Frame.bytes ++ rest)

/-! ### Reading -/

theorem readFull_append {n : ℕ} {a b : Bytes} (h : a.length = n) : readFull n (a ++ b) = some (a, b) := by
  subst h
  simp [readFull]

theorem readSome_append {n : ℕ} {a b : Bytes} (h : a.length = n) : readSome n (a ++ b) = (a, b) := by
  subst h
  simp [readSome]

theorem be_singleton {n : ℕ} (h : n < 256) : be [UInt8.ofNat n] = n := by
  simp only [be, List.foldl_cons, List.foldl_nil, Nat.zero_mul, Nat.zero_add]
  exact UInt8.toNat_ofNat_of_lt' h

/-- A name that is not short stays in front of the messages. -/
theorem skipName_append {nameLen : ℕ} {name s : Bytes} (h : name.length = nameLen) :
    skipName nameLen (name ++ s) = if nameLen < 4096 then s else name ++ s := by
  subst h
  unfold skipName
  split
  · rename_i hshort
    rw [if_pos hshort.2]
    exact List.drop_left
  · rename_i hlong
    split
    · rename_i hlt
      have hempty : name = [] := List.length_eq_zero_iff.mp (by omega)
      rw [hempty]
      rfl
    · rfl

theorem handshake_append (h : Hello) (s : Bytes) :
    handshake (h.bytes ++ s) =
      if h.client.sized then .ok (h.client, if h.name.length < 4096 then s else h.name ++ s)
      else .error (.badSize h.client.width h.client.height) := by
  have htypes : h.types.length ≠ 0 := fun hempty => by
    have hnone := h.offers
    rw [List.length_eq_zero_iff.mp hempty] at hnone
    cases hnone
  have hcontains : h.types.contains 1 = true := List.contains_iff_mem.mpr h.offers
  have hsplit : h.bytes ++ s =
      h.version ++ ([UInt8.ofNat h.types.length] ++ (h.types ++ (h.result ++ (h.init ++ (h.name ++ s))))) := by
    simp only [Hello.bytes, List.append_assoc, List.cons_append, List.nil_append]
  have hserver : serverInit (h.init ++ (h.name ++ s)) =
      if h.client.sized then .ok (h.client, if h.name.length < 4096 then s else h.name ++ s)
      else .error (.badSize h.client.width h.client.height) := by
    simp only [serverInit, readFull_append h.init_length]
    rw [← h.named, skipName_append rfl]
    rfl
  rw [hsplit]
  simp only [handshake, readFull_append h.version_length]
  simp only [negotiate, readFull_append (show [UInt8.ofNat h.types.length].length = 1 from rfl),
    be_singleton h.types_length, if_neg htypes, readFull_append (rfl : h.types.length = h.types.length), hcontains,
    Bool.not_true, Bool.false_eq_true, if_false, readFull_append h.result_zero.1, h.result_zero.2, ne_eq,
    not_true_eq_false, hserver]

/-! ### Drawing -/

section drawing

variable (c : Client) (rx ry rw : ℕ) (buf : Bytes) (img : Image)

theorem setRGBA_apply (x y x' y' : ℕ) (color : RGBA) :
    setRGBA c img x y color x' y' =
      if x < c.width ∧ y < c.height ∧ x' = x ∧ y' = y then color else img x' y' := by
  unfold setRGBA
  by_cases hin : x < c.width ∧ y < c.height
  · simp [hin.1, hin.2]
  · rw [if_neg hin, if_neg fun h => hin ⟨h.1, h.2.1⟩]

/-- The first `n` points of a row. -/
theorem drawRow_apply (y yy n x' y' : ℕ) :
    ((List.range n).foldl (fun img xx => setRGBA c img (rx + xx) y (pixel buf rw xx yy)) img) x' y' =
      if y' = y ∧ rx ≤ x' ∧ x' < rx + n ∧ x' < c.width ∧ y < c.height then pixel buf rw (x' - rx) yy else img x' y' := by
  induction n with
  | zero =>
    have hnone : ¬ (y' = y ∧ rx ≤ x' ∧ x' < rx + 0 ∧ x' < c.width ∧ y < c.height) := by omega
    rw [if_neg hnone]
    rfl
  | succ n ih =>
    rw [List.range_succ, List.foldl_append, List.foldl_cons, List.foldl_nil, setRGBA_apply, ih]
    by_cases hlast : x' = rx + n
    · subst hlast
      have hnot : ¬ rx + n < rx + n := lt_irrefl _
      have hsub : rx + n - rx = n := Nat.add_sub_cancel_left _ _
      by_cases hy : y' = y
      · simp only [hnot, hsub, hy]
        by_cases hin : rx + n < c.width ∧ y < c.height
        · simp [hin.1, hin.2]
        · have hout : ¬ (rx + n < c.width ∧ y < c.height ∧ True ∧ True) := fun h => hin ⟨h.1, h.2.1⟩
          have hout' : ¬ (True ∧ rx ≤ rx + n ∧ rx + n < rx + (n + 1) ∧ rx + n < c.width ∧ y < c.height) :=
            fun h => hin h.2.2.2
          simp only [if_neg hout, if_neg hout', false_and, and_false, if_false]
      · simp [hy]
    · have hsame : x' < rx + (n + 1) ↔ x' < rx + n := by omega
      simp only [hlast, hsame, false_and, and_false, if_false]

theorem draw_apply (n x' y' : ℕ) :
    draw c rx ry rw n buf img x' y' =
      if (rx ≤ x' ∧ x' < rx + rw ∧ ry ≤ y' ∧ y' < ry + n) ∧ x' < c.width ∧ y' < c.height then
        pixel buf rw (x' - rx) (y' - ry)
      else img x' y' := by
  unfold draw
  induction n with
  | zero =>
    have hnone : ¬ ((rx ≤ x' ∧ x' < rx + rw ∧ ry ≤ y' ∧ y' < ry + 0) ∧ x' < c.width ∧ y' < c.height) := by omega
    rw [if_neg hnone]
    rfl
  | succ n ih =>
    rw [List.range_succ, List.foldl_append, List.foldl_cons, List.foldl_nil, drawRow, drawRow_apply, ih]
    by_cases hlast : y' = ry + n
    · subst hlast
      have hsub : ry + n - ry = n := Nat.add_sub_cancel_left _ _
      have hnot : ¬ ((rx ≤ x' ∧ x' < rx + rw ∧ ry ≤ ry + n ∧ ry + n < ry + n) ∧ x' < c.width ∧ ry + n < c.height) := by
        omega
      have hsame : (ry + n = ry + n ∧ rx ≤ x' ∧ x' < rx + rw ∧ x' < c.width ∧ ry + n < c.height) ↔
          ((rx ≤ x' ∧ x' < rx + rw ∧ ry ≤ ry + n ∧ ry + n < ry + (n + 1)) ∧ x' < c.width ∧ ry + n < c.height) := by
        omega
      rw [if_neg hnot, hsub]
      exact if_congr hsame rfl rfl
    · have hnot : ¬ (y' = ry + n ∧ rx ≤ x' ∧ x' < rx + rw ∧ x' < c.width ∧ ry + n < c.height) := fun h => hlast h.1
      have hsame : y' < ry + (n + 1) ↔ y' < ry + n := by omega
      rw [if_neg hnot]
      simp only [hsame]

end drawing

/-- Drawing a rectangle that is within the framebuffer lays it over the image. -/
theorem draw_over {c : Client} (r : Rect c) (img : Image) :
    draw c (field r.header 0 2) (field r.header 2 4) (field r.header 4 6) (field r.header 6 8) r.pixels img =
      Rect.over img r := by
  funext x y
  rw [draw_apply]
  unfold Rect.over
  have hwithin := r.within
  refine if_congr ?_ rfl rfl
  omega

/-! ### Messages -/

section steps

variable {c : Client} {s : Bytes}

theorem rects_append (rs : List (Rect c)) (img : Image) :
    (rects c rs.length (rs.flatMap Rect.bytes ++ s) img).value = .ok (rs.foldl Rect.over img, s) := by
  induction rs generalizing img with
  | nil => rfl
  | cons r rs ih =>
    have hsplit : (r :: rs).flatMap Rect.bytes ++ s = r.header ++ (r.pixels ++ (rs.flatMap Rect.bytes ++ s)) := by
      simp only [List.flatMap_cons, Rect.bytes, List.append_assoc]
    rw [hsplit, List.length_cons]
    simp only [rects, readFull_append r.header_length, r.raw, ne_eq, not_true_eq_false, if_false,
      readFull_append r.filled, draw_over]
    exact ih _

theorem messages_quiet (q : Quiet) (fuel : ℕ) : messages c (fuel + 1) (q.bytes ++ s) = messages c fuel s := by
  cases q with
  | colourMap header entries framed =>
    have hsplit : (Quiet.colourMap header entries framed).bytes ++ s = 1 :: (header ++ (entries ++ s)) := by
      simp only [Quiet.bytes, List.cons_append, List.append_assoc]
    rw [hsplit]
    simp only [messages, readSome_append framed.1, ← framed.2, List.drop_left]
    rfl
  | bell => rfl
  | cutText header text framed =>
    have hsplit : (Quiet.cutText header text framed).bytes ++ s = 3 :: (header ++ (text ++ s)) := by
      simp only [Quiet.bytes, List.cons_append, List.append_assoc]
    rw [hsplit]
    simp only [messages, readSome_append framed.1, ← framed.2, List.drop_left]
    rfl

theorem messages_update (u : Update c) (fuel : ℕ) :
    (messages c (fuel + 1) (u.bytes ++ s)).value = .ok (u.image, s) := by
  have hsplit : u.bytes ++ s = 0 :: (u.header ++ (u.rects.flatMap Rect.bytes ++ s)) := by
    simp only [Update.bytes, List.cons_append, List.append_assoc]
  rw [hsplit]
  simp only [messages, if_true, readFull_append u.framed.1, ← u.framed.2]
  exact rects_append u.rects blank

theorem messages_frame (f : Frame c) (fuel : ℕ) (hfuel : f.quiet.length < fuel) :
    (messages c fuel (f.bytes ++ s)).value = .ok (f.update.image, s) := by
  obtain ⟨quiet, u⟩ := f
  simp only [Frame.bytes, List.append_assoc]
  induction quiet generalizing fuel with
  | nil =>
    obtain ⟨fuel, rfl⟩ : ∃ k, fuel = k + 1 := ⟨fuel - 1, by simp at hfuel; omega⟩
    exact messages_update u fuel
  | cons q quiet ih =>
    obtain ⟨fuel, rfl⟩ : ∃ k, fuel = k + 1 := ⟨fuel - 1, by simp at hfuel; omega⟩
    rw [List.flatMap_cons, List.append_assoc, messages_quiet]
    exact ih fuel (by simpa using hfuel)

/-- Each message takes a byte at least. -/
theorem quiet_length (quiet : List Quiet) : quiet.length ≤ (quiet.flatMap Quiet.bytes).length := by
  induction quiet with
  | nil => exact le_rfl
  | cons q quiet ih =>
    have hq : 1 ≤ q.bytes.length := by cases q <;> simp [Quiet.bytes]
    rw [List.flatMap_cons, List.length_append, List.length_cons]
    omega

theorem screenshot_frame (f : Frame c) : (screenshot c (f.bytes ++ s)).value = .ok (f.update.image, s) := by
  refine messages_frame f _ ?_
  have hquiet := quiet_length f.quiet
  simp only [Frame.bytes, List.length_append]
  omega

theorem screenshots_frames (frames : List (Frame c)) (n : ℕ) (hn : n ≤ frames.length) :
    screenshots c n (frames.flatMap Frame.bytes ++ s) =
      .ok ((frames.take n).map (·.update.image), (frames.drop n).flatMap Frame.bytes ++ s) := by
  induction n generalizing frames with
  | zero => rfl
  | succ n ih =>
    cases frames with
    | nil => simp at hn
    | cons f frames =>
      rw [List.flatMap_cons, List.append_assoc]
      simp only [screenshots, screenshot_frame, ih frames (by simpa using hn)]
      rfl

end steps

theorem inStep_iff (h : Hello) (frames : List (Frame h.client)) (rest : Bytes) (hsized : h.client.sized) :
    InStep h frames rest ↔ h.name.length < 4096 := by
  have hsession : ∀ n, session n (h.bytes ++ frames.flatMap Frame.bytes ++ rest) =
      screenshots h.client n (if h.name.length < 4096 then frames.flatMap Frame.bytes ++ rest
        else h.name ++ (frames.flatMap Frame.bytes ++ rest)) := by
    intro n
    rw [List.append_assoc, session, handshake_append, if_pos hsized]
  constructor
  · intro hstep
    by_contra hlong
    have hzero := hstep 0 (Nat.zero_le _)
    rw [hsession, if_neg hlong] at hzero
    simp only [screenshots, List.drop_zero, Except.ok.injEq, Prod.mk.injEq] at hzero
    have hlength := congrArg List.length hzero.2
    simp only [List.length_append] at hlength
    omega
  · intro hshort n hn
    rw [hsession, if_pos hshort]
    exact screenshots_frames frames n hn

/-! ### Any stream -/

/-- The headers of the rectangles of an update, as far as the stream holds them. -/
def rectHeadersFrom : ℕ → Bytes → List Bytes
  | 0, _ => []
  | n + 1, s =>
    match readFull 12 s with
    | none => []
    | some (rh, s) =>
      if field rh 8 12 ≠ 0 then []
      else
        rh :: match readFull (field rh 4 6 * field rh 6 8 * 4) s with
          | none => []
          | some (_, s) => rectHeadersFrom n s

/-- The stream behind the type of the next update. -/
def toUpdate : ℕ → Bytes → Option Bytes
  | 0, _ => none
  | _ + 1, [] => none
  | fuel + 1, mt :: s =>
    if mt = 0 then some s
    else if mt = 1 then toUpdate fuel ((readSome 5 s).2.drop (field (readSome 5 s).1 3 5 * 6))
    else if mt = 2 then toUpdate fuel s
    else if mt = 3 then toUpdate fuel ((readSome 7 s).2.drop (field (readSome 7 s).1 3 7))
    else none

/-- The headers of the rectangles of the next update of a stream. -/
def rectHeaders (s : Bytes) : List Bytes :=
  match (toUpdate (s.length + 1) s).bind (readFull 3) with
  | none => []
  | some (hdr, s) => rectHeadersFrom (field hdr 1 3) s

/-- The area that the header of a rectangle declares. -/
def area (rh : Bytes) : ℕ := field rh 4 6 * field rh 6 8

section anyStream

variable {c : Client} {s : Bytes}

theorem rects_requested (n : ℕ) (img : Image) :
    (rects c n s img).requested = (rectHeadersFrom n s).map fun rh => area rh * 4 := by
  induction n generalizing s img with
  | zero => rfl
  | succ n ih =>
    simp only [rects, rectHeadersFrom]
    cases readFull 12 s with
    | none => rfl
    | some p =>
      obtain ⟨rh, s⟩ := p
      dsimp only
      split
      · rfl
      · cases readFull (field rh 4 6 * field rh 6 8 * 4) s with
        | none => rfl
        | some q => exact congrArg (List.cons _) (ih _)

theorem messages_requested (fuel : ℕ) :
    (messages c fuel s).requested =
      match (toUpdate fuel s).bind (readFull 3) with
      | none => []
      | some (hdr, s) => (rectHeadersFrom (field hdr 1 3) s).map fun rh => area rh * 4 := by
  induction fuel generalizing s with
  | zero => rfl
  | succ fuel ih =>
    cases s with
    | nil => rfl
    | cons mt s =>
      simp only [messages, toUpdate]
      split
      · simp only [Option.bind_some]
        cases readFull 3 s with
        | none => rfl
        | some p => exact rects_requested _ _
      · split
        · exact ih
        · split
          · exact ih
          · split
            · exact ih
            · rfl

theorem screenshot_requested : (screenshot c s).requested = (rectHeaders s).map fun rh => area rh * 4 := by
  rw [screenshot, messages_requested, rectHeaders]
  cases (toUpdate (s.length + 1) s).bind (readFull 3) with
  | none => rfl
  | some p => rfl

/-- No drawing sets a pixel outside the framebuffer. -/
theorem rects_outside (n : ℕ) (img img' : Image) (rest : Bytes) (h : (rects c n s img).value = .ok (img', rest))
    (x y : ℕ) (hout : c.width ≤ x ∨ c.height ≤ y) : img' x y = img x y := by
  induction n generalizing s img with
  | zero =>
    cases h
    rfl
  | succ n ih =>
    simp only [rects] at h
    split at h
    · cases h
    · rename_i rh s' _
      split at h
      · cases h
      · split at h
        · cases h
        · rename_i buf s'' _
          rw [ih _ h, draw_apply]
          exact if_neg fun hin => by omega

theorem messages_outside (fuel : ℕ) (img : Image) (rest : Bytes) (h : (messages c fuel s).value = .ok (img, rest))
    (x y : ℕ) (hout : c.width ≤ x ∨ c.height ≤ y) : img x y = blank x y := by
  induction fuel generalizing s with
  | zero => cases h
  | succ fuel ih =>
    cases s with
    | nil => cases h
    | cons mt s =>
      simp only [messages] at h
      split at h
      · split at h
        · cases h
        · exact rects_outside _ _ _ _ h x y hout
      · split at h
        · exact ih h
        · split at h
          · exact ih h
          · split at h
            · exact ih h
            · cases h

end anyStream

/-- **RFB.**  A client that takes the guest's framebuffer stays in step with every guest whose desktop name is short,
and with no other; it asks for no buffer larger than the framebuffer exactly when no rectangle declares a larger area;
and no stream sets a pixel outside the framebuffer. -/
theorem rfb_in_step (h : Hello) (frames : List (Frame h.client)) (c : Client) (s : Bytes) :
    ((h.client.sized → InStep h frames s) ↔ (h.client.sized → h.name.length < 4096)) ∧
    (h.client.sized ∨ handshake (h.bytes ++ s) = .error (.badSize h.client.width h.client.height)) ∧
    ((∀ size ∈ (screenshot c s).requested, size ≤ c.width * c.height * 4) ↔
      ∀ rh ∈ rectHeaders s, area rh ≤ c.width * c.height) ∧
    ∀ (img : Image) (rest : Bytes), (screenshot c s).value = .ok (img, rest) →
      ∀ x y, c.width ≤ x ∨ c.height ≤ y → img x y = blank x y := by
  refine ⟨forall_congr' fun hsized => inStep_iff h frames s hsized, ?_, ?_, ?_⟩
  · by_cases hsized : h.client.sized
    · exact .inl hsized
    · refine .inr ?_
      rw [handshake_append, if_neg hsized]
  · rw [screenshot_requested, List.forall_mem_map]
    refine forall₂_congr fun rh _ => ?_
    omega
  · intro img rest hvalue x y hout
    exact messages_outside _ img rest hvalue x y hout

/-- A guest whose desktop has a name of 4096 bytes, on a screen of one pixel. -/
def longName : Hello where
  version := List.replicate 12 32
  types := [1]
  result := [0, 0, 0, 0]
  init := [0, 1, 0, 1] ++ List.replicate 16 0 ++ [0, 0, 16, 0]
  name := List.replicate 4096 65
  version_length := rfl
  types_length := by decide
  offers := by decide
  result_zero := by decide
  init_length := rfl
  named := by
    rw [List.length_replicate]
    decide

/-- An update with one rectangle of the largest sides. -/
def hugeRect : Bytes := [0, 0, 0, 1, 0, 0, 0, 0, 255, 255, 255, 255, 0, 0, 0, 0]

/-- The name is left in front of the messages, and on a screen of one pixel the client asks for 17 gigabytes. -/
theorem longName_out_of_step : longName.client.sized ∧ ¬ InStep longName [] [] ∧
    (screenshot longName.client hugeRect).requested = [17179344900] := by
  have hsized : longName.client.sized := by decide
  refine ⟨hsized, ?_, by decide⟩
  rw [inStep_iff longName [] [] hsized]
  have hlength : longName.name.length = 4096 := List.length_replicate
  rw [hlength]
  exact lt_irrefl _

end Nehemiah.Host.Rfb
