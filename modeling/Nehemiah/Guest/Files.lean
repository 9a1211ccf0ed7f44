import Nehemiah.Guest.Frames

/-!
# Files in and out of the guest

The host sends a file in frames; the guest writes them to a temporary file beside the destination, and renames it when the
last frame has come.  For the way back the guest sends what it knows of the file before its contents.  A frame is the JSON
object of its fields, in which a field that is zero is left out; both ends declare the same keys.

The source, the connection and each operation on files may fail at any point (`file_round_trip`).
-/

namespace Nehemiah.Guest

/-! ### The JSON of a frame -/

inductive JsonValue
  | number (n : ℤ)
  | boolean (b : Bool)
  | string (s : String)
  | base64 (p : Bytes)

abbrev JsonObject := List (String × JsonValue)

/-- The fields that are not left out. -/
def present (fields : List (String × Option JsonValue)) : JsonObject :=
  fields.filterMap fun kv => kv.2.map fun v => (kv.1, v)

def omitNumber (n : ℤ) : Option JsonValue := if n = 0 then none else some (.number n)

def omitFalse (b : Bool) : Option JsonValue := if b then some (.boolean b) else none

def omitString (s : String) : Option JsonValue := if s = "" then none else some (.string s)

def omitBytes (p : Bytes) : Option JsonValue := if p = [] then none else some (.base64 p)

/-- The fields of `protocolFrame` and of `guestAgentFrame`; each but the type has `omitempty`. -/
def ProtocolFrame.fields (f : ProtocolFrame) : List (String × Option JsonValue) :=
  [("version", omitNumber f.version), ("type", some (.string f.type)), ("command", omitString f.command),
    ("timeout_ms", omitNumber f.timeoutMS), ("max_output", omitNumber f.maxOutput), ("pty", omitFalse f.pty),
    ("rows", omitNumber f.rows), ("cols", omitNumber f.cols), ("path", omitString f.path), ("mode", omitNumber f.mode),
    ("size", omitNumber f.size), ("data", omitBytes f.data), ("exit_code", f.exitCode.map .number),
    ("timed_out", omitFalse f.timedOut), ("truncated", omitFalse f.truncated), ("code", omitString f.code),
    ("error", omitString f.error)]

def ProtocolFrame.object (f : ProtocolFrame) : JsonObject := present f.fields

def readNumber (o : JsonObject) (key : String) : Option ℤ :=
  match o.lookup key with
  | none => some 0
  | some (.number n) => some n
  | some _ => none

/-- A number of a field without a sign. -/
def readNat (o : JsonObject) (key : String) : Option ℕ :=
  (readNumber o key).bind fun n => if 0 ≤ n then some n.toNat else none

def readPointer (o : JsonObject) (key : String) : Option (Option ℤ) :=
  match o.lookup key with
  | none => some none
  | some (.number n) => some (some n)
  | some _ => none

def readBool (o : JsonObject) (key : String) : Option Bool :=
  match o.lookup key with
  | none => some false
  | some (.boolean b) => some b
  | some _ => none

def readString (o : JsonObject) (key : String) : Option String :=
  match o.lookup key with
  | none => some ""
  | some (.string s) => some s
  | some _ => none

def readBytes (o : JsonObject) (key : String) : Option Bytes :=
  match o.lookup key with
  | none => some []
  | some (.base64 p) => some p
  | some _ => none

def unmarshalFrame (o : JsonObject) : Option ProtocolFrame := do
  let version ← readNumber o "version"
  let type ← readString o "type"
  let command ← readString o "command"
  let timeoutMS ← readNumber o "timeout_ms"
  let maxOutput ← readNumber o "max_output"
  let pty ← readBool o "pty"
  let rows ← readNat o "rows"
  let cols ← readNat o "cols"
  let path ← readString o "path"
  let mode ← readNat o "mode"
  let size ← readNumber o "size"
  let data ← readBytes o "data"
  let exitCode ← readPointer o "exit_code"
  let timedOut ← readBool o "timed_out"
  let truncated ← readBool o "truncated"
  let code ← readString o "code"
  let error ← readString o "error"
  some ⟨version, type, command, timeoutMS, maxOutput, pty, rows, cols, path, mode, size, data, exitCode, timedOut,
    truncated, code, error⟩

/-- `readFrame` and `readGuestFrame`, after the text. -/
def readFrame (o : JsonObject) : Option ProtocolFrame :=
  (unmarshalFrame o).bind fun f => if f.type = "" then none else some f

/-! ### The fields are read back -/

variable {o : JsonObject} {key : String} {fields : List (String × Option JsonValue)}

theorem lookup_present_of_not_mem (h : key ∉ fields.map Prod.fst) : (present fields).lookup key = none := by
  rw [List.lookup_eq_none_iff]
  intro kv hkv
  obtain ⟨field, hfield, heq⟩ := List.mem_filterMap.mp hkv
  obtain ⟨v, _, rfl⟩ := Option.map_eq_some_iff.mp heq
  have hne : key ≠ field.1 := fun heq => h (heq ▸ List.mem_map_of_mem hfield)
  simpa using hne

theorem lookup_present {v : Option JsonValue} (hnodup : (fields.map Prod.fst).Nodup) (hfield : (key, v) ∈ fields) :
    (present fields).lookup key = v := by
  induction fields with
  | nil => cases hfield
  | cons field fields ih =>
    obtain ⟨key', v'⟩ := field
    rw [List.map_cons, List.nodup_cons] at hnodup
    rcases List.mem_cons.mp hfield with heq | hrest
    · obtain ⟨rfl, rfl⟩ := Prod.mk.inj heq
      cases v with
      | none =>
        show (present fields).lookup key = none
        exact lookup_present_of_not_mem hnodup.1
      | some v => simp [present]
    · have hmem : key ∈ fields.map Prod.fst := List.mem_map.mpr ⟨(key, v), hrest, rfl⟩
      have hne : key ≠ key' := fun heq => hnodup.1 (heq ▸ hmem)
      cases v' with
      | none =>
        show (present fields).lookup key = v
        exact ih hnodup.2 hrest
      | some v' =>
        show ((key', v') :: present fields).lookup key = v
        rw [List.lookup_cons, beq_false_of_ne hne]
        exact ih hnodup.2 hrest

theorem readNumber_omit {n : ℤ} (h : o.lookup key = omitNumber n) : readNumber o key = some n := by
  unfold readNumber omitNumber at *
  rw [h]
  split_ifs with hzero
  · rw [hzero]
  · rfl

theorem readNat_omit {n : ℕ} (h : o.lookup key = omitNumber n) : readNat o key = some n := by
  simp [readNat, readNumber_omit h]

theorem readPointer_omit {n : Option ℤ} (h : o.lookup key = n.map .number) : readPointer o key = some n := by
  unfold readPointer
  rw [h]
  cases n <;> rfl

theorem readBool_omit {b : Bool} (h : o.lookup key = omitFalse b) : readBool o key = some b := by
  unfold readBool omitFalse at *
  rw [h]
  cases b <;> rfl

theorem readString_omit {s : String} (h : o.lookup key = omitString s) : readString o key = some s := by
  unfold readString omitString at *
  rw [h]
  split_ifs with hempty
  · rw [hempty]
  · rfl

theorem readBytes_omit {p : Bytes} (h : o.lookup key = omitBytes p) : readBytes o key = some p := by
  unfold readBytes omitBytes at *
  rw [h]
  split_ifs with hempty
  · rw [hempty]
  · rfl

/-- **A frame is read back from its JSON.** -/
theorem unmarshalFrame_object (f : ProtocolFrame) : unmarshalFrame f.object = some f := by
  have hnodup : (f.fields.map Prod.fst).Nodup := by
    show List.Nodup ["version", "type", "command", "timeout_ms", "max_output", "pty", "rows", "cols", "path", "mode",
      "size", "data", "exit_code", "timed_out", "truncated", "code", "error"]
    decide
  have field : ∀ {key v}, (key, v) ∈ f.fields → f.object.lookup key = v := fun h => lookup_present hnodup h
  have htype : readString f.object "type" = some f.type := by
    unfold readString
    rw [@field "type" (some (.string f.type)) (by simp [ProtocolFrame.fields])]
  unfold unmarshalFrame
  rw [@readNumber_omit _ "version" f.version (field (by simp [ProtocolFrame.fields])), htype,
    @readString_omit _ "command" f.command (field (by simp [ProtocolFrame.fields])),
    @readNumber_omit _ "timeout_ms" f.timeoutMS (field (by simp [ProtocolFrame.fields])),
    @readNumber_omit _ "max_output" f.maxOutput (field (by simp [ProtocolFrame.fields])),
    @readBool_omit _ "pty" f.pty (field (by simp [ProtocolFrame.fields])),
    @readNat_omit _ "rows" f.rows (field (by simp [ProtocolFrame.fields])),
    @readNat_omit _ "cols" f.cols (field (by simp [ProtocolFrame.fields])),
    @readString_omit _ "path" f.path (field (by simp [ProtocolFrame.fields])),
    @readNat_omit _ "mode" f.mode (field (by simp [ProtocolFrame.fields])),
    @readNumber_omit _ "size" f.size (field (by simp [ProtocolFrame.fields])),
    @readBytes_omit _ "data" f.data (field (by simp [ProtocolFrame.fields])),
    @readPointer_omit _ "exit_code" f.exitCode (field (by simp [ProtocolFrame.fields])),
    @readBool_omit _ "timed_out" f.timedOut (field (by simp [ProtocolFrame.fields])),
    @readBool_omit _ "truncated" f.truncated (field (by simp [ProtocolFrame.fields])),
    @readString_omit _ "code" f.code (field (by simp [ProtocolFrame.fields])),
    @readString_omit _ "error" f.error (field (by simp [ProtocolFrame.fields]))]
  rfl

theorem readFrame_object {f : ProtocolFrame} (h : f.type ≠ "") : readFrame f.object = some f := by
  simp [readFrame, unmarshalFrame_object, h]

/-! ### The files of the guest -/

structure File where
  data : Bytes
  mode : ℕ

/-- The regular files, by their cleaned paths. -/
abbrev Files := String → Option File

def maxFileSize : ℤ := 16 * 1024 * 1024

/-- The segments of a rooted path, without those that are empty or go back. -/
def cleanSegments : List (List Char) → List (List Char) → List (List Char)
  | stack, [] => stack.reverse
  | stack, s :: rest =>
    if s = [] ∨ s = ['.'] then cleanSegments stack rest
    else if s = ['.', '.'] then cleanSegments stack.tail rest
    else cleanSegments (s :: stack) rest

def clean (p : String) : String :=
  String.ofList ('/' :: List.intercalate ['/'] (cleanSegments [] (p.toList.splitOn '/')))

def guestPath (p : String) : Option String :=
  if p = "" then none
  else if p.toList.head? = some '/' then some (clean p)
  else some (clean ("/root/" ++ p))

/-- Which operations on files fail; a write that fails may have written some of its bytes. -/
structure FileFaults where
  mkdir : Bool
  createTemp : Bool
  write : ℕ → Option ℕ
  chmod : Bool
  sync : Bool
  close : Bool
  rename : Bool
  remove : Bool

def errorFrame (code message : String) : ProtocolFrame :=
  { emptyFrame with type := "error", code := code, error := message }

def tooLarge : ProtocolFrame := errorFrame "too_large" "file exceeds 16 MiB limit"

def dataFrame (p : Bytes) : ProtocolFrame := { emptyFrame with type := "data", data := p }

def eofFrame : ProtocolFrame := { emptyFrame with type := "eof" }

namespace Files

def put (files : Files) (path : String) (file : Option File) : Files := Function.update files path file

/-- More bytes at the end of a file that is open. -/
def append (files : Files) (path : String) (p : Bytes) : Files :=
  files.put path ((files path).map fun file => { file with data := file.data ++ p })

def rename (files : Files) (source dest : String) : Files := (files.put source none).put dest (files source)

/-- `os.Remove`, when the handler returns without a file. -/
def discard (files : Files) (faults : FileFaults) (path : String) : Files :=
  if faults.remove then files else files.put path none

end Files

/-! ### Upload, in the guest -/

section serveUpload

variable (message : String) (faults : FileFaults) (size : ℤ) (mode : ℕ) (dest tmp : String)

/-- The last frame has come: the temporary file becomes the destination. -/
def finishUpload (files : Files) (written : ℤ) : Files × Option ProtocolFrame :=
  if 0 ≤ size ∧ size ≠ written then (files.discard faults tmp, some (errorFrame "" message))
  else
    let mode := if mode = 0 then 0o600 else mode % 512
    if faults.chmod then (files.discard faults tmp, some (errorFrame "" message))
    else
      let files := files.put tmp ((files tmp).map fun file => { file with mode := mode })
      if faults.sync ∨ faults.close ∨ faults.rename then (files.discard faults tmp, some (errorFrame "" message))
      else (files.rename tmp dest, some { emptyFrame with type := "result", path := dest, size := written })

/-- The loop of `serveUpload`, over the objects that arrive; the connection ends after them. -/
def uploadLoop : List JsonObject → Files → ℤ → ℕ → Files × Option ProtocolFrame
  | [], files, _, _ => (files.discard faults tmp, none)
  | o :: rest, files, written, writes =>
    match readFrame o with
    | none => (files.discard faults tmp, none)
    | some f =>
      if f.type = "data" then
        let written := written + f.data.length
        if maxFileSize < written then (files.discard faults tmp, some tooLarge)
        else
          match faults.write writes with
          | some n => ((files.append tmp (f.data.take n)).discard faults tmp, some (errorFrame "" message))
          | none => uploadLoop rest (files.append tmp f.data) written (writes + 1)
      else if f.type = "eof" then finishUpload message faults size mode dest tmp files written
      else (files.discard faults tmp, some (errorFrame "" "expected data or eof frame"))

end serveUpload

/-- `serveUpload`: the files, and the reply.  The temporary file is one that does not exist; `message` is the text of the
error of an operation that fails. -/
def serveUpload (message : String) (faults : FileFaults) (tmp : String) (files : Files) (req : ProtocolFrame)
    (arrived : List JsonObject) : Files × Option ProtocolFrame :=
  match guestPath req.path with
  | none => (files, some (errorFrame "" "path is required"))
  | some dest =>
    if maxFileSize < req.size then (files, some tooLarge)
    else if faults.mkdir ∨ faults.createTemp ∨ (files tmp).isSome then (files, some (errorFrame "" message))
    else uploadLoop message faults req.size req.mode dest tmp arrived (files.put tmp (some ⟨[], 0o600⟩)) 0 0

/-! ### Upload, from the host -/

/-- What reading a source brings, and whether it ends with an error. -/
structure Source where
  chunks : List Bytes
  failed : Bool

/-- The source is one of these contents: all of them, or some and then an error. -/
structure Source.Reads (src : Source) (content : Bytes) : Prop where
  part : src.chunks.flatten <+: content
  whole : src.failed = false → src.chunks.flatten = content

inductive FileError
  | tooLarge
  | connection
  | source
  | remote (code message : String)
  | unexpectedFrame (type : String)
  | sizeMismatch
  deriving DecidableEq

/-- `guestAgentFrameError`. -/
def frameError (f : ProtocolFrame) : FileError := if f.code = "too_large" then .tooLarge else .remote f.code f.error

def uploadFrame (path : String) (mode : ℕ) (size : ℤ) : ProtocolFrame :=
  { emptyFrame with version := 1, type := "upload", path := path, mode := mode % 512, size := size }

/-- The loop of `Upload` and the last frame: the frames that go out, and the error that ends it.  `writes` says of each
frame whether it goes out; a frame that is not described does not. -/
def uploadChunks (failed : Bool) : List Bytes → List Bool → ℤ → List ProtocolFrame × Option FileError
  | [], writes, _ =>
    if failed then ([], some .source)
    else if writes.headD false then ([eofFrame], none)
    else ([], some .connection)
  | c :: chunks, writes, sent =>
    if c = [] then uploadChunks failed chunks writes sent
    else
      let sent := sent + c.length
      if maxFileSize < sent then ([], some .tooLarge)
      else if writes.headD false then
        let rest := uploadChunks failed chunks writes.tail sent
        (dataFrame c :: rest.1, rest.2)
      else ([], some .connection)

def uploadSends (path : String) (mode : ℕ) (size : ℤ) (src : Source) (writes : List Bool) :
    List ProtocolFrame × Option FileError :=
  if maxFileSize < size then ([], some .tooLarge)
  else if writes.headD false then
    let rest := uploadChunks src.failed src.chunks writes.tail 0
    (uploadFrame path mode size :: rest.1, rest.2)
  else ([], some .connection)

/-- The result of `Upload` after all has been sent. -/
def uploadReply (reply : Option JsonObject) : Except FileError (String × ℤ) :=
  match reply.bind readFrame with
  | none => .error .connection
  | some f =>
    if f.type = "error" then .error (frameError f)
    else if f.type = "result" then .ok (f.path, f.size)
    else .error (.unexpectedFrame f.type)

/-- One upload: the call, the source, the frames that the host gets out and the number of them that arrive, the faults of
the guest's files, and whether its reply arrives. -/
structure UploadRun where
  path : String
  mode : ℕ
  size : ℤ
  src : Source
  writes : List Bool
  arrives : ℕ
  busy : Bool
  message : String
  faults : FileFaults
  tmp : String
  heard : Bool

/-- `serveConn`, for the operations on files: `serve` gets the request and what arrives after it. -/
def serveConn (busy : Bool) (type : String) (files : Files)
    (serve : ProtocolFrame → List JsonObject → Files × Option ProtocolFrame) :
    List JsonObject → Files × Option ProtocolFrame
  | [] => (files, none)
  | o :: rest =>
    match readFrame o with
    | none => (files, none)
    | some req =>
      if req.version ≠ 0 ∧ req.version ≠ 1 then (files, some (errorFrame "" "unsupported protocol version"))
      else if req.type ≠ type then (files, some (errorFrame "" "unsupported operation"))
      else if busy then (files, some (errorFrame "busy" "guest operation capacity reached"))
      else serve req rest

def UploadRun.sends (u : UploadRun) : List ProtocolFrame × Option FileError :=
  uploadSends u.path u.mode u.size u.src u.writes

/-- The guest's side: its files when the handler has returned, and its reply. -/
def UploadRun.served (u : UploadRun) (files : Files) : Files × Option ProtocolFrame :=
  serveConn u.busy "upload" files (serveUpload u.message u.faults u.tmp files)
    ((u.sends.1.map ProtocolFrame.object).take u.arrives)

def UploadRun.result (u : UploadRun) (files : Files) : Except FileError (String × ℤ) :=
  match u.sends.2 with
  | some e => .error e
  | none => uploadReply (if u.heard then (u.served files).2.map ProtocolFrame.object else none)

/-! ### Download -/

structure DownloadFaults where
  stat : Bool
  irregular : Bool
  openFails : Bool

def metaFrame (path : String) (mode : ℕ) (size : ℤ) : ProtocolFrame :=
  { emptyFrame with type := "meta", path := path, mode := mode, size := size }

/-- The frames of `serveDownload`, as far as the connection takes them; `src` is what reading the file brings. -/
def downloadChunks (message : String) (failed : Bool) : List Bytes → List ProtocolFrame
  | [] => [if failed then errorFrame "" message else eofFrame]
  | c :: chunks => if c = [] then downloadChunks message failed chunks else dataFrame c :: downloadChunks message failed chunks

def serveDownload (message : String) (faults : DownloadFaults) (files : Files) (path : String) (src : Source) :
    List ProtocolFrame :=
  match guestPath path with
  | none => [errorFrame "" "path is required"]
  | some source =>
    match files source with
    | none => [errorFrame "not_found" message]
    | some file =>
      if faults.stat then [errorFrame "io_error" message]
      else if faults.irregular then [errorFrame "" "path is not a regular file"]
      else if maxFileSize < file.data.length then [tooLarge]
      else if faults.openFails then [errorFrame "io_error" message]
      else metaFrame source (file.mode % 512) file.data.length :: downloadChunks message src.failed src.chunks

structure GuestDownloadResult where
  path : String
  mode : ℕ
  size : ℤ
  data : Bytes
  deriving DecidableEq

/-- The loop of `DownloadTo`, into a buffer. -/
def downloadLoop : List JsonObject → GuestDownloadResult → ℤ → Except FileError GuestDownloadResult
  | [], _, _ => .error .connection
  | o :: rest, result, received =>
    match readFrame o with
    | none => .error .connection
    | some f =>
      if f.type = "data" then
        let received := received + f.data.length
        if result.size < received ∨ maxFileSize < received then .error .tooLarge
        else downloadLoop rest { result with data := result.data ++ f.data } received
      else if f.type = "eof" then if received ≠ result.size then .error .sizeMismatch else .ok result
      else if f.type = "error" then .error (frameError f)
      else .error (.unexpectedFrame f.type)

/-- `Download`, over the objects that arrive. -/
def download : List JsonObject → Except FileError GuestDownloadResult
  | [] => .error .connection
  | o :: rest =>
    match readFrame o with
    | none => .error .connection
    | some f =>
      if f.type = "error" then .error (frameError f)
      else if f.type ≠ "meta" then .error (.unexpectedFrame f.type)
      else if f.size < 0 ∨ maxFileSize < f.size then .error .tooLarge
      else downloadLoop rest ⟨f.path, f.mode, f.size, []⟩ 0

/-- One download: the request that arrives or does not, the faults of the guest's files, what reading the file brings,
and how many of the guest's frames arrive. -/
structure DownloadRun where
  path : String
  requested : Bool
  busy : Bool
  message : String
  faults : DownloadFaults
  src : Source
  arrives : ℕ

def downloadFrame (path : String) : ProtocolFrame := { emptyFrame with version := 1, type := "download", path := path }

def DownloadRun.replies (d : DownloadRun) (files : Files) : List ProtocolFrame :=
  if d.requested then
    match readFrame (downloadFrame d.path).object with
    | none => []
    | some req =>
      if d.busy then [errorFrame "busy" "guest operation capacity reached"]
      else serveDownload d.message d.faults files req.path d.src
  else []

def DownloadRun.result (d : DownloadRun) (files : Files) : Except FileError GuestDownloadResult :=
  download (((d.replies files).map ProtocolFrame.object).take d.arrives)

/-! ### What an upload leaves -/

namespace Files

@[simp] theorem put_self (files : Files) (path : String) (file : Option File) : files.put path file path = file := by
  simp [put]

@[simp] theorem put_other (files : Files) {path path' : String} (file : Option File) (h : path' ≠ path) :
    files.put path file path' = files path' := by
  simp [put, h]

@[simp] theorem put_put (files : Files) (path : String) (file file' : Option File) :
    (files.put path file).put path file' = files.put path file' := by
  simp [put]

theorem append_put (files : Files) (path : String) (file : File) (p : Bytes) :
    (files.put path (some file)).append path p = files.put path (some { file with data := file.data ++ p }) := by
  simp [append]

theorem rename_put (files : Files) (source dest : String) (file : Option File) :
    (files.put source file).rename source dest = (files.put source none).put dest file := by
  simp [rename]

end Files

/-- What the handler of an upload leaves of the files, and its reply: nothing is changed, or the temporary file is left
where it could not be removed, or it has become the destination, with all of the contents. -/
inductive UploadOutcome (files : Files) (faults : FileFaults) (dest tmp : String) (failed : Bool) (content : Bytes) :
    Files × Option ProtocolFrame → Prop
  | untouched (reply : Option ProtocolFrame) (hreply : ∀ f, reply = some f → f.type = "error") :
      UploadOutcome files faults dest tmp failed content (files, reply)
  | kept (left : Option File) (reply : Option ProtocolFrame) (hfresh : files tmp = none)
      (hleft : faults.remove = false → left = none) (hreply : ∀ f, reply = some f → f.type = "error") :
      UploadOutcome files faults dest tmp failed content (files.put tmp left, reply)
  | renamed (mode : ℕ) (reply : Option ProtocolFrame) (hfresh : files tmp = none) (hwhole : failed = false) :
      UploadOutcome files faults dest tmp failed content ((files.put tmp none).put dest (some ⟨content, mode⟩), reply)

section

variable {files : Files} {message : String} {faults : FileFaults} {size : ℤ} {mode : ℕ} {dest tmp : String}
  {failed : Bool} {content : Bytes}

theorem error_reply {code text : String} : ∀ f, some (errorFrame code text) = some f → f.type = "error" := by
  intro f hf
  cases hf
  rfl

/-- The handler returns without a file. -/
theorem discard_outcome (hfresh : files tmp = none) (file : File) {reply : Option ProtocolFrame}
    (hreply : ∀ f, reply = some f → f.type = "error") :
    UploadOutcome files faults dest tmp failed content ((files.put tmp (some file)).discard faults tmp, reply) := by
  unfold Files.discard
  split_ifs with hremove
  · exact .kept (some file) reply hfresh (fun h => by rw [hremove] at h; cases h) hreply
  · rw [Files.put_put]
    exact .kept none reply hfresh (fun _ => rfl) hreply

theorem finishUpload_outcome (hfresh : files tmp = none) (file : File) (hwhole : failed = false) (written : ℤ) :
    UploadOutcome files faults dest tmp failed file.data
      (finishUpload message faults size mode dest tmp (files.put tmp (some file)) written) := by
  unfold finishUpload
  simp only [Files.put_self, Option.map_some, Files.put_put, Files.rename_put]
  generalize (if mode = 0 then 0o600 else mode % 512) = perm
  split_ifs
  · exact discard_outcome hfresh _ error_reply
  · exact discard_outcome hfresh _ error_reply
  · exact discard_outcome hfresh _ error_reply
  · exact .renamed perm _ hfresh hwhole

/-- The frames of an upload after the request, when all go out. -/
def uploadFrames (chunks : List Bytes) (failed : Bool) : List ProtocolFrame :=
  chunks.map dataFrame ++ if failed then [] else [eofFrame]

/-- The loop of the guest, over a part of the frames of an upload. -/
theorem uploadLoop_outcome (hfresh : files tmp = none) (chunks : List Bytes) :
    ∀ (L : List ProtocolFrame) (file : File) (written : ℤ) (writes : ℕ), L <+: uploadFrames chunks failed →
      UploadOutcome files faults dest tmp failed (file.data ++ chunks.flatten)
        (uploadLoop message faults size mode dest tmp (L.map ProtocolFrame.object) (files.put tmp (some file)) written
          writes) := by
  induction chunks with
  | nil =>
    intro L file written writes hL
    cases L with
    | nil => exact discard_outcome hfresh file (by simp)
    | cons f L =>
      cases failed with
      | true => cases List.prefix_nil.mp hL
      | false =>
        obtain ⟨rfl, _⟩ := List.cons_prefix_cons.mp hL
        have hread : readFrame eofFrame.object = some eofFrame := readFrame_object (by decide)
        simp only [List.map_cons, uploadLoop, hread, List.flatten_nil, List.append_nil]
        exact finishUpload_outcome hfresh file rfl written
  | cons c chunks ih =>
    intro L file written writes hL
    cases L with
    | nil => exact discard_outcome hfresh file (by simp)
    | cons f L =>
      obtain ⟨rfl, hrest⟩ := List.cons_prefix_cons.mp hL
      have hread : readFrame (dataFrame c).object = some (dataFrame c) := readFrame_object (by simp [dataFrame])
      have htype : (dataFrame c).type = "data" := rfl
      simp only [List.map_cons, uploadLoop, hread, htype, if_true, Files.append_put]
      split_ifs
      · exact discard_outcome hfresh file error_reply
      · split
        · exact discard_outcome hfresh _ error_reply
        · have := ih L { file with data := file.data ++ c } (written + c.length) (writes + 1) hrest
          rw [List.append_assoc] at this
          exact this

theorem serveUpload_outcome (chunks : List Bytes) (L : List ProtocolFrame) (hL : L <+: uploadFrames chunks failed)
    (req : ProtocolFrame) (hdest : guestPath req.path = some dest) :
    UploadOutcome files faults dest tmp failed chunks.flatten
      (serveUpload message faults tmp files req (L.map ProtocolFrame.object)) := by
  unfold serveUpload
  simp only [hdest]
  split_ifs with hsize hfails
  · exact .untouched _ error_reply
  · exact .untouched _ error_reply
  · have hfresh : files tmp = none := by
      simp only [not_or, Option.not_isSome_iff_eq_none] at hfails
      exact hfails.2.2
    exact uploadLoop_outcome hfresh chunks L ⟨[], 0o600⟩ 0 0 hL

end

/-- The frames that go out are a part of those of the whole upload. -/
theorem uploadChunks_begin (failed : Bool) (chunks : List Bytes) (writes : List Bool) (sent : ℤ) :
    (uploadChunks failed chunks writes sent).1 <+: uploadFrames (chunks.filter (· ≠ [])) failed := by
  induction chunks generalizing writes sent with
  | nil =>
    unfold uploadChunks uploadFrames
    split_ifs with hfailed
    · exact List.nil_prefix
    · exact List.prefix_rfl
    · exact List.nil_prefix
  | cons c chunks ih =>
    simp only [uploadChunks]
    split_ifs with hempty hsize hwrite
    · rw [List.filter_cons_of_neg (by simp [hempty])]
      exact ih writes sent
    · exact List.nil_prefix
    · rw [List.filter_cons_of_pos (by simp [hempty])]
      exact (List.prefix_cons_inj _).mpr (ih writes.tail _)
    · exact List.nil_prefix

theorem flatten_filter (chunks : List Bytes) : (chunks.filter (· ≠ [])).flatten = chunks.flatten := by
  induction chunks with
  | nil => rfl
  | cons c chunks ih =>
    by_cases hempty : c = []
    · rw [List.filter_cons_of_neg (by simp [hempty]), ih, hempty]
      rfl
    · rw [List.filter_cons_of_pos (by simp [hempty]), List.flatten_cons, List.flatten_cons, ih]

theorem UploadRun.served_outcome (u : UploadRun) (files : Files) {dest : String} (hdest : guestPath u.path = some dest) :
    UploadOutcome files u.faults dest u.tmp u.src.failed u.src.chunks.flatten (u.served files) := by
  unfold UploadRun.served UploadRun.sends uploadSends
  split_ifs with hsize hwrite
  · rw [List.map_nil, List.take_nil]
    exact .untouched none (by simp)
  · simp only [List.map_cons]
    cases u.arrives with
    | zero => exact .untouched none (by simp)
    | succ n =>
      have hread : readFrame (uploadFrame u.path u.mode u.size).object = some (uploadFrame u.path u.mode u.size) :=
        readFrame_object (by simp [uploadFrame])
      rw [List.take_succ_cons, ← List.map_take]
      simp only [serveConn, hread]
      split_ifs
      · exact .untouched _ error_reply
      · exact .untouched _ error_reply
      · exact .untouched _ error_reply
      · rw [← flatten_filter]
        exact serveUpload_outcome _ _ ((List.take_prefix _ _).trans (uploadChunks_begin _ _ _ _)) _ hdest
  · rw [List.map_nil, List.take_nil]
    exact .untouched none (by simp)

theorem UploadRun.replied {u : UploadRun} {files : Files} {r : String × ℤ} (h : u.result files = .ok r) :
    ∃ f, (u.served files).2 = some f ∧ f.type ≠ "error" := by
  unfold UploadRun.result at h
  cases hsends : u.sends.2 with
  | some e =>
    rw [hsends] at h
    cases h
  | none =>
    rw [hsends] at h
    cases hreply : (u.served files).2 with
    | none => simp [hreply, uploadReply] at h
    | some f =>
      refine ⟨f, rfl, fun htype => ?_⟩
      have hread : readFrame f.object = some f := readFrame_object (by simp [htype])
      cases hheard : u.heard with
      | true => simp [hreply, hheard, uploadReply, hread, htype] at h
      | false => simp [hheard, uploadReply] at h

/-! ### What a download returns -/

variable {r : GuestDownloadResult}

theorem downloadLoop_ok {message : String} {failed : Bool} (chunks : List Bytes) :
    ∀ (L : List ProtocolFrame) (result : GuestDownloadResult) (received : ℤ),
      L <+: downloadChunks message failed chunks →
      downloadLoop (L.map ProtocolFrame.object) result received = .ok r →
        r = { result with data := result.data ++ chunks.flatten } ∧ failed = false := by
  induction chunks with
  | nil =>
    intro L result received hL h
    cases L with
    | nil => cases h
    | cons f L =>
      obtain ⟨rfl, _⟩ := List.cons_prefix_cons.mp hL
      cases failed with
      | true =>
        have hread : readFrame (errorFrame "" message).object = some (errorFrame "" message) :=
          readFrame_object (by simp [errorFrame])
        have htype : (errorFrame "" message).type = "error" := rfl
        simp [downloadLoop, hread, htype] at h
      | false =>
        have hread : readFrame eofFrame.object = some eofFrame := readFrame_object (by decide)
        have htype : eofFrame.type = "eof" := rfl
        simp only [List.map_cons, Bool.false_eq_true, if_false, downloadLoop, hread, htype] at h
        split_ifs at h with hdata
        · exact absurd hdata (by decide)
        · cases h
          simp
  | cons c chunks ih =>
    intro L result received hL h
    by_cases hempty : c = []
    · rw [downloadChunks, if_pos hempty] at hL
      obtain ⟨hr, hfailed⟩ := ih L result received hL h
      exact ⟨by rw [hr, hempty, List.flatten_cons, List.nil_append], hfailed⟩
    · rw [downloadChunks, if_neg hempty] at hL
      cases L with
      | nil => cases h
      | cons f L =>
        obtain ⟨rfl, hrest⟩ := List.cons_prefix_cons.mp hL
        have hread : readFrame (dataFrame c).object = some (dataFrame c) := readFrame_object (by simp [dataFrame])
        have htype : (dataFrame c).type = "data" := rfl
        have hdata : (dataFrame c).data = c := rfl
        simp only [List.map_cons, downloadLoop, hread, htype, hdata, if_true] at h
        split_ifs at h
        obtain ⟨hr, hfailed⟩ := ih L _ _ hrest h
        exact ⟨by rw [hr, List.flatten_cons, List.append_assoc], hfailed⟩

/-- An error of the guest is one of the host. -/
theorem download_error {f : ProtocolFrame} (htype : f.type = "error") (n : ℕ) :
    download (([f].map ProtocolFrame.object).take n) ≠ .ok r := by
  intro h
  cases n with
  | zero => cases h
  | succ n =>
    have hread : readFrame f.object = some f := readFrame_object (by simp [htype])
    simp [download, hread, htype] at h

theorem DownloadRun.result_ok {d : DownloadRun} {files : Files} (h : d.result files = .ok r) {source : String}
    {file : File} (hsource : guestPath d.path = some source) (hfile : files source = some file)
    (hsrc : d.src.Reads file.data) : r = ⟨source, file.mode % 512, file.data.length, file.data⟩ := by
  have hread : readFrame (downloadFrame d.path).object = some (downloadFrame d.path) :=
    readFrame_object (by simp [downloadFrame])
  have hpath : (downloadFrame d.path).path = d.path := rfl
  unfold DownloadRun.result DownloadRun.replies at h
  simp only [hread, serveDownload, hpath, hsource, hfile] at h
  split_ifs at h with hrequested hbusy hstat hirregular hlarge hopen
  · exact absurd h (download_error rfl _)
  · exact absurd h (download_error rfl _)
  · exact absurd h (download_error rfl _)
  · exact absurd h (download_error rfl _)
  · exact absurd h (download_error rfl _)
  · cases hn : d.arrives with
    | zero =>
      rw [hn] at h
      cases h
    | succ n =>
      have hmeta : readFrame (metaFrame source (file.mode % 512) file.data.length).object =
          some (metaFrame source (file.mode % 512) file.data.length) := readFrame_object (by simp [metaFrame])
      have htype : (metaFrame source (file.mode % 512) file.data.length).type = "meta" := rfl
      rw [hn, List.map_cons, List.take_succ_cons, ← List.map_take] at h
      simp only [download, hmeta, htype] at h
      split_ifs at h
      obtain ⟨hr, hfailed⟩ := downloadLoop_ok d.src.chunks _ _ _ (List.take_prefix _ _) h
      rw [hr, hsrc.whole hfailed]
      rfl
  · rw [List.map_nil, List.take_nil] at h
    cases h

/-- **Files go in and come out as they are.**  An upload whose handler has returned leaves the destination as it was, or
with exactly the contents, and with the contents if the host was told of success; no other path has changed, so that no
temporary file is left, unless it could not be removed.  A download that does not fail returns exactly the bytes of the
file, and those of an upload after it. -/
theorem file_round_trip (u : UploadRun) (files : Files) (content : Bytes) (dest : String)
    (hdest : guestPath u.path = some dest) (hsrc : u.src.Reads content) :
    ((u.tmp ≠ dest ∨ u.faults.remove = false) →
      (u.served files).1 dest = files dest ∨ ∃ mode, (u.served files).1 dest = some ⟨content, mode⟩) ∧
    (∀ r, u.result files = .ok r → ∃ mode, (u.served files).1 dest = some ⟨content, mode⟩) ∧
    (∀ path, path ≠ dest → (path ≠ u.tmp ∨ u.faults.remove = false) → (u.served files).1 path = files path) ∧
    (∀ (d : DownloadRun) (now : Files) (source : String) (file : File) (r : GuestDownloadResult),
      guestPath d.path = some source → now source = some file → d.src.Reads file.data → d.result now = .ok r →
        r = ⟨source, file.mode % 512, file.data.length, file.data⟩) ∧
    ∀ (d : DownloadRun) (r : String × ℤ) (r' : GuestDownloadResult), d.path = u.path → u.result files = .ok r →
      d.src.Reads content → d.result (u.served files).1 = .ok r' → r'.data = content := by
  have outcome := u.served_outcome files hdest
  have success : ∀ r, u.result files = .ok r → ∃ mode, (u.served files).1 dest = some ⟨content, mode⟩ := by
    intro r hr
    obtain ⟨f, hf, htype⟩ := UploadRun.replied hr
    generalize u.served files = served at outcome hf
    cases outcome with
    | untouched reply hreply => exact absurd (hreply f hf) htype
    | kept left reply hfresh hleft hreply => exact absurd (hreply f hf) htype
    | renamed mode reply hfresh hwhole =>
      refine ⟨mode, ?_⟩
      show (files.put u.tmp none).put dest _ dest = _
      rw [Files.put_self, hsrc.whole hwhole]
  refine ⟨fun hremove => ?_, success, fun path hpath htmp => ?_, fun d now source file r hsource hfile hreads hr =>
    DownloadRun.result_ok hr hsource hfile hreads, fun d r r' hpath hr hreads hr' => ?_⟩
  · generalize u.served files = served at outcome
    cases outcome with
    | untouched reply hreply => exact .inl rfl
    | kept left reply hfresh hleft hreply =>
      left
      by_cases heq : dest = u.tmp
      · -- the temporary file has the name of the destination, which did not exist
        rw [← heq] at hfresh hremove
        show files.put u.tmp left dest = files dest
        rw [← heq, Files.put_self, hfresh]
        exact hleft (hremove.resolve_left (fun hne => hne rfl))
      · exact Files.put_other files left heq
    | renamed mode reply hfresh hwhole =>
      refine .inr ⟨mode, ?_⟩
      show (files.put u.tmp none).put dest _ dest = _
      rw [Files.put_self, hsrc.whole hwhole]
  · generalize u.served files = served at outcome
    cases outcome with
    | untouched reply hreply => rfl
    | kept left reply hfresh hleft hreply =>
      show files.put u.tmp left path = files path
      by_cases heq : path = u.tmp
      · rw [heq, Files.put_self, hfresh]
        exact hleft (htmp.resolve_left (fun hne => hne heq))
      · exact Files.put_other files left heq
    | renamed mode reply hfresh hwhole =>
      show (files.put u.tmp none).put dest _ path = files path
      rw [Files.put_other _ _ hpath]
      by_cases heq : path = u.tmp
      · rw [heq, Files.put_self, hfresh]
      · exact Files.put_other files none heq
  · obtain ⟨mode, hmode⟩ := success r hr
    rw [DownloadRun.result_ok hr' (hpath ▸ hdest) hmode hreads]

/-! ### A note -/

/-- A file of two bytes, read in two parts; all goes well. -/
def noteUpload : UploadRun where
  path := "notes/a.txt"
  mode := 0o600
  size := -1
  src := ⟨[asciiBytes "h", [], asciiBytes "i"], false⟩
  writes := [true, true, true, true]
  arrives := 4
  busy := false
  message := ""
  faults := ⟨false, false, fun _ => none, false, false, false, false, false⟩
  tmp := "/root/notes/.bc-upload-1"
  heard := true

def noteDownload : DownloadRun where
  path := "notes/a.txt"
  requested := true
  busy := false
  message := ""
  faults := ⟨false, false, false⟩
  src := ⟨[asciiBytes "hi"], false⟩
  arrives := 3

theorem note_round_trip :
    noteUpload.result (fun _ => none) = .ok ("/root/notes/a.txt", 2) ∧
      noteDownload.result (noteUpload.served fun _ => none).1 = .ok ⟨"/root/notes/a.txt", 0o600, 2, asciiBytes "hi"⟩ ∧
      ∃ mode, (noteUpload.served fun _ => none).1 "/root/notes/a.txt" = some ⟨asciiBytes "hi", mode⟩ := by
  have hup : noteUpload.result (fun _ => none) = .ok ("/root/notes/a.txt", 2) := by
    decide +kernel
  have hdown : noteDownload.result (noteUpload.served fun _ => none).1 =
      .ok ⟨"/root/notes/a.txt", 0o600, 2, asciiBytes "hi"⟩ := by
    decide +kernel
  exact ⟨hup, hdown, (file_round_trip noteUpload (fun _ => none) (asciiBytes "hi") "/root/notes/a.txt" (by decide +kernel)
    ⟨by decide +kernel, fun _ => by decide +kernel⟩).2.1 _ hup⟩

end Nehemiah.Guest
