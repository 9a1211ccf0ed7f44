import Nehemiah.Lib.Run

/-!
# Template archives

A host takes a snapshot of a machine and writes it, with its metadata, as an archive of four files; another host takes
the archive, checks its entries, and installs the files as a template by one rename.  An archive is the entries that a
reader of it comes to, and whether it ends with an error after them; the text of the metadata, the size after compression
and the checksum are parameters.

`template_archives` is when an archive goes from host to host, what an accepted one has, and that a failed import leaves
the templates as they were; `largeDisk_not_exported` is a machine whose archive is not written.  The bytes of zstd and of
the headers of the entries are outside the model.
-/

namespace Nehemiah.Transfer

abbrev Contents := List UInt8

/-- The files of a directory. -/
abbrev Files := String → Option Contents

def mebibyte : ℤ := 1024 * 1024

/-- The configuration of a host; `Validate` refuses one without the maxima. -/
structure Config where
  architecture : String
  overlayQuotaMB : ℤ
  maxMemoryMB : ℤ
  maxVCPUs : ℤ
  overlayQuotaMB_pos : 0 < overlayQuotaMB
  maxMemoryMB_pos : 0 < maxMemoryMB
  maxVCPUs_pos : 0 < maxVCPUs

structure TemplateMeta where
  memSizeMB : ℤ
  vcpus : ℤ
  diskMB : ℤ
  vsock : Bool
  display : Bool
  initPath : String
  hadNIC : Bool
  sourceTemplate : String
  architecture : String
  artifactSHA256 : String
  artifactBytes : ℤ
  createdAt : String
  deriving DecidableEq

/-! ### The machine -/

structure Template where
  name : String
  memSizeMB : ℤ
  vcpus : ℤ
  initPath : String
  vsock : Bool
  display : Bool

def isNameChar (c : Char) : Bool := decide ('a' ≤ c ∧ c ≤ 'z') || decide ('0' ≤ c ∧ c ≤ '9')

/-- `templateNameRe`. -/
def templateNameRe (name : String) : Bool :=
  match name.toList with
  | [] => false
  | c :: rest => isNameChar c && decide (rest.length ≤ 31) && rest.all fun c => isNameChar c || c == '-'

def loadTemplateMeta (installed : String → Option TemplateMeta) (name : String) : Option TemplateMeta :=
  if templateNameRe name then (installed name).filter fun m => decide (0 < m.memSizeMB) else none

def template (installed : String → Option TemplateMeta) (name : String) : Template :=
  let name := if name = "" then "python" else name
  if name = "desktop" then ⟨"desktop", 2560, 2, "/sbin/boring-init", true, true⟩
  else
    match loadTemplateMeta installed name with
    | some m => ⟨name, m.memSizeMB, m.vcpus, m.initPath, m.vsock, m.display⟩
    | none => ⟨name, 256, 1, "", true, false⟩

structure Resources where
  vcpus : ℤ
  memoryMB : ℤ
  diskMB : ℤ

def requestedTemplate (cfg : Config) (installed : String → Option TemplateMeta) (name : String) (r : Resources) :
    Option (Template × ℤ) :=
  if name ≠ "python" ∧ name ≠ "desktop" ∧ loadTemplateMeta installed name = none then none
  else if r.vcpus < 0 ∨ r.memoryMB < 0 ∨ r.diskMB < 0 then none
  else if cfg.maxVCPUs < r.vcpus ∨ cfg.maxMemoryMB < r.memoryMB ∨ cfg.overlayQuotaMB < r.diskMB then none
  else
    let tpl := template installed name
    let tpl := if 0 < r.vcpus then { tpl with vcpus := r.vcpus } else tpl
    if 0 < r.memoryMB then if r.memoryMB < 128 then none else some ({ tpl with memSizeMB := r.memoryMB }, r.diskMB)
    else some (tpl, r.diskMB)

/-- A machine, with the size of its overlay. -/
structure Machine where
  template : String
  vcpus : ℤ
  memoryMB : ℤ
  diskMB : ℤ
  overlayBytes : ℤ

/-- What `create` admits: the overlay is the base image, grown to the size that was asked for. -/
def create (cfg : Config) (installed : String → Option TemplateMeta) (name : String) (r : Resources) (baseBytes : ℤ) :
    Option Machine :=
  match requestedTemplate cfg installed name r with
  | none => none
  | some (tpl, requestedMB) =>
    -- `enforceOverlayQuota`
    if cfg.overlayQuotaMB * mebibyte < baseBytes then none
    else if 0 < requestedMB ∧ requestedMB * mebibyte < baseBytes then none
    else
      let overlayBytes := if 0 < requestedMB then requestedMB * mebibyte else baseBytes
      let diskMB := if requestedMB = 0 then (overlayBytes + mebibyte - 1) / mebibyte else requestedMB
      some ⟨name, tpl.vcpus, tpl.memSizeMB, diskMB, overlayBytes⟩

/-! ### The archive -/

structure TarEntry where
  regular : Bool
  name : String
  linkname : String
  size : ℤ
  data : Contents

/-- The entries that a reader comes to, and whether it then meets an error. -/
structure Archive where
  entries : List TarEntry
  malformed : Bool

/-- JSON, zstd and SHA-256. -/
structure Coding where
  marshal : TemplateMeta → Contents
  unmarshal : Contents → Option TemplateMeta
  compressedSize : Archive → ℤ
  checksum : Archive → String

structure TemplateArtifact where
  checksum : String
  sizeBytes : ℤ
  deriving DecidableEq

def maximumTemplateArtifact : ℤ := 5 * 1024 * 1024 * 1024

def maximumTemplateMetadata : ℤ := 64 * 1024

def maximumTemplateSnapshot : ℤ := 1024 * 1024 * 1024

def templateMemoryFilename : String := "mem_file"

def templateMetadataFilename : String := "meta.json"

def templateRootfsFilename : String := "rootfs.ext4"

def templateSnapshotFilename : String := "snapshot_file"

def templateMembers : List String :=
  [templateMemoryFilename, templateMetadataFilename, templateRootfsFilename, templateSnapshotFilename]

/-- The numbers that the size field of a USTAR header can have: eleven octal digits. -/
def fitsUSTAR (size : ℤ) : Bool := decide (0 ≤ size ∧ size < 8 ^ 11)

/-- The loop of `writeTemplateArchive`. -/
def writeMembers (dir : Files) : List String → Option (List TarEntry)
  | [] => some []
  | name :: names =>
    match dir name with
    | none => none
    | some data =>
      if data = [] ∨ ¬ fitsUSTAR data.length then none
      else (writeMembers dir names).map fun entries => ⟨true, name, "", data.length, data⟩ :: entries

def writeTemplateArchive (coding : Coding) (dir : Files) : Option Archive :=
  match writeMembers dir templateMembers with
  | none => none
  | some entries =>
    let archive : Archive := ⟨entries, false⟩
    if coding.compressedSize archive ≤ 0 ∨ maximumTemplateArtifact < coding.compressedSize archive then none
    else some archive

/-- What a snapshot leaves in its directory. -/
structure Snapshot where
  memory : Contents
  rootfs : Contents
  state : Contents

/-- `currentTemplateSource`. -/
def metaOf (cfg : Config) (installed : String → Option TemplateMeta) (m : Machine) (hadNIC : Bool) (createdAt : String) :
    TemplateMeta where
  memSizeMB := m.memoryMB
  vcpus := m.vcpus
  diskMB := m.diskMB
  vsock := (template installed m.template).vsock
  display := (template installed m.template).display
  initPath := (template installed m.template).initPath
  hadNIC := hadNIC
  sourceTemplate := m.template
  architecture := cfg.architecture
  artifactSHA256 := ""
  artifactBytes := 0
  createdAt := createdAt

def snapshotDir (s : Snapshot) (metadata : Contents) : Files := fun name =>
  if name = templateMemoryFilename then some s.memory
  else if name = templateMetadataFilename then some metadata
  else if name = templateRootfsFilename then some s.rootfs
  else if name = templateSnapshotFilename then some s.state
  else none

/-- The archive of `ExportManagedTemplate`. -/
def exportArchive (coding : Coding) (m : TemplateMeta) (s : Snapshot) : Option Archive :=
  let metadata := coding.marshal m
  if metadata = [] ∨ maximumTemplateMetadata < metadata.length then none
  else writeTemplateArchive coding (snapshotDir s metadata)

/-! ### Extraction -/

def rootfsLimit (cfg : Config) : ℤ :=
  let limit := cfg.overlayQuotaMB * mebibyte
  if limit ≤ 0 then 64 * 1024 * 1024 * 1024 else limit

def memoryLimit (cfg : Config) : ℤ :=
  let limit := (cfg.maxMemoryMB + 64) * mebibyte
  if limit ≤ 64 * mebibyte then 64 * 1024 * 1024 * 1024 else limit

def limits (cfg : Config) (name : String) : Option ℤ :=
  if name = templateSnapshotFilename then some maximumTemplateSnapshot
  else if name = templateMemoryFilename then some (memoryLimit cfg)
  else if name = templateRootfsFilename then some (rootfsLimit cfg)
  else if name = templateMetadataFilename then some maximumTemplateMetadata
  else none

/-- `filepath.Base`. -/
def base (path : String) : String :=
  if path = "" then "."
  else
    let chars := (path.toList.reverse.dropWhile (· = '/')).takeWhile (· ≠ '/')
    if chars = [] then "/" else String.ofList chars.reverse

/-- The loop of `extractTemplateArchive`; `broken` says which files cannot be written. -/
def extractLoop (cfg : Config) (broken : String → Bool) : List TarEntry → Files → List String →
    Option (Files × List String)
  | [], files, seen => some (files, seen)
  | e :: rest, files, seen =>
    if ¬ e.regular ∨ e.linkname ≠ "" ∨ e.name ∈ seen then none
    else
      match limits cfg e.name with
      | none => none
      | some limit =>
        if e.size ≤ 0 ∨ limit < e.size ∨ base e.name ≠ e.name then none
        else if (files e.name).isSome ∨ broken e.name ∨ (e.data.length : ℤ) < e.size then none
        else
          extractLoop cfg broken rest (Function.update files e.name (some (e.data.take e.size.toNat))) (e.name :: seen)

/-- The bytes of a string. -/
def byteLength (s : String) : ℕ := (s.toList.map Char.utf8Size).sum

def containsAny (s : String) (chars : List Char) : Bool := s.toList.any fun c => chars.contains c

def validInitPath (path : String) : Bool :=
  path = "" || (decide (path.toList.head? = some '/') && decide (byteLength path ≤ 256) &&
    !containsAny path ['\x00', '\r', '\n'])

/-- What the importer checks of the metadata. -/
def validMeta (cfg : Config) (architecture : String) (m : TemplateMeta) : Bool :=
  decide (m.architecture = architecture) && decide (m.architecture = cfg.architecture) &&
    decide (0 < m.memSizeMB ∧ m.memSizeMB ≤ cfg.maxMemoryMB) && decide (0 < m.vcpus ∧ m.vcpus ≤ cfg.maxVCPUs) &&
    decide (0 < m.diskMB ∧ m.diskMB * mebibyte ≤ rootfsLimit cfg) &&
    decide (m.sourceTemplate ≠ "" ∧ byteLength m.sourceTemplate ≤ 64) &&
    !containsAny m.sourceTemplate ['/', '\\', '\x00', '\r', '\n'] &&
    decide (m.artifactSHA256 = "" ∧ m.artifactBytes = 0) && validInitPath m.initPath

/-- A file that exists and has at most this size. -/
def within (files : Files) (name : String) (maximum : ℤ) : Bool :=
  (files name).any fun data => decide ((data.length : ℤ) ≤ maximum)

def extractTemplateArchive (coding : Coding) (cfg : Config) (broken : String → Bool) (architecture : String)
    (archive : Archive) : Option (TemplateMeta × Files) :=
  match extractLoop cfg broken archive.entries (fun _ => none) [] with
  | none => none
  | some (files, seen) =>
    if archive.malformed ∨ seen.length ≠ templateMembers.length then none
    else
      match (files templateMetadataFilename).bind coding.unmarshal with
      | none => none
      | some m =>
        if validMeta cfg architecture m ∧ within files templateMemoryFilename ((m.memSizeMB + 64) * mebibyte) ∧
            within files templateRootfsFilename (m.diskMB * mebibyte) then some (m, files)
        else none

/-! ### Activation -/

def isHex (c : Char) : Bool := decide ('0' ≤ c ∧ c ≤ '9') || decide ('a' ≤ c ∧ c ≤ 'f')

/-- `managedTemplatePattern`. -/
def managedTemplatePattern (name : String) : Bool :=
  decide (name.toList.take 2 = ['t', '-']) && decide (name.toList.length = 31) && (name.toList.drop 2).all isHex

/-- `validTemplateArtifact`. -/
def validTemplateArtifact (a : TemplateArtifact) : Bool :=
  decide (a.checksum.toList.take 7 = "sha256:".toList) && decide (a.checksum.toList.length = 71) &&
    (a.checksum.toList.drop 7).all isHex && decide (0 < a.sizeBytes ∧ a.sizeBytes ≤ maximumTemplateArtifact)

/-- `installedTemplateArtifact`, of a directory that exists. -/
def installedTemplateArtifact (coding : Coding) (dir : Files) : Option TemplateArtifact :=
  match (dir templateMetadataFilename).bind coding.unmarshal with
  | none => none
  | some m =>
    let artifact : TemplateArtifact := ⟨m.artifactSHA256, m.artifactBytes⟩
    if validTemplateArtifact artifact then some artifact else none

/-- The steps of an activation that touch the disk or the network, in their order. -/
inductive ActivateStep
  | grant
  | staging
  | download
  | extract
  | metadata
  | removeArchive
  | rename
  | syncRoot
  deriving DecidableEq

/-- The template directories of a host, by their names. -/
abbrev Templates := String → Option Files

/-- `ActivateManagedTemplate`: the templates after it, and the artifact unless it fails.  `stop` is the step at which it
fails or is interrupted. -/
def activateManagedTemplate (coding : Coding) (cfg : Config) (templates : Templates) (name format architecture : String)
    (expected : TemplateArtifact) (archive : Archive) (broken : String → Bool) (stop : Option ActivateStep) :
    Templates × Option TemplateArtifact :=
  if ¬ managedTemplatePattern name ∨ format ≠ "firecracker-snapshot-v1" ∨ architecture ≠ cfg.architecture ∨
      ¬ validTemplateArtifact expected then (templates, none)
  else
    match templates name with
    | some dir => (templates, if installedTemplateArtifact coding dir = some expected then some expected else none)
    | none =>
      if stop = some .grant ∨ stop = some .staging ∨ stop = some .download ∨
          coding.checksum archive ≠ expected.checksum ∨ coding.compressedSize archive ≠ expected.sizeBytes then
        (templates, none)
      else
        match extractTemplateArchive coding cfg broken architecture archive with
        | none => (templates, none)
        | some (m, files) =>
          let m := { m with artifactSHA256 := expected.checksum, artifactBytes := expected.sizeBytes }
          let metadata := coding.marshal m
          if stop = some .extract ∨ maximumTemplateMetadata < metadata.length ∨ stop = some .metadata ∨
              stop = some .removeArchive ∨ stop = some .rename then (templates, none)
          else
            (Function.update templates name (some (Function.update files templateMetadataFilename (some metadata))),
              if stop = some .syncRoot then none else some expected)

/-! ### What is written -/

/-- The entry of a file. -/
def entryOf (dir : Files) (name : String) : TarEntry :=
  ⟨true, name, "", ((dir name).getD []).length, (dir name).getD []⟩

/-- A file that can be a member. -/
def Member (dir : Files) (name : String) : Prop :=
  ∃ data, dir name = some data ∧ data ≠ [] ∧ fitsUSTAR data.length = true

variable {dir : Files} {broken : String → Bool} {installed : String → Option TemplateMeta}

theorem writeMembers_some {names : List String} (h : ∀ name ∈ names, Member dir name) :
    writeMembers dir names = some (names.map (entryOf dir)) := by
  induction names with
  | nil => rfl
  | cons name names ih =>
    obtain ⟨data, hdata, hne, hfits⟩ := h name List.mem_cons_self
    have hrest := ih fun n hn => h n (List.mem_cons_of_mem _ hn)
    simp [writeMembers, hdata, hne, hfits, hrest, entryOf]

theorem member_of_writeMembers {names : List String} {entries : List TarEntry}
    (h : writeMembers dir names = some entries) : ∀ name ∈ names, Member dir name := by
  induction names generalizing entries with
  | nil => simp
  | cons name names ih =>
    unfold writeMembers at h
    split at h
    · cases h
    next data hdata =>
      split_ifs at h with hbad
      obtain ⟨rest, hrest, _⟩ := Option.map_eq_some_iff.mp h
      rw [not_or, not_not] at hbad
      intro n hn
      rcases List.mem_cons.mp hn with rfl | hn
      · exact ⟨data, hdata, hbad.1, hbad.2⟩
      · exact ih hrest n hn

/-! ### What is extracted -/

/-- The files of a directory that have some names, where there were others. -/
def withMembers (dir : Files) (names : List String) (files : Files) : Files := fun n =>
  if n ∈ names then dir n else files n

variable {cfg : Config} {name : String}

theorem extractLoop_members (names : List String) :
    ∀ (files : Files) (seen : List String), names.Nodup → (∀ n ∈ names, n ∉ seen) → (∀ n ∈ names, files n = none) →
      (∀ n ∈ names, base n = n ∧ ∃ data limit, dir n = some data ∧ data ≠ [] ∧ limits cfg n = some limit ∧
        (data.length : ℤ) ≤ limit) →
      extractLoop cfg (fun _ => false) (names.map (entryOf dir)) files seen =
        some (withMembers dir names files, names.reverse ++ seen) := by
  induction names with
  | nil =>
    intro files seen _ _ _ _
    have hsame : withMembers dir [] files = files := by
      funext n
      simp [withMembers]
    rw [hsame]
    rfl
  | cons name names ih =>
    intro files seen hnodup hseen hfiles hmembers
    obtain ⟨hname, hnodup⟩ := List.nodup_cons.mp hnodup
    obtain ⟨hbase, data, limit, hdata, hne, hlimit, hle⟩ := hmembers name List.mem_cons_self
    have hpos : 0 < (data.length : ℤ) := by
      have := List.length_pos_iff.mpr hne
      omega
    have hnew : ∀ n ∈ names, n ≠ name := fun n hn heq => hname (heq ▸ hn)
    have hrest := ih (Function.update files name (some data)) (name :: seen) hnodup
      (fun n hn hmem => (List.mem_cons.mp hmem).elim (hnew n hn) (hseen n (List.mem_cons_of_mem _ hn)))
      (fun n hn => by
        rw [Function.update_of_ne (hnew n hn)]
        exact hfiles n (List.mem_cons_of_mem _ hn))
      (fun n hn => hmembers n (List.mem_cons_of_mem _ hn))
    have hentry : entryOf dir name = ⟨true, name, "", data.length, data⟩ := by
      simp [entryOf, hdata]
    have hseen' := hseen name List.mem_cons_self
    have hfiles' := hfiles name List.mem_cons_self
    rw [List.map_cons, hentry, extractLoop]
    simp only [not_true, ne_eq, hseen', or_self, if_false, hlimit, hbase, not_lt.mpr hle, not_le.mpr hpos, hfiles',
      Option.isSome_none, Bool.false_eq_true, lt_irrefl, Int.toNat_natCast, List.take_length]
    rw [hrest, List.reverse_cons, List.append_assoc]
    congr 2
    funext n
    unfold withMembers
    by_cases heq : n = name
    · subst heq
      simp [hname, hdata]
    · simp [heq]

/-- The names of the entries of an archive that is accepted. -/
theorem extractLoop_names (entries : List TarEntry) :
    ∀ {files files' : Files} {seen seen' : List String},
      extractLoop cfg broken entries files seen = some (files', seen') → seen.Nodup →
        seen' = (entries.map TarEntry.name).reverse ++ seen ∧ seen'.Nodup ∧
          (∀ e ∈ entries, e.regular = true ∧ (limits cfg e.name).isSome ∧ base e.name = e.name ∧
            files' e.name = some (e.data.take e.size.toNat)) ∧
          ∀ n, n ∉ entries.map TarEntry.name → files' n = files n := by
  induction entries with
  | nil =>
    intro files files' seen seen' h hnodup
    cases h
    exact ⟨rfl, hnodup, by simp, fun _ _ => rfl⟩
  | cons e entries ih =>
    intro files files' seen seen' h hnodup
    rw [extractLoop] at h
    split at h
    · cases h
    next hbad =>
    split at h
    · cases h
    next limit hlimit =>
      split_ifs at h with hsize
      rw [not_or, not_or, not_not, not_not] at hbad
      rw [not_or, not_or, not_not] at hsize
      obtain ⟨hseen, hnodup', hall, hfiles⟩ := ih h (List.nodup_cons.mpr ⟨hbad.2.2, hnodup⟩)
      refine ⟨?_, hnodup', fun e' he' => ?_, fun n hn => ?_⟩
      · rw [hseen, List.map_cons, List.reverse_cons, List.append_assoc]
        rfl
      · rcases List.mem_cons.mp he' with rfl | he'
        · refine ⟨hbad.1, by rw [hlimit]; rfl, hsize.2.2, ?_⟩
          -- no entry after this one has its name
          have hlast : e'.name ∉ entries.map TarEntry.name := by
            intro hmem
            rw [hseen, List.nodup_append] at hnodup'
            exact hnodup'.2.2 _ (List.mem_reverse.mpr hmem) _ List.mem_cons_self rfl
          rw [hfiles e'.name hlast, Function.update_self]
        · exact hall e' he'
      · rw [List.map_cons, List.mem_cons, not_or] at hn
        rw [hfiles n hn.2, Function.update_of_ne hn.1]

theorem mem_templateMembers (h : (limits cfg name).isSome) : name ∈ templateMembers := by
  unfold limits at h
  unfold templateMembers
  split_ifs at h <;> simp_all

/-! ### What a machine has -/

theorem utf8Size_nameChar {c : Char} (h : (isNameChar c || c == '-') = true) : c.utf8Size = 1 := by
  rw [Char.utf8Size_eq_one_iff]
  simp only [isNameChar, Bool.or_eq_true, decide_eq_true_eq, beq_iff_eq] at h
  rcases h with (⟨_, h⟩ | ⟨_, h⟩) | h
  · exact UInt32.le_trans (Char.le_def.mp h) (show 'z'.val ≤ 127 by decide)
  · exact UInt32.le_trans (Char.le_def.mp h) (show '9'.val ≤ 127 by decide)
  · subst h
    decide

/-- The name of a template that machines are made of. -/
def usableName (name : String) : Prop :=
  (name ≠ "" ∧ byteLength name ≤ 64) ∧ containsAny name ['/', '\\', '\x00', '\r', '\n'] = false

theorem templateNameRe_chars (h : templateNameRe name = true) :
    name.toList ≠ [] ∧ name.toList.length ≤ 32 ∧ ∀ c ∈ name.toList, (isNameChar c || c == '-') = true := by
  unfold templateNameRe at h
  split at h
  · cases h
  next c rest hlist =>
    simp only [Bool.and_eq_true, decide_eq_true_eq, List.all_eq_true] at h
    obtain ⟨⟨hc, hlength⟩, hall⟩ := h
    rw [hlist]
    refine ⟨List.cons_ne_nil _ _, by simp only [List.length_cons]; omega, fun c' hc' => ?_⟩
    rcases List.mem_cons.mp hc' with rfl | hc'
    · simp [hc]
    · exact hall c' hc'

theorem usableName_of_re (h : templateNameRe name = true) : usableName name := by
  obtain ⟨hne, hlength, hchars⟩ := templateNameRe_chars h
  refine ⟨⟨fun heq => hne (by rw [heq]; rfl), ?_⟩, ?_⟩
  · have hsizes : name.toList.map Char.utf8Size = name.toList.map fun _ => 1 :=
      List.map_congr_left fun c hc => utf8Size_nameChar (hchars c hc)
    unfold byteLength
    rw [hsizes]
    simp only [List.map_const', List.sum_replicate, smul_eq_mul, mul_one]
    omega
  · rw [containsAny, List.any_eq_false]
    intro c hc hbad
    have hname := hchars c hc
    simp only [List.contains_eq_mem, List.mem_cons, List.not_mem_nil, or_false, decide_eq_true_eq] at hbad
    rcases hbad with rfl | rfl | rfl | rfl | rfl <;> exact absurd hname (by decide)

/-- What `create` says of a machine. -/
structure Created (cfg : Config) (m : Machine) : Prop where
  usable : usableName m.template
  memory : 0 < m.memoryMB
  disk : 0 < m.diskMB ∧ m.diskMB ≤ cfg.overlayQuotaMB
  overlay : 0 < m.overlayBytes ∧ m.overlayBytes ≤ m.diskMB * mebibyte

theorem template_memory (installed : String → Option TemplateMeta) (name : String) :
    0 < (template installed name).memSizeMB := by
  unfold template
  simp only
  generalize (if name = "" then "python" else name) = name'
  split_ifs
  · decide
  · split
    next m hm =>
      unfold loadTemplateMeta at hm
      split_ifs at hm
      simpa using (Option.filter_eq_some_iff.mp hm).2
    · show (0 : ℤ) < 256
      decide

theorem requestedTemplate_spec {r : Resources} {tpl : Template} {requestedMB : ℤ}
    (h : requestedTemplate cfg installed name r = some (tpl, requestedMB)) :
    usableName name ∧ 0 < tpl.memSizeMB ∧ 0 ≤ requestedMB ∧ requestedMB ≤ cfg.overlayQuotaMB := by
  have hmemory := template_memory installed name
  unfold requestedTemplate at h
  split at h
  · cases h
  next hinstalled =>
  have husable : usableName name := by
    by_cases hpython : name = "python"
    · subst hpython
      exact usableName_of_re (by decide)
    by_cases hdesktop : name = "desktop"
    · subst hdesktop
      exact usableName_of_re (by decide)
    have hre : templateNameRe name = true := by
      by_contra hre
      exact hinstalled ⟨hpython, hdesktop, by simp [loadTemplateMeta, hre]⟩
    exact usableName_of_re hre
  split at h
  · cases h
  next hneg =>
  split at h
  · cases h
  next hmax =>
  rw [not_or, not_or, not_lt, not_lt, not_lt] at hneg hmax
  refine ⟨husable, ?_⟩
  split_ifs at h with hvcpus hmem hsmall hmem hsmall <;> cases h
  · exact ⟨hmem, hneg.2.2, hmax.2.2⟩
  · exact ⟨hmemory, hneg.2.2, hmax.2.2⟩
  · exact ⟨hmem, hneg.2.2, hmax.2.2⟩
  · exact ⟨hmemory, hneg.2.2, hmax.2.2⟩

theorem create_spec {r : Resources} {baseBytes : ℤ} {m : Machine} (h : create cfg installed name r baseBytes = some m)
    (hbase : 0 < baseBytes) :
    Created cfg m := by
  unfold create at h
  split at h
  · cases h
  next tpl requestedMB hrequested =>
    obtain ⟨husable, hmemory, hzero, hquota⟩ := requestedTemplate_spec hrequested
    split_ifs at h with hlarge hsmall hpos hnone hnone
    · omega
    · cases h
      refine ⟨husable, hmemory, ⟨hpos, hquota⟩, ?_⟩
      show 0 < requestedMB * mebibyte ∧ requestedMB * mebibyte ≤ requestedMB * mebibyte
      exact ⟨mul_pos hpos (by decide), le_rfl⟩
    · cases h
      refine ⟨husable, hmemory, ?_, ?_⟩
      · show 0 < (baseBytes + mebibyte - 1) / mebibyte ∧ (baseBytes + mebibyte - 1) / mebibyte ≤ cfg.overlayQuotaMB
        unfold mebibyte at hlarge ⊢
        omega
      · show 0 < baseBytes ∧ baseBytes ≤ (baseBytes + mebibyte - 1) / mebibyte * mebibyte
        unfold mebibyte
        omega
    · omega

/-! ### From host to host -/

theorem rootfsLimit_eq (cfg : Config) : rootfsLimit cfg = cfg.overlayQuotaMB * mebibyte := by
  have := cfg.overlayQuotaMB_pos
  unfold rootfsLimit mebibyte
  simp only
  split_ifs <;> omega

theorem memoryLimit_eq (cfg : Config) : memoryLimit cfg = (cfg.maxMemoryMB + 64) * mebibyte := by
  have := cfg.maxMemoryMB_pos
  unfold memoryLimit mebibyte
  simp only
  split_ifs <;> omega

/-- What Firecracker and the overlay leave of a machine: all of its memory, its disk, and the state of its devices. -/
structure TakenFrom (m : Machine) (s : Snapshot) : Prop where
  memory : (s.memory.length : ℤ) = m.memoryMB * mebibyte
  rootfs : (s.rootfs.length : ℤ) = m.overlayBytes
  state : s.state ≠ [] ∧ (s.state.length : ℤ) ≤ maximumTemplateSnapshot

/-- The entries of a snapshot. -/
def archiveOf (coding : Coding) (m : TemplateMeta) (s : Snapshot) : Archive :=
  ⟨templateMembers.map (entryOf (snapshotDir s (coding.marshal m))), false⟩

def artifactOf (coding : Coding) (archive : Archive) : TemplateArtifact :=
  ⟨coding.checksum archive, coding.compressedSize archive⟩

/-- The metadata of a template that is installed. -/
def installedMeta (m : TemplateMeta) (a : TemplateArtifact) : TemplateMeta :=
  { m with artifactSHA256 := a.checksum, artifactBytes := a.sizeBytes }

/-- The metadata is read back from its text, which is small, and the artifact has a digest and is within its limit. -/
structure Coding.Faithful (coding : Coding) (m : TemplateMeta) (s : Snapshot) : Prop where
  read : coding.unmarshal (coding.marshal m) = some m
  size : coding.marshal m ≠ [] ∧ ((coding.marshal m).length : ℤ) ≤ maximumTemplateMetadata
  artifact : validTemplateArtifact (artifactOf coding (archiveOf coding m s)) = true
  readInstalled : coding.unmarshal (coding.marshal (installedMeta m (artifactOf coding (archiveOf coding m s)))) =
    some (installedMeta m (artifactOf coding (archiveOf coding m s)))
  sizeInstalled : ((coding.marshal (installedMeta m (artifactOf coding (archiveOf coding m s)))).length : ℤ) ≤
    maximumTemplateMetadata

/-- A snapshot that the header format can hold, of a machine within the maxima of the host. -/
def exportable (cfg : Config) (m : TemplateMeta) (s : Snapshot) : Bool :=
  fitsUSTAR s.memory.length && fitsUSTAR s.rootfs.length && decide (m.memSizeMB ≤ cfg.maxMemoryMB) &&
    decide (0 < m.vcpus ∧ m.vcpus ≤ cfg.maxVCPUs) && validInitPath m.initPath

/-- The archive of a snapshot is written, and is installed on a host of the same configuration with the same files and
metadata. -/
def RoundTrips (coding : Coding) (cfg : Config) (templates : Templates) (name : String) (m : TemplateMeta)
    (s : Snapshot) : Prop :=
  ∃ archive dir, exportArchive coding m s = some archive ∧
    activateManagedTemplate coding cfg templates name "firecracker-snapshot-v1" cfg.architecture
      (artifactOf coding archive) archive (fun _ => false) none =
        (Function.update templates name (some dir), some (artifactOf coding archive)) ∧
    dir templateMemoryFilename = some s.memory ∧ dir templateRootfsFilename = some s.rootfs ∧
    dir templateSnapshotFilename = some s.state ∧
    (dir templateMetadataFilename).bind coding.unmarshal = some (installedMeta m (artifactOf coding archive))

/-- The directory of a template that is installed from a snapshot. -/
def installedDir (coding : Coding) (m : TemplateMeta) (s : Snapshot) (a : TemplateArtifact) : Files :=
  Function.update (withMembers (snapshotDir s (coding.marshal m)) templateMembers fun _ => none) templateMetadataFilename
    (some (coding.marshal (installedMeta m a)))

theorem fitsUSTAR_of_le {n limit : ℤ} (hzero : 0 ≤ n) (hle : n ≤ limit) (hlimit : limit < 8 ^ 11) : fitsUSTAR n = true := by
  unfold fitsUSTAR
  exact decide_eq_true ⟨hzero, lt_of_le_of_lt hle hlimit⟩

section

variable {coding : Coding} {cfg : Config} {installed : String → Option TemplateMeta} {machine : Machine} {s : Snapshot}
    {hadNIC : Bool} {createdAt : String} {m : TemplateMeta}

theorem exported {archive : Archive} (h : exportArchive coding m s = some archive) :
    archive = archiveOf coding m s ∧ fitsUSTAR s.memory.length = true ∧ fitsUSTAR s.rootfs.length = true := by
  unfold exportArchive writeTemplateArchive at h
  simp only at h
  split_ifs at h
  split at h
  · cases h
  next entries hentries =>
    split_ifs at h
    have hmember := member_of_writeMembers hentries
    rw [writeMembers_some hmember] at hentries
    cases h
    cases hentries
    refine ⟨rfl, ?_, ?_⟩
    · obtain ⟨data, hdata, _, hfits⟩ := hmember templateMemoryFilename (by decide)
      cases hdata
      exact hfits
    · obtain ⟨data, hdata, _, hfits⟩ := hmember templateRootfsFilename (by decide)
      cases hdata
      exact hfits

/-- The metadata that the importer accepts is what was exported. -/
theorem extracted_meta {m' : TemplateMeta} {broken : String → Bool} {architecture : String} {files : Files}
    (hread : coding.unmarshal (coding.marshal m) = some m)
    (h : extractTemplateArchive coding cfg broken architecture (archiveOf coding m s) = some (m', files)) :
    m' = m ∧ validMeta cfg architecture m = true := by
  unfold extractTemplateArchive at h
  split at h
  · cases h
  next files' seen hloop =>
    split_ifs at h
    split at h
    · cases h
    next meta' hmeta =>
      split_ifs at h with hvalid
      cases h
      have hcontent := (extractLoop_names _ hloop List.nodup_nil).2.2.1
        (entryOf (snapshotDir s (coding.marshal m)) templateMetadataFilename)
        (List.mem_map.mpr ⟨templateMetadataFilename, by decide, rfl⟩)
      have hfile : files templateMetadataFilename = some (coding.marshal m) := by
        refine hcontent.2.2.2.trans ?_
        show some ((coding.marshal m).take ((coding.marshal m).length : ℤ).toNat) = _
        rw [Int.toNat_natCast, List.take_length]
      rw [hfile, Option.bind_some, hread] at hmeta
      cases hmeta
      exact ⟨rfl, hvalid.1⟩

/-- The files of a snapshot can be members, and are within the limits of a host of the same configuration. -/
theorem snapshot_members (hm : Created cfg machine) (hs : TakenFrom machine s) (hc : coding.Faithful m s)
    (hmemory : m.memSizeMB = machine.memoryMB) (h : exportable cfg m s = true) :
    ∀ n ∈ templateMembers, Member (snapshotDir s (coding.marshal m)) n ∧ base n = n ∧
      ∃ data limit, snapshotDir s (coding.marshal m) n = some data ∧ data ≠ [] ∧ limits cfg n = some limit ∧
        (data.length : ℤ) ≤ limit := by
  simp only [exportable, Bool.and_eq_true, decide_eq_true_eq] at h
  obtain ⟨⟨⟨⟨hfitsMemory, hfitsRootfs⟩, hmax⟩, _⟩, _⟩ := h
  have hmem : s.memory ≠ [] := by
    intro heq
    have hlength := hs.memory
    have hpos := mul_pos hm.memory (show 0 < mebibyte by decide)
    rw [heq, List.length_nil] at hlength
    omega
  have hroot : s.rootfs ≠ [] := by
    intro heq
    have hlength := hs.rootfs
    have hpos := hm.overlay.1
    rw [heq, List.length_nil] at hlength
    omega
  have hfitsMeta : fitsUSTAR (coding.marshal m).length = true :=
    fitsUSTAR_of_le (Int.natCast_nonneg _) hc.size.2 (by decide)
  have hfitsState : fitsUSTAR s.state.length = true :=
    fitsUSTAR_of_le (Int.natCast_nonneg _) hs.state.2 (by decide)
  intro n hn
  simp only [templateMembers, List.mem_cons, List.not_mem_nil, or_false] at hn
  rcases hn with rfl | rfl | rfl | rfl
  · refine ⟨⟨s.memory, rfl, hmem, hfitsMemory⟩, by decide, s.memory, memoryLimit cfg, rfl, hmem, rfl, ?_⟩
    rw [hs.memory, memoryLimit_eq]
    unfold mebibyte
    omega
  · exact ⟨⟨coding.marshal m, rfl, hc.size.1, hfitsMeta⟩, by decide, coding.marshal m, maximumTemplateMetadata, rfl,
      hc.size.1, rfl, hc.size.2⟩
  · refine ⟨⟨s.rootfs, rfl, hroot, hfitsRootfs⟩, by decide, s.rootfs, rootfsLimit cfg, rfl, hroot, rfl, ?_⟩
    have hoverlay := hm.overlay.2
    have hdisk := hm.disk.2
    rw [hs.rootfs, rootfsLimit_eq]
    unfold mebibyte at hoverlay ⊢
    omega
  · exact ⟨⟨s.state, rfl, hs.state.1, hfitsState⟩, by decide, s.state, maximumTemplateSnapshot, rfl, hs.state.1, rfl,
      hs.state.2⟩

theorem exportArchive_some (hm : Created cfg machine) (hs : TakenFrom machine s) (hc : coding.Faithful m s)
    (hmemory : m.memSizeMB = machine.memoryMB) (h : exportable cfg m s = true) :
    exportArchive coding m s = some (archiveOf coding m s) := by
  have hmembers := writeMembers_some fun n hn => (snapshot_members hm hs hc hmemory h n hn).1
  have hartifact := hc.artifact
  simp only [validTemplateArtifact, artifactOf, archiveOf, Bool.and_eq_true] at hartifact
  have hsize := of_decide_eq_true hartifact.2
  unfold exportArchive writeTemplateArchive
  simp only [hmembers]
  rw [if_neg (by rw [not_or, not_lt]; exact hc.size), if_neg (by rw [not_or, not_le, not_lt]; exact hsize)]
  rfl

theorem validMeta_of_exportable (hm : Created cfg machine)
    (h : exportable cfg (metaOf cfg installed machine hadNIC createdAt) s = true) :
    validMeta cfg cfg.architecture (metaOf cfg installed machine hadNIC createdAt) = true := by
  simp only [exportable, Bool.and_eq_true, decide_eq_true_eq] at h
  obtain ⟨⟨⟨_, hmax⟩, hvcpus⟩, hinit⟩ := h
  have hdisk : machine.diskMB * mebibyte ≤ rootfsLimit cfg := by
    have := hm.disk.2
    rw [rootfsLimit_eq]
    unfold mebibyte
    omega
  simp only [validMeta, Bool.and_eq_true, decide_eq_true_eq, Bool.not_eq_true']
  exact ⟨⟨⟨⟨⟨⟨⟨⟨rfl, rfl⟩, hm.memory, hmax⟩, hvcpus⟩, hm.disk.1, hdisk⟩, hm.usable.1⟩, hm.usable.2⟩, rfl, rfl⟩, hinit⟩

theorem extract_some (hm : Created cfg machine) (hs : TakenFrom machine s)
    (hc : coding.Faithful (metaOf cfg installed machine hadNIC createdAt) s)
    (h : exportable cfg (metaOf cfg installed machine hadNIC createdAt) s = true) :
    extractTemplateArchive coding cfg (fun _ => false) cfg.architecture
        (archiveOf coding (metaOf cfg installed machine hadNIC createdAt) s) =
      some (metaOf cfg installed machine hadNIC createdAt,
        withMembers (snapshotDir s (coding.marshal (metaOf cfg installed machine hadNIC createdAt))) templateMembers
          fun _ => none) := by
  have hloop := extractLoop_members templateMembers (fun _ => none) [] (by decide) (fun _ _ => List.not_mem_nil)
    (fun _ _ => rfl) (fun n hn => (snapshot_members hm hs hc rfl h n hn).2)
  have hread : ((withMembers (snapshotDir s (coding.marshal (metaOf cfg installed machine hadNIC createdAt)))
      templateMembers fun _ => none) templateMetadataFilename).bind coding.unmarshal =
        some (metaOf cfg installed machine hadNIC createdAt) := hc.read
  have hmemory : within (withMembers (snapshotDir s (coding.marshal (metaOf cfg installed machine hadNIC createdAt)))
      templateMembers fun _ => none) templateMemoryFilename ((machine.memoryMB + 64) * mebibyte) = true := by
    show decide ((s.memory.length : ℤ) ≤ (machine.memoryMB + 64) * mebibyte) = true
    rw [decide_eq_true_eq, hs.memory]
    unfold mebibyte
    omega
  have hrootfs : within (withMembers (snapshotDir s (coding.marshal (metaOf cfg installed machine hadNIC createdAt)))
      templateMembers fun _ => none) templateRootfsFilename (machine.diskMB * mebibyte) = true := by
    show decide ((s.rootfs.length : ℤ) ≤ machine.diskMB * mebibyte) = true
    rw [decide_eq_true_eq, hs.rootfs]
    exact hm.overlay.2
  unfold extractTemplateArchive
  rw [show (archiveOf coding (metaOf cfg installed machine hadNIC createdAt) s).entries =
    templateMembers.map (entryOf (snapshotDir s (coding.marshal (metaOf cfg installed machine hadNIC createdAt)))) from rfl,
    hloop]
  simp only
  rw [if_neg (by simp [archiveOf]), hread]
  exact if_pos ⟨validMeta_of_exportable hm h, hmemory, hrootfs⟩

/-- **When a snapshot goes from host to host.** -/
theorem roundTrips_iff (hm : Created cfg machine) (hs : TakenFrom machine s)
    (hc : coding.Faithful (metaOf cfg installed machine hadNIC createdAt) s) {templates : Templates} {name : String}
    (hname : managedTemplatePattern name = true) (hfree : templates name = none) :
    RoundTrips coding cfg templates name (metaOf cfg installed machine hadNIC createdAt) s ↔
      exportable cfg (metaOf cfg installed machine hadNIC createdAt) s = true := by
  constructor
  · rintro ⟨archive, dir, hexport, hactivate, _⟩
    obtain ⟨rfl, hfitsMemory, hfitsRootfs⟩ := exported hexport
    have hvalid : validMeta cfg cfg.architecture (metaOf cfg installed machine hadNIC createdAt) = true := by
      unfold activateManagedTemplate at hactivate
      simp only [hname, hc.artifact, hfree] at hactivate
      cases hextract : extractTemplateArchive coding cfg (fun _ => false) cfg.architecture
          (archiveOf coding (metaOf cfg installed machine hadNIC createdAt) s) with
      | none => simp [hextract, artifactOf] at hactivate
      | some extracted => exact (extracted_meta hc.read hextract).2
    simp only [validMeta, Bool.and_eq_true, decide_eq_true_eq] at hvalid
    obtain ⟨⟨⟨⟨⟨⟨⟨_, hmax⟩, hvcpus⟩, _⟩, _⟩, _⟩, _⟩, hinit⟩ := hvalid
    simp only [exportable, Bool.and_eq_true, decide_eq_true_eq]
    exact ⟨⟨⟨⟨hfitsMemory, hfitsRootfs⟩, hmax.2⟩, hvcpus⟩, hinit⟩
  · intro h
    have hinstalled := hc.sizeInstalled
    refine ⟨archiveOf coding (metaOf cfg installed machine hadNIC createdAt) s,
      installedDir coding (metaOf cfg installed machine hadNIC createdAt) s
        (artifactOf coding (archiveOf coding (metaOf cfg installed machine hadNIC createdAt) s)),
      exportArchive_some hm hs hc rfl h, ?_, rfl, rfl, rfl, hc.readInstalled⟩
    unfold activateManagedTemplate
    rw [if_neg (by simp [hname, hc.artifact])]
    simp only [hfree]
    rw [if_neg (by simp [artifactOf]), extract_some hm hs hc h]
    simp only
    rw [if_neg (by simpa [installedMeta, artifactOf] using hinstalled)]
    rfl

end

/-! ### What is accepted, and what is left of a failure -/

/-- The entries of an archive that is accepted are the four files, once each. -/
theorem extract_members {coding : Coding} {architecture : String} {archive : Archive} {m : TemplateMeta} {files : Files}
    (h : extractTemplateArchive coding cfg broken architecture archive = some (m, files)) :
    archive.malformed = false ∧ (archive.entries.map TarEntry.name).Perm templateMembers ∧
      (∀ e ∈ archive.entries, e.regular = true ∧ base e.name = e.name ∧
        files e.name = some (e.data.take e.size.toNat)) ∧
      ∀ n, n ∉ templateMembers → files n = none := by
  unfold extractTemplateArchive at h
  split at h
  · cases h
  next files' seen hloop =>
    split_ifs at h with hbad
    rw [not_or, not_not, Bool.not_eq_true] at hbad
    split at h
    · cases h
    next meta' hmeta =>
      split_ifs at h
      cases h
      obtain ⟨hseen, hnodup, hall, hrest⟩ := extractLoop_names _ hloop List.nodup_nil
      have hsubset : archive.entries.map TarEntry.name ⊆ templateMembers := by
        intro n hn
        obtain ⟨e, he, rfl⟩ := List.mem_map.mp hn
        exact mem_templateMembers (hall e he).2.1
      have hnames : (archive.entries.map TarEntry.name).Nodup := by
        rw [hseen, List.append_nil, List.nodup_reverse] at hnodup
        exact hnodup
      have hlength : (archive.entries.map TarEntry.name).length = templateMembers.length := by
        rw [← hbad.2, hseen, List.append_nil, List.length_reverse]
      refine ⟨hbad.1, (hnames.subperm hsubset).perm_of_length_le hlength.ge, fun e he => ?_, fun n hn => ?_⟩
      · exact ⟨(hall e he).1, (hall e he).2.2.1, (hall e he).2.2.2⟩
      · exact hrest n fun hmem => hn (hsubset hmem)

theorem activate_failed {coding : Coding} {templates : Templates} {format architecture : String}
    {expected : TemplateArtifact} {archive : Archive} {stop : Option ActivateStep} (hstop : stop ≠ some .syncRoot)
    (h : (activateManagedTemplate coding cfg templates name format architecture expected archive broken stop).2 =
      none) :
    (activateManagedTemplate coding cfg templates name format architecture expected archive broken stop).1 =
      templates := by
  unfold activateManagedTemplate at h ⊢
  split
  · rfl
  next hrequest =>
  split
  · rfl
  next hfree =>
  split
  · rfl
  next hdownload =>
  split
  · rfl
  next m files hextract =>
    simp only
    split
    · rfl
    next hlate =>
      -- only the last step comes after the rename
      rw [if_neg hrequest] at h
      simp only [hfree, if_neg hdownload, hextract, if_neg hlate, if_neg hstop] at h
      cases h

/-- **Template archives go from host to host.**  The snapshot of a machine that the host admits, whose compressed archive
is within the limit, is written and is installed on a host of the same configuration, with the same files and metadata,
exactly when its memory and its disk fit the size field of the header and its resources are within the maxima.  An archive
that is accepted has the four files once each, and nothing else is written.  An import that fails or is interrupted
leaves the templates as they were, unless the rename was done. -/
theorem template_archives (coding : Coding) (cfg : Config) :
    (∀ (installed installed' : String → Option TemplateMeta) (template : String) (r : Resources) (baseBytes : ℤ)
      (machine : Machine) (s : Snapshot) (hadNIC : Bool) (createdAt : String) (templates : Templates) (name : String),
      create cfg installed template r baseBytes = some machine → 0 < baseBytes → TakenFrom machine s →
        coding.Faithful (metaOf cfg installed' machine hadNIC createdAt) s → managedTemplatePattern name = true →
        templates name = none →
        (RoundTrips coding cfg templates name (metaOf cfg installed' machine hadNIC createdAt) s ↔
          exportable cfg (metaOf cfg installed' machine hadNIC createdAt) s = true)) ∧
    (∀ (broken : String → Bool) (architecture : String) (archive : Archive) (m : TemplateMeta) (files : Files),
      extractTemplateArchive coding cfg broken architecture archive = some (m, files) →
        archive.malformed = false ∧ (archive.entries.map TarEntry.name).Perm templateMembers ∧
        (∀ e ∈ archive.entries, e.regular = true ∧ base e.name = e.name ∧
          files e.name = some (e.data.take e.size.toNat)) ∧
        ∀ n, n ∉ templateMembers → files n = none) ∧
    ∀ (templates : Templates) (name format architecture : String) (expected : TemplateArtifact) (archive : Archive)
      (broken : String → Bool) (stop : Option ActivateStep), stop ≠ some .syncRoot →
      (activateManagedTemplate coding cfg templates name format architecture expected archive broken stop).2 = none →
        (activateManagedTemplate coding cfg templates name format architecture expected archive broken stop).1 =
          templates := by
  refine ⟨fun installed installed' template r baseBytes machine s hadNIC createdAt templates name hcreate hbase hs hc
    hname hfree => ?_, fun _ _ _ _ _ h => extract_members h, fun _ _ _ _ _ _ _ _ hstop h => activate_failed hstop h⟩
  exact roundTrips_iff (create_spec hcreate hbase) hs hc hname hfree

/-! ### A disk of eight gibibytes -/

def asciiContents (s : String) : Contents := s.toList.map fun c => UInt8.ofNat c.toNat

def defaultConfig : Config := ⟨"x86_64", 20480, 4096, 4, by decide, by decide, by decide⟩

/-- A machine of the standard template with this disk. -/
def machineWithDisk (diskMB : ℤ) : Machine := ⟨"python", 1, 256, diskMB, diskMB * mebibyte⟩

def metaWithDisk (diskMB : ℤ) : TemplateMeta :=
  metaOf defaultConfig (fun _ => none) (machineWithDisk diskMB) false "2026-01-01T00:00:00Z"

/-- Its memory and disk have only zeros. -/
def snapshotWithDisk (diskMB : ℕ) : Snapshot :=
  ⟨List.replicate (256 * 1048576) 0, List.replicate (diskMB * 1048576) 0, [0]⟩

def digest : String := "sha256:5cde0f1298f41f7d1c8b907a36992a7a513225a2615bd6e307bf1a9149b06b40"

/-- The lines that the installed metadata has besides. -/
def artifactLines : String :=
  "  \"artifact_sha256\": \"" ++ digest ++ "\",\n  \"artifact_bytes\": 900000,\n"

/-- The metadata as `MarshalIndent` writes it; `disk` is the text of the size of the disk. -/
def metaText (disk lines : String) : Contents :=
  asciiContents ("\x7b\n  \"mem_size_mb\": 256,\n  \"vcpus\": 1,\n  \"disk_mb\": " ++ disk ++
    ",\n  \"vsock\": true,\n  \"display\": false,\n  \"had_nic\": false,\n  \"source_template\": \"python\",\n" ++
    "  \"architecture\": \"x86_64\",\n" ++ lines ++ "  \"created_at\": \"2026-01-01T00:00:00Z\"\n\x7d")

/-- The texts of the metadata before and after it is installed. -/
def textCoding (diskMB : ℤ) (disk : String) : Coding where
  marshal m :=
    if m = metaWithDisk diskMB then metaText disk ""
    else if m = installedMeta (metaWithDisk diskMB) ⟨digest, 900000⟩ then metaText disk artifactLines
    else []
  unmarshal raw :=
    if raw = metaText disk "" then some (metaWithDisk diskMB)
    else if raw = metaText disk artifactLines then some (installedMeta (metaWithDisk diskMB) ⟨digest, 900000⟩)
    else none
  compressedSize _ := 900000
  checksum _ := digest

theorem textCoding_faithful (diskMB : ℤ) {disk : String} (s : Snapshot)
    (hne : metaText disk artifactLines ≠ metaText disk "")
    (hshort : ∀ lines ∈ ["", artifactLines], metaText disk lines ≠ [] ∧
      ((metaText disk lines).length : ℤ) ≤ maximumTemplateMetadata) :
    (textCoding diskMB disk).Faithful (metaWithDisk diskMB) s := by
  have hinstalled : installedMeta (metaWithDisk diskMB) ⟨digest, 900000⟩ ≠ metaWithDisk diskMB := by
    intro heq
    have hbytes : (900000 : ℤ) = 0 := congrArg TemplateMeta.artifactBytes heq
    omega
  have hartifact : artifactOf (textCoding diskMB disk) (archiveOf (textCoding diskMB disk) (metaWithDisk diskMB) s) =
      ⟨digest, 900000⟩ := rfl
  refine ⟨?_, ?_, ?_, ?_, ?_⟩
  · simp [textCoding]
  · simp only [textCoding, if_true]
    exact hshort _ List.mem_cons_self
  · rw [hartifact]
    decide +kernel
  · rw [hartifact]
    simp only [textCoding, hinstalled, hne, if_false, if_true]
  · rw [hartifact]
    simp only [textCoding, hinstalled, if_false, if_true]
    exact (hshort _ (List.mem_cons_of_mem _ List.mem_cons_self)).2

theorem snapshotWithDisk_memory (diskMB : ℕ) : ((snapshotWithDisk diskMB).memory.length : ℤ) = 256 * mebibyte := by
  unfold snapshotWithDisk
  rw [List.length_replicate]
  rfl

theorem snapshotWithDisk_rootfs (diskMB : ℕ) : ((snapshotWithDisk diskMB).rootfs.length : ℤ) = diskMB * mebibyte := by
  unfold snapshotWithDisk
  rw [List.length_replicate, Nat.cast_mul]
  rfl

theorem snapshotWithDisk_taken (diskMB : ℕ) : TakenFrom (machineWithDisk diskMB) (snapshotWithDisk diskMB) where
  memory := snapshotWithDisk_memory diskMB
  rootfs := snapshotWithDisk_rootfs diskMB
  state := by
    refine ⟨List.cons_ne_nil _ _, ?_⟩
    show ((1 : ℕ) : ℤ) ≤ maximumTemplateSnapshot
    decide

/-- The host admits a machine with a disk of 8192 MiB, of which no archive is written. -/
theorem largeDisk_not_exported :
    create defaultConfig (fun _ => none) "python" ⟨0, 0, 8192⟩ mebibyte = some (machineWithDisk 8192) ∧
      TakenFrom (machineWithDisk 8192) (snapshotWithDisk 8192) ∧
      (textCoding 8192 "8192").Faithful (metaWithDisk 8192) (snapshotWithDisk 8192) ∧
      exportArchive (textCoding 8192 "8192") (metaWithDisk 8192) (snapshotWithDisk 8192) = none := by
  refine ⟨rfl, snapshotWithDisk_taken 8192, textCoding_faithful 8192 _ (by decide +kernel) (by decide +kernel), ?_⟩
  cases h : exportArchive (textCoding 8192 "8192") (metaWithDisk 8192) (snapshotWithDisk 8192) with
  | none => rfl
  | some archive =>
    have hfits := (exported h).2.2
    rw [snapshotWithDisk_rootfs] at hfits
    exact absurd hfits (by decide)

theorem smallDisk_roundTrips :
    RoundTrips (textCoding 64 "64") defaultConfig (fun _ => none) "t-00000000000000000000000000000" (metaWithDisk 64)
      (snapshotWithDisk 64) := by
  have hfaithful : (textCoding 64 "64").Faithful (metaWithDisk 64) (snapshotWithDisk 64) :=
    textCoding_faithful 64 _ (by decide +kernel) (by decide +kernel)
  refine ((template_archives (textCoding 64 "64") defaultConfig).1 (fun _ => none) (fun _ => none) "python" ⟨0, 0, 64⟩
    mebibyte (machineWithDisk 64) (snapshotWithDisk 64) false "2026-01-01T00:00:00Z" (fun _ => none) _ rfl (by decide)
    (snapshotWithDisk_taken 64) hfaithful (by decide +kernel) rfl).mpr ?_
  unfold exportable
  rw [snapshotWithDisk_memory, snapshotWithDisk_rootfs]
  decide +kernel

end Nehemiah.Transfer
