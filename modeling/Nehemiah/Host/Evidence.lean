import Nehemiah.Lib.Rank

/-!
# State quarantine

`StateStore.QuarantineInvalid` and `boundStateQuarantines`.  An invalid state file is renamed to a name with its
kind and the time, cut to a bound and made private; then every evidence file is treated the same way and all but
the last three by name are removed.  Each call into the file system may fail, and what fails is given beforehand.
`quarantine_sound` is the whole contract.
-/

namespace Nehemiah.Quarantine

open Lib

def maxStateQuarantineBytes : ℕ := 1024 * 1024

def maxStateQuarantineFiles : ℕ := 3

/-! ### Names -/

inductive Kind
  | hostIdentity | invalidForkHistory | malformed | meteringOutbox | oversized | replacedDuringLoad | trailingData
  | unsafeFileType | unsupportedVersion | invalid
deriving DecidableEq

def Kind.text : Kind → String
  | .hostIdentity => "host_identity"
  | .invalidForkHistory => "invalid_fork_history"
  | .malformed => "malformed"
  | .meteringOutbox => "metering_outbox"
  | .oversized => "oversized"
  | .replacedDuringLoad => "replaced_during_load"
  | .trailingData => "trailing_data"
  | .unsafeFileType => "unsafe_file_type"
  | .unsupportedVersion => "unsupported_version"
  | .invalid => "invalid"

def namedKinds : List Kind :=
  [.hostIdentity, .invalidForkHistory, .malformed, .meteringOutbox, .oversized, .replacedDuringLoad, .trailingData,
    .unsafeFileType, .unsupportedVersion]

def safeStateQuarantineKind (kind : String) : Kind := (namedKinds.find? fun k => k.text == kind).getD .invalid

/-- A UTC time to the nanosecond. -/
structure Stamp where
  year : ℕ
  month : ℕ
  day : ℕ
  hour : ℕ
  minute : ℕ
  second : ℕ
  nanosecond : ℕ
deriving DecidableEq

def Stamp.fields (t : Stamp) : List ℕ := [t.year, t.month, t.day, t.hour, t.minute, t.second, t.nanosecond]

def Stamp.before (t u : Stamp) : Prop := t.fields < u.fields

instance (t u : Stamp) : Decidable (t.before u) := inferInstanceAs (Decidable (t.fields < u.fields))

def padded (width n : ℕ) : String := String.ofList ((Nat.toDigits 10 n).leftpad width '0')

/-- The layout `20060102T150405.000000000Z`. -/
def Stamp.text (t : Stamp) : String :=
  padded 4 t.year ++ padded 2 t.month ++ padded 2 t.day ++ "T" ++ padded 2 t.hour ++ padded 2 t.minute
    ++ padded 2 t.second ++ "." ++ padded 9 t.nanosecond ++ "Z"

/-- What the name of an evidence file is made of. -/
structure Evidence where
  kind : Kind
  stamp : Stamp
  pid : ℕ
  attempt : ℕ
deriving DecidableEq

def Evidence.name (base : String) (e : Evidence) : String :=
  base ++ ".corrupt-" ++ e.kind.text ++ "-" ++ e.stamp.text ++ "-" ++ toString e.pid ++ "-" ++ toString e.attempt

/-! ### The directory -/

structure File where
  bytes : List UInt8
  mode : ℕ

inductive Node
  | regular (file : File)
  | symlink
  | other

def Node.isRegular : Node → Bool
  | .regular _ => true
  | _ => false

structure Entry where
  evidence : Evidence
  node : Node

/-- The state file and the evidence beside it; the names in a directory are distinct. -/
structure Directory (base : String) where
  state : Option Node
  entries : List Entry
  distinct : (entries.map fun e => e.evidence.name base).Nodup

/-- The calls that fail on one evidence file. -/
structure FileFaults where
  openFile : Bool
  truncate : Bool
  chmod : Bool
  sync : Bool
  close : Bool

/-- The calls that fail. -/
structure Faults where
  lstatCandidate : ℕ → Bool
  rename : Bool
  file : FileFaults
  readDir : Bool
  lstat : Evidence → Bool
  files : Evidence → FileFaults
  remove : Evidence → Bool
  openDir : Bool
  syncDir : Bool
  closeDir : Bool
  restore : Bool

structure Outcome where
  result : Option Evidence
  state : Option Node
  entries : List Entry

/-! ### Steps -/

/-- Cut a file to the bound and make it private, until a call fails. -/
def tidyFile (f : FileFaults) (file : File) : File × Bool :=
  if f.openFile then (file, false)
  else if maxStateQuarantineBytes < file.bytes.length ∧ f.truncate = true then (file, false)
  else
    let file := { file with bytes := file.bytes.take maxStateQuarantineBytes }
    if f.chmod then (file, false)
    else ({ file with mode := 0o600 }, !(f.sync || f.close))

/-- One entry of `boundStateQuarantines`: what becomes of it, and whether the loop goes on. -/
def tidyEntry (f : Faults) (e : Entry) : Option Entry × Bool :=
  if f.lstat e.evidence then (some e, false)
  else
    match e.node with
    | .symlink => if f.remove e.evidence then (some e, false) else (none, true)
    | .other => (some e, false)
    | .regular file =>
      let tidied := tidyFile (f.files e.evidence) file
      (some ⟨e.evidence, .regular tidied.1⟩, tidied.2)

def tidyAll (f : Faults) : List Entry → List Entry × Bool
  | [] => ([], true)
  | e :: rest =>
    let tidied := tidyEntry f e
    if tidied.2 then
      let later := tidyAll f rest
      (tidied.1.toList ++ later.1, later.2)
    else (tidied.1.toList ++ rest, false)

def byName (base : String) (e : Entry) : String := e.evidence.name base

def without (gone : List Entry) (entries : List Entry) : List Entry :=
  entries.filter fun e => !(gone.map (·.evidence)).contains e.evidence

/-- The entries are read in the order of their names; the removals stop at the first that fails. -/
def boundStateQuarantines (base : String) (f : Faults) (entries : List Entry) : List Entry × Bool :=
  if f.readDir then (entries, false)
  else
    let tidied := tidyAll f (sortBy (byName base) entries)
    if tidied.2 then
      let old := allBut maxStateQuarantineFiles (sortBy (byName base) tidied.1)
      (without (old.takeWhile fun e => !f.remove e.evidence) tidied.1, old.all fun e => !f.remove e.evidence)
    else (tidied.1, false)

/-- The first of a hundred names that is not taken. -/
def allocate (base : String) (f : Faults) (entries : List Entry) (kind : Kind) (stamp : Stamp) (pid : ℕ) :
    Option Evidence :=
  let candidate := fun attempt => Evidence.mk kind stamp pid attempt
  match (List.range 100).find? fun a =>
      f.lstatCandidate a || !(entries.map (byName base)).contains ((candidate a).name base) with
  | some a => if f.lstatCandidate a then none else some (candidate a)
  | none => none

/-- `restore`: rename the evidence back, which fails when it is no longer there. -/
def restore (f : Faults) (evidence : Evidence) (entries : List Entry) : Outcome :=
  match entries.find? fun e => e.evidence == evidence with
  | some e =>
    if f.restore then ⟨none, none, entries⟩
    else ⟨none, some e.node, entries.filter fun e => !(e.evidence == evidence)⟩
  | none => ⟨none, none, entries⟩

def quarantineInvalid {base : String} (f : Faults) (kind : String) (stamp : Stamp) (pid : ℕ) (d : Directory base) :
    Outcome :=
  match d.state with
  | some (.regular document) =>
    match allocate base f d.entries (safeStateQuarantineKind kind) stamp pid with
    | none => ⟨none, d.state, d.entries⟩
    | some evidence =>
      if f.rename then ⟨none, d.state, d.entries⟩
      else
        let tidied := tidyFile f.file document
        let entries := d.entries ++ [⟨evidence, .regular tidied.1⟩]
        if !tidied.2 then restore f evidence entries
        else
          let bounded := boundStateQuarantines base f entries
          if !bounded.2 then restore f evidence bounded.1
          else if f.openDir || f.syncDir || f.closeDir then restore f evidence bounded.1
          else ⟨some evidence, none, bounded.1⟩
  | _ => ⟨none, d.state, d.entries⟩

/-! ### What the quarantine promises -/

/-- The evidence files there are to choose from. -/
def candidates (entries : List Entry) (evidence : Evidence) : List Evidence :=
  ((entries.filter (·.node.isRegular)).map (·.evidence)) ++ [evidence]

/-- The at most three most recent of the files remain. -/
structure MostRecent (all remaining : List Evidence) : Prop where
  subset : ∀ e ∈ remaining, e ∈ all
  count : remaining.length = min maxStateQuarantineFiles all.length
  recent : ∀ e ∈ all, e ∉ remaining → ∀ k ∈ remaining, ¬ k.stamp.before e.stamp

/-- A quarantine that succeeds has the evidence, and one that fails leaves the state file. -/
def Outcome.Sound {base : String} (o : Outcome) (d : Directory base) : Prop :=
  match o.result with
  | some evidence =>
    (∃ document mode, d.state = some (.regular document) ∧
      ⟨evidence, .regular ⟨document.bytes.take maxStateQuarantineBytes, mode⟩⟩ ∈ o.entries) ∧
    MostRecent (candidates d.entries evidence) (o.entries.map (·.evidence))
  | none => o.state = d.state

/-! ### When it keeps the promise -/

/-- The file is as it was when the first call on it fails, or would be in any case. -/
def FileFaults.spares (f : FileFaults) (file : File) : Prop :=
  f.openFile = true ∨ maxStateQuarantineBytes < file.bytes.length ∧ f.truncate = true ∨
    file.bytes.length ≤ maxStateQuarantineBytes ∧ (f.chmod = true ∨ file.mode = 0o600)

/-- No call on the file fails. -/
def FileFaults.clean (f : FileFaults) (file : File) : Prop :=
  f.openFile = false ∧ ¬ (maxStateQuarantineBytes < file.bytes.length ∧ f.truncate = true) ∧ f.chmod = false ∧
    f.sync = false ∧ f.close = false

/-- Nothing fails while the entries are cut to the bound. -/
def Faults.tidies (f : Faults) (entries : List Entry) : Prop :=
  f.readDir = false ∧ ∀ e ∈ entries, f.lstat e.evidence = false ∧
    match e.node with
    | .symlink => f.remove e.evidence = false
    | .other => False
    | .regular file => (f.files e.evidence).clean file

/-- How many files have a greater name. -/
def nameRank (base : String) (all : List Evidence) (e : Evidence) : ℕ := rank (Evidence.name base) all e

/-- Among the three greatest names are the new one and every one that is newer than one of them. -/
def NamesAgree (base : String) (all : List Evidence) (evidence : Evidence) : Prop :=
  nameRank base all evidence < maxStateQuarantineFiles ∧
    ∀ a ∈ all, ∀ b ∈ all, nameRank base all b < maxStateQuarantineFiles → b.stamp.before a.stamp →
      nameRank base all a < maxStateQuarantineFiles

/-- Nothing fails after the rename. -/
def Faults.undisturbed (f : Faults) (base : String) (document : File) (entries : List Entry) (evidence : Evidence) : Prop :=
  f.file.clean document ∧
    f.tidies (entries ++ [⟨evidence, .regular ⟨document.bytes.take maxStateQuarantineBytes, 0o600⟩⟩]) ∧
    (∀ e ∈ candidates entries evidence,
      maxStateQuarantineFiles ≤ nameRank base (candidates entries evidence) e → f.remove e = false) ∧
    f.openDir = false ∧ f.syncDir = false ∧ f.closeDir = false

/-- The new evidence is not removed before a removal fails. -/
def Faults.survives (f : Faults) (base : String) (all : List Evidence) (evidence : Evidence) : Prop :=
  nameRank base all evidence < maxStateQuarantineFiles ∨
    ∃ e ∈ all, maxStateQuarantineFiles ≤ nameRank base all e ∧ e.name base ≤ evidence.name base ∧ f.remove e = true

/-- Once the state file is renamed: when nothing fails, the names agree with the times; when something fails, the
evidence can be renamed back, is still there, and is still as the state file was. -/
def Safe {base : String} (f : Faults) (kind : String) (stamp : Stamp) (pid : ℕ) (d : Directory base) : Prop :=
  ∀ document evidence, d.state = some (.regular document) →
    allocate base f d.entries (safeStateQuarantineKind kind) stamp pid = some evidence → f.rename = false →
    (f.undisturbed base document d.entries evidence → NamesAgree base (candidates d.entries evidence) evidence) ∧
    (¬ f.undisturbed base document d.entries evidence →
      f.restore = false ∧ f.file.spares document ∧
        (f.file.clean document →
          f.tidies (d.entries ++ [⟨evidence, .regular ⟨document.bytes.take maxStateQuarantineBytes, 0o600⟩⟩]) →
            f.survives base (candidates d.entries evidence) evidence))

/-! ### One file -/

section file

variable {f : FileFaults} {file : File}

theorem tidyFile_clean : (tidyFile f file).2 = true ↔ f.clean file := by
  unfold tidyFile FileFaults.clean
  split
  · rename_i hopen
    simp [hopen]
  · rename_i hopen
    split
    · rename_i htruncate
      simp [htruncate]
    · rename_i htruncate
      split
      · rename_i hchmod
        simp [hchmod]
      · rename_i hchmod
        simp only [Bool.not_eq_true] at hopen hchmod
        simp only [hopen, htruncate, hchmod, Bool.not_eq_true', Bool.or_eq_false_iff, not_false_eq_true, true_and]

theorem tidyFile_done (h : f.clean file) :
    (tidyFile f file).1 = ⟨file.bytes.take maxStateQuarantineBytes, 0o600⟩ := by
  obtain ⟨hopen, htruncate, hchmod, -, -⟩ := h
  simp only [tidyFile, hopen, htruncate, hchmod, Bool.false_eq_true, if_false]

theorem tidyFile_spares : (tidyFile f file).1 = file ↔ f.spares file := by
  unfold tidyFile FileFaults.spares
  split
  · rename_i hopen
    simp [hopen]
  · rename_i hopen
    split
    · rename_i htruncate
      simp [htruncate]
    · rename_i htruncate
      by_cases hlong : maxStateQuarantineBytes < file.bytes.length
      · -- the file has been cut
        have hcut : file.bytes.take maxStateQuarantineBytes ≠ file.bytes := by
          intro hsame
          have hlength := congrArg List.length hsame
          rw [List.length_take] at hlength
          omega
        have hnot : ¬ (f.openFile = true ∨ maxStateQuarantineBytes < file.bytes.length ∧ f.truncate = true ∨
            file.bytes.length ≤ maxStateQuarantineBytes ∧ (f.chmod = true ∨ file.mode = 0o600)) := by
          rintro (ho | ht | ⟨hshort, -⟩)
          · exact hopen ho
          · exact htruncate ht
          · omega
        refine ⟨fun hsame => absurd (congrArg File.bytes hsame) ?_, fun h => absurd h hnot⟩
        split <;> exact hcut
      · have hshort : file.bytes.length ≤ maxStateQuarantineBytes := not_lt.mp hlong
        have htake : file.bytes.take maxStateQuarantineBytes = file.bytes := List.take_of_length_le hshort
        split
        · rename_i hchmod
          simp [hchmod, hshort, htake]
        · rename_i hchmod
          constructor
          · intro hsame
            exact .inr (.inr ⟨hshort, .inr (congrArg File.mode hsame).symm⟩)
          · rintro (ho | ht | ⟨-, hc | hmode⟩)
            · exact absurd ho hopen
            · exact absurd ht htruncate
            · exact absurd hc hchmod
            · simp only [htake, ← hmode]

/-- A file that has been cut and made private stays as it is. -/
theorem tidyFile_tidy (hbytes : file.bytes.length ≤ maxStateQuarantineBytes) (hmode : file.mode = 0o600) :
    (tidyFile f file).1 = file :=
  tidyFile_spares.mpr (.inr (.inr ⟨hbytes, .inr hmode⟩))

end file

/-! ### All entries -/

section entries

variable {base : String} {f : Faults} {entries : List Entry} {evidence : Evidence} {e : Entry}

/-- What `tidies` says of one entry. -/
theorem tidyEntry_ok :
    (tidyEntry f e).2 = true ↔ f.lstat e.evidence = false ∧
      match e.node with
      | .symlink => f.remove e.evidence = false
      | .other => False
      | .regular file => (f.files e.evidence).clean file := by
  obtain ⟨evidence, node⟩ := e
  unfold tidyEntry
  cases hlstat : f.lstat evidence with
  | true => simp
  | false =>
    cases node with
    | symlink => cases hremove : f.remove evidence <;> simp
    | other => simp
    | regular file => simp [tidyFile_clean]

theorem tidyAll_goes {rest : List Entry} (h : (tidyEntry f e).2 = true) :
    tidyAll f (e :: rest) = ((tidyEntry f e).1.toList ++ (tidyAll f rest).1, (tidyAll f rest).2) := by
  simp only [tidyAll, if_pos h]

theorem tidyAll_stops {rest : List Entry} (h : ¬ (tidyEntry f e).2 = true) :
    tidyAll f (e :: rest) = ((tidyEntry f e).1.toList ++ rest, false) := by
  simp only [tidyAll, if_neg h]

theorem tidyAll_ok : (tidyAll f entries).2 = true ↔ ∀ e ∈ entries, (tidyEntry f e).2 = true := by
  induction entries with
  | nil => simp [tidyAll]
  | cons e rest ih =>
    rw [List.forall_mem_cons, ← ih]
    by_cases hok : (tidyEntry f e).2 = true
    · simp [tidyAll_goes hok, hok]
    · simp [tidyAll_stops hok, hok]

theorem tidyEntry_evidence (e : Entry) :
    ((tidyEntry f e).1.toList.map (·.evidence)).Sublist [e.evidence] := by
  obtain ⟨evidence, node⟩ := e
  unfold tidyEntry
  split
  · exact List.Sublist.refl _
  · cases node with
    | symlink =>
      dsimp only
      split
      · exact List.Sublist.refl _
      · exact List.nil_sublist _
    | other => exact List.Sublist.refl _
    | regular file => exact List.Sublist.refl _

theorem tidyEntry_regular (hok : (tidyEntry f e).2 = true) :
    (tidyEntry f e).1.toList.map (·.evidence) = ([e].filter (·.node.isRegular)).map (·.evidence) := by
  obtain ⟨evidence, node⟩ := e
  unfold tidyEntry at hok ⊢
  split at hok
  · cases hok
  · rename_i hlstat
    rw [if_neg hlstat]
    cases node with
    | symlink =>
      dsimp only at hok ⊢
      split at hok
      · cases hok
      · rename_i hremove
        rw [if_neg hremove]
        rfl
    | other => cases hok
    | regular file => rfl

/-- The loop changes no name and adds none. -/
theorem tidyAll_evidence : ((tidyAll f entries).1.map (·.evidence)).Sublist (entries.map (·.evidence)) := by
  induction entries with
  | nil => exact List.Sublist.refl _
  | cons e rest ih =>
    have he := tidyEntry_evidence (f := f) e
    by_cases hok : (tidyEntry f e).2 = true
    · rw [tidyAll_goes hok, List.map_append]
      exact he.append ih
    · rw [tidyAll_stops hok, List.map_append]
      exact he.append (List.Sublist.refl _)

/-- When the loop comes to its end, the regular files are left. -/
theorem tidyAll_regular (hok : (tidyAll f entries).2 = true) :
    (tidyAll f entries).1.map (·.evidence) = (entries.filter (·.node.isRegular)).map (·.evidence) := by
  induction entries with
  | nil => rfl
  | cons e rest ih =>
    have hall := tidyAll_ok.mp hok
    have he := hall e List.mem_cons_self
    have hrest := ih (tidyAll_ok.mpr fun e' he' => hall e' (List.mem_cons_of_mem _ he'))
    rw [tidyAll_goes he, List.map_append, hrest, tidyEntry_regular he, ← List.map_append, ← List.filter_append,
      List.singleton_append]

/-- An evidence file that is tidy stays as it is, wherever the loop ends. -/
theorem tidyAll_tidy {file : File} (hbytes : file.bytes.length ≤ maxStateQuarantineBytes) (hmode : file.mode = 0o600)
    (he : ⟨evidence, .regular file⟩ ∈ entries) : ⟨evidence, .regular file⟩ ∈ (tidyAll f entries).1 := by
  induction entries with
  | nil => cases he
  | cons e rest ih =>
    have hself : e = ⟨evidence, .regular file⟩ → (tidyEntry f e).1 = some ⟨evidence, .regular file⟩ := by
      rintro rfl
      unfold tidyEntry
      split
      · rfl
      · simp only [tidyFile_tidy hbytes hmode]
    by_cases hok : (tidyEntry f e).2 = true
    · rw [tidyAll_goes hok]
      rcases List.mem_cons.mp he with he | he
      · rw [hself he.symm]
        exact List.mem_cons_self
      · exact List.mem_append_right _ (ih he)
    · rw [tidyAll_stops hok]
      rcases List.mem_cons.mp he with he | he
      · rw [hself he.symm]
        exact List.mem_cons_self
      · exact List.mem_append_right _ he

end entries

/-! ### The bound -/

/-- The names of the regular files. -/
def evidenceOf (entries : List Entry) : List Evidence := (entries.filter (·.node.isRegular)).map (·.evidence)

theorem evidenceOf_append (entries : List Entry) (evidence : Evidence) (file : File) :
    evidenceOf (entries ++ [⟨evidence, .regular file⟩]) = candidates entries evidence := by
  simp only [evidenceOf, candidates, List.filter_append, List.map_append]
  rfl

section bound

variable {base : String} {f : Faults} {entries : List Entry} {evidence : Evidence} {e : Entry}

/-- The entries after the loop. -/
def tidied (base : String) (f : Faults) (entries : List Entry) : List Entry :=
  (tidyAll f (sortBy (byName base) entries)).1

def oldest (base : String) (f : Faults) (entries : List Entry) : List Entry :=
  allBut maxStateQuarantineFiles (sortBy (byName base) (tidied base f entries))

theorem tidies_iff (base : String) :
    f.tidies entries ↔ f.readDir = false ∧ (tidyAll f (sortBy (byName base) entries)).2 = true := by
  unfold Faults.tidies
  rw [tidyAll_ok]
  refine and_congr_right fun _ => ?_
  constructor
  · intro h e he
    exact tidyEntry_ok.mpr (h e (sortBy_perm.mem_iff.mp he))
  · intro h e he
    exact tidyEntry_ok.mp (h e (sortBy_perm.mem_iff.mpr he))

theorem names_evidence (l : List Entry) : l.map (byName base) = (l.map (·.evidence)).map (Evidence.name base) := by
  rw [List.map_map]
  rfl

theorem tidied_names (h : (entries.map (byName base)).Nodup) : ((tidied base f entries).map (byName base)).Nodup := by
  have hsorted : ((sortBy (byName base) entries).map (byName base)).Nodup := (sortBy_perm.map _).nodup_iff.mpr h
  rw [names_evidence] at hsorted ⊢
  exact hsorted.sublist (tidyAll_evidence.map _)

theorem tidied_perm (base : String) (h : f.tidies entries) :
    ((tidied base f entries).map (·.evidence)).Perm (evidenceOf entries) := by
  rw [tidied, tidyAll_regular ((tidies_iff _).mp h).2]
  exact (sortBy_perm.filter _).map _

/-- One entry for each name. -/
theorem entry_of_evidence {l : List Entry} (h : (l.map (byName base)).Nodup) {e e' : Entry} (he : e ∈ l) (he' : e' ∈ l)
    (hsame : e.evidence = e'.evidence) : e = e' :=
  List.inj_on_of_nodup_map h he he' (congrArg (Evidence.name base) hsame)

theorem rank_evidence (l : List Entry) : rank (byName base) l e = nameRank base (l.map (·.evidence)) e.evidence := by
  unfold nameRank rank
  rw [List.countP_map]
  rfl

theorem rank_tidied (h : f.tidies entries) :
    rank (byName base) (tidied base f entries) e = nameRank base (evidenceOf entries) e.evidence := by
  rw [rank_evidence]
  exact rank_perm (tidied_perm _ h)

theorem mem_oldest (hnames : (entries.map (byName base)).Nodup) (h : f.tidies entries) :
    e ∈ oldest base f entries ↔
      e ∈ tidied base f entries ∧ maxStateQuarantineFiles ≤ nameRank base (evidenceOf entries) e.evidence := by
  rw [oldest, mem_allBut_sortBy (tidied_names hnames), rank_tidied h]

theorem bound_of_tidies (h : f.tidies entries) :
    boundStateQuarantines base f entries =
      (without ((oldest base f entries).takeWhile fun e => !f.remove e.evidence) (tidied base f entries),
        (oldest base f entries).all fun e => !f.remove e.evidence) := by
  obtain ⟨hread, hok⟩ := (tidies_iff base).mp h
  simp only [boundStateQuarantines, hread, hok, Bool.false_eq_true, if_false, if_true]
  rfl

theorem bound_of_not_tidies (h : ¬ f.tidies entries) : (boundStateQuarantines base f entries).2 = false ∧
    ∀ e : Entry, (∃ file, e.node = .regular file ∧ file.bytes.length ≤ maxStateQuarantineBytes ∧ file.mode = 0o600) →
      e ∈ entries → e ∈ (boundStateQuarantines base f entries).1 := by
  cases hread : f.readDir with
  | true =>
    simp only [boundStateQuarantines, hread, if_true]
    exact ⟨trivial, fun _ _ he => he⟩
  | false =>
    have hstop : ¬ (tidyAll f (sortBy (byName base) entries)).2 = true := fun hok => h ((tidies_iff _).mpr ⟨hread, hok⟩)
    simp only [boundStateQuarantines, hread, hstop, Bool.false_eq_true, if_false]
    refine ⟨trivial, ?_⟩
    rintro ⟨evidence, node⟩ ⟨file, rfl, hbytes, hmode⟩ he
    exact tidyAll_tidy hbytes hmode (sortBy_perm.mem_iff.mpr he)

theorem bound_ok (hnames : (entries.map (byName base)).Nodup) :
    (boundStateQuarantines base f entries).2 = true ↔ f.tidies entries ∧
      ∀ e ∈ evidenceOf entries, maxStateQuarantineFiles ≤ nameRank base (evidenceOf entries) e → f.remove e = false := by
  by_cases h : f.tidies entries
  · rw [bound_of_tidies h, List.all_eq_true]
    refine ⟨fun hall => ⟨h, ?_⟩, fun hall e he => ?_⟩
    · intro ev hev hrank
      obtain ⟨e, he, rfl⟩ := List.mem_map.mp ((tidied_perm base h).mem_iff.mpr hev)
      simpa using hall e ((mem_oldest hnames h).mpr ⟨he, hrank⟩)
    · obtain ⟨hmem, hrank⟩ := (mem_oldest hnames h).mp he
      have hev := (tidied_perm base h).mem_iff.mp (List.mem_map_of_mem hmem)
      simpa using hall.2 _ hev hrank
  · rw [(bound_of_not_tidies h).1]
    exact ⟨fun hf => absurd hf Bool.false_ne_true, fun hall => absurd hall.1 h⟩

theorem mem_without {gone l : List Entry} (hl : (l.map (byName base)).Nodup) (hgone : ∀ g ∈ gone, g ∈ l) :
    e ∈ without gone l ↔ e ∈ l ∧ e ∉ gone := by
  simp only [without, List.mem_filter, Bool.not_eq_true', List.contains_eq_mem, decide_eq_false_iff_not]
  refine and_congr_right fun he => not_congr ?_
  constructor
  · intro hmem
    obtain ⟨g, hg, hsame⟩ := List.mem_map.mp hmem
    exact entry_of_evidence hl (hgone g hg) he hsame ▸ hg
  · exact fun hmem => List.mem_map_of_mem hmem

theorem oldest_subset (he : e ∈ oldest base f entries) : e ∈ tidied base f entries :=
  sortBy_perm.mem_iff.mp (List.take_subset _ _ he)

theorem oldest_strict (hnames : (entries.map (byName base)).Nodup) :
    (oldest base f entries).Pairwise fun a b => byName base a < byName base b :=
  (sortBy_strict (tidied_names hnames)).sublist (List.take_sublist _ _)

/-- What is left when the bound comes to its end. -/
theorem mem_bound (hnames : (entries.map (byName base)).Nodup) (hok : (boundStateQuarantines base f entries).2 = true) :
    e ∈ (boundStateQuarantines base f entries).1 ↔
      e ∈ tidied base f entries ∧ nameRank base (evidenceOf entries) e.evidence < maxStateQuarantineFiles := by
  have h := ((bound_ok hnames).mp hok).1
  rw [bound_of_tidies h] at hok ⊢
  have hall : ((oldest base f entries).takeWhile fun e => !f.remove e.evidence) = oldest base f entries :=
    List.takeWhile_eq_self_iff.mpr (List.all_eq_true.mp hok)
  simp only [hall]
  rw [mem_without (tidied_names hnames) fun g hg => oldest_subset hg, mem_oldest hnames h]
  constructor
  · rintro ⟨he, hold⟩
    exact ⟨he, not_le.mp fun hrank => hold ⟨he, hrank⟩⟩
  · rintro ⟨he, hrank⟩
    exact ⟨he, fun hold => absurd hold.2 (not_le.mpr hrank)⟩

theorem bound_length (hnames : (entries.map (byName base)).Nodup) (hok : (boundStateQuarantines base f entries).2 = true) :
    (boundStateQuarantines base f entries).1.length = min maxStateQuarantineFiles (evidenceOf entries).length := by
  have h := ((bound_ok hnames).mp hok).1
  have htidied := tidied_names (f := f) hnames
  have hsame : (boundStateQuarantines base f entries).1.Perm
      (final maxStateQuarantineFiles (sortBy (byName base) (tidied base f entries))) := by
    refine (List.perm_ext_iff_of_nodup ?_ ?_).mpr ?_
    · rw [bound_of_tidies h]
      exact (List.Nodup.of_map _ htidied).filter _
    · exact ((sortBy_perm.nodup_iff).mpr (List.Nodup.of_map _ htidied)).sublist (List.drop_sublist _ _)
    · intro e
      rw [mem_bound hnames hok, mem_final_sortBy htidied, rank_tidied h]
  rw [hsame.length_eq, final_length, sortBy_perm.length_eq, ← (tidied_perm base h).length_eq, List.length_map]

/-- A tidy evidence file is left unless it is removed before a removal fails. -/
theorem survives_iff (hnames : (entries.map (byName base)).Nodup) {file : File}
    (hbytes : file.bytes.length ≤ maxStateQuarantineBytes) (hmode : file.mode = 0o600)
    (he : ⟨evidence, .regular file⟩ ∈ entries) :
    ⟨evidence, .regular file⟩ ∈ (boundStateQuarantines base f entries).1 ↔
      (f.tidies entries → f.survives base (evidenceOf entries) evidence) := by
  by_cases h : f.tidies entries
  swap
  · exact ⟨fun _ ht => absurd ht h, fun _ => (bound_of_not_tidies h).2 _ ⟨file, rfl, hbytes, hmode⟩ he⟩
  have hmem : ⟨evidence, .regular file⟩ ∈ tidied base f entries :=
    tidyAll_tidy hbytes hmode (sortBy_perm.mem_iff.mpr he)
  rw [bound_of_tidies h, mem_without (tidied_names hnames) fun g hg => oldest_subset (List.takeWhile_subset _ hg),
    mem_takeWhile_sorted (oldest_strict hnames), mem_oldest hnames h]
  unfold Faults.survives
  constructor
  · rintro ⟨-, hkept⟩ -
    by_contra hnone
    push Not at hnone
    obtain ⟨hrank, hremoved⟩ := hnone
    refine hkept ⟨⟨hmem, hrank⟩, ?_⟩
    intro b hb hba
    obtain ⟨hbmem, hbrank⟩ := (mem_oldest hnames h).mp hb
    have hbev := (tidied_perm base h).mem_iff.mp (List.mem_map_of_mem hbmem)
    simpa using hremoved _ hbev hbrank hba
  · intro hsurvives
    refine ⟨hmem, ?_⟩
    rintro ⟨⟨-, hrank⟩, hall⟩
    rcases hsurvives h with hlow | ⟨ev, hev, hevrank, hle, hremove⟩
    · exact absurd hrank (not_le.mpr hlow)
    · obtain ⟨b, hb, rfl⟩ := List.mem_map.mp ((tidied_perm base h).mem_iff.mpr hev)
      have hpass := hall b ((mem_oldest hnames h).mpr ⟨hb, hevrank⟩) hle
      rw [hremove] at hpass
      cases hpass

end bound

/-! ### The quarantine -/

section quarantine

variable {base : String} {f : Faults} {entries : List Entry} {evidence : Evidence} {kind : Kind} {stamp : Stamp} {pid : ℕ}

theorem allocate_fresh (h : allocate base f entries kind stamp pid = some evidence) :
    evidence.name base ∉ entries.map (byName base) := by
  unfold allocate at h
  dsimp only at h
  split at h
  · rename_i a hfound
    split at h
    · cases h
    · rename_i hlstat
      cases h
      have hfree := List.find?_some hfound
      simpa [hlstat] using hfree
  · cases h

theorem restore_iff (hnames : (entries.map (byName base)).Nodup) {file : File} :
    (restore f evidence entries).state = some (.regular file) ↔
      f.restore = false ∧ ⟨evidence, .regular file⟩ ∈ entries := by
  unfold restore
  cases hfind : entries.find? fun e => e.evidence == evidence with
  | none =>
    refine ⟨fun h => (by cases h), ?_⟩
    rintro ⟨-, hmem⟩
    have hnot := List.find?_eq_none.mp hfind _ hmem
    simp at hnot
  | some e =>
    have hmem := List.mem_of_find?_eq_some hfind
    have hsame : e.evidence = evidence := by simpa using List.find?_some hfind
    cases hrestore : f.restore with
    | true => simp
    | false =>
      simp only [Bool.false_eq_true, if_false, Option.some.injEq, true_and]
      constructor
      · intro hnode
        obtain rfl : e = ⟨evidence, .regular file⟩ := by
          rw [← hsame, ← hnode]
        exact hmem
      · intro hnew
        rw [entry_of_evidence hnames hmem hnew hsame]

theorem restore_result : (restore f evidence entries).result = none := by
  unfold restore
  split
  · split <;> rfl
  · rfl

/-- When something fails the state file is back exactly when it can be renamed back and is as it was. -/
theorem restored_iff {d : Directory base} {document : File} (hstate : d.state = some (.regular document))
    (hnames : (entries.map (byName base)).Nodup) :
    (restore f evidence entries).Sound d ↔ f.restore = false ∧ ⟨evidence, .regular document⟩ ∈ entries := by
  unfold Outcome.Sound
  rw [restore_result]
  simp only [hstate]
  exact restore_iff hnames

theorem bound_names (hnames : (entries.map (byName base)).Nodup) :
    ((boundStateQuarantines base f entries).1.map (byName base)).Nodup := by
  by_cases h : f.tidies entries
  · rw [bound_of_tidies h]
    exact (tidied_names hnames).sublist (List.filter_sublist.map _)
  · cases hread : f.readDir with
    | true => simpa only [boundStateQuarantines, hread, if_true] using hnames
    | false =>
      have hstop : ¬ (tidyAll f (sortBy (byName base) entries)).2 = true := fun hok => h ((tidies_iff _).mpr ⟨hread, hok⟩)
      simp only [boundStateQuarantines, hread, hstop, Bool.false_eq_true, if_false]
      exact tidied_names hnames

/-- The evidence that came through the bound is the file that was put there. -/
theorem bound_file {file document : File} (hnames : (entries.map (byName base)).Nodup)
    (hbytes : file.bytes.length ≤ maxStateQuarantineBytes) (hmode : file.mode = 0o600)
    (he : ⟨evidence, .regular file⟩ ∈ entries) :
    ⟨evidence, .regular document⟩ ∈ (boundStateQuarantines base f entries).1 ↔
      document = file ∧ ⟨evidence, .regular file⟩ ∈ (boundStateQuarantines base f entries).1 := by
  constructor
  · intro hmem
    -- the loop has left the file as it is, and there is one entry of its name
    have htidy : ⟨evidence, .regular file⟩ ∈ tidied base f entries :=
      tidyAll_tidy hbytes hmode (sortBy_perm.mem_iff.mpr he)
    have hin : ⟨evidence, .regular document⟩ ∈ tidied base f entries ∨ ⟨evidence, .regular document⟩ ∈ entries := by
      by_cases h : f.tidies entries
      · rw [bound_of_tidies h] at hmem
        exact .inl (List.mem_filter.mp hmem).1
      · cases hread : f.readDir with
        | true =>
          simp only [boundStateQuarantines, hread, if_true] at hmem
          exact .inr hmem
        | false =>
          have hstop : ¬ (tidyAll f (sortBy (byName base) entries)).2 = true := fun hok => h ((tidies_iff _).mpr ⟨hread, hok⟩)
          simp only [boundStateQuarantines, hread, hstop, Bool.false_eq_true, if_false] at hmem
          exact .inl hmem
    have hsame : Entry.mk evidence (.regular document) = ⟨evidence, .regular file⟩ := by
      rcases hin with hin | hin
      · exact entry_of_evidence (tidied_names hnames) hin htidy rfl
      · exact entry_of_evidence hnames hin he rfl
    cases hsame
    exact ⟨rfl, hmem⟩
  · rintro ⟨rfl, hmem⟩
    exact hmem

/-- The files that remain are the most recent ones exactly when the names agree with the times. -/
theorem mostRecent_iff {all remaining : List Evidence}
    (hmem : ∀ e, e ∈ remaining ↔ e ∈ all ∧ nameRank base all e < maxStateQuarantineFiles)
    (hcount : remaining.length = min maxStateQuarantineFiles all.length) (hnew : evidence ∈ all) :
    (evidence ∈ remaining ∧ MostRecent all remaining) ↔ NamesAgree base all evidence := by
  constructor
  · rintro ⟨hev, -, -, hrecent⟩
    refine ⟨((hmem _).mp hev).2, ?_⟩
    intro a ha b hb hrank hbefore
    by_contra hlow
    have hout : a ∉ remaining := fun h => hlow ((hmem a).mp h).2
    exact hrecent a ha hout b ((hmem b).mpr ⟨hb, hrank⟩) hbefore
  · rintro ⟨hev, hagree⟩
    refine ⟨(hmem _).mpr ⟨hnew, hev⟩, fun e he => ((hmem e).mp he).1, hcount, ?_⟩
    intro a ha hout b hb hbefore
    obtain ⟨hball, hrank⟩ := (hmem b).mp hb
    exact hout ((hmem a).mpr ⟨ha, hagree a ha b hball hrank hbefore⟩)

end quarantine

section promise

variable {base : String} {f : Faults} {kind : String} {stamp : Stamp} {pid : ℕ} {d : Directory base} {document : File}
  {evidence : Evidence}

/-- The entries with the evidence as the first calls have left it. -/
def placed (d : Directory base) (evidence : Evidence) (file : File) : List Entry := d.entries ++ [⟨evidence, .regular file⟩]

theorem placed_names (hfresh : evidence.name base ∉ d.entries.map (byName base)) (file : File) :
    ((placed d evidence file).map (byName base)).Nodup := by
  rw [placed, List.map_append]
  refine List.Nodup.append d.distinct (List.nodup_singleton _) ?_
  intro name hname hnew
  rw [List.map_singleton, List.mem_singleton] at hnew
  rw [hnew] at hname
  exact hfresh hname

theorem placed_mem (d : Directory base) (evidence : Evidence) (file : File) :
    ⟨evidence, .regular file⟩ ∈ placed d evidence file := List.mem_append_right _ List.mem_cons_self

theorem placed_file {file : File} (hfresh : evidence.name base ∉ d.entries.map (byName base)) :
    ⟨evidence, .regular document⟩ ∈ placed d evidence file ↔ document = file := by
  constructor
  · intro h
    have hsame := entry_of_evidence (placed_names hfresh file) h (placed_mem d evidence file) rfl
    cases hsame
    rfl
  · rintro rfl
    exact placed_mem d evidence document

/-- The evidence once its own calls are through. -/
def cut (document : File) : File := ⟨document.bytes.take maxStateQuarantineBytes, 0o600⟩

theorem cut_bytes (document : File) : (cut document).bytes.length ≤ maxStateQuarantineBytes := List.length_take_le _ _

theorem cut_eq (hclean : f.file.clean document) : document = cut document ↔ f.file.spares document := by
  rw [← tidyFile_spares, tidyFile_done hclean]
  exact eq_comm

theorem quarantine_unbounded (hstate : d.state = some (.regular document))
    (halloc : allocate base f d.entries (safeStateQuarantineKind kind) stamp pid = some evidence)
    (hrename : f.rename = false) (hclean : ¬ f.file.clean document) :
    (quarantineInvalid f kind stamp pid d).Sound d ↔ f.restore = false ∧ f.file.spares document := by
  have hstop : (tidyFile f.file document).2 = false := Bool.eq_false_iff.mpr fun h => hclean (tidyFile_clean.mp h)
  have hrun : quarantineInvalid f kind stamp pid d =
      restore f evidence (placed d evidence (tidyFile f.file document).1) := by
    simp only [quarantineInvalid, hstate, halloc, hrename, hstop, Bool.false_eq_true, if_false, Bool.not_false, if_true]
    rfl
  have hfresh := allocate_fresh halloc
  rw [hrun, restored_iff hstate (placed_names hfresh _), placed_file hfresh, ← tidyFile_spares]
  exact and_congr_right fun _ => eq_comm

/-- After the bound something fails. -/
theorem quarantine_failed (hstate : d.state = some (.regular document))
    (halloc : allocate base f d.entries (safeStateQuarantineKind kind) stamp pid = some evidence)
    (hrename : f.rename = false) (hclean : f.file.clean document)
    (hfails : (boundStateQuarantines base f (placed d evidence (cut document))).2 = false ∨
      (f.openDir || f.syncDir || f.closeDir) = true) :
    (quarantineInvalid f kind stamp pid d).Sound d ↔ f.restore = false ∧ f.file.spares document ∧
      (f.tidies (placed d evidence (cut document)) → f.survives base (candidates d.entries evidence) evidence) := by
  have hfresh := allocate_fresh halloc
  have hnames := placed_names hfresh (cut document)
  have hrun : quarantineInvalid f kind stamp pid d =
      restore f evidence (boundStateQuarantines base f (placed d evidence (cut document))).1 := by
    have hgoes : (tidyFile f.file document).2 = true := tidyFile_clean.mpr hclean
    simp only [quarantineInvalid, hstate, halloc, hrename, hgoes, tidyFile_done hclean, Bool.false_eq_true, if_false,
      Bool.not_true]
    rcases hfails with hbound | hdir
    · rw [if_pos (by rw [← cut, ← placed, hbound]; rfl)]
      rfl
    · rw [if_pos hdir, ite_self]
      rfl
  rw [hrun, restored_iff hstate (bound_names hnames),
    bound_file hnames (cut_bytes document) rfl (placed_mem d evidence _), cut_eq hclean,
    survives_iff hnames (cut_bytes document) rfl (placed_mem d evidence _), placed, evidenceOf_append]

theorem quarantine_succeeded (hstate : d.state = some (.regular document))
    (halloc : allocate base f d.entries (safeStateQuarantineKind kind) stamp pid = some evidence)
    (hrename : f.rename = false) (hclean : f.file.clean document)
    (hok : (boundStateQuarantines base f (placed d evidence (cut document))).2 = true)
    (hdir : (f.openDir || f.syncDir || f.closeDir) = false) :
    (quarantineInvalid f kind stamp pid d).Sound d ↔ NamesAgree base (candidates d.entries evidence) evidence := by
  have hfresh := allocate_fresh halloc
  have hnames := placed_names hfresh (cut document)
  have hrun : quarantineInvalid f kind stamp pid d =
      ⟨some evidence, none, (boundStateQuarantines base f (placed d evidence (cut document))).1⟩ := by
    have hgoes : (tidyFile f.file document).2 = true := tidyFile_clean.mpr hclean
    simp only [quarantineInvalid, hstate, halloc, hrename, hgoes, tidyFile_done hclean, Bool.false_eq_true, if_false,
      Bool.not_true]
    rw [if_neg (by rw [← cut, ← placed, hok]; simp), if_neg (by rw [hdir]; simp)]
    rfl
  have hall : evidenceOf (placed d evidence (cut document)) = candidates d.entries evidence :=
    evidenceOf_append _ _ _
  have htidies := ((bound_ok hnames).mp hok).1
  have hmem : ∀ e, e ∈ (boundStateQuarantines base f (placed d evidence (cut document))).1.map (·.evidence) ↔
      e ∈ candidates d.entries evidence ∧
        nameRank base (candidates d.entries evidence) e < maxStateQuarantineFiles := by
    intro e
    rw [← hall, ← (tidied_perm base htidies).mem_iff, List.mem_map, List.mem_map]
    constructor
    · rintro ⟨x, hx, rfl⟩
      obtain ⟨hx, hrank⟩ := (mem_bound hnames hok).mp hx
      exact ⟨⟨x, hx, rfl⟩, hrank⟩
    · rintro ⟨⟨x, hx, rfl⟩, hrank⟩
      exact ⟨x, (mem_bound hnames hok).mpr ⟨hx, hrank⟩, rfl⟩
  have hcount := bound_length hnames hok
  rw [hall] at hcount
  rw [← mostRecent_iff hmem (by rw [List.length_map, hcount]) (List.mem_append_right _ List.mem_cons_self), hrun]
  refine and_congr_left fun _ => ?_
  constructor
  · rintro ⟨_, _, -, hx⟩
    exact List.mem_map_of_mem hx
  · intro hev
    have hrank := ((hmem evidence).mp hev).2
    refine ⟨document, 0o600, hstate, (mem_bound hnames hok).mpr ⟨?_, hall ▸ hrank⟩⟩
    exact tidyAll_tidy (cut_bytes document) rfl (sortBy_perm.mem_iff.mpr (placed_mem d evidence (cut document)))

/-- The faults after the rename are those of the steps. -/
theorem undisturbed_iff (halloc : allocate base f d.entries (safeStateQuarantineKind kind) stamp pid = some evidence) :
    f.undisturbed base document d.entries evidence ↔ f.file.clean document ∧
      (boundStateQuarantines base f (placed d evidence (cut document))).2 = true ∧
      (f.openDir || f.syncDir || f.closeDir) = false := by
  rw [bound_ok (placed_names (allocate_fresh halloc) (cut document)), placed, evidenceOf_append]
  simp only [Faults.undisturbed, Bool.or_eq_false_iff, cut]
  tauto

/-- **Quarantine.**  For every directory, kind and state file and whatever calls fail, the quarantine keeps its promise
exactly when the faults are safe. -/
theorem quarantine_sound (f : Faults) (kind : String) (stamp : Stamp) (pid : ℕ) (d : Directory base) :
    (quarantineInvalid f kind stamp pid d).Sound d ↔ Safe f kind stamp pid d := by
  by_cases hrenamed : ∃ document evidence, d.state = some (.regular document) ∧
      allocate base f d.entries (safeStateQuarantineKind kind) stamp pid = some evidence ∧ f.rename = false
  swap
  · refine ⟨fun _ document evidence hstate halloc hrename => absurd ⟨document, evidence, hstate, halloc, hrename⟩ hrenamed, ?_⟩
    intro _
    have hrun : quarantineInvalid f kind stamp pid d = ⟨none, d.state, d.entries⟩ := by
      unfold quarantineInvalid
      split
      · rename_i document hstate
        split
        · rfl
        · rename_i evidence halloc
          split
          · rfl
          · rename_i hrename
            exact absurd ⟨document, evidence, hstate, halloc, by simpa using hrename⟩ hrenamed
      · rfl
    rw [hrun]
    exact rfl
  obtain ⟨document, evidence, hstate, halloc, hrename⟩ := hrenamed
  have hsafe : Safe f kind stamp pid d ↔
      (f.undisturbed base document d.entries evidence → NamesAgree base (candidates d.entries evidence) evidence) ∧
      (¬ f.undisturbed base document d.entries evidence →
        f.restore = false ∧ f.file.spares document ∧
          (f.file.clean document → f.tidies (placed d evidence (cut document)) →
            f.survives base (candidates d.entries evidence) evidence)) := by
    constructor
    · intro h
      exact h document evidence hstate halloc hrename
    · intro h document' evidence' hstate' halloc' _
      cases hstate.symm.trans hstate'
      cases halloc.symm.trans halloc'
      exact h
  rw [hsafe]
  by_cases hclean : f.file.clean document
  swap
  · have hdisturbed : ¬ f.undisturbed base document d.entries evidence := fun h => hclean h.1
    rw [quarantine_unbounded hstate halloc hrename hclean]
    simp [hdisturbed, hclean]
  by_cases hdone : f.undisturbed base document d.entries evidence
  · obtain ⟨-, hok, hdir⟩ := (undisturbed_iff halloc).mp hdone
    rw [quarantine_succeeded hstate halloc hrename hclean hok hdir]
    simp [hdone]
  · have hfails : (boundStateQuarantines base f (placed d evidence (cut document))).2 = false ∨
        (f.openDir || f.syncDir || f.closeDir) = true := by
      by_contra hnone
      rw [not_or, Bool.not_eq_false, Bool.not_eq_true] at hnone
      exact hdone ((undisturbed_iff halloc).mpr ⟨hclean, hnone⟩)
    rw [quarantine_failed hstate halloc hrename hclean hfails]
    simp [hdone, hclean]

end promise

/-! ### Three old files of a kind that sorts behind -/

def oversizedAt (day : ℕ) : Evidence := ⟨.oversized, ⟨2026, 1, day, 12, 0, 0, 0⟩, 1, 0⟩

def malformedAt (day : ℕ) : Evidence := ⟨.malformed, ⟨2026, 1, day, 12, 0, 0, 0⟩, 1, 0⟩

/-- A state file of two bytes with mode 0644, beside three evidence files. -/
def crowdedDirectory : Directory "state.json" where
  state := some (.regular ⟨[123, 0], 0o644⟩)
  entries := [1, 2, 3].map fun day => ⟨oversizedAt day, .regular ⟨[0], 0o600⟩⟩
  distinct := by decide +kernel

def calm : FileFaults := ⟨false, false, false, false, false⟩

def noFaults : Faults :=
  ⟨fun _ => false, false, calm, false, fun _ => false, fun _ => calm, fun _ => false, false, false, false, false⟩

/-- The new evidence is the first by name and is removed at once, while its path is returned; and a failed sync
leaves a state file with another mode. -/
theorem malformed_lost :
    ¬ (quarantineInvalid noFaults "malformed" (malformedAt 4).stamp 1 crowdedDirectory).Sound crowdedDirectory ∧
      ¬ (quarantineInvalid { noFaults with file := { calm with sync := true } } "malformed" (malformedAt 4).stamp 1
        crowdedDirectory).Sound crowdedDirectory := by
  have halloc : ∀ f : Faults, f.lstatCandidate = (fun _ => false) →
      allocate "state.json" f crowdedDirectory.entries (safeStateQuarantineKind "malformed") (malformedAt 4).stamp 1 =
        some (malformedAt 4) := by
    intro f hf
    simp only [allocate, hf]
    decide +kernel
  have hbytes : ¬ maxStateQuarantineBytes < [(123 : UInt8), 0].length := by decide
  constructor
  · have hclean : noFaults.file.clean ⟨[123, 0], 0o644⟩ := ⟨rfl, fun h => hbytes h.1, rfl, rfl, rfl⟩
    have hnames := placed_names (d := crowdedDirectory) (allocate_fresh (halloc noFaults rfl)) (cut ⟨[123, 0], 0o644⟩)
    have hok : (boundStateQuarantines "state.json" noFaults
        (placed crowdedDirectory (malformedAt 4) (cut ⟨[123, 0], 0o644⟩))).2 = true := by
      refine (bound_ok hnames).mpr ⟨⟨rfl, ?_⟩, fun _ _ _ => rfl⟩
      intro e he
      refine ⟨rfl, ?_⟩
      fin_cases he <;> exact ⟨rfl, fun h => absurd h.2 (by decide), rfl, rfl, rfl⟩
    rw [quarantine_succeeded rfl (halloc noFaults rfl) rfl hclean hok rfl]
    intro hagree
    exact absurd hagree.1 (by decide +kernel)
  · have hnot : ¬ FileFaults.clean { calm with sync := true } ⟨[123, 0], 0o644⟩ := by
      rintro ⟨-, -, -, hsync, -⟩
      cases hsync
    rw [quarantine_unbounded (f := { noFaults with file := { calm with sync := true } }) rfl (halloc _ rfl) rfl hnot]
    rintro ⟨-, hopen | ⟨hlong, -⟩ | ⟨-, hchmod | hmode⟩⟩
    · cases hopen
    · exact hbytes hlong
    · cases hchmod
    · cases hmode

end Nehemiah.Quarantine
