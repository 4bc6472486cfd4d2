import Mathlib.Data.List.DropRight
import RustyPotato.Lib.Machine
import RustyPotato.Lib.Retention
import RustyPotato.Text

/-!
# Log rotation (`monitoring/log_rotation.rs`)

A rotation moves the log to a name with the time in it, compresses it and removes the oldest rotated
logs. What is a rotated log is told by its name.
-/

namespace RustyPotato

open Lib

/-! ## Files -/

/-- Bytes as they were written, or the gzip of what a file holds. -/
inductive Stored where
  | plain (bytes : Bytes)
  | gzip (inner : Stored)
deriving DecidableEq

def Stored.contents : Stored → Bytes
  | plain bytes => bytes
  | gzip inner => inner.contents

structure LogFile where
  stored : Stored
  modified : Nat
deriving DecidableEq

abbrev Directory := Finmap fun _ : Bytes => LogFile

/-- `Path::file_stem` of a file name: what stands before the last dot, if that is something. -/
def fileStem (name : Bytes) : Bytes :=
  let before := (name.rdropWhile (· ≠ ch '.')).dropLast
  if name = utf8 ".." ∨ ch '.' ∉ name ∨ before = [] then name else before

/-- `Path::with_extension` of a file name. -/
def withExtension (name : Bytes) (extension : String) : Bytes :=
  fileStem name ++ utf8 ("." ++ extension)

/-! ## The names of rotated logs -/

/-- `file_name` is the last part of `log_file_path`, if it has one. -/
structure LogRotationConfig where
  fileName : Option Bytes
  named : fileName ≠ some []
  maxFiles : Nat
  compress : Bool

def LogRotationConfig.logFileName (config : LogRotationConfig) : String :=
  (config.fileName.bind fromUtf8).getD "rustypotato.log"

/-- The characters that are skipped are as many as the log's name has bytes. -/
def isRotatedFileStatic (filename logFileName : String) : Bool :=
  (logFileName ++ ".").toList.isPrefixOf filename.toList &&
    (".gz".toList.isSuffixOf filename.toList ||
      (filename.toList.drop ((utf8 logFileName).length + 1)).all Char.isDigit)

/-- A name that is not UTF-8 is passed over. -/
def LogRotationConfig.accepts (config : LogRotationConfig) (name : Bytes) : Bool :=
  (fromUtf8 name).any fun filename => isRotatedFileStatic filename config.logFileName

/-! ## The system -/

inductive FileOp where
  | createDirAll
  | rename
  | read
  | encode
  | finish
  | create
  | write
  | removeOriginal
  | readDir
  | remove (name : Bytes)
deriving DecidableEq

/--
The system during one rotation. `entries` are the names `next_entry` yields, in any order. A failing
operation has the text of its error, and a failing write leaves `torn` in the file.
-/
structure RotationEnv where
  timestamp : Nat
  now : Nat
  entries : List Bytes
  distinct : entries.Nodup
  fails : FileOp → Option String
  torn : Bytes

structure InternalError where
  message : String
  component : String
deriving DecidableEq

/-- Errors that are logged only. -/
inductive RotationWarning where
  | compress (e : InternalError)
  | remove (name : Bytes) (e : String)
deriving DecidableEq

/-- The current log, if there is one, and the directory of the rotated ones. -/
structure LogFiles where
  log : Option LogFile
  dir : Directory
deriving DecidableEq

/-- An error leaves the files as they are by then. -/
abbrev Rotating := EStateM InternalError LogFiles

namespace RotationEnv

variable (env : RotationEnv)

def fail {α : Type} (message e : String) : Rotating α := throw ⟨message ++ e, "log_rotation"⟩

def attempt (op : FileOp) (message : String) : Rotating Unit :=
  match env.fails op with
  | some e => fail message e
  | none => pure ()

def read (path : Bytes) (message : String) : Rotating Stored := do
  env.attempt .read message
  match (← get).dir.lookup path with
  | some file => pure file.stored
  | none => fail message "No such file or directory (os error 2)"

def write (path : Bytes) (stored : Stored) (message : String) : Rotating Unit := do
  env.attempt .create message
  match env.fails .write with
  | some e => do
    modify fun s => { s with dir := s.dir.insert path ⟨.plain env.torn, env.now⟩ }
    fail message e
  | none => modify fun s => { s with dir := s.dir.insert path ⟨stored, env.now⟩ }

end RotationEnv

/-! ## The rotation -/

def compressFile (env : RotationEnv) (filePath : Bytes) : Rotating Unit := do
  let input ← env.read filePath "Failed to read file for compression: "
  let compressedPath := withExtension filePath "log.gz"
  env.attempt .encode "Failed to compress data: "
  env.attempt .finish "Failed to finish compression: "
  env.write compressedPath (.gzip input) "Failed to write compressed file: "
  env.attempt .removeOriginal "Failed to remove original file after compression: "
  modify fun s => { s with dir := s.dir.erase filePath }

def rotatedFiles (config : LogRotationConfig) (env : RotationEnv) (dir : Directory) :
    List (Bytes × Nat) :=
  env.entries.filterMap fun name =>
    if config.accepts name then (dir.lookup name).map fun file => (name, file.modified) else none

def removeFiles (env : RotationEnv) : List (Bytes × Nat) → Directory →
    List RotationWarning × Directory
  | [], dir => ([], dir)
  | (name, _) :: rest, dir =>
    match env.fails (.remove name) with
    | some e => (.remove name e :: (removeFiles env rest dir).1, (removeFiles env rest dir).2)
    | none => removeFiles env rest (dir.erase name)

def cleanupOldFiles (config : LogRotationConfig) (env : RotationEnv) :
    Rotating (List RotationWarning) := do
  env.attempt .readDir "Failed to read rotation directory: "
  let s ← get
  let sorted := (rotatedFiles config env s.dir).insertionSort fun a b => a.2 ≤ b.2
  if sorted.length > config.maxFiles then
    let removed := removeFiles env (sorted.take (sorted.length - config.maxFiles)) s.dir
    set { s with dir := removed.2 }
    pure removed.1
  else
    pure []

def rotatedName (config : LogRotationConfig) (timestamp : Nat) : Bytes :=
  utf8 (config.logFileName ++ "." ++ toString timestamp)

/-- The rotation goes on when the compression fails. -/
def compressIfEnabled (config : LogRotationConfig) (env : RotationEnv) (rotatedPath : Bytes) :
    Rotating (List RotationWarning) :=
  if config.compress then
    tryCatch (do compressFile env rotatedPath; pure []) fun e => pure [.compress e]
  else
    pure []

/-- What is returned is what has been warned of. -/
def performRotation (config : LogRotationConfig) (env : RotationEnv) :
    Rotating (List RotationWarning) := do
  match (← get).log with
  | none => pure []
  | some log => do
    env.attempt .createDirAll "Failed to create rotation directory: "
    let rotatedPath := rotatedName config env.timestamp
    env.attempt .rename "Failed to rotate log file: "
    modify fun s => ⟨none, s.dir.insert rotatedPath log⟩
    let warned ← compressIfEnabled config env rotatedPath
    let failed ← cleanupOldFiles config env
    pure (warned ++ failed)

/-! ## What a success has done -/

section Success

variable {α β : Type} {env : RotationEnv} {config : LogRotationConfig} {s t : LogFiles}

theorem rotating_bind_eq_ok {x : Rotating α} {f : α → Rotating β} {b : β} :
    (x >>= f).run s = .ok b t ↔ ∃ a u, x.run s = .ok a u ∧ (f a).run u = .ok b t := by
  show EStateM.bind x f s = .ok b t ↔ ∃ a u, x s = .ok a u ∧ f a u = .ok b t
  unfold EStateM.bind
  cases x s with
  | ok a u => simp
  | error e u => simp

theorem attempt_bind_eq_ok {op : FileOp} {message : String} {f : Unit → Rotating β} {b : β} :
    (env.attempt op message >>= f).run s = .ok b t ↔ env.fails op = none ∧
      (f ()).run s = .ok b t := by
  rw [rotating_bind_eq_ok]
  unfold RotationEnv.attempt
  cases env.fails op with
  | none =>
    constructor
    · rintro ⟨_, _, hpure, hf⟩
      cases hpure
      exact ⟨rfl, hf⟩
    · exact fun ⟨_, hf⟩ => ⟨(), s, rfl, hf⟩
  | some e =>
    constructor
    · rintro ⟨_, _, hthrow, _⟩
      cases hthrow
    · rintro ⟨hnone, _⟩
      cases hnone

theorem read_eq_ok {path : Bytes} {message : String} {stored : Stored}
    (h : (env.read path message).run s = .ok stored t) :
    t = s ∧ ∃ file, s.dir.lookup path = some file ∧ file.stored = stored := by
  obtain ⟨-, hrest⟩ := attempt_bind_eq_ok.mp h
  obtain ⟨_, _, hget, hfile⟩ := rotating_bind_eq_ok.mp hrest
  cases hget
  split at hfile
  · next file hlookup =>
    cases hfile
    exact ⟨rfl, file, hlookup, rfl⟩
  · cases hfile

theorem write_eq_ok {path : Bytes} {stored : Stored} {message : String} {u : Unit}
    (h : (env.write path stored message).run s = .ok u t) :
    t = { s with dir := s.dir.insert path ⟨stored, env.now⟩ } := by
  obtain ⟨-, hrest⟩ := attempt_bind_eq_ok.mp h
  split at hrest <;> cases hrest
  rfl

theorem compressFile_eq_ok {filePath : Bytes} {u : Unit}
    (h : (compressFile env filePath).run s = .ok u t) :
    ∃ file, s.dir.lookup filePath = some file ∧ t = { s with
      dir := (s.dir.insert (withExtension filePath "log.gz")
        ⟨.gzip file.stored, env.now⟩).erase filePath } := by
  obtain ⟨_, _, hread, hencode⟩ := rotating_bind_eq_ok.mp h
  obtain ⟨rfl, file, hfile, rfl⟩ := read_eq_ok hread
  obtain ⟨-, hfinish⟩ := attempt_bind_eq_ok.mp hencode
  obtain ⟨-, hwrite⟩ := attempt_bind_eq_ok.mp hfinish
  obtain ⟨_, _, hwritten, hremove⟩ := rotating_bind_eq_ok.mp hwrite
  obtain rfl := write_eq_ok hwritten
  obtain ⟨-, herase⟩ := attempt_bind_eq_ok.mp hremove
  cases herase
  exact ⟨file, hfile, rfl⟩

/-- Without a warning the compression has succeeded, where there is one. -/
theorem compressIfEnabled_eq_ok {rotatedPath : Bytes}
    (h : (compressIfEnabled config env rotatedPath).run s = .ok [] t) :
    if config.compress then (compressFile env rotatedPath).run s = .ok () t else t = s := by
  unfold compressIfEnabled EStateM.run at h
  split_ifs at h ⊢
  · simp only [tryCatch, tryCatchThe, MonadExceptOf.tryCatch, EStateM.tryCatch, bind,
      EStateM.bind] at h
    unfold EStateM.run
    cases hcompress : compressFile env rotatedPath s with
    | ok u v =>
      rw [hcompress] at h
      cases h
      rfl
    | error e v =>
      rw [hcompress] at h
      cases h
  · cases h
    rfl

theorem performRotation_eq_ok {log : LogFile} (hlog : s.log = some log)
    (h : (performRotation config env).run s = .ok [] t) :
    ∃ u v, u = ⟨none, s.dir.insert (rotatedName config env.timestamp) log⟩ ∧
      (cleanupOldFiles config env).run v = .ok [] t ∧
      if config.compress then
        (compressFile env (rotatedName config env.timestamp)).run u = .ok () v
      else v = u := by
  obtain ⟨_, _, hget, hmatch⟩ := rotating_bind_eq_ok.mp h
  cases hget
  rw [hlog] at hmatch
  obtain ⟨-, hrename⟩ := attempt_bind_eq_ok.mp hmatch
  obtain ⟨-, hmove⟩ := attempt_bind_eq_ok.mp hrename
  obtain ⟨_, u, hmoved, hrest⟩ := rotating_bind_eq_ok.mp hmove
  cases hmoved
  obtain ⟨warned, v, hwarned, hcleanup⟩ := rotating_bind_eq_ok.mp hrest
  obtain ⟨failed, w, hclean, hpure⟩ := rotating_bind_eq_ok.mp hcleanup
  obtain ⟨hnone, rfl⟩ : warned ++ failed = [] ∧ w = t := by
    injection hpure with hnone hstate
    exact ⟨hnone, hstate⟩
  obtain ⟨rfl, rfl⟩ := List.append_eq_nil_iff.mp hnone
  exact ⟨_, v, rfl, hclean, compressIfEnabled_eq_ok hwarned⟩

end Success

/-! ## What the cleanup removes -/

def Directory.time (dir : Directory) (name : Bytes) : Nat :=
  ((dir.lookup name).map (·.modified)).getD 0

/-- The names that pass the test, in the order they are found. -/
def foundNames (config : LogRotationConfig) (env : RotationEnv) (dir : Directory) : List Bytes :=
  env.entries.filter fun name => config.accepts name && (dir.lookup name).isSome

theorem rotatedFiles_eq (config : LogRotationConfig) (env : RotationEnv) (dir : Directory) :
    rotatedFiles config env dir =
      (foundNames config env dir).map fun name => (name, dir.time name) := by
  unfold rotatedFiles foundNames
  induction env.entries with
  | nil => rfl
  | cons name rest ih =>
    rw [List.filterMap_cons, List.filter_cons]
    cases haccepts : config.accepts name <;> cases hlookup : dir.lookup name <;>
      simp [ih, Directory.time, hlookup]

theorem removeFiles_eq (env : RotationEnv) (files : List (Bytes × Nat)) (dir : Directory)
    (h : (removeFiles env files dir).1 = []) (name : Bytes) :
    (removeFiles env files dir).2.lookup name =
      if name ∈ files.map Prod.fst then none else dir.lookup name := by
  induction files generalizing dir with
  | nil => rfl
  | cons file rest ih =>
    unfold removeFiles at h ⊢
    split at h
    · cases h
    · rw [ih _ h, List.map_cons]
      by_cases hname : name = file.1
      · rw [hname, Finmap.lookup_erase, ite_self, if_pos List.mem_cons_self]
      · simp only [Finmap.lookup_erase_ne hname, List.mem_cons, hname, false_or]

theorem cleanupOldFiles_eq_ok (config : LogRotationConfig) (env : RotationEnv) (s t : LogFiles)
    (h : (cleanupOldFiles config env).run s = .ok [] t) :
    t.log = s.log ∧ ∀ name, t.dir.lookup name =
      if name ∈ Retention.oldest s.dir.time config.maxFiles (foundNames config env s.dir) then none
      else s.dir.lookup name := by
  obtain ⟨-, hrest⟩ := attempt_bind_eq_ok.mp h
  obtain ⟨_, _, hget, hsort⟩ := rotating_bind_eq_ok.mp hrest
  cases hget
  have hsorted : (rotatedFiles config env s.dir).insertionSort (fun a b => a.2 ≤ b.2) =
      ((foundNames config env s.dir).insertionSort fun a b => s.dir.time a ≤ s.dir.time b).map
        fun name => (name, s.dir.time name) := by
    rw [rotatedFiles_eq]
    refine (List.map_insertionSort _ (fun a b : Bytes × Nat => a.2 ≤ b.2) _ _ ?_).symm
    exact fun _ _ _ _ => Iff.rfl
  rw [hsorted] at hsort
  simp only [List.length_map, List.length_insertionSort] at hsort
  unfold Retention.oldest
  split_ifs at hsort with hmore
  · obtain ⟨_, u, hset, hpure⟩ := rotating_bind_eq_ok.mp hsort
    cases hset
    obtain ⟨hwarned, rfl⟩ := EStateM.Result.ok.inj hpure
    refine ⟨rfl, fun name => ?_⟩
    rw [removeFiles_eq env _ _ hwarned, List.map_take, List.map_map]
    simp only [Function.comp_def, List.map_id']
  · cases hsort
    rw [Nat.sub_eq_zero_of_le (Nat.le_of_not_gt hmore), List.take_zero]
    exact ⟨rfl, fun _ => rfl⟩

/-! ## Which names pass -/

/-- The log's name, a dot and digits, as it is or compressed. -/
def RotatedName (logFileName : String) (name : Bytes) : Prop :=
  ∃ digits : String, digits ≠ "" ∧ (∀ c ∈ digits.toList, c.isDigit = true) ∧
    (name = utf8 (logFileName ++ "." ++ digits) ∨
      name = utf8 (logFileName ++ "." ++ digits ++ ".gz"))

theorem length_le_utf8 (s : String) : s.toList.length ≤ (utf8 s).length := by
  rw [← String.ofList_toList (s := s), utf8_ofList, String.toList_ofList]
  induction s.toList with
  | nil => simp
  | cons c cs ih =>
    have := Char.utf8Size_pos c
    rw [List.flatMap_cons, List.length_append, String.length_utf8EncodeChar, List.length_cons]
    omega

/--
After the dot, either the end is right or the rest is digits. Where the log's name is not ASCII, the
rest is not looked at from its beginning.
-/
theorem isRotatedFileStatic_append (log rest : String) :
    isRotatedFileStatic (log ++ "." ++ rest) log = true ↔
      ".gz".toList <:+ (log ++ "." ++ rest).toList ∨
      ∀ c ∈ rest.toList.drop ((utf8 log).length - log.toList.length), c.isDigit = true := by
  have hlength := length_le_utf8 log
  have hdot : (log ++ ".").toList.length = log.toList.length + 1 := by simp
  have hdrop : (log ++ "." ++ rest).toList.drop ((utf8 log).length + 1) =
      rest.toList.drop ((utf8 log).length - log.toList.length) := by
    rw [String.toList_append, List.drop_append, List.drop_eq_nil_of_le (by omega), List.nil_append,
      hdot, Nat.add_sub_add_right]
  have hprefix : (log ++ ".").toList <+: (log ++ "." ++ rest).toList :=
    ⟨rest.toList, String.toList_append.symm⟩
  unfold isRotatedFileStatic
  rw [hdrop, Bool.and_eq_true, Bool.or_eq_true, List.isPrefixOf_iff_prefix,
    List.isSuffixOf_iff_suffix, List.all_eq_true]
  exact and_iff_right hprefix

theorem accepts_iff (config : LogRotationConfig) (name : Bytes) :
    config.accepts name = true ↔ ∃ rest : String, name = utf8 (config.logFileName ++ "." ++ rest) ∧
      isRotatedFileStatic (config.logFileName ++ "." ++ rest) config.logFileName = true := by
  unfold LogRotationConfig.accepts
  rw [Option.any_eq_true]
  constructor
  · rintro ⟨filename, hname, hpass⟩
    obtain ⟨rest, hrest⟩ : (config.logFileName ++ ".").toList <+: filename.toList := by
      have hpass' := hpass
      unfold isRotatedFileStatic at hpass'
      rw [Bool.and_eq_true, List.isPrefixOf_iff_prefix] at hpass'
      exact hpass'.1
    obtain rfl : filename = config.logFileName ++ "." ++ String.ofList rest := by
      rw [← String.toList_inj, ← hrest, String.toList_append (t := String.ofList rest),
        String.toList_ofList]
    exact ⟨String.ofList rest, ((fromUtf8_eq_some ..).mp hname).symm, hpass⟩
  · rintro ⟨rest, rfl, hpass⟩
    exact ⟨_, (fromUtf8_eq_some ..).mpr rfl, hpass⟩

theorem RotatedName.accepts (config : LogRotationConfig) (name : Bytes)
    (h : RotatedName config.logFileName name) : config.accepts name = true := by
  rw [accepts_iff]
  obtain ⟨digits, -, hdigits, rfl | rfl⟩ := h
  · refine ⟨digits, rfl, (isRotatedFileStatic_append ..).mpr (.inr fun c hc => ?_)⟩
    exact hdigits c (List.mem_of_mem_drop hc)
  · refine ⟨digits ++ ".gz", by rw [← String.append_assoc],
      (isRotatedFileStatic_append ..).mpr (.inl ?_)⟩
    rw [← String.append_assoc, String.toList_append]
    exact List.suffix_append ..

/-! ## What the cleanup removes, by names -/

theorem toFinset_foundNames (config : LogRotationConfig) (env : RotationEnv) (dir : Directory)
    (hlisted : ∀ name ∈ dir.keys, name ∈ env.entries) :
    (foundNames config env dir).toFinset = dir.keys.filter fun name => config.accepts name =
      true := by
  ext name
  have hmem : name ∈ dir.keys ↔
      (dir.lookup name).isSome := by rw [Finmap.mem_keys, Finmap.lookup_isSome]
  unfold foundNames
  rw [List.mem_toFinset, List.mem_filter, Finset.mem_filter, Bool.and_eq_true, ← hmem]
  exact ⟨fun ⟨_, haccepts, hname⟩ => ⟨hname, haccepts⟩,
    fun ⟨hname, haccepts⟩ => ⟨hlisted name hname, haccepts, hname⟩⟩

/-- Of the names that pass, those go that have as many newer ones as may be kept. -/
theorem cleanupOldFiles_removes (config : LogRotationConfig) (env : RotationEnv) (s t : LogFiles)
    (hlisted : ∀ name ∈ s.dir.keys, name ∈ env.entries)
    (hdistinct : Set.InjOn s.dir.time s.dir.keys)
    (h : (cleanupOldFiles config env).run s = .ok [] t) (name : Bytes) :
    t.dir.lookup name =
      if name ∈ Retention.excess s.dir.time config.maxFiles
        (s.dir.keys.filter fun name => config.accepts name = true)
      then none else s.dir.lookup name := by
  have hfound := toFinset_foundNames config env s.dir hlisted
  have htimes : (foundNames config env s.dir).Pairwise fun a b => s.dir.time a ≠ s.dir.time b := by
    refine (env.distinct.filter _).imp_of_mem fun ha hb hne heq => hne (hdistinct ?_ ?_ heq)
    · exact Finset.mem_of_mem_filter _ (hfound ▸ List.mem_toFinset.mpr ha)
    · exact Finset.mem_of_mem_filter _ (hfound ▸ List.mem_toFinset.mpr hb)
  rw [(cleanupOldFiles_eq_ok config env s t h).2 name, ← hfound,
    ← Retention.toFinset_oldest _ _ _ htimes]
  simp only [List.mem_toFinset]

open Classical in
/--
The cleanup removes the oldest of the rotated logs, and nothing else, if no other name passes or if
there is nothing to remove.
-/
theorem cleanup_removes_rotated_iff (config : LogRotationConfig) (env : RotationEnv)
    (s t : LogFiles) (hlisted : ∀ name ∈ s.dir.keys, name ∈ env.entries)
    (hdistinct : Set.InjOn s.dir.time s.dir.keys)
    (h : (cleanupOldFiles config env).run s = .ok [] t) :
    (∀ name ∈ t.dir, t.dir.lookup name = s.dir.lookup name) ∧
    ((∀ name, name ∈ s.dir ∧ name ∉ t.dir ↔ name ∈ Retention.excess s.dir.time config.maxFiles
        (s.dir.keys.filter (RotatedName config.logFileName))) ↔
      (∀ name ∈ s.dir, config.accepts name = true → RotatedName config.logFileName name) ∨
        (s.dir.keys.filter fun name => config.accepts name = true).card ≤ config.maxFiles) := by
  have hlookup := cleanupOldFiles_removes config env s t hlisted hdistinct h
  set accepted := s.dir.keys.filter fun name => config.accepts name = true with haccepted
  have hrotated : s.dir.keys.filter (RotatedName config.logFileName) =
      accepted.filter (RotatedName config.logFileName) := by
    rw [haccepted, Finset.filter_filter]
    refine Finset.filter_congr fun name _ => ?_
    exact (and_iff_right_of_imp (RotatedName.accepts config name)).symm
  have hremoved (name : Bytes) :
      name ∈ s.dir ∧ name ∉ t.dir ↔
      name ∈ Retention.excess s.dir.time config.maxFiles accepted := by
    rw [← Finmap.lookup_eq_none, hlookup]
    split_ifs with hexcess
    · refine iff_of_true ⟨?_, rfl⟩ hexcess
      exact Finmap.mem_keys.mp (Finset.mem_of_mem_filter _ (Finset.mem_of_mem_filter _ hexcess))
    · refine iff_of_false (fun ⟨hmem, hnone⟩ => ?_) hexcess
      exact Finmap.lookup_eq_none.mp hnone hmem
  refine ⟨fun name hname => ?_, ?_⟩
  · rw [hlookup, if_neg fun hexcess => ((hremoved name).mpr hexcess).2 hname]
  · have hinj : Set.InjOn s.dir.time accepted :=
      hdistinct.mono (Finset.coe_subset.mpr (Finset.filter_subset ..))
    have hall : (∀ name ∈ accepted, RotatedName config.logFileName name) ↔
        ∀ name ∈ s.dir, config.accepts name = true → RotatedName config.logFileName name := by
      simp only [haccepted, Finset.mem_filter, Finmap.mem_keys, and_imp]
    simp only [hremoved]
    rw [← Finset.ext_iff, hrotated, Retention.excess_filter_iff _ _ _ hinj, hall]

theorem appLog_ne_nil : some (utf8 "app.log") ≠ some [] := by decide

def appLog (maxFiles : Nat) : LogRotationConfig :=
  ⟨some (utf8 "app.log"), appLog_ne_nil, maxFiles, true⟩

/-- A system where nothing fails. -/
def quietSystem (timestamp now : Nat) (entries : List Bytes) (h : entries.Nodup) : RotationEnv :=
  ⟨timestamp, now, entries, h, fun _ => none, []⟩

/-- A file next to one rotated log. -/
def twoFiles (name : String) : LogFiles :=
  ⟨none, (Finmap.singleton (utf8 name) ⟨.plain [1], 1⟩).insert (utf8 "app.log.100") ⟨.plain [2], 2⟩⟩

def twoEntries (name : String) (h : [utf8 name, utf8 "app.log.100"].Nodup) : RotationEnv :=
  quietSystem 101 3 _ h

theorem rotatedPair_nodup : [utf8 "app.log.99", utf8 "app.log.100"].Nodup := by decide +kernel

theorem foreignPair_nodup : [utf8 "app.log.old.gz", utf8 "app.log.100"].Nodup := by decide +kernel

open Classical in
theorem cleanup_removes_older : ∃ t,
    (cleanupOldFiles (appLog 1) (twoEntries _ rotatedPair_nodup)).run (twoFiles "app.log.99") =
      .ok [] t ∧
    ∀ name, name ∈ (twoFiles "app.log.99").dir ∧ name ∉ t.dir ↔
      name ∈ Retention.excess (twoFiles "app.log.99").dir.time 1
        ((twoFiles "app.log.99").dir.keys.filter (RotatedName "app.log")) := by
  have hlog : (appLog 1).logFileName = "app.log" := by decide +kernel
  have hkeys : ∀ name ∈ (twoFiles "app.log.99").dir.keys, name = utf8 "app.log.99" ∨
      name = utf8 "app.log.100" := by
    decide +kernel
  have htimes : ∀ a ∈ (twoFiles "app.log.99").dir.keys, ∀ b ∈ (twoFiles "app.log.99").dir.keys,
      (twoFiles "app.log.99").dir.time a = (twoFiles "app.log.99").dir.time b → a = b := by
    decide +kernel
  refine ⟨⟨none, Finmap.singleton (utf8 "app.log.100") ⟨.plain [2], 2⟩⟩, rfl, ?_⟩
  rw [← hlog]
  refine (cleanup_removes_rotated_iff (appLog 1) (twoEntries _ rotatedPair_nodup) _ _ ?_
    (fun a ha b hb => htimes a ha b hb) rfl).2.mpr (.inl fun name hname _ => ?_)
  · decide +kernel
  · rw [hlog]
    rcases hkeys name (Finmap.mem_keys.mpr hname) with rfl | rfl
    · exact ⟨"99", by decide, List.all_eq_true.mp (by decide), .inl rfl⟩
    · exact ⟨"100", by decide, List.all_eq_true.mp (by decide), .inl rfl⟩

theorem rotatedName_digit (log rest : String) (h : RotatedName log (utf8 (log ++ "." ++ rest))) :
    ∃ c ∈ rest.toList.head?, c.isDigit = true := by
  obtain ⟨digits, hne, hdigits, hname⟩ := h
  obtain ⟨tail, hrest⟩ : ∃ tail, rest.toList = digits.toList ++ tail := by
    rcases hname with hname | hname
    · have heq := congrArg String.toList (utf8_injective _ _ hname)
      simp only [String.toList_append, List.append_cancel_left_eq] at heq
      exact ⟨[], by rw [heq, List.append_nil]⟩
    · have heq := congrArg String.toList (utf8_injective _ _ hname)
      simp only [String.toList_append, List.append_assoc, List.append_cancel_left_eq] at heq
      exact ⟨_, heq⟩
  obtain ⟨c, cs, hcs⟩ :=
    List.exists_cons_of_ne_nil fun hnil => hne (String.toList_eq_nil_iff.mp hnil)
  refine ⟨c, ?_, hdigits c (hcs ▸ List.mem_cons_self)⟩
  rw [hrest, hcs]
  rfl

/-- An archive of another name is taken for the oldest of the rotated logs. -/
theorem cleanup_removes_foreign : ∃ t,
    (cleanupOldFiles (appLog 1) (twoEntries _ foreignPair_nodup)).run (twoFiles "app.log.old.gz") =
      .ok [] t ∧
    utf8 "app.log.old.gz" ∈ (twoFiles "app.log.old.gz").dir ∧ utf8 "app.log.old.gz" ∉ t.dir ∧
    ¬ RotatedName (appLog 1).logFileName (utf8 "app.log.old.gz") := by
  have hlog : (appLog 1).logFileName = "app.log" := by decide +kernel
  refine ⟨⟨none, Finmap.singleton (utf8 "app.log.100") ⟨.plain [2], 2⟩⟩, rfl, by decide +kernel,
    by decide +kernel, ?_⟩
  rw [hlog]
  intro hname
  obtain ⟨c, hc, hdigit⟩ := rotatedName_digit "app.log" "old.gz" hname
  cases hc
  exact absurd hdigit (by decide)

end RustyPotato
