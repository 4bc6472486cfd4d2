import RustyPotato.LogRotation

/-!
# Runs of rotations

The directory after any number of rotations that succeed. With compression every log is given the
same name, and only the last one is left.
-/

namespace RustyPotato

open Lib

structure Rotation where
  log : LogFile
  env : RotationEnv

/-- The log has been written again, and its rotation succeeds. -/
def rotate (config : LogRotationConfig) (r : Rotation) (s : LogFiles) : Option LogFiles :=
  match (performRotation config r.env).run { s with log := some r.log } with
  | .ok [] t => some t
  | _ => none

/-- The contents are in the directory, compressed or not. -/
def Directory.Present (dir : Directory) (contents : Bytes) : Prop :=
  ∃ name file, dir.lookup name = some file ∧ file.stored.contents = contents

theorem rotate_eq_some (config : LogRotationConfig) (r : Rotation) (s t : LogFiles)
    (h : rotate config r s = some t) :
    (performRotation config r.env).run { s with log := some r.log } = .ok [] t := by
  unfold rotate at h
  split at h
  · next hrun =>
    cases h
    exact hrun
  · cases h

/-! ## The compressed name -/

theorem LogRotationConfig.utf8_logFileName_ne_nil (config : LogRotationConfig) :
    utf8 config.logFileName ≠ [] := by
  unfold logFileName
  cases hfile : config.fileName.bind fromUtf8 with
  | none => decide
  | some text =>
    obtain ⟨name, hname, htext⟩ := Option.bind_eq_some_iff.mp hfile
    rw [Option.getD_some, (fromUtf8_eq_some ..).mp htext]
    rintro rfl
    exact config.named hname

theorem fileStem_append (log extension : Bytes) (hlog : log ≠ []) (hextension : extension ≠ [])
    (hdot : ch '.' ∉ extension) : fileStem (log ++ ch '.' :: extension) = log := by
  have hdrop : (log ++ ch '.' :: extension).rdropWhile (· ≠ ch '.') = log ++ [ch '.'] := by
    unfold List.rdropWhile
    rw [List.reverse_append, List.reverse_cons, List.append_assoc, List.dropWhile_append_of_pos,
      List.singleton_append, List.dropWhile_cons_of_neg (by simp), List.reverse_cons,
      List.reverse_reverse]
    intro b hb
    rw [List.mem_reverse] at hb
    exact decide_eq_true fun heq => hdot (heq ▸ hb)
  have hdots : log ++ ch '.' :: extension ≠ utf8 ".." := by
    intro heq
    have hlength := congrArg List.length heq
    rw [List.length_append, List.length_cons, show (utf8 "..").length = 2 from by decide] at hlength
    have := List.length_pos_of_ne_nil hlog
    have := List.length_pos_of_ne_nil hextension
    omega
  unfold fileStem
  rw [hdrop, List.dropLast_concat, if_neg]
  rintro (hname | hmem | hnil)
  · exact hdots hname
  · exact hmem (List.mem_append_right _ List.mem_cons_self)
  · exact hlog hnil

theorem timestamp_digits (n : Nat) : toString n ≠ "" ∧ ∀ c ∈ (toString n).toList,
    c.isDigit = true := by
  have htoList := Decimal.toList_toString_nat n
  constructor
  · intro hempty
    rw [hempty] at htoList
    exact Nat.toDigits_ne_nil htoList.symm
  · intro c hc
    rw [htoList] at hc
    exact Nat.isDigit_of_mem_toDigits (by omega) (by omega) hc

theorem utf8_timestamp (n : Nat) : ∀ b ∈ utf8 (toString n), 48 ≤ b ∧ b ≤ 57 := by
  obtain ⟨-, hdigits⟩ := timestamp_digits n
  intro b hb
  rw [utf8_of_ascii _ fun c hc => (isDigit_toNat c (hdigits c hc)).2.trans_lt (by decide),
    List.mem_map] at hb
  obtain ⟨c, hc, rfl⟩ := hb
  exact ch_isDigit c (hdigits c hc)

theorem rotatedName_eq (config : LogRotationConfig) (timestamp : Nat) :
    rotatedName config timestamp =
      utf8 config.logFileName ++ ch '.' :: utf8 (toString timestamp) := by
  unfold rotatedName
  rw [utf8_append, utf8_append, List.append_assoc]
  rfl

/-- The name a log is given when it is compressed. The time is not part of it. -/
def compressedName (config : LogRotationConfig) : Bytes := utf8 (config.logFileName ++ ".log.gz")

theorem withExtension_rotatedName (config : LogRotationConfig) (timestamp : Nat) :
    withExtension (rotatedName config timestamp) "log.gz" = compressedName config := by
  have hdigits := utf8_timestamp timestamp
  unfold withExtension compressedName
  rw [rotatedName_eq, fileStem_append _ _ config.utf8_logFileName_ne_nil, utf8_append]
  · rfl
  · exact fun hnil => (timestamp_digits timestamp).1 (utf8_injective _ "" hnil)
  · intro hdot
    have := (hdigits _ hdot).1
    revert this
    decide

theorem rotatedName_ne_compressedName (config : LogRotationConfig) (timestamp : Nat) :
    rotatedName config timestamp ≠ compressedName config := by
  intro heq
  unfold compressedName at heq
  rw [rotatedName_eq, utf8_append, List.append_cancel_left_eq,
    show utf8 ".log.gz" = ch '.' :: utf8 "log.gz" from by decide, List.cons.injEq] at heq
  have := (utf8_timestamp timestamp (ch 'l') (heq.2 ▸ by decide)).2
  revert this
  decide

/-! ## With compression -/

theorem rotate_compressed (config : LogRotationConfig) (hcompress : config.compress = true)
    (hmax : 1 ≤ config.maxFiles) (r : Rotation) (s t : LogFiles)
    (hother : ∀ name, name ≠ compressedName config → s.dir.lookup name = none)
    (h : rotate config r s = some t) (name : Bytes) :
    t.dir.lookup name =
      if name = compressedName config then some ⟨.gzip r.log.stored, r.env.now⟩ else none := by
  obtain ⟨u, v, rfl, hcleanup, hcompressed⟩ :=
    performRotation_eq_ok rfl (rotate_eq_some config r s t h)
  rw [if_pos hcompress] at hcompressed
  obtain ⟨file, hfile, rfl⟩ := compressFile_eq_ok hcompressed
  rw [Finmap.lookup_insert] at hfile
  cases hfile
  rw [withExtension_rotatedName] at hcleanup
  have hne := rotatedName_ne_compressedName config r.env.timestamp
  set dir := ((s.dir.insert (rotatedName config r.env.timestamp) r.log).insert
    (compressedName config) ⟨.gzip r.log.stored, r.env.now⟩).erase
    (rotatedName config r.env.timestamp) with hdir
  have hlookup (name : Bytes) :
      dir.lookup name =
        if name = compressedName config then some ⟨.gzip r.log.stored, r.env.now⟩ else none := by
    rw [hdir]
    by_cases hrotated : name = rotatedName config r.env.timestamp
    · rw [hrotated, Finmap.lookup_erase, if_neg hne]
    · rw [Finmap.lookup_erase_ne hrotated]
      split_ifs with hname
      · rw [hname, Finmap.lookup_insert]
      · rw [Finmap.lookup_insert_of_ne _ hname, Finmap.lookup_insert_of_ne _ hrotated,
          hother name hname]
  -- One name at most is found, and one may stay.
  have hsubset : foundNames config r.env dir ⊆ [compressedName config] := by
    intro name hname
    rw [List.mem_singleton]
    by_contra hnot
    have hsome := List.of_mem_filter hname
    rw [hlookup, if_neg hnot, Option.isSome_none, Bool.and_false] at hsome
    cases hsome
  have hfound : (foundNames config r.env dir).length ≤ 1 :=
    (List.subperm_of_subset (r.env.distinct.filter _) hsubset).length_le
  rw [(cleanupOldFiles_eq_ok config r.env _ t hcleanup).2 name, Retention.oldest,
    Nat.sub_eq_zero_of_le (hfound.trans hmax), List.take_zero, if_neg List.not_mem_nil, hlookup]

/-- The last log and nothing else. -/
theorem run_compressed (config : LogRotationConfig) (hcompress : config.compress = true)
    (hmax : 1 ≤ config.maxFiles) (rotations : List Rotation) (s t : LogFiles) (hempty : s.dir = ∅)
    (hrun : Machine.run (rotate config) rotations s = some t) (name : Bytes) :
    t.dir.lookup name =
      if name = compressedName config then
        rotations.getLast?.map fun r => ⟨.gzip r.log.stored, r.env.now⟩
      else none := by
  refine Machine.run_induction (rotate config) s (fun rotations t => ∀ name,
    t.dir.lookup name =
      if name = compressedName config then
        rotations.getLast?.map fun r => ⟨.gzip r.log.stored, r.env.now⟩
      else none) ?_ ?_ rotations t hrun name
  · intro name
    rw [hempty, Finmap.lookup_empty, List.getLast?_nil, Option.map_none, ite_self]
  · intro rotations t r t' _ ih hstep name
    rw [List.getLast?_concat, Option.map_some]
    exact rotate_compressed config hcompress hmax r t t' (fun name hname =>
      by rw [ih, if_neg hname]) hstep name

theorem present_compressed (config : LogRotationConfig) (dir : Directory) (last : Option LogFile)
    (h : ∀ name, dir.lookup name = if name = compressedName config then last else none)
    (contents : Bytes) : dir.Present contents ↔ ∃ file ∈ last, file.stored.contents = contents := by
  constructor
  · rintro ⟨name, file, hfile, hcontents⟩
    rw [h] at hfile
    split_ifs at hfile
    exact ⟨file, hfile, hcontents⟩
  · rintro ⟨file, hfile, hcontents⟩
    exact ⟨compressedName config, file, by rw [h, if_pos rfl]; exact hfile, hcontents⟩

/-- Of the logs that should be kept, those are present that are the last one again. -/
theorem rotations_retained_iff (config : LogRotationConfig) (hcompress : config.compress = true)
    (hmax : 1 ≤ config.maxFiles) (rotations : List Rotation) (s t : LogFiles) (hempty : s.dir = ∅)
    (hrun : Machine.run (rotate config) rotations s = some t) :
    (∀ r ∈ rotations.rtake config.maxFiles, t.dir.Present r.log.stored.contents) ↔
      ∀ r ∈ rotations.rtake config.maxFiles, ∀ last ∈ rotations.getLast?,
        r.log.stored.contents = last.log.stored.contents := by
  have hpresent := present_compressed config t.dir _
    (run_compressed config hcompress hmax rotations s t hempty hrun)
  refine forall₂_congr fun r hr => ?_
  have hne : rotations ≠ [] := by
    rintro rfl
    simp at hr
  rw [hpresent, List.getLast?_eq_some_getLast hne]
  simp [Stored.contents, eq_comm]

/-- One log after the other in a directory where nothing else is found. -/
def quietRotation (contents : Bytes) (timestamp : Nat) : Rotation where
  log := ⟨.plain contents, timestamp⟩
  env := quietSystem timestamp (timestamp + 1) [utf8 "app.log.log.gz"] (List.nodup_singleton _)

theorem equal_rotations_retained : ∃ t,
    Machine.run (rotate (appLog 7)) [quietRotation [1] 100, quietRotation [1] 200] ⟨none, ∅⟩ =
      some t ∧
    ∀ r ∈ [quietRotation [1] 100, quietRotation [1] 200].rtake 7,
      t.dir.Present r.log.stored.contents := by
  refine ⟨_, rfl, ?_⟩
  refine (rotations_retained_iff (appLog 7) rfl (by decide)
    [quietRotation [1] 100, quietRotation [1] 200] ⟨none, ∅⟩ _ rfl rfl).mpr ?_
  intro r hr last hlast
  cases hlast
  rcases List.mem_cons.mp hr with rfl | hr
  · rfl
  · cases List.mem_singleton.mp hr
    rfl

theorem second_rotation_overwrites_first : ∃ t,
    Machine.run (rotate (appLog 7)) [quietRotation [1] 100, quietRotation [2] 200] ⟨none, ∅⟩ =
      some t ∧
    quietRotation [1] 100 ∈ [quietRotation [1] 100, quietRotation [2] 200].rtake 7 ∧
    ¬ t.dir.Present (quietRotation [1] 100).log.stored.contents := by
  refine ⟨_, rfl, List.mem_cons_self, ?_⟩
  rw [present_compressed (appLog 7) _ _ (run_compressed (appLog 7) rfl (by decide)
    [quietRotation [1] 100, quietRotation [2] 200] ⟨none, ∅⟩ _ rfl rfl)]
  rintro ⟨file, hfile, hcontents⟩
  cases hfile
  exact absurd hcontents (by decide)

end RustyPotato
