import RustyPotato.Accepted
import RustyPotato.Config
import RustyPotato.WireSize

/-!
# Whether the log is replayed

The log holds the frames that connections have let through. They are decoded a second time under the
default limits, from reads of another size, and the limit of the buffer counts what is left of a
frame together with the whole of the next read.
-/

namespace RustyPotato

open Lib.Stream

/-- No read comes on top of so much of a frame that the buffer is too small. -/
def ReadsHaveRoom (cap held : Nat) (frames chunks : List Bytes) : Prop :=
  ∀ pre chunk post, chunks = pre ++ chunk :: post →
    leftOver (held + pre.flatten.length) frames + chunk.length ≤ cap

/-- What the codec of the replay asks of the log and of the reads. -/
structure LogFits (frames : List Bytes) (cmds : List ParsedCommand) (chunks : List Bytes) :
    Prop where
  count : ∀ cmd ∈ cmds, cmd.totalArgs ≤ CodecLimits.default.maxArrayLength
  room : ReadsHaveRoom CodecLimits.default.maxBufferSize 0 frames chunks

/-! ## The limit of the buffer -/

section
variable (cap held : Nat) (frames : List Bytes)

theorem readsHaveRoom_cons (chunk : Bytes) (chunks : List Bytes) :
    ReadsHaveRoom cap held frames (chunk :: chunks) ↔
      leftOver held frames + chunk.length ≤ cap ∧
        ReadsHaveRoom cap (held + chunk.length) frames chunks := by
  constructor
  · intro h
    refine ⟨by simpa using h [] chunk chunks rfl, ?_⟩
    rintro pre c post rfl
    simpa [Nat.add_assoc] using h (chunk :: pre) c post rfl
  · rintro ⟨hfirst, hrest⟩ pre c post hsplit
    cases pre with
    | nil =>
      cases hsplit
      simpa using hfirst
    | cons c' pre =>
      cases hsplit
      simpa [Nat.add_assoc] using hrest pre c post rfl

theorem readsHaveRoom_append (fs gs chunks : List Bytes) :
    ReadsHaveRoom cap (fs.flatten.length + held) (fs ++ gs) chunks ↔
      ReadsHaveRoom cap held gs chunks := by
  unfold ReadsHaveRoom
  simp only [Nat.add_assoc, leftOver_append]

/-- A read that ends a frame has come on top of all of it. -/
theorem exists_chunk_at (chunks : List Bytes) (n : Nat) (hpos : 0 < n)
    (hn : n ≤ chunks.flatten.length) :
    ∃ pre chunk post, chunks = pre ++ chunk :: post ∧ pre.flatten.length < n ∧
      n ≤ pre.flatten.length + chunk.length := by
  induction chunks generalizing n with
  | nil =>
    simp only [List.flatten_nil, List.length_nil] at hn
    omega
  | cons c chunks ih =>
    by_cases hle : n ≤ c.length
    · exact ⟨[], c, chunks, rfl, hpos, by simpa using hle⟩
    · rw [List.flatten_cons, List.length_append] at hn
      obtain ⟨pre, chunk, post, rfl, hlt, hend⟩ := ih (n - c.length) (by omega) (by omega)
      refine ⟨c :: pre, chunk, post, rfl, ?_, ?_⟩
      · rw [List.flatten_cons, List.length_append]
        omega
      · rw [List.flatten_cons, List.length_append]
        omega

theorem frame_le_cap (chunks : List Bytes) (hfile : chunks.flatten = frames.flatten)
    (h : ReadsHaveRoom cap 0 frames chunks) (frame : Bytes) (hframe : frame ∈ frames) :
    frame.length ≤ cap := by
  obtain ⟨fs, gs, rfl⟩ := List.append_of_mem hframe
  by_cases hpos : frame.length = 0
  · omega
  · have hlen := congrArg List.length hfile
    rw [List.flatten_append, List.flatten_cons, List.length_append, List.length_append] at hlen
    obtain ⟨pre, chunk, post, hsplit, hlt, hend⟩ :=
      exists_chunk_at chunks (fs.flatten.length + frame.length) (by omega) (by omega)
    have hroom := h pre chunk post hsplit
    have hle := le_leftOver fs gs frame pre.flatten.length hlt
    rw [Nat.zero_add] at hroom
    omega

end

section
variable (u : CaseMap) (limits : CodecLimits)

theorem parse_frames_live (frames : List Bytes) (cmds : List ParsedCommand)
    (hframes : Frames (parseCommand u limits) frames cmds) (e : RustyPotatoError) :
    parseCommand u limits frames.flatten ≠ .fail e := by
  cases hframes with
  | nil =>
    rw [List.flatten_nil, parseCommand_nil]
    simp
  | cons hframe _ =>
    rw [List.flatten_cons, (streaming_parseCommand u limits).done_append _ _ _ _ hframe]
    simp

theorem replayFile_read (buffer chunk : Bytes) (chunks : List Bytes) (fs : List Bytes)
    (cs : List ParsedCommand) (t : Bytes) (hfs : Frames (parseCommand u limits) fs cs)
    (ht : Stuck (parseCommand u limits) t) (hsplit : buffer ++ chunk = fs.flatten ++ t)
    (hlive : ∀ e, parseCommand u limits (buffer ++ chunk) ≠ .fail e)
    (hcap : buffer.length + chunk.length ≤ limits.maxBufferSize) :
    replayFile u ⟨buffer, limits⟩ (chunk :: chunks) = cs ++ replayFile u ⟨t, limits⟩ chunks := by
  have hp := streaming_parseCommand u limits
  have h0 := stuck_nil u limits
  rw [replayFile, decode_eq u limits buffer chunk hcap]
  cases hparse : parseCommand u limits (buffer ++ chunk) with
  | fail e => exact absurd hparse (hlive e)
  | more =>
    have hstuck : Stuck (parseCommand u limits) (buffer ++ chunk) := by simp [Stuck, hparse]
    obtain ⟨-, rfl, rfl⟩ := frames_of_stuck _ hp _ hstuck fs cs t hfs ht hsplit
    rfl
  | done cmd rest =>
    have hrest := hp.length_le _ _ _ _ hparse
    rw [List.length_append] at hrest
    have hfirst := drain_done _ hp h0 _ cmd rest hparse
    obtain ⟨fs', cs', t', hsplit', hfs', ht', hdrain⟩ := drain_enough _ hp h0 (buffer ++ chunk)
    obtain ⟨rfl, rfl, rfl⟩ := frames_unique _ hp fs fs' cs cs' t t' hfs ht hfs' ht'
      (by rw [← hsplit, hsplit'])
    rw [hdrain _ le_rfl, Prod.mk.injEq] at hfirst
    obtain ⟨hcs, ht⟩ := hfirst
    simp only [drainCodec_eq u limits _ rest (by omega), ← ht]
    rw [hcs]

/-- The replay gives all commands just when no read runs into the limit of the buffer. -/
theorem replayFile_eq_iff (chunks : List Bytes) (buffer : Bytes)
    (hbuffer : Stuck (parseCommand u limits) buffer) (frames : List Bytes)
    (cmds : List ParsedCommand) (hframes : Frames (parseCommand u limits) frames cmds)
    (hfile : buffer ++ chunks.flatten = frames.flatten) :
    replayFile u ⟨buffer, limits⟩ chunks = cmds ↔
      ReadsHaveRoom limits.maxBufferSize buffer.length frames chunks := by
  have hp := streaming_parseCommand u limits
  have h0 := stuck_nil u limits
  induction chunks generalizing buffer frames cmds with
  | nil =>
    rw [List.flatten_nil, List.append_nil] at hfile
    have hnil := (frames_of_stuck _ hp buffer hbuffer frames cmds [] hframes h0
      (by simp [hfile])).2.1
    refine iff_of_true ?_ (by simp [ReadsHaveRoom])
    rw [hnil, replayFile_eq_feed u limits [] buffer hbuffer trivial]
    rfl
  | cons chunk chunks ih =>
    rw [List.flatten_cons] at hfile
    rw [readsHaveRoom_cons, leftOver_stuck _ hp buffer _ hbuffer frames cmds hframes hfile]
    by_cases hcap : buffer.length + chunk.length ≤ limits.maxBufferSize
    · obtain ⟨fs, cs, t, hsplit, hfs, ht⟩ := exists_frames _ hp h0 (buffer ++ chunk)
      have hwhole : fs.flatten ++ (t ++ chunks.flatten) = frames.flatten ++ [] := by
        rw [List.append_nil, ← hfile, ← List.append_assoc, ← hsplit, List.append_assoc]
      obtain ⟨gs, ds, rfl, rfl, hds, hgs⟩ :=
        frames_split _ hp h0 frames fs cmds cs [] _ hframes h0 hfs hwhole
      rw [List.append_nil] at hgs
      have hlive : ∀ e, parseCommand u limits (buffer ++ chunk) ≠ .fail e := by
        intro e hfail
        have hwhole := hp.fail_append _ _ chunks.flatten hfail
        rw [List.append_assoc, hfile] at hwhole
        exact parse_frames_live u limits _ _ hframes e hwhole
      have hlen : buffer.length + chunk.length = fs.flatten.length + t.length := by
        rw [← List.length_append, hsplit, List.length_append]
      have hrest := ih t ht gs ds hds hgs
      rw [replayFile_read u limits buffer chunk chunks fs cs t hfs ht hsplit hlive hcap]
      constructor
      · intro h
        refine ⟨hcap, ?_⟩
        rw [hlen, readsHaveRoom_append]
        exact hrest.mp (List.append_cancel_left h)
      · rintro ⟨-, h⟩
        rw [hlen, readsHaveRoom_append] at h
        rw [hrest.mpr h]
    · refine iff_of_false ?_ fun h => hcap h.1
      rw [replayFile_overflow u limits buffer chunk chunks hcap]
      rintro rfl
      cases hframes
      have := congrArg List.length hfile
      simp only [List.length_append, List.flatten_nil, List.length_nil] at this
      omega

end

/-! ## Other limits -/

section
variable (u : CaseMap) (limits : CodecLimits)

theorem frames_limits (old : CodecLimits) (frames : List Bytes) (cmds : List ParsedCommand)
    (hframes : Frames (parseCommand u old) frames cmds)
    (hcount : ∀ cmd ∈ cmds, cmd.totalArgs ≤ limits.maxArrayLength)
    (hsize : ∀ frame ∈ frames, frame.length ≤ limits.maxBulkSize) :
    Frames (parseCommand u limits) frames cmds := by
  induction hframes with
  | nil => exact .nil
  | @cons frame cmd frames cmds hframe _ ih =>
    refine .cons ?_ (ih (fun c hc => hcount c (List.mem_cons_of_mem _ hc)) fun f hf =>
      hsize f (List.mem_cons_of_mem _ hf))
    exact isFrame_limits old limits u frame cmd hframe (hcount cmd List.mem_cons_self)
      (hsize frame List.mem_cons_self)

theorem frames_count (frames : List Bytes) (cmds : List ParsedCommand)
    (hframes : Frames (parseCommand u limits) frames cmds) (cmd : ParsedCommand)
    (hcmd : cmd ∈ cmds) : cmd.totalArgs ≤ limits.maxArrayLength := by
  induction hframes with
  | nil => cases hcmd
  | cons hframe _ ih =>
    rcases List.mem_cons.mp hcmd with rfl | hcmd
    · exact IsFrame.count u limits _ _ hframe
    · exact ih hcmd

/--
A codec with limits of its own that gives all commands of a file has cut it at the same places.
-/
theorem frames_of_prefix (old : CodecLimits) (frames fs : List Bytes) (cmds cs : List ParsedCommand)
    (tail : Bytes) (hframes : Frames (parseCommand u old) frames cmds)
    (hfs : Frames (parseCommand u limits) fs cs) (hfile : frames.flatten = fs.flatten ++ tail)
    (hleading : cmds <+: cs) : Frames (parseCommand u limits) frames cmds := by
  -- Limits under which both are frames.
  let wide : CodecLimits := ⟨frames.flatten.length, max old.maxArrayLength limits.maxArrayLength, 0⟩
  have hbulk : wide.maxBulkSize = frames.flatten.length := rfl
  have hp := streaming_parseCommand u wide
  have h0 := stuck_nil u wide
  have hlen := congrArg List.length hfile
  rw [List.length_append] at hlen
  have hwide : Frames (parseCommand u wide) frames cmds :=
    frames_limits u wide old frames cmds hframes
      (fun cmd hcmd => (frames_count u old frames cmds hframes cmd hcmd).trans (le_max_left ..))
      fun frame hframe => (List.sublist_flatten_of_mem hframe).length_le
  have hwide' : Frames (parseCommand u wide) fs cs :=
    frames_limits u wide limits fs cs hfs
      (fun cmd hcmd => (frames_count u limits fs cs hfs cmd hcmd).trans (le_max_right ..))
      fun frame hframe => ((List.sublist_flatten_of_mem hframe).length_le).trans (by omega)
  obtain ⟨gs, ds, rfl, rfl, hgs, -⟩ :=
    frames_split _ hp h0 frames fs cmds cs [] tail hwide h0 hwide' (by rw [List.append_nil, hfile])
  have hds : ds = [] := by
    have := hleading.length_le
    rw [List.length_append] at this
    exact List.eq_nil_of_length_eq_zero (by omega)
  subst hds
  cases hgs
  rwa [List.append_nil, List.append_nil]

end

/--
Whatever the configuration, the replay of a log gives every command in order just when no command
has more parts than the default allows and no read of the file runs into the default limit of the
buffer.
-/
theorem logged_frames_replay_iff (u : CaseMap) (host : ConfigHost) (config : ValidConfig host)
    (frames : List Bytes) (cmds : List ParsedCommand)
    (haccepted : List.Forall₂ (Accepted u config.network.limits) frames cmds) (chunks : List Bytes)
    (hfile : chunks.flatten = frames.flatten) :
    replayFile u .new chunks = cmds ↔ LogFits frames cmds chunks := by
  have hframes : Frames (parseCommand u config.network.limits) frames cmds :=
    haccepted.imp fun frame cmd h => ((accepted_iff u _ frame cmd).mp h).1
  have hreplay : Frames (parseCommand u .default) frames cmds → (replayFile u .new chunks = cmds ↔
      ReadsHaveRoom CodecLimits.default.maxBufferSize 0 frames chunks) := fun h =>
    replayFile_eq_iff u .default chunks [] (stuck_nil u .default) frames cmds h hfile
  constructor
  · intro h
    obtain ⟨fs, cs, tail, hsplit, hfs, htail⟩ :=
      exists_frames _ (streaming_parseCommand u .default) (stuck_nil u .default) chunks.flatten
    have hleading := replayFile_prefix u .default chunks fs cs tail hfs htail hsplit
    have hdefault := frames_of_prefix u .default _ frames fs cmds cs tail hframes hfs (hfile ▸
      hsplit) (h ▸ hleading)
    exact ⟨frames_count u .default frames cmds hdefault, (hreplay hdefault).mp h⟩
  · intro h
    have hcaps : CodecLimits.default.maxBufferSize ≤ CodecLimits.default.maxBulkSize := by decide
    have hdefault := frames_limits u .default _ frames cmds hframes h.count fun frame hframe =>
      (frame_le_cap _ frames chunks hfile h.room frame hframe).trans hcaps
    exact (hreplay hdefault).mpr h.room

/-- A configuration with a larger buffer than the default. -/
def largeBuffer : ValidConfig .sample :=
  (ValidConfig.default .sample).withLimits .sample ⟨2 ^ 30, 2 ^ 20, 2 ^ 30⟩

def threeCommands : List ParsedCommand :=
  [⟨"SET", [utf8 "k", utf8 "7"]⟩, ⟨"INCR", [utf8 "k"]⟩, ⟨"DEL", [utf8 "k"]⟩]

/-- The first read ends within the second frame. -/
theorem threeCommands_replayed :
    replayFile asciiCaseMap .new [((threeCommands.map encodeParsed).flatten.take 40),
      ((threeCommands.map encodeParsed).flatten.drop 40)] = threeCommands := by
  have haccepted : List.Forall₂ (Accepted asciiCaseMap largeBuffer.network.limits)
      (threeCommands.map encodeParsed) threeCommands := by
    refine List.forall₂_map_left_iff.mpr
      (List.forall₂_same.mpr fun cmd hcmd => (accepted_iff ..).mpr ?_)
    revert cmd
    decide +kernel
  refine (logged_frames_replay_iff asciiCaseMap .sample largeBuffer _ _ haccepted _ (by simp)).mpr
    ⟨by decide, ?_⟩
  refine (readsHaveRoom_cons ..).mpr
    ⟨by decide +kernel, (readsHaveRoom_cons ..).mpr ⟨by decide +kernel, ?_⟩⟩
  simp [ReadsHaveRoom]

/-! ## A frame that just fits -/

/-- Reads that fill the scratch buffer, as long as there is enough. -/
def fullReads (file : Bytes) : List Bytes :=
  (List.range (file.length / chunkSize + 1)).map fun i => (file.drop (i * chunkSize)).take chunkSize

theorem flatten_slices (file : Bytes) (size n : Nat) :
    ((List.range n).map fun i => (file.drop (i * size)).take size).flatten =
      file.take (n * size) := by
  induction n with
  | zero => simp
  | succ n ih =>
    rw [List.range_succ, List.map_append, List.flatten_append, ih, Nat.succ_mul, List.take_add]
    simp

theorem flatten_fullReads (file : Bytes) : (fullReads file).flatten = file := by
  have hlt : file.length < (file.length / chunkSize + 1) * chunkSize := by
    have := Nat.lt_div_mul_add (a := file.length) (b := chunkSize) (by decide)
    rw [Nat.succ_mul]
    exact this
  rw [fullReads, flatten_slices, List.take_of_length_le (by omega)]

theorem fullReads_length (file : Bytes) (chunk : Bytes) (h : chunk ∈ fullReads file) :
    chunk.length ≤ chunkSize := by
  obtain ⟨i, -, rfl⟩ := List.mem_map.mp h
  exact List.length_take_le ..

/-- Commands around one whose frame is as long as the buffer. -/
def aroundFull (b : Bytes) : List ParsedCommand :=
  [⟨"PING", []⟩, ⟨"SET", [utf8 "k", b]⟩, ⟨"PING", []⟩]

section
variable (b : Bytes) (hb : b.length = 67108831)
include hb

theorem length_fullFrame : (encodeParsed ⟨"SET", [utf8 "k", b]⟩).length = 67108864 := by
  have hconst : digitCount 3 = 1 ∧ digitCount 1 = 1 ∧ digitCount 67108831 = 8 := by decide +kernel
  have hlengths : (utf8 "SET" :: [utf8 "k", b]).map List.length = [3, 1, b.length] := rfl
  rw [length_encodeParsed, hlengths, hb]
  simp only [frameSize, bulkSize, List.length_cons, List.length_nil, List.map_cons, List.map_nil,
    List.sum_cons, List.sum_nil, Nat.zero_add, Nat.reduceAdd, hconst]

theorem aroundFull_fits (cmd : ParsedCommand) (hcmd : cmd ∈ aroundFull b) :
    IsFrame asciiCaseMap .default (encodeParsed cmd) cmd ∧
      (encodeParsed cmd).length ≤ CodecLimits.default.maxBufferSize := by
  have hping : IsFrame asciiCaseMap .default (encodeParsed ⟨"PING", []⟩) ⟨"PING", []⟩ ∧
      (encodeParsed ⟨"PING", []⟩).length ≤ CodecLimits.default.maxBufferSize := by decide +kernel
  simp only [aroundFull, List.mem_cons, List.not_mem_nil, or_false] at hcmd
  rcases hcmd with rfl | rfl | rfl
  · exact hping
  · have hsize : (encodeParsed ⟨"SET", [utf8 "k", b]⟩).length ≤
        CodecLimits.default.maxBufferSize := by
      rw [length_fullFrame b hb]
      decide
    exact ⟨isFrame_encodeParsed asciiCaseMap _ (toUppercase_eq _ "SET" rfl rfl)
      (by decide : 3 ≤ 1048576) hsize, hsize⟩
  · exact hping

/--
The last read comes on top of all but the end of the long frame, and brings the next frame as well.
-/
theorem aroundFull_no_room : ¬ ReadsHaveRoom CodecLimits.default.maxBufferSize 0
    ((aroundFull b).map encodeParsed)
    (fullReads ((aroundFull b).map encodeParsed).flatten) := by
  have hping : (encodeParsed ⟨"PING", []⟩).length = 14 := by decide +kernel
  have hset := length_fullFrame b hb
  generalize hfile : ((aroundFull b).map encodeParsed).flatten = file
  have hlen : file.length = 67108892 := by
    rw [← hfile]
    simp only [aroundFull, List.map_cons, List.map_nil, List.flatten_cons, List.flatten_nil,
      List.length_append, List.length_nil, hping, hset]
  have hsplit : fullReads file =
      ((List.range 1024).map fun i => (file.drop (i * chunkSize)).take chunkSize) ++
        (file.drop (1024 * chunkSize)).take chunkSize :: [] := by
    have hcount : file.length / chunkSize + 1 = 1024 + 1 := by
      rw [hlen]
      decide
    rw [fullReads, hcount, List.range_succ, List.map_append]
    rfl
  intro h
  have hroom := h _ _ _ hsplit
  rw [flatten_slices] at hroom
  simp only [aroundFull, List.map_cons, List.map_nil, List.length_take, List.length_drop, hlen,
    leftOver, hping, hset, chunkSize, CodecLimits.default] at hroom
  norm_num at hroom

end

/-- With the default configuration: the frame was accepted, and ends the replay. -/
theorem full_buffer_not_replayed : ∃ (frames : List Bytes) (cmds : List ParsedCommand),
    List.Forall₂ (Accepted asciiCaseMap (ValidConfig.default .sample).network.limits) frames cmds ∧
      (fullReads frames.flatten).flatten = frames.flatten ∧
      (∀ chunk ∈ fullReads frames.flatten, chunk.length ≤ chunkSize) ∧
      replayFile asciiCaseMap .new (fullReads frames.flatten) ≠ cmds := by
  obtain ⟨b, hb⟩ : ∃ b : Bytes, b.length = 67108831 := ⟨_, List.length_replicate (a := 0)⟩
  have hfits := aroundFull_fits b hb
  have hframes : Frames (parseCommand asciiCaseMap .default) ((aroundFull b).map encodeParsed)
      (aroundFull b) :=
    List.forall₂_map_left_iff.mpr (List.forall₂_same.mpr fun cmd hcmd => (hfits cmd hcmd).1)
  refine ⟨(aroundFull b).map encodeParsed, aroundFull b, ?_, flatten_fullReads _,
    fullReads_length _, fun h => ?_⟩
  · exact List.forall₂_map_left_iff.mpr
      (List.forall₂_same.mpr fun cmd hcmd => (accepted_iff ..).mpr (hfits cmd hcmd))
  · refine aroundFull_no_room b hb ?_
    exact (replayFile_eq_iff asciiCaseMap .default _ [] (stuck_nil _ _) _ _ hframes
      (flatten_fullReads _)).mp h

end RustyPotato
