import RustyPotato.Session
import RustyPotato.Timeline

/-!
# Reading the log back (`replay_aof_file`, and `open` in `lib.rs`)

The file is read in chunks, decoded under the default limits, and every command is executed. A
command that is refused is passed over.
-/

namespace RustyPotato

open Lib.Stream

/-- The scratch buffer of `replay_aof_file`. -/
def chunkSize : Nat := 64 * 1024

section
variable (u : CaseMap)

/-- `while let Ok(Some(more)) = codec.decode(&[])`. -/
def drainCodec : Nat → RespCodec → List ParsedCommand × RespCodec
  | 0, codec => ([], codec)
  | rounds + 1, codec =>
    match codec.decode u [] with
    | (.ok (some cmd), codec) => (cmd :: (drainCodec rounds codec).1, (drainCodec rounds codec).2)
    | (_, codec) => ([], codec)

/-- The commands of a file that is read in these chunks. A read at its end gives no bytes. -/
def replayFile : RespCodec → List Bytes → List ParsedCommand
  | codec, [] =>
    match codec.decode u [] with
    | (.ok (some cmd), codec) => cmd :: (drainCodec u codec.buffer.length codec).1
    | _ => []
  | codec, chunk :: chunks =>
    match codec.decode u chunk with
    | (.ok (some cmd), codec) =>
      cmd :: (drainCodec u codec.buffer.length codec).1 ++
        replayFile (drainCodec u codec.buffer.length codec).2 chunks
    | (.ok none, codec) => replayFile codec chunks
    | (.error _, _) => []

/-- The commands of frames that are decoded one by one. -/
def decodeEach (frames : List Bytes) : List ParsedCommand :=
  frames.filterMap fun frame => (RespCodec.new.decode u frame).1.toOption.join

/-- The closure of `open` on each command. It passes errors over, but not a panic. -/
def recover : (Nat → Env) → List ParsedCommand → MemoryStore → Option MemoryStore
  | _, [], s => some s
  | envs, cmd :: cmds, s =>
    ((replayRegistry.execute u (envs 0) cmd).run s).bind fun r =>
      recover (fun i => envs (i + 1)) cmds r.2

end

/-! ## A file of frames -/

/-- The frame is within the limits of the codec that reads the log, also with a chunk behind it. -/
structure Replayable (frame : Bytes) (cmd : ParsedCommand) : Prop where
  count : cmd.totalArgs ≤ CodecLimits.default.maxArrayLength
  size : frame.length + chunkSize ≤ CodecLimits.default.maxBufferSize

theorem Replayable.isFrame (u : CaseMap) (limits : CodecLimits) (frame : Bytes)
    (cmd : ParsedCommand) (hfits : Replayable frame cmd) (h : IsFrame u limits frame cmd) :
    IsFrame u .default frame cmd := by
  refine isFrame_limits limits .default u frame cmd h hfits.count ?_
  have hsize := hfits.size
  have hcaps : CodecLimits.default.maxBufferSize ≤ CodecLimits.default.maxBulkSize := by decide
  omega

section
variable (u : CaseMap) (limits : CodecLimits)

/-- Below the limit of the buffer, `decode` is the parser on what has arrived. -/
theorem decode_eq (buffer data : Bytes) (h : buffer.length + data.length ≤ limits.maxBufferSize) :
    RespCodec.decode u ⟨buffer, limits⟩ data =
      match parseCommand u limits (buffer ++ data) with
      | .done cmd rest => (.ok (some cmd), ⟨rest, limits⟩)
      | .more => (.ok none, ⟨buffer ++ data, limits⟩)
      | .fail e => (.error e, ⟨buffer ++ data, limits⟩) := by
  unfold RespCodec.decode RespCodec.decodeWithFrame
  simp only
  rw [if_neg (by omega)]
  cases parseCommand u limits (buffer ++ data) <;> rfl

theorem drainCodec_eq (rounds : Nat) (buffer : Bytes) (h : buffer.length ≤ limits.maxBufferSize) :
    drainCodec u rounds ⟨buffer, limits⟩ =
      ((drain (parseCommand u limits) rounds buffer).1,
        ⟨(drain (parseCommand u limits) rounds buffer).2, limits⟩) := by
  induction rounds generalizing buffer with
  | zero => rfl
  | succ rounds ih =>
    rw [drainCodec, drain, decode_eq u limits buffer [] (by simpa using h), List.append_nil]
    cases hparse : parseCommand u limits buffer with
    | fail e => rfl
    | more => rfl
    | done cmd rest =>
      have hlen := (streaming_parseCommand u limits).length_le _ _ _ _ hparse
      simp only
      rw [ih rest (by omega)]

/-- The buffer with the next chunk stays below the limit. -/
def CapFree : Bytes → List Bytes → Prop
  | _, [] => True
  | buffer, chunk :: chunks =>
    (buffer ++ chunk).length ≤ limits.maxBufferSize ∧
      CapFree (drain (parseCommand u limits) (buffer ++ chunk).length (buffer ++ chunk)).2 chunks

theorem decode_stuck (codec : RespCodec) (hstuck : Stuck (parseCommand u codec.limits) codec.buffer)
    (cmd : ParsedCommand) :
    (codec.decode u []).1 ≠ .ok (some cmd) := by
  intro h
  unfold RespCodec.decode at h
  split at h
  · rename_i found codec' hframe
    simp only [Except.ok.injEq, Option.map_eq_some_iff] at h
    obtain ⟨r, rfl, -⟩ := h
    obtain ⟨hr, -, hsplit⟩ := RespCodec.decodeWithFrame_some u _ _ _ _ _ hframe
    rw [List.append_nil] at hsplit
    rw [hsplit] at hstuck
    exact hstuck r.1 _ ((streaming_parseCommand u codec.limits).done_append _ _ _ _ hr)
  · cases h

/--
No read of the loop runs into the limit of the buffer. After an error it makes no further read.
-/
def NoOverflow : RespCodec → List Bytes → Prop
  | _, [] => True
  | codec, chunk :: chunks =>
    codec.buffer.length + chunk.length ≤ codec.limits.maxBufferSize ∧
      match codec.decode u chunk with
      | (.ok (some _), codec) => NoOverflow (drainCodec u codec.buffer.length codec).2 chunks
      | (.ok none, codec) => NoOverflow codec chunks
      | (.error _, _) => True

theorem CapFree.noOverflow (chunks : List Bytes) (buffer : Bytes)
    (hcap : CapFree u limits buffer chunks) : NoOverflow u ⟨buffer, limits⟩ chunks := by
  have hp := streaming_parseCommand u limits
  have h0 := stuck_nil u limits
  induction chunks generalizing buffer with
  | nil => trivial
  | cons chunk chunks ih =>
    obtain ⟨hlen, hnext⟩ := hcap
    rw [List.length_append] at hlen
    rw [NoOverflow, decode_eq u limits buffer chunk hlen]
    refine ⟨hlen, ?_⟩
    cases hparse : parseCommand u limits (buffer ++ chunk) with
    | fail e => trivial
    | more =>
      have hstuck : Stuck (parseCommand u limits) (buffer ++ chunk) := by simp [Stuck, hparse]
      rw [drain_stuck _ _ hstuck] at hnext
      exact ih _ hnext
    | done cmd rest =>
      have hrest := hp.length_le _ _ _ _ hparse
      rw [List.length_append] at hrest
      rw [drain_done _ hp h0 _ cmd rest hparse] at hnext
      simp only [drainCodec_eq u limits _ rest (by omega)]
      exact ih _ hnext

theorem replayFile_eq_feed (chunks : List Bytes) (buffer : Bytes)
    (hstuck : Stuck (parseCommand u limits) buffer) (hcap : NoOverflow u ⟨buffer, limits⟩ chunks) :
    replayFile u ⟨buffer, limits⟩ chunks = feed (parseCommand u limits) buffer chunks := by
  have hp := streaming_parseCommand u limits
  have h0 := stuck_nil u limits
  induction chunks generalizing buffer with
  | nil =>
    rw [replayFile, feed]
    split
    · rename_i cmd codec hdecode
      exact absurd (congrArg Prod.fst hdecode) (decode_stuck u ⟨buffer, limits⟩ hstuck cmd)
    · rfl
  | cons chunk chunks ih =>
    obtain ⟨hlen, hnext⟩ := hcap
    change buffer.length + chunk.length ≤ limits.maxBufferSize at hlen
    rw [decode_eq u limits buffer chunk hlen] at hnext
    rw [replayFile, feed, decode_eq u limits buffer chunk hlen]
    cases hparse : parseCommand u limits (buffer ++ chunk) with
    | fail e => rfl
    | more =>
      rw [hparse] at hnext
      exact ih _ (by simp [Stuck, hparse]) hnext
    | done cmd rest =>
      have hrest := hp.length_le _ _ _ _ hparse
      rw [List.length_append] at hrest
      obtain ⟨fs, vs, t, -, -, ht, hdrain⟩ := drain_enough _ hp h0 rest
      simp only [hparse, drainCodec_eq u limits _ rest (by omega), hdrain _ le_rfl] at hnext
      simp only [drainCodec_eq u limits _ rest (by omega), drain_done _ hp h0 _ cmd rest hparse,
        hdrain _ le_rfl, ih t ht hnext]

theorem replayFile_overflow (buffer chunk : Bytes) (chunks : List Bytes)
    (hcap : ¬ buffer.length + chunk.length ≤ limits.maxBufferSize) :
    replayFile u ⟨buffer, limits⟩ (chunk :: chunks) = [] := by
  have hdecode : RespCodec.decode u ⟨buffer, limits⟩ chunk =
    (.error (RespCodec.bufferOverflow limits), ⟨buffer, limits⟩) := by
    unfold RespCodec.decode RespCodec.decodeWithFrame
    simp only
    rw [if_pos (by omega)]
  rw [replayFile, hdecode]

/-- What a replay that stops early has read is right. -/
theorem replayFile_prefix_feed (chunks : List Bytes) (buffer : Bytes)
    (hstuck : Stuck (parseCommand u limits) buffer) :
    replayFile u ⟨buffer, limits⟩ chunks <+: feed (parseCommand u limits) buffer chunks := by
  have hp := streaming_parseCommand u limits
  have h0 := stuck_nil u limits
  induction chunks generalizing buffer with
  | nil => rw [replayFile_eq_feed u limits [] buffer hstuck trivial]
  | cons chunk chunks ih =>
    by_cases hlen : buffer.length + chunk.length ≤ limits.maxBufferSize
    · rw [replayFile, feed, decode_eq u limits buffer chunk hlen]
      cases hparse : parseCommand u limits (buffer ++ chunk) with
      | fail e => exact List.prefix_rfl
      | more => exact ih _ (by simp [Stuck, hparse])
      | done cmd rest =>
        have hrest := hp.length_le _ _ _ _ hparse
        rw [List.length_append] at hrest
        obtain ⟨fs, vs, t, -, -, ht, hdrain⟩ := drain_enough _ hp h0 rest
        simp only [drainCodec_eq u limits _ rest (by omega), drain_done _ hp h0 _ cmd rest hparse,
          hdrain _ le_rfl]
        exact (List.prefix_append_right_inj _).mpr (ih t ht)
    · rw [replayFile_overflow u limits buffer chunk chunks hlen]
      exact List.nil_prefix

theorem capFree_of_frames (chunks : List Bytes)
    (hchunks : ∀ chunk ∈ chunks, chunk.length ≤ chunkSize) (buffer : Bytes)
    (hstuck : Stuck (parseCommand u limits) buffer) (frames : List Bytes)
    (cmds : List ParsedCommand) (tail : Bytes)
    (hframes : Frames (parseCommand u limits) frames cmds)
    (htail : Stuck (parseCommand u limits) tail)
    (hsize : ∀ piece ∈ tail :: frames, piece.length + chunkSize ≤ limits.maxBufferSize)
    (h : buffer ++ chunks.flatten = frames.flatten ++ tail) : CapFree u limits buffer chunks := by
  have hp := streaming_parseCommand u limits
  have h0 := stuck_nil u limits
  induction chunks generalizing buffer frames cmds with
  | nil => trivial
  | cons chunk chunks ih =>
    obtain ⟨piece, hpiece, hle⟩ := stuck_length_le _ hp buffer _ hstuck frames cmds tail hframes h
    have hchunk := hchunks chunk List.mem_cons_self
    have hcap := hsize piece hpiece
    obtain ⟨fs, vs, t, hfs, hvs, ht, hdrain⟩ := drain_enough _ hp h0 (buffer ++ chunk)
    rw [List.flatten_cons, ← List.append_assoc, hfs, List.append_assoc] at h
    obtain ⟨gs, ws, rfl, -, hws, hgs⟩ :=
      frames_split _ hp h0 frames fs cmds vs tail _ hframes htail hvs h
    refine ⟨by rw [List.length_append]; omega, ?_⟩
    rw [hdrain _ le_rfl]
    refine ih (fun c hc => hchunks c (List.mem_cons_of_mem _ hc)) t ht gs ws hws
      (fun q hq => hsize q ?_) hgs
    rcases List.mem_cons.mp hq with rfl | hq
    · exact List.mem_cons_self
    · exact List.mem_cons_of_mem _ (List.mem_append_right _ hq)

/-- The replay of a file gives the commands of its frames, however it is read. -/
theorem replayFile_frames (chunks : List Bytes)
    (hchunks : ∀ chunk ∈ chunks, chunk.length ≤ chunkSize) (frames : List Bytes)
    (cmds : List ParsedCommand) (tail : Bytes)
    (hframes : Frames (parseCommand u limits) frames cmds)
    (htail : Stuck (parseCommand u limits) tail)
    (hsize : ∀ piece ∈ tail :: frames, piece.length + chunkSize ≤ limits.maxBufferSize)
    (h : chunks.flatten = frames.flatten ++ tail) :
    replayFile u (.withLimits limits) chunks = cmds := by
  have h0 := stuck_nil u limits
  have hcap := capFree_of_frames u limits chunks hchunks [] h0 frames cmds tail hframes htail hsize
    h
  rw [RespCodec.withLimits, replayFile_eq_feed u limits chunks [] h0
    (hcap.noOverflow u limits chunks [])]
  exact feed_eq _ (streaming_parseCommand u limits) h0 chunks [] h0 frames cmds tail hframes htail h

theorem replayFile_prefix (chunks : List Bytes) (frames : List Bytes) (cmds : List ParsedCommand)
    (tail : Bytes) (hframes : Frames (parseCommand u limits) frames cmds)
    (htail : Stuck (parseCommand u limits) tail) (h : chunks.flatten = frames.flatten ++ tail) :
    replayFile u (.withLimits limits) chunks <+: cmds := by
  have h0 := stuck_nil u limits
  have hfeed := feed_eq _ (streaming_parseCommand u limits) h0 chunks
    [] h0 frames cmds tail hframes htail h
  exact hfeed ▸ replayFile_prefix_feed u limits chunks [] h0

end

theorem replayFile_log (u : CaseMap) (chunks : List Bytes)
    (hchunks : ∀ chunk ∈ chunks, chunk.length ≤ chunkSize) (frames : List Bytes)
    (cmds : List ParsedCommand) (hframes : Frames (parseCommand u .default) frames cmds)
    (hsize : ∀ frame ∈ frames, frame.length + chunkSize ≤ CodecLimits.default.maxBufferSize)
    (hfile : chunks.flatten = frames.flatten) : replayFile u .new chunks = cmds := by
  refine replayFile_frames u .default chunks hchunks frames cmds [] hframes
    (stuck_nil u .default) ?_ (by rw [hfile, List.append_nil])
  intro piece hpiece
  rcases List.mem_cons.mp hpiece with rfl | hpiece
  · decide
  · exact hsize piece hpiece

theorem decodeEach_frames (u : CaseMap) (frames : List Bytes) (cmds : List ParsedCommand)
    (hframes : Frames (parseCommand u .default) frames cmds)
    (hsize : ∀ frame ∈ frames, frame.length ≤ CodecLimits.default.maxBufferSize) :
    decodeEach u frames = cmds := by
  induction hframes with
  | nil => rfl
  | @cons frame cmd frames cmds hframe _ ih =>
    have hdecode := decode_eq u .default [] frame (by simpa using hsize frame List.mem_cons_self)
    rw [List.nil_append, hframe] at hdecode
    have hnew : (RespCodec.new.decode u frame).1 = .ok (some cmd) := congrArg Prod.fst hdecode
    rw [decodeEach, List.filterMap_cons, hnew]
    simp only [Except.toOption, Option.join_some, List.cons.injEq, true_and]
    exact ih fun f hf => hsize f (List.mem_cons_of_mem _ hf)

/-! ## What the commands do, one after the other -/

/-- The plans of the commands at their clocks, unless one of them panics. -/
def replayTimeline (u : CaseMap) : (Nat → Env) → List ParsedCommand → Option Timeline
  | _, [] => some []
  | envs, cmd :: cmds =>
    (replayRegistry.plan u (envs 0) cmd).bind fun steps =>
      (replayTimeline u (fun i => envs (i + 1)) cmds).map (((envs 0).clock, steps) :: ·)

theorem recover_eq (u : CaseMap) (envs : Nat → Env) (cmds : List ParsedCommand) (s : MemoryStore) :
    recover u envs cmds s = (replayTimeline u envs cmds).map fun tl => tl.run s := by
  induction cmds generalizing envs s with
  | nil => rfl
  | cons cmd cmds ih =>
    rw [recover, replayTimeline]
    have hfollows := replayRegistry.execute_follows u (envs 0) cmd
    cases hplan : replayRegistry.plan u (envs 0) cmd with
    | none =>
      rw [hplan] at hfollows
      rw [hfollows s]
      rfl
    | some steps =>
      rw [hplan] at hfollows
      obtain ⟨r, hr⟩ := hfollows s
      rw [hr, Option.bind_some, Option.bind_some, ih, Option.map_map]
      rfl

theorem replayTimeline_append (u : CaseMap) (envs : Nat → Env) (xs ys : List ParsedCommand) :
    replayTimeline u envs (xs ++ ys) =
      (replayTimeline u envs xs).bind fun tl =>
        (replayTimeline u (fun i => envs (i + xs.length)) ys).map (tl ++ ·) := by
  induction xs generalizing envs with
  | nil => simp [replayTimeline]
  | cons cmd xs ih =>
    rw [List.cons_append, replayTimeline, replayTimeline, ih]
    cases replayRegistry.plan u (envs 0) cmd with
    | none => rfl
    | some steps =>
      simp only [Option.bind_some, List.length_cons]
      cases replayTimeline u (fun i => envs (i + 1)) xs with
      | none => rfl
      | some tl =>
        simp only [Option.bind_some, Option.map_some, Option.map_map]
        congr 1

/-- Clocks that go forward up to `b` make a timeline up to `b`. -/
theorem replayTimeline_between (u : CaseMap) (envs : Nat → Env) (cmds : List ParsedCommand)
    (tl : Timeline) (htl : replayTimeline u envs cmds = some tl) (a b : Clock)
    (ha : ∀ i, a.le (envs i).clock) (hmono : ∀ i j, i ≤ j → (envs i).clock.le (envs j).clock)
    (hb : ∀ i, (envs i).clock.le b) : Timeline.Between a b tl := by
  induction cmds generalizing envs tl a with
  | nil =>
    cases htl
    exact Nat.le_trans (ha 0) (hb 0)
  | cons cmd cmds ih =>
    rw [replayTimeline, Option.bind_eq_some_iff] at htl
    obtain ⟨steps, -, htl⟩ := htl
    obtain ⟨rest, hrest, rfl⟩ := Option.map_eq_some_iff.mp htl
    exact ⟨ha 0, ih _ rest hrest _ (fun i => hmono 0 (i + 1) (by omega))
      (fun i j h => hmono (i + 1) (j + 1) (by omega)) fun i => hb (i + 1)⟩

end RustyPotato
