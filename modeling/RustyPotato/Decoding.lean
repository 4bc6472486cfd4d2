import RustyPotato.Session

/-!
# A stream of commands

The callers of `decode_with_frame` feed it what has arrived, and then nothing more until it gives no
command. What comes out are the frames of the stream, wherever it was cut.
-/

namespace RustyPotato

open Lib.Stream

/-- What one read gives: commands with their frames, and how the loop ended. -/
structure Drained where
  found : List (ParsedCommand × Bytes)
  status : Except RustyPotatoError Unit
  codec : RespCodec

namespace RespCodec

variable (u : CaseMap)

def drainFrames : Nat → RespCodec → Bytes → Drained
  | 0, codec, _ => ⟨[], .ok (), codec⟩
  | rounds + 1, codec, data =>
    match codec.decodeWithFrame u data with
    | (.ok (some x), codec) =>
      let r := drainFrames rounds codec []
      { r with found := x :: r.found }
    | (.ok none, codec) => ⟨[], .ok (), codec⟩
    | (.error e, codec) => ⟨[], .error e, codec⟩

/-- Every command takes a byte, so the loop has ended by itself: see `decodeRead_eq`. -/
def decodeRead (codec : RespCodec) (data : Bytes) : Drained :=
  drainFrames u (codec.buffer.length + data.length + 1) codec data

/-- All reads up to the first error. At the end some bytes may wait for more. -/
def decodeReads : RespCodec → List Bytes →
    List (ParsedCommand × Bytes) × Except RustyPotatoError Bytes
  | codec, [] => ([], .ok codec.buffer)
  | codec, data :: reads =>
    let r := decodeRead u codec data
    match r.status with
    | .ok () => (r.found ++ (decodeReads r.codec reads).1, (decodeReads r.codec reads).2)
    | .error e => (r.found, .error e)

/-- No read runs into the limit of the buffer. -/
def readsFit : RespCodec → List Bytes → Bool
  | _, [] => true
  | codec, data :: reads =>
    decide (codec.buffer.length + data.length ≤ codec.limits.maxBufferSize) &&
      match (decodeRead u codec data).status with
      | .ok () => readsFit (decodeRead u codec data).codec reads
      | .error _ => true

variable {u}

/-! ## Frames are what they were read from -/

theorem decodeWithFrame_found_le (codec codec' : RespCodec) (data : Bytes)
    (x : ParsedCommand × Bytes) (h : codec.decodeWithFrame u data = (.ok (some x), codec')) :
    codec.buffer.length + data.length ≤ codec.limits.maxBufferSize := by
  unfold decodeWithFrame at h
  split_ifs at h with hcap
  · cases h
  · omega

theorem decodeWithFrame_buffer (codec : RespCodec) (data : Bytes)
    (hcap : codec.buffer.length + data.length ≤ codec.limits.maxBufferSize)
    (h : ∀ x, (codec.decodeWithFrame u data).1 ≠ .ok (some x)) :
    (codec.decodeWithFrame u data).2.buffer = codec.buffer ++ data := by
  unfold decodeWithFrame at *
  rw [if_neg (by omega)] at *
  simp only at *
  split at h
  · exact absurd rfl (h _)
  · simp_all
  · simp_all

theorem drainFrames_split (rounds : Nat) (codec : RespCodec) (data : Bytes)
    (hcap : codec.buffer.length + data.length ≤ codec.limits.maxBufferSize)
    (hdata : rounds = 0 → data = []) :
    codec.buffer ++ data =
        ((codec.drainFrames u rounds data).found.map Prod.snd).flatten ++
          (codec.drainFrames u rounds data).codec.buffer ∧
      ∀ x ∈ (codec.drainFrames u rounds data).found, x.2 ≠ [] ∧
        (withLimits codec.limits).decodeWithFrame u x.2 =
          (.ok (some x), withLimits codec.limits) := by
  induction rounds generalizing codec data with
  | zero => simp [drainFrames, hdata rfl]
  | succ rounds ih =>
    rw [drainFrames]
    split
    · rename_i x codec' hdecode
      obtain ⟨hframe, hlimits, hsplit⟩ := decodeWithFrame_some u codec codec' data x.2 x.1 hdecode
      have hlen := congrArg List.length hsplit
      simp only [List.length_append] at hlen
      obtain ⟨hrest, hfound⟩ := ih codec' [] (by rw [hlimits, List.length_nil]; omega) (fun _ =>
        rfl)
      rw [List.append_nil] at hrest
      refine ⟨by simp [hsplit, hrest], ?_⟩
      intro y hy
      rcases List.mem_cons.mp hy with rfl | hy
      · exact ⟨frame_ne_nil u _ _ _ hframe, decodeWithFrame_frame u _ _ _ hframe (by omega)⟩
      · rw [← hlimits]
        exact hfound y hy
    · rename_i codec' hdecode
      have hbuffer := decodeWithFrame_buffer (u := u) codec data hcap (by simp [hdecode])
      rw [hdecode] at hbuffer
      exact ⟨by simpa using hbuffer.symm, by simp⟩
    · rename_i e codec' hdecode
      have hbuffer := decodeWithFrame_buffer (u := u) codec data hcap (by simp [hdecode])
      rw [hdecode] at hbuffer
      exact ⟨by simpa using hbuffer.symm, by simp⟩

/--
The frames are the bytes that were there, without a gap, and each of them is its command, no more
and no less. Only where the limit of the buffer is exceeded at once the data is not taken.
-/
theorem drained_frames (u : CaseMap) (codec : RespCodec) (data : Bytes) (rounds : Nat) (r : Drained)
    (hr : codec.drainFrames u (rounds + 1) data = r)
    (hcap : r.found ≠ [] ∨ codec.buffer.length + data.length ≤ codec.limits.maxBufferSize) :
    codec.buffer ++ data = (r.found.map Prod.snd).flatten ++ r.codec.buffer ∧
      ∀ x ∈ r.found, x.2 ≠ [] ∧
        (withLimits codec.limits).decodeWithFrame u x.2 =
          (.ok (some x), withLimits codec.limits) := by
  have hfits : codec.buffer.length + data.length ≤ codec.limits.maxBufferSize := by
    refine hcap.elim (fun hne => ?_) id
    rw [← hr, drainFrames] at hne
    split at hne
    · rename_i x codec' hdecode
      exact decodeWithFrame_found_le codec codec' data x hdecode
    · simp at hne
    · simp at hne
  rw [← hr]
  exact drainFrames_split (rounds + 1) codec data hfits (by simp)

/-- Two commands, and the beginning of a third. -/
def samplePipeline : Bytes :=
  encodeCommand [utf8 "PING"] ++ encodeCommand [utf8 "get", utf8 "k"] ++ utf8 "*1\r"

theorem samplePipeline_frames :
    ∃ r, (withLimits .default).drainFrames asciiCaseMap 3 samplePipeline = r ∧ r.found.length = 2 ∧
      samplePipeline = (r.found.map Prod.snd).flatten ++ r.codec.buffer :=
  ⟨_, rfl, by decide +kernel,
    (drained_frames asciiCaseMap (withLimits .default) samplePipeline 2 _ rfl
      (.inr (by decide +kernel))).1⟩

/-! ## However the stream is cut -/

variable (u) in
/-- What a tail without a command means for the loop. -/
def ending (limits : CodecLimits) (tail : Bytes) : Except RustyPotatoError Bytes :=
  match parseCommand u limits tail with
  | .fail e => .error e
  | _ => .ok tail

theorem decodeWithFrame_eq (limits : CodecLimits) (buffer data : Bytes)
    (hcap : buffer.length + data.length ≤ limits.maxBufferSize) :
    decodeWithFrame u ⟨buffer, limits⟩ data =
      match parseCommand u limits (buffer ++ data) with
      | .done cmd rest =>
        (.ok (some (cmd, (buffer ++ data).take ((buffer ++ data).length - rest.length))),
          ⟨rest, limits⟩)
      | .more => (.ok none, ⟨buffer ++ data, limits⟩)
      | .fail e => (.error e, ⟨buffer ++ data, limits⟩) := by
  unfold decodeWithFrame
  simp only
  exact if_neg (Nat.not_lt.mpr hcap)

theorem decodeWithFrame_whole (limits : CodecLimits) (frame rest : Bytes) (cmd : ParsedCommand)
    (hframe : parseCommand u limits frame = .done cmd []) (buffer data : Bytes)
    (hcap : buffer.length + data.length ≤ limits.maxBufferSize)
    (h : buffer ++ data = frame ++ rest) :
    decodeWithFrame u ⟨buffer, limits⟩ data = (.ok (some (cmd, frame)), ⟨rest, limits⟩) := by
  rw [decodeWithFrame_eq limits buffer data hcap, h,
    (streaming_parseCommand u limits).done_append _ _ _ rest hframe]
  simp

theorem drainFrames_eq (limits : CodecLimits) (frames : List Bytes) (cmds : List ParsedCommand)
    (tail : Bytes) (hframes : Frames (parseCommand u limits) frames cmds)
    (htail : Stuck (parseCommand u limits) tail) (buffer data : Bytes)
    (hcap : buffer.length + data.length ≤ limits.maxBufferSize)
    (h : buffer ++ data = frames.flatten ++ tail) (rounds : Nat)
    (hrounds : frames.length < rounds) :
    drainFrames u rounds ⟨buffer, limits⟩ data =
      ⟨cmds.zip frames, (ending u limits tail).map fun _ => (), ⟨tail, limits⟩⟩ := by
  induction hframes generalizing buffer data rounds with
  | nil =>
    obtain ⟨rounds, rfl⟩ : ∃ n, rounds = n + 1 := ⟨rounds - 1, by omega⟩
    rw [List.flatten_nil, List.nil_append] at h
    rw [drainFrames, decodeWithFrame_eq limits buffer data hcap, h, ending]
    cases hparse : parseCommand u limits tail with
    | done cmd rest => exact absurd hparse (htail cmd rest)
    | more => rfl
    | fail e => rfl
  | @cons frame cmd frames cmds hframe _ ih =>
    obtain ⟨rounds, rfl⟩ : ∃ n, rounds = n + 1 := ⟨rounds - 1, by omega⟩
    have hlen := congrArg List.length h
    rw [List.flatten_cons, List.append_assoc] at h
    simp only [List.flatten_cons, List.length_append] at hlen
    have hrest := ih (frames.flatten ++ tail) []
      (by rw [List.length_append, List.length_nil]; omega) (by simp) rounds (by simpa using hrounds)
    rw [drainFrames, decodeWithFrame_whole limits frame (frames.flatten ++ tail) cmd hframe buffer
      data hcap h]
    simp [hrest]

theorem decodeRead_eq (limits : CodecLimits) (buffer data : Bytes)
    (hcap : buffer.length + data.length ≤ limits.maxBufferSize) :
    ∃ frames cmds tail, buffer ++ data = frames.flatten ++ tail ∧
      Frames (parseCommand u limits) frames cmds ∧
      Stuck (parseCommand u limits) tail ∧
      decodeRead u ⟨buffer, limits⟩ data =
        ⟨cmds.zip frames, (ending u limits tail).map fun _ => (), ⟨tail, limits⟩⟩ := by
  have h0 := stuck_nil u limits
  obtain ⟨frames, cmds, tail, hsplit, hframes, htail⟩ :=
    exists_frames _ (streaming_parseCommand u limits) h0 (buffer ++ data)
  refine ⟨frames, cmds, tail, hsplit, hframes, htail, ?_⟩
  refine drainFrames_eq limits frames cmds tail hframes htail buffer data hcap hsplit _ ?_
  have hle := length_le_flatten frames (frames_ne_nil _ h0 frames cmds hframes)
  have hlen := congrArg List.length hsplit
  simp only [List.length_append] at hlen
  simp only
  omega

theorem zip_append (frames frames' : List Bytes) (cmds cmds' : List ParsedCommand)
    (limits : CodecLimits) (h : Frames (parseCommand u limits) frames cmds) :
    (cmds ++ cmds').zip (frames ++ frames') = cmds.zip frames ++ cmds'.zip frames' :=
  List.zip_append h.length_eq.symm

/-- The frames of the whole stream, and what its tail means. -/
theorem decodeReads_eq (limits : CodecLimits) (reads : List Bytes) (buffer : Bytes)
    (hbuffer : parseCommand u limits buffer = .more)
    (hfit : readsFit u ⟨buffer, limits⟩ reads = true) (frames : List Bytes)
    (cmds : List ParsedCommand) (tail : Bytes)
    (hframes : Frames (parseCommand u limits) frames cmds)
    (htail : Stuck (parseCommand u limits) tail)
    (h : buffer ++ reads.flatten = frames.flatten ++ tail) :
    decodeReads u ⟨buffer, limits⟩ reads = (cmds.zip frames, ending u limits tail) := by
  have hp := streaming_parseCommand u limits
  have h0 := stuck_nil u limits
  induction reads generalizing buffer frames cmds with
  | nil =>
    have hstuck : Stuck (parseCommand u limits) buffer := by simp [Stuck, hbuffer]
    rw [List.flatten_nil, List.append_nil] at h
    obtain ⟨rfl, rfl, rfl⟩ := frames_of_stuck _ hp buffer hstuck frames cmds tail hframes htail h
    simp [decodeReads, ending, hbuffer]
  | cons data reads ih =>
    rw [readsFit, Bool.and_eq_true] at hfit
    obtain ⟨hcap, hnext⟩ := hfit
    obtain ⟨fs, cs, t, hsplit, hfs, ht, hread⟩ :=
      decodeRead_eq (u := u) limits buffer data (of_decide_eq_true hcap)
    have hwhole : fs.flatten ++ (t ++ reads.flatten) = frames.flatten ++ tail := by
      rw [← h, List.flatten_cons, ← List.append_assoc buffer, hsplit, List.append_assoc]
    simp only [decodeReads, hread] at hnext ⊢
    cases hparse : parseCommand u limits t with
    | done cmd rest => exact absurd hparse (ht cmd rest)
    | more =>
      simp only [ending, hparse, Except.map] at hnext ⊢
      obtain ⟨gs, ds, rfl, rfl, hds, hgs⟩ :=
        frames_split _ hp h0 frames fs cmds cs tail _ hframes htail hfs hwhole
      rw [ih t hparse hnext gs ds hds hgs, zip_append fs gs cs ds limits hfs]
      rfl
    | fail e =>
      -- The bytes that follow are not read, and would not help.
      have hfail := hp.fail_append _ _ reads.flatten hparse
      have hstuck : Stuck (parseCommand u limits) (t ++ reads.flatten) := by simp [Stuck, hfail]
      obtain ⟨rfl, rfl, rfl⟩ :=
        frames_unique _ hp fs frames cs cmds _ tail hfs hstuck hframes htail hwhole
      simp only [ending, hparse, hfail, Except.map]

/--
The reads of a stream give the same commands and frames wherever they cut it, and end the same way.
-/
theorem decodeReads_independent (u : CaseMap) (limits : CodecLimits) (reads reads' : List Bytes)
    (hsame : reads.flatten = reads'.flatten) (hfit : readsFit u (withLimits limits) reads = true)
    (hfit' : readsFit u (withLimits limits) reads' = true) :
    decodeReads u (withLimits limits) reads = decodeReads u (withLimits limits) reads' := by
  obtain ⟨frames, cmds, tail, hsplit, hframes, htail⟩ :=
    exists_frames _ (streaming_parseCommand u limits) (stuck_nil u limits) reads.flatten
  have hmore := parseCommand_nil u limits
  rw [withLimits, decodeReads_eq limits reads [] hmore hfit frames cmds tail hframes htail hsplit,
    decodeReads_eq limits reads' [] hmore hfit' frames cmds tail hframes htail (hsame ▸ hsplit)]

theorem samplePipeline_independent :
    decodeReads asciiCaseMap (withLimits .default) [samplePipeline] =
      decodeReads asciiCaseMap (withLimits .default) (samplePipeline.map fun b => [b]) :=
  decodeReads_independent asciiCaseMap .default _ _ (by decide +kernel) (by decide +kernel)
    (by decide +kernel)

end RespCodec

end RustyPotato
