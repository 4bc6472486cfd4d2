import RustyPotato.Decoding
import RustyPotato.Reachable

/-!
# The commands that a connection lets through

A connection reads up to 4096 bytes at a time and gives its codec the limits of the configuration.
-/

namespace RustyPotato

open Lib.Stream RespCodec

/-- The scratch buffer of `handle_connection`. -/
def readSize : Nat := 4096

/-- Some reads of a connection with these limits have given the command with this frame. -/
def Accepted (u : CaseMap) (limits : CodecLimits) (frame : Bytes) (cmd : ParsedCommand) : Prop :=
  ∃ reads : List Bytes, (∀ data ∈ reads, data.length ≤ readSize) ∧
    (cmd, frame) ∈ (decodeReads u (.withLimits limits) reads).1

/-- The stores of a server whose connections have these limits. -/
inductive ReachableWithin (u : CaseMap) (limits : CodecLimits) : MemoryStore → Prop
  | new : ReachableWithin u limits .new
  | command (env : Env) (frame : Bytes) (cmd : ParsedCommand) (s s' : MemoryStore)
    (r : Except String ResponseValue)
    (h : ReachableWithin u limits s) (haccepted : Accepted u limits frame cmd)
    (hrun : (serverRegistry.execute u env cmd).run s = some (r, s')) : ReachableWithin u limits s'
  | cleanup (c : Clock) (order : IterOrder Int) (s : MemoryStore) (h : ReachableWithin u limits s) :
    ReachableWithin u limits (s.cleanupExpired c order).2

section
variable (u : CaseMap) (limits : CodecLimits)

theorem ReachableWithin.reachable (s : MemoryStore) (h : ReachableWithin u limits s) :
    Reachable u s := by
  induction h with
  | new => exact .new
  | command env _ cmd s s' r _ _ hrun ih => exact .command env cmd s s' r ih hrun
  | cleanup c order s _ ih => exact .cleanup c order s ih

/-! ## Accepted means well formed and within the limits -/

theorem drainFrames_found (rounds : Nat) (codec : RespCodec) (hlimits : codec.limits = limits)
    (data : Bytes) (x : ParsedCommand × Bytes) (hx : x ∈ (drainFrames u rounds codec data).found) :
    IsFrame u limits x.2 x.1 ∧ x.2.length ≤ limits.maxBufferSize := by
  induction rounds generalizing codec data with
  | zero => cases hx
  | succ rounds ih =>
    rw [drainFrames] at hx
    split at hx
    · rename_i y codec' hdecode
      have hcap := decodeWithFrame_found_le _ _ _ _ hdecode
      obtain ⟨hframe, hlimits', hsplit⟩ := decodeWithFrame_some u _ _ _ _ _ hdecode
      rcases List.mem_cons.mp hx with rfl | hx
      · have hlen := congrArg List.length hsplit
        rw [List.length_append, List.length_append] at hlen
        rw [hlimits] at hcap hframe
        exact ⟨hframe, by omega⟩
      · exact ih codec' (hlimits'.trans hlimits) [] hx
    · cases hx
    · cases hx

theorem drainFrames_limits (rounds : Nat) (codec : RespCodec) (data : Bytes) :
    (drainFrames u rounds codec data).codec.limits = codec.limits := by
  induction rounds generalizing codec data with
  | zero => rfl
  | succ rounds ih =>
    have hlimits := decodeWithFrame_limits u codec data
    rw [drainFrames]
    split
    · rename_i hdecode
      rw [hdecode] at hlimits
      exact (ih _ []).trans hlimits
    · rename_i hdecode
      rw [hdecode] at hlimits
      exact hlimits
    · rename_i hdecode
      rw [hdecode] at hlimits
      exact hlimits

theorem decodeReads_found (codec : RespCodec) (hlimits : codec.limits = limits) (reads : List Bytes)
    (x : ParsedCommand × Bytes) (hx : x ∈ (decodeReads u codec reads).1) :
    IsFrame u limits x.2 x.1 ∧ x.2.length ≤ limits.maxBufferSize := by
  induction reads generalizing codec with
  | nil => cases hx
  | cons data reads ih =>
    have hread := drainFrames_found u limits (codec.buffer.length + data.length + 1) codec hlimits
      data x
    rw [decodeReads] at hx
    split at hx
    · rcases List.mem_append.mp hx with hx | hx
      · exact hread hx
      · exact ih _ ((drainFrames_limits u _ codec data).trans hlimits) hx
    · exact hread hx

/-- Byte by byte, no read runs into the limit before the frame is complete. -/
theorem readsFit_bytes (frame : Bytes) (cmd : ParsedCommand) (hframe : IsFrame u limits frame cmd)
    (hsize : frame.length ≤ limits.maxBufferSize) (rest buffer : Bytes)
    (h : buffer ++ rest = frame) : readsFit u ⟨buffer, limits⟩ (rest.map fun b => [b]) = true := by
  have hp := streaming_parseCommand u limits
  induction rest generalizing buffer with
  | nil => rfl
  | cons b rest ih =>
    have hlen := congrArg List.length h
    rw [List.length_append, List.length_cons] at hlen
    have hcap : buffer.length + [b].length ≤ limits.maxBufferSize := by
      rw [List.length_singleton]
      omega
    have hnext : buffer ++ [b] ++ rest = frame := by
      rw [← h, List.append_assoc, List.singleton_append]
    rw [List.map_cons, readsFit, Bool.and_eq_true]
    refine ⟨decide_eq_true hcap, ?_⟩
    obtain ⟨fs, vs, tail, hfs, hvs, htail, hread⟩ := decodeRead_eq (u := u) limits buffer [b] hcap
    split
    · cases rest with
      | nil => rfl
      | cons c rest =>
        have hstuck := stuck_of_prefix _ hp (buffer ++ [b]) (c :: rest) cmd (hnext ▸ hframe)
          (by simp)
        obtain ⟨-, -, rfl⟩ := frames_of_stuck _ hp _ hstuck fs vs tail hvs htail hfs
        rw [hread]
        exact ih _ hnext
    · rfl

theorem accepted_iff (frame : Bytes) (cmd : ParsedCommand) :
    Accepted u limits frame cmd ↔ IsFrame u limits frame cmd ∧
      frame.length ≤ limits.maxBufferSize := by
  constructor
  · rintro ⟨reads, -, hx⟩
    exact decodeReads_found u limits (.withLimits limits) rfl reads (cmd, frame) hx
  · rintro ⟨hframe, hsize⟩
    refine ⟨frame.map fun b => [b], ?_, ?_⟩
    · intro data hdata
      obtain ⟨b, -, rfl⟩ := List.mem_map.mp hdata
      rw [List.length_singleton, readSize]
      omega
    · have hfit := readsFit_bytes u limits frame cmd hframe hsize frame [] rfl
      have hbytes : (frame.map fun b => [b]).flatten = frame := by
        rw [← List.flatMap_def, List.flatMap_singleton']
      rw [withLimits, decodeReads_eq limits _ [] (parseCommand_nil u limits) hfit [frame] [cmd] []
        (.cons hframe .nil) (stuck_nil u limits) (by simp [hbytes])]
      simp

end

end RustyPotato
