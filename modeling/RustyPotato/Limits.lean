import RustyPotato.Session

/-!
# The limits of the protocol

What the codec holds and what it hands out, over any sequence of calls and after any error.
-/

namespace RustyPotato

open Lib.Stream

/-! ## Values within the limits -/

mutual

/-- At every level, no bulk string is longer and no array has more elements than allowed. -/
def RespValue.within (limits : CodecLimits) : RespValue → Bool
  | .bulkString (some b) => b.length ≤ limits.maxBulkSize
  | .array elements => elements.length ≤ limits.maxArrayLength && allWithin limits elements
  | _ => true

def RespValue.allWithin (limits : CodecLimits) : List RespValue → Bool
  | [] => true
  | v :: vs => v.within limits && allWithin limits vs

end

theorem times_within (limits : CodecLimits) (element : RespParser RespValue)
    (helement : ∀ input v rest, element input = .done v rest → v.within limits = true) (n : Nat)
    (input rest : Bytes) (vs : List RespValue) (h : times element n input = .done vs rest) :
    RespValue.allWithin limits vs = true := by
  induction n generalizing input vs with
  | zero =>
    cases h
    rfl
  | succ n ih =>
    obtain ⟨v, mid, vs, hv, hvs, rfl⟩ := (times_succ_eq_done ..).mp h
    rw [RespValue.allWithin, helement _ _ _ hv, ih _ _ hvs]
    rfl

theorem parseBulkString_within (limits : CodecLimits) (input : Bytes) (v : RespValue) (rest : Bytes)
    (h : parseBulkString limits input = .done v rest) : v.within limits = true := by
  obtain ⟨line, mid, -, ⟨-, rfl, -⟩ | ⟨length, -, hlength, h⟩⟩ := (parseLength_eq_done ..).mp h
  · rfl
  · unfold payload at h
    split_ifs at h
    cases h
    simp only [RespValue.within, List.length_take, decide_eq_true_eq]
    omega

theorem parseArray_within (limits : CodecLimits) (element : RespParser RespValue)
    (helement : ∀ input v rest, element input = .done v rest → v.within limits = true)
    (input : Bytes) (v : RespValue) (rest : Bytes)
    (h : parseArray limits element input = .done v rest) : v.within limits = true := by
  obtain ⟨line, mid, -, ⟨-, rfl, -⟩ | ⟨length, -, hlength, h⟩⟩ := (parseLength_eq_done ..).mp h
  · simp [RespValue.within, RespValue.allWithin]
  · obtain ⟨vs, mid', hvs, hret⟩ := (andThen_eq_done ..).mp h
    cases hret
    rw [RespValue.within, times_within limits element helement _ _ _ _ hvs,
      times_length _ _ _ _ _ hvs, decide_eq_true hlength]
    rfl

theorem parseTyped_within (limits : CodecLimits) (element : RespParser RespValue)
    (helement : ∀ input v rest, element input = .done v rest → v.within limits = true) (b : UInt8)
    (input : Bytes) (v : RespValue) (rest : Bytes)
    (h : parseTyped limits element b input = .done v rest) :
    v.within limits = true := by
  unfold parseTyped at h
  split_ifs at h
  · obtain ⟨line, mid, -, h⟩ := (andThen_eq_done ..).mp h
    cases h
    rfl
  · obtain ⟨line, mid, -, h⟩ := (andThen_eq_done ..).mp h
    cases h
    rfl
  · obtain ⟨line, mid, -, h⟩ := (andThen_eq_done ..).mp h
    cases hi : parseI64 line with
    | none =>
      simp only [hi] at h
      cases h
    | some i =>
      simp only [hi] at h
      cases h
      rfl
  · exact parseBulkString_within limits input v rest h
  · exact parseArray_within limits element helement input v rest h
  · cases h

theorem parseNested_within (limits : CodecLimits) (depth : Nat) (input : Bytes) (v : RespValue)
    (rest : Bytes) (h : parseNested limits depth input = .done v rest) :
    v.within limits = true := by
  induction depth generalizing input v rest with
  | zero => cases h
  | succ depth ih =>
    obtain ⟨b, mid, -, h⟩ := (andThen_eq_done ..).mp h
    exact parseTyped_within limits _ ih b mid v rest h

/-! ## The calls on a codec -/

inductive DecodeCall where
  | decode (data : Bytes)
  | decodeWithFrame (data : Bytes)
  | decodeRespValue (data : Bytes)
deriving DecidableEq

/-- What a call hands out. -/
inductive Decoded where
  | command (cmd : ParsedCommand)
  | commandWithFrame (cmd : ParsedCommand) (frame : Bytes)
  | value (v : RespValue)

namespace DecodeCall

variable (u : CaseMap)

def data : DecodeCall → Bytes
  | decode data => data
  | decodeWithFrame data => data
  | decodeRespValue data => data

def run (codec : RespCodec) : DecodeCall → Except RustyPotatoError (Option Decoded) × RespCodec
  | decode data => ((codec.decode u data).1.map (Option.map .command), (codec.decode u data).2)
  | decodeWithFrame data =>
    ((codec.decodeWithFrame u data).1.map
      (Option.map fun found => .commandWithFrame found.1 found.2), (codec.decodeWithFrame u data).2)
  | decodeRespValue data =>
    ((codec.decodeRespValue data).1.map (Option.map .value), (codec.decodeRespValue data).2)

end DecodeCall

/-- The codec after the calls, whatever they returned. -/
def RespCodec.after (u : CaseMap) (codec : RespCodec) (calls : List DecodeCall) : RespCodec :=
  calls.foldl (fun codec call => (call.run u codec).2) codec

/-- The value on the wire that a call has made its result from. -/
def Decoded.MadeFrom (u : CaseMap) (v : RespValue) : Decoded → Prop
  | command cmd => toCommand u v = .ok cmd
  | commandWithFrame cmd _ => toCommand u v = .ok cmd
  | value w => w = v

namespace RespCodec

variable (u : CaseMap) (codec : RespCodec) (data : Bytes)

/--
An overflow leaves the buffer alone, and any other outcome keeps at most what there was and what
came.
-/
theorem decodeWithFrame_bounded (h : codec.buffer.length ≤ codec.limits.maxBufferSize) :
    (codec.decodeWithFrame u data).2.limits = codec.limits ∧
      (codec.decodeWithFrame u data).2.buffer.length ≤ codec.limits.maxBufferSize := by
  unfold decodeWithFrame
  by_cases hover : codec.limits.maxBufferSize < codec.buffer.length + data.length
  · rw [if_pos hover]
    exact ⟨rfl, h⟩
  · have hlen : (codec.buffer ++ data).length ≤ codec.limits.maxBufferSize := by
      rw [List.length_append]
      omega
    rw [if_neg hover]
    simp only
    cases hparse : parseCommand u codec.limits (codec.buffer ++ data) with
    | fail e => exact ⟨rfl, hlen⟩
    | more => exact ⟨rfl, hlen⟩
    | done cmd rest =>
      exact ⟨rfl, le_trans ((streaming_parseCommand u codec.limits).length_le _ _ _ _ hparse) hlen⟩

theorem decode_snd : (codec.decode u data).2 = (codec.decodeWithFrame u data).2 := by
  unfold decode
  generalize codec.decodeWithFrame u data = r
  obtain ⟨_ | found, codec'⟩ := r <;> rfl

theorem decode_fst : (codec.decode u data).1 =
    (codec.decodeWithFrame u data).1.map (Option.map Prod.fst) := by
  unfold decode
  generalize codec.decodeWithFrame u data = r
  obtain ⟨_ | found, codec'⟩ := r <;> rfl

theorem decodeRespValue_bounded (h : codec.buffer.length ≤ codec.limits.maxBufferSize) :
    (codec.decodeRespValue data).2.limits = codec.limits ∧
      (codec.decodeRespValue data).2.buffer.length ≤ codec.limits.maxBufferSize := by
  unfold decodeRespValue
  by_cases hover : codec.limits.maxBufferSize < codec.buffer.length + data.length
  · rw [if_pos hover]
    exact ⟨rfl, h⟩
  · have hlen : (codec.buffer ++ data).length ≤ codec.limits.maxBufferSize := by
      rw [List.length_append]
      omega
    rw [if_neg hover]
    simp only
    split_ifs
    · exact ⟨rfl, hlen⟩
    · cases hparse : parseRespValue codec.limits (codec.buffer ++ data) with
      | fail e => exact ⟨rfl, hlen⟩
      | more => exact ⟨rfl, hlen⟩
      | done v rest =>
        exact ⟨rfl, le_trans ((streaming_parseRespValue codec.limits).length_le _ _ _ _ hparse)
          hlen⟩

theorem run_bounded (call : DecodeCall) (h : codec.buffer.length ≤ codec.limits.maxBufferSize) :
    (call.run u codec).2.limits = codec.limits ∧
      (call.run u codec).2.buffer.length ≤ codec.limits.maxBufferSize := by
  cases call with
  | decode data =>
    unfold DecodeCall.run
    rw [decode_snd]
    exact codec.decodeWithFrame_bounded u data h
  | decodeWithFrame data => exact codec.decodeWithFrame_bounded u data h
  | decodeRespValue data => exact codec.decodeRespValue_bounded data h

theorem after_bounded (calls : List DecodeCall)
    (h : codec.buffer.length ≤ codec.limits.maxBufferSize) :
    (codec.after u calls).limits = codec.limits ∧
      (codec.after u calls).buffer.length ≤ codec.limits.maxBufferSize := by
  induction calls generalizing codec with
  | nil => exact ⟨rfl, h⟩
  | cons call calls ih =>
    obtain ⟨hlimits, hbuffer⟩ := codec.run_bounded u call h
    obtain ⟨hlimits', hbuffer'⟩ := ih (call.run u codec).2 (by rwa [hlimits])
    rw [hlimits] at hlimits' hbuffer'
    exact ⟨hlimits', hbuffer'⟩

/-! ## What the calls hand out -/

theorem decodeWithFrame_madeFrom (cmd : ParsedCommand) (frame : Bytes)
    (h : (codec.decodeWithFrame u data).1 = .ok (some (cmd, frame))) :
    ∃ v rest, parseRespValue codec.limits (codec.buffer ++ data) = .done v rest ∧
      toCommand u v = .ok cmd := by
  obtain ⟨hframe, -, hsplit⟩ := codec.decodeWithFrame_some u _ data frame cmd (Prod.ext h rfl)
  have hparse := (streaming_parseCommand u codec.limits).done_append _ _ _
    (codec.decodeWithFrame u data).2.buffer hframe
  rw [← hsplit] at hparse
  obtain ⟨v, rest, hv, hcmd⟩ := (andThen_eq_done ..).mp hparse
  refine ⟨v, rest, hv, ?_⟩
  cases hto : toCommand u v with
  | error message =>
    simp only [hto] at hcmd
    cases hcmd
  | ok cmd' =>
    simp only [hto] at hcmd
    cases hcmd
    rfl

theorem decodeRespValue_madeFrom (v : RespValue)
    (h : (codec.decodeRespValue data).1 = .ok (some v)) :
    ∃ rest, parseRespValue codec.limits (codec.buffer ++ data) = .done v rest := by
  unfold decodeRespValue at h
  split_ifs at h
  simp only at h
  split_ifs at h
  · cases h
  · cases hparse : parseRespValue codec.limits (codec.buffer ++ data) with
    | fail e => simp [hparse] at h
    | more => simp [hparse] at h
    | done v' rest =>
      simp only [hparse] at h
      cases h
      exact ⟨rest, rfl⟩

theorem run_madeFrom (call : DecodeCall) (d : Decoded) (h : (call.run u codec).1 = .ok (some d)) :
    ∃ v rest, parseRespValue codec.limits (codec.buffer ++ call.data) = .done v rest ∧
      d.MadeFrom u v := by
  cases call with
  | decode data =>
    rw [DecodeCall.run, decode_fst] at h
    rcases hr : (codec.decodeWithFrame u data).1 with e | (_ | ⟨cmd, frame⟩) <;> rw [hr] at h <;>
        cases h
    exact codec.decodeWithFrame_madeFrom u data cmd frame hr
  | decodeWithFrame data =>
    rw [DecodeCall.run] at h
    rcases hr : (codec.decodeWithFrame u data).1 with e | (_ | ⟨cmd, frame⟩) <;> rw [hr] at h <;>
        cases h
    exact codec.decodeWithFrame_madeFrom u data cmd frame hr
  | decodeRespValue data =>
    rw [DecodeCall.run] at h
    rcases hr : (codec.decodeRespValue data).1 with e | (_ | v) <;> rw [hr] at h <;> cases h
    obtain ⟨rest, hv⟩ := codec.decodeRespValue_madeFrom data v hr
    exact ⟨v, rest, hv, rfl⟩

end RespCodec

/--
However the codec is called, its buffer keeps its bound, and what it hands out was read within the
limits.
-/
theorem limits_hold (u : CaseMap) (limits : CodecLimits) (calls : List DecodeCall)
    (call : DecodeCall) :
    ((RespCodec.withLimits limits).after u calls).buffer.length ≤ limits.maxBufferSize ∧
      ∀ d, (call.run u ((RespCodec.withLimits limits).after u calls)).1 = .ok (some d) →
        ∃ v rest,
          parseRespValue limits
            (((RespCodec.withLimits limits).after u calls).buffer ++ call.data) = .done v rest ∧
            d.MadeFrom u v ∧ v.within limits = true := by
  obtain ⟨hlimits, hbuffer⟩ := (RespCodec.withLimits limits).after_bounded u calls (Nat.zero_le _)
  refine ⟨hbuffer, fun d h => ?_⟩
  obtain ⟨v, rest, hv, hd⟩ := RespCodec.run_madeFrom u _ call d h
  rw [hlimits] at hv
  exact ⟨v, rest, hv, hd, parseNested_within limits _ _ _ _ hv⟩

/-- One level below the outermost array, at both limits and in a full buffer. -/
theorem limits_hold_nested : ∃ v rest,
    parseRespValue ⟨2, 1, 18⟩ (utf8 "*1\r\n*1\r\n$2\r\nhi\r\n") = .done v rest ∧
      Decoded.MadeFrom asciiCaseMap v (.value (.array [.array [.bulkString (some (utf8 "hi"))]])) ∧
      v.within ⟨2, 1, 18⟩ = true :=
  (limits_hold asciiCaseMap ⟨2, 1, 18⟩ [.decode (utf8 "*1\r\n*1\r\n$2")]
    (.decodeRespValue (utf8 "\r\nhi\r\n"))).2 _ rfl

end RustyPotato
