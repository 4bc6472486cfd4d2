import RustyPotato.Decoding
import RustyPotato.Snapshot

/-!
# How long a frame is, and whether it is read back

The reader of the log refuses an array with too many elements and a frame that is longer than its
buffer. What the server has encoded itself can fail in no other way.
-/

namespace RustyPotato

open Lib.Stream

/-! ## Lengths on the wire -/

/-- The digits of a number. -/
def digitCount (n : Nat) : Nat := (utf8 (toString n)).length

/-- `$`, the length, the bytes, and two line ends. -/
def bulkSize (n : Nat) : Nat := digitCount n + n + 5

/-- `*`, the number of parts, a line end, and parts of these lengths. -/
def frameSize (lengths : List Nat) : Nat :=
  digitCount lengths.length + 3 + (lengths.map bulkSize).sum

theorem length_bulk (b : Bytes) : (encodeValue (.bulk b)).length = bulkSize b.length := by
  simp only [ResponseValue.bulk, encodeValue, bulkSize, digitCount, crlf, List.length_append,
    List.length_cons, List.length_nil]
  omega

theorem length_bulks (parts : List Bytes) :
    (encodeValues (parts.map .bulk)).length = ((parts.map List.length).map bulkSize).sum := by
  induction parts with
  | nil => rfl
  | cons b parts ih =>
    simp only [List.map_cons, encodeValues, List.length_append, List.sum_cons, length_bulk, ih]

theorem length_encodeCommand (parts : List Bytes) :
    (encodeCommand parts).length = frameSize (parts.map List.length) := by
  simp only [encodeCommand, encodeValue, frameSize, digitCount, crlf, List.length_append,
    List.length_cons, List.length_nil, List.length_map, length_bulks]

/-! ## Counts -/

theorem parseI32_toString_eq (n : Nat) (i : Int) (h : parseI32 (toString n) = some i) : i = n := by
  have hsigned : Lib.Decimal.signed (toString n).toList = some (n : Int) :=
    Lib.Decimal.signed_toString n
  rw [parseI32, hsigned, Lib.Decimal.within, Option.filter_eq_some_iff] at h
  exact (Option.some.inj h.1).symm

/-- The header of an array is looked at before its elements. -/
theorem encodeArray_count (limits : CodecLimits) (vs : List ResponseValue) (w : RespValue)
    (rest : Bytes) (h : parseRespValue limits (encodeValue (.array vs)) = .done w rest) :
    vs.length ≤ limits.maxArrayLength := by
  have hheader : encodeValue (.array vs) =
      ch '*' :: (utf8 (toString vs.length) ++ crlf ++ encodeValues vs) := by
    simp [encodeValue]
  rw [hheader, parseRespValue, parseNested_cons] at h
  replace h : parseArray limits _ (utf8 (toString vs.length) ++ crlf ++ encodeValues vs) =
      .done w rest := h
  obtain ⟨line, mid, hline, h⟩ := (parseLength_eq_done ..).mp h
  rw [readLine_line (toString vs.length) (encodeValues vs) (not_crlf_toString vs.length)] at hline
  cases hline
  rcases h with ⟨hnull, -, -⟩ | ⟨n, hn, hmax, -⟩
  · have := parseI32_toString_eq _ _ hnull
    omega
  · have := parseI32_toString_eq _ _ hn
    omega

theorem payload_value (n : Nat) (input rest : Bytes) (v : RespValue)
    (h : payload n input = .done v rest) : ∃ b, v = .bulkString b := by
  unfold payload at h
  split_ifs at h
  cases h
  exact ⟨_, rfl⟩

theorem parseTyped_count (limits : CodecLimits) (element : RespParser RespValue) (typeByte : UInt8)
    (input rest : Bytes) (vs : List RespValue)
    (h : parseTyped limits element typeByte input = .done (.array vs) rest) :
    vs.length ≤ limits.maxArrayLength := by
  unfold parseTyped at h
  split_ifs at h
  · obtain ⟨line, mid, -, hret⟩ := (andThen_eq_done ..).mp h
    cases hret
  · obtain ⟨line, mid, -, hret⟩ := (andThen_eq_done ..).mp h
    cases hret
  · obtain ⟨line, mid, -, hret⟩ := (andThen_eq_done ..).mp h
    cases hint : parseI64 line <;> rw [hint] at hret <;> cases hret
  · obtain ⟨line, mid, -, hnull | ⟨n, -, -, hbody⟩⟩ := (parseLength_eq_done ..).mp h
    · cases hnull.2.1
    · obtain ⟨b, hb⟩ := payload_value n mid rest _ hbody
      cases hb
  · obtain ⟨line, mid, -, hnull | ⟨n, -, hmax, hbody⟩⟩ := (parseLength_eq_done ..).mp h
    · cases hnull.2.1
      exact Nat.zero_le _
    · obtain ⟨ws, tail, hws, hret⟩ := (andThen_eq_done ..).mp hbody
      cases hret
      rwa [times_length _ n mid rest vs hws]
  · cases h

theorem IsFrame.count (u : CaseMap) (limits : CodecLimits) (frame : Bytes) (cmd : ParsedCommand)
    (h : IsFrame u limits frame cmd) : cmd.totalArgs ≤ limits.maxArrayLength := by
  obtain ⟨v, rest, hv, hcmd⟩ := (andThen_eq_done ..).mp h
  obtain ⟨vs, rfl, -, hlen⟩ := toCommand_parts u v _ _ cmd hcmd
  rw [parseRespValue, parseNested] at hv
  obtain ⟨b, mid, -, hv⟩ := (andThen_eq_done ..).mp hv
  rw [← hlen]
  exact parseTyped_count limits _ b mid rest vs hv

/-! ## What the reader of the log makes of a frame -/

/-- The command is within the default limits when it is written as a frame. -/
structure ParsedCommand.Fits (cmd : ParsedCommand) : Prop where
  count : cmd.totalArgs ≤ CodecLimits.default.maxArrayLength
  size : frameSize ((utf8 cmd.name :: cmd.args).map List.length) ≤ CodecLimits.default.maxBufferSize

instance (cmd : ParsedCommand) : Decidable cmd.Fits :=
  decidable_of_iff (cmd.totalArgs ≤ CodecLimits.default.maxArrayLength ∧
    frameSize ((utf8 cmd.name :: cmd.args).map List.length) ≤ CodecLimits.default.maxBufferSize)
    ⟨fun h => ⟨h.1, h.2⟩, fun h => ⟨h.1, h.2⟩⟩

section
variable (u : CaseMap) (cmd : ParsedCommand)

theorem length_encodeParsed :
    (encodeParsed cmd).length = frameSize ((utf8 cmd.name :: cmd.args).map List.length) :=
  length_encodeCommand _

theorem ParsedCommand.Fits.isFrame (h : cmd.Fits) (hname : u.toUppercase cmd.name = cmd.name) :
    IsFrame u .default (encodeParsed cmd) cmd :=
  isFrame_encodeParsed u cmd hname h.count (length_encodeParsed cmd ▸ h.size)

theorem fits_of_decoded (found : ParsedCommand × Bytes) (codec : RespCodec)
    (h : RespCodec.new.decodeWithFrame u (encodeParsed cmd) = (.ok (some found), codec)) :
    cmd.Fits := by
  have hsize := RespCodec.decodeWithFrame_found_le _ _ _ _ h
  obtain ⟨hframe, -, hsplit⟩ := RespCodec.decodeWithFrame_some u _ _ _ _ _ h
  have hparse := (streaming_parseCommand u .default).done_append _ _ _ codec.buffer hframe
  rw [← hsplit] at hparse
  obtain ⟨w, rest, hvalue, -⟩ := (andThen_eq_done ..).mp hparse
  have hcount := encodeArray_count .default _ w rest hvalue
  refine ⟨by simpa [ParsedCommand.totalArgs] using hcount, ?_⟩
  rw [← length_encodeParsed]
  exact Nat.le_of_add_left_le hsize

/-- A frame of the server is read back just when it is within the limits. -/
theorem decodeWithFrame_encodeParsed (hname : u.toUppercase cmd.name = cmd.name) :
    (∃ cmd', RespCodec.new.decodeWithFrame u (encodeParsed cmd) =
      (.ok (some (cmd', encodeParsed cmd)), .new)) ↔
      cmd.Fits := by
  constructor
  · rintro ⟨cmd', h⟩
    exact fits_of_decoded u cmd _ _ h
  · intro h
    exact ⟨cmd, RespCodec.decodeWithFrame_frame u .default cmd _ (h.isFrame u cmd hname)
      (length_encodeParsed cmd ▸ h.size)⟩

theorem decode_encodeParsed (hname : u.toUppercase cmd.name = cmd.name) :
    (RespCodec.new.decode u (encodeParsed cmd)).1.toOption.join =
      if cmd.Fits then some cmd else none := by
  unfold RespCodec.decode
  split_ifs with hfits
  · rw [RespCodec.new, RespCodec.decodeWithFrame_frame u .default cmd _ (hfits.isFrame u cmd hname)
      (length_encodeParsed cmd ▸ hfits.size)]
    rfl
  · match hdecode : RespCodec.new.decodeWithFrame u (encodeParsed cmd) with
    | (.ok none, _) => rfl
    | (.ok (some found), codec) => exact absurd (fits_of_decoded u cmd found codec hdecode) hfits
    | (.error _, _) => rfl

theorem decodeEach_encodeParsed (cmds : List ParsedCommand)
    (hnames : ∀ cmd ∈ cmds, u.toUppercase cmd.name = cmd.name) :
    decodeEach u (cmds.map encodeParsed) = cmds.filter fun cmd => cmd.Fits := by
  induction cmds with
  | nil => rfl
  | cons cmd cmds ih =>
    have hrest := ih fun c hc => hnames c (List.mem_cons_of_mem _ hc)
    unfold decodeEach at *
    rw [List.map_cons, List.filterMap_cons,
      decode_encodeParsed u cmd (hnames cmd List.mem_cons_self), hrest, List.filter_cons]
    by_cases hfits : cmd.Fits
    · simp [hfits]
    · simp [hfits]

end

end RustyPotato
