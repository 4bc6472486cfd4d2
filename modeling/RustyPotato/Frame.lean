import RustyPotato.Encoding

/-!
# Command frames

A frame is the bytes of one command. The log holds the frames that the clients sent and those that a
rewrite made, and both are read back under the limits that a codec has by default.
-/

namespace RustyPotato

open Lib.Stream

/-- The bytes are one command, no more and no less. -/
def IsFrame (u : CaseMap) (limits : CodecLimits) (frame : Bytes) (cmd : ParsedCommand) : Prop :=
  parseCommand u limits frame = .done cmd []

instance (u : CaseMap) (limits : CodecLimits) (frame : Bytes) (cmd : ParsedCommand) :
    Decidable (IsFrame u limits frame cmd) := inferInstanceAs (Decidable (_ = _))

/-! ## What the server writes it can read -/

/-- An array of bulk strings. -/
def encodeCommand (parts : List Bytes) : Bytes := encodeValue (.array (parts.map .bulk))

/-- The sizes that the limits and an `i32` allow. -/
structure PartsFit (limits : CodecLimits) (parts : List Bytes) : Prop where
  count : parts.length ≤ limits.maxArrayLength ∧ parts.length < 2 ^ 31
  size : ∀ b ∈ parts, b.length ≤ limits.maxBulkSize ∧ b.length < 2 ^ 31

theorem argBytes_bulks (parts : List Bytes) : argBytes (parts.map fun b => .bulkString (some b)) =
    .ok parts := by
  induction parts with
  | nil => rfl
  | cons b parts ih => simp [argBytes, ih, Except.map]

theorem fitsAll_bulks (limits : CodecLimits) (parts : List Bytes)
    (h : ∀ b ∈ parts, b.length ≤ limits.maxBulkSize ∧ b.length < 2 ^ 31) :
    ResponseValue.fitsAll limits (parts.map .bulk) = true := by
  induction parts with
  | nil => rfl
  | cons b parts ih =>
    rw [List.map_cons, ResponseValue.fitsAll, ih fun c hc => h c (List.mem_cons_of_mem _ hc),
      Bool.and_true]
    exact decide_eq_true (h b List.mem_cons_self)

theorem decodedAll_bulks (parts : List Bytes) :
    ResponseValue.decodedAll (parts.map .bulk) =
      some (parts.map fun b => .bulkString (some b)) := by
  induction parts with
  | nil => rfl
  | cons b parts ih =>
    rw [List.map_cons, ResponseValue.decodedAll, ih]
    rfl

theorem parseRespValue_encodeCommand (limits : CodecLimits) (parts : List Bytes) (rest : Bytes)
    (h : PartsFit limits parts) :
    parseRespValue limits (encodeCommand parts ++ rest) =
      .done (.array (parts.map fun b => .bulkString (some b))) rest := by
  have hfits : (ResponseValue.array (parts.map .bulk)).fits limits = true := by
    rw [ResponseValue.fits, fitsAll_bulks limits parts h.size, Bool.and_true, List.length_map]
    exact decide_eq_true h.count
  obtain ⟨w, hw, hparse⟩ := parseRespValue_encodeValue limits _ hfits rest
  rw [ResponseValue.decoded, decodedAll_bulks] at hw
  cases hw
  exact hparse

theorem isFrame_of_bulks (u : CaseMap) (limits : CodecLimits) (frame : Bytes) (name : String)
    (args : List Bytes)
    (h : parseRespValue limits frame =
      .done (.array ((utf8 name :: args).map fun b => .bulkString (some b))) []) :
    IsFrame u limits frame ⟨u.toUppercase name, args⟩ := by
  unfold IsFrame parseCommand
  rw [andThen_done _ _ _ _ _ h]
  simp only [toCommand, argBytes_bulks, fromUtf8_utf8]
  rfl

/-- The name is read in upper case, the arguments as they were written. -/
theorem isFrame_encodeCommand (u : CaseMap) (limits : CodecLimits) (name : String)
    (args : List Bytes) (h : PartsFit limits (utf8 name :: args)) :
    IsFrame u limits (encodeCommand (utf8 name :: args)) ⟨u.toUppercase name, args⟩ := by
  have hparse := parseRespValue_encodeCommand limits (utf8 name :: args) [] h
  rw [List.append_nil] at hparse
  exact isFrame_of_bulks u limits _ name args hparse

namespace RespCodec

theorem decodeWithFrame_frame (u : CaseMap) (limits : CodecLimits) (cmd : ParsedCommand)
    (frame : Bytes) (h : IsFrame u limits frame cmd) (hsize : frame.length ≤ limits.maxBufferSize) :
    (withLimits limits).decodeWithFrame u frame = (.ok (some (cmd, frame)), withLimits limits) := by
  unfold IsFrame at h
  unfold decodeWithFrame withLimits
  simp only
  rw [if_neg (by simpa using hsize), List.nil_append, h]
  simp

theorem decodeRespValue_done (limits : CodecLimits) (data rest : Bytes) (w : RespValue)
    (hsize : data.length ≤ limits.maxBufferSize) (h : parseRespValue limits data = .done w rest) :
    (withLimits limits).decodeRespValue data = (.ok (some w), ⟨rest, limits⟩) := by
  have hne : data ≠ [] := by
    rintro rfl
    cases h
  unfold decodeRespValue withLimits
  simp only
  rw [if_neg (by simpa using hsize), List.nil_append, if_neg (by simpa using hne), h]

theorem parseRespValue_of_decoded (limits : CodecLimits) (data rest : Bytes) (w : RespValue)
    (h : (withLimits limits).decodeRespValue data = (.ok (some w), ⟨rest, limits⟩)) :
    parseRespValue limits data = .done w rest := by
  unfold decodeRespValue withLimits at h
  simp only [List.nil_append] at h
  split_ifs at h
  · cases congrArg Prod.fst h
  · cases congrArg Prod.fst h
  · split at h
    · rename_i value rest' hparse
      cases h
      exact hparse
    · cases congrArg Prod.fst h
    · cases congrArg Prod.fst h

/--
Decoding undoes encoding, with any bytes behind, and leaves just these in the buffer. Bulk strings
give a command.
-/
theorem decode_encode (u : CaseMap) (codec : RespCodec) (v : ResponseValue) (rest : Bytes)
    (hfits : v.fits codec.limits = true)
    (hcap : (encodeValue v).length + rest.length ≤ codec.limits.maxBufferSize) :
    (∃ w, v.decoded = some w ∧
      (codec.encode v).2.decodeRespValue ((codec.encode v).1 ++ rest) =
        (.ok (some w), ⟨rest, codec.limits⟩)) ∧
    ∀ first args name, v = .array ((first :: args).map .bulk) → fromUtf8 first = some name →
      (codec.encode v).2.decodeWithFrame u (codec.encode v).1 =
        (.ok (some (⟨u.toUppercase name, args⟩, (codec.encode v).1)), withLimits codec.limits) := by
  refine ⟨?_, ?_⟩
  · obtain ⟨w, hw, hparse⟩ := parseRespValue_encodeValue codec.limits v hfits rest
    exact ⟨w, hw, decodeRespValue_done codec.limits _ rest w (by rwa [List.length_append]) hparse⟩
  · rintro first args name rfl hname
    obtain rfl := (fromUtf8_eq_some ..).mp hname
    obtain ⟨w, hw, hparse⟩ := parseRespValue_encodeValue codec.limits _ hfits []
    rw [ResponseValue.decoded, decodedAll_bulks] at hw
    cases hw
    rw [List.append_nil] at hparse
    exact decodeWithFrame_frame u codec.limits _ _ (isFrame_of_bulks u codec.limits _ name args
      hparse) (Nat.le_of_add_right_le hcap)

/-- An array in an array, with bytes that look like RESP. -/
def sampleValue : ResponseValue :=
  .array [.bulk (utf8 "get\r\n$-1"), .array [.integer (-7), .nil], .simpleString "OK"]

theorem decode_encode_sampleValue :
    ∃ w, sampleValue.decoded = some w ∧
      (withLimits .default).decodeRespValue (encodeValue sampleValue ++ utf8 "+PO") =
        (.ok (some w), ⟨utf8 "+PO", .default⟩) :=
  (decode_encode asciiCaseMap (withLimits .default) sampleValue (utf8 "+PO") (by decide +kernel)
    (by decide +kernel)).1

end RespCodec

/-! ## Other limits -/

/-- A value that may stand in a command. -/
def RespValue.IsText : RespValue → Prop
  | .simpleString _ | .bulkString (some _) => True
  | _ => False

section
variable (old limits : CodecLimits)

theorem payload_length (n : Nat) (input rest : Bytes) (v : RespValue)
    (h : payload n input = .done v rest) : n ≤ input.length := by
  unfold payload at h
  split_ifs at h
  omega

theorem parseLength_eq_done (kind : String) (max : Nat) (null v : RespValue)
    (body : Nat → RespParser RespValue) (input rest : Bytes) :
    parseLength kind max null body input = .done v rest ↔
      ∃ line mid, readLine input = .done line mid ∧
        ((parseI32 line = some (-1) ∧ v = null ∧ mid = rest) ∨
          ∃ n : Nat, parseI32 line = some (n : Int) ∧ n ≤ max ∧ body n mid = .done v rest) := by
  rw [parseLength, andThen_eq_done]
  refine exists_congr fun line => exists_congr fun mid => and_congr_right fun _ => ?_
  cases parseI32 line with
  | none => simp [failWith]
  | some length =>
    simp only [Option.some.injEq]
    by_cases h1 : length = -1
    · subst h1
      simp only [if_true, ret, Parsed.done.injEq, true_and]
      constructor
      · rintro ⟨rfl, rfl⟩
        exact .inl ⟨rfl, rfl⟩
      · rintro (⟨rfl, rfl⟩ | ⟨n, hn, -⟩)
        · exact ⟨rfl, rfl⟩
        · omega
    · rw [if_neg h1]
      simp only [h1, false_and, false_or]
      split_ifs with h2 h3
      · refine iff_of_false (fun h => by cases h) ?_
        rintro ⟨n, rfl, -⟩
        omega
      · refine iff_of_false (fun h => by cases h) ?_
        rintro ⟨n, rfl, hn, -⟩
        simp at h3
        omega
      · constructor
        · intro h
          exact ⟨length.toNat, by omega, by omega, h⟩
        · rintro ⟨n, rfl, -, h⟩
          simpa using h

theorem parseArray_value (element : RespParser RespValue) (input rest : Bytes) (v : RespValue)
    (h : parseArray limits element input = .done v rest) : ∃ vs, v = .array vs := by
  obtain ⟨line, mid, -, h⟩ := (parseLength_eq_done ..).mp h
  rcases h with ⟨-, rfl, -⟩ | ⟨n, -, -, h⟩
  · exact ⟨[], rfl⟩
  · obtain ⟨vs, _, -, hret⟩ := (andThen_eq_done ..).mp h
    cases hret
    exact ⟨vs, rfl⟩

theorem parseBulkString_limits (input rest : Bytes) (v : RespValue)
    (hlen : input.length ≤ limits.maxBulkSize) (h : parseBulkString old input = .done v rest) :
    parseBulkString limits input = .done v rest := by
  obtain ⟨line, mid, hline, h⟩ := (parseLength_eq_done ..).mp h
  have hmid := streaming_readLine.length_le _ input line mid hline
  refine (parseLength_eq_done ..).mpr ⟨line, mid, hline, h.imp_right ?_⟩
  rintro ⟨n, hn, -, hbody⟩
  have := payload_length n mid rest v hbody
  exact ⟨n, hn, by omega, hbody⟩

/-- Beside bulk strings only arrays depend on the limits. -/
theorem parseNested_limits (depth depth' : Nat) (input rest : Bytes) (v : RespValue)
    (hlen : input.length ≤ limits.maxBulkSize)
    (h : parseNested old (depth + 1) input = .done v rest)
    (harray : ∀ mid, mid.length < input.length →
      parseArray old (parseNested old depth) mid = .done v rest →
      parseArray limits (parseNested limits depth') mid = .done v rest) :
    parseNested limits (depth' + 1) input = .done v rest := by
  rw [parseNested] at h ⊢
  obtain ⟨b, mid, hb, h⟩ := (andThen_eq_done ..).mp h
  refine (andThen_eq_done ..).mpr ⟨b, mid, hb, ?_⟩
  have hmid : mid.length < input.length := by
    cases input with
    | nil => cases hb
    | cons c input =>
      cases hb
      exact Nat.lt_succ_self _
  unfold parseTyped at *
  split_ifs at h ⊢ with h1 h2 h3 h4 h5
  · exact h
  · exact h
  · exact h
  · exact parseBulkString_limits old limits mid rest v (by omega) h
  · exact harray mid hmid h
  · exact h

theorem parseNested_text (depth depth' : Nat) (input rest : Bytes) (v : RespValue) (hv : v.IsText)
    (hlen : input.length ≤ limits.maxBulkSize)
    (h : parseNested old (depth + 1) input = .done v rest) :
    parseNested limits (depth' + 1) input = .done v rest := by
  refine parseNested_limits old limits depth depth' input rest v hlen h fun mid _ harray => ?_
  obtain ⟨vs, rfl⟩ := parseArray_value old _ mid rest v harray
  exact hv.elim

theorem times_text (depth depth' n : Nat) (input rest : Bytes) (vs : List RespValue)
    (hvs : ∀ v ∈ vs, v.IsText) (hlen : input.length ≤ limits.maxBulkSize)
    (h : times (parseNested old (depth + 1)) n input = .done vs rest) :
    times (parseNested limits (depth' + 1)) n input = .done vs rest := by
  induction n generalizing input vs with
  | zero =>
    rw [times] at h ⊢
    exact h
  | succ n ih =>
    obtain ⟨v, mid, ws, hv, hws, rfl⟩ := (times_succ_eq_done ..).mp h
    have hmid := (streaming_parseNested old _).length_le _ input v mid hv
    have hv' := parseNested_text old limits depth depth' input mid v
      (hvs v List.mem_cons_self) hlen hv
    have hws' := ih mid ws (fun w hw => hvs w (List.mem_cons_of_mem _ hw)) (by omega) hws
    exact (times_succ_eq_done ..).mpr ⟨v, mid, ws, hv', hws', rfl⟩

theorem argBytes_isText (vs : List RespValue) (bs : List Bytes) (h : argBytes vs = .ok bs) :
    (∀ v ∈ vs, v.IsText) ∧ vs.length = bs.length := by
  induction vs generalizing bs with
  | nil => cases h; simp
  | cons v vs ih =>
    have hmap : ∀ b : Bytes, (argBytes vs).map (b :: ·) = .ok bs → ∃ bs', argBytes vs = .ok bs' ∧
        bs = b :: bs' := by
      intro b hb
      cases hvs : argBytes vs with
      | error e => rw [hvs] at hb; cases hb
      | ok bs' => rw [hvs] at hb; cases hb; exact ⟨bs', rfl, rfl⟩
    have hcons : ∀ b : Bytes, v.IsText → (argBytes vs).map (b :: ·) = .ok bs →
        (∀ w ∈ v :: vs, w.IsText) ∧ (v :: vs).length = bs.length := by
      intro b hv hb
      obtain ⟨bs', hbs', rfl⟩ := hmap b hb
      obtain ⟨htext, hlen⟩ := ih bs' hbs'
      refine ⟨fun w hw => ?_, by simp [hlen]⟩
      rcases List.mem_cons.mp hw with rfl | hw
      · exact hv
      · exact htext w hw
    match v, h with
    | .bulkString (some b), h => exact hcons b trivial h
    | .simpleString s, h => exact hcons (utf8 s) trivial h
    | .bulkString none, h => cases h
    | .integer _, h => cases h
    | .array _, h => cases h
    | .error _, h => cases h

theorem toCommand_parts (u : CaseMap) (v : RespValue) (mid rest : Bytes) (cmd : ParsedCommand)
    (h : (match toCommand u v with
      | .ok cmd => ret cmd
      | .error message =>
        failWith (protocolError message) : RespParser ParsedCommand) mid = .done cmd rest) :
    ∃ vs, v = .array vs ∧ (∀ v ∈ vs, v.IsText) ∧ vs.length = cmd.totalArgs := by
  match v, h with
  | .array vs, h =>
    refine ⟨vs, rfl, ?_⟩
    cases hbytes : argBytes vs with
    | error e => simp only [toCommand, hbytes] at h; cases h
    | ok bs =>
      obtain ⟨htext, hlen⟩ := argBytes_isText vs bs hbytes
      match bs, hbytes, hlen with
      | [], hbytes, _ => simp only [toCommand, hbytes] at h; cases h
      | name :: args, hbytes, hlen =>
        simp only [toCommand, hbytes] at h
        cases hname : fromUtf8 name with
        | none => simp only [hname] at h; cases h
        | some text =>
          simp only [hname] at h
          cases h
          exact ⟨htext, hlen⟩
  | .simpleString _, h => cases h
  | .bulkString _, h => cases h
  | .integer _, h => cases h
  | .error _, h => cases h

theorem parseRespValue_texts (input rest : Bytes) (vs : List RespValue) (hvs : ∀ v ∈ vs, v.IsText)
    (hcount : vs.length ≤ limits.maxArrayLength) (hlen : input.length ≤ limits.maxBulkSize)
    (h : parseRespValue old input = .done (.array vs) rest) :
    parseRespValue limits input = .done (.array vs) rest := by
  refine parseNested_limits old limits _ _ input rest _ hlen h fun mid hmid harray => ?_
  obtain ⟨line, tail, hline, harray⟩ := (parseLength_eq_done ..).mp harray
  have htail := streaming_readLine.length_le _ mid line tail hline
  refine (parseLength_eq_done ..).mpr ⟨line, tail, hline, harray.imp_right ?_⟩
  rintro ⟨n, hn, -, hbody⟩
  obtain ⟨ws, _, hws, hret⟩ := (andThen_eq_done ..).mp hbody
  cases hret
  have hlength := times_length _ n tail rest vs hws
  obtain ⟨depth, hdepth⟩ : ∃ depth, input.length = depth + 1 := ⟨input.length - 1, by omega⟩
  rw [hdepth] at hws ⊢
  exact ⟨n, hn, by omega, (andThen_eq_done ..).mpr
    ⟨vs, rest, times_text old limits depth depth n tail rest vs hvs (by omega) hws, rfl⟩⟩

/-- A frame that one codec has read is read by another, if it is not too long for it. -/
theorem isFrame_limits (u : CaseMap) (frame : Bytes) (cmd : ParsedCommand)
    (h : IsFrame u old frame cmd) (hcount : cmd.totalArgs ≤ limits.maxArrayLength)
    (hsize : frame.length ≤ limits.maxBulkSize) : IsFrame u limits frame cmd := by
  obtain ⟨v, rest, hv, hcmd⟩ := (andThen_eq_done ..).mp h
  refine (andThen_eq_done ..).mpr ⟨v, rest, ?_, hcmd⟩
  obtain ⟨vs, rfl, htext, hlen⟩ := toCommand_parts u v _ _ cmd hcmd
  exact parseRespValue_texts old limits frame rest vs htext (by omega) hsize hv

end

end RustyPotato
