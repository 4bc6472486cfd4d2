import RustyPotato.Lib.Stream
import RustyPotato.Registry

/-! # The RESP codec (`network/protocol.rs`) -/

namespace RustyPotato

open Lib.Stream

structure CodecLimits where
  maxBulkSize : Nat
  maxArrayLength : Nat
  maxBufferSize : Nat
deriving DecidableEq

def CodecLimits.default : CodecLimits where
  maxBulkSize := 512 * 1024 * 1024
  maxArrayLength := 1048576
  maxBufferSize := 64 * 1024 * 1024

inductive RespValue where
  | simpleString (s : String)
  | bulkString (b : Option Bytes)
  | integer (i : I64)
  | array (elements : List RespValue)
  | error (message : String)

def protocolError (message : String) : RustyPotatoError := .protocolError message

/-! ## Writing -/

def crlf : Bytes := [13, 10]

mutual

def encodeValue : ResponseValue → Bytes
  | .simpleString s => ch '+' :: utf8 s ++ crlf
  | .bulkString (some b) => ch '$' :: utf8 (toString b.length) ++ crlf ++ b ++ crlf
  | .bulkString none => utf8 "$-1" ++ crlf
  | .nil => utf8 "$-1" ++ crlf
  | .integer i => ch ':' :: utf8 (toString i) ++ crlf
  | .array elements => ch '*' :: utf8 (toString elements.length) ++ crlf ++ encodeValues elements

def encodeValues : List ResponseValue → Bytes
  | [] => []
  | v :: vs => encodeValue v ++ encodeValues vs

end

def encodeError (message : String) : Bytes := ch '-' :: utf8 message ++ crlf

/-! ## Reading -/

abbrev RespParser (α : Type) := Parser RustyPotatoError UInt8 α

/-- Up to the first line end, and what follows it. -/
def splitLine : Bytes → Option (Bytes × Bytes)
  | [] => none
  | b :: rest =>
    if b = 13 ∧ rest.head? = some 10 then some ([], rest.tail)
    else (splitLine rest).map fun r => (b :: r.1, r.2)

def readLine : RespParser String := fun input =>
  match splitLine input with
  | some (line, rest) =>
    match fromUtf8 line with
    | some text => .done text rest
    | none => .fail (protocolError "Invalid UTF-8 in line")
  | none => .more

def parseSimpleString : RespParser RespValue :=
  andThen readLine fun line => ret (.simpleString line)

def parseError : RespParser RespValue := andThen readLine fun line => ret (.error line)

def parseInteger : RespParser RespValue :=
  andThen readLine fun line =>
    match parseI64 line with
    | some i => ret (.integer i)
    | none => failWith (protocolError ("Invalid integer: " ++ line))

/-- The bytes of a bulk string and its line end, once all of them are there. -/
def payload (length : Nat) : RespParser RespValue := fun input =>
  if input.length < length + 2 then .more
  else if (input.drop length).take 2 = crlf then
    .done (.bulkString (some (input.take length))) (input.drop (length + 2))
  else .fail (protocolError "Missing \\r\\n terminator for bulk string")

/--
What `parse_bulk_string` and `parse_array` do with the length, which `kind` names in their errors.
-/
def parseLength (kind : String) (max : Nat) (null : RespValue) (body : Nat → RespParser RespValue) :
    RespParser RespValue :=
  andThen readLine fun line =>
    match parseI32 line with
    | none => failWith (protocolError ("Invalid " ++ kind ++ " length: " ++ line))
    | some length =>
      if length = -1 then ret null
      else if length < 0 then
        failWith (protocolError ("Invalid " ++ kind ++ " length: " ++ toString length))
      else if max < length.toNat then
        failWith (protocolError
          (kind ++ " length " ++ toString length ++ " exceeds max " ++ toString max))
      else body length.toNat

def parseBulkString (limits : CodecLimits) : RespParser RespValue :=
  parseLength "bulk string" limits.maxBulkSize (.bulkString none) payload

def parseArray (limits : CodecLimits) (element : RespParser RespValue) : RespParser RespValue :=
  parseLength "array" limits.maxArrayLength (.array []) fun length =>
    andThen (times element length) fun elements => ret (.array elements)

/-- What follows a type byte. -/
def parseTyped (limits : CodecLimits) (element : RespParser RespValue) (typeByte : UInt8) :
    RespParser RespValue :=
  if typeByte = ch '+' then parseSimpleString
  else if typeByte = ch '-' then parseError
  else if typeByte = ch ':' then parseInteger
  else if typeByte = ch '$' then parseBulkString limits
  else if typeByte = ch '*' then parseArray limits element
  else failWith (protocolError ("Unknown RESP type: " ++ toString (Char.ofNat typeByte.toNat)))

/-- The nesting is bounded by the input: see `parseRespValue`. -/
def parseNested (limits : CodecLimits) : Nat → RespParser RespValue
  | 0 => wait
  | depth + 1 => andThen next (parseTyped limits (parseNested limits depth))

/-- Every level of nesting takes a byte, so the input is deep enough. -/
def parseRespValue (limits : CodecLimits) : RespParser RespValue := fun input =>
  parseNested limits (input.length + 1) input

/-- The elements of a command as byte strings. -/
def argBytes : List RespValue → Except String (List Bytes)
  | [] => .ok []
  | .bulkString (some b) :: rest => (argBytes rest).map (b :: ·)
  | .simpleString s :: rest => (argBytes rest).map (utf8 s :: ·)
  | _ => .error "Command arguments must be strings"

def toCommand (u : CaseMap) : RespValue → Except String ParsedCommand
  | .array elements =>
    match argBytes elements with
    | .error e => .error e
    | .ok [] => .error "Empty command array"
    | .ok (name :: args) =>
      match fromUtf8 name with
      | some text => .ok ⟨u.toUppercase text, args⟩
      | none => .error "Invalid UTF-8 in command name"
  | _ => .error "Expected array for command"

def parseCommand (u : CaseMap) (limits : CodecLimits) : RespParser ParsedCommand :=
  andThen (parseRespValue limits) fun value =>
    match toCommand u value with
    | .ok cmd => ret cmd
    | .error message => failWith (protocolError message)

structure RespCodec where
  buffer : Bytes
  limits : CodecLimits
deriving DecidableEq

namespace RespCodec

def withLimits (limits : CodecLimits) : RespCodec := ⟨[], limits⟩

def new : RespCodec := withLimits .default

def bufferOverflow (limits : CodecLimits) : RustyPotatoError :=
  protocolError ("buffer overflow (>" ++ toString limits.maxBufferSize ++
    " bytes); closing connection")

/-- The buffer is scratch space here, and empty afterwards. -/
def encode (codec : RespCodec) (value : ResponseValue) : Bytes × RespCodec :=
  (encodeValue value, { codec with buffer := [] })

/-- What `decode_with_frame` finds in its buffer: a command with the bytes it was read from. -/
def decodeWithFrame (u : CaseMap) (codec : RespCodec) (data : Bytes) :
    Except RustyPotatoError (Option (ParsedCommand × Bytes)) × RespCodec :=
  if codec.limits.maxBufferSize < codec.buffer.length + data.length then
    (.error (bufferOverflow codec.limits), codec)
  else
    let buffer := codec.buffer ++ data
    match parseCommand u codec.limits buffer with
    | .done cmd rest =>
      (.ok (some (cmd, buffer.take (buffer.length - rest.length))), { codec with buffer := rest })
    | .more => (.ok none, { codec with buffer })
    -- What could not be read stays in the buffer.
    | .fail e => (.error e, { codec with buffer })

def decode (u : CaseMap) (codec : RespCodec) (data : Bytes) :
    Except RustyPotatoError (Option ParsedCommand) × RespCodec :=
  match codec.decodeWithFrame u data with
  | (.ok found, codec) => (.ok (found.map Prod.fst), codec)
  | (.error e, codec) => (.error e, codec)

/-- The replies of a server, as its clients read them. -/
def decodeRespValue (codec : RespCodec) (data : Bytes) :
    Except RustyPotatoError (Option RespValue) × RespCodec :=
  if codec.limits.maxBufferSize < codec.buffer.length + data.length then
    (.error (bufferOverflow codec.limits), codec)
  else
    let buffer := codec.buffer ++ data
    if buffer.isEmpty then (.ok none, { codec with buffer })
    else
      match parseRespValue codec.limits buffer with
      | .done value rest => (.ok (some value), { codec with buffer := rest })
      | .more => (.ok none, { codec with buffer })
      | .fail e => (.error e, { codec with buffer })

end RespCodec

/-! ## However the stream is cut -/

theorem splitLine_ne_nil (input : Bytes) (r : Bytes × Bytes) (h : splitLine input = some r) :
    input ≠ [] := by
  rintro rfl
  cases h

theorem head?_append_of_ne_nil (input tail : Bytes) (h : input ≠ []) :
    (input ++ tail).head? = input.head? := by
  cases input with
  | nil => exact absurd rfl h
  | cons b input => rfl

theorem splitLine_append (input line rest tail : Bytes) (h : splitLine input = some (line, rest)) :
    splitLine (input ++ tail) = some (line, rest ++ tail) := by
  induction input generalizing line rest with
  | nil => cases h
  | cons b input ih =>
    rw [splitLine] at h
    rw [List.cons_append, splitLine]
    split_ifs at h with hb
    · cases h
      have hne : input ≠ [] := by
        rintro rfl
        cases hb.2
      rw [if_pos ⟨hb.1, by rw [head?_append_of_ne_nil _ _ hne, hb.2]⟩,
        List.tail_append_of_ne_nil hne]
    · obtain ⟨⟨l, r⟩, hr, heq⟩ := Option.map_eq_some_iff.mp h
      cases heq
      rw [if_neg (by rwa [head?_append_of_ne_nil _ _ (splitLine_ne_nil _ _ hr)]), ih l r hr]
      rfl

theorem splitLine_split (input line rest : Bytes) (h : splitLine input = some (line, rest)) :
    input = line ++ crlf ++ rest ∧ splitLine (line ++ crlf) = some (line, []) := by
  induction input generalizing line rest with
  | nil => cases h
  | cons b input ih =>
    rw [splitLine] at h
    split_ifs at h with hb
    · cases h
      obtain ⟨rfl, hhead⟩ := hb
      obtain ⟨rest, rfl⟩ : ∃ rest, input = 10 :: rest := by
        cases input with
        | nil => cases hhead
        | cons c rest => exact ⟨rest, by rw [Option.some.inj hhead]⟩
      exact ⟨rfl, rfl⟩
    · obtain ⟨⟨l, r⟩, hr, heq⟩ := Option.map_eq_some_iff.mp h
      cases heq
      obtain ⟨rfl, hl⟩ := ih l r hr
      refine ⟨rfl, ?_⟩
      rw [head?_append_of_ne_nil _ _ (by simp [crlf])] at hb
      rw [List.cons_append, splitLine, if_neg hb, hl]
      rfl

theorem splitLine_line (line rest : Bytes) (h : ¬ crlf <:+: line) :
    splitLine (line ++ crlf ++ rest) = some (line, rest) := by
  induction line with
  | nil => rfl
  | cons b line ih =>
    have hline : ¬ crlf <:+: line := fun hin => h (hin.trans (List.suffix_cons b line).isInfix)
    rw [List.cons_append, List.cons_append, splitLine, if_neg, ih hline]
    · rfl
    · rintro ⟨rfl, hhead⟩
      cases line with
      | nil => cases hhead
      | cons c line =>
        obtain rfl : c = 10 := Option.some.inj hhead
        exact h ⟨[], line, rfl⟩

theorem not_crlf_of_notMem (line : Bytes) (h : (13 : UInt8) ∉ line) : ¬ crlf <:+: line :=
  fun hin => h (hin.subset List.mem_cons_self)

theorem readLine_eq_done (input rest : Bytes) (text : String) :
    readLine input = .done text rest ↔ splitLine input = some (utf8 text, rest) := by
  rw [readLine]
  cases splitLine input with
  | none => simp
  | some r =>
    obtain ⟨line, rest'⟩ := r
    simp only [Option.some.injEq, Prod.mk.injEq]
    cases htext : fromUtf8 line with
    | none =>
      refine iff_of_false (fun h => by cases h) ?_
      rintro ⟨rfl, -⟩
      rw [fromUtf8_utf8] at htext
      cases htext
    | some text' =>
      obtain rfl := (fromUtf8_eq_some _ _).mp htext
      have hinj : utf8 text' = utf8 text ↔ text' = text := ⟨utf8_injective _ _, congrArg utf8⟩
      simp [hinj]

theorem streaming_readLine : Streaming readLine where
  done_append := by
    intro input text rest tail h
    unfold readLine at *
    cases hs : splitLine input with
    | none => simp [hs] at h
    | some r =>
      rw [splitLine_append input r.1 r.2 tail hs]
      rw [hs] at h
      simp only at h ⊢
      cases ht : fromUtf8 r.1 with
      | none => simp [ht] at h
      | some text' =>
        simp only [ht] at h ⊢
        cases h
        rfl
  fail_append := by
    intro input e tail h
    unfold readLine at *
    cases hs : splitLine input with
    | none => simp [hs] at h
    | some r =>
      rw [splitLine_append input r.1 r.2 tail hs]
      rw [hs] at h
      simp only at h ⊢
      cases ht : fromUtf8 r.1 with
      | none => simpa only [ht] using h
      | some text => simp [ht] at h
  done_split := by
    intro input text rest h
    unfold readLine at h
    cases hs : splitLine input with
    | none => simp [hs] at h
    | some r =>
      obtain ⟨hinput, hline⟩ := splitLine_split input r.1 r.2 hs
      rw [hs] at h
      simp only at h
      cases ht : fromUtf8 r.1 with
      | none => simp [ht] at h
      | some text' =>
        simp only [ht] at h
        cases h
        exact ⟨r.1 ++ crlf, hinput, by simp [readLine, hline, ht]⟩

theorem streaming_payload (length : Nat) : Streaming (payload length) where
  done_append := by
    intro input v rest tail h
    unfold payload at *
    split_ifs at h with hlen hcr
    cases h
    rw [if_neg (by simp; omega), if_pos]
    · rw [List.take_append_of_le_length (by omega), List.drop_append_of_le_length (by omega)]
    · rw [List.drop_append_of_le_length (by omega), List.take_append_of_le_length (by simp; omega),
        hcr]
  fail_append := by
    intro input e tail h
    unfold payload at *
    split_ifs at h with hlen hcr
    rw [if_neg (by simp; omega), if_neg]
    · exact h
    · rwa [List.drop_append_of_le_length (by omega), List.take_append_of_le_length (by simp; omega)]
  done_split := by
    intro input v rest h
    unfold payload at h
    split_ifs at h with hlen hcr
    cases h
    refine ⟨input.take (length + 2), (List.take_append_drop ..).symm, ?_⟩
    have hlen' : (input.take (length + 2)).length = length + 2 := by simp; omega
    unfold payload
    rw [if_neg (by omega), if_pos, List.take_take, Nat.min_eq_left (by omega),
      List.drop_eq_nil_of_le (by omega)]
    rw [List.drop_take, List.take_take]
    simpa using hcr

theorem streaming_parseLength (kind : String) (max : Nat) (null : RespValue)
    (body : Nat → RespParser RespValue) (hbody : ∀ n, Streaming (body n)) :
    Streaming (parseLength kind max null body) := by
  refine streaming_andThen _ _ streaming_readLine fun line => ?_
  split
  · exact streaming_failWith _
  · split_ifs
    · exact streaming_ret _
    · exact streaming_failWith _
    · exact streaming_failWith _
    · exact hbody _

theorem streaming_parseTyped (limits : CodecLimits) (element : RespParser RespValue)
    (h : Streaming element) (b : UInt8) : Streaming (parseTyped limits element b) := by
  unfold parseTyped
  split_ifs
  · exact streaming_andThen _ _ streaming_readLine fun _ => streaming_ret _
  · exact streaming_andThen _ _ streaming_readLine fun _ => streaming_ret _
  · refine streaming_andThen _ _ streaming_readLine fun line => ?_
    split
    · exact streaming_ret _
    · exact streaming_failWith _
  · exact streaming_parseLength _ _ _ _ streaming_payload
  · exact streaming_parseLength _ _ _ _ fun n =>
      streaming_andThen _ _ (streaming_times _ h n) fun _ => streaming_ret _
  · exact streaming_failWith _

theorem streaming_parseNested (limits : CodecLimits) (depth : Nat) :
    Streaming (parseNested limits depth) := by
  induction depth with
  | zero => exact streaming_wait
  | succ depth ih => exact streaming_andThen _ _ streaming_next (streaming_parseTyped limits _ ih)

/-! ## The nesting that the input allows -/

theorem parseLength_congr (kind : String) (max : Nat) (null : RespValue)
    (body body' : Nat → RespParser RespValue) (input : Bytes)
    (h : ∀ n rest, rest.length ≤ input.length → body n rest = body' n rest) :
    parseLength kind max null body input = parseLength kind max null body' input := by
  unfold parseLength andThen
  cases hline : readLine input with
  | fail e => rfl
  | more => rfl
  | done line rest =>
    have hrest := streaming_readLine.length_le _ input line rest hline
    simp only [Parsed.andThen]
    cases parseI32 line with
    | none => rfl
    | some length =>
      simp only
      split_ifs
      · rfl
      · rfl
      · rfl
      · exact h _ rest hrest

theorem parseTyped_congr (limits : CodecLimits) (element element' : RespParser RespValue)
    (b : UInt8) (input : Bytes)
    (h : parseArray limits element input = parseArray limits element' input) :
    parseTyped limits element b input = parseTyped limits element' b input := by
  by_cases hb : b = ch '*'
  · subst hb
    exact h
  · simp only [parseTyped, if_neg hb]

theorem parseNested_succ (limits : CodecLimits) (depth : Nat) (input : Bytes)
    (h : input.length < depth) :
    parseNested limits (depth + 1) input = parseNested limits depth input := by
  induction depth generalizing input with
  | zero => omega
  | succ depth ih =>
    cases input with
    | nil => rfl
    | cons b rest =>
      simp only [List.length_cons] at h
      have harray : parseArray limits (parseNested limits (depth + 1)) rest =
          parseArray limits (parseNested limits depth) rest := by
        refine parseLength_congr _ _ _ _ _ rest fun n mid hmid => ?_
        unfold andThen
        rw [times_congr _ (parseNested limits depth) (streaming_parseNested limits (depth + 1)) n
          rest.length (fun input hinput => ih input (by omega)) mid hmid]
      rw [parseNested, parseNested]
      exact parseTyped_congr limits _ _ b rest harray

theorem parseNested_eq (limits : CodecLimits) (depth : Nat) (input : Bytes)
    (h : input.length < depth) : parseNested limits depth input = parseRespValue limits input := by
  obtain ⟨extra, rfl⟩ : ∃ extra, depth = input.length + 1 + extra :=
    ⟨depth - (input.length + 1), by omega⟩
  clear h
  induction extra with
  | zero => rfl
  | succ extra ih => rw [← ih, ← Nat.add_assoc, parseNested_succ limits _ input (by omega)]

theorem streaming_parseRespValue (limits : CodecLimits) : Streaming (parseRespValue limits) where
  done_append := by
    intro input v rest tail h
    have hdepth := parseNested_eq limits (input.length + tail.length + 1) input (by omega)
    rw [← hdepth] at h
    rw [← parseNested_eq limits (input.length + tail.length + 1) (input ++ tail) (by simp)]
    exact (streaming_parseNested limits _).done_append input v rest tail h
  fail_append := by
    intro input e tail h
    have hdepth := parseNested_eq limits (input.length + tail.length + 1) input (by omega)
    rw [← hdepth] at h
    rw [← parseNested_eq limits (input.length + tail.length + 1) (input ++ tail) (by simp)]
    exact (streaming_parseNested limits _).fail_append input e tail h
  done_split := by
    intro input v rest h
    obtain ⟨used, rfl, hused⟩ := (streaming_parseNested limits _).done_split input v rest h
    refine ⟨used, rfl, ?_⟩
    rwa [parseNested_eq limits _ used (by simp only [List.length_append]; omega)] at hused

theorem streaming_parseCommand (u : CaseMap) (limits : CodecLimits) :
    Streaming (parseCommand u limits) := by
  refine streaming_andThen _ _ (streaming_parseRespValue limits) fun v => ?_
  split
  · exact streaming_ret _
  · exact streaming_failWith _

theorem parseCommand_nil (u : CaseMap) (limits : CodecLimits) : parseCommand u limits [] = .more :=
  rfl

theorem stuck_nil (u : CaseMap) (limits : CodecLimits) : Stuck (parseCommand u limits) [] := by
  intro cmd rest h
  cases h

end RustyPotato
