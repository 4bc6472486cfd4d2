import RustyPotato.Codec

/-!
# How deep the parser goes

`parse_array` calls `parse_resp_value` for each element, so nested arrays are nested calls. Nothing
but the input ends the nesting: a client that sends `*1\r\n` over and over opens one more call with
every four bytes.
-/

namespace RustyPotato

open Lib.Stream

/-- The number of elements and what follows it, when `parse_array` goes on to its elements. -/
def arrayHeader (limits : CodecLimits) (input : Bytes) : Option (Nat × Bytes) :=
  match readLine input with
  | .done line rest =>
    match parseI32 line with
    | some length =>
      if 0 ≤ length ∧ length.toNat ≤ limits.maxArrayLength then some (length.toNat, rest) else none
    | none => none
  | _ => none

/-- The deepest of the calls that the loop over the elements makes. -/
def loopDepth (element : RespParser RespValue) (depthOf : Bytes → Nat) : Nat → Bytes → Nat
  | 0, _ => 0
  | n + 1, input =>
    match element input with
    | .done _ rest => max (depthOf input) (loopDepth element depthOf n rest)
    | _ => depthOf input

/-- How many calls of `parse_resp_value` are open at once, with as much fuel as `parseNested`. -/
def nestedDepth (limits : CodecLimits) : Nat → Bytes → Nat
  | 0, _ => 0
  | _ + 1, [] => 1
  | fuel + 1, b :: rest =>
    if b = ch '*' then
      match arrayHeader limits rest with
      | some (n, body) => 1 + loopDepth (parseNested limits fuel) (nestedDepth limits fuel) n body
      | none => 1
    else 1

def recursionDepth (limits : CodecLimits) (input : Bytes) : Nat :=
  nestedDepth limits (input.length + 1) input

/-- The same for a call of a decoder, which does not parse what is too long, or nothing at all. -/
def RespCodec.decodeDepth (codec : RespCodec) (data : Bytes) : Nat :=
  if codec.limits.maxBufferSize < codec.buffer.length + data.length then 0
  else if (codec.buffer ++ data).isEmpty then 0
  else recursionDepth codec.limits (codec.buffer ++ data)

/-! ## The depth and the parser -/

section
variable (limits : CodecLimits)

theorem arrayHeader_eq_some (input rest : Bytes) (n : Nat)
    (h : arrayHeader limits input = some (n, rest)) :
    ∃ line length, readLine input = .done line rest ∧ parseI32 line = some length ∧ 0 ≤ length ∧
      length.toNat = n ∧
      n ≤ limits.maxArrayLength := by
  unfold arrayHeader at h
  cases hline : readLine input with
  | fail e => simp [hline] at h
  | more => simp [hline] at h
  | done line mid =>
    simp only [hline] at h
    cases hlength : parseI32 line with
    | none => simp [hlength] at h
    | some length =>
      simp only [hlength] at h
      split_ifs at h with hrange
      cases h
      exact ⟨line, length, rfl, hlength, hrange.1, rfl, hrange.2⟩

theorem parseArray_of_header (element : RespParser RespValue) (input rest : Bytes) (n : Nat)
    (h : arrayHeader limits input = some (n, rest)) :
    parseArray limits element input = (times element n rest).andThen fun elements =>
      ret (.array elements) := by
  obtain ⟨line, length, hline, hlength, hpos, rfl, hmax⟩ :=
    arrayHeader_eq_some limits input rest n h
  unfold parseArray parseLength
  rw [andThen_done _ _ _ _ _ hline, hlength]
  simp only
  rw [if_neg (by omega), if_neg (by omega), if_neg (by omega)]
  rfl

theorem parseArray_of_no_header (element element' : RespParser RespValue) (input : Bytes)
    (h : arrayHeader limits input = none) :
    parseArray limits element input = parseArray limits element' input := by
  unfold arrayHeader at h
  unfold parseArray parseLength andThen
  cases hline : readLine input with
  | fail e => rfl
  | more => rfl
  | done line mid =>
    simp only [hline] at h
    simp only [Parsed.andThen]
    cases hlength : parseI32 line with
    | none => rfl
    | some length =>
      simp only [hlength] at h
      simp only
      split_ifs at h ⊢ with hrange
      · rfl
      · rfl
      · rfl
      · omega

theorem times_of_loopDepth (element element' : RespParser RespValue) (depthOf : Bytes → Nat)
    (d : Nat) (helement : ∀ input, depthOf input ≤ d → element' input = element input) (n : Nat)
    (input : Bytes) (h : loopDepth element depthOf n input ≤ d) :
    times element' n input = times element n input := by
  induction n generalizing input with
  | zero => rfl
  | succ n ih =>
    rw [loopDepth] at h
    cases hfirst : element input with
    | fail e =>
      simp only [hfirst] at h
      simp [times, andThen, helement input h, hfirst, Parsed.andThen]
    | more =>
      simp only [hfirst] at h
      simp [times, andThen, helement input h, hfirst, Parsed.andThen]
    | done v rest =>
      simp only [hfirst] at h
      have hinput : element' input = element input := helement input (le_trans (le_max_left ..) h)
      have hrest : times element' n rest = times element n rest :=
        ih rest (le_trans (le_max_right ..) h)
      simp only [times, andThen, hinput, hfirst, Parsed.andThen, hrest]

/-- A parser that may go as deep as this does everything that one without a bound does. -/
theorem parseNested_of_depth (fuel d : Nat) (input : Bytes) (h : nestedDepth limits fuel input ≤ d)
    (hd : d ≤ fuel) : parseNested limits d input = parseNested limits fuel input := by
  induction fuel generalizing d input with
  | zero =>
    obtain rfl : d = 0 := by omega
    rfl
  | succ fuel ih =>
    cases input with
    | nil =>
      cases d with
      | zero => exact absurd h (by simp [nestedDepth])
      | succ d => rfl
    | cons b rest =>
      obtain ⟨d, rfl⟩ : ∃ d', d = d' + 1 := by
        refine ⟨d - 1, ?_⟩
        have : 1 ≤ nestedDepth limits (fuel + 1) (b :: rest) := by
          unfold nestedDepth
          repeat' split
          all_goals omega
        omega
      have harray : b = ch '*' → parseArray limits (parseNested limits d) rest =
          parseArray limits (parseNested limits fuel) rest := by
        rintro rfl
        rw [nestedDepth, if_pos rfl] at h
        cases hheader : arrayHeader limits rest with
        | none => exact parseArray_of_no_header limits _ _ rest hheader
        | some header =>
          obtain ⟨n, body⟩ := header
          simp only [hheader] at h
          rw [parseArray_of_header limits _ _ _ _ hheader,
            parseArray_of_header limits _ _ _ _ hheader,
            times_of_loopDepth _ _ _ d (fun input hinput => ih d input hinput (by omega)) n body
              (by omega)]
      rw [parseNested, parseNested]
      unfold andThen next
      simp only [Parsed.andThen]
      by_cases hb : b = ch '*'
      · exact parseTyped_congr limits _ _ b rest (harray hb)
      · simp only [parseTyped, if_neg hb]

end

/-! ## What bounds it -/

section
variable (limits : CodecLimits)

theorem loopDepth_le (element : RespParser RespValue) (depthOf : Bytes → Nat) (bound : Nat)
    (len : Nat) (helement : Streaming element)
    (hdepth : ∀ input, input.length ≤ len → depthOf input ≤ bound) (n : Nat) (input : Bytes)
    (hlen : input.length ≤ len) : loopDepth element depthOf n input ≤ bound := by
  induction n generalizing input with
  | zero => exact Nat.zero_le _
  | succ n ih =>
    rw [loopDepth]
    cases hfirst : element input with
    | fail e => exact hdepth input hlen
    | more => exact hdepth input hlen
    | done v rest =>
      have hrest := helement.length_le _ _ _ _ hfirst
      exact max_le (hdepth input hlen) (ih rest (by omega))

theorem arrayHeader_length (input rest : Bytes) (n : Nat)
    (h : arrayHeader limits input = some (n, rest)) :
    rest.length + 3 ≤ input.length ∧ n ≤ limits.maxArrayLength := by
  obtain ⟨line, length, hline, hlength, -, -, hmax⟩ := arrayHeader_eq_some limits input rest n h
  refine ⟨?_, hmax⟩
  -- A length has at least one digit, and the line end takes two more.
  obtain ⟨hsplit, -⟩ := splitLine_split _ _ _ ((readLine_eq_done ..).mp hline)
  have hdigits : utf8 line ≠ [] := by
    intro hnil
    obtain rfl : line = "" := utf8_injective _ _ hnil
    cases hlength
  have hpos := List.length_pos_iff.mpr hdigits
  have htotal := congrArg List.length hsplit
  simp only [List.length_append, crlf, List.length_cons, List.length_nil] at htotal
  omega

/-- Every level takes at least four bytes. -/
theorem nestedDepth_le (fuel : Nat) (input : Bytes) :
    nestedDepth limits fuel input ≤ input.length / 4 + 1 := by
  induction fuel generalizing input with
  | zero => exact Nat.zero_le _
  | succ fuel ih =>
    cases input with
    | nil => exact le_rfl
    | cons b rest =>
      rw [nestedDepth]
      split_ifs
      · cases hheader : arrayHeader limits rest with
        | none => exact Nat.le_add_left _ _
        | some header =>
          obtain ⟨n, body⟩ := header
          obtain ⟨hlen, -⟩ := arrayHeader_length limits rest body n hheader
          have hloop := loopDepth_le (parseNested limits fuel) (nestedDepth limits fuel)
            (body.length / 4 + 1) body.length
            (streaming_parseNested limits fuel) (fun input hinput => (ih input).trans (by omega)) n
            body le_rfl
          simp only [List.length_cons]
          omega
      · exact Nat.le_add_left _ _

theorem decodeDepth_le (codec : RespCodec) (data : Bytes) :
    codec.decodeDepth data ≤ codec.limits.maxBufferSize / 4 + 1 := by
  unfold RespCodec.decodeDepth
  split_ifs
  · exact Nat.zero_le _
  · exact Nat.zero_le _
  · refine (nestedDepth_le codec.limits _ _).trans ?_
    rw [List.length_append]
    omega

theorem nestedDepth_no_arrays (h : limits.maxArrayLength = 0) (fuel : Nat) (input : Bytes) :
    nestedDepth limits fuel input ≤ 1 := by
  unfold nestedDepth
  split
  · exact Nat.zero_le _
  · exact le_rfl
  · split_ifs
    · split
      · rename_i n body hheader
        obtain ⟨-, hn⟩ := arrayHeader_length limits _ body n hheader
        obtain rfl : n = 0 := by omega
        exact le_rfl
      · exact le_rfl
    · exact le_rfl

/-- Arrays of one element, one in the other, of which the innermost has not arrived. -/
def nestedArrays : Nat → Bytes
  | 0 => []
  | n + 1 => utf8 "*1\r\n" ++ nestedArrays n

theorem length_nestedArrays (n : Nat) : (nestedArrays n).length = 4 * n := by
  induction n with
  | zero => rfl
  | succ n ih =>
    have : (utf8 "*1\r\n").length = 4 := rfl
    rw [nestedArrays, List.length_append, ih]
    omega

theorem arrayHeader_one (h : 0 < limits.maxArrayLength) (rest : Bytes) :
    arrayHeader limits (utf8 "1" ++ crlf ++ rest) = some (1, rest) := by
  have hline : readLine (utf8 "1" ++ crlf ++ rest) = .done "1" rest :=
    (readLine_eq_done ..).mpr (splitLine_line _ _ (not_crlf_of_notMem _ (by decide)))
  have hlength : parseI32 "1" = some 1 := parseI32_toString 1 (by decide)
  unfold arrayHeader
  simp only [hline, hlength]
  rw [if_pos ⟨by decide, h⟩]
  rfl

theorem nestedDepth_nestedArrays (h : 0 < limits.maxArrayLength) (n fuel : Nat) (hfuel : n < fuel) :
    nestedDepth limits fuel (nestedArrays n) = n + 1 := by
  induction n generalizing fuel with
  | zero =>
    obtain ⟨fuel, rfl⟩ : ∃ f, fuel = f + 1 := ⟨fuel - 1, by omega⟩
    rfl
  | succ n ih =>
    obtain ⟨fuel, rfl⟩ : ∃ f, fuel = f + 1 := ⟨fuel - 1, by omega⟩
    have hsplit : nestedArrays (n + 1) = ch '*' :: (utf8 "1" ++ crlf ++ nestedArrays n) := rfl
    rw [hsplit, nestedDepth, if_pos rfl, arrayHeader_one limits h]
    simp only
    have hloop : loopDepth (parseNested limits fuel) (nestedDepth limits fuel) 1 (nestedArrays n) =
        nestedDepth limits fuel (nestedArrays n) := by
      unfold loopDepth
      cases parseNested limits fuel (nestedArrays n) <;> simp [loopDepth]
    rw [hloop, ih fuel (by omega)]
    omega

end

theorem decodeDepth_nestedArrays (limits : CodecLimits) (h : 0 < limits.maxArrayLength) (n : Nat)
    (hn : 0 < n) (hsize : 4 * n ≤ limits.maxBufferSize) :
    (RespCodec.withLimits limits).decodeDepth (nestedArrays n) = n + 1 := by
  have hlen := length_nestedArrays n
  have hne : ¬ (nestedArrays n).isEmpty = true := by
    intro hempty
    rw [List.isEmpty_iff.mp hempty] at hlen
    simp at hlen
    omega
  unfold RespCodec.decodeDepth RespCodec.withLimits recursionDepth
  simp only [List.nil_append, List.length_nil]
  rw [if_neg (by omega), if_neg hne, nestedDepth_nestedArrays limits h n _ (by omega)]

/-- There is a bound whatever the buffer may hold just when arrays have no elements. -/
theorem recursion_bounded_iff (limits : CodecLimits) :
    (∃ bound, ∀ maxBufferSize buffer data,
        RespCodec.decodeDepth ⟨buffer, { limits with maxBufferSize }⟩ data ≤ bound) ↔
          limits.maxArrayLength = 0 := by
  constructor
  · rintro ⟨bound, h⟩
    by_contra harray
    have hdepth := decodeDepth_nestedArrays { limits with maxBufferSize := 4 * (bound + 1) }
      (Nat.pos_of_ne_zero harray) (bound + 1) (by omega) le_rfl
    have hbound := h (4 * (bound + 1)) [] (nestedArrays (bound + 1))
    unfold RespCodec.withLimits at hdepth
    omega
  · intro harray
    refine ⟨1, fun maxBufferSize buffer data => ?_⟩
    unfold RespCodec.decodeDepth
    split_ifs
    · exact Nat.zero_le _
    · exact Nat.zero_le _
    · exact nestedDepth_no_arrays { limits with maxBufferSize } harray _ _

/--
With the default limits a client opens more than sixteen million calls, one for every four bytes of
the buffer.
-/
theorem default_limits_depth :
    (∃ data, (RespCodec.withLimits .default).decodeDepth data = 16777217) ∧
      (∀ data, (RespCodec.withLimits .default).decodeDepth data ≤ 16777217) ∧
      ¬ ∃ bound, ∀ limits data, (RespCodec.withLimits limits).decodeDepth data ≤ bound := by
  refine ⟨⟨nestedArrays 16777216,
    decodeDepth_nestedArrays .default (by decide) _ (by decide) (by decide)⟩, decodeDepth_le _, ?_⟩
  rintro ⟨bound, h⟩
  have hbound := h ⟨0, 1, 4 * (bound + 1)⟩ (nestedArrays (bound + 1))
  have hdepth := decodeDepth_nestedArrays ⟨0, 1, 4 * (bound + 1)⟩ Nat.one_pos (bound + 1)
    (by omega) le_rfl
  omega

end RustyPotato
