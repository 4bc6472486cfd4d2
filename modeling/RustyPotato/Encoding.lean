import RustyPotato.Codec

/-!
# What is written can be read

A value that a codec has encoded is decoded to the value it stands for, whatever follows it. Bulk
strings may hold any bytes, simple strings no line end.
-/

namespace RustyPotato

open Lib.Stream

mutual

/--
The value as it is read. A missing bulk string and `Nil` look the same, and integers are of 64 bits.
-/
def ResponseValue.decoded : ResponseValue → Option RespValue
  | .simpleString s => some (.simpleString s)
  | .bulkString b => some (.bulkString b)
  | .nil => some (.bulkString none)
  | .integer i => (I64.ofInt? i).map .integer
  | .array elements => (decodedAll elements).map .array

def ResponseValue.decodedAll : List ResponseValue → Option (List RespValue)
  | [] => some []
  | v :: vs => (decoded v).bind fun w => (decodedAll vs).map (w :: ·)

end

mutual

/-- No simple string holds a line end, and every length is within the limits and an `i32`. -/
def ResponseValue.fits (limits : CodecLimits) : ResponseValue → Bool
  | .simpleString s => decide (¬ crlf <:+: utf8 s)
  | .bulkString (some b) => decide (b.length ≤ limits.maxBulkSize ∧ b.length < 2 ^ 31)
  | .bulkString none => true
  | .nil => true
  | .integer i => decide (-(2 ^ 63 : Int) ≤ i ∧ i < 2 ^ 63)
  | .array elements =>
    decide (elements.length ≤ limits.maxArrayLength ∧ elements.length < 2 ^ 31) &&
      fitsAll limits elements

def ResponseValue.fitsAll (limits : CodecLimits) : List ResponseValue → Bool
  | [] => true
  | v :: vs => fits limits v && fitsAll limits vs

end

/-! ## Lines -/

theorem readLine_line (text : String) (rest : Bytes) (h : ¬ crlf <:+: utf8 text) :
    readLine (utf8 text ++ crlf ++ rest) = .done text rest := by
  unfold readLine
  rw [splitLine_line (utf8 text) rest h]
  simp

theorem not_crlf_toString (i : Int) : ¬ crlf <:+: utf8 (toString i) := by
  apply not_crlf_of_notMem
  intro h
  rcases utf8_toString_bytes i 13 h with h | ⟨h, -⟩ <;> revert h <;> decide

theorem parseLength_line (kind : String) (max : Nat) (null : RespValue)
    (body : Nat → RespParser RespValue) (n : Nat) (rest : Bytes) (hmax : n ≤ max)
    (hn : n < 2 ^ 31) :
    parseLength kind max null body (utf8 (toString n) ++ crlf ++ rest) = body n rest := by
  unfold parseLength
  rw [andThen_done _ _ _ _ _ (readLine_line (toString n) rest (not_crlf_toString n))]
  simp only [parseI32_toString n hn]
  rw [if_neg (by omega), if_neg (by omega), if_neg (by simpa using hmax), Int.toNat_natCast]

theorem payload_bytes (b rest : Bytes) :
    payload b.length (b ++ crlf ++ rest) = .done (.bulkString (some b)) rest := by
  unfold payload
  rw [if_neg (by simp [crlf]), if_pos]
  · simp [crlf]
  · simp [crlf]

/-! ## One value -/

section
variable (limits : CodecLimits) (depth : Nat) (rest : Bytes)

theorem parseNested_cons (b : UInt8) :
    parseNested limits (depth + 1) (b :: rest) = parseTyped limits
      (parseNested limits depth) b rest := rfl

theorem parseNested_simpleString (s : String) (h : ¬ crlf <:+: utf8 s) :
    parseNested limits (depth + 1) (encodeValue (.simpleString s) ++ rest) =
      .done (.simpleString s) rest := by
  rw [encodeValue, List.cons_append, List.cons_append, parseNested_cons]
  exact andThen_done _ _ _ _ _ (readLine_line s rest h)

theorem parseNested_bulk (b : Bytes) (h : b.length ≤ limits.maxBulkSize ∧ b.length < 2 ^ 31) :
    parseNested limits (depth + 1) (encodeValue (.bulkString (some b)) ++ rest) =
      .done (.bulkString (some b)) rest := by
  have hbulk := parseLength_line "bulk string" limits.maxBulkSize
    (.bulkString none) payload b.length (b ++ crlf ++ rest) h.1 h.2
  rw [payload_bytes] at hbulk
  have hsplit : encodeValue (.bulkString (some b)) ++ rest =
      ch '$' :: (utf8 (toString b.length) ++ crlf ++ (b ++ crlf ++ rest)) := by
    simp [encodeValue]
  rw [hsplit, parseNested]
  exact hbulk

theorem parseNested_nil : parseNested limits (depth + 1) (utf8 "$-1" ++ crlf ++ rest) =
    .done (.bulkString none) rest :=
  andThen_done _ _ _ _ _ (readLine_line "-1" rest (by decide))

theorem parseNested_integer (i : I64) :
    parseNested limits (depth + 1) (encodeValue (.integer i.val) ++ rest) =
      .done (.integer i) rest := by
  rw [encodeValue, List.cons_append, List.cons_append, parseNested_cons]
  refine (andThen_done _ _ _ _ _
    (readLine_line (toString i.val) rest (not_crlf_toString i.val))).trans ?_
  rw [parseI64_toString]
  rfl

end

/-! ## Values in values -/

theorem encodeValue_array_append (vs : List ResponseValue) (rest : Bytes) :
    encodeValue (.array vs) ++ rest =
      ch '*' :: (utf8 (toString vs.length) ++ crlf ++ (encodeValues vs ++ rest)) := by
  simp [encodeValue]

mutual

/-- With any bytes behind it, and wherever it is nested. -/
theorem parseNested_encodeValue (limits : CodecLimits) (v : ResponseValue)
    (hfits : v.fits limits = true) (rest : Bytes) (depth : Nat)
    (hdepth : (encodeValue v ++ rest).length < depth) :
    ∃ w, v.decoded = some w ∧ parseNested limits depth (encodeValue v ++ rest) = .done w rest := by
  obtain ⟨depth, rfl⟩ : ∃ n, depth = n + 1 := ⟨depth - 1, by omega⟩
  match v with
  | .simpleString s =>
    exact ⟨_, rfl, parseNested_simpleString limits depth rest s (of_decide_eq_true hfits)⟩
  | .bulkString (some b) =>
    exact ⟨_, rfl, parseNested_bulk limits depth rest b (of_decide_eq_true hfits)⟩
  | .bulkString none => exact ⟨_, rfl, parseNested_nil limits depth rest⟩
  | .nil => exact ⟨_, rfl, parseNested_nil limits depth rest⟩
  | .integer i =>
    have hi : I64.ofInt? i = some ⟨i, of_decide_eq_true hfits⟩ := I64.ofInt?_val ⟨i, _⟩
    exact ⟨_, by rw [ResponseValue.decoded, hi]; rfl, parseNested_integer limits depth rest ⟨i, _⟩⟩
  | .array vs =>
    rw [ResponseValue.fits, Bool.and_eq_true] at hfits
    obtain ⟨hcount, hall⟩ := hfits
    have hcount := of_decide_eq_true hcount
    rw [encodeValue_array_append] at hdepth ⊢
    simp only [List.length_cons, List.length_append] at hdepth
    obtain ⟨ws, hws, htimes⟩ :=
      times_encodeValues limits vs hall rest depth (by rw [List.length_append]; omega)
    refine ⟨.array ws, by simp [ResponseValue.decoded, hws], ?_⟩
    rw [parseNested_cons]
    change parseArray limits (parseNested limits depth) _ = _
    unfold parseArray
    rw [parseLength_line _ _ _ _ vs.length _ hcount.1 hcount.2]
    exact andThen_done _ _ _ _ _ htimes

theorem times_encodeValues (limits : CodecLimits) (vs : List ResponseValue)
    (hfits : ResponseValue.fitsAll limits vs = true) (rest : Bytes) (depth : Nat)
    (hdepth : (encodeValues vs ++ rest).length < depth) :
    ∃ ws, ResponseValue.decodedAll vs = some ws ∧
      times (parseNested limits depth) vs.length (encodeValues vs ++ rest) = .done ws rest := by
  match vs with
  | [] => exact ⟨[], rfl, rfl⟩
  | v :: vs =>
    rw [ResponseValue.fitsAll, Bool.and_eq_true] at hfits
    rw [encodeValues, List.append_assoc] at hdepth ⊢
    obtain ⟨w, hw, hparse⟩ :=
      parseNested_encodeValue limits v hfits.1 (encodeValues vs ++ rest) depth hdepth
    rw [List.length_append] at hdepth
    obtain ⟨ws, hws, htimes⟩ := times_encodeValues limits vs hfits.2 rest depth (by omega)
    exact ⟨w :: ws, by simp [ResponseValue.decodedAll, hw, hws],
      (times_succ_eq_done ..).mpr ⟨w, _, ws, hparse, htimes, rfl⟩⟩

end

theorem parseRespValue_encodeValue (limits : CodecLimits) (v : ResponseValue)
    (hfits : v.fits limits = true) (rest : Bytes) : ∃ w, v.decoded = some w ∧
      parseRespValue limits (encodeValue v ++ rest) = .done w rest :=
  parseNested_encodeValue limits v hfits rest _ (Nat.lt_succ_self _)

end RustyPotato
