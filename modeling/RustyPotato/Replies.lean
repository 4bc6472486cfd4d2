import RustyPotato.LineEnds
import RustyPotato.Session

/-!
# Replies stay in sync

A reply is read back as one value, and as an error exactly if the command failed, unless the text of
an error brings a line end of its own. Three errors repeat what a client sent: the one about an
unknown command, the one about an unknown subcommand of `COMMAND`, and that of `INCR` and `DECR`
about a value.
-/

namespace RustyPotato

open Cmd Parse Lib.Stream

/-! ## One value on the wire -/

def RespValue.isError : RespValue → Bool
  | .error _ => true
  | _ => false

/-- The reply is one value for a reader whose limits are not below its length. -/
def InSync (result : Except String ResponseValue) : Prop :=
  ∀ limits : CodecLimits, (sendResponse result).length ≤ limits.maxBulkSize →
    (sendResponse result).length ≤ limits.maxArrayLength →
    (sendResponse result).length ≤ limits.maxBufferSize →
    ∃ w, (RespCodec.withLimits limits).decodeRespValue (sendResponse result) =
        (.ok (some w), RespCodec.withLimits limits) ∧
      (w.isError = true ↔ ∃ message, result = .error message)

theorem splitLine_first (input line rest : Bytes) (h : splitLine input = some (line, rest)) :
    ¬ crlf <:+: line := by
  induction input generalizing line rest with
  | nil => cases h
  | cons b input ih =>
    rw [splitLine] at h
    split_ifs at h with hb
    · cases h
      simp [crlf]
    · obtain ⟨⟨line', rest⟩, hsplit, heq⟩ := Option.map_eq_some_iff.mp h
      cases heq
      unfold crlf
      rw [pair_infix_cons]
      rintro (⟨rfl, hhead⟩ | hin)
      · have hinput := (splitLine_split input line' rest hsplit).1
        obtain ⟨c, line'', rfl⟩ := List.exists_cons_of_ne_nil (l :=
          line') (by rintro rfl; cases hhead)
        refine hb ⟨rfl, ?_⟩
        rw [hinput]
        simpa using hhead
      · exact ih line' rest hsplit hin

theorem parseRespValue_error (limits : CodecLimits) (message : String) :
    parseRespValue limits (encodeError message) = parseError (utf8 message ++ crlf) := rfl

theorem inSync_error (message : String) : InSync (.error message) ↔
    ¬ HasLineEnd message.toList := by
  rw [← crlf_utf8]
  constructor
  · intro h
    let n := (sendResponse (.error message)).length
    obtain ⟨w, hdecode, -⟩ := h ⟨n, n, n⟩ le_rfl le_rfl le_rfl
    have hparse := RespCodec.parseRespValue_of_decoded _ _ _ _ hdecode
    rw [sendResponse, parseRespValue_error] at hparse
    obtain ⟨text, mid, hline, hret⟩ := (andThen_eq_done ..).mp hparse
    cases hret
    have hsplit := (readLine_eq_done ..).mp hline
    obtain ⟨hwhole, -⟩ := splitLine_split _ _ _ hsplit
    rw [List.append_nil, List.append_cancel_right_eq] at hwhole
    rw [hwhole]
    exact splitLine_first _ _ _ hsplit
  · intro h limits _ _ hsize
    refine ⟨.error message, ?_, by simp [RespValue.isError]⟩
    refine RespCodec.decodeRespValue_done limits _ [] _ hsize ?_
    have hline := readLine_line message [] h
    rw [List.append_nil] at hline
    exact (parseRespValue_error limits message).trans (andThen_done _ _ _ _ _ hline)

theorem length_le_encodedAll (vs : List ResponseValue) : vs.length ≤ (encodeValues vs).length := by
  induction vs with
  | nil => rfl
  | cons v vs ih =>
    have hpos : 1 ≤ (encodeValue v).length := by
      match v with
      | .simpleString _ | .bulkString (some _) | .bulkString none | .nil | .integer _ | .array _ =>
        simp [encodeValue, crlf]
    rw [encodeValues, List.length_append, List.length_cons]
    omega

mutual

/-- Limits that are not below the length of the encoding do not bind. -/
theorem fits_of_wide (limits : CodecLimits) (v : ResponseValue)
    (hv : v.fits ⟨2 ^ 31, 2 ^ 31, 0⟩ = true) (hbulk : (encodeValue v).length ≤ limits.maxBulkSize)
    (harray : (encodeValue v).length ≤ limits.maxArrayLength) :
    v.fits limits = true := by
  match v with
  | .simpleString s => exact hv
  | .bulkString none => rfl
  | .nil => rfl
  | .integer i => exact hv
  | .bulkString (some b) =>
    have hv := of_decide_eq_true hv
    simp only [encodeValue, List.length_cons, List.length_append] at hbulk
    exact decide_eq_true ⟨by omega, hv.2⟩
  | .array vs =>
    rw [ResponseValue.fits, Bool.and_eq_true] at hv ⊢
    have hcount := of_decide_eq_true hv.1
    have hlength := length_le_encodedAll vs
    simp only [encodeValue, List.length_cons, List.length_append] at hbulk harray
    exact ⟨decide_eq_true ⟨by omega, hcount.2⟩,
      fitsAll_of_wide limits vs hv.2 (by omega) (by omega)⟩

theorem fitsAll_of_wide (limits : CodecLimits) (vs : List ResponseValue)
    (hvs : ResponseValue.fitsAll ⟨2 ^ 31, 2 ^ 31, 0⟩ vs = true)
    (hbulk : (encodeValues vs).length ≤ limits.maxBulkSize)
    (harray : (encodeValues vs).length ≤ limits.maxArrayLength) :
    ResponseValue.fitsAll limits vs = true := by
  match vs with
  | [] => rfl
  | v :: vs =>
    rw [ResponseValue.fitsAll, Bool.and_eq_true] at hvs ⊢
    rw [encodeValues, List.length_append] at hbulk harray
    exact ⟨fits_of_wide limits v hvs.1 (by omega) (by omega),
      fitsAll_of_wide limits vs hvs.2 (by omega) (by omega)⟩

end

/-- A value that any limits let pass which its encoding does not reach. -/
def ResponseValue.Sized (v : ResponseValue) : Prop := v.fits ⟨2 ^ 31, 2 ^ 31, 0⟩ = true

theorem isError_decoded (v : ResponseValue) (w : RespValue) (h : v.decoded = some w) :
    w.isError = false := by
  match v with
  | .simpleString _ | .bulkString _ | .nil =>
    cases h
    rfl
  | .integer i =>
    obtain ⟨n, -, rfl⟩ := Option.map_eq_some_iff.mp h
    rfl
  | .array vs =>
    obtain ⟨ws, -, rfl⟩ := Option.map_eq_some_iff.mp h
    rfl

theorem inSync_ok (v : ResponseValue) (hv : v.Sized) : InSync (.ok v) := by
  intro limits hbulk harray hsize
  obtain ⟨w, hw, hparse⟩ :=
    parseRespValue_encodeValue limits v (fits_of_wide limits v hv hbulk harray) []
  rw [List.append_nil] at hparse
  refine ⟨w, RespCodec.decodeRespValue_done limits _ [] w hsize hparse, ?_⟩
  simp [isError_decoded v w hw]

end RustyPotato
