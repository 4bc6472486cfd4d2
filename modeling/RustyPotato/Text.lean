import RustyPotato.Lib.Decimal
import Mathlib.Data.Finmap
import Mathlib.Data.Nat.Digits.Defs

/-!
# Bytes, text and numbers of the standard library

A `String` of the source is valid UTF-8, as a Lean `String` is. A `Bytes` is any byte string.
-/

namespace RustyPotato

/-- `Bytes`, `Vec<u8>` and `&[u8]`. -/
abbrev Bytes := List UInt8

/-- `as_bytes`. -/
def utf8 (s : String) : Bytes := s.toUTF8.data.toList

/-- `str::from_utf8`. -/
def fromUtf8 (b : Bytes) : Option String := String.fromUTF8? ⟨b.toArray⟩

theorem fromUtf8_eq_some (b : Bytes) (s : String) : fromUtf8 b = some s ↔ utf8 s = b := by
  unfold fromUtf8 utf8 String.fromUTF8?
  split
  · simp only [Option.some.injEq, String.toUTF8]
    constructor
    · rintro rfl; rfl
    · rintro rfl; rfl
  · rename_i h
    simp only [reduceCtorEq, false_iff]
    rintro rfl
    exact h s.isValidUTF8

@[simp] theorem fromUtf8_utf8 (s : String) : fromUtf8 (utf8 s) = some s :=
  (fromUtf8_eq_some _ _).mpr rfl

theorem utf8_injective (s t : String) (h : utf8 s = utf8 t) : s = t := by
  have := fromUtf8_utf8 s
  rw [h, fromUtf8_utf8] at this
  exact (Option.some.inj this).symm

theorem utf8_ofList (cs : List Char) :
    utf8 (String.ofList cs) = cs.flatMap String.utf8EncodeChar := by
  simp [utf8, String.toUTF8, String.toByteArray_ofList, List.utf8Encode]

theorem utf8_append (s t : String) : utf8 (s ++ t) = utf8 s ++ utf8 t := by
  rw [← String.ofList_toList (s := s), ← String.ofList_toList (s := t), ← String.ofList_append,
    utf8_ofList, utf8_ofList, utf8_ofList, List.flatMap_append]

/-! ## ASCII -/

/-- The byte of an ASCII character. -/
def ch (c : Char) : UInt8 := UInt8.ofNat c.toNat

theorem utf8EncodeChar_ascii (c : Char) (h : c.toNat < 128) : String.utf8EncodeChar c = [ch c] := by
  have : c.val.toNat ≤ 127 := by have : c.val.toNat = c.toNat := rfl; omega
  simp only [String.utf8EncodeChar, if_pos this]
  rfl

theorem utf8_of_ascii (s : String) (h : ∀ c ∈ s.toList, c.toNat < 128) :
    utf8 s = s.toList.map ch := by
  rw [← String.ofList_toList (s := s), utf8_ofList, String.toList_ofList]
  have : ∀ cs : List Char, (∀ c ∈ cs, c.toNat < 128) →
      cs.flatMap String.utf8EncodeChar = cs.map ch := by
    intro cs hcs
    induction cs with
    | nil => rfl
    | cons c cs ih =>
      rw [List.flatMap_cons, List.map_cons, utf8EncodeChar_ascii c (hcs c List.mem_cons_self),
        ih fun d hd => hcs d (List.mem_cons_of_mem _ hd)]
      rfl
  exact this _ h

/-- `to_ascii_uppercase`. -/
def toAsciiUppercase (s : String) : String := String.ofList (s.toList.map Char.toUpper)

/-- `to_ascii_lowercase`. -/
def toAsciiLowercase (s : String) : String := String.ofList (s.toList.map Char.toLower)

/-- `u8::to_ascii_lowercase`. -/
def byteToLower (b : UInt8) : UInt8 := if 65 ≤ b ∧ b ≤ 90 then b + 32 else b

/-- `eq_ignore_ascii_case` on byte slices. -/
def eqIgnoreAsciiCase (a b : Bytes) : Bool := a.map byteToLower == b.map byteToLower

/--
The upper case mapping of Unicode, one character at a time as `str::to_uppercase` applies it. Only
the ASCII part is fixed: the rest is a table of the standard library.
-/
structure CaseMap where
  upper : Char → List Char
  ascii : ∀ c : Char, c.toNat < 128 → upper c = [c.toUpper]

/-- `str::to_uppercase`. -/
def CaseMap.toUppercase (u : CaseMap) (s : String) : String :=
  String.ofList (s.toList.flatMap u.upper)

/-- The mapping that leaves everything outside ASCII alone. -/
def asciiCaseMap : CaseMap := ⟨fun c => [c.toUpper], fun _ _ => rfl⟩

theorem CaseMap.toUppercase_ascii (u : CaseMap) (s : String) (h : ∀ c ∈ s.toList, c.toNat < 128) :
    u.toUppercase s = toAsciiUppercase s := by
  unfold CaseMap.toUppercase toAsciiUppercase
  congr 1
  generalize s.toList = cs at h
  induction cs with
  | nil => rfl
  | cons c cs ih =>
    rw [List.flatMap_cons, u.ascii c (h c List.mem_cons_self),
      ih fun d hd => h d (List.mem_cons_of_mem _ hd)]
    rfl

theorem toUppercase_eq (u : CaseMap) (name : String)
    (h : (name.toList.all fun ch => decide (ch.toNat < 128)) = true)
    (hup : toAsciiUppercase name = name) : u.toUppercase name = name := by
  have hascii : ∀ ch ∈ name.toList, ch.toNat < 128 :=
    fun ch hch => of_decide_eq_true (List.all_eq_true.mp h ch hch)
  rw [u.toUppercase_ascii name hascii, hup]

/-! ## `from_utf8_lossy` -/

/-- A continuation byte. -/
def isCont (b : UInt8) : Bool := 0x80 ≤ b && b ≤ 0xBF

/-- The second bytes that may follow a lead byte. -/
def secondOk (lead b : UInt8) : Bool :=
  if lead < 0xC2 then false
  else if lead ≤ 0xDF then isCont b
  else if lead = 0xE0 then 0xA0 ≤ b && b ≤ 0xBF
  else if lead = 0xED then 0x80 ≤ b && b ≤ 0x9F
  else if lead ≤ 0xEF then isCont b
  else if lead = 0xF0 then 0x90 ≤ b && b ≤ 0xBF
  else if lead ≤ 0xF3 then isCont b
  else if lead = 0xF4 then 0x80 ≤ b && b ≤ 0x8F
  else false

/-- The replacement character, for each maximal run of bytes that starts no character. -/
def replacement : Char := Char.ofNat 0xFFFD

/-- The bits that a continuation byte adds. -/
def addCont (n : Nat) (b : UInt8) : Nat := n * 64 + (b.toNat - 0x80)

/-- `String::from_utf8_lossy`, as characters. -/
def lossyChars : Bytes → List Char
  | [] => []
  | a :: rest =>
    if a < 0x80 then Char.ofNat a.toNat :: lossyChars rest
    else match rest with
      | b :: rest =>
        if !secondOk a b then replacement :: lossyChars (b :: rest)
        else if a < 0xE0 then Char.ofNat (addCont (a.toNat - 0xC0) b) :: lossyChars rest
        else match rest with
          | c :: rest =>
            if !isCont c then replacement :: lossyChars (c :: rest)
            else if a < 0xF0 then
              Char.ofNat (addCont (addCont (a.toNat - 0xE0) b) c) :: lossyChars rest
            else match rest with
              | d :: rest =>
                if !isCont d then replacement :: lossyChars (d :: rest)
                else Char.ofNat (addCont (addCont (addCont (a.toNat - 0xF0) b) c) d) ::
                  lossyChars rest
              | [] => [replacement]
          | [] => [replacement]
      | [] => [replacement]

/-- `String::from_utf8_lossy`. -/
def fromUtf8Lossy (b : Bytes) : String := String.ofList (lossyChars b)

example : fromUtf8Lossy [0x41, 0xE2, 0x82, 0x42, 0xFF] = "A�B�" := by decide

theorem isCont_iff (b : UInt8) : isCont b = true ↔ 128 ≤ b.toNat ∧ b.toNat ≤ 191 := by
  simp [isCont, UInt8.le_iff_toNat_le]

theorem secondOk_iff (lead b : UInt8) :
    secondOk lead b = true ↔ 194 ≤ lead.toNat ∧ lead.toNat ≤ 244 ∧ 128 ≤ b.toNat ∧ b.toNat ≤ 191 ∧
      (lead.toNat = 224 → 160 ≤ b.toNat) ∧ (lead.toNat = 237 → b.toNat ≤ 159) ∧
        (lead.toNat = 240 → 144 ≤ b.toNat) ∧
      (lead.toNat = 244 → b.toNat ≤ 143) := by
  simp only [secondOk, isCont, UInt8.lt_iff_toNat_lt, UInt8.le_iff_toNat_le, ← UInt8.toNat_inj,
    UInt8.reduceToNat]
  generalize lead.toNat = n
  generalize b.toNat = m
  grind

section
variable (a b c d : UInt8) (rest : Bytes)

theorem lossyChars_one (ha : a.toNat < 128) :
    lossyChars (a :: rest) = Char.ofNat a.toNat :: lossyChars rest := by
  have hlow : a < 0x80 := UInt8.lt_iff_toNat_lt.mpr ha
  rw [lossyChars.eq_def]
  simp only [if_pos hlow]

theorem not_lt_of_secondOk (h : secondOk a b = true) : ¬ a < 0x80 := by
  have hlow := ((secondOk_iff a b).mp h).1
  intro hlt
  have hlt : a.toNat < 128 := UInt8.lt_iff_toNat_lt.mp hlt
  omega

theorem lossyChars_two (h : secondOk a b = true) (ha : a.toNat < 224) :
    lossyChars (a :: b :: rest) = Char.ofNat (addCont (a.toNat - 0xC0) b) :: lossyChars rest := by
  have htwo : a < 0xE0 := UInt8.lt_iff_toNat_lt.mpr ha
  rw [lossyChars.eq_def]
  simp only [if_neg (not_lt_of_secondOk a b h), h, Bool.not_true, Bool.false_eq_true, if_false,
    if_pos htwo]

theorem lossyChars_three (h : secondOk a b = true) (hc : isCont c = true) (ha : 224 ≤ a.toNat)
    (ha' : a.toNat < 240) :
    lossyChars (a :: b :: c :: rest) =
      Char.ofNat (addCont (addCont (a.toNat - 0xE0) b) c) :: lossyChars rest := by
  have htwo : ¬ a < 0xE0 := fun hlt => absurd (UInt8.lt_iff_toNat_lt.mp hlt) (Nat.not_lt.mpr ha)
  have hthree : a < 0xF0 := UInt8.lt_iff_toNat_lt.mpr ha'
  rw [lossyChars.eq_def]
  simp only [if_neg (not_lt_of_secondOk a b h), h, hc, Bool.not_true, Bool.false_eq_true, if_false,
    if_neg htwo, if_pos hthree]

theorem lossyChars_four (h : secondOk a b = true) (hc : isCont c = true) (hd : isCont d = true)
    (ha : 240 ≤ a.toNat) :
    lossyChars (a :: b :: c :: d :: rest) =
      Char.ofNat (addCont (addCont (addCont (a.toNat - 0xF0) b) c) d) :: lossyChars rest := by
  have htwo : ¬ a < 0xE0 :=
    fun hlt => absurd (UInt8.lt_iff_toNat_lt.mp hlt) (Nat.not_lt.mpr (le_trans (by decide) ha))
  have hthree : ¬ a < 0xF0 := fun hlt => absurd (UInt8.lt_iff_toNat_lt.mp hlt) (Nat.not_lt.mpr ha)
  rw [lossyChars.eq_def]
  simp only [if_neg (not_lt_of_secondOk a b h), h, hc, hd, Bool.not_true, Bool.false_eq_true,
    if_false, if_neg htwo, if_neg hthree]

end

theorem exists_byte (n : Nat) (h : n < 256) : ∃ b : UInt8, b = UInt8.ofNat n ∧ b.toNat = n :=
  ⟨_, rfl, UInt8.toNat_ofNat_of_lt' h⟩

/-- A character that was encoded is read back, whatever follows. -/
theorem lossyChars_encode (c : Char) (rest : Bytes) :
    lossyChars (String.utf8EncodeChar c ++ rest) = c :: lossyChars rest := by
  have hvalid : c.toNat < 55296 ∨ 57343 < c.toNat ∧ c.toNat < 1114112 := c.valid
  have hval : c.val.toNat = c.toNat := rfl
  -- What the bits of the bytes add up to, from one byte to four.
  suffices h : ∃ n, lossyChars (String.utf8EncodeChar c ++ rest) = Char.ofNat n :: lossyChars rest ∧
      n = c.toNat by
    obtain ⟨n, hn, rfl⟩ := h
    rw [hn, Char.ofNat_toNat]
  unfold String.utf8EncodeChar
  simp only [hval]
  generalize c.toNat = n at hvalid
  obtain ⟨last, hlast⟩ := exists_byte (n % 64 + 128) (by omega)
  obtain ⟨third, hthird⟩ := exists_byte (n / 64 % 64 + 128) (by omega)
  rw [← hlast.1, ← hthird.1]
  split_ifs with h1 h2 h3
  · obtain ⟨a, rfl, ha⟩ := exists_byte n (by omega)
    exact ⟨_, lossyChars_one _ rest (by omega), ha⟩
  · obtain ⟨a, hlead, ha⟩ := exists_byte (n / 64 % 32 + 192) (by omega)
    rw [← hlead]
    refine ⟨_, lossyChars_two a last rest ((secondOk_iff _ _).mpr ?_) ?_, ?_⟩
    · omega
    · omega
    · unfold addCont
      omega
  · obtain ⟨a, hlead, ha⟩ := exists_byte (n / 4096 % 16 + 224) (by omega)
    rw [← hlead]
    refine ⟨_, lossyChars_three a third last rest ((secondOk_iff _ _).mpr ?_)
      ((isCont_iff _).mpr ?_) ?_ ?_, ?_⟩
    · omega
    · omega
    · omega
    · omega
    · unfold addCont
      omega
  · obtain ⟨a, hlead, ha⟩ := exists_byte (n / 262144 % 8 + 240) (by omega)
    obtain ⟨b, hsecond, hb⟩ := exists_byte (n / 4096 % 64 + 128) (by omega)
    rw [← hlead, ← hsecond]
    refine ⟨_, lossyChars_four a b third last rest ((secondOk_iff _ _).mpr ?_)
      ((isCont_iff _).mpr ?_) ((isCont_iff _).mpr ?_) ?_, ?_⟩
    · omega
    · omega
    · omega
    · omega
    · unfold addCont
      omega

theorem fromUtf8Lossy_utf8 (s : String) : fromUtf8Lossy (utf8 s) = s := by
  have hchars : ∀ cs : List Char, lossyChars (cs.flatMap String.utf8EncodeChar) = cs := by
    intro cs
    induction cs with
    | nil => rw [List.flatMap_nil, lossyChars]
    | cons c cs ih => rw [List.flatMap_cons, lossyChars_encode, ih]
  have hs : utf8 s = s.toList.flatMap String.utf8EncodeChar := by
    rw [← utf8_ofList, String.ofList_toList]
  rw [fromUtf8Lossy, hs, hchars, String.ofList_toList]

/-! ## Numbers -/

/-- `i64`. -/
structure I64 where
  val : Int
  inRange : -(2 ^ 63 : Int) ≤ val ∧ val < 2 ^ 63
deriving DecidableEq

/-- A value as an `i64`, when it is one. -/
def I64.ofInt? (i : Int) : Option I64 :=
  if h : -(2 ^ 63 : Int) ≤ i ∧ i < 2 ^ 63 then some ⟨i, h⟩ else none

/-- `i64::checked_add`. -/
def I64.checkedAdd (a b : I64) : Option I64 := I64.ofInt? (a.val + b.val)

theorem I64.ofInt?_val (a : I64) : I64.ofInt? a.val = some a := by
  rw [I64.ofInt?, dif_pos a.inRange]

open Lib.Decimal in
/-- `str::parse::<u64>`. -/
def parseU64 (s : String) : Option Nat := below (2 ^ 64) (unsigned s.toList)

open Lib.Decimal in
/-- `str::parse::<i64>`. -/
def parseI64 (s : String) : Option I64 := (within 63 (signed s.toList)).bind I64.ofInt?

open Lib.Decimal in
/-- `str::parse::<i32>`. -/
def parseI32 (s : String) : Option Int := within 31 (signed s.toList)

theorem parseU64_toString (n : Nat) (h : n < 2 ^ 64) : parseU64 (toString n) = some n := by
  rw [parseU64, Lib.Decimal.unsigned_toString, Lib.Decimal.below_some _ _ h]

theorem parseU64_lt (s : String) (n : Nat) (h : parseU64 s = some n) : n < 2 ^ 64 :=
  Lib.Decimal.below_eq_some _ _ _ h

theorem parseI64_toString (i : I64) : parseI64 (toString i.val) = some i := by
  rw [parseI64, Lib.Decimal.signed_toString, Lib.Decimal.within_some _ _ i.inRange]
  exact I64.ofInt?_val i

theorem parseI32_toString (n : Nat) (h : n < 2 ^ 31) : parseI32 (toString n) = some (n : Int) := by
  have hs : Lib.Decimal.signed (toString n).toList = some (n : Int) := Lib.Decimal.signed_toString n
  rw [parseI32, hs, Lib.Decimal.within_some]
  constructor
  · have : (0 : Int) < 2 ^ 31 := by norm_num
    omega
  · exact_mod_cast h

theorem isDigit_toNat (c : Char) (h : c.isDigit = true) : 48 ≤ c.toNat ∧ c.toNat ≤ 57 := by
  simp only [Char.isDigit, Bool.and_eq_true, decide_eq_true_eq] at h
  exact ⟨h.1, h.2⟩

theorem ch_isDigit (c : Char) (h : c.isDigit = true) : 48 ≤ ch c ∧ ch c ≤ 57 := by
  obtain ⟨hlow, hhigh⟩ := isDigit_toNat c h
  have hc : (ch c).toNat = c.toNat := by simp [ch]; omega
  rw [UInt8.le_iff_toNat_le, UInt8.le_iff_toNat_le, hc]
  exact ⟨hlow, hhigh⟩

theorem ascii_toString (i : Int) : ∀ c ∈ (toString i).toList, c.toNat < 128 := by
  intro c hc
  rcases Lib.Decimal.mem_toString i c hc with rfl | h
  · decide
  · have := isDigit_toNat c h
    omega

/-- A printed integer is ASCII and holds no line break. -/
theorem utf8_toString_bytes (i : Int) : ∀ b ∈ utf8 (toString i), b = 45 ∨ (48 ≤ b ∧ b ≤ 57) := by
  intro b hb
  rw [utf8_of_ascii _ (ascii_toString i), List.mem_map] at hb
  obtain ⟨c, hc, rfl⟩ := hb
  rcases Lib.Decimal.mem_toString i c hc with rfl | h
  · exact Or.inl (by decide)
  · exact Or.inr (ch_isDigit c h)

theorem length_utf8_le (s : String) : (utf8 s).length ≤ 4 * s.toList.length := by
  rw [← String.ofList_toList (s := s), utf8_ofList, String.toList_ofList]
  induction s.toList with
  | nil => simp
  | cons c cs ih =>
    have := Char.utf8Size_le_four c
    rw [List.flatMap_cons, List.length_append, String.length_utf8EncodeChar, List.length_cons]
    omega

theorem length_digits (n : Nat) (h : n < 10 ^ 20) : (Nat.toDigits 10 n).length ≤ 20 :=
  Nat.toDigits_length 10 n 20 (by decide) h

theorem length_toString (i : I64) : (utf8 (toString i.val)).length ≤ 84 := by
  obtain ⟨hlow, hhigh⟩ := i.inRange
  refine (length_utf8_le _).trans ?_
  generalize i.val = v at hlow hhigh
  cases v with
  | ofNat n =>
    rw [Int.ofNat_eq_natCast] at hhigh ⊢
    have := length_digits n (by omega)
    rw [Lib.Decimal.toList_toString_ofNat]
    omega
  | negSucc n =>
    have := length_digits (n + 1) (by omega)
    rw [Lib.Decimal.toList_toString_negSucc, List.length_cons]
    omega

end RustyPotato
