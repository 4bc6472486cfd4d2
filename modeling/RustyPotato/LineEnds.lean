import RustyPotato.Codec

/-!
# Line ends in texts

Where a text that is put together from parts holds a line end, one of its parts does: the quotes and
the words between them come in no line end. Neither upper or lower case nor a lossy reading makes
one or hides one.
-/

namespace RustyPotato

/-! ## A pair of neighbours in a list -/

section Pair

variable {α : Type} (a b : α)

theorem pair_infix_cons (c : α) (l : List α) : [a, b] <:+: c :: l ↔ (c = a ∧ l.head? = some b) ∨
    [a, b] <:+: l := by
  rw [List.infix_cons_iff, List.cons_prefix_cons]
  cases l with
  | nil => simp
  | cons d l => simp [List.cons_prefix_cons, eq_comm]

/-- An item that is neither of the two parts a list. -/
theorem pair_infix_sep (c : α) (ha : c ≠ a) (hb : c ≠ b) (xs ys : List α) :
    [a, b] <:+: xs ++ c :: ys ↔ [a, b] <:+: xs ∨ [a, b] <:+: ys := by
  induction xs with
  | nil => simp [pair_infix_cons, ha]
  | cons x xs ih =>
    rw [List.cons_append, pair_infix_cons, pair_infix_cons, ih, or_assoc]
    cases xs with
    | nil => simp [hb]
    | cons y xs => simp

/-- So does a list of such items, if there is one. -/
theorem pair_infix_between (sep : List α) (hsep : ∀ c ∈ sep, c ≠ a ∧ c ≠ b) (hne : sep ≠ [])
    (xs ys : List α) : [a, b] <:+: xs ++ sep ++ ys ↔ [a, b] <:+: xs ∨ [a, b] <:+: ys := by
  induction sep generalizing xs with
  | nil => exact absurd rfl hne
  | cons c sep ih =>
    obtain ⟨ha, hb⟩ := hsep c List.mem_cons_self
    rw [List.append_assoc, List.cons_append, pair_infix_sep a b c ha hb]
    cases sep with
    | nil => rfl
    | cons d sep =>
      have := ih (fun e he => hsep e (List.mem_cons_of_mem _ he)) (by simp) []
      rw [List.nil_append] at this
      rw [this]
      simp

theorem pair_infix_map (f : α → α) (ha : ∀ c, f c = a ↔ c = a) (hb : ∀ c, f c = b ↔ c = b)
    (l : List α) : [a, b] <:+: l.map f ↔ [a, b] <:+: l := by
  induction l with
  | nil => rfl
  | cons c l ih =>
    rw [List.map_cons, pair_infix_cons, pair_infix_cons, ih, ha]
    cases l <;> simp [hb]

end Pair

/-! ## Texts -/

/-- The two characters of a line end stand next to each other. -/
def HasLineEnd (cs : List Char) : Prop := ['\r', '\n'] <:+: cs

instance (cs : List Char) : Decidable (HasLineEnd cs) := inferInstanceAs (Decidable (_ <:+: cs))

theorem ofNat_high (n : Nat) (h : 128 ≤ n) (hlt : n < 256) : UInt8.ofNat n ≠ 13 ∧
    UInt8.ofNat n ≠ 10 := by
  have hn : (UInt8.ofNat n).toNat = n := by
    rw [UInt8.toNat_ofNat']
    exact Nat.mod_eq_of_lt hlt
  constructor <;> intro heq <;> rw [heq] at hn <;> simp at hn <;> omega

/-- The bytes of a character outside ASCII are no part of a line end. -/
theorem utf8EncodeChar_high (c : Char) (hc : 128 ≤ c.toNat) :
    String.utf8EncodeChar c ≠ [] ∧ ∀ b ∈ String.utf8EncodeChar c, b ≠ 13 ∧ b ≠ 10 := by
  have hv : ¬ c.val.toNat ≤ 127 := by
    have : c.val.toNat = c.toNat := rfl
    omega
  unfold String.utf8EncodeChar
  simp only [if_neg hv]
  split_ifs
  all_goals
    refine ⟨by simp, fun b hb => ?_⟩
    simp only [List.mem_cons, List.not_mem_nil, or_false] at hb
    rcases hb with rfl | rfl | rfl | rfl <;> exact ofNat_high _ (by omega) (by omega)

theorem ch_inj (c d : Char) (hc : c.toNat < 128) (hd : d.toNat < 128) : ch c = ch d ↔ c = d := by
  constructor
  · intro h
    have hn := congrArg UInt8.toNat h
    unfold ch at hn
    rw [UInt8.toNat_ofNat', UInt8.toNat_ofNat', Nat.mod_eq_of_lt (by omega),
      Nat.mod_eq_of_lt (by omega)] at hn
    exact Char.ext (UInt32.toNat_inj.mp hn)
  · rintro rfl
    rfl

/-- The line ends of a text are those of the bytes it is written as or read from. -/
structure SameLineEnds (cs : List Char) (b : Bytes) : Prop where
  iff : HasLineEnd cs ↔ crlf <:+: b
  head : cs.head? = some '\n' ↔ b.head? = some 10

namespace SameLineEnds

theorem nil : SameLineEnds [] [] := ⟨by simp [crlf, HasLineEnd], by simp⟩

theorem ascii (c : Char) (hc : c.toNat < 128) (cs : List Char) (b : Bytes) (h : SameLineEnds cs b) :
    SameLineEnds (c :: cs) (ch c :: b) := by
  have hr : ch c = 13 ↔ c = '\r' := ch_inj c '\r' hc (by decide)
  have hn : ch c = 10 ↔ c = '\n' := ch_inj c '\n' hc (by decide)
  obtain ⟨hiff, hhead⟩ := h
  unfold HasLineEnd crlf at hiff
  constructor
  · unfold HasLineEnd crlf
    rw [pair_infix_cons, pair_infix_cons, hr, hiff, hhead]
  · simp [hn]

theorem high (c : Char) (hc : c ≠ '\r' ∧ c ≠ '\n') (bs : Bytes) (hne : bs ≠ [])
    (hbs : ∀ b ∈ bs, b ≠ 13 ∧ b ≠ 10) (cs : List Char) (b : Bytes) (h : SameLineEnds cs b) :
    SameLineEnds (c :: cs) (bs ++ b) := by
  have hsep := pair_infix_between 13 10 bs hbs hne [] b
  rw [List.nil_append] at hsep
  obtain ⟨x, xs, rfl⟩ := List.exists_cons_of_ne_nil hne
  have hx := (hbs x List.mem_cons_self).2
  obtain ⟨hiff, -⟩ := h
  unfold HasLineEnd crlf at hiff
  constructor
  · unfold HasLineEnd crlf
    rw [hsep, pair_infix_cons, hiff]
    simp [hc.1]
  · simp [hc.2, hx]

theorem encoded (cs : List Char) : SameLineEnds cs (cs.flatMap String.utf8EncodeChar) := by
  induction cs with
  | nil => exact nil
  | cons c cs ih =>
    rw [List.flatMap_cons]
    by_cases hc : c.toNat < 128
    · rw [utf8EncodeChar_ascii c hc, List.singleton_append]
      exact ih.ascii c hc
    · obtain ⟨hne, hhigh⟩ := utf8EncodeChar_high c (by omega)
      refine ih.high c ⟨?_, ?_⟩ _ hne hhigh
      · rintro rfl
        exact hc (by decide)
      · rintro rfl
        exact hc (by decide)

theorem toNat_ofNat (n : Nat) : (Char.ofNat n).toNat = if n.isValidChar then n else 0 := by
  by_cases h : n.isValidChar
  · rw [Char.ofNat, dif_pos h, if_pos h]
    rfl
  · rw [Char.ofNat, dif_neg h, if_neg h]
    rfl

theorem ofNat_ne (n : Nat) (h : 128 ≤ n) : Char.ofNat n ≠ '\r' ∧ Char.ofNat n ≠ '\n' := by
  constructor <;> intro heq <;> have hn := congrArg Char.toNat heq <;> rw [toNat_ofNat] at hn <;>
    split_ifs at hn <;> simp at hn <;> omega

theorem ofNat_ascii (a : UInt8) (ha : a.toNat < 128) :
    (Char.ofNat a.toNat).toNat < 128 ∧ ch (Char.ofNat a.toNat) = a := by
  have hn : (Char.ofNat a.toNat).toNat = a.toNat := by
    rw [toNat_ofNat, if_pos (.inl (by omega))]
  refine ⟨by omega, ?_⟩
  rw [ch, hn, UInt8.ofNat_toNat]

theorem high_ne (b : UInt8) (h : 128 ≤ b.toNat) : b ≠ 13 ∧ b ≠ 10 := by
  constructor <;> rintro rfl <;> simp at h

theorem lead_ne (a : UInt8) (h : ¬ a < 0x80) : a ≠ 13 ∧ a ≠ 10 := by
  rw [UInt8.lt_iff_toNat_lt] at h
  exact high_ne a (by simpa using h)

theorem isCont_high (b : UInt8) (h : isCont b = true) : 128 ≤ b.toNat := ((isCont_iff b).mp h).1

theorem secondOk_high (a b : UInt8) (h : secondOk a b = true) :
    194 ≤ a.toNat ∧ 128 ≤ b.toNat ∧ (a.toNat = 224 → 160 ≤ b.toNat) ∧
      (a.toNat = 240 → 144 ≤ b.toNat) := by
  obtain ⟨hlead, -, hsecond, -, hthree, -, hfour, -⟩ := (secondOk_iff a b).mp h
  exact ⟨hlead, hsecond, hthree, hfour⟩

theorem lossy (b : Bytes) : SameLineEnds (lossyChars b) b := by
  have hrep : replacement ≠ '\r' ∧ replacement ≠ '\n' := by decide
  fun_induction lossyChars b with
  | case1 => exact nil
  | case2 a rest ha ih =>
    obtain ⟨hlt, hch⟩ := ofNat_ascii a (UInt8.lt_iff_toNat_lt.mp ha)
    have := ih.ascii _ hlt
    rwa [hch] at this
  | case3 a ha b rest hb ih => exact ih.high _ hrep [a] (by simp) (by simp [lead_ne a ha])
  | case4 a ha b rest hb hlt ih =>
    obtain ⟨hlead, hsecond, -⟩ := secondOk_high a b (by simpa using hb)
    refine ih.high _ (ofNat_ne _ ?_) [a, b] (by simp) (by simp [lead_ne a ha, high_ne b hsecond])
    unfold addCont
    omega
  | case5 a ha b hb hge c rest hc ih =>
    obtain ⟨-, hsecond, -⟩ := secondOk_high a b (by simpa using hb)
    exact ih.high _ hrep [a, b] (by simp) (by simp [lead_ne a ha, high_ne b hsecond])
  | case6 a ha b hb hge c rest hc hlt ih =>
    obtain ⟨-, hsecond, hthree, -⟩ := secondOk_high a b (by simpa using hb)
    have hthird := isCont_high c (by simpa using hc)
    rw [UInt8.lt_iff_toNat_lt] at hge
    refine ih.high _ (ofNat_ne _ ?_) [a, b, c] (by simp)
      (by simp [lead_ne a ha, high_ne b hsecond, high_ne c hthird])
    unfold addCont
    simp at hge
    omega
  | case7 a ha b hb hge c hc hge' d rest hd ih =>
    obtain ⟨-, hsecond, -⟩ := secondOk_high a b (by simpa using hb)
    have hthird := isCont_high c (by simpa using hc)
    exact ih.high _ hrep [a, b, c] (by simp)
      (by simp [lead_ne a ha, high_ne b hsecond, high_ne c hthird])
  | case8 a ha b hb hge c hc hge' d rest hd ih =>
    obtain ⟨-, hsecond, -, hfour⟩ := secondOk_high a b (by simpa using hb)
    have hthird := isCont_high c (by simpa using hc)
    have hfourth := isCont_high d (by simpa using hd)
    rw [UInt8.lt_iff_toNat_lt] at hge'
    refine ih.high _ (ofNat_ne _ ?_) [a, b, c, d] (by simp)
      (by simp [lead_ne a ha, high_ne b hsecond, high_ne c hthird, high_ne d hfourth])
    unfold addCont
    simp at hge'
    omega
  | case9 a ha b hb hge c hc hge' =>
    obtain ⟨-, hsecond, -⟩ := secondOk_high a b (by simpa using hb)
    have hthird := isCont_high c (by simpa using hc)
    exact nil.high _ hrep [a, b, c] (by simp)
      (by simp [lead_ne a ha, high_ne b hsecond, high_ne c hthird])
  | case10 a ha b hb hge =>
    obtain ⟨-, hsecond, -⟩ := secondOk_high a b (by simpa using hb)
    exact nil.high _ hrep [a, b] (by simp) (by simp [lead_ne a ha, high_ne b hsecond])
  | case11 a ha => exact nil.high _ hrep [a] (by simp) (by simp [lead_ne a ha])

end SameLineEnds

/-- A text is written with a line end in it exactly if it has one. -/
theorem crlf_utf8 (s : String) : crlf <:+: utf8 s ↔ HasLineEnd s.toList := by
  rw [← String.ofList_toList (s := s), utf8_ofList, String.toList_ofList]
  exact (SameLineEnds.encoded s.toList).iff.symm

/-- A lossy reading makes at most three bytes of one. -/
theorem length_lossy (b : Bytes) : (utf8 (fromUtf8Lossy b)).length ≤ 3 * b.length := by
  have hrep : (String.utf8EncodeChar replacement).length = 3 := by decide
  have hchar : ∀ c cs, ((c :: cs).flatMap String.utf8EncodeChar).length ≤
      4 + (cs.flatMap String.utf8EncodeChar).length := by
    intro c cs
    rw [List.flatMap_cons, List.length_append, String.length_utf8EncodeChar]
    exact Nat.add_le_add_right (Char.utf8Size_le_four c) _
  rw [fromUtf8Lossy, utf8_ofList]
  fun_induction lossyChars b with
  | case1 => simp
  | case2 a rest ha ih =>
    obtain ⟨hlt, -⟩ := SameLineEnds.ofNat_ascii a (UInt8.lt_iff_toNat_lt.mp ha)
    rw [List.flatMap_cons, List.length_append, utf8EncodeChar_ascii _ hlt]
    simp only [List.length_cons, List.length_nil]
    omega
  | case4 | case6 | case8 =>
    refine (hchar _ _).trans ?_
    simp only [List.length_cons]
    omega
  | case3 | case5 | case7 =>
    rw [List.flatMap_cons, List.length_append, hrep]
    simp only [List.length_cons] at *
    omega
  | case9 | case10 | case11 => simp [hrep]

/-! ## Upper and lower case -/

theorem letters_eq (c c' d : Char) (hc : 65 ≤ c.val.toNat) (hc' : 65 ≤ c'.val.toNat)
    (hd : d.val.toNat < 65) : c' = d ↔ c = d := by
  refine iff_of_false ?_ ?_
  · rintro rfl
    omega
  · rintro rfl
    omega

theorem toUpper_eq (c d : Char) (hd : d.toNat < 65) : c.toUpper = d ↔ c = d := by
  unfold Char.toUpper
  split
  · rename_i h
    have hlow : 97 ≤ c.val.toNat := UInt32.le_iff_toNat_le.mp h.1
    have hhigh : c.val.toNat ≤ 122 := UInt32.le_iff_toNat_le.mp h.2
    have hshift : (c.val + ('A'.val - 'a'.val)).toNat = (c.val.toNat +
      4294967264) % 4294967296 := UInt32.toNat_add ..
    refine letters_eq c _ d (by omega) ?_ hd
    rw [hshift]
    omega
  · rfl

theorem toLower_eq (c d : Char) (hd : d.toNat < 65) : c.toLower = d ↔ c = d := by
  unfold Char.toLower
  split
  · rename_i h
    have hlow : 65 ≤ c.val.toNat := UInt32.le_iff_toNat_le.mp h.1
    have hhigh : c.val.toNat ≤ 90 := UInt32.le_iff_toNat_le.mp h.2
    have hshift : (c.val + ('a'.val - 'A'.val)).toNat = (c.val.toNat +
      32) % 4294967296 := UInt32.toNat_add ..
    refine letters_eq c _ d hlow ?_ hd
    rw [hshift]
    omega
  · rfl

theorem hasLineEnd_uppercase (s : String) : HasLineEnd (toAsciiUppercase s).toList ↔
    HasLineEnd s.toList := by
  rw [toAsciiUppercase, String.toList_ofList]
  exact pair_infix_map _ _ _ (fun c => toUpper_eq c _ (by decide))
    (fun c => toUpper_eq c _ (by decide)) _

theorem hasLineEnd_lowercase (s : String) : HasLineEnd (toAsciiLowercase s).toList ↔
    HasLineEnd s.toList := by
  rw [toAsciiLowercase, String.toList_ofList]
  exact pair_infix_map _ _ _ (fun c => toLower_eq c _ (by decide))
    (fun c => toLower_eq c _ (by decide)) _

/-- A line end in a name is still there in upper case, so no name of a command has one. -/
theorem CaseMap.not_hasLineEnd (u : CaseMap) (s : String) (h : '\r' ∉ (u.toUppercase s).toList) :
    ¬ HasLineEnd s.toList := by
  intro hs
  refine h ?_
  rw [toUppercase, String.toList_ofList, List.mem_flatMap]
  refine ⟨'\r', hs.subset (by simp), ?_⟩
  rw [u.ascii '\r' (by decide)]
  simp

/-! ## Texts put together -/

/-- Some text without either character of a line end. -/
def plain (s : String) : Bool := !s.toList.isEmpty && s.toList.all fun c => c != '\r' && c != '\n'

section Parts

variable (sep : String) (hsep : plain sep = true) (s t : String)

include hsep

theorem plain_chars : sep.toList ≠ [] ∧ ∀ c ∈ sep.toList, c ≠ '\r' ∧ c ≠ '\n' := by
  simpa [plain] using hsep

theorem hasLineEnd_between : HasLineEnd (s ++ sep ++ t).toList ↔ HasLineEnd s.toList ∨
    HasLineEnd t.toList := by
  obtain ⟨hne, hchars⟩ := plain_chars sep hsep
  rw [String.toList_append, String.toList_append]
  exact pair_infix_between _ _ sep.toList hchars hne s.toList t.toList

theorem not_hasLineEnd_plain : ¬ HasLineEnd sep.toList := by
  intro h
  exact ((plain_chars sep hsep).2 '\r' (h.subset (by simp))).1 rfl

theorem hasLineEnd_after : HasLineEnd (sep ++ t).toList ↔ HasLineEnd t.toList := by
  have := hasLineEnd_between sep hsep "" t
  simpa [HasLineEnd] using this

theorem hasLineEnd_before : HasLineEnd (s ++ sep).toList ↔ HasLineEnd s.toList := by
  have := hasLineEnd_between sep hsep s ""
  simpa [HasLineEnd] using this

theorem hasLineEnd_intercalate (ts : List String) :
    HasLineEnd (sep.intercalate ts).toList ↔ ∃ t ∈ ts, HasLineEnd t.toList := by
  induction ts with
  | nil => simp [HasLineEnd]
  | cons t ts ih =>
    cases ts with
    | nil => simp
    | cons t' ts =>
      rw [String.intercalate_cons_cons, hasLineEnd_between sep hsep, ih]
      simp

end Parts

end RustyPotato
