import Mathlib.Tactic

/-!
# Decimal numerals

Printing is `Nat.repr`, the canonical numeral. Reading takes an optional sign, leading zeros and a
range, so it accepts more than printing writes.
-/

namespace Lib.Decimal

/-- The number that a run of ASCII digits stands for. -/
def digitsValue (cs : List Char) : Option Nat :=
  if cs.all Char.isDigit then some (Nat.ofDigitChars 10 cs 0) else none

/-- A numeral without a sign, or with one `+`. A lone sign is no numeral. -/
def unsigned (cs : List Char) : Option Nat :=
  match cs with
  | [] => none
  | ['+'] => none
  | '+' :: ds => digitsValue ds
  | ds => digitsValue ds

/-- A numeral with an optional `+` or `-`. -/
def signed (cs : List Char) : Option Int :=
  match cs with
  | ['-'] => none
  | '-' :: ds => (digitsValue ds).map fun n : Nat => -(n : Int)
  | ds => (unsigned ds).map fun n : Nat => (n : Int)

/-- A value that has to stay below `bound`. -/
def below (bound : Nat) (v : Option Nat) : Option Nat := v.filter fun n => n < bound

/-- A value that has to fit two's complement with `bits` bits below the sign. -/
def within (bits : Nat) (v : Option Int) : Option Int :=
  v.filter fun i => -(2 ^ bits : Int) ≤ i ∧ i < 2 ^ bits

/-! ## Digits -/

theorem digitsValue_toDigits (n : Nat) : digitsValue (Nat.toDigits 10 n) = some n := by
  unfold digitsValue
  rw [if_pos, Nat.ofDigitChars_ten_toDigits]
  rw [List.all_eq_true]
  intro c hc
  exact Nat.isDigit_of_mem_toDigits (by omega) (by omega) hc

theorem toDigits_head (n : Nat) : ∃ c cs, Nat.toDigits 10 n = c :: cs ∧ c.isDigit = true := by
  cases h : Nat.toDigits 10 n with
  | nil => exact absurd h Nat.toDigits_ne_nil
  | cons c cs =>
    refine ⟨c, cs, rfl, Nat.isDigit_of_mem_toDigits (b := 10) (n := n) (by omega) (by omega) ?_⟩
    rw [h]
    exact List.mem_cons_self

theorem isDigit_ne_sign (c : Char) (h : c.isDigit = true) : c ≠ '+' ∧ c ≠ '-' := by
  constructor <;> rintro rfl <;> exact absurd h (by decide)

theorem unsigned_of_digit (c : Char) (cs : List Char) (h : c.isDigit = true) :
    unsigned (c :: cs) = digitsValue (c :: cs) := by
  obtain ⟨hp, -⟩ := isDigit_ne_sign c h
  unfold unsigned
  split <;> simp_all

theorem signed_of_digit (c : Char) (cs : List Char) (h : c.isDigit = true) :
    signed (c :: cs) = (digitsValue (c :: cs)).map fun n : Nat => (n : Int) := by
  obtain ⟨-, hm⟩ := isDigit_ne_sign c h
  rw [← unsigned_of_digit c cs h]
  unfold signed
  split <;> simp_all

/-! ## Reading what was printed -/

theorem unsigned_toDigits (n : Nat) : unsigned (Nat.toDigits 10 n) = some n := by
  obtain ⟨c, cs, heq, hc⟩ := toDigits_head n
  rw [heq, unsigned_of_digit c cs hc, ← heq, digitsValue_toDigits]

theorem signed_toDigits (n : Nat) : signed (Nat.toDigits 10 n) = some (n : Int) := by
  obtain ⟨c, cs, heq, hc⟩ := toDigits_head n
  rw [heq, signed_of_digit c cs hc, ← heq, digitsValue_toDigits]
  rfl

theorem signed_neg_toDigits (n : Nat) : signed ('-' :: Nat.toDigits 10 n) = some (-(n : Int)) := by
  obtain ⟨c, cs, heq, hc⟩ := toDigits_head n
  have hcons : signed ('-' :: Nat.toDigits 10 n) =
      (digitsValue (Nat.toDigits 10 n)).map fun n : Nat => -(n : Int) := by
    rw [heq]; rfl
  rw [hcons, digitsValue_toDigits]
  rfl

theorem toList_toString_nat (n : Nat) : (toString n).toList = Nat.toDigits 10 n := by
  rw [Nat.toString_eq_ofList_toDigits, String.toList_ofList]

theorem toString_nat_injective (a b : Nat) (h : toString a = toString b) : a = b := by
  have hdigits := congrArg String.toList h
  rw [toList_toString_nat, toList_toString_nat] at hdigits
  have hvalue := congrArg digitsValue hdigits
  rw [digitsValue_toDigits, digitsValue_toDigits] at hvalue
  exact Option.some.inj hvalue

theorem toList_toString_ofNat (n : Nat) : (toString (n : Int)).toList = Nat.toDigits 10 n :=
  toList_toString_nat n

theorem toList_toString_negSucc (n : Nat) :
    (toString (Int.negSucc n)).toList = '-' :: Nat.toDigits 10 (n + 1) := by
  have h : toString (Int.negSucc n) = "-" ++ Nat.repr (n + 1) := rfl
  rw [h, String.toList_append, Nat.toList_repr]
  rfl

theorem unsigned_toString (n : Nat) : unsigned (toString n).toList = some n := by
  rw [toList_toString_nat, unsigned_toDigits]

theorem signed_toString (i : Int) : signed (toString i).toList = some i := by
  cases i with
  | ofNat n => exact (congrArg signed (toList_toString_ofNat n)).trans (signed_toDigits n)
  | negSucc n =>
    rw [toList_toString_negSucc, signed_neg_toDigits]
    rfl

theorem below_some (bound n : Nat) (h : n < bound) : below bound (some n) = some n := by
  simp [below, Option.filter, h]

theorem below_eq_some (bound n : Nat) (v : Option Nat) (h : below bound v = some n) :
    n < bound := by
  rw [below, Option.filter_eq_some_iff] at h
  simpa using h.2

theorem within_some (bits : Nat) (i : Int) (h : -(2 ^ bits : Int) ≤ i ∧ i < 2 ^ bits) :
    within bits (some i) = some i := by
  simp [within, Option.filter, h]

theorem mem_toString (i : Int) (c : Char) (h : c ∈ (toString i).toList) :
    c = '-' ∨ c.isDigit = true := by
  cases i with
  | ofNat n =>
    have : c ∈ Nat.toDigits 10 n := by rw [← toList_toString_ofNat]; exact h
    exact Or.inr (Nat.isDigit_of_mem_toDigits (by omega) (by omega) this)
  | negSucc n =>
    rw [toList_toString_negSucc] at h
    rcases List.mem_cons.mp h with rfl | h
    · exact Or.inl rfl
    · exact Or.inr (Nat.isDigit_of_mem_toDigits (by omega) (by omega) h)

theorem mem_digitsValue (cs : List Char) (n : Nat) (h : digitsValue cs = some n) :
    ∀ c ∈ cs, c.isDigit = true := by
  unfold digitsValue at h
  split_ifs at h with hall
  exact List.all_eq_true.mp hall

theorem mem_signed (cs : List Char) (i : Int) (h : signed cs = some i) :
    ∀ c ∈ cs, c = '+' ∨ c = '-' ∨ c.isDigit = true := by
  have hunsigned : ∀ n : Nat, unsigned cs = some n → ∀ c ∈ cs, c = '+' ∨ c = '-' ∨
      c.isDigit = true := by
    intro n hn c hc
    unfold unsigned at hn
    split at hn
    · cases hn
    · cases hn
    · rcases List.mem_cons.mp hc with rfl | hc
      · exact .inl rfl
      · exact .inr (.inr (mem_digitsValue _ n hn c hc))
    · exact .inr (.inr (mem_digitsValue _ n hn c hc))
  unfold signed at h
  split at h
  · cases h
  · obtain ⟨n, hn, -⟩ := Option.map_eq_some_iff.mp h
    intro c hc
    rcases List.mem_cons.mp hc with rfl | hc
    · exact .inr (.inl rfl)
    · exact .inr (.inr (mem_digitsValue _ n hn c hc))
  · obtain ⟨n, hn, -⟩ := Option.map_eq_some_iff.mp h
    exact hunsigned n hn

end Lib.Decimal
