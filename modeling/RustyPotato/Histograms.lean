import RustyPotato.Lib.Tally
import RustyPotato.Metrics

/-!
# What a histogram says about its samples

The buckets count each sample once and the sum is exact. The average divides by the count of samples
as a `u32`, so that it is right up to `2 ^ 32` samples and panics there.
-/

namespace RustyPotato

open Lib

/-! ## Dividing a duration -/

theorem divDuration_eq (d rhs : Nat) (h : rhs ≠ 0) : divDuration d rhs = some (d / rhs) := by
  have hpos : 0 < rhs := Nat.pos_of_ne_zero h
  have hsecs := Nat.div_add_mod (d / nanosPerSec) rhs
  have hnanos := Nat.div_add_mod (d % nanosPerSec) rhs
  have hd := Nat.div_add_mod d nanosPerSec
  have hsplit : d = rhs * (d / nanosPerSec / rhs * nanosPerSec + d % nanosPerSec / rhs) +
      (d / nanosPerSec % rhs * nanosPerSec + d % nanosPerSec % rhs) := by
    calc d = nanosPerSec * (d / nanosPerSec) + d % nanosPerSec := hd.symm
      _ = nanosPerSec * (rhs * (d / nanosPerSec / rhs) + d / nanosPerSec % rhs) +
          (rhs * (d % nanosPerSec / rhs) + d % nanosPerSec % rhs) := by rw [hsecs, hnanos]
      _ = _ := by ring
  unfold divDuration
  simp only [if_neg h, Option.some_inj]
  conv_rhs => rw [hsplit, Nat.mul_add_div hpos]
  rw [Nat.add_assoc]

namespace Histogram

/-! ## One sample -/

/-- The first bound that is no smaller than the sample, or else the last one. -/
def bucketOf (limits : List Nat) (value : Nat) : Nat :=
  (limits.findIdx? fun limit => value ≤ limit).getD (limits.length - 1)

theorem bucketOf_lt (limits : List Nat) (h : limits ≠ []) (value : Nat) :
    bucketOf limits value < limits.length := by
  have hpos := List.length_pos_of_ne_nil h
  unfold bucketOf
  cases hfind : limits.findIdx? fun limit => decide (value ≤ limit) with
  | none =>
    rw [Option.getD_none]
    omega
  | some i => exact (List.findIdx?_eq_some_iff_getElem.mp hfind).1

theorem countFirst_eq (value : Nat) (buckets : List (Nat × Nat)) :
    countFirst value buckets = ((buckets.map Prod.fst).findIdx? fun limit => value ≤ limit).map
      fun i =>
      buckets.modify i fun b => (b.1, increment b.2) := by
  induction buckets with
  | nil => rfl
  | cons bucket buckets ih =>
    unfold countFirst
    rw [List.map_cons, List.findIdx?_cons, ih]
    by_cases hle : value ≤ bucket.1
    · simp [hle]
    · simp only [hle, if_false, decide_false, Bool.false_eq_true, Option.map_map]
      rfl

theorem countLast_eq (buckets : List (Nat × Nat)) :
    countLast buckets = buckets.modify (buckets.length - 1) fun b => (b.1, increment b.2) := by
  fun_induction countLast buckets with
  | case1 => rfl
  | case2 limit count => rfl
  | case3 bucket rest hrest ih =>
    have hpos : 0 < rest.length :=
      List.length_pos_of_ne_nil fun hnil => hrest bucket.1 bucket.2 rfl hnil
    obtain ⟨n, hn⟩ : ∃ n, rest.length = n + 1 := ⟨rest.length - 1, by omega⟩
    rw [ih, List.length_cons, hn, Nat.add_sub_cancel, Nat.add_sub_cancel, List.modify_succ_cons]

/-- A sample is counted in its bucket, unless the sum leaves the range of durations. -/
theorem record_eq (h : Histogram) (value : Nat) (hsum : h.totalSum + value < 2 ^ 64 * nanosPerSec) :
    h.record value = (some (), {
      buckets := h.buckets.modify (bucketOf (h.buckets.map Prod.fst) value)
        fun b => (b.1, increment b.2)
      totalCount := increment h.totalCount
      totalSum := h.totalSum + value }) := by
  have hbuckets : (countFirst value h.buckets).getD (countLast h.buckets) =
      h.buckets.modify (bucketOf (h.buckets.map Prod.fst) value) fun b => (b.1, increment b.2) := by
    unfold bucketOf
    rw [countFirst_eq, countLast_eq, List.length_map]
    cases (h.buckets.map Prod.fst).findIdx? fun limit => decide (value ≤ limit) with
    | none => rfl
    | some i => rfl
  unfold record addDurations
  simp only [if_pos hsum, hbuckets]

/-! ## All samples -/

/-- The samples are recorded one after the other, and a panic ends the run. -/
def step (value : Nat) (h : Histogram) : Option Histogram :=
  (h.record value).1.map fun _ => (h.record value).2

def limits : List Nat := new.buckets.map Prod.fst

/-- What a histogram should know about its samples. -/
structure Accounts (samples : List Nat) (h : Histogram) : Prop where
  count : h.totalCount = samples.length
  sum : h.totalSum = samples.sum
  buckets : h.buckets = Tally.tally (bucketOf limits) limits samples

/-- No count of the buckets wraps around before the number of the samples does. -/
theorem modify_increment (samples : List Nat) (hlength : samples.length + 1 < 2 ^ 64) (i : Nat) :
    (Tally.tally (bucketOf limits) limits samples).modify i (fun b => (b.1, increment b.2)) =
      Tally.bump (Tally.tally (bucketOf limits) limits samples) i := by
  apply List.ext_getElem?
  intro j
  unfold Tally.bump
  rw [List.getElem?_modify, List.getElem?_modify]
  cases hbucket : (Tally.tally (bucketOf limits) limits samples)[j]? with
  | none => rfl
  | some b =>
    have hle := Tally.count_le_length _ _ samples b (List.mem_of_getElem? hbucket)
    have hincrement : increment b.2 = b.2 + 1 := Nat.mod_eq_of_lt (by omega)
    show some (if i = j then (b.1, increment b.2) else b) =
        some (if i = j then (b.1, b.2 + 1) else b)
    rw [hincrement]

theorem Accounts.step (samples : List Nat) (h : Histogram) (haccounts : Accounts samples h)
    (value : Nat) (hlength : samples.length + 1 < 2 ^ 64)
    (hsum : samples.sum + value < 2 ^ 64 * nanosPerSec) :
    ∃ h', Histogram.step value h = some h' ∧ Accounts (samples ++ [value]) h' := by
  have hrecord := record_eq h value (by rw [haccounts.sum]; exact hsum)
  rw [haccounts.buckets, Tally.map_fst_tally, modify_increment samples hlength,
    ← Tally.tally_concat] at hrecord
  unfold Histogram.step
  rw [hrecord]
  refine ⟨_, rfl, ?_, ?_, rfl⟩
  · rw [haccounts.count, List.length_append, List.length_singleton]
    exact Nat.mod_eq_of_lt hlength
  · rw [haccounts.sum, List.sum_append, List.sum_singleton]

/--
As long as the number of samples and their sum can be represented, nothing panics and nothing is
lost.
-/
theorem run_accounts (samples : List Nat) (hlength : samples.length < 2 ^ 64)
    (hsum : samples.sum < 2 ^ 64 * nanosPerSec) :
    ∃ h, Machine.run Histogram.step samples .new = some h ∧ Accounts samples h := by
  induction samples using List.reverseRecOn with
  | nil => exact ⟨new, rfl, rfl, rfl, rfl⟩
  | append_singleton samples value ih =>
    rw [List.length_append, List.length_singleton] at hlength
    rw [List.sum_append, List.sum_singleton] at hsum
    obtain ⟨h, hrun, haccounts⟩ := ih (by omega) (by omega)
    obtain ⟨h', hstep, haccounts'⟩ := haccounts.step samples h value hlength hsum
    refine ⟨h', ?_, haccounts'⟩
    rw [Machine.run_append, hrun, Option.bind_some, Machine.run_cons_eq_some]
    exact ⟨h', hstep, rfl⟩

/-! ## The average -/

/-- The sum divided by the number of samples, in whole nanoseconds. -/
def mean (samples : List Nat) : Option Nat :=
  if samples = [] then none else some (samples.sum / samples.length)

theorem Accounts.average_eq (samples : List Nat) (h : Histogram) (haccounts : Accounts samples h) :
    h.average = if samples = [] then some none
      else if samples.length % 2 ^ 32 = 0 then none
      else some (some (samples.sum / (samples.length % 2 ^ 32))) := by
  unfold average
  rw [haccounts.count, haccounts.sum]
  simp only [List.length_eq_zero_iff]
  split_ifs with hnil hzero
  · rfl
  · rw [hzero]
    rfl
  · rw [divDuration_eq _ _ hzero]
    rfl

/--
Both quotients are zero, or they differ: the narrowed count is less than half of the whole one.
-/
theorem div_narrowed_iff (sum n : Nat) (hn : 2 ^ 32 ≤ n) (hne : n % 2 ^ 32 ≠ 0) :
    sum / (n % 2 ^ 32) = sum / n ↔ sum < n % 2 ^ 32 := by
  have hsplit : n = 2 ^ 32 * (n / 2 ^ 32) + n % 2 ^ 32 := (Nat.div_add_mod n (2 ^ 32)).symm
  have hlt : n % 2 ^ 32 < 2 ^ 32 := Nat.mod_lt _ (by decide)
  have hgap : n % 2 ^ 32 + 2 ^ 32 ≤ n := by omega
  generalize n % 2 ^ 32 = m at hne hlt hgap
  constructor
  · intro heq
    by_contra hge
    -- With `q` for the quotient, `q * n ≤ sum < q * m + m`, but `n` is greater than `2 * m`.
    have hpos : 1 ≤ sum / m := (Nat.one_le_div_iff (Nat.pos_of_ne_zero hne)).mpr (by omega)
    have hlow : sum / m * n ≤ sum := by
      rw [heq]
      exact Nat.div_mul_le_self sum n
    have hhigh := Nat.lt_div_mul_add (a := sum) (Nat.pos_of_ne_zero hne)
    generalize sum / m = q at hpos hlow hhigh
    have hmul : q * (m + 2 ^ 32) ≤ q * n := Nat.mul_le_mul_left q hgap
    have hlast : 1 * 2 ^ 32 ≤ q * 2 ^ 32 := Nat.mul_le_mul_right _ hpos
    rw [Nat.mul_add] at hmul
    omega
  · intro hsum
    rw [Nat.div_eq_of_lt hsum, Nat.div_eq_of_lt (by omega)]

theorem Accounts.average_iff (samples : List Nat) (h : Histogram) (haccounts : Accounts samples h) :
    h.average = some (mean samples) ↔
      samples.length < 2 ^ 32 ∨ samples.sum < samples.length % 2 ^ 32 := by
  rw [haccounts.average_eq]
  unfold mean
  split_ifs with hnil hzero
  · rw [hnil]
    exact iff_of_true rfl (.inl (by decide))
  · have hpos := List.length_pos_of_ne_nil hnil
    refine iff_of_false (fun hsome => by cases hsome) ?_
    rintro (hlt | hsum)
    · rw [Nat.mod_eq_of_lt hlt] at hzero
      omega
    · omega
  · rw [Option.some_inj, Option.some_inj]
    by_cases hlt : samples.length < 2 ^ 32
    · rw [Nat.mod_eq_of_lt hlt]
      exact iff_of_true rfl (.inl hlt)
    · rw [div_narrowed_iff _ _ (by omega) hzero, or_iff_right hlt]

/--
Every sample is counted once, in its bucket. The average is right for fewer than `2 ^ 32` samples.
For more of them it is right only where it is zero, with a sum below the narrowed count.
-/
theorem histogram_accounting_iff (samples : List Nat) (hlength : samples.length < 2 ^ 64)
    (hsum : samples.sum < 2 ^ 64 * nanosPerSec) :
    ∃ h, Machine.run Histogram.step samples .new = some h ∧
      (h.buckets.map Prod.snd).sum = samples.length ∧
      h.buckets = limits.mapIdx
        (fun i limit => (limit, samples.countP fun value => bucketOf limits value = i)) ∧
      (h.average = some (mean samples) ↔
        samples.length < 2 ^ 32 ∨ samples.sum < samples.length % 2 ^ 32) := by
  obtain ⟨h, hrun, haccounts⟩ := run_accounts samples hlength hsum
  refine ⟨h, hrun, ?_, haccounts.buckets, haccounts.average_iff⟩
  rw [haccounts.buckets]
  exact Tally.sum_tally _ _ samples fun value _ => bucketOf_lt limits (by decide) value

/-- Five microseconds and six seconds. -/
theorem two_samples_accounted : ∃ h, Machine.run Histogram.step [5000, 6000000000] .new = some h ∧
    (h.buckets.map Prod.snd).sum = 2 ∧ h.average = some (some 3000002500) := by
  obtain ⟨h, hrun, hcount, -, haverage⟩ := histogram_accounting_iff [5000, 6000000000] (by decide)
    (by decide)
  exact ⟨h, hrun, hcount, haverage.mpr (.inl (by decide))⟩

/-- The narrowed count of `2 ^ 32` samples is zero. -/
theorem average_panics : ∃ samples : List Nat, samples.length < 2 ^ 64 ∧
    samples.sum < 2 ^ 64 * nanosPerSec ∧
    ∃ h, Machine.run Histogram.step samples .new = some h ∧ h.average = none := by
  obtain ⟨samples, hlength, hsum⟩ : ∃ samples : List Nat, samples.length = 2 ^ 32 ∧
      samples.sum = 2 ^ 32 :=
    ⟨List.replicate (2 ^ 32) 1, List.length_replicate,
      by rw [List.sum_replicate, smul_eq_mul, Nat.mul_one]⟩
  have hlength' : samples.length < 2 ^ 64 := by omega
  have hsum' : samples.sum < 2 ^ 64 * nanosPerSec := by
    rw [hsum]
    decide
  obtain ⟨h, hrun, haccounts⟩ := run_accounts samples hlength' hsum'
  refine ⟨samples, hlength', hsum', h, hrun, ?_⟩
  rw [haccounts.average_eq, if_neg, if_pos]
  · rw [hlength, Nat.mod_self]
  · rintro rfl
    cases hlength

end Histogram

end RustyPotato
