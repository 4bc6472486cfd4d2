import Mathlib.Data.Finset.Card
import Mathlib.Data.List.Sort
import Mathlib.Tactic

/-!
# Keeping the newest

Of a set of things with a time each, at most `m` are kept. Sorted by time, what stands before the
last `m` goes: those that have `m` newer ones.
-/

namespace Lib.Retention

variable {α τ : Type*} [LinearOrder τ] (time : α → τ)

/-- The oldest, as many as there are more than `m`. -/
def oldest (m : Nat) (l : List α) : List α :=
  (l.insertionSort fun a b => time a ≤ time b).take (l.length - m)

/-- Those that have `m` newer ones. -/
def excess (m : Nat) (s : Finset α) : Finset α := {a ∈ s | m ≤ {b ∈ s | time a < time b}.card}

theorem mem_take_sorted (m : Nat) (l : List α) (h : l.Pairwise fun a b => time a < time b) (a : α) :
    a ∈ l.take (l.length - m) ↔ a ∈ l ∧ m ≤ l.countP fun b => time a < time b := by
  induction l with
  | nil => simp
  | cons x xs ih =>
    obtain ⟨hfirst, hrest⟩ := List.pairwise_cons.mp h
    -- The first is the oldest, so it is newer than none of the list.
    have hcount (ha : a ∈ x :: xs) : ((x :: xs).countP fun b => time a < time b) =
        xs.countP fun b => time a < time b := by
      refine List.countP_cons_of_neg ?_
      rcases List.mem_cons.mp ha with rfl | hmem
      · simp
      · simpa using (hfirst a hmem).le
    by_cases hm : m ≤ xs.length
    · rw [List.length_cons, Nat.succ_sub hm, List.take_succ_cons, List.mem_cons, ih hrest]
      constructor
      · rintro (rfl | ⟨hmem, hle⟩)
        · refine ⟨List.mem_cons_self, ?_⟩
          rw [hcount List.mem_cons_self,
            List.countP_eq_length.mpr fun b hb => decide_eq_true (hfirst b hb)]
          exact hm
        · exact ⟨List.mem_cons_of_mem _ hmem, by rwa [hcount (List.mem_cons_of_mem _ hmem)]⟩
      · rintro ⟨ha, hle⟩
        rw [hcount ha] at hle
        exact (List.mem_cons.mp ha).imp id fun hmem => ⟨hmem, hle⟩
    · have hzero : (x :: xs).length - m = 0 := by
        rw [List.length_cons]
        omega
      rw [hzero, List.take_zero]
      refine iff_of_false List.not_mem_nil ?_
      rintro ⟨ha, hle⟩
      rw [hcount ha] at hle
      exact hm (hle.trans List.countP_le_length)

variable [DecidableEq α]

theorem excess_sorted (m : Nat) (l : List α) (h : l.Pairwise fun a b => time a < time b) :
    excess time m l.toFinset = (l.take (l.length - m)).toFinset := by
  have hnodup : l.Nodup := h.imp fun hlt heq => hlt.ne (congrArg time heq)
  ext a
  have hcard : ({b ∈ l.toFinset | time a < time b}).card = l.countP fun b => time a < time b := by
    rw [List.countP_eq_length_filter, ← List.toFinset_card_of_nodup (hnodup.filter _),
      List.toFinset_filter]
    simp only [decide_eq_true_eq]
  rw [List.mem_toFinset, mem_take_sorted time m l h, excess, Finset.mem_filter, List.mem_toFinset,
    hcard]

/-- Sorting finds those that have `m` newer ones. -/
theorem toFinset_oldest (m : Nat) (l : List α) (h : l.Pairwise fun a b => time a ≠ time b) :
    (oldest time m l).toFinset = excess time m l.toFinset := by
  have hperm := List.perm_insertionSort (fun a b => time a ≤ time b) l
  have hsorted : (l.insertionSort fun a b => time a ≤ time b).Pairwise fun a b => time a < time b :=
    ((List.pairwise_insertionSort _ l).and (hperm.pairwise_iff (fun h => h.symm) |>.mpr h)).imp
      fun ⟨hle, hne⟩ => lt_of_le_of_ne hle hne
  rw [oldest, ← hperm.length_eq, ← excess_sorted time m _ hsorted,
    List.toFinset_eq_of_perm _ _ hperm]

theorem card_excess (m : Nat) (s : Finset α) (h : Set.InjOn time s) :
    (excess time m s).card = s.card - m := by
  have hdistinct : s.toList.Pairwise fun a b => time a ≠ time b := by
    refine s.nodup_toList.imp_of_mem fun ha hb hne heq => hne (h ?_ ?_ heq)
    · exact Finset.mem_toList.mp ha
    · exact Finset.mem_toList.mp hb
  have hnodup : (oldest time m s.toList).Nodup := by
    refine List.Nodup.sublist (List.take_sublist _ _) ?_
    exact (List.perm_insertionSort _ _).nodup_iff.mpr s.nodup_toList
  have hexcess := toFinset_oldest time m s.toList hdistinct
  rw [Finset.toList_toFinset] at hexcess
  rw [← hexcess, List.toFinset_card_of_nodup hnodup, oldest, List.length_take,
    List.length_insertionSort, Finset.length_toList, min_eq_left (Nat.sub_le ..)]

/-- Whether some of the set do not count makes a difference as soon as there are more than `m`. -/
theorem excess_filter_iff (m : Nat) (s : Finset α) (h : Set.InjOn time s) (p : α → Prop)
    [DecidablePred p] :
    excess time m s = excess time m (s.filter p) ↔ (∀ a ∈ s, p a) ∨ s.card ≤ m := by
  have hfilter : Set.InjOn time (s.filter p) :=
    h.mono (Finset.coe_subset.mpr (Finset.filter_subset p s))
  have hle := Finset.card_le_card (Finset.filter_subset p s)
  constructor
  · intro heq
    have hcard := congrArg Finset.card heq
    rw [card_excess time m s h, card_excess time m _ hfilter] at hcard
    by_cases hm : s.card ≤ m
    · exact .inr hm
    · exact .inl (Finset.card_filter_eq_iff.mp (by omega))
  · rintro (hall | hm)
    · rw [Finset.filter_true_of_mem hall]
    · have hnone (t : Finset α) (ht : Set.InjOn time t) (hm : t.card ≤ m) :
          excess time m t = ∅ := by
        rw [← Finset.card_eq_zero, card_excess time m t ht]
        omega
      rw [hnone s h hm, hnone _ hfilter (hle.trans hm)]

end Lib.Retention
