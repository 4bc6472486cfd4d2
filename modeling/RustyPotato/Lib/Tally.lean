import Mathlib.Data.List.Basic
import Mathlib.Tactic

/-!
# Counting by class

Each thing belongs to a class, given by its number, and every class has a label and a count. What is
counted one by one adds up to the number of things, as long as every class has a label.
-/

namespace Lib.Tally

variable {α β : Type*}

/-- One more in this class. -/
def bump (l : List (β × Nat)) (i : Nat) : List (β × Nat) := l.modify i fun p => (p.1, p.2 + 1)

theorem sum_bump (l : List (β × Nat)) (i : Nat) (h : i < l.length) :
    ((bump l i).map Prod.snd).sum = (l.map Prod.snd).sum + 1 := by
  unfold bump
  induction l generalizing i with
  | nil => exact absurd h (Nat.not_lt_zero i)
  | cons p l ih =>
    cases i with
    | zero =>
      rw [List.modify_zero_cons, List.map_cons, List.map_cons, List.sum_cons, List.sum_cons]
      omega
    | succ i =>
      rw [List.modify_succ_cons, List.map_cons, List.map_cons, List.sum_cons, List.sum_cons,
        ih i (Nat.lt_of_succ_lt_succ h), Nat.add_assoc]

variable (classOf : α → Nat) (labels : List β)

/-- How many there are in each class. -/
def tally (xs : List α) : List (β × Nat) :=
  labels.mapIdx fun i label => (label, xs.countP fun x => classOf x = i)

theorem length_tally (xs : List α) : (tally classOf labels xs).length = labels.length :=
  List.length_mapIdx

theorem tally_nil : tally classOf labels [] = labels.map fun label => (label, 0) := by
  unfold tally
  simp only [List.countP_nil]
  apply List.ext_getElem?
  intro i
  rw [List.getElem?_mapIdx, List.getElem?_map]

theorem map_fst_tally (xs : List α) : (tally classOf labels xs).map Prod.fst = labels := by
  apply List.ext_getElem?
  intro i
  unfold tally
  rw [List.getElem?_map, List.getElem?_mapIdx, Option.map_map]
  exact Option.map_id'

theorem tally_concat (xs : List α) (x : α) :
    tally classOf labels (xs ++ [x]) = bump (tally classOf labels xs) (classOf x) := by
  apply List.ext_getElem?
  intro i
  unfold bump tally
  rw [List.getElem?_modify, List.getElem?_mapIdx, List.getElem?_mapIdx]
  cases labels[i]? with
  | none => rfl
  | some label =>
    simp only [Option.map_some, List.countP_append, List.countP_singleton, decide_eq_true_eq,
      Option.map_eq_map]
    split_ifs <;> rfl

theorem count_le_length (xs : List α) (p : β × Nat) (h : p ∈ tally classOf labels xs) :
    p.2 ≤ xs.length := by
  unfold tally at h
  obtain ⟨i, hi, rfl⟩ := List.mem_mapIdx.mp h
  exact List.countP_le_length

theorem sum_tally (xs : List α) (h : ∀ x ∈ xs, classOf x < labels.length) :
    ((tally classOf labels xs).map Prod.snd).sum = xs.length := by
  induction xs using List.reverseRecOn with
  | nil =>
    rw [tally_nil, List.map_map]
    refine List.sum_eq_zero fun n hn => ?_
    obtain ⟨label, -, rfl⟩ := List.mem_map.mp hn
    rfl
  | append_singleton xs x ih =>
    have hx : classOf x < (tally classOf labels xs).length := by
      rw [length_tally]
      exact h x (List.mem_append_right _ (List.mem_singleton_self x))
    rw [tally_concat, sum_bump _ _ hx, ih fun y hy => h y (List.mem_append_left _ hy),
      List.length_append, List.length_singleton]

end Lib.Tally
