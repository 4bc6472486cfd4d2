import Mathlib.Tactic

/-!
# Runs of a machine

A machine takes actions, each of which is possible in some states only. What every action preserves,
where it is taken under its conditions, holds after any run.
-/

namespace Lib.Machine

variable {σ α : Type*} (step : α → σ → Option σ)

def run : List α → σ → Option σ
  | [], s => some s
  | a :: as, s => (step a s).bind (run as)

/-- Every action of the run is taken where the condition holds. -/
def Along (ok : α → σ → Prop) : List α → σ → Prop
  | [], _ => True
  | a :: as, s => ok a s ∧ ∀ s', step a s = some s' → Along ok as s'

@[simp] theorem run_nil (s : σ) : run step [] s = some s := rfl

theorem run_cons_eq_some (a : α) (as : List α) (s t : σ) :
    run step (a :: as) s = some t ↔ ∃ s', step a s = some s' ∧ run step as s' = some t :=
  Option.bind_eq_some_iff

theorem run_append (as bs : List α) (s : σ) :
    run step (as ++ bs) s = (run step as s).bind (run step bs) := by
  induction as generalizing s with
  | nil => rfl
  | cons a as ih =>
    rw [List.cons_append, run, run, Option.bind_assoc]
    exact congrArg _ (funext ih)

theorem invariant (ok : α → σ → Prop) (I : σ → Prop)
    (hstep : ∀ a s s', I s → ok a s → step a s = some s' → I s') (as : List α) (s t : σ)
    (hok : Along step ok as s) (hrun : run step as s = some t) (hs : I s) : I t := by
  induction as generalizing s with
  | nil =>
    cases hrun
    exact hs
  | cons a as ih =>
    obtain ⟨s', hs', hrest⟩ := (run_cons_eq_some ..).mp hrun
    exact ih s' (hok.2 s' hs') hrest (hstep a s s' hs hok.1 hs')

theorem run_induction (s : σ) (P : List α → σ → Prop) (hnil : P [] s)
    (hstep : ∀ as t a t', run step as s = some t → P as t → step a t = some t' → P (as ++ [a]) t')
    (as : List α) (t : σ) (hrun : run step as s = some t) : P as t := by
  induction as using List.reverseRecOn generalizing t with
  | nil =>
    cases hrun
    exact hnil
  | append_singleton as a ih =>
    rw [run_append] at hrun
    obtain ⟨m, hm, hlast⟩ := Option.bind_eq_some_iff.mp hrun
    obtain ⟨t', ht', hnil'⟩ := (run_cons_eq_some ..).mp hlast
    cases hnil'
    exact hstep as m a t hm (ih m hm) ht'

/-- Where every action under its condition is possible, the run gets through. -/
theorem exists_run (ok : α → σ → Prop) (I : List α → σ → Prop)
    (hstep : ∀ as a s, I as s → ok a s → ∃ s', step a s = some s' ∧ I (as ++ [a]) s')
    (before as : List α) (s : σ) (hok : Along step ok as s) (hs : I before s) :
    ∃ t, run step as s = some t ∧ I (before ++ as) t := by
  induction as generalizing before s with
  | nil => exact ⟨s, rfl, by simpa using hs⟩
  | cons a as ih =>
    obtain ⟨s', hs', hI⟩ := hstep before a s hs hok.1
    obtain ⟨t, hrun, ht⟩ := ih (before ++ [a]) s' (hok.2 s' hs') hI
    refine ⟨t, (run_cons_eq_some ..).mpr ⟨s', hs', hrun⟩, ?_⟩
    simpa using ht

theorem Along.and (ok ok' : α → σ → Prop) (as : List α) (s : σ) (h : Along step ok as s)
    (h' : Along step ok' as s) : Along step (fun a s => ok a s ∧ ok' a s) as s := by
  induction as generalizing s with
  | nil => trivial
  | cons a as ih => exact ⟨⟨h.1, h'.1⟩, fun s' hs' => ih s' (h.2 s' hs') (h'.2 s' hs')⟩

theorem Along.imp (ok ok' : α → σ → Prop) (himp : ∀ a s, ok a s → ok' a s) (as : List α) (s : σ)
    (h : Along step ok as s) : Along step ok' as s := by
  induction as generalizing s with
  | nil => trivial
  | cons a as ih => exact ⟨himp a s h.1, fun s' hs' => ih s' (h.2 s' hs')⟩

theorem Along.at_action (ok : α → σ → Prop) (as bs : List α) (a : α) (s t : σ)
    (h : Along step ok (as ++ a :: bs) s) (hrun : run step as s = some t) : ok a t := by
  induction as generalizing s with
  | nil =>
    cases hrun
    exact h.1
  | cons b as ih =>
    obtain ⟨s', hs', hrest⟩ := (run_cons_eq_some ..).mp hrun
    exact ih s' (h.2 s' hs') hrest

theorem along_of_mem (ok : α → σ → Prop) (as : List α) (h : ∀ a ∈ as, ∀ s, ok a s) (s : σ) :
    Along step ok as s := by
  induction as generalizing s with
  | nil => trivial
  | cons a as ih =>
    exact ⟨h a List.mem_cons_self s,
      fun s' _ => ih (fun b hb => h b (List.mem_cons_of_mem _ hb)) s'⟩

theorem Along.of_invariant (ok ok' : α → σ → Prop) (I : σ → Prop)
    (hstep : ∀ a s s', I s → ok a s → step a s = some s' → I s')
    (himp : ∀ a s, I s → ok a s → ok' a s) (as : List α) (s : σ) (h : Along step ok as s)
    (hs : I s) : Along step ok' as s := by
  induction as generalizing s with
  | nil => trivial
  | cons a as ih =>
    exact ⟨himp a s hs h.1, fun s' hs' => ih s' (h.2 s' hs') (hstep a s s' hs h.1 hs')⟩

theorem Along.left (ok : α → σ → Prop) (as bs : List α) (s : σ) (h : Along step ok (as ++ bs) s) :
    Along step ok as s := by
  induction as generalizing s with
  | nil => trivial
  | cons a as ih => exact ⟨h.1, fun s' hs' => ih s' (h.2 s' hs')⟩

/--
If an action against the condition leads out of the good states, then the condition is the one to
ask for.
-/
theorem good_iff_along (ok : α → σ → Prop) (I good : σ → Prop) (hgood : ∀ s, I s → good s)
    (hstep : ∀ a s s', I s → ok a s → step a s = some s' → I s')
    (hbad : ∀ a s, I s → ¬ ok a s → ∃ s', step a s = some s' ∧ ¬ good s') (as : List α) (s : σ)
    (hs : I s) : (∀ bs t, bs <+: as → run step bs s = some t → good t) ↔ Along step ok as s := by
  constructor
  · intro h
    induction as generalizing s with
    | nil => trivial
    | cons a as ih =>
      have hok : ok a s := by
        by_contra hnot
        obtain ⟨s', hs', hlost⟩ := hbad a s hs hnot
        refine hlost (h [a] s' ⟨as, rfl⟩ ?_)
        exact (run_cons_eq_some ..).mpr ⟨s', hs', rfl⟩
      refine ⟨hok, fun s' hs' => ih s' (hstep a s s' hs hok hs') fun bs t hbs hrun => ?_⟩
      exact h (a :: bs) t (List.cons_prefix_cons.mpr ⟨rfl, hbs⟩)
        ((run_cons_eq_some ..).mpr ⟨s', hs', hrun⟩)
  · rintro h bs t ⟨cs, rfl⟩ hrun
    exact hgood t (invariant step ok I hstep bs s t (h.left step ok bs cs s) hrun hs)

/-- Where every action lowers a measure, a run is no longer than that. -/
theorem length_add_le (ok : α → Prop) (I : σ → Prop) (μ : σ → Nat)
    (hstep : ∀ a s s', I s → ok a → step a s = some s' → I s' ∧ μ s' < μ s) (as : List α) (s t : σ)
    (hs : I s) (hok : ∀ a ∈ as, ok a) (hrun : run step as s = some t) :
    I t ∧ as.length + μ t ≤ μ s := by
  induction as generalizing s with
  | nil =>
    cases hrun
    exact ⟨hs, by simp⟩
  | cons a as ih =>
    obtain ⟨s', hs', hrest⟩ := (run_cons_eq_some ..).mp hrun
    obtain ⟨hI, hlt⟩ := hstep a s s' hs (hok a List.mem_cons_self) hs'
    obtain ⟨ht, hle⟩ := ih s' hI (fun b hb => hok b (List.mem_cons_of_mem _ hb)) hrest
    exact ⟨ht, by rw [List.length_cons]; omega⟩

/-- The condition checked along the one run there is. -/
def checkAlong (ok : α → σ → Bool) : List α → σ → Bool
  | [], _ => true
  | a :: as, s => ok a s && (step a s).all (checkAlong ok as)

theorem along_of_check (ok : α → σ → Bool) (as : List α) (s : σ)
    (h : checkAlong step ok as s = true) : Along step (fun a s => ok a s = true) as s := by
  induction as generalizing s with
  | nil => trivial
  | cons a as ih =>
    rw [checkAlong, Bool.and_eq_true] at h
    refine ⟨h.1, fun s' hs' => ih s' ?_⟩
    have := h.2
    rwa [hs', Option.all_some] at this

end Lib.Machine
