import RustyPotato.Lib.Threads

/-!
# Threads and a lock

A thread that stands before some of its steps holds the lock, and some steps wait until no other
thread holds it. Then at most one thread does. A step may also break what the others rely on if the
thread is about to mend it; once all threads have returned, nothing is left to mend.
-/

namespace Lib.Threads

open Lib.Machine

variable {κ ε σ α β γ : Type}

/-! ## A step and the one after it -/

/-- Each step of the program is of this kind: what it does, and the label of what comes after it. -/
def Prog.EachStep (ok : κ → (ε → σ → σ) → (ε → σ → Option κ) → Prop) : Prog κ ε σ α → Prop
  | .ret _ => True
  | .step l effect next =>
    ok l effect (fun e s => (next e s).label?) ∧ ∀ e s, (next e s).EachStep ok

section EachStep

variable {ok : κ → (ε → σ → σ) → (ε → σ → Option κ) → Prop}

theorem Prog.eachStep_atomic (l : κ) (f : ε → σ → α × σ) (k : α → Prog κ ε σ β)
    (h : ok l (fun e s => (f e s).2) fun e s => (k (f e s).1).label?)
    (hk : ∀ e s, (k (f e s).1).EachStep ok) : (atomic l f >>= k).EachStep ok :=
  ⟨h, hk⟩

theorem Prog.bind_assoc {δ : Type} (p : Prog κ ε σ α) (f : α → Prog κ ε σ β)
    (g : β → Prog κ ε σ δ) : p >>= f >>= g = p >>= fun a => f a >>= g := by
  change (p.bind f).bind g = p.bind fun a => (f a).bind g
  induction p with
  | ret a => rfl
  | step l effect next ih => simp only [Prog.bind, ih]

theorem Prog.label?_map (p : Prog κ ε σ α) (f : α → β) :
    (p.bind fun a => .ret (f a)).label? = p.label? := by
  cases p <;> rfl

theorem Prog.EachStep.map (p : Prog κ ε σ α) (f : α → β) (h : p.EachStep ok) :
    (p >>= fun a => pure (f a)).EachStep ok := by
  change (p.bind fun a => .ret (f a)).EachStep ok
  induction p with
  | ret a => trivial
  | step l effect next ih =>
    refine ⟨?_, fun e s => ih e s (h.2 e s)⟩
    simp only [label?_map]
    exact h.1

theorem Prog.EachStep.imp {ok' : κ → (ε → σ → σ) → (ε → σ → Option κ) → Prop}
    (himp : ∀ l effect next, ok l effect next → ok' l effect next) (p : Prog κ ε σ α)
    (h : p.EachStep ok) : p.EachStep ok' := by
  induction p with
  | ret a => trivial
  | step l effect next ih => exact ⟨himp _ _ _ h.1, fun e s => ih e s (h.2 e s)⟩

/-- The assertions that a step keeps and the one that it leads to. -/
def Outlining (pre : κ → ε → σ → Prop) (free : κ → κ → Prop) (l : κ) (effect : ε → σ → σ)
    (next : ε → σ → Option κ) : Prop :=
  ∀ e s, pre l e s → (∀ l', free l l' → pre l' e s → pre l' e (effect e s)) ∧
    ∀ l', next e s = some l' → pre l' e (effect e s)

theorem Prog.EachStep.outlined (pre : κ → ε → σ → Prop) (free : κ → κ → Prop) (p : Prog κ ε σ α)
    (h : p.EachStep (Outlining pre free)) : p.Outlined pre free := by
  induction p with
  | ret a => trivial
  | step l effect next ih =>
    intro e s hpre
    obtain ⟨hkeeps, hnext⟩ := h.1 e s hpre
    exact ⟨hkeeps, hnext, ih e s (h.2 e s)⟩

end EachStep

namespace Pool

/-- The step before which a thread stands. -/
def stands (s : Pool κ ε σ) (i : Nat) : Option κ := s.threads[i]?.bind Prog.label?

theorem stands_set (s : Pool κ ε σ) (p q : Prog κ ε σ Unit) (i : Nat) (hi : s.threads[i]? = some q)
    (e : ε) (t : σ) (j : Nat) :
    stands ⟨t, e, s.threads.set i p⟩ j = if j = i then p.label? else s.stands j := by
  unfold stands
  split_ifs with hj
  · rw [hj, List.getElem?_set_self (List.getElem?_eq_some_iff.mp hi).1, Option.bind_some]
  · rw [List.getElem?_set_ne (Ne.symm hj)]

theorem stands_idle (n : Nat) (e : ε) (t : σ) (i : Nat) :
    (idle n e t : Pool κ ε σ).stands i = none := by
  unfold stands idle
  cases hi : (List.replicate n (Prog.ret () : Prog κ ε σ Unit))[i]? with
  | none => rfl
  | some p =>
    rw [List.eq_of_mem_replicate (List.mem_of_getElem? hi)]
    rfl

theorem mem_others (s : Pool κ ε σ) (i j : Nat) (e : ε) (l : κ) (hij : j ≠ i)
    (hj : s.stands j = some l) : l ∈ s.others (.step i e : Act ε γ) := by
  obtain ⟨p, hp, hl⟩ := Option.bind_eq_some_iff.mp hj
  exact List.mem_filterMap.mpr ⟨p, List.mem_eraseIdx_iff_getElem?.mpr ⟨j, hij, hp⟩, hl⟩

theorem stands_of_mem_others (s : Pool κ ε σ) (i : Nat) (e : ε) (l : κ)
    (h : l ∈ s.others (.step i e : Act ε γ)) : ∃ j, j ≠ i ∧ s.stands j = some l := by
  obtain ⟨p, hp, hl⟩ := List.mem_filterMap.mp h
  obtain ⟨j, hij, hj⟩ := List.mem_eraseIdx_iff_getElem?.mp hp
  exact ⟨j, hij, Option.bind_eq_some_iff.mpr ⟨p, hj, hl⟩⟩

theorem label?_step (s : Pool κ ε σ) (i : Nat) (e : ε) (l : κ) (h : s.stands i = some l) :
    s.label? (.step i e : Act ε γ) = some (l, e) := by
  unfold stands at h
  rw [label?, h, Option.map_some]

variable (body : γ → Prog κ ε σ Unit) (le : ε → ε → Bool)

/-- What an action can do, told by where the threads stand before and after. -/
theorem step_stands (a : Act ε γ) (s s' : Pool κ ε σ) (h : step body le a s = some s') :
    (∃ i c, a = .call i c ∧ s.stands i = none ∧ s'.shared = s.shared ∧
        ∀ j, s'.stands j = if j = i then (body c).label? else s.stands j) ∨
      ∃ i e l effect next, a = .step i e ∧ s.threads[i]? = some (.step l effect next) ∧
        s.stands i = some l ∧
        le s.time e = true ∧ s'.shared = effect e s.shared ∧
        ∀ j, s'.stands j = if j = i then (next e s.shared).label? else s.stands j := by
  obtain ⟨i, c, rfl, rfl⟩ | ⟨i, e, l, effect, next, rfl, hi, htime, rfl⟩ :=
    step_cases body le a s s' h
  · rw [step] at h
    split at h
    · rename_i hi
      refine .inl ⟨i, c, rfl, ?_, rfl, stands_set s _ _ i hi _ _⟩
      unfold stands
      rw [hi]
      rfl
    · cases h
  · refine .inr ⟨i, e, l, effect, next, rfl, hi, ?_, htime, rfl, stands_set s _ _ i hi _ _⟩
    unfold stands
    rw [hi]
    rfl

theorem eachStep_step (ok : κ → (ε → σ → σ) → (ε → σ → Option κ) → Prop)
    (hbody : ∀ c, (body c).EachStep ok) (a : Act ε γ) (s s' : Pool κ ε σ)
    (hs : ∀ p ∈ s.threads, p.EachStep ok) (hstep : step body le a s = some s') :
    ∀ p ∈ s'.threads, p.EachStep ok := by
  intro p hp
  obtain ⟨i, c, rfl, rfl⟩ | ⟨i, e, l, effect, next, rfl, hi, -, rfl⟩ :=
    step_cases body le a s s' hstep
  · rcases List.mem_or_eq_of_mem_set hp with hp | rfl
    · exact hs p hp
    · exact hbody c
  · rcases List.mem_or_eq_of_mem_set hp with hp | rfl
    · exact hs p hp
    · exact (hs _ (List.mem_of_getElem? hi)).2 e s.shared

end Pool

/-! ## The lock -/

section Lock

-- A thread before a step that is `held` holds the lock; a step that `waits` is taken when no other
-- does.
variable (held waits : κ → Bool) (body : γ → Prog κ ε σ Unit) (le : ε → ε → Bool)

def Pool.blocked (a : Act ε γ) (s : Pool κ ε σ) : Bool :=
  (s.label? a).any fun x => waits x.1 && (s.others a).any held

def Pool.lockStep (a : Act ε γ) (s : Pool κ ε σ) : Option (Pool κ ε σ) :=
  if s.blocked held waits a then none else Pool.step body le a s

/--
The lock is taken by a step that waits for it, and a thread that holds it keeps the others waiting.
-/
def Locking (l : κ) (next : ε → σ → Option κ) : Prop :=
  ∀ e s l', next e s = some l' → held l' = true → waits l = true

def Pool.Exclusive (s : Pool κ ε σ) : Prop :=
  ∀ i j l l', s.stands i = some l → s.stands j = some l' → held l = true → held l' = true → i = j

variable {held waits}

theorem Pool.lockStep_eq_some (a : Act ε γ) (s s' : Pool κ ε σ)
    (h : Pool.lockStep held waits body le a s = some s') :
    s.blocked held waits a = false ∧ Pool.step body le a s = some s' := by
  unfold lockStep at h
  split_ifs at h with hblocked
  exact ⟨eq_false_of_ne_true hblocked, h⟩

theorem Pool.not_held_of_waits (s : Pool κ ε σ) (i j : Nat) (e : ε) (l l' : κ)
    (hfree : s.blocked held waits (.step i e : Act ε γ) = false) (hi : s.stands i = some l)
    (hwaits : waits l = true) (hij : j ≠ i) (hj : s.stands j = some l') : held l' = false := by
  unfold blocked at hfree
  rw [label?_step s i e l hi, Option.any_some, hwaits, Bool.true_and, List.any_eq_false] at hfree
  exact eq_false_of_ne_true (hfree l' (mem_others s i j e l' hij hj))

theorem Pool.exclusive_idle (n : Nat) (e : ε) (t : σ) :
    (Pool.idle n e t : Pool κ ε σ).Exclusive held := by
  intro i j l l' hi
  rw [stands_idle] at hi
  cases hi

theorem Pool.Exclusive.step (hstart : ∀ c l, (body c).label? = some l → held l = false)
    (a : Act ε γ) (s s' : Pool κ ε σ) (hs : s.Exclusive held)
    (hlocking : ∀ p ∈ s.threads, p.EachStep fun l _ next => Locking held waits l next)
    (hstep : Pool.lockStep held waits body le a s = some s') : s'.Exclusive held := by
  obtain ⟨hfree, hstep⟩ := Pool.lockStep_eq_some body le a s s' hstep
  obtain ⟨i, c, rfl, -, -, hstands⟩ | ⟨i, e, l, effect, next, rfl, hthread, hi, -, -, hstands⟩ :=
    step_stands body le a s s' hstep
  · intro j k l l' hj hk hheld hheld'
    rw [hstands] at hj hk
    split_ifs at hj with hji
    · rw [hstart c l hj] at hheld
      cases hheld
    · split_ifs at hk with hki
      · rw [hstart c l' hk] at hheld'
        cases hheld'
      · exact hs j k l l' hj hk hheld hheld'
  · -- If the thread of the step holds the lock after it, the step has waited for it.
    have hother : ∀ j l₁ l₂, (next e s.shared).label? = some l₁ → held l₁ = true → j ≠ i →
        s.stands j = some l₂ → held l₂ = false := by
      intro j l₁ l₂ hl₁ hheld hij hj
      have hwaits := (hlocking _ (List.mem_of_getElem? hthread)).1 e s.shared l₁ hl₁ hheld
      exact not_held_of_waits s i j e l l₂ hfree hi hwaits hij hj
    intro j k l₁ l₂ hj hk hheld₁ hheld₂
    rw [hstands] at hj hk
    split_ifs at hj with hji
    · split_ifs at hk with hki
      · rw [hji, hki]
      · rw [hother k l₁ l₂ hj hheld₁ hki hk] at hheld₂
        cases hheld₂
    · split_ifs at hk with hki
      · rw [hother j l₂ l₁ hk hheld₂ hji hj] at hheld₁
        cases hheld₁
      · exact hs j k l₁ l₂ hj hk hheld₁ hheld₂

/--
While a thread takes a step that waits, or one under the lock, no other thread holds the lock.
-/
theorem Pool.Exclusive.others (a : Act ε γ) (s : Pool κ ε σ) (hs : s.Exclusive held)
    (hfree : s.blocked held waits a = false) (l : κ) (e : ε) (hl : s.label? a = some (l, e))
    (hlock : waits l = true ∨ held l = true) : ∀ l' ∈ s.others a, held l' = false := by
  cases a with
  | call i c => cases hl
  | step i e' =>
    obtain ⟨l₀, hi, heq⟩ := Option.map_eq_some_iff.mp hl
    cases heq
    intro l' hl'
    obtain ⟨j, hij, hj⟩ := stands_of_mem_others s i e l' hl'
    rcases hlock with hwaits | hheld
    · exact not_held_of_waits s i j e l l' hfree hi hwaits hij hj
    · refine eq_false_of_ne_true fun hheld' => hij ?_
      exact hs j i l' l hj hi hheld' hheld

end Lock

/-! ## Repairs -/

section Repairs

-- What is `good` may be broken by a step while the thread then stands before one that `mends` it.
variable (pre : κ → ε → σ → Prop) (good : σ → Prop) (mends : κ → Prop)

def Mending (l : κ) (effect : ε → σ → σ) (next : ε → σ → Option κ) : Prop :=
  ∀ e s, pre l e s → (∃ l', next e s = some l' ∧ mends l') ∨ (mends l ∨ good s → good (effect e s))

def Pool.Repaired (s : Pool κ ε σ) : Prop := good s.shared ∨ ∃ i l, s.stands i = some l ∧ mends l

variable {pre good mends} {free : κ → κ → Prop} (body : γ → Prog κ ε σ Unit) (le : ε → ε → Bool)

theorem Pool.Repaired.step (hle : ∀ l e e' s, le e e' = true → pre l e s → pre l e' s) (a : Act ε γ)
    (s s' : Pool κ ε σ) (hs : s.Repaired good mends) (houtlined : s.Outlined pre free)
    (hmending : ∀ p ∈ s.threads,
      p.EachStep fun l effect next => Mending pre good mends l effect next)
    (hstep : Pool.step body le a s = some s') : s'.Repaired good mends := by
  obtain ⟨i, c, rfl, hi, hshared, hstands⟩ |
      ⟨i, e, l, effect, next, rfl, hthread, hi, htime, hshared, hstands⟩ :=
    step_stands body le a s s' hstep
  · rcases hs with hgood | ⟨j, l, hj, hmends⟩
    · left
      rw [hshared]
      exact hgood
    · refine .inr ⟨j, l, ?_, hmends⟩
      rw [hstands, if_neg, hj]
      rintro rfl
      rw [hi] at hj
      cases hj
  · have hmem := List.mem_of_getElem? hthread
    have hpre := hle l _ e _ htime ((houtlined _ hmem).1 l rfl)
    rcases (hmending _ hmem).1 e s.shared hpre with ⟨l', hl', hmends⟩ | hgood
    · refine .inr ⟨i, l', ?_, hmends⟩
      rw [hstands, if_pos rfl]
      exact hl'
    · rcases hs with hs | ⟨j, l', hj, hmends⟩
      · left
        rw [hshared]
        exact hgood (.inr hs)
      · by_cases hij : j = i
        · -- The thread of the step is the one that mends.
          rw [hij, hi] at hj
          cases hj
          left
          rw [hshared]
          exact hgood (.inl hmends)
        · refine .inr ⟨j, l', ?_, hmends⟩
          rw [hstands, if_neg hij, hj]

theorem Pool.Repaired.of_done (s : Pool κ ε σ) (hs : s.Repaired good mends)
    (hdone : ∀ i, s.stands i = none) : good s.shared := by
  rcases hs with hgood | ⟨i, l, hi, -⟩
  · exact hgood
  · rw [hdone i] at hi
    cases hi

end Repairs

end Lib.Threads
