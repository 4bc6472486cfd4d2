import RustyPotato.Lib.Machine

/-!
# Threads on a shared state

A program is a tree of atomic steps, each with a label. Threads run their programs side by side, a
step of one after a step of another in any order. An assertion for every label holds wherever its
step is taken, if the programs establish the assertions of their own next steps and do not interfere
with those of the others.
-/

namespace Lib.Threads

open Lib.Machine

/-- A program that takes labelled steps on `σ`. A step sees the environment of its own instant. -/
inductive Prog (κ ε σ α : Type) where
  | ret (a : α)
  | step (label : κ) (effect : ε → σ → σ) (next : ε → σ → Prog κ ε σ α)

namespace Prog

variable {κ ε σ α β : Type}

def bind : Prog κ ε σ α → (α → Prog κ ε σ β) → Prog κ ε σ β
  | ret a, f => f a
  | step l effect next, f => step l effect fun e s => (next e s).bind f

instance : Monad (Prog κ ε σ) where
  pure := ret
  bind := bind

/-- One step with a result. -/
def atomic (label : κ) (f : ε → σ → α × σ) : Prog κ ε σ α :=
  step label (fun e s => (f e s).2) fun e s => ret (f e s).1

/-- The label of the step to be taken next. -/
def label? : Prog κ ε σ α → Option κ
  | ret _ => none
  | step l _ _ => some l

/-- The program without others, in one environment. -/
def alone (e : ε) : Prog κ ε σ α → σ → α × σ
  | ret a, s => (a, s)
  | step _ effect next, s => (next e s).alone e (effect e s)

@[simp] theorem alone_pure (e : ε) (a : α) (s : σ) : (pure a : Prog κ ε σ α).alone e s = (a, s) :=
  rfl

@[simp] theorem alone_atomic (e : ε) (l : κ) (f : ε → σ → α × σ) (s : σ) :
    (atomic l f).alone e s = f e s := rfl

@[simp] theorem alone_bind (e : ε) (p : Prog κ ε σ α) (f : α → Prog κ ε σ β) (s : σ) :
    (p >>= f).alone e s = (f (p.alone e s).1).alone e (p.alone e s).2 := by
  change (p.bind f).alone e s = _
  induction p generalizing s with
  | ret a => rfl
  | step l effect next ih => exact ih e s (effect e s)

/-- The same steps under other labels. -/
def relabel {κ' : Type} (f : κ → κ') : Prog κ ε σ α → Prog κ' ε σ α
  | ret a => ret a
  | step l effect next => step (f l) effect fun e s => (next e s).relabel f

theorem relabel_bind {κ' : Type} (f : κ → κ') (p : Prog κ ε σ α) (g : α → Prog κ ε σ β) :
    (p >>= g).relabel f = p.relabel f >>= fun a => (g a).relabel f := by
  change (p.bind g).relabel f = (p.relabel f).bind _
  induction p with
  | ret a => rfl
  | step l effect next ih => simp only [bind, relabel, ih]

theorem relabel_cancel {κ' : Type} (f : κ → κ') (g : κ' → κ) (h : ∀ l, g (f l) = l)
    (p : Prog κ ε σ α) : (p.relabel f).relabel g = p := by
  induction p with
  | ret a => rfl
  | step l effect next ih => simp only [relabel, ih, h]

theorem alone_relabel {κ' : Type} (e : ε) (f : κ → κ') (p : Prog κ ε σ α) (s : σ) :
    (p.relabel f).alone e s = p.alone e s := by
  induction p generalizing s with
  | ret a => rfl
  | step l effect next ih => exact ih e s (effect e s)

/-- Each step that the program can take is of this kind. -/
def Every (ok : κ → (ε → σ → σ) → Prop) : Prog κ ε σ α → Prop
  | ret _ => True
  | step l effect next => ok l effect ∧ ∀ e s, (next e s).Every ok

variable {ok : κ → (ε → σ → σ) → Prop}

theorem Every.bind (p : Prog κ ε σ α) (f : α → Prog κ ε σ β) (hp : p.Every ok)
    (hf : ∀ a, (f a).Every ok) : (p >>= f).Every ok := by
  change (p.bind f).Every ok
  induction p with
  | ret a => exact hf a
  | step l effect next ih => exact ⟨hp.1, fun e s => ih e s (hp.2 e s)⟩

theorem every_atomic (l : κ) (f : ε → σ → α × σ) (h : ok l fun e s => (f e s).2) :
    (atomic l f).Every ok :=
  ⟨h, fun _ _ => trivial⟩

theorem Every.relabel {κ' : Type} (f : κ → κ') (ok' : κ' → (ε → σ → σ) → Prop)
    (h : ∀ l effect, ok l effect → ok' (f l) effect) (p : Prog κ ε σ α) (hp : p.Every ok) :
    (p.relabel f).Every ok' := by
  induction p with
  | ret a => trivial
  | step l effect next ih => exact ⟨h l effect hp.1, fun e s => ih e s (hp.2 e s)⟩

end Prog

/-! ## Threads side by side -/

structure Pool (κ ε σ : Type) where
  shared : σ
  time : ε
  threads : List (Prog κ ε σ Unit)

/-- A thread without a program makes a call, or a thread takes its next step. -/
inductive Act (ε γ : Type) where
  | call (i : Nat) (c : γ)
  | step (i : Nat) (e : ε)

namespace Pool

variable {κ ε σ γ : Type} (body : γ → Prog κ ε σ Unit) (le : ε → ε → Bool)

def idle (n : Nat) (e : ε) (s : σ) : Pool κ ε σ := ⟨s, e, List.replicate n (.ret ())⟩

/-- No step is taken in an environment before the one of the last step. -/
def step : Act ε γ → Pool κ ε σ → Option (Pool κ ε σ)
  | .call i c, s =>
    match s.threads[i]? with
    | some (.ret ()) => some { s with threads := s.threads.set i (body c) }
    | _ => none
  | .step i e, s =>
    match s.threads[i]? with
    | some (.step _ effect next) =>
      if le s.time e then some ⟨effect e s.shared, e, s.threads.set i (next e s.shared)⟩ else none
    | _ => none

/-- The label of the step that the action takes. -/
def label? (s : Pool κ ε σ) : Act ε γ → Option (κ × ε)
  | .call _ _ => none
  | .step i e => (s.threads[i]?.bind Prog.label?).map (·, e)

/-- What the other threads are about to do. -/
def others (s : Pool κ ε σ) : Act ε γ → List κ
  | .call _ _ => []
  | .step i _ => (s.threads.eraseIdx i).filterMap Prog.label?

theorem step_cases (a : Act ε γ) (s s' : Pool κ ε σ) (h : step body le a s = some s') :
    (∃ i c, a = .call i c ∧ s' = { s with threads := s.threads.set i (body c) }) ∨
      ∃ i e l effect next, a = .step i e ∧ s.threads[i]? = some (.step l effect next) ∧
        le s.time e = true ∧
        s' = ⟨effect e s.shared, e, s.threads.set i (next e s.shared)⟩ := by
  cases a with
  | call i c =>
    rw [step] at h
    split at h
    · cases h
      exact .inl ⟨i, c, rfl, rfl⟩
    · cases h
  | step i e =>
    rw [step] at h
    split at h
    · rename_i l effect next hi
      split_ifs at h with htime
      cases h
      exact .inr ⟨i, e, l, effect, next, rfl, hi, htime, rfl⟩
    · cases h

/-- The threads take no other steps than their programs have. -/
theorem every_step (ok : κ → (ε → σ → σ) → Prop) (hbody : ∀ c, (body c).Every ok) (a : Act ε γ)
    (s s' : Pool κ ε σ) (hs : ∀ p ∈ s.threads, p.Every ok) (hstep : step body le a s = some s') :
    ∀ p ∈ s'.threads, p.Every ok := by
  intro p hp
  obtain ⟨i, c, rfl, rfl⟩ | ⟨i, e, l, effect, next, rfl, hi, -, rfl⟩ :=
    step_cases body le a s s' hstep
  · rcases List.mem_or_eq_of_mem_set hp with hp | rfl
    · exact hs p hp
    · exact hbody c
  · rcases List.mem_or_eq_of_mem_set hp with hp | rfl
    · exact hs p hp
    · exact (hs _ (List.mem_of_getElem? hi)).2 e s.shared

end Pool

/-! ## Assertions -/

section Outline

variable {κ ε σ γ α β : Type} (pre : κ → ε → σ → Prop) (free : κ → κ → Prop)

/-- The assertion of the next step holds. -/
def Prog.Holds (e : ε) (s : σ) (p : Prog κ ε σ α) : Prop := ∀ l, p.label? = some l → pre l e s

/--
Each step leads from its assertion to the one of the next, and keeps the assertions that it is free
of.
-/
def Prog.Outlined : Prog κ ε σ α → Prop
  | .ret _ => True
  | .step l effect next => ∀ e s, pre l e s →
    (∀ l', free l l' → pre l' e s → pre l' e (effect e s)) ∧
      (next e s).Holds pre e (effect e s) ∧ (next e s).Outlined

/-- A program that can be started anywhere. -/
structure Prog.Sound (p : Prog κ ε σ α) : Prop where
  holds : ∀ e s, p.Holds pre e s
  outlined : p.Outlined pre free

variable {pre free}

theorem Prog.holds_ret (a : α) (e : ε) (s : σ) : (Prog.ret a : Prog κ ε σ α).Holds pre e s := by
  intro l h
  cases h

theorem Prog.sound_ret (a : α) : (Prog.ret a : Prog κ ε σ α).Sound pre free :=
  ⟨holds_ret a, trivial⟩

theorem Prog.holds_atomic (l : κ) (f : ε → σ → α × σ) (k : α → Prog κ ε σ β) (e : ε) (s : σ)
    (h : pre l e s) : (atomic l f >>= k).Holds pre e s := by
  intro l' hl'
  cases hl'
  exact h

theorem Prog.outlined_atomic (l : κ) (f : ε → σ → α × σ) (k : α → Prog κ ε σ β)
    (hfree : ∀ e s, pre l e s → ∀ l', free l l' → pre l' e s → pre l' e (f e s).2)
    (hnext : ∀ e s, pre l e s → (k (f e s).1).Holds pre e (f e s).2)
    (hk : ∀ a, (k a).Outlined pre free) : (atomic l f >>= k).Outlined pre free :=
  fun e s hpre => ⟨hfree e s hpre, hnext e s hpre, hk _⟩

theorem Prog.Holds.bind (e : ε) (s : σ) (p : Prog κ ε σ α) (f : α → Prog κ ε σ β)
    (hp : p.Holds pre e s) (hf : ∀ a, (f a).Holds pre e s) : (p.bind f).Holds pre e s := by
  cases p with
  | ret a => exact hf a
  | step l effect next => exact hp

theorem Prog.Outlined.bind (p : Prog κ ε σ α) (f : α → Prog κ ε σ β) (hp : p.Outlined pre free)
    (hf : ∀ a, (f a).Sound pre free) : (p.bind f).Outlined pre free := by
  induction p with
  | ret a => exact (hf a).outlined
  | step l effect next ih =>
    intro e s hpre
    obtain ⟨hfree, hnext, houtlined⟩ := hp e s hpre
    exact ⟨hfree, hnext.bind e _ _ f fun a => (hf a).holds e _, ih e s houtlined⟩

theorem Prog.Sound.bind (p : Prog κ ε σ α) (f : α → Prog κ ε σ β) (hp : p.Sound pre free)
    (hf : ∀ a, (f a).Sound pre free) : (p >>= f).Sound pre free where
  holds e s := (hp.holds e s).bind e s p f fun a => (hf a).holds e s
  outlined := hp.outlined.bind p f hf

variable (pre free) (body : γ → Prog κ ε σ Unit) (le : ε → ε → Bool)

/-- The action is free of what the other threads are about to do. -/
def Pool.Free (a : Act ε γ) (s : Pool κ ε σ) : Prop :=
  ∀ l e, s.label? a = some (l, e) → ∀ l' ∈ s.others a, free l l'

/-- The assertion of the step that is taken. -/
def Pool.Asserts (a : Act ε γ) (s : Pool κ ε σ) : Prop :=
  ∀ l e, s.label? a = some (l, e) → le s.time e = true → pre l e s.shared

/-- Every thread stands where its assertion holds. -/
def Pool.Outlined (s : Pool κ ε σ) : Prop :=
  ∀ p ∈ s.threads, p.Holds pre s.time s.shared ∧ p.Outlined pre free

variable {pre free}

theorem Pool.outlined_idle (n : Nat) (e : ε) (s : σ) :
    (Pool.idle n e s : Pool κ ε σ).Outlined pre free := by
  intro p hp
  rw [List.eq_of_mem_replicate hp]
  exact ⟨Prog.holds_ret () _ _, trivial⟩

variable (hle : ∀ l e e' s, le e e' = true → pre l e s → pre l e' s)
  (hbody : ∀ c, (body c).Sound pre free)

include hle hbody

theorem Pool.Outlined.step (a : Act ε γ) (s s' : Pool κ ε σ) (hs : s.Outlined pre free)
    (hfree : s.Free free a) (hstep : Pool.step body le a s = some s') : s'.Outlined pre free := by
  obtain ⟨i, c, rfl, rfl⟩ | ⟨i, e, l, effect, next, rfl, hi, htime, rfl⟩ :=
    Pool.step_cases body le a s s' hstep
  · intro p hp
    rcases List.mem_or_eq_of_mem_set hp with hp | rfl
    · exact hs p hp
    · exact ⟨(hbody c).holds _ _, (hbody c).outlined⟩
  · obtain ⟨hholds, houtlined⟩ := hs _ (List.mem_of_getElem? hi)
    obtain ⟨hkeeps, hnext⟩ := houtlined e s.shared (hle l _ e _ htime (hholds l rfl))
    have hlabel : s.label? (.step i e : Act ε γ) = some (l, e) := by
      simp [Pool.label?, hi, Prog.label?]
    intro p hp
    obtain ⟨j, hj⟩ := List.mem_iff_getElem?.mp hp
    rw [List.getElem?_set] at hj
    split_ifs at hj with hij hlt
    · cases hj
      exact hnext
    · -- Another thread: its assertion lasts, as the step is free of it.
      have hother := hs p (List.mem_of_getElem? hj)
      refine ⟨fun l' hl' => ?_, hother.2⟩
      refine hkeeps l' (hfree l e hlabel l' ?_) (hle l' _ e _ htime (hother.1 l' hl'))
      exact List.mem_filterMap.mpr ⟨p,
        List.mem_eraseIdx_iff_getElem?.mpr ⟨j, fun h => hij h.symm, hj⟩, hl'⟩

/--
In a run of actions that are free of the other threads every step is taken where its assertion
holds.
-/
theorem Pool.asserts_along (as : List (Act ε γ)) (s : Pool κ ε σ) (hs : s.Outlined pre free)
    (hfree : Along (Pool.step body le) (fun a s => s.Free free a) as s) :
    Along (Pool.step body le) (fun a s => s.Asserts pre le a) as s := by
  refine Along.of_invariant _ _ _ (Pool.Outlined pre free) ?_ ?_ as s hfree hs
  · intro a s s' hs hfree hstep
    exact hs.step body le hle hbody a s s' hfree hstep
  · intro a s hs _ l e hlabel htime
    cases a with
    | call i c => cases hlabel
    | step i e =>
      obtain ⟨l', hl', heq⟩ := Option.map_eq_some_iff.mp hlabel
      cases heq
      obtain ⟨p, hp, hl⟩ := Option.bind_eq_some_iff.mp hl'
      exact hle l _ e _ htime ((hs p (List.mem_of_getElem? hp)).1 l hl)

end Outline

end Lib.Threads
