import Mathlib.Data.List.Permutation
import RustyPotato.Lib.Threads

/-!
# Calls in a race

Calls run side by side, each once and each with a result. A call can look at the state and act later
on what it has seen: the step that acts is guarded. If no other call changes the view while one
stands before a guarded step, and each call takes its effect at one of its own steps, then the
results and the last view are those of the same calls one after the other.
-/

namespace Lib.Threads

open Lib.Machine

variable {κ ε σ γ ρ τ : Type}

structure Race (κ ε σ ρ : Type) where
  shared : σ
  threads : List (Prog κ ε σ ρ)

namespace Race

/-- The thread that is to take its next step, and the environment it meets. -/
def step (a : Nat × ε) (s : Race κ ε σ ρ) : Option (Race κ ε σ ρ) :=
  match s.threads[a.1]? with
  | some (.step _ effect next) => some ⟨effect a.2 s.shared, s.threads.set a.1 (next a.2 s.shared)⟩
  | _ => none

def label? (a : Nat × ε) (s : Race κ ε σ ρ) : Option κ := s.threads[a.1]?.bind Prog.label?

/-- What the other threads are about to do. -/
def others (a : Nat × ε) (s : Race κ ε σ ρ) : List κ :=
  (s.threads.eraseIdx a.1).filterMap Prog.label?

/--
A step that can change the view is taken only while no other thread stands before a guarded one.
-/
def undisturbed (changes guarded : κ → Bool) (a : Nat × ε) (s : Race κ ε σ ρ) : Bool :=
  (s.label? a).all fun l => !changes l || (s.others a).all fun l' => !guarded l'

theorem step_eq_some (a : Nat × ε) (s s' : Race κ ε σ ρ) :
    s.step a = some s' ↔ ∃ l effect next, s.threads[a.1]? = some (.step l effect next) ∧
      s' = ⟨effect a.2 s.shared, s.threads.set a.1 (next a.2 s.shared)⟩ := by
  unfold step
  constructor
  · intro h
    split at h
    · rename_i l effect next hi
      cases h
      exact ⟨l, effect, next, hi, rfl⟩
    · cases h
  · rintro ⟨l, effect, next, hi, rfl⟩
    rw [hi]

theorem undisturbed_cases (changes guarded : κ → Bool) (a : Nat × ε) (s : Race κ ε σ ρ) (l : κ)
    (effect : ε → σ → σ) (next : ε → σ → Prog κ ε σ ρ) (h : s.undisturbed changes guarded a = true)
    (hi : s.threads[a.1]? = some (.step l effect next)) :
    changes l = false ∨ ∀ j p l', j ≠ a.1 → s.threads[j]? = some p → p.label? = some l' →
      guarded l' = false := by
  have hlabel : s.label? a = some l := by simp [label?, hi, Prog.label?]
  unfold undisturbed at h
  rw [hlabel, Option.all_some, Bool.or_eq_true] at h
  rcases h with h | h
  · exact .inl (by simpa using h)
  · refine .inr fun j p l' hj hp hl' => ?_
    have hmem : l' ∈ s.others a :=
      List.mem_filterMap.mpr ⟨p, List.mem_eraseIdx_iff_getElem?.mpr ⟨j, hj, hp⟩, hl'⟩
    simpa using List.all_eq_true.mp h l' hmem

/-- Where nothing is guarded, nothing is disturbed. -/
theorem undisturbed_of_unguarded (changes : κ → Bool) (as : List (Nat × ε)) (r : Race κ ε σ ρ) :
    Along step (fun a r => r.undisturbed changes (fun _ => false) a = true) as r := by
  refine along_of_mem _ _ as (fun a _ r => ?_) r
  unfold undisturbed
  cases r.label? a with
  | none => rfl
  | some l => simp

end Race

/-! ## Calls one after the other -/

/-- The calls of the history give these results, from the first view to the last. -/
def Sequential (spec : γ → τ → ρ × τ) : τ → List (γ × ρ) → τ → Prop
  | t, [], t' => t = t'
  | t, (c, r) :: h, t' => (spec c t).1 = r ∧ Sequential spec (spec c t).2 h t'

/-- Some order of the calls gives each its result, and the last view. -/
def Linearizable (spec : γ → τ → ρ × τ) (t : τ) (calls : List γ) (results : List ρ) (t' : τ) :
    Prop :=
  results.length = calls.length ∧ ∃ h : List (γ × ρ), h.Perm (calls.zip results) ∧
    Sequential spec t h t'

theorem Linearizable.pair (spec : γ → τ → ρ × τ) (t t' : τ) (c d : γ) (r q : ρ)
    (h : Linearizable spec t [c, d] [r, q] t') :
    Sequential spec t [(c, r), (d, q)] t' ∨ Sequential spec t [(d, q), (c, r)] t' := by
  obtain ⟨-, h, hperm, hseq⟩ := h
  have hmem := List.mem_permutations'.mpr hperm
  simp only [List.zip_cons_cons, List.zip_nil_left, List.permutations', List.flatMap_cons,
    List.flatMap_nil, List.permutations'Aux, List.map_cons, List.map_nil, List.append_nil,
    List.mem_cons, List.not_mem_nil, or_false] at hmem
  rcases hmem with rfl | rfl
  · exact .inl hseq
  · exact .inr hseq

/-! ## One effect for each call -/

/-- What the calls are for, and which steps change the view or rely on it. -/
structure Object (κ ε σ γ ρ τ : Type) where
  body : γ → Prog κ ε σ ρ
  spec : γ → τ → ρ × τ
  view : σ → τ
  inv : σ → Prop
  env : ε → Prop
  changes : κ → Bool
  guarded : κ → Bool

namespace Object

variable (O : Object κ ε σ γ ρ τ)

/-- The call has taken its effect and will return this result. -/
def Settled (r : ρ) : Prog κ ε σ ρ → Prop
  | .ret r' => r' = r
  | .step _ effect next => ∀ e s, O.env e → O.inv s →
    O.inv (effect e s) ∧ O.view (effect e s) = O.view s ∧ Settled r (next e s)

/-- The call will take its effect in this step or in a later one. It has last seen the view `t`. -/
def Pending (c : γ) : τ → Prog κ ε σ ρ → Prop
  | _, .ret _ => False
  | t, .step l effect next => ∀ e s, O.env e → O.inv s → (O.guarded l = true → O.view s = t) →
    O.inv (effect e s) ∧ (O.changes l = false → O.view (effect e s) = O.view s) ∧
      ((O.view (effect e s) = O.view s ∧ Pending c (O.view s) (next e s)) ∨
        (O.view (effect e s) = (O.spec c (O.view s)).2 ∧
          O.Settled (O.spec c (O.view s)).1 (next e s)))

theorem pending_atomic {α : Type} (c : γ) (t : τ) (l : κ) (f : ε → σ → α × σ) (k : α → Prog κ ε σ ρ)
    (h : ∀ e s, O.env e → O.inv s → (O.guarded l = true → O.view s = t) →
      O.inv (f e s).2 ∧ (O.changes l = false → O.view (f e s).2 = O.view s) ∧
        ((O.view (f e s).2 = O.view s ∧ O.Pending c (O.view s) (k (f e s).1)) ∨
          (O.view (f e s).2 = (O.spec c (O.view s)).2 ∧
            O.Settled (O.spec c (O.view s)).1 (k (f e s).1)))) :
    O.Pending c t (Prog.atomic l f >>= k) := h

theorem pending_look {α : Type} (c : γ) (t : τ) (l : κ) (f : ε → σ → α) (k : α → Prog κ ε σ ρ)
    (h : ∀ e s, O.env e → O.inv s → O.Pending c (O.view s) (k (f e s)) ∨
      (O.view s = (O.spec c (O.view s)).2 ∧ O.Settled (O.spec c (O.view s)).1 (k (f e s)))) :
    O.Pending c t (Prog.atomic l (fun e s => (f e s, s)) >>= k) := by
  refine O.pending_atomic c t l _ k fun e s he hs _ => ⟨hs, fun _ => rfl, ?_⟩
  rcases h e s he hs with hpending | hsettled
  · exact .inl ⟨rfl, hpending⟩
  · exact .inr hsettled

/-- A thread with its call, and its result once that is settled. -/
structure Thread (κ ε σ γ ρ : Type) where
  call : γ
  settled : Option ρ
  prog : Prog κ ε σ ρ

/--
The thread stands where its call has taken its effect, or will and sees what it has seen last.
-/
def Stands (s : σ) (th : Thread κ ε σ γ ρ) : Prop :=
  match th.settled with
  | some r => O.Settled r th.prog
  | none =>
    ∃ t, O.Pending th.call t th.prog ∧ ∀ l, th.prog.label? = some l → O.guarded l = true →
      O.view s = t

/-- The calls that are still to take effect, with the results they come to. -/
def pendingCalls : List (Thread κ ε σ γ ρ) → List ρ → List (γ × ρ)
  | th :: ths, r :: rs =>
    if th.settled.isNone then (th.call, r) :: pendingCalls ths rs else pendingCalls ths rs
  | _, _ => []

theorem pendingCalls_set_same (ths : List (Thread κ ε σ γ ρ)) (rs : List ρ) (i : Nat)
    (th th' : Thread κ ε σ γ ρ) (hi : ths[i]? = some th) (hcall : th'.call = th.call)
    (hsettled : th'.settled = th.settled) :
    pendingCalls (ths.set i th') rs = pendingCalls ths rs := by
  induction ths generalizing i rs with
  | nil => cases hi
  | cons first ths ih =>
    cases rs with
    | nil => cases i <;> rfl
    | cons r rs =>
      cases i with
      | zero =>
        cases hi
        rw [List.set_cons_zero, pendingCalls, pendingCalls, hcall, hsettled]
      | succ i =>
        rw [List.set_cons_succ, pendingCalls, pendingCalls, ih rs i hi]

theorem pendingCalls_set_settled (ths : List (Thread κ ε σ γ ρ)) (rs : List ρ) (i : Nat)
    (th th' : Thread κ ε σ γ ρ) (hi : ths[i]? = some th) (hpending : th.settled = none) (r : ρ)
    (hsettled : th'.settled = some r) (hr : rs[i]? = some r) :
    (pendingCalls ths rs).Perm ((th.call, r) :: pendingCalls (ths.set i th') rs) := by
  induction ths generalizing i rs with
  | nil => cases hi
  | cons first ths ih =>
    cases rs with
    | nil => cases hr
    | cons r' rs =>
      cases i with
      | zero =>
        cases hi
        cases hr
        rw [List.set_cons_zero, pendingCalls, pendingCalls, hpending, hsettled]
        rfl
      | succ i =>
        have hrest := ih rs i hi hr
        rw [List.set_cons_succ, pendingCalls, pendingCalls]
        split_ifs
        · exact (hrest.cons _).trans (List.Perm.swap ..)
        · exact hrest

theorem pendingCalls_all (calls : List γ) (body : γ → Prog κ ε σ ρ) (rs : List ρ) :
    pendingCalls (calls.map fun c => Thread.mk c none (body c)) rs = calls.zip rs := by
  induction calls generalizing rs with
  | nil => rfl
  | cons c calls ih =>
    cases rs with
    | nil => rfl
    | cons r rs => rw [List.map_cons, pendingCalls, ih, List.zip_cons_cons]; rfl

variable {O}

theorem Stands.own (s : σ) (th : Thread κ ε σ γ ρ) (h : O.Stands s th) (l : κ) (effect : ε → σ → σ)
    (next : ε → σ → Prog κ ε σ ρ) (hprog : th.prog = .step l effect next) (e : ε) (he : O.env e)
    (hs : O.inv s) :
    O.inv (effect e s) ∧ (O.changes l = false → O.view (effect e s) = O.view s) ∧
      ∃ settled, O.Stands (effect e s) ⟨th.call, settled, next e s⟩ ∧
        ((settled = th.settled ∧ O.view (effect e s) = O.view s) ∨
          (th.settled = none ∧ settled = some (O.spec th.call (O.view s)).1 ∧
            O.view (effect e s) = (O.spec th.call (O.view s)).2)) := by
  obtain ⟨call, settled, prog⟩ := th
  obtain rfl : prog = .step l effect next := hprog
  cases settled with
  | some r =>
    obtain ⟨hinv, hview, hnext⟩ := h e s he hs
    exact ⟨hinv, fun _ => hview, some r, hnext, .inl ⟨rfl, hview⟩⟩
  | none =>
    obtain ⟨t, hpending, hguard⟩ := h
    obtain ⟨hinv, hsteady, ⟨hview, hnext⟩ | ⟨hview, hnext⟩⟩ := hpending e s he hs (hguard l rfl)
    · exact ⟨hinv, hsteady, none, ⟨O.view s, hnext, fun _ _ _ => hview⟩, .inl ⟨rfl, hview⟩⟩
    · exact ⟨hinv, hsteady, some (O.spec call (O.view s)).1, hnext, .inr ⟨rfl, rfl, hview⟩⟩

theorem Stands.other (s s' : σ) (th : Thread κ ε σ γ ρ) (h : O.Stands s th)
    (hkeep : O.view s' = O.view s ∨ ∀ l, th.prog.label? = some l → O.guarded l = false) :
    O.Stands s' th := by
  obtain ⟨call, settled, prog⟩ := th
  cases settled with
  | some r => exact h
  | none =>
    obtain ⟨t, hpending, hguard⟩ := h
    refine ⟨t, hpending, fun l hl hg => ?_⟩
    rcases hkeep with hview | hfree
    · rw [hview, hguard l hl hg]
    · rw [hfree l hl] at hg
      cases hg

theorem Stands.done (s : σ) (th : Thread κ ε σ γ ρ) (h : O.Stands s th) (r : ρ)
    (hprog : th.prog = .ret r) : th.settled = some r := by
  obtain ⟨call, settled, prog⟩ := th
  obtain rfl : prog = .ret r := hprog
  cases settled with
  | some r' =>
    have hr : r = r' := h
    rw [hr]
  | none =>
    obtain ⟨t, hpending, -⟩ := h
    exact hpending.elim

theorem pendingCalls_none (ths : List (Thread κ ε σ γ ρ)) (rs : List ρ)
    (h : ∀ th ∈ ths, th.settled ≠ none) : pendingCalls ths rs = [] := by
  induction ths generalizing rs with
  | nil => rfl
  | cons th ths ih =>
    cases rs with
    | nil => rfl
    | cons r rs =>
      rw [pendingCalls, if_neg (by simpa using h th List.mem_cons_self)]
      exact ih rs fun th hth => h th (List.mem_cons_of_mem _ hth)

/-- Each thread comes to the result that it has settled on. -/
structure Comes (ths : List (Thread κ ε σ γ ρ)) (rs : List ρ) : Prop where
  length : ths.length = rs.length
  result : ∀ (i : Nat) (th : Thread κ ε σ γ ρ) (r : ρ), ths[i]? = some th → th.settled = some r →
    rs[i]? = some r

theorem Comes.before (ths : List (Thread κ ε σ γ ρ)) (rs : List ρ) (i : Nat)
    (th th' : Thread κ ε σ γ ρ) (hth : ths[i]? = some th)
    (hkeep : ∀ r, th.settled = some r → th'.settled = some r) (h : Comes (ths.set i th') rs) :
    Comes ths rs := by
  have hset : (ths.set i th')[i]? = some th' :=
    List.getElem?_set_self (List.getElem?_eq_some_iff.mp hth).1
  refine ⟨by simpa using h.length, fun j thj r hj hr => ?_⟩
  by_cases hij : i = j
  · subst hij
    rw [hth] at hj
    cases hj
    exact h.result i th' r hset (hkeep r hr)
  · exact h.result j thj r (by rw [List.getElem?_set_ne hij, hj]) hr

/-- At the end every thread has returned, so it has come to its result. -/
theorem comes_done (s : σ) (ths : List (Thread κ ε σ γ ρ)) (rs : List ρ)
    (hstands : ∀ th ∈ ths, O.Stands s th) (hdone : ths.map Thread.prog = rs.map .ret) :
    Comes ths rs ∧ ∀ th ∈ ths, th.settled ≠ none := by
  have hsettled : ∀ (i : Nat) (th : Thread κ ε σ γ ρ), ths[i]? = some th →
      ∃ r, rs[i]? = some r ∧ th.settled = some r := by
    intro i th hth
    have hi := congrArg (fun l => l[i]?) hdone
    simp only [List.getElem?_map, hth, Option.map_some] at hi
    obtain ⟨r, hr, hprog⟩ := Option.map_eq_some_iff.mp hi.symm
    exact ⟨r, hr, (hstands th (List.mem_of_getElem? hth)).done s th r hprog.symm⟩
  refine ⟨⟨by simpa using congrArg List.length hdone, fun i th r hth hr => ?_⟩, fun th hth => ?_⟩
  · obtain ⟨r', hr', hth'⟩ := hsettled i th hth
    rw [hr] at hth'
    rw [hr', Option.some.inj hth']
  · obtain ⟨i, hi⟩ := List.mem_iff_getElem?.mp hth
    obtain ⟨r, -, hr⟩ := hsettled i th hi
    rw [hr]
    exact Option.some_ne_none r

theorem stands_step (a : Nat × ε) (s : σ) (ths : List (Thread κ ε σ γ ρ))
    (hstands : ∀ th ∈ ths, O.Stands s th) (th th' : Thread κ ε σ γ ρ) (hth : ths[a.1]? = some th)
    (l : κ) (effect : ε → σ → σ) (next : ε → σ → Prog κ ε σ ρ)
    (hprog : th.prog = .step l effect next) (hown : O.Stands (effect a.2 s) th')
    (hsteady : O.changes l = false → O.view (effect a.2 s) = O.view s)
    (hfree : Race.undisturbed O.changes O.guarded a ⟨s, ths.map Thread.prog⟩ = true) :
    ∀ thj ∈ ths.set a.1 th', O.Stands (effect a.2 s) thj := by
  have hi : (ths.map Thread.prog)[a.1]? = some (.step l effect next) := by
    rw [List.getElem?_map, hth, Option.map_some, hprog]
  -- The thread itself stands by its own rule, any other as nothing that it relies on has changed.
  intro thj hthj
  obtain ⟨j, hj⟩ := List.mem_iff_getElem?.mp hthj
  rw [List.getElem?_set] at hj
  split_ifs at hj with hij hlt
  · cases hj
    exact hown
  · refine (hstands thj (List.mem_of_getElem? hj)).other s _ thj ?_
    rcases Race.undisturbed_cases _ _ a _ l effect next hfree hi with hsame | hfree
    · exact .inl (hsteady hsame)
    · refine .inr fun l' hl' => hfree j thj.prog l' (fun h => hij h.symm) ?_ hl'
      rw [List.getElem?_map, hj, Option.map_some]

variable (O)

/-- The rest of a run: there is an order of the pending calls that explains it. -/
theorem linearize_run (as : List (Nat × ε)) (s s' : σ) (ths : List (Thread κ ε σ γ ρ)) (rs : List ρ)
    (hstands : ∀ th ∈ ths, O.Stands s th) (hs : O.inv s) (henv : ∀ a ∈ as, O.env a.2)
    (hfree : Along Race.step (fun a r => r.undisturbed O.changes O.guarded a = true) as
      ⟨s, ths.map Thread.prog⟩)
    (hrun : run Race.step as ⟨s, ths.map Thread.prog⟩ = some ⟨s', rs.map .ret⟩) :
    (∃ h : List (γ × ρ), h.Perm (pendingCalls ths rs) ∧
      Sequential O.spec (O.view s) h (O.view s')) ∧ Comes ths rs := by
  induction as generalizing s ths with
  | nil =>
    simp only [run_nil, Option.some.injEq, Race.mk.injEq] at hrun
    obtain ⟨rfl, hdone⟩ := hrun
    obtain ⟨hcomes, hsettled⟩ := comes_done s ths rs hstands hdone
    refine ⟨⟨[], ?_, rfl⟩, hcomes⟩
    rw [pendingCalls_none ths rs hsettled]
  | cons a as ih =>
    obtain ⟨mid, hstep, hrest⟩ := (run_cons_eq_some ..).mp hrun
    obtain ⟨l, effect, next, hi, rfl⟩ := (Race.step_eq_some ..).mp hstep
    rw [List.getElem?_map] at hi
    obtain ⟨th, hth, hprog⟩ := Option.map_eq_some_iff.mp hi
    obtain ⟨hinv, hsteady, settled, hown, hcase⟩ :=
      (hstands th (List.mem_of_getElem? hth)).own s th l effect next hprog a.2
        (henv a List.mem_cons_self) hs
    have hmap : (ths.map Thread.prog).set a.1 (next a.2 s) =
        (ths.set a.1 ⟨th.call, settled, next a.2 s⟩).map Thread.prog := by rw [List.map_set]
    have hnext := hfree.2 _ hstep
    simp only [hmap] at hrest hnext
    obtain ⟨⟨h, hperm, hseq⟩, hcomes⟩ := ih _ _
      (stands_step a s ths hstands th _ hth l effect next hprog hown hsteady hfree.1) hinv
      (fun b hb => henv b (List.mem_cons_of_mem _ hb)) hnext hrest
    rcases hcase with ⟨hsame, hview⟩ | ⟨hnone, hsettled, hview⟩
    · refine ⟨⟨h, ?_, by rw [← hview]; exact hseq⟩,
        hcomes.before ths rs a.1 th _ hth fun r hr => hsame.trans hr⟩
      rwa [pendingCalls_set_same ths rs a.1 th ⟨th.call, settled, next a.2 s⟩ hth rfl
        hsame] at hperm
    · -- The call takes its effect in this step, so it is the first of the order.
      have hset : (ths.set a.1 ⟨th.call, settled, next a.2 s⟩)[a.1]? = some ⟨th.call, settled,
        next a.2 s⟩ :=
        List.getElem?_set_self (List.getElem?_eq_some_iff.mp hth).1
      have hr := hcomes.result a.1 _ _ hset hsettled
      refine ⟨⟨(th.call, (O.spec th.call (O.view s)).1) :: h, ?_, rfl, by rw [← hview]; exact hseq⟩,
        ?_⟩
      · exact (hperm.cons _).trans
          (pendingCalls_set_settled ths rs a.1 th _ hth hnone _ hsettled hr).symm
      · refine hcomes.before ths rs a.1 th _ hth fun r hr => ?_
        rw [hnone] at hr
        cases hr

/-- A race of calls, each of which takes one effect, ends like some order of the calls. -/
theorem linearizable (hbody : ∀ c t, O.Pending c t (O.body c)) (calls : List γ) (s s' : σ)
    (hs : O.inv s) (as : List (Nat × ε)) (henv : ∀ a ∈ as, O.env a.2)
    (hfree : Along Race.step (fun a r => r.undisturbed O.changes O.guarded a = true) as
      ⟨s, calls.map O.body⟩)
    (rs : List ρ) (hrun : run Race.step as ⟨s, calls.map O.body⟩ = some ⟨s', rs.map .ret⟩) :
    Linearizable O.spec (O.view s) calls rs (O.view s') := by
  have hmap : calls.map O.body =
      (calls.map fun c => Thread.mk c none (O.body c)).map Thread.prog := by
    rw [List.map_map]
    rfl
  have hstands : ∀ th ∈ calls.map fun c => Thread.mk c none (O.body c), O.Stands s th := by
    intro th hth
    obtain ⟨c, -, rfl⟩ := List.mem_map.mp hth
    exact ⟨O.view s, hbody c _, fun _ _ _ => rfl⟩
  rw [hmap] at hfree hrun
  obtain ⟨⟨h, hperm, hseq⟩, hcomes⟩ := O.linearize_run as s s' _ rs hstands hs henv hfree hrun
  rw [pendingCalls_all] at hperm
  exact ⟨by simpa using hcomes.length.symm, h, hperm, hseq⟩

end Object

end Lib.Threads
