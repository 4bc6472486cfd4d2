import RustyPotato.LogOrder

/-!
# Runs of several connections

Where the gap between the execution of a command and its record matters: two commands on one key can
be logged in the other order, and a command can be logged after a rewrite that has its effect
already. Apart from these the log recovers the store.
-/

namespace RustyPotato

open Lib.Machine

/-- The request that the connection deals with, up to when it is sent. -/
def Phase.request : Phase → Option Request
  | guarded r | executed r _ | finished r _ => some r
  | _ => none

def Phase.isIdle : Phase → Bool
  | idle => true
  | _ => false

/-- The action is the writer's, or that of one of the first `n` connections. -/
def Action.within (n : Nat) : Action → Bool
  | acquire i _ | execute i _ | release i | send i | read i _ _ | reply i | lock i | snapshot i _
  | writeTemp i | sendSwap i | finish i => decide (i < n)
  | recv | work _ | tick _ => true

namespace Server

variable {u : CaseMap} {s : Server}

/-! ## Runs of a few connections -/

theorem idle_beyond_step (n : Nat) (hd : Disciplined s) (h : ∀ j, n ≤ j → s.phase j = .idle)
    (a : Action) (s' : Server) (ha : a.within n = true) (hm : Moves u s a s') : ∀ j, n ≤ j →
      s'.phase j = .idle := by
  intro j hj
  have hgoto : ∀ i p, i < n → (s.goto i p).phase j = .idle := by
    intro i p hi
    rw [phase_goto, Function.update_of_ne (by omega)]
    exact h j hj
  cases hm with
  | acquire | execute | release | send | skip | read | reply | lock | snapshot | refuse | writeTemp
  | sendSwap
  | finish =>
    exact hgoto _ _ (of_decide_eq_true ha)
  | recv | record | tick => exact h j hj
  | swap now i hhand =>
    have hi := hd.swaps i (by simp [queue, hhand])
    refine hgoto i _ ?_
    by_contra hge
    rw [h i (by omega)] at hi
    cases hi

/-- Connections that nobody uses stay idle. -/
theorem idle_beyond (n : Nat) (policy : FsyncPolicy) (now : Int) (acts : List Action) (t : Server)
    (hacts : ∀ a ∈ acts, a.within n = true) (hrun : run u acts (start policy now) = some t) :
    ∀ j, n ≤ j → t.phase j = .idle := by
  have h : Disciplined t ∧ ∀ j, n ≤ j → t.phase j = .idle :=
    invariant (step u) (fun a _ => a.within n = true) (fun s => Disciplined s ∧ ∀ j, n ≤ j →
      s.phase j = .idle) (fun a s s' hs ha hstep => ⟨hs.1.step a s' (step_moves a s' hstep),
        idle_beyond_step n hs.1 hs.2 a s' ha (step_moves a s' hstep)⟩)
      acts _ t (along_of_mem _ _ acts (fun a ha _ => hacts a ha) _) hrun
      ⟨disciplined_start policy now, fun _ _ => rfl⟩
  exact h.2

/--
No command of the first `n` connections waits to be sent when another is executed, or a swap sent.
-/
def alone (n : Nat) (a : Action) (s : Server) : Bool :=
  match a with
  | .execute _ _ | .sendSwap _ => (List.range n).all fun j => (s.phase j).unsent.isNone
  | _ => true

/-- Each key is written by one connection alone. -/
def Owned (u : CaseMap) (owner : String → Nat) (a : Action) (_ : Server) : Prop :=
  match a with
  | .acquire i r => ∀ k, r.cmd.Touches u k → owner k = i
  | _ => True

def Owns (u : CaseMap) (owner : String → Nat) (s : Server) : Prop :=
  ∀ i r, (s.phase i).request = some r → ∀ k, r.cmd.Touches u k → owner k = i

theorem Owns.step (owner : String → Nat) (h : Owns u owner s) (a : Action) (s' : Server)
    (ha : Owned u owner a s) (hm : Moves u s a s') : Owns u owner s' := by
  have hgoto : ∀ i p, (∀ r, p.request = some r → (s.phase i).request = some r) →
      Owns u owner (s.goto i p) := by
    intro i p hp j r hr
    rw [phase_goto, Function.update_apply] at hr
    split_ifs at hr with hji
    · exact h j r (hji ▸ hp r hr)
    · exact h j r hr
  cases hm with
  | acquire i r hphase hmutation hfree =>
    intro j r' hr
    simp only [Server.goto, Function.update_apply] at hr
    split_ifs at hr with hji
    · cases hr
      exact hji ▸ ha
    · exact h j r' hr
  | execute i env r result after hphase hrun =>
    exact hgoto i _ fun r' hr => by rw [hphase]; exact hr
  | release i r result hphase => exact hgoto i _ fun r' hr => by rw [hphase]; exact hr
  | send | skip | read | reply | lock | snapshot | refuse | writeTemp | sendSwap | finish | swap =>
    exact hgoto _ _ fun r' hr => by cases hr
  | recv | record | tick => exact h

theorem printed_printed (v : ValueType) : printed (printed v) = printed v := by cases v <;> rfl

end Server

end RustyPotato
