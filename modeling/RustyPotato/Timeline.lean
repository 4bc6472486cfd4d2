import RustyPotato.Keyspace

/-!
# Runs in time

The commands of a run execute one after the other, each at its own reading of the clock. Between
them keys expire. What a client sees under a key at the end follows from what was done to that key.
-/

namespace RustyPotato

/-- The steps of the commands, each with the clock of its command. -/
abbrev Timeline := List (Clock × List Step)

namespace Timeline

def run (tl : Timeline) (s : MemoryStore) : MemoryStore :=
  tl.foldl (fun s x => Step.runAll x.1 x.2 s) s

/-- What becomes of the entry under `k`. Before each command it may expire. -/
def act (k : String) (tl : Timeline) (e : Option Entry) : Option Entry :=
  tl.foldl (fun e x => Step.actAll x.1 k x.2 (e.bind (Entry.alive x.1))) e

/-- The clocks go from the first to the last and never back. -/
def Between (a b : Clock) : Timeline → Prop
  | [] => a.le b
  | x :: tl => a.le x.1 ∧ Between x.1 b tl

@[simp] theorem run_nil (s : MemoryStore) : run [] s = s := rfl

@[simp] theorem run_cons (x : Clock × List Step) (tl : Timeline) (s : MemoryStore) :
    run (x :: tl) s = run tl (Step.runAll x.1 x.2 s) := rfl

@[simp] theorem act_nil (k : String) (e : Option Entry) : act k [] e = e := rfl

@[simp] theorem act_cons (k : String) (x : Clock × List Step) (tl : Timeline) (e : Option Entry) :
    act k (x :: tl) e = act k tl (Step.actAll x.1 k x.2 (e.bind (Entry.alive x.1))) := rfl

theorem act_append (k : String) (tl tl' : Timeline) (e : Option Entry) :
    act k (tl ++ tl') e = act k tl' (act k tl e) :=
  List.foldl_append ..

theorem Between.le (a b : Clock) (tl : Timeline) (h : Between a b tl) : a.le b := by
  induction tl generalizing a with
  | nil => exact h
  | cons x tl ih => exact Nat.le_trans h.1 (ih x.1 h.2)

theorem between_append (a b : Clock) (tl tl' : Timeline) (h : Between a b (tl ++ tl')) :
    ∃ m, Between a m tl ∧ Between m b tl' := by
  induction tl generalizing a with
  | nil => exact ⟨a, Nat.le_refl _, h⟩
  | cons x tl ih =>
    obtain ⟨m, hm, hm'⟩ := ih x.1 h.2
    exact ⟨m, ⟨h.1, hm⟩, hm'⟩

end Timeline

theorem Entry.alive_alive (a b : Clock) (h : a.le b) (e : Option Entry) :
    (e.bind (Entry.alive a)).bind (Entry.alive b) = e.bind (Entry.alive b) := by
  obtain _ | e := e
  · rfl
  · simp only [Option.bind_some, Entry.alive]
    cases ha : e.isExpired a with
    | true => simp [Entry.isExpired_mono a b h e ha]
    | false => simp [Entry.alive]

namespace Timeline

variable (k : String)

theorem live_run (a b : Clock) (tl : Timeline) (s : MemoryStore) (h : Between a b tl) :
    (run tl s).live b k = (act k tl (s.live a k)).bind (Entry.alive b) := by
  induction tl generalizing a s with
  | nil => exact MemoryStore.live_later a b h s k
  | cons x tl ih =>
    rw [run_cons, act_cons, ih x.1 _ h.2, Step.live_runAll, MemoryStore.live_later a x.1 h.1]

/-- What is done to other keys leaves only time to this one. -/
theorem act_untouched (a b : Clock) (tl : Timeline) (h : Between a b tl)
    (htl : ∀ x ∈ tl, ∀ step ∈ x.2, ¬ step.touches k) (e : Option Entry) :
    (act k tl e).bind (Entry.alive b) = e.bind (Entry.alive b) := by
  induction tl generalizing a e with
  | nil => rfl
  | cons x tl ih =>
    rw [act_cons, Step.actAll_untouched _ _ _ _ (htl x List.mem_cons_self),
      ih x.1 h.2 fun y hy => htl y (List.mem_cons_of_mem _ hy), Entry.alive_alive x.1 b (h.2.le)]

theorem act_none_untouched (tl : Timeline) (htl : ∀ x ∈ tl, ∀ step ∈ x.2, ¬ step.touches k) :
    act k tl none = none := by
  induction tl with
  | nil => rfl
  | cons x tl ih =>
    rw [act_cons, Step.actAll_untouched _ _ _ _ (htl x List.mem_cons_self), Option.bind_none]
    exact ih fun y hy => htl y (List.mem_cons_of_mem _ hy)

end Timeline

end RustyPotato
