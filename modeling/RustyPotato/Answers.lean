import RustyPotato.Representation
import RustyPotato.Snapshot
import RustyPotato.TwoRuns

/-!
# What the server answers

The answers to commands as a client sends them: a registered name with as many arguments as it
takes, all of them text.
-/

namespace RustyPotato

open Cmd Parse

theorem toUppercase_name (u : CaseMap) (command : Command) (h : command ∈ serverRegistry.commands) :
    u.toUppercase command.name = command.name := by
  have hascii : ∀ command ∈ serverRegistry.commands,
      (command.name.toList.all fun ch => decide (ch.toNat < 128)) = true ∧
        toAsciiUppercase command.name = command.name := by
    decide
  exact toUppercase_eq u _ (hascii command h).1 (hascii command h).2

theorem execute_registered (u : CaseMap) (env : Env) (command : Command)
    (h : command ∈ serverRegistry.commands) (args : List Bytes)
    (harity : ParsedCommand.validateArity ⟨command.name, args⟩ command.arity = .ok ()) :
    serverRegistry.execute u env ⟨command.name, args⟩ = command.execute env args := by
  have hfind : serverRegistry.find u command.name = some command :=
    (CommandRegistry.find_eq_some u serverRegistry (by decide) _ _).mpr
      ⟨h, (toUppercase_name u command h).symm⟩
  unfold CommandRegistry.execute
  rw [hfind]
  simp only [harity]

theorem respond_registered (u : CaseMap) (env : Env) (command : Command)
    (h : command ∈ serverRegistry.commands) (args : List Bytes)
    (harity : ParsedCommand.validateArity ⟨command.name, args⟩ command.arity = .ok ())
    (s s' : MemoryStore) (r : Except String ResponseValue)
    (hrun : (command.execute env args).run s = some (r, s')) :
    respond u env ⟨command.name, args⟩ s = (some r, s') := by
  unfold respond
  rw [execute_registered u env command h args harity, hrun]

theorem arity_fixed (name : String) (args : List Bytes) (n : Nat) (h : args.length + 1 = n) :
    ParsedCommand.validateArity ⟨name, args⟩ (.fixed n) = .ok () := by
  simp [ParsedCommand.validateArity, ParsedCommand.totalArgs, h]

theorem arity_atLeast (name : String) (args : List Bytes) (n : Nat) (h : n ≤ args.length + 1) :
    ParsedCommand.validateArity ⟨name, args⟩ (.atLeast n) = .ok () := by
  simp [ParsedCommand.validateArity, ParsedCommand.totalArgs, h]

theorem oneKey_key (name key : String) : oneKey name [utf8 key] = some (.ok key) :=
  argStr_key key []

theorem someArgs_texts (name : String) (texts : List String) (h : texts ≠ []) :
    someArgs name (texts.map utf8) = some (.ok ()) := by
  unfold someArgs
  rw [if_neg (by simpa using h)]
  rfl

theorem run_bind_ok {α β : Type} (m : Cmd α) (f : α → Cmd β) (s s' : MemoryStore) (a : α)
    (h : m.run s = some (.ok a, s')) : (m >>= f).run s = (f a).run s' := by
  rw [run_bind, h]

theorem run_eachText_cons {α γ : Type} (m : String → Cmd α) (g : γ → α → γ) (text : String)
    (texts : List String) (acc : γ) (a : α) (s s' : MemoryStore)
    (h : (m text).run s = some (.ok a, s')) :
    (eachText m g ((text :: texts).map utf8) acc).run s =
      (eachText m g (texts.map utf8) (g acc a)).run s' := by
  unfold eachText
  rw [List.map_cons, List.foldlM_cons, argText_ok _ text (fromUtf8_utf8 text), lift_ok_bind]
  refine run_bind_ok _ _ s s' (g acc a) ?_
  rw [run_bind_ok _ _ s s' a h]
  rfl

theorem run_atKey {α : Type} (key : String) (f : Slot → α × Slot) (s : MemoryStore) :
    (Cmd.atKey key f).run s = some (.ok (f (s.slot key)).1, s.put key (f (s.slot key)).2) := rfl

theorem run_tryAtKey {α : Type} (key : String) (f : Slot → Except RustyPotatoError α × Slot)
    (s : MemoryStore) (a : α) (t : Slot) (h : f (s.slot key) = (.ok a, t)) :
    (tryAtKey key f).run s = some (.ok a, s.put key t) := by
  simp only [tryAtKey, MemoryStore.atKey, h]
  rfl

/-! ## `EXISTS` -/

/-- One for each place in the list that names a live key. -/
theorem run_eachText_existsKey (c : Clock) (keys : List String) (n : Int) (s : MemoryStore) :
    ∃ s', (eachText (fun key => Cmd.atKey key (Slot.existsKey c))
      (fun n found => if found then n + 1 else n)
        (keys.map utf8) n).run s =
      some (.ok (n + keys.countP fun k => (s.live c k).isSome), s') := by
  induction keys generalizing n s with
  | nil => exact ⟨s, by simp [eachText]; rfl⟩
  | cons key keys ih =>
    rw [run_eachText_cons _ _ key keys n _ s _ (run_atKey key _ s)]
    have hlive : ∀ k, (s.put key ((s.slot key).existsKey c).2).live c k = s.live c k := by
      intro k
      unfold MemoryStore.live
      rw [MemoryStore.slot_put]
      split_ifs with hk
      · rw [hk]
        simp only [Slot.existsKey, Slot.live, Slot.unexpired_purge]
      · rfl
    obtain ⟨s', hs'⟩ := ih (if ((s.slot key).existsKey c).1 then n + 1 else n)
      (s.put key ((s.slot key).existsKey c).2)
    refine ⟨s', hs'.trans ?_⟩
    simp only [hlive]
    have hfirst : ((s.slot key).existsKey c).1 = (s.live c key).isSome := by
      simp [Slot.existsKey, MemoryStore.live, Slot.live]
    rw [List.countP_cons, hfirst]
    cases (s.live c key).isSome <;> simp [Int.add_assoc, Int.add_comm]

theorem respond_exists (u : CaseMap) (env : Env) (keys : List String) (hne : keys ≠ [])
    (s : MemoryStore) :
    (respond u env ⟨"EXISTS", keys.map utf8⟩ s).1 =
      some (.ok (.integer (keys.countP fun k => (s.live env.clock k).isSome))) := by
  have hlength := List.length_pos_of_ne_nil hne
  obtain ⟨s', hs'⟩ := run_eachText_existsKey env.clock keys 0 s
  have hrun : (existsCommand env (keys.map utf8)).run s =
      some (.ok (.integer (keys.countP fun k => (s.live env.clock k).isSome)), s') := by
    unfold existsCommand
    rw [someArgs_texts "EXISTS" keys hne, lift_ok_bind, run_bind_ok _ _ s s' _ hs', Int.zero_add]
    rfl
  exact congrArg Prod.fst (respond_registered u env .exists_ (by decide) _
    (arity_atLeast _ _ _ (by simp only [List.length_map]; omega)) s s' _ hrun)

end RustyPotato
