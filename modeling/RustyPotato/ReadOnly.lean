import RustyPotato.TwoRuns

/-!
# Commands that are not logged

A command whose `is_mutation` is false runs outside the rewrite barrier and leaves nothing in the
log. All it may do to the two maps is to drop what has expired. The helper that drops it,
`delete_sync`, would take a live entry as well, so this rests on the test that each caller makes
first.
-/

namespace RustyPotato

namespace Slot

variable (c : Clock)

/-- Every read calls `delete_sync` under this test, and not otherwise. -/
theorem purge_eq_delete (t : Slot) :
    t.purge c = if ∃ e, t.entry = some e ∧ e.isExpired c = true then (t.delete c).2 else t := by
  obtain ⟨_ | e, i⟩ := t
  · simp [purge]
  · cases hx : e.isExpired c <;> simp [purge, delete, hx]

/-- Nothing has happened to the slot, or its entry had expired and is gone from both maps. -/
def OnlyPurged (t t' : Slot) : Prop :=
  t' = t ∨ t' = empty ∧ ∃ e, t.entry = some e ∧ e.isExpired c = true

theorem onlyPurged_purge (t : Slot) : t.OnlyPurged c (t.purge c) := by
  rw [purge_eq_delete, delete_eq_empty]
  split_ifs with h
  · exact .inr ⟨rfl, h⟩
  · exact .inl rfl

theorem OnlyPurged.trans (t t' t'' : Slot) (h : t.OnlyPurged c t') (h' : t'.OnlyPurged c t'') :
    t.OnlyPurged c t'' := by
  rcases h with rfl | ⟨rfl, hx⟩
  · exact h'
  · rcases h' with rfl | ⟨rfl, -⟩
    · exact .inr ⟨rfl, hx⟩
    · exact .inr ⟨rfl, hx⟩

end Slot

namespace Step

theorem run_purge (c : Clock) (key k : String) (s : MemoryStore) :
    (s.slot k).OnlyPurged c ((run c (.on key .purge) s).slot k) := by
  rw [run, MemoryStore.slot_put]
  split_ifs with h
  · subst h
    exact Slot.onlyPurged_purge c _
  · exact .inl rfl

/--
By induction on the steps of the plan, so over the argument lists of `EXISTS`, `MGET` and `HMGET`
too.
-/
theorem runAll_purges (c : Clock) (k : String) (steps : List Step)
    (h : ∀ step ∈ steps, ∃ key, step = .on key .purge) (s : MemoryStore) :
    (s.slot k).OnlyPurged c ((runAll c steps s).slot k) := by
  induction steps generalizing s with
  | nil => exact .inl rfl
  | cons step steps ih =>
    obtain ⟨key, rfl⟩ := h step List.mem_cons_self
    rw [runAll_cons]
    exact (run_purge c key k s).trans c _ _ _
      (ih (fun step hstep => h step (List.mem_cons_of_mem _ hstep)) _)

end Step

/-- What a command may do that nobody logs, in terms of the two maps. -/
structure MemoryStore.OnlyPurged (c : Clock) (s t : MemoryStore) : Prop where
  unexpired_kept : ∀ k e, s.data.lookup k = some e → e.isExpired c = false →
    t.data.lookup k = some e ∧ t.expirationIndex.lookup k = s.expirationIndex.lookup k
  no_entry_added : ∀ k e, t.data.lookup k = some e → s.data.lookup k = some e
  no_deadline_added : ∀ k d, t.expirationIndex.lookup k = some d →
    s.expirationIndex.lookup k = some d
  entry_removed : ∀ k e, s.data.lookup k = some e → t.data.lookup k = none → e.isExpired c = true
  deadline_removed : ∀ k d, s.expirationIndex.lookup k = some d →
    t.expirationIndex.lookup k = none → ∃ e, s.data.lookup k = some e ∧ e.isExpired c = true

theorem MemoryStore.onlyPurged_of_slots (c : Clock) (s t : MemoryStore)
    (h : ∀ k, (s.slot k).OnlyPurged c (t.slot k)) : s.OnlyPurged c t := by
  -- In terms of one key: both maps as before, or both without it and the entry expired.
  have hmaps : ∀ k, (t.data.lookup k = s.data.lookup k ∧
      t.expirationIndex.lookup k = s.expirationIndex.lookup k) ∨ (t.data.lookup k = none ∧
      t.expirationIndex.lookup k = none) ∧
        ∃ e, s.data.lookup k = some e ∧ e.isExpired c = true := by
    intro k
    rcases h k with hsame | ⟨hgone, hx⟩
    · exact .inl ⟨congrArg Slot.entry hsame, congrArg Slot.index hsame⟩
    · exact .inr ⟨⟨congrArg Slot.entry hgone, congrArg Slot.index hgone⟩, hx⟩
  constructor
  · intro k e he hlive
    rcases hmaps k with ⟨hdata, hindex⟩ | ⟨-, e', he', hx⟩
    · exact ⟨hdata.trans he, hindex⟩
    · rw [he, Option.some.injEq] at he'
      rw [he', hx] at hlive
      cases hlive
  · intro k e he
    rcases hmaps k with ⟨hdata, -⟩ | ⟨⟨hdata, -⟩, -⟩
    · rwa [← hdata]
    · rw [he] at hdata
      cases hdata
  · intro k d hd
    rcases hmaps k with ⟨-, hindex⟩ | ⟨⟨-, hindex⟩, -⟩
    · rwa [← hindex]
    · rw [hd] at hindex
      cases hindex
  · intro k e he hnone
    rcases hmaps k with ⟨hdata, -⟩ | ⟨-, e', he', hx⟩
    · rw [hdata, he] at hnone
      cases hnone
    · rw [he, Option.some.injEq] at he'
      rwa [he']
  · intro k d hd hnone
    rcases hmaps k with ⟨-, hindex⟩ | ⟨-, hx⟩
    · rw [hindex, hd] at hnone
      cases hnone
    · exact hx

theorem respond_onlyPurged (u : CaseMap) (env : Env) (cmd : ParsedCommand)
    (h : serverRegistry.isMutation u cmd.name = false) (s : MemoryStore) (k : String) :
    (s.slot k).OnlyPurged env.clock ((respond u env cmd s).2.slot k) := by
  refine respond_induction u env cmd s (fun t => (s.slot k).OnlyPurged env.clock (t.slot k))
    (.inl rfl) ?_
  intro steps hplan
  exact Step.runAll_purges env.clock k steps (serverRegistry.plan_readOnly u env cmd h steps hplan)
    s

/--
A command that is not a mutation leaves what has not expired, adds nothing and takes only what has
expired.
-/
theorem readOnly_only_purges (u : CaseMap) (env : Env) (cmd : ParsedCommand)
    (h : serverRegistry.isMutation u cmd.name = false) (s : MemoryStore) :
    s.OnlyPurged env.clock (respond u env cmd s).2 :=
  MemoryStore.onlyPurged_of_slots env.clock s _ (respond_onlyPurged u env cmd h s)

/-- A counter that expired at second 90, and a key without a deadline. -/
def halfExpired : MemoryStore :=
  (MemoryStore.new.put "n"
    ⟨some (.newWithExpiration Env.sample.clock (.integer incrAmount) 90000000000),
      some 90000000000⟩).put "k" ⟨some (.new Env.sample.clock (.string (utf8 "v"))), none⟩

/-- `MGET` for both of them at second 100. -/
theorem mget_only_purges :
    serverRegistry.isMutation asciiCaseMap "mget" = false ∧
      halfExpired.OnlyPurged Env.sample.clock
        (respond asciiCaseMap .sample ⟨"mget", [utf8 "n", utf8 "k"]⟩ halfExpired).2 :=
  ⟨by decide +kernel,
    readOnly_only_purges asciiCaseMap .sample ⟨"mget", [utf8 "n", utf8 "k"]⟩ (by decide +kernel) _⟩

end RustyPotato
