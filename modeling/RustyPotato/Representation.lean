import RustyPotato.Reachable

/-!
# The two maps agree

The store keeps every deadline twice, in the entry and in the index that the background task looks
at. Each operation writes them one after the other. After each of them the index holds the deadlines
of the entries and no others, so the task takes no key without a deadline.
-/

namespace RustyPotato

/-- What is called on a store: a command of a client, `persist`, or the background task. -/
inductive StoreCall where
  | command (env : Env) (cmd : ParsedCommand)
  | persist (c : Clock) (key : String)
  | cleanupExpired (c : Clock) (order : IterOrder Int)

/-- A command that panics has done so before its first write. -/
def StoreCall.run (u : CaseMap) (s : MemoryStore) : StoreCall → MemoryStore
  | command env cmd =>
    match (serverRegistry.execute u env cmd).run s with
    | some (_, s') => s'
    | none => s
  | persist c key => (s.atKey key (Slot.persist c)).2
  | cleanupExpired c order => (s.cleanupExpired c order).2

structure MemoryStore.WellFormed (s : MemoryStore) : Prop where
  index_iff : ∀ key d, s.expirationIndex.lookup key = some d ↔ ∃ e, s.data.lookup key = some e ∧
    e.expiresAt = some d
  hash_ne_empty : ∀ key e h, s.data.lookup key = some e → e.value = .hash h → h ≠ ∅
  no_list : ∀ key e l, s.data.lookup key = some e → e.value ≠ .list l

/-! ## One slot -/

/-- The index holds the deadline of the entry, and nothing without one. -/
def Slot.Indexed (s : Slot) : Prop := s.index = s.entry.bind StoredValue.expiresAt

namespace Slot

theorem indexed_empty : Slot.empty.Indexed := rfl

theorem Indexed.update (s : Slot) (hs : s.Indexed) (e e' : StoredValue) (he : s.entry = some e)
    (hd : e'.expiresAt = e.expiresAt) : Indexed { s with entry := some e' } := by
  unfold Indexed at hs ⊢
  simp only [hs, he, Option.bind_some, hd]

/-- A new entry has its deadline in the index. Under a vacant key the index was empty. -/
theorem Indexed.begin (c : Clock) (value : ValueType) (s : Slot) (hs : s.Indexed) (d i : Option Int)
    (hi : i = d ∨ s.entry = none ∧ i = d.or s.index) :
    Indexed ⟨some (storedWith c value d), i⟩ := by
  have hd : i = d := by
    rcases hi with hi | ⟨he, hi⟩
    · exact hi
    · unfold Indexed at hs
      rw [hi, hs, he, Option.bind_none, Option.or_none]
  unfold Indexed
  rw [Option.bind_some, expiresAt_storedWith, hd]

theorem Indexed.run (c : Clock) (op : Op) (s : Slot) (hs : s.Indexed) : (op.run c s).Indexed := by
  have hleaves := op.run_leaves c s
  generalize op.run c s = t at hleaves
  cases hleaves with
  | same => exact hs
  | emptied => exact indexed_empty
  | begun _ value d i _ hi => exact hs.begin c value s d i hi
  | retimed => rfl
  | counted increment n e he => exact hs.update s e _ he rfl
  | filled _ e h he _ => exact hs.update s e _ he rfl

theorem Indexed.persist (c : Clock) (s : Slot) (hs : s.Indexed) : (s.persist c).2.Indexed := by
  unfold Slot.persist
  split
  · split_ifs
    · rw [delete_eq_empty]
      exact indexed_empty
    · rfl
  · exact hs

theorem Storable.persist (c : Clock) (s : Slot) (hs : s.Storable) : (s.persist c).2.Storable := by
  unfold Slot.persist
  split
  · rename_i e he
    split_ifs
    · rw [delete_eq_empty]
      exact storable_empty
    · exact storable_some _ _ (hs e he)
  · exact hs

/-- What each call keeps of every slot. -/
structure WellFormed (s : Slot) : Prop where
  indexed : s.Indexed
  storable : s.Storable

theorem wellFormed_empty : Slot.empty.WellFormed := ⟨indexed_empty, storable_empty⟩

theorem WellFormed.run (c : Clock) (op : Op) (hop : op.Storable) (s : Slot) (hs : s.WellFormed) :
    (op.run c s).WellFormed :=
  ⟨hs.indexed.run c op s, hs.storable.run c op hop s⟩

end Slot

/-! ## Runs -/

theorem StoreCall.run_wellFormed (u : CaseMap) (call : StoreCall) (s : MemoryStore)
    (hs : ∀ key, (s.slot key).WellFormed)
    (key : String) : ((call.run u s).slot key).WellFormed := by
  cases call with
  | command env cmd =>
    rw [StoreCall.run]
    split
    · rename_i r s' hrun
      obtain ⟨steps, hplan, rfl⟩ := CommandRegistry.exists_plan u _ env cmd s s' r hrun
      exact Step.runAll_slots _ env.clock Slot.wellFormed_empty Op.Storable (Slot.WellFormed.run
        env.clock) steps (fun _ _ hmem => CommandRegistry.plan_storable u _ env cmd steps hplan _
        hmem) s hs key
    · exact hs key
  | persist c k =>
    rw [StoreCall.run, MemoryStore.slot_atKey]
    split_ifs
    · exact ⟨(hs k).indexed.persist c _, (hs k).storable.persist c _⟩
    · exact hs key
  | cleanupExpired c order => exact MemoryStore.deleteAll_slots _ Slot.wellFormed_empty s hs _ key

theorem Reachable.wellFormed (u : CaseMap) (s : MemoryStore) (h : Reachable u s) (key : String) :
    (s.slot key).WellFormed := by
  induction h generalizing key with
  | new => exact Slot.wellFormed_empty
  | command env cmd s s' r _ hrun ih =>
    have hkept := (StoreCall.command env cmd).run_wellFormed u s ih key
    rwa [StoreCall.run, hrun] at hkept
  | cleanup c order s _ ih => exact (StoreCall.cleanupExpired c order).run_wellFormed u s ih key

theorem MemoryStore.wellFormed_of_slots (s : MemoryStore) (hs : ∀ key, (s.slot key).WellFormed) :
    s.WellFormed where
  index_iff key d := by
    have hindex : s.expirationIndex.lookup key = (s.data.lookup key).bind StoredValue.expiresAt :=
      (hs key).indexed
    rw [hindex, Option.bind_eq_some_iff]
  hash_ne_empty key e h he hvalue := by
    have hstorable := (hs key).storable e he
    rw [hvalue] at hstorable
    rintro rfl
    exact hstorable rfl
  no_list key e l he hvalue := by
    have hstorable := (hs key).storable e he
    rw [hvalue] at hstorable
    exact hstorable

/--
Every store that calls one after the other build from an empty one is well formed, at whatever times
they are.
-/
theorem store_wellFormed (u : CaseMap) (calls : List StoreCall) :
    (calls.foldl (StoreCall.run u) .new).WellFormed := by
  refine MemoryStore.wellFormed_of_slots _ ?_
  have hstart : ∀ key, (MemoryStore.new.slot key).WellFormed := fun _ => Slot.wellFormed_empty
  generalize MemoryStore.new = s at hstart
  induction calls generalizing s with
  | nil => exact hstart
  | cons call calls ih => exact ih _ (call.run_wellFormed u s hstart)

end RustyPotato
