import RustyPotato.Concurrent
import RustyPotato.Representation

/-!
# What `SET` does

`set_with_options`, run alone: when it writes, what it reports of the entry before, and what the two
maps hold afterwards.
-/

namespace RustyPotato

namespace Slot

variable (c : Clock) (value : ValueType) (ttl : SetTtlOption) (existence : SetExistence) (t : Slot)

theorem setWithOptions_applied :
    (t.setWithOptions c value ttl existence).1.applied =
      allows existence (t.unexpired c).isSome := by
  obtain ⟨_ | e, i⟩ := t
  · cases existence <;> rfl
  · cases hx : e.isExpired c <;> cases existence <;>
      simp [Slot.setWithOptions, Slot.unexpired, Option.filter, hx, allows]

/-- The deadline that the entry is to have, from the one that is there. -/
theorem resolveTtl_keepTtl :
    t.resolveTtl c .keepTtl = (t.unexpired c).bind StoredValue.expiresAt := by
  obtain ⟨_ | e, i⟩ := t
  · rfl
  · cases hx : e.isExpired c <;> simp [Slot.resolveTtl, Slot.unexpired, Option.filter, hx]

theorem setWithOptions_skipped (h : (t.setWithOptions c value ttl existence).1.applied = false) :
    (t.setWithOptions c value ttl existence).2 = t := by
  rw [setWithOptions_applied] at h
  obtain ⟨_ | e, i⟩ := t
  · cases existence <;> first | rfl | cases h
  · cases hx : e.isExpired c <;> simp_all [Slot.setWithOptions, Slot.unexpired, Option.filter]

theorem setWithOptions_written (hindexed : t.Indexed)
    (h : (t.setWithOptions c value ttl existence).1.applied = true) :
    (t.setWithOptions c value ttl existence).2 =
      ⟨some (storedWith c value (t.resolveTtl c ttl)), t.resolveTtl c ttl⟩ := by
  rw [setWithOptions_applied] at h
  obtain ⟨_ | e, i⟩ := t
  · obtain rfl : i = none := hindexed
    cases existence with
    | onlyIfExists => cases h
    | always | onlyIfNotExists => simp [Slot.setWithOptions]
  · have hallows : allows existence (!e.isExpired c) = true := by
      cases hx : e.isExpired c <;> simpa [Slot.unexpired, Option.filter, hx] using h
    simp [Slot.setWithOptions, hallows]

/-- A deadline that is kept has not passed. -/
theorem le_of_resolveTtl_keepTtl (d : Int) (h : t.resolveTtl c .keepTtl = some d) : c.now ≤ d := by
  rw [resolveTtl_keepTtl, Option.bind_eq_some_iff] at h
  obtain ⟨e, he, hd⟩ := h
  have hx : e.isExpired c = false := by simpa using (Option.filter_eq_some_iff.mp he).2
  simp only [StoredValue.isExpired, hd, decide_eq_false_iff_not] at hx
  omega

end Slot

/--
`set_with_options` on a store whose maps agree. It applies as the existence option says, reports the
unexpired entry that was there, and changes nothing when it does not apply. Otherwise the key holds
the value with no deadline, the given one, or under `KEEPTTL` the one that the unexpired entry had.
-/
theorem set_with_options_spec (c : Clock) (s s' : MemoryStore) (hs : ∀ k, (s.slot k).Indexed)
    (key : String) (value : ValueType) (ttl : SetTtlOption) (existence : SetExistence)
    (r : SetOutcome) (hrun : (Concurrent.setWithOptions key value ttl existence).alone c s =
      (r, s')) :
    (r.applied = true ↔ existence = .always ∨
      (existence = .onlyIfNotExists ∧ (s.slot key).unexpired c = none) ∨
      (existence = .onlyIfExists ∧ (s.slot key).unexpired c ≠ none)) ∧
    r.previous = (s.slot key).unexpired c ∧
    (r.applied = false → s' = s) ∧
    (r.applied = true → ∃ e, s'.data.lookup key = some e ∧ e.value = value ∧
      (ttl = .none → e.expiresAt = none) ∧
      (∀ d, ttl = .at d → e.expiresAt = some d) ∧
      (ttl = .keepTtl → e.expiresAt = ((s.slot key).unexpired c).bind StoredValue.expiresAt ∧
        ∀ d, e.expiresAt = some d → c.now ≤ d) ∧
      s'.expirationIndex.lookup key = e.expiresAt ∧
      ∀ k ≠ key, s'.slot k = s.slot k) := by
  rw [Concurrent.setWithOptions_alone, MemoryStore.atKey, Prod.mk.injEq] at hrun
  obtain ⟨rfl, rfl⟩ := hrun
  refine ⟨?_, Slot.setWithOptions_previous .., fun hskipped => ?_, fun happlied => ?_⟩
  · rw [Slot.setWithOptions_applied]
    cases existence <;> simp [Slot.allows, Option.isSome_iff_ne_none]
  · rw [Slot.setWithOptions_skipped c value ttl existence _ hskipped, MemoryStore.put_slot]
  · have hwritten := Slot.setWithOptions_written c value ttl existence _ (hs key) happlied
    have hslot := MemoryStore.slot_put_self s key ((s.slot key).setWithOptions c value ttl
      existence).2
    rw [hwritten] at hslot ⊢
    have hexpires := Slot.expiresAt_storedWith c value ((s.slot key).resolveTtl c ttl)
    refine ⟨_, congrArg Slot.entry hslot, ?_, ?_, ?_, ?_, ?_, ?_⟩
    · cases (s.slot key).resolveTtl c ttl <;> rfl
    · rintro rfl
      exact hexpires
    · rintro d rfl
      exact hexpires
    · rintro rfl
      refine ⟨hexpires.trans (Slot.resolveTtl_keepTtl ..), fun d hd => ?_⟩
      rw [hexpires] at hd
      exact Slot.le_of_resolveTtl_keepTtl c _ d hd
    · rw [hexpires]
      exact congrArg Slot.index hslot
    · intro k hk
      rw [MemoryStore.slot_put, if_neg hk]

/-- `SET k 2 XX KEEPTTL` at second 100, on a key with a deadline at second 200. -/
theorem set_xx_keepttl :
    ∃ r s' e, (Concurrent.setWithOptions "k" (.string (utf8 "2")) .keepTtl .onlyIfExists).alone
      Env.sample.clock
        (MemoryStore.new.put "k"
          ⟨some (.newWithExpiration Env.sample.clock (.string (utf8 "1")) 200000000000),
            some 200000000000⟩) = (r, s') ∧
      r.applied = true ∧ s'.data.lookup "k" = some e ∧ e.expiresAt = some 200000000000 := by
  have hslot := MemoryStore.slot_put_self .new "k"
    ⟨some (.newWithExpiration Env.sample.clock (.string (utf8 "1")) 200000000000),
      some 200000000000⟩
  obtain ⟨happlied, -, -, hwritten⟩ := set_with_options_spec Env.sample.clock
    (MemoryStore.new.put "k"
      ⟨some (.newWithExpiration Env.sample.clock (.string (utf8 "1")) 200000000000),
        some 200000000000⟩) _
    (fun k => by rw [MemoryStore.slot_put]; split_ifs <;> rfl) "k"
    (.string (utf8 "2")) .keepTtl .onlyIfExists _ rfl
  rw [hslot] at happlied hwritten
  have happlied := happlied.mpr (.inr (.inr ⟨rfl, Option.some_ne_none _⟩))
  obtain ⟨e, he, -, -, -, hkept, -⟩ := hwritten happlied
  exact ⟨_, _, e, rfl, happlied, he, (hkept rfl).1⟩

end RustyPotato
