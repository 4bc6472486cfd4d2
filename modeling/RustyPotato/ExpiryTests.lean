import RustyPotato.Answers
import RustyPotato.Glob

/-!
# When a deadline has come

The store compares deadlines with the clock in several places, each with a test of its own. Past the
deadline and before it they agree. `KEYS` makes no test at all.
-/

namespace RustyPotato

open Cmd Parse

section
variable (u : CaseMap) (env : Env) (s : MemoryStore) (key : String)

/-! ## `KEYS` and `EXISTS` -/

theorem respond_exists_one :
    (respond u env ⟨"EXISTS", [utf8 key]⟩ s).1 =
      some (.ok (.integer (if ((s.slot key).unexpired env.clock).isSome then 1 else 0))) := by
  have hreply := respond_exists u env [key] (List.cons_ne_nil _ _) s
  simp only [List.map_cons, List.map_nil, List.countP_singleton, MemoryStore.live, Slot.live,
    Option.isSome_map] at hreply
  rw [hreply]
  cases ((s.slot key).unexpired env.clock).isSome <;> rfl

theorem respond_keys (pattern : String) :
    (respond u env ⟨"KEYS", [utf8 pattern]⟩ s).1 =
      some (.ok (.array (((s.keys env.keyOrder).filter (globMatch pattern)).map .text))) := by
  refine congrArg Prod.fst
    (respond_registered u env .keys (by decide) _ (arity_fixed _ _ _ rfl) s s _ ?_)
  change (keysCommand env [utf8 pattern]).run s = _
  unfold keysCommand
  rw [oneKey_key, lift_ok_bind]
  rfl

theorem text_injective : Function.Injective ResponseValue.text := by
  intro a b h
  have hbytes : utf8 a = utf8 b := by
    simpa [ResponseValue.text, ResponseValue.bulk] using h
  have htext := congrArg fromUtf8 hbytes
  rwa [fromUtf8_utf8, fromUtf8_utf8, Option.some.injEq] at htext

theorem exists_one_iff :
    (respond u env ⟨"EXISTS", [utf8 key]⟩ s).1 = some (.ok (.integer 1)) ↔
      ∃ e, s.data.lookup key = some e ∧ e.isExpired env.clock = false := by
  rw [respond_exists_one]
  have hunexpired : (s.slot key).unexpired env.clock = (s.data.lookup key).filter
      fun e => !e.isExpired env.clock := rfl
  rw [hunexpired]
  cases hdata : s.data.lookup key with
  | none => simp
  | some e => cases hx : e.isExpired env.clock <;> simp [Option.filter, hx]

/--
`KEYS` lists each matching key that `EXISTS` finds once, and no other, exactly when no matching
entry has expired.
-/
theorem keys_eq_exists_iff (pattern : String) :
    (∃ ks : List String,
      (respond u env ⟨"KEYS", [utf8 pattern]⟩ s).1 = some (.ok (.array (ks.map .text))) ∧ ks.Nodup ∧
        ∀ k, k ∈ ks ↔ GlobMatches (utf8 pattern) (utf8 k) ∧
          (respond u env ⟨"EXISTS", [utf8 k]⟩ s).1 = some (.ok (.integer 1))) ↔
      ∀ k e, s.data.lookup k = some e → GlobMatches (utf8 pattern) (utf8 k) →
        e.isExpired env.clock = false := by
  have hmem : ∀ k, k ∈ (s.keys env.keyOrder).filter (globMatch pattern) ↔
      (∃ e, s.data.lookup k = some e) ∧ GlobMatches (utf8 pattern) (utf8 k) := by
    intro k
    rw [List.mem_filter, MemoryStore.mem_keys_iff, globMatch, globMatchBytes_iff]
  simp only [respond_keys, exists_one_iff, Option.some.injEq, Except.ok.injEq,
    ResponseValue.array.injEq]
  constructor
  · rintro ⟨ks, hks, -, hiff⟩ k e he hmatch
    obtain rfl := text_injective.list_map hks
    obtain ⟨-, e', he', hx⟩ := (hiff k).mp ((hmem k).mpr ⟨⟨e, he⟩, hmatch⟩)
    rw [he, Option.some.injEq] at he'
    rwa [he']
  · intro hlive
    refine ⟨_, rfl, (s.nodup_keys env.keyOrder).filter _, fun k => (hmem k).trans ?_⟩
    constructor
    · rintro ⟨⟨e, he⟩, hmatch⟩
      exact ⟨hmatch, e, he, hlive k e he hmatch⟩
    · rintro ⟨hmatch, e, he, -⟩
      exact ⟨⟨e, he⟩, hmatch⟩

end

/-- The counter of `sampleStore` expired at second 200, and nobody has asked for it since. -/
theorem keys_lists_expired : Reachable asciiCaseMap sampleStore ∧
    (∃ ks : List String,
      (respond asciiCaseMap (.atClock (.ofSecs 201 (by decide)))
        ⟨"KEYS", [utf8 "*"]⟩ sampleStore).1 = some (.ok (.array (ks.map .text))) ∧ "n" ∈ ks) ∧
    (respond asciiCaseMap (.atClock (.ofSecs 201 (by decide)))
      ⟨"EXISTS", [utf8 "n"]⟩ sampleStore).1 = some (.ok (.integer 0)) := by
  refine ⟨handleConnection_reachable .., ⟨_, respond_keys .., by decide +kernel⟩, ?_⟩
  have hexpired : ((sampleStore.slot "n").unexpired (.ofSecs 201 (by decide))).isSome = false := by
    decide +kernel
  rw [respond_exists_one, Env.atClock, hexpired]
  rfl

/-! ## The tests of one deadline -/

namespace Slot

variable (c : Clock)

/-- There is no entry, or its deadline has come. -/
def Ended (t : Slot) : Prop := ∀ e, t.entry = some e → ∃ d, e.expiresAt = some d ∧ d ≤ c.now

theorem unexpired_eq_none_iff (t : Slot) :
    t.unexpired c = none ↔ ∀ e, t.entry = some e → ∃ d, e.expiresAt = some d ∧ d < c.now := by
  obtain ⟨_ | e, i⟩ := t
  · simp
  · simp only [unexpired, Option.filter_some, Option.some.injEq, forall_eq', StoredValue.isExpired]
    cases e.expiresAt <;> simp

/-- Missing and ended come to the same unless the deadline is the very instant of the reading. -/
theorem unexpired_iff_ended (t : Slot) :
    (t.unexpired c = none ↔ t.Ended c) ↔ ∀ e, t.entry = some e → e.expiresAt ≠ some c.now := by
  rw [unexpired_eq_none_iff]
  constructor
  · intro hiff e he hnow
    have hended : t.Ended c := by
      intro e' he'
      obtain rfl := Option.some.inj (he.symm.trans he')
      exact ⟨c.now, hnow, le_refl _⟩
    obtain ⟨d, hd, hlt⟩ := hiff.mpr hended e he
    rw [hnow, Option.some.injEq] at hd
    omega
  · intro hne
    refine forall₂_congr fun e he => ?_
    constructor
    · rintro ⟨d, hd, hlt⟩
      exact ⟨d, hd, le_of_lt hlt⟩
    · rintro ⟨d, hd, hle⟩
      have hd' : d ≠ c.now := by
        rintro rfl
        exact hne e he hd
      exact ⟨d, hd, lt_of_le_of_ne hle hd'⟩

theorem ended_vacant (i : Option Int) : Ended c ⟨none, i⟩ := by
  rintro e ⟨⟩

theorem ended_some_iff (e : StoredValue) (i : Option Int) :
    Ended c ⟨some e, i⟩ ↔ ∃ d, e.expiresAt = some d ∧ d ≤ c.now := by
  simp [Ended]

theorem ended_of_isExpired (e : StoredValue) (i : Option Int) (hx : e.isExpired c = true) :
    Ended c ⟨some e, i⟩ := by
  rw [ended_some_iff]
  unfold StoredValue.isExpired at hx
  cases hd : e.expiresAt with
  | none => simp [hd] at hx
  | some d =>
    simp only [hd, decide_eq_true_eq] at hx
    exact ⟨d, rfl, le_of_lt hx⟩

theorem left_eq_iff (deadline : Option Int) (units : Int → Int)
    (hunits : ∀ d, c.now < d → 0 ≤ units d) :
    (deadline.map fun d => if c.now < d then units d else -2).getD (-1) = -2 ↔
      ∃ d, deadline = some d ∧ d ≤ c.now := by
  cases deadline with
  | none => simp
  | some d =>
    simp only [Option.map_some, Option.getD_some, Option.some.injEq, exists_eq_left']
    split_ifs with hlt
    · have := hunits d hlt
      omega
    · simp only [true_iff]
      omega

/--
A reader that tells `-2` for what is missing and what is left of the deadline of what is live.
-/
theorem left_eq_iff_ended (units : Int → Int) (hunits : ∀ d, c.now < d → 0 ≤ units d) (t : Slot)
    (left : Int) (hmissing : t.unexpired c = none → left = -2)
    (hlive : ∀ e, t.unexpired c = some e →
      left = (e.expiresAt.map fun d => if c.now < d then units d else -2).getD (-1)) : left = -2 ↔
        t.Ended c := by
  obtain ⟨_ | e, i⟩ := t
  · exact iff_of_true (hmissing rfl) (ended_vacant c i)
  · cases hx : e.isExpired c with
    | true =>
      exact iff_of_true (hmissing (unexpired_expired c e i hx)) (ended_of_isExpired c e i hx)
    | false =>
      rw [hlive e (unexpired_alive c e i hx), ended_some_iff]
      exact left_eq_iff c e.expiresAt units hunits

theorem ttl_eq_iff (t : Slot) : (t.ttl c).1 = -2 ↔ t.Ended c := by
  refine left_eq_iff_ended c (fun d => (d - c.now) / nanosPerSec) (fun d hd => ?_) t _ (fun h => ?_)
    fun e h => ?_
  · exact Int.ediv_nonneg (by omega) (by decide)
  · simp only [ttl, h]
  · simp only [ttl, h]
    rfl

theorem pttl_eq_iff (t : Slot) : (t.pttl c).1 = -2 ↔ t.Ended c := by
  refine left_eq_iff_ended c (fun d => min ((d - c.now) / nanosPerMilli) (2 ^ 63 - 1))
    (fun d hd => ?_) t _ (fun h => ?_) fun e h => ?_
  · exact le_min (Int.ediv_nonneg (by omega) (by decide)) (by decide)
  · simp only [pttl, h]
  · simp only [pttl, h]
    rfl

end Slot

namespace MemoryStore

theorem cleanupExpired_eq_none_iff (c : Clock) (order : IterOrder Int) (s : MemoryStore)
    (k : String) (hs : (s.slot k).Indexed) :
    (s.data.lookup k = none ∨ (s.cleanupExpired c order).2.data.lookup k = none) ↔
      (s.slot k).Ended c := by
  have hafter := congrArg Slot.entry (slot_cleanupExpired c order s k)
  change (s.cleanupExpired c order).2.data.lookup k = _ at hafter
  rw [hafter]
  change (s.slot k).entry = none ∨ _ ↔ _
  generalize s.slot k = t at hs
  obtain ⟨entry, i⟩ := t
  obtain rfl : i = entry.bind StoredValue.expiresAt := hs
  cases entry with
  | none => exact iff_of_true (.inl rfl) (Slot.ended_vacant c _)
  | some e =>
    rw [Slot.ended_some_iff]
    split_ifs with hpast
    · exact iff_of_true (.inr rfl) hpast
    · exact iff_of_false (by simp) hpast

theorem mem_snapshot_iff (c : Clock) (order : IterOrder StoredValue) (s : MemoryStore)
    (k : String) : k ∈ (s.snapshot c order).map Prod.fst ↔ (s.slot k).unexpired c ≠ none := by
  simp only [snapshot, List.mem_map, List.mem_filter, Prod.exists, order.mem_iff, exists_and_right,
    exists_eq_right, Slot.unexpired, slot]
  cases s.data.lookup k with
  | none => simp
  | some e => simp [Option.filter]

end MemoryStore

section
variable (u : CaseMap) (env : Env) (s : MemoryStore) (key : String)

theorem respond_told (command : Command) (h : command ∈ serverRegistry.commands)
    (harity : command.arity = .fixed 2) (f : Slot → Int × Slot)
    (hexecute : command.execute env [utf8 key] = do
      let key ← lift (oneKey command.name [utf8 key])
      let n ← Cmd.atKey key f
      return .integer n) :
    (respond u env ⟨command.name, [utf8 key]⟩ s).1 = some (.ok (.integer (f (s.slot key)).1)) := by
  refine congrArg Prod.fst
    (respond_registered u env command h _ ?_ s (s.put key (f (s.slot key)).2) _ ?_)
  · rw [harity]
    exact arity_fixed _ _ _ rfl
  · rw [hexecute, oneKey_key, lift_ok_bind, run_bind_ok _ _ s _ _ (run_atKey key _ s)]
    rfl

theorem respond_ttl :
    (respond u env ⟨"TTL", [utf8 key]⟩ s).1 =
      some (.ok (.integer ((s.slot key).ttl env.clock).1)) :=
  respond_told u env s key .ttl (by decide) rfl (Slot.ttl env.clock) rfl

theorem respond_pttl :
    (respond u env ⟨"PTTL", [utf8 key]⟩ s).1 =
      some (.ok (.integer ((s.slot key).pttl env.clock).1)) :=
  respond_told u env s key .pttl (by decide) rfl (Slot.pttl env.clock) rfl

/-- The five tests agree on a key exactly when its deadline is not the instant of the reading. -/
theorem expiry_tests_agree_iff (order : IterOrder Int) (hs : ∀ k, (s.slot k).Indexed) :
    List.TFAE [
        (respond u env ⟨"EXISTS", [utf8 key]⟩ s).1 = some (.ok (.integer 0)),
        (respond u env ⟨"TTL", [utf8 key]⟩ s).1 = some (.ok (.integer (-2))),
        (respond u env ⟨"PTTL", [utf8 key]⟩ s).1 = some (.ok (.integer (-2))),
        key ∉ (s.snapshot env.clock env.keyOrder).map Prod.fst,
        s.data.lookup key = none ∨ (s.cleanupExpired env.clock order).2.data.lookup key = none] ↔
      ∀ e, s.data.lookup key = some e → e.expiresAt ≠ some env.clock.now := by
  have hexists : (respond u env ⟨"EXISTS", [utf8 key]⟩ s).1 = some (.ok (.integer 0)) ↔
      (s.slot key).unexpired env.clock = none := by
    rw [respond_exists_one]
    cases (s.slot key).unexpired env.clock <;> simp
  have httl : (respond u env ⟨"TTL", [utf8 key]⟩ s).1 = some (.ok (.integer (-2))) ↔
      (s.slot key).Ended env.clock := by
    rw [respond_ttl, ← Slot.ttl_eq_iff]
    simp
  have hpttl : (respond u env ⟨"PTTL", [utf8 key]⟩ s).1 = some (.ok (.integer (-2))) ↔
      (s.slot key).Ended env.clock := by
    rw [respond_pttl, ← Slot.pttl_eq_iff]
    simp
  have hsnapshot : key ∉ (s.snapshot env.clock env.keyOrder).map Prod.fst ↔
      (s.slot key).unexpired env.clock = none := by
    rw [MemoryStore.mem_snapshot_iff, not_not]
  have hcleanup := MemoryStore.cleanupExpired_eq_none_iff env.clock order s key (hs key)
  change _ ↔ ∀ e, (s.slot key).entry = some e → _
  rw [← Slot.unexpired_iff_ended, hexists, httl, hpttl, hsnapshot, hcleanup]
  constructor
  · intro htfae
    exact htfae.out 0 1
  · intro hiff
    simp only [hiff, List.tfae_cons_self, List.tfae_singleton]

end

theorem sampleStore_indexed (k : String) : (sampleStore.slot k).Indexed :=
  ((handleConnection_reachable asciiCaseMap _ _ _).wellFormed asciiCaseMap sampleStore k).indexed

/-- A second before the deadline of the counter the tests agree. -/
theorem expiry_tests_agree_before :
    (∀ e, sampleStore.data.lookup "n" = some e →
      e.expiresAt ≠ some (Clock.ofSecs 199 (by decide)).now) ∧
      ((respond asciiCaseMap (.atClock (.ofSecs 199 (by decide)))
        ⟨"EXISTS", [utf8 "n"]⟩ sampleStore).1 =
          some (.ok (.integer 0)) ↔
        (respond asciiCaseMap (.atClock (.ofSecs 199 (by decide)))
          ⟨"TTL", [utf8 "n"]⟩ sampleStore).1 =
          some (.ok (.integer (-2)))) := by
  have hbefore : ∀ e, sampleStore.data.lookup "n" = some e →
      e.expiresAt ≠ some (Clock.ofSecs 199 (by decide)).now := by
    have hdata : (sampleStore.data.lookup "n").map StoredValue.expiresAt =
        some (some 200000000000) := by decide +kernel
    intro e he
    rw [he, Option.map_some, Option.some.injEq] at hdata
    rw [hdata]
    decide
  exact ⟨hbefore, ((expiry_tests_agree_iff asciiCaseMap (.atClock (.ofSecs 199 (by decide)))
    sampleStore "n" (.sorted _) sampleStore_indexed).mpr hbefore).out 0 1⟩

/-- At the deadline itself the key exists and has no time left. -/
theorem expiry_tests_differ_at_deadline : (∀ k, (sampleStore.slot k).Indexed) ∧
    (respond asciiCaseMap (.atClock (.ofSecs 200 (by decide)))
      ⟨"EXISTS", [utf8 "n"]⟩ sampleStore).1 =
      some (.ok (.integer 1)) ∧
    (respond asciiCaseMap (.atClock (.ofSecs 200 (by decide))) ⟨"TTL", [utf8 "n"]⟩ sampleStore).1 =
      some (.ok (.integer (-2))) ∧
    "n" ∈ (sampleStore.snapshot (.ofSecs 200 (by decide)) (.sorted _)).map Prod.fst ∧
    (sampleStore.cleanupExpired (.ofSecs 200 (by decide)) (.sorted _)).2.data.lookup "n" =
      none := by
  have hlive : ((sampleStore.slot "n").unexpired (.ofSecs 200 (by decide))).isSome = true := by
    decide +kernel
  have hleft : ((sampleStore.slot "n").ttl (.ofSecs 200 (by decide))).1 = -2 := by decide +kernel
  refine ⟨sampleStore_indexed, ?_, ?_, by decide +kernel, by decide +kernel⟩
  · rw [respond_exists_one, Env.atClock, hlive]
    rfl
  · rw [respond_ttl, Env.atClock, hleft]

end RustyPotato
