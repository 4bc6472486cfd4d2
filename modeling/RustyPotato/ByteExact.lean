import RustyPotato.SetThenExpire
import RustyPotato.TypeDiscipline

/-!
# Strings that are any bytes

A string value is any sequence of bytes, and `GET` and `MGET` answer with these bytes. `SET` with
`GET` shows the previous value as text, and bytes that are no text come back changed.
-/

namespace RustyPotato

open Cmd Parse SetGroup

/-! ## Commands that do not write under a key -/

/-- Among the steps of the command is one that writes under `k`. -/
def ParsedCommand.Writes (u : CaseMap) (env : Env) (k : String) (cmd : ParsedCommand) : Prop :=
  ∃ steps, serverRegistry.plan u env cmd = some steps ∧ ∃ step ∈ steps, step.touches k ∧
    ∀ key, step ≠ .on key .purge

/--
None of the commands writes under `k`, or one would and was refused: it left there what there was.
-/
def Unwritten (u : CaseMap) (k : String) : List (Env × ParsedCommand) → MemoryStore → Prop
  | [], _ => True
  | x :: xs, s =>
    (¬ x.2.Writes u x.1 k ∨ (respond u x.1 x.2 s).2.slot k = s.slot k) ∧
      Unwritten u k xs (respond u x.1 x.2 s).2

/-- The key holds these bytes, with no deadline. -/
def Slot.Holds (v : Bytes) (t : Slot) : Prop :=
  ∃ e, t.entry = some e ∧ e.value = .string v ∧ e.expiresAt = none

theorem Slot.Holds.unexpired (v : Bytes) (t : Slot) (h : t.Holds v) (c : Clock) :
    ∃ e, t.unexpired c = some e ∧ e.value = .string v := by
  obtain ⟨_, i⟩ := t
  obtain ⟨e, rfl, hv, hd⟩ := h
  exact ⟨e, Slot.unexpired_alive c e i (StoredValue.isExpired_of_none c e hd), hv⟩

theorem Slot.Holds.purge (v : Bytes) (t : Slot) (h : t.Holds v) (c : Clock) : t.purge c = t := by
  obtain ⟨_, i⟩ := t
  obtain ⟨e, rfl, -, hd⟩ := h
  simp [Slot.purge, StoredValue.isExpired_of_none c e hd]

theorem Step.run_holds (c : Clock) (k : String) (v : Bytes) (step : Step) (s : MemoryStore)
    (hs : (s.slot k).Holds v) (h : step.touches k → ∃ key, step = .on key .purge) :
    ((step.run c s).slot k).Holds v := by
  cases step with
  | flush => obtain ⟨key, hkey⟩ := h trivial; cases hkey
  | on key op =>
    rw [run, MemoryStore.slot_put]
    split_ifs with hk
    · obtain ⟨key', hpurge⟩ := h hk.symm
      cases hpurge
      subst hk
      rw [Op.run, hs.purge v _ c]
      exact hs
    · exact hs

theorem Step.runAll_holds (c : Clock) (k : String) (v : Bytes) (steps : List Step) (s : MemoryStore)
    (hs : (s.slot k).Holds v) (h : ∀ step ∈ steps, step.touches k → ∃ key, step = .on key .purge) :
    ((runAll c steps s).slot k).Holds v := by
  induction steps generalizing s with
  | nil => exact hs
  | cons step steps ih =>
    rw [runAll_cons]
    exact ih _ (run_holds c k v step s hs (h step List.mem_cons_self))
      fun step hstep => h step (List.mem_cons_of_mem _ hstep)

theorem respond_holds (u : CaseMap) (env : Env) (cmd : ParsedCommand) (k : String) (v : Bytes)
    (s : MemoryStore) (hs : (s.slot k).Holds v) (h : ¬ cmd.Writes u env k) :
    ((respond u env cmd s).2.slot k).Holds v := by
  refine respond_induction u env cmd s (fun t => (t.slot k).Holds v) hs fun steps hplan => ?_
  refine Step.runAll_holds env.clock k v steps s hs fun step hstep htouches => ?_
  by_contra hpurge
  exact h ⟨steps, hplan, step, hstep, htouches, fun key hkey => hpurge ⟨key, hkey⟩⟩

theorem not_writes_readOnly (u : CaseMap) (env : Env) (k : String) (cmd : ParsedCommand)
    (h : serverRegistry.isMutation u cmd.name = false) : ¬ cmd.Writes u env k := by
  rintro ⟨steps, hplan, step, hstep, -, hpurge⟩
  obtain ⟨key, rfl⟩ := serverRegistry.plan_readOnly u env cmd h steps hplan step hstep
  exact hpurge key rfl

/-- By induction on the commands: what is under the key holds the bytes all along. -/
theorem respondAll_holds (u : CaseMap) (k : String) (v : Bytes) (xs : List (Env × ParsedCommand))
    (s : MemoryStore) (hs : (s.slot k).Holds v) (h : Unwritten u k xs s) :
    ((respondAll u xs s).2.slot k).Holds v := by
  induction xs generalizing s with
  | nil => exact hs
  | cons x xs ih =>
    refine ih _ ?_ h.2
    rcases h.1 with hwrites | hsame
    · exact respond_holds u x.1 x.2 k v s hs hwrites
    · rw [hsame]
      exact hs

/-! ## The three ways to read -/

section
variable (u : CaseMap) (env : Env)

theorem set_holds (k : String) (v : Bytes) (s : MemoryStore) :
    ((respond u env ⟨"SET", [utf8 k, v]⟩ s).2.slot k).Holds v := by
  rw [respond_set u env k v [] .default .none rfl rfl, MemoryStore.slot_put_self]
  obtain ⟨_ | e, i⟩ := s.slot k
  · exact ⟨_, rfl, rfl, rfl⟩
  · exact ⟨_, rfl, rfl, rfl⟩

/-- A read by `MGET` purges what has expired, and no later read can tell. -/
theorem run_eachText_get (keys : List String) (out : List ResponseValue) (s : MemoryStore) :
    ∃ s', (eachText (fun key => Cmd.atKey key (Slot.get env.clock))
      (fun out found => out ++ [mgetSlot found])
        (keys.map utf8) out).run s =
      some (.ok (out ++ keys.map fun k => mgetSlot ((s.slot k).unexpired env.clock)), s') := by
  induction keys generalizing out s with
  | nil => exact ⟨s, by simp [eachText]; rfl⟩
  | cons key keys ih =>
    rw [run_eachText_cons _ _ key keys out _ s _ (run_atKey key _ s)]
    have hsame : ∀ k, ((s.put key ((s.slot key).purge env.clock)).slot k).unexpired env.clock =
        (s.slot k).unexpired env.clock := by
      intro k
      rw [MemoryStore.slot_put]
      split_ifs with hk
      · rw [hk]
        exact Slot.unexpired_purge env.clock _
      · rfl
    obtain ⟨s', hs'⟩ := ih (out ++ [mgetSlot ((s.slot key).get env.clock).1])
      (s.put key ((s.slot key).get env.clock).2)
    refine ⟨s', hs'.trans ?_⟩
    simp only [hsame, Slot.get, List.map_cons, List.append_assoc, List.singleton_append]

theorem respond_mget (keys : List String) (hne : keys ≠ []) (s : MemoryStore) :
    (respond u env ⟨"MGET", keys.map utf8⟩ s).1 =
      some (.ok (.array (keys.map fun k => mgetSlot ((s.slot k).unexpired env.clock)))) := by
  have hlength := List.length_pos_of_ne_nil hne
  obtain ⟨s', hs'⟩ := run_eachText_get env keys [] s
  have hrun : (mgetCommand env (keys.map utf8)).run s =
      some (.ok (.array (keys.map fun k => mgetSlot ((s.slot k).unexpired env.clock))), s') := by
    unfold mgetCommand
    rw [someArgs_texts "MGET" keys hne, lift_ok_bind, run_bind_ok _ _ s s' _ hs', List.nil_append]
    rfl
  exact congrArg Prod.fst (respond_registered u env .mget (by decide) _
    (arity_atLeast _ _ _ (by simp only [List.length_map]; omega)) s s' _ hrun)

theorem respond_set_get (k : String) (v w word : Bytes) (hword : Keyword "GET" word)
    (s : MemoryStore) (hs : (s.slot k).Holds v) :
    (respond u env ⟨"SET", [utf8 k, w, word]⟩ s).1 =
      some (.ok (.bulk (utf8 (fromUtf8Lossy v)))) := by
  have hopts : parseSetOptions [word] = .ok { get := true } :=
    parse_group _ [word] [] {} false false (.get word hword)
  have hrun := run_setCommand env k w [word] { get := true } .none hopts rfl s
  obtain ⟨e, he, hv⟩ := hs.unexpired v _ env.clock
  simp only [if_true, Slot.setWithOptions_previous, he, previousReply, hv] at hrun
  exact congrArg Prod.fst
    (respond_registered u env .set (by decide) _ (arity_atLeast _ _ _ (by simp)) s _ _ hrun)

end

theorem utf8_fromUtf8Lossy_iff (v : Bytes) : utf8 (fromUtf8Lossy v) = v ↔
    ∃ text, fromUtf8 v = some text := by
  constructor
  · intro h
    exact ⟨_, (fromUtf8_eq_some v _).mpr h⟩
  · rintro ⟨text, htext⟩
    obtain rfl := (fromUtf8_eq_some v text).mp htext
    rw [fromUtf8Lossy_utf8]

/--
After `SET k v`, and whatever commands that do not write under `k`, `GET k` and each place of `k` in
`MGET` have exactly the bytes `v`. So has the reply of `SET k w GET` exactly when they are UTF-8.
-/
theorem string_bytes_exact_iff (u : CaseMap) (env env' : Env) (s : MemoryStore) (k : String)
    (v w word : Bytes) (hword : Keyword "GET" word) (xs : List (Env × ParsedCommand))
    (hxs : Unwritten u k xs (respond u env ⟨"SET", [utf8 k, v]⟩ s).2) :
    let t := (respondAll u xs (respond u env ⟨"SET", [utf8 k, v]⟩ s).2).2
    (respond u env' ⟨"GET", [utf8 k]⟩ t).1 = some (.ok (.bulk v)) ∧
      (∀ keys : List String, keys ≠ [] → ∃ slots : List ResponseValue,
        (respond u env' ⟨"MGET", keys.map utf8⟩ t).1 = some (.ok (.array slots)) ∧
          ∀ i : Nat, keys[i]? = some k → slots[i]? = some (.bulk v)) ∧
      ((respond u env' ⟨"SET", [utf8 k, w, word]⟩ t).1 = some (.ok (.bulk v)) ↔
        ∃ text, fromUtf8 v = some text) := by
  intro t
  have ht : (t.slot k).Holds v := respondAll_holds u k v xs _ (set_holds u env k v s) hxs
  obtain ⟨e, he, hv⟩ := ht.unexpired v _ env'.clock
  refine ⟨?_, fun keys hne => ⟨_, respond_mget u env' keys hne t, fun i hi => ?_⟩, ?_⟩
  · rw [respond_get_bytes u env' k t e v he (by rw [hv]; rfl)]
  · rw [List.getElem?_map, hi, Option.map_some, he, mgetSlot, hv]
  · rw [respond_set_get u env' k v w word hword t ht, ← utf8_fromUtf8Lossy_iff]
    simp only [Option.some.injEq, Except.ok.injEq, ResponseValue.bulk,
      ResponseValue.bulkString.injEq]

/-- An `é`, and a `TYPE` in between. -/
theorem string_bytes_exact_text :
    (respond asciiCaseMap .sample ⟨"SET", [utf8 "k", utf8 "w", utf8 "get"]⟩
        (respondAll asciiCaseMap [(.sample, ⟨"TYPE", [utf8 "k"]⟩)]
          (respond asciiCaseMap .sample ⟨"SET", [utf8 "k", [0xC3, 0xA9]]⟩ .new).2).2).1 =
      some (.ok (.bulk [0xC3, 0xA9])) :=
  (string_bytes_exact_iff asciiCaseMap .sample .sample .new "k" [0xC3, 0xA9] (utf8 "w") (utf8 "get")
    ⟨"get", fromUtf8_utf8 _, by decide⟩ [(.sample, ⟨"TYPE", [utf8 "k"]⟩)]
    ⟨.inl (not_writes_readOnly _ _ _ _ (by decide +kernel)), trivial⟩).2.2.mpr ⟨"é",
    by decide +kernel⟩

/--
The byte `0xFF` is in no text. `SET` with `GET` answers with the replacement character instead.
-/
theorem set_get_changes_bytes :
    (respond asciiCaseMap .sample ⟨"GET", [utf8 "k"]⟩
        (respond asciiCaseMap .sample ⟨"SET", [utf8 "k", [0xFF]]⟩ .new).2).1 =
          some (.ok (.bulk [0xFF])) ∧
      (respond asciiCaseMap .sample ⟨"SET", [utf8 "k", utf8 "w", utf8 "GET"]⟩
        (respond asciiCaseMap .sample ⟨"SET", [utf8 "k", [0xFF]]⟩ .new).2).1 =
          some (.ok (.bulk [0xEF, 0xBF, 0xBD])) := by
  have hs := set_holds asciiCaseMap .sample "k" [0xFF] .new
  obtain ⟨e, he, hv⟩ := hs.unexpired _ _ Env.sample.clock
  constructor
  · rw [respond_get_bytes _ _ _ _ e [0xFF] he (by rw [hv]; rfl)]
  · have hlossy : utf8 (fromUtf8Lossy [0xFF]) = [0xEF, 0xBF, 0xBD] := by decide +kernel
    rw [respond_set_get _ _ "k" [0xFF] (utf8 "w") (utf8 "GET") ⟨"GET", fromUtf8_utf8 _, by decide⟩ _
      hs, hlossy]

end RustyPotato
