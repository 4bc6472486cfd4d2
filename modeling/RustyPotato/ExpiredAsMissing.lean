import RustyPotato.TwoRuns

/-!
# An expired key is like a missing one

Two runs of the same commands, on a store and on the one without some of its expired entries, give
the same replies and show the same live keys.
-/

namespace RustyPotato

open Cmd

/-- The same unexpired entries under every key. -/
def SameView (c : Clock) (s s' : MemoryStore) : Prop :=
  ∀ k, (s.slot k).unexpired c = (s'.slot k).unexpired c

theorem SameView.live (c : Clock) (s s' : MemoryStore) (h : SameView c s s') :
    s.live c = s'.live c := by
  funext k
  unfold MemoryStore.live Slot.live
  rw [h k]

theorem Slot.unexpired_later (a b : Clock) (h : a.le b) (t : Slot) :
    t.unexpired b = (t.unexpired a).filter fun e => !e.isExpired b := by
  obtain ⟨_ | e, i⟩ := t
  · rfl
  · cases ha : e.isExpired a with
    | true =>
      have hb : e.isExpired b = true := Entry.isExpired_mono a b h e.toEntry ha
      rw [unexpired_expired a e i ha, unexpired_expired b e i hb]
      rfl
    | false =>
      rw [unexpired_alive a e i ha]
      rfl

/-- Time takes the same entries from both. -/
theorem SameView.later (a b : Clock) (hle : a.le b) (s s' : MemoryStore) (h : SameView a s s') :
    SameView b s s' := by
  intro k
  rw [Slot.unexpired_later a b hle, Slot.unexpired_later a b hle, h k]

theorem keyRel_sameView (c : Clock) : KeyRel c (fun _ => True) (SameView c) where
  atKey := by
    intro key _ α f hf s s' hs
    obtain ⟨hresult, hslot⟩ := hf (s.slot key) (s'.slot key) (hs key)
    refine ⟨hresult, fun k => ?_⟩
    rw [MemoryStore.slot_put, MemoryStore.slot_put]
    split_ifs
    · exact hslot
    · exact hs k

theorem sameReply_eq (u : CaseMap) (cmd : ParsedCommand) (r r' : ResponseValue)
    (h : cmd.SameReply u Eq r r') : r = r' := by
  unfold ParsedCommand.SameReply at h
  split at h
  · rename_i command _
    cases command with
    | hgetall | hkeys | hvals =>
      obtain ⟨ps, ps', rfl, rfl, rfl⟩ := h
      rfl
    | _ => exact h
  · exact h

theorem respond_sameView (u : CaseMap) (env : Env) (cmd : ParsedCommand) (hnames : cmd.NamesKeys u)
    (s s' : MemoryStore) (h : SameView env.clock s s') :
    (respond u env cmd s).1 = (respond u env cmd s').1 ∧
      SameView env.clock (respond u env cmd s).2 (respond u env cmd s').2 := by
  have hrun := serverRegistry_relates u (keyRel_sameView env.clock) env env rfl rfl cmd hnames
    (fun _ _ => trivial) Eq (fun _ => rfl) (fun _ _ hps => congrArg List.length hps) s s' h
  unfold respond
  generalize (serverRegistry.execute u env cmd).run s = x,
    (serverRegistry.execute u env cmd).run s' = x' at hrun
  cases hrun with
  | panic => exact ⟨rfl, h⟩
  | ok r r' t t' hr ht => exact ⟨by rw [sameReply_eq u cmd r r' hr], ht⟩
  | error e t t' ht => exact ⟨rfl, ht⟩

/-! ## One command after the other -/

/-- The answers to all of the commands, and the store afterwards. -/
def respondAll (u : CaseMap) : List (Env × ParsedCommand) → MemoryStore →
    List (Option (Except String ResponseValue)) × MemoryStore
  | [], s => ([], s)
  | x :: xs, s =>
    ((respond u x.1 x.2 s).1 :: (respondAll u xs (respond u x.1 x.2 s).2).1,
      (respondAll u xs (respond u x.1 x.2 s).2).2)

/--
The clock of each command was read no earlier than the one before, and the last is that of the
second argument.
-/
def Forward (a b : Clock) : List (Env × ParsedCommand) → Prop
  | [] => a.le b
  | x :: xs => a.le x.1.clock ∧ Forward x.1.clock b xs

instance decidableForward (a b : Clock) : (xs : List (Env × ParsedCommand)) →
    Decidable (Forward a b xs)
  | [] => inferInstanceAs (Decidable (a.le b))
  | x :: xs =>
    have := decidableForward x.1.clock b xs
    inferInstanceAs (Decidable (_ ∧ _))

theorem respondAll_sameView (u : CaseMap) (a b : Clock) (xs : List (Env × ParsedCommand))
    (hclocks : Forward a b xs) (hnames : ∀ x ∈ xs, x.2.NamesKeys u) (s s' : MemoryStore)
    (h : SameView a s s') :
    (respondAll u xs s).1 = (respondAll u xs s').1 ∧
      SameView b (respondAll u xs s).2 (respondAll u xs s').2 := by
  induction xs generalizing a s s' with
  | nil => exact ⟨rfl, h.later a b hclocks s s'⟩
  | cons x xs ih =>
    obtain ⟨hreply, hview⟩ :=
      respond_sameView u x.1 x.2 (hnames x List.mem_cons_self) s s'
        (h.later a x.1.clock hclocks.1 s s')
    obtain ⟨hreplies, hviews⟩ :=
      ih x.1.clock hclocks.2 (fun y hy => hnames y (List.mem_cons_of_mem _ hy)) _ _ hview
    refine ⟨?_, hviews⟩
    rw [respondAll, respondAll, hreply, hreplies]

/--
The second store is the first without the entries under these keys, whatever its index still holds
there.
-/
def Without (keys : Set String) (s s' : MemoryStore) : Prop :=
  ∀ k, (k ∈ keys → (s'.slot k).entry = none) ∧ (k ∉ keys → s'.slot k = s.slot k)

theorem Without.sameView (c : Clock) (keys : Set String) (s s' : MemoryStore)
    (h : Without keys s s') (hexpired : ∀ k ∈ keys, ∃ e, (s.slot k).entry = some e ∧
      e.isExpired c = true) : SameView c s s' := by
  intro k
  by_cases hk : k ∈ keys
  · obtain ⟨e, he, hx⟩ := hexpired k hk
    simp [Slot.unexpired, he, (h k).1 hk, Option.filter, hx]
  · rw [(h k).2 hk]

/--
Commands that name their keys cannot tell an expired entry from none, now or at any later time.
-/
theorem expired_like_missing (u : CaseMap) (a b : Clock) (s s' : MemoryStore) (keys : Set String)
    (hexpired : ∀ k ∈ keys, ∃ e, (s.slot k).entry = some e ∧ e.isExpired a = true)
    (hs' : Without keys s s') (xs : List (Env × ParsedCommand)) (hnames : ∀ x ∈ xs, x.2.NamesKeys u)
    (hclocks : Forward a b xs) :
    (respondAll u xs s).1 = (respondAll u xs s').1 ∧
      (respondAll u xs s).2.live b = (respondAll u xs s').2.live b := by
  obtain ⟨hreplies, hview⟩ :=
    respondAll_sameView u a b xs hclocks hnames s s' (hs'.sameView a keys s s' hexpired)
  exact ⟨hreplies, hview.live b _ _⟩

/-- A counter whose deadline passed a hundred seconds ago. -/
def staleCounter : MemoryStore :=
  MemoryStore.new.put "hits" ⟨some (.newWithExpiration Env.sample.clock (.string (utf8 "41")) 0),
    some 0⟩

theorem staleCounter_like_missing :
    (respondAll asciiCaseMap [(.sample, ⟨"INCR", [utf8 "hits"]⟩), (.sample, ⟨"TTL", [utf8 "hits"]⟩)]
      staleCounter).1 =
        [some (.ok (.integer 1)), some (.ok (.integer (-1)))] ∧
      (respondAll asciiCaseMap [(.sample, ⟨"INCR", [utf8 "hits"]⟩),
        (.sample, ⟨"TTL", [utf8 "hits"]⟩)] staleCounter).2.live
          Env.sample.clock "hits" = some ⟨.integer incrAmount, none⟩ := by
  have h := expired_like_missing asciiCaseMap Env.sample.clock Env.sample.clock staleCounter .new
    {"hits"} (by
      rintro k rfl
      exact ⟨_, congrArg Slot.entry (MemoryStore.slot_put_self ..), rfl⟩)
    (by
      refine fun k => ⟨fun _ => rfl, fun hk => ?_⟩
      rw [staleCounter, MemoryStore.slot_put, if_neg (show ¬ k = "hits" from hk)])
    [(.sample, ⟨"INCR", [utf8 "hits"]⟩), (.sample, ⟨"TTL", [utf8 "hits"]⟩)] (by decide +kernel)
    (by decide +kernel)
  exact ⟨h.1.trans rfl, (congrFun h.2 "hits").trans rfl⟩

end RustyPotato
