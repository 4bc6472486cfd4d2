import RustyPotato.TwoRuns

/-!
# Commands on different keys

What a command replies and writes depends on the slots of the keys it names, and it writes no
others. So two commands without a common key can be executed in either order.
-/

namespace RustyPotato

open Cmd

/-- The stores agree under the keys, and are elsewhere as they were. -/
def AgreeFrom (s₀ s₀' : MemoryStore) (K : String → Prop) (s s' : MemoryStore) : Prop :=
  ∀ k, (K k → s.slot k = s'.slot k) ∧ (¬ K k → s.slot k = s₀.slot k ∧ s'.slot k = s₀'.slot k)

theorem keyRel_agreeFrom (c : Clock) (K : String → Prop) (s₀ s₀' : MemoryStore) :
    KeyRel c K (AgreeFrom s₀ s₀' K) where
  atKey := by
    intro key hkey α f _ s s' hs
    have hslot : s.slot key = s'.slot key := (hs key).1 hkey
    refine ⟨by rw [hslot], fun k => ?_⟩
    rw [MemoryStore.slot_put, MemoryStore.slot_put, hslot]
    split_ifs with hk
    · exact ⟨fun _ => rfl, fun hnot => absurd (hk ▸ hkey) hnot⟩
    · exact hs k

theorem IterOrder.perm {β : Type} (order order' : IterOrder β) (m : Finmap fun _ : String => β) :
    (order.toList m).Perm (order'.toList m) := by
  refine (List.perm_ext_iff_of_nodup (order.nodup m).of_map (order'.nodup m).of_map).mpr ?_
  rintro ⟨k, v⟩
  rw [order.mem_iff, order'.mem_iff]

/-- The same answer, but for the order in which the fields of a hash are listed. -/
def ParsedCommand.SameAnswer (u : CaseMap) (cmd : ParsedCommand) :
    Option (Except String ResponseValue) → Option (Except String ResponseValue) → Prop
  | some (.ok r), some (.ok r') => cmd.SameReply u List.Perm r r'
  | some (.error e), some (.error e') => e = e'
  | none, none => True
  | _, _ => False

theorem respond_local (u : CaseMap) (env : Env) (order order' : IterOrder String)
    (cmd : ParsedCommand) (hnames : cmd.NamesKeys u) (s s' : MemoryStore)
    (h : ∀ k ∈ cmd.named u, s.slot k = s'.slot k) :
    cmd.SameAnswer u (respond u { env with hashOrder := order } cmd s).1
        (respond u { env with hashOrder := order' } cmd s').1 ∧
      AgreeFrom s s' (· ∈ cmd.named u) (respond u { env with hashOrder := order } cmd s).2
        (respond u { env with hashOrder := order' } cmd s').2 := by
  have hs : AgreeFrom s s' (· ∈ cmd.named u) s s' := fun k => ⟨h k, fun _ => ⟨rfl, rfl⟩⟩
  have hrun := serverRegistry_relates u (keyRel_agreeFrom env.clock (· ∈ cmd.named u) s s')
    { env with hashOrder := order } { env with hashOrder := order' } rfl rfl cmd hnames
    (fun _ hk => hk) List.Perm (fun g => order.perm order' g) (fun _ _ hps => hps.length_eq) s s' hs
  unfold respond
  generalize (serverRegistry.execute u { env with hashOrder := order } cmd).run s = x,
    (serverRegistry.execute u { env with hashOrder := order' } cmd).run s' = x' at hrun
  cases hrun with
  | panic => exact ⟨trivial, hs⟩
  | ok r r' t t' hr ht => exact ⟨hr, ht⟩
  | error e t t' ht => exact ⟨rfl, ht⟩

/-- One reading of the clock, two commands without a common key, and either of them first. -/
theorem disjoint_commands_commute (u : CaseMap) (env : Env) (s : MemoryStore) (a b : ParsedCommand)
    (ha : a.NamesKeys u) (hb : b.NamesKeys u) (hkeys : ∀ k ∈ a.named u, k ∉ b.named u)
    (order₁ order₂ order₁' order₂' : IterOrder String) :
    let aFirst := respond u { env with hashOrder := order₁ } a s
    let bSecond := respond u { env with hashOrder := order₂ } b aFirst.2
    let bFirst := respond u { env with hashOrder := order₁' } b s
    let aSecond := respond u { env with hashOrder := order₂' } a bFirst.2
    a.SameAnswer u aFirst.1 aSecond.1 ∧ b.SameAnswer u bSecond.1 bFirst.1 ∧
      bSecond.2 = aSecond.2 := by
  intro aFirst bSecond bFirst aSecond
  -- Neither has changed a slot of the other when the other comes second.
  have hafter : ∀ k, k ∉ a.named u → aFirst.2.slot k = s.slot k := fun k hk =>
    (((respond_local u env order₁ order₁ a ha s s fun _ _ => rfl).2 k).2 hk).1
  have hbfter : ∀ k, k ∉ b.named u → bFirst.2.slot k = s.slot k := fun k hk =>
    (((respond_local u env order₁' order₁' b hb s s fun _ _ => rfl).2 k).2 hk).1
  obtain ⟨hasame, haslots⟩ := respond_local u env order₁ order₂' a ha s bFirst.2
    fun k hk => (hbfter k (hkeys k hk)).symm
  obtain ⟨hbsame, hbslots⟩ := respond_local u env order₂ order₁' b hb aFirst.2 s
    fun k hk => hafter k fun hka => hkeys k hka hk
  refine ⟨hasame, hbsame, MemoryStore.ext_slot _ _ fun k => ?_⟩
  by_cases hka : k ∈ a.named u
  · have hkb : k ∉ b.named u := hkeys k hka
    exact ((hbslots k).2 hkb).1.trans ((haslots k).1 hka)
  · have haside : aSecond.2.slot k = bFirst.2.slot k := ((haslots k).2 hka).2
    rw [haside]
    by_cases hkb : k ∈ b.named u
    · exact (hbslots k).1 hkb
    · rw [hbfter k hkb, ← hafter k hka]
      exact ((hbslots k).2 hkb).1

/-- `HSET` on one key and `INCR` on another, on an empty store. -/
theorem hset_incr_commute :
    (respond asciiCaseMap .sample ⟨"INCR", [utf8 "b"]⟩
        (respond asciiCaseMap .sample ⟨"HSET", [utf8 "a", utf8 "f", utf8 "v"]⟩ .new).2).2 =
      (respond asciiCaseMap .sample ⟨"HSET", [utf8 "a", utf8 "f", utf8 "v"]⟩
        (respond asciiCaseMap .sample ⟨"INCR", [utf8 "b"]⟩ .new).2).2 :=
  (disjoint_commands_commute asciiCaseMap .sample .new ⟨"HSET", [utf8 "a", utf8 "f", utf8 "v"]⟩
    ⟨"INCR", [utf8 "b"]⟩ (by decide +kernel) (by decide +kernel) (by decide +kernel) (.sorted _)
    (.sorted _) (.sorted _) (.sorted _)).2.2

end RustyPotato
