import RustyPotato.Commands.Loops
import RustyPotato.Registry

/-!
# What a command that fails has changed

The loops of `MSET`, `DEL`, `HSET` and `HDEL` write as they go and stop at the first argument that
is no text, and `SET` with `GET` finds the wrong type after its write. Nothing else fails with a
changed store.
-/

namespace RustyPotato

open Cmd Parse

/-- An error reply leaves every live key as it was. -/
def Cmd.Harmless {α : Type} (c : Clock) (m : Cmd α) (s : MemoryStore) : Prop :=
  ∀ e s', m.run s = some (.error e, s') → s'.live c = s.live c

def Cmd.Fails {α : Type} (m : Cmd α) (s : MemoryStore) : Prop :=
  ∃ e s', m.run s = some (.error e, s')

/-- The steps change something that a client can see. -/
def Step.Changes (c : Clock) (steps : List Step) (s : MemoryStore) : Prop :=
  ∃ k, actAll c k steps (s.live c k) ≠ s.live c k

section
variable {α β γ : Type} (c : Clock)

theorem harmless_takes (m : Cmd α) (steps : List Step) (s : MemoryStore) (hm : Takes c m steps) :
    Harmless c m s ↔ ¬ (Fails m s ∧ Step.Changes c steps s) := by
  obtain ⟨r, hr⟩ := hm s
  have hlive : (Step.runAll c steps s).live c = s.live c ↔ ¬ Step.Changes c steps s := by
    unfold Step.Changes
    push Not
    constructor
    · intro h k
      rw [← Step.live_runAll, h]
    · intro h
      funext k
      rw [Step.live_runAll, h]
  unfold Harmless Fails
  cases r with
  | ok a => simp [hr]
  | error e =>
    simpa [hr] using hlive

theorem harmless_lift (p : Parse α) (f : α → Cmd β) (Q : α → Prop) (s : MemoryStore)
    (h : ∀ a, p = some (.ok a) → (Harmless c (f a) s ↔ ¬ Q a)) :
    Harmless c (lift p >>= f) s ↔ ¬ ∃ a, p = some (.ok a) ∧ Q a := by
  match p, h with
  | some (.ok a), h =>
    rw [lift_ok_bind, h a rfl, not_iff_not]
    constructor
    · exact fun hq => ⟨a, rfl, hq⟩
    · rintro ⟨b, hb, hq⟩
      cases hb
      exact hq
  | some (.error e), _ =>
    rw [lift_error_bind]
    refine iff_of_true ?_ (by rintro ⟨a, ha, -⟩; cases ha)
    intro e' s' h
    cases h
    rfl
  | none, _ =>
    refine iff_of_true ?_ (by rintro ⟨a, ha, -⟩; cases ha)
    intro e s' h
    cases h

/-- A command that reads its arguments first is judged by what follows. -/
theorem harmless_follows (p : Parse α) (f : α → Cmd β) (steps : α → List Step) (Q : α → Prop)
    (s : MemoryStore) (hm : Follows c (lift p >>= f) (planOf p steps))
    (h : ∀ a, p = some (.ok a) → (Fails (f a) s ∧ Step.Changes c (steps a) s ↔ Q a)) :
    Harmless c (lift p >>= f) s ↔ ¬ ∃ a, p = some (.ok a) ∧ Q a := by
  refine harmless_lift c p f Q s fun a ha => ?_
  subst ha
  rw [harmless_takes c (f a) (steps a) s hm, h a rfl]

theorem harmless_sure (p : Parse α) (f : α → Cmd β) (s : MemoryStore)
    (h : ∀ a, ∃ r s', (f a).run s = some (.ok r, s')) : Harmless c (lift p >>= f) s := by
  refine (harmless_lift c p f (fun _ => False) s fun a _ => ?_).mpr (by simp)
  obtain ⟨r, s', hr⟩ := h a
  refine iff_of_true ?_ not_false
  intro e s'' he
  rw [hr] at he
  cases he

theorem harmless_purges (m : Cmd α) (plan : Option (List Step)) (hm : Follows c m plan)
    (h : ∀ steps, plan = some steps → ∀ step ∈ steps, ∃ key, step = .on key .purge)
    (s : MemoryStore) :
    Harmless c m s := by
  cases plan with
  | none =>
    intro e s' he
    rw [hm s] at he
    cases he
  | some steps =>
    rw [harmless_takes c m steps s hm]
    rintro ⟨-, k, hk⟩
    exact hk (Step.actAll_purges c k steps (h steps rfl) _)

/-! ## When a loop fails -/

/-- While `P` holds, only an argument that cannot be read stops the loop. -/
theorem foldlM_fails (P : MemoryStore → Prop) (body : γ → β → Cmd γ) (read : β → Option (List Step))
    (hok : ∀ b, (read b).isSome → ∀ acc s, P s →
      ∃ acc' s', (body acc b).run s = some (.ok acc', s') ∧ P s')
    (hstop : ∀ b, read b = none → ∀ acc, ∃ e, body acc b = fail e) (items : List β) (acc : γ)
    (s : MemoryStore) (hs : P s) :
    Fails (items.foldlM body acc) s ↔ ∃ b ∈ items, read b = none := by
  induction items generalizing acc s with
  | nil =>
    refine ⟨?_, by simp⟩
    rintro ⟨e, s', h⟩
    cases h
  | cons b rest ih =>
    rw [List.foldlM_cons]
    cases hb : read b with
    | none =>
      obtain ⟨e, he⟩ := hstop b hb acc
      rw [he]
      exact iff_of_true ⟨e, s, rfl⟩ ⟨b, List.mem_cons_self, hb⟩
    | some steps =>
      obtain ⟨acc', s', hbody, hs'⟩ := hok b (by simp [hb]) acc s hs
      have hrest : Fails (body acc b >>= fun acc => rest.foldlM body acc) s ↔
          Fails (rest.foldlM body acc') s' := by
        simp only [Fails, run_bind, hbody]
      rw [hrest, ih acc' s' hs']
      simp [hb]

theorem bind_pure_fails (m : Cmd α) (f : α → β) (s : MemoryStore) :
    Fails (m >>= fun a => pure (f a)) s ↔ Fails m s := by
  constructor
  · rintro ⟨e, s', h⟩
    rcases bind_error _ _ _ _ _ h with h | ⟨a, s₁, -, h⟩
    · exact ⟨e, s', h⟩
    · cases h
  · rintro ⟨e, s', h⟩
    exact ⟨e, s', by rw [run_bind, h]⟩

theorem eachText_fails (P : MemoryStore → Prop) (m : String → Cmd α) (g : γ → α → γ)
    (hok : ∀ text s, P s → ∃ a s', (m text).run s = some (.ok a, s') ∧ P s') (args : List Bytes)
    (acc : γ) (s : MemoryStore) (hs : P s) :
    Fails (eachText m g args acc) s ↔ ∃ b ∈ args, fromUtf8 b = none := by
  unfold eachText
  have := foldlM_fails P (fun acc b => do
      let text ← lift (argText b)
      let r ← m text
      pure (g acc r)) (fun b => (fromUtf8 b).map fun _ => []) ?_ ?_ args acc s hs
  · simpa only [Option.map_eq_none_iff] using this
  · intro b hb acc s hs
    obtain ⟨text, ht⟩ := Option.isSome_iff_exists.mp (by simpa using hb)
    obtain ⟨a, s', ha, hs'⟩ := hok text s hs
    refine ⟨g acc a, s', ?_, hs'⟩
    rw [argText_ok b text ht, lift_ok_bind, run_bind, ha]
    rfl
  · intro b hb acc
    exact ⟨notUtf8, by rw [argText_error b (Option.map_eq_none_iff.mp hb), lift_error_bind]⟩

end

section
variable (c : Clock) (k : String)

/-- No hash is there that has the field. -/
def Lacks (field : String) (e : Option Entry) : Prop :=
  ∀ h d, e = some ⟨.hash h, d⟩ → h.lookup field = none

theorem lacks_hdel_self (field : String) (e : Option Entry) :
    Lacks field ((Op.hdel field).apply c e) := by
  intro h d he
  obtain _ | ⟨v, d'⟩ := e
  · cases he
  · cases v with
    | hash g =>
      simp only [Op.apply] at he
      split_ifs at he with hnone hcard
      · cases he
        exact Option.isNone_iff_eq_none.mp hnone
      · cases he
        exact Finmap.lookup_erase ..
    | _ => cases he

theorem lacks_hdel (field other : String) (e : Option Entry) (he : Lacks field e) :
    Lacks field ((Op.hdel other).apply c e) := by
  obtain _ | ⟨v, d⟩ := e
  · exact he
  · cases v with
    | hash g =>
      simp only [Op.apply]
      split_ifs
      · exact he
      · intro h d' h'
        cases h'
      · intro h d' h'
        cases h'
        by_cases hf : field = other
        · rw [hf, Finmap.lookup_erase]
        · rw [Finmap.lookup_erase_ne hf, he g d rfl]
    | _ => exact he

theorem lacks_hdels (field : String) (fields : List String) (e : Option Entry)
    (h : field ∈ fields ∨ Lacks field e) :
    Lacks field (Step.actAll c k (fields.map fun f => .on k (.hdel f)) e) := by
  induction fields generalizing e with
  | nil => exact h.resolve_left (by simp)
  | cons f fields ih =>
    rw [List.map_cons, Step.actAll_cons, Step.act, if_pos rfl]
    refine ih _ ?_
    rcases h with h | h
    · rcases List.mem_cons.mp h with rfl | h
      · exact .inr (lacks_hdel_self c field e)
      · exact .inl h
    · exact .inr (lacks_hdel c field f e h)

theorem actAll_hdel_absent (fields : List String) (h : Hash) (d : Option Int)
    (hf : ∀ f ∈ fields, h.lookup f = none) :
    Step.actAll c k (fields.map fun f => .on k (.hdel f)) (some ⟨.hash h, d⟩) =
      some ⟨.hash h, d⟩ := by
  induction fields with
  | nil => rfl
  | cons f fields ih =>
    rw [List.map_cons, Step.actAll_cons, Step.act, if_pos rfl]
    have hop : (Op.hdel f).apply c (some ⟨.hash h, d⟩) = some ⟨.hash h, d⟩ := by
      simp [Op.apply, hf f List.mem_cons_self]
    rw [hop]
    exact ih fun f hmem => hf f (List.mem_cons_of_mem _ hmem)

theorem apply_wrongType (op : Op) (hop : op.OnHash) (e : Entry) (he : ∀ h, e.value ≠ .hash h) :
    op.apply c (some e) = some e := by
  obtain ⟨v, d⟩ := e
  cases op with
  | purge => rfl
  | hset field value =>
    cases v with
    | hash h => exact absurd rfl (he h)
    | _ => rfl
  | hdel field =>
    cases v with
    | hash h => exact absurd rfl (he h)
    | _ => rfl
  | _ => cases hop

theorem actAll_wrongType {β : Type} (op : β → Op) (hop : ∀ b, (op b).OnHash) (items : List β)
    (e : Entry) (he : ∀ h, e.value ≠ .hash h) :
    Step.actAll c k (items.map fun b => .on k (op b)) (some e) = some e := by
  induction items with
  | nil => rfl
  | cons b rest ih =>
    rw [List.map_cons, Step.actAll_cons, Step.act, if_pos rfl,
      apply_wrongType c (op b) (hop b) e he, ih]

theorem changes_one {β : Type} (op : β → Op) (items : List β) (s : MemoryStore) :
    Step.Changes c (items.map fun b => .on k (op b)) s ↔
      Step.actAll c k (items.map fun b => .on k (op b)) (s.live c k) ≠ s.live c k := by
  constructor
  · rintro ⟨k', hk'⟩
    by_cases h : k' = k
    · rwa [h] at hk'
    · refine absurd (Step.actAll_untouched c k' _ _ ?_) hk'
      intro step hstep
      obtain ⟨b, -, rfl⟩ := List.mem_map.mp hstep
      exact fun hkey => h hkey.symm
  · exact fun h => ⟨k, h⟩

end

/-! ## The commands -/

/-- The value is a string or a number. -/
def ValueType.isScalar : ValueType → Bool
  | .string _ | .integer _ => true
  | _ => false

/--
What makes a command fail after it has changed something: its arguments and the live keys before it.
-/
def Command.PartialEffect (c : Clock) (s : MemoryStore) (args : List Bytes) : Command → Prop
  | .set =>
    -- The previous value, which `GET` asks for, is a hash or a list, and the write went ahead.
    ∃ r e, setRequest c args = some (.ok r) ∧ r.opts.get = true ∧
      r.opts.existence ≠ .onlyIfNotExists ∧ s.live c r.key = some e ∧ e.value.isScalar = false
  | .mset =>
    ∃ ps, msetPairs args = some (.ok ps) ∧ (∃ p ∈ ps, fromUtf8 p.1 = none) ∧
      ∃ key v, lastOf key (keyValues ps) = some v ∧ s.live c key ≠ some ⟨.string v, none⟩
  | .del => (∃ b ∈ args, fromUtf8 b = none) ∧ ∃ key ∈ texts args, s.live c key ≠ none
  | .hset =>
    ∃ r, hsetRequest args = some (.ok r) ∧
      (∃ p ∈ r.pairs, fromUtf8 p.1 = none ∨ fromUtf8 p.2 = none) ∧
      ((s.live c r.key = none ∧ fieldValues r.pairs ≠ []) ∨
        ∃ h d field v, s.live c r.key = some ⟨.hash h, d⟩ ∧
          lastOf field (fieldValues r.pairs) = some v ∧ h.lookup field ≠ some v)
  | .hdel =>
    ∃ key, keyFields "HDEL" args = some (.ok key) ∧ (∃ b ∈ args.drop 1, fromUtf8 b = none) ∧
      ∃ h d, s.live c key = some ⟨.hash h, d⟩ ∧ ∃ field ∈ texts (args.drop 1), h.lookup field ≠ none
  | _ => False

section
variable (env : Env) (args : List Bytes) (s : MemoryStore)

theorem someArgs_eq_ok (name : String) (a : Unit) : someArgs name args = some (.ok a) ↔
    args ≠ [] := by
  unfold someArgs
  cases args with
  | nil => exact iff_of_false (fun h => by cases h) (by simp)
  | cons b rest => exact iff_of_true rfl (by simp)

theorem delCommand_harmless :
    Harmless env.clock (delCommand env args) s ↔ ¬ Command.PartialEffect env.clock s args .del := by
  refine (harmless_follows env.clock (someArgs "DEL" args) _ _
    (fun _ => Command.PartialEffect env.clock s args .del) s (delCommand_follows env args) ?_).trans
    ?_
  · intro _ _
    rw [bind_pure_fails,
      eachText_fails (fun _ => True) _ _ (fun key s _ => ⟨_, _, rfl, trivial⟩) args _ s trivial,
      textPlan_eq]
    refine and_congr_right fun _ => ?_
    simp only [Step.Changes, actAll_delete]
    constructor
    · rintro ⟨k, hk⟩
      split_ifs at hk with hmem
      · exact ⟨k, hmem, fun h => hk h.symm⟩
      · exact absurd rfl hk
    · rintro ⟨k, hmem, hk⟩
      exact ⟨k, by rw [if_pos hmem]; exact fun h => hk h.symm⟩
  · rw [not_iff_not]
    constructor
    · rintro ⟨_, -, h⟩
      exact h
    · intro h
      obtain ⟨b, hb, -⟩ := h.1
      exact ⟨(), (someArgs_eq_ok args "DEL" ()).mpr (List.ne_nil_of_mem hb), h⟩

theorem msetCommand_harmless :
    Harmless env.clock (msetCommand env args) s ↔
      ¬ Command.PartialEffect env.clock s args .mset := by
  refine harmless_follows env.clock (msetPairs args) _ _ _ s (msetCommand_follows env args)
    fun ps _ => ?_
  have hloop := foldlM_fails (fun _ => True) (fun (_ : Unit) p => do
      let key ← lift (argText p.1)
      atKey key fun t => ((), t.set env.clock (.string p.2)))
      (fun p : Bytes × Bytes => (fromUtf8 p.1).map fun _ => []) ?_ ?_ ps () s trivial
  · rw [bind_pure_fails, hloop, msetSteps_eq]
    simp only [Option.map_eq_none_iff, Step.Changes, actAll_set]
    refine and_congr_right fun _ => exists_congr fun k => ?_
    cases lastOf k (keyValues ps) with
    | none => simp
    | some v => simp [eq_comm]
  · intro p hp _ s _
    obtain ⟨key, hk⟩ := Option.isSome_iff_exists.mp (by simpa using hp)
    rw [argText_ok p.1 key hk, lift_ok_bind]
    exact ⟨_, _, rfl, trivial⟩
  · intro p hp _
    exact ⟨notUtf8, by rw [argText_error p.1 (Option.map_eq_none_iff.mp hp), lift_error_bind]⟩

/-- Under this key there is nothing, or a hash. -/
def HashOrNone (c : Clock) (key : String) (s : MemoryStore) : Prop :=
  ∀ e, s.live c key = some e → ∃ h, e.value = .hash h

theorem not_hashOrNone (c : Clock) (key : String) (h : (s.slot key).WrongType c) :
    ¬ HashOrNone c key s := by
  obtain ⟨stored, hentry, hx, hv⟩ := h
  intro hs
  have hlive : s.live c key = some stored.toEntry := by
    rw [← Slot.live_alive c stored (s.slot key).index hx, ← hentry]
    rfl
  obtain ⟨g, hg⟩ := hs _ hlive
  exact hv g hg

/-- Where there is no other type, a hash operation succeeds and leaves no other type. -/
theorem tryAtKey_hash {α : Type} (c : Clock) (key : String) (op : Op)
    (f : Slot → Except RustyPotatoError α × Slot) (hf : ∀ t, (f t).2 = op.run c t)
    (herr : ∀ t e, (f t).1 = .error e → t.WrongType c)
    (hop : ∀ h d e, op.apply c (some ⟨.hash h, d⟩) = some e → ∃ h, e.value = .hash h)
    (hnone : ∀ e, op.apply c none = some e → ∃ h, e.value = .hash h) (hs : HashOrNone c key s) :
    ∃ a s', (tryAtKey key f).run s = some (.ok a, s') ∧ HashOrNone c key s' := by
  cases hr : (f (s.slot key)).1 with
  | error e => exact absurd hs (not_hashOrNone s c key (herr _ e hr))
  | ok a =>
    refine ⟨a, (s.atKey key f).2, by simp [tryAtKey, hr, Except.mapError], ?_⟩
    intro e he
    have hlive : (s.atKey key f).2.live c key = op.apply c (s.live c key) := by
      rw [MemoryStore.live, MemoryStore.slot_atKey, if_pos rfl, hf, Op.live_run]
      rfl
    rw [hlive] at he
    cases hl : s.live c key with
    | none => rw [hl] at he; exact hnone e he
    | some old =>
      obtain ⟨v, d⟩ := old
      obtain ⟨h, hv⟩ := hs _ hl
      cases hv
      rw [hl] at he
      exact hop h d e he

theorem hset_keeps (c : Clock) (key field value : String) (hs : HashOrNone c key s) :
    ∃ a s', (tryAtKey key (Slot.hset c field value)).run s = some (.ok a, s') ∧
      HashOrNone c key s' := by
  refine tryAtKey_hash s c key (.hset field value) _ (fun _ => rfl)
    (fun t e => Slot.hset_error c field value t e) ?_ ?_ hs
  · intro h d e he
    cases he
    exact ⟨_, rfl⟩
  · intro e he
    cases he
    exact ⟨_, rfl⟩

theorem hdel_keeps (c : Clock) (key field : String) (hs : HashOrNone c key s) :
    ∃ a s', (tryAtKey key (Slot.hdel c field)).run s = some (.ok a, s') ∧ HashOrNone c key s' := by
  refine tryAtKey_hash s c key (.hdel field) _ (fun _ => rfl)
    (fun t e => Slot.hdel_error c field t e) ?_ ?_ hs
  · intro h d e he
    simp only [Op.apply] at he
    split_ifs at he <;> cases he <;> exact ⟨_, rfl⟩
  · intro e he
    cases he

theorem wrongType_unchanged {β : Type} (c : Clock) (key : String) (op : β → Op)
    (hop : ∀ b, (op b).OnHash) (items : List β) (hs : ¬ HashOrNone c key s) :
    ¬ Step.Changes c (items.map fun b => .on key (op b)) s := by
  simp only [HashOrNone, not_forall, not_exists] at hs
  obtain ⟨e, hl, he⟩ := hs
  rw [changes_one c key op, hl, actAll_wrongType c key op hop items e he]
  exact fun h => h rfl

theorem hashWith_eq_self (h : Hash) (ps : List (String × String)) :
    hashWith h ps = h ↔ ∀ field v, lastOf field ps = some v → h.lookup field = some v := by
  constructor
  · intro heq field v hv
    rw [← heq, lookup_hashWith, hv]
    rfl
  · intro hall
    refine Finmap.ext_lookup fun field => ?_
    rw [lookup_hashWith]
    cases hv : lastOf field ps with
    | none => rfl
    | some v => exact (hall field v hv).symm

theorem hset_changes (key : String) (ps : List (String × String))
    (hs : HashOrNone env.clock key s) :
    Step.Changes env.clock (ps.map fun p => .on key (.hset p.1 p.2)) s ↔
      (s.live env.clock key = none ∧ ps ≠ []) ∨
        ∃ h d field v, s.live env.clock key = some ⟨.hash h, d⟩ ∧ lastOf field ps = some v ∧
          h.lookup field ≠ some v := by
  rw [changes_one env.clock key (fun p : String × String => .hset p.1 p.2)]
  cases hl : s.live env.clock key with
  | none =>
    cases ps with
    | nil => simp
    | cons p ps =>
      rw [actAll_hset_missing]
      simp
  | some old =>
    obtain ⟨v, d⟩ := old
    obtain ⟨h, hv⟩ := hs _ hl
    cases hv
    have hne := (hashWith_eq_self h ps).not
    push Not at hne
    rw [actAll_hset_hash]
    constructor
    · intro hch
      obtain ⟨field, v, hv, hf⟩ := hne.mp fun heq => hch (by rw [heq])
      exact .inr ⟨h, d, field, v, rfl, hv, hf⟩
    · rintro (⟨hnone, -⟩ | ⟨h', d', field, v, heq, hv, hf⟩)
      · cases hnone
      · cases heq
        intro hsame
        simp only [Option.some.injEq, Entry.mk.injEq, ValueType.hash.injEq, and_true] at hsame
        exact hne.mpr ⟨field, v, hv, hf⟩ hsame

theorem hsetRead_none (key : String) (p : Bytes × Bytes) :
    (match fromUtf8 p.1, fromUtf8 p.2 with
      | some field, some value => some [Step.on key (.hset field value)]
      | _, _ => none) = none ↔ fromUtf8 p.1 = none ∨ fromUtf8 p.2 = none := by
  cases fromUtf8 p.1 <;> cases fromUtf8 p.2 <;> simp

theorem hsetLoop_fails (c : Clock) (key : String) (ps : List (Bytes × Bytes)) (n : Int)
    (hs : HashOrNone c key s) :
    Fails (ps.foldlM (fun (n : Int) p => do
      let (field, value) ← lift (fieldValue p)
      let isNew ← tryAtKey key (Slot.hset c field value)
      pure (if isNew then n + 1 else n)) n) s ↔ ∃ p ∈ ps, fromUtf8 p.1 = none ∨
        fromUtf8 p.2 = none := by
  have hloop := foldlM_fails (HashOrNone c key) (fun (n : Int) p => do
      let (field, value) ← lift (fieldValue p)
      let isNew ← tryAtKey key (Slot.hset c field value)
      pure (if isNew then n + 1 else n))
      (fun p => match fromUtf8 p.1, fromUtf8 p.2 with
        | some field, some value => some [Step.on key (.hset field value)]
        | _, _ => none) ?_ ?_ ps n s hs
  · simpa only [hsetRead_none] using hloop
  · intro p hp n s hs
    obtain ⟨steps, hsteps⟩ := Option.isSome_iff_exists.mp hp
    obtain ⟨field, value, hf, hv, -⟩ := hsetRead_some key p steps hsteps
    obtain ⟨a, s', ha, hs'⟩ := hset_keeps s c key field value hs
    refine ⟨if a then n + 1 else n, s', ?_, hs'⟩
    rw [fieldValue_ok p field value hf hv, lift_ok_bind, run_bind, ha]
    rfl
  · intro p hp n
    exact ⟨notUtf8, by rw [fieldValue_error p ((hsetRead_none key p).mp hp), lift_error_bind]⟩

theorem hsetCommand_harmless :
    Harmless env.clock (hsetCommand env args) s ↔
      ¬ Command.PartialEffect env.clock s args .hset := by
  refine harmless_follows env.clock (hsetRequest args) _ _ _ s (hsetCommand_follows env args)
    fun r _ => ?_
  rw [hsetSteps_eq]
  by_cases hs : HashOrNone env.clock r.key s
  · rw [hset_changes env s r.key _ hs, bind_pure_fails,
      hsetLoop_fails s env.clock r.key r.pairs 0 hs]
  · refine iff_of_false (fun h => ?_) (fun h => hs ?_)
    · exact wrongType_unchanged s env.clock r.key (fun p : String × String => .hset p.1 p.2)
        (fun _ => trivial) _ hs h.2
    · intro e he
      rcases h.2 with ⟨hnone, -⟩ | ⟨g, d, -, -, hl, -⟩
      · rw [hnone] at he; cases he
      · rw [hl] at he; cases he; exact ⟨g, rfl⟩

theorem hdel_changes (key : String) (fields : List String) (hs : HashOrNone env.clock key s) :
    Step.Changes env.clock (fields.map fun f => .on key (.hdel f)) s ↔
      ∃ h d, s.live env.clock key = some ⟨.hash h, d⟩ ∧ ∃ field ∈ fields,
        h.lookup field ≠ none := by
  rw [changes_one env.clock key Op.hdel]
  cases hl : s.live env.clock key with
  | none =>
    have : Step.actAll env.clock key (fields.map fun f => .on key (.hdel f)) none = none := by
      induction fields with
      | nil => rfl
      | cons f fields ih =>
        rw [List.map_cons, Step.actAll_cons, Step.act, if_pos rfl]
        exact ih
    simp [this]
  | some old =>
    obtain ⟨v, d⟩ := old
    obtain ⟨h, hv⟩ := hs _ hl
    cases hv
    constructor
    · intro hch
      by_contra hcon
      push Not at hcon
      exact hch (actAll_hdel_absent env.clock key fields h d (hcon h d rfl))
    · rintro ⟨h', d', heq, field, hmem, hf⟩ hsame
      cases heq
      exact hf (lacks_hdels env.clock key field fields _ (.inl hmem) h d hsame)

theorem hdelCommand_harmless :
    Harmless env.clock (hdelCommand env args) s ↔
      ¬ Command.PartialEffect env.clock s args .hdel := by
  refine harmless_follows env.clock (keyFields "HDEL" args) _ _ _ s (hdelCommand_follows env args)
    fun key _ => ?_
  rw [textPlan_eq]
  by_cases hs : HashOrNone env.clock key s
  · rw [hdel_changes env s key _ hs, bind_pure_fails,
      eachText_fails (HashOrNone env.clock key) _ _
      (fun field s hs => hdel_keeps s env.clock key field hs)
        (args.drop 1) _ s hs]
  · refine iff_of_false (fun h => ?_) (fun h => hs ?_)
    · exact wrongType_unchanged s env.clock key Op.hdel (fun _ => trivial) _ hs h.2
    · intro e he
      obtain ⟨g, d, hl, -⟩ := h.2
      rw [hl] at he
      cases he
      exact ⟨g, rfl⟩

theorem previousReply_fails (p : Option StoredValue) :
    Fails (previousReply p) s ↔ ∃ e, p.map StoredValue.toEntry = some e ∧
      e.value.isScalar = false := by
  obtain _ | stored := p
  · exact iff_of_false (by rintro ⟨e, s', h⟩; cases h) (by simp)
  · simp only [Option.map_some, Option.some.injEq, exists_eq_left', StoredValue.toEntry]
    cases hv : stored.value <;> simp [previousReply, hv, Fails, fail, pure, ValueType.isScalar]

theorem set_changes (key : String) (v : Bytes) (ttl : SetTtlOption) (existence : SetExistence)
    (e : Entry) (hl : s.live env.clock key = some e) (he : e.value.isScalar = false) :
    Step.Changes env.clock [.on key (.setWithOptions (.string v) ttl existence)] s ↔
      existence ≠ .onlyIfNotExists := by
  have hone := changes_one env.clock key (fun _ : Unit => .setWithOptions (.string v) ttl existence)
    [()] s
  rw [List.map_singleton] at hone
  rw [hone, Step.actAll_cons, Step.actAll_nil, Step.act, if_pos rfl, hl]
  have hne : ∀ d, Entry.alive env.clock ⟨.string v, d⟩ ≠ some e := by
    intro d h
    obtain ⟨-, rfl⟩ := (Entry.alive_eq_some ..).mp h
    cases he
  cases existence with
  | onlyIfNotExists => simp [Op.apply, Slot.allows]
  | _ => simpa [Op.apply, Slot.allows] using hne _

theorem setCommand_harmless :
    Harmless env.clock (setCommand env args) s ↔ ¬ Command.PartialEffect env.clock s args .set := by
  refine (harmless_follows env.clock (setRequest env.clock args) _ _
    (fun r => r.opts.get = true ∧ r.opts.existence ≠ .onlyIfNotExists ∧
      ∃ e, s.live env.clock r.key = some e ∧ e.value.isScalar = false) s
      (setCommand_follows env args) ?_).trans ?_
  · intro r _
    have hfails : Fails (do
        let outcome ← atKey r.key
          (Slot.setWithOptions env.clock (.string r.value) r.ttl r.opts.existence)
        if r.opts.get then previousReply outcome.previous
        else if outcome.applied then return .simpleString "OK"
        else return .nilBulk) s ↔
          r.opts.get = true ∧ ∃ e, s.live env.clock r.key = some e ∧ e.value.isScalar = false := by
      simp only [Fails, run_bind, atKey, MemoryStore.atKey_fst, Slot.setWithOptions_previous]
      cases r.opts.get with
      | true =>
        simp only [if_true, true_and]
        exact previousReply_fails ..
      | false =>
        refine iff_of_false ?_ (by simp)
        rintro ⟨e, s', h⟩
        simp only [Bool.false_eq_true, if_false] at h
        split at h <;> cases h
    rw [hfails]
    constructor
    · rintro ⟨⟨hget, e, hl, he⟩, hch⟩
      exact ⟨hget, (set_changes env s r.key _ _ _ e hl he).mp hch, e, hl, he⟩
    · rintro ⟨hget, hex, e, hl, he⟩
      exact ⟨⟨hget, e, hl, he⟩, (set_changes env s r.key _ _ _ e hl he).mpr hex⟩
  · rw [not_iff_not]
    constructor
    · rintro ⟨r, hr, hget, hex, e, he⟩
      exact ⟨r, e, hr, hget, hex, he⟩
    · rintro ⟨r, e, hr, hget, hex, he⟩
      exact ⟨r, hr, hget, hex, e, he⟩

theorem incrBy_error (c : Clock) (increment : I64) (t : Slot) (e : RustyPotatoError)
    (h : (t.incrBy c increment).1 = .error e) : (t.incrBy c increment).2 = t := by
  obtain ⟨_ | stored, i⟩ := t
  · cases h
  · simp only [Slot.incrBy] at *
    split at h
    · cases h
    · rename_i hx
      rw [if_neg hx]
      split at h
      · rfl
      · split at h
        · rfl
        · cases h

theorem incrByCommand_harmless (name : String) (increment : I64) :
    Harmless env.clock (incrByCommand name increment env args) s := by
  refine (harmless_lift env.clock _ _ (fun _ => False) s fun key _ => ?_).mpr (by simp)
  refine iff_of_true (fun e s' h => ?_) not_false
  rcases bind_error _ _ _ _ _ h with h | ⟨a, s₁, -, h⟩
  · simp only [tryAtKey, MemoryStore.atKey, Option.some.injEq, Prod.mk.injEq] at h
    obtain ⟨h1, rfl⟩ := h
    cases hr : ((s.slot key).incrBy env.clock increment).1 with
    | ok n => rw [hr] at h1; cases h1
    | error err => rw [incrBy_error _ _ _ err hr, MemoryStore.put_slot]
  · cases h

theorem deadlineCommand_harmless (name : String) (resolve : Clock → Nat → Parse Int) :
    Harmless env.clock (deadlineCommand name resolve env args) s :=
  harmless_sure env.clock _ _ s fun _ => ⟨_, _, rfl⟩

theorem flushdbCommand_harmless : Harmless env.clock (flushdbCommand env args) s :=
  harmless_sure env.clock _ _ s fun _ => ⟨_, _, rfl⟩

theorem Command.execute_harmless (cmd : Command) :
    Harmless env.clock (cmd.execute env args) s ↔ ¬ cmd.PartialEffect env.clock s args := by
  cases cmd with
  | set => exact setCommand_harmless env args s
  | mset => exact msetCommand_harmless env args s
  | del => exact delCommand_harmless env args s
  | hset => exact hsetCommand_harmless env args s
  | hdel => exact hdelCommand_harmless env args s
  | incr | decr => exact iff_of_true (incrByCommand_harmless env args s _ _) not_false
  | expire | pexpire | expireat | pexpireat =>
    exact iff_of_true (deadlineCommand_harmless env args s _ _) not_false
  | flushdb => exact iff_of_true (flushdbCommand_harmless env args s) not_false
  | _ =>
    exact iff_of_true (harmless_purges env.clock _ _ (Command.execute_follows _ env args)
      (fun steps => Command.plan_readOnly _ rfl env args steps) s) not_false

end

/-! ## The registry -/

theorem setRequest_length (c : Clock) (args : List Bytes) (r : SetRequest)
    (h : setRequest c args = some (.ok r)) : 2 ≤ args.length := by
  by_contra hlen
  rw [setRequest, setArgs, if_pos (by omega)] at h
  cases h

theorem msetPairs_length (args : List Bytes) (ps : List (Bytes × Bytes))
    (h : msetPairs args = some (.ok ps)) : 2 ≤ args.length := by
  by_contra hlen
  rw [msetPairs, if_pos] at h
  · cases h
  · match args with
    | [] => exact .inl rfl
    | [_] => exact .inr (by simp)
    | _ :: _ :: _ => simp at hlen

theorem hsetRequest_length (args : List Bytes) (r : HsetRequest)
    (h : hsetRequest args = some (.ok r)) : 3 ≤ args.length := by
  by_contra hlen
  rw [hsetRequest, if_pos (.inl (by omega))] at h
  cases h

theorem keyFields_length (name : String) (args : List Bytes) (key : String)
    (h : keyFields name args = some (.ok key)) : 2 ≤ args.length := by
  by_contra hlen
  rw [keyFields, if_pos (by omega)] at h
  cases h

theorem validateArity_atLeast (cmd : ParsedCommand) (n : Nat) (h : n ≤ cmd.args.length) :
    cmd.validateArity (.atLeast (n + 1)) = .ok () := by
  simp [ParsedCommand.validateArity, ParsedCommand.totalArgs, h]

theorem Command.PartialEffect.arity (c : Clock) (s : MemoryStore) (cmd : ParsedCommand)
    (command : Command) (h : command.PartialEffect c s cmd.args) :
    cmd.validateArity command.arity = .ok () := by
  cases command with
  | set =>
    obtain ⟨r, -, hr, -⟩ := h
    exact validateArity_atLeast cmd 2 (setRequest_length c _ r hr)
  | mset =>
    obtain ⟨ps, hps, -⟩ := h
    exact validateArity_atLeast cmd 2 (msetPairs_length _ ps hps)
  | del =>
    obtain ⟨⟨b, hb, -⟩, -⟩ := h
    exact validateArity_atLeast cmd 1 (List.length_pos_of_mem hb)
  | hset =>
    obtain ⟨r, hr, -⟩ := h
    exact validateArity_atLeast cmd 3 (hsetRequest_length _ r hr)
  | hdel =>
    obtain ⟨key, hkey, -⟩ := h
    exact validateArity_atLeast cmd 2 (keyFields_length _ _ key hkey)
  | _ => cases h

def CommandRegistry.PartialEffect (u : CaseMap) (reg : CommandRegistry) (c : Clock)
    (cmd : ParsedCommand) (s : MemoryStore) : Prop :=
  ∃ command, reg.find u cmd.name = some command ∧ command.PartialEffect c s cmd.args

theorem harmless_fail {α : Type} (c : Clock) (e : String) (s : MemoryStore) :
    Harmless c (fail e : Cmd α) s := by
  intro e' s' h
  cases h
  rfl

/-- An error reply leaves the live keys alone, but for the partial effects. -/
theorem error_reply_keeps_live_iff (u : CaseMap) (reg : CommandRegistry) (env : Env)
    (cmd : ParsedCommand) (s : MemoryStore) :
    (∀ e s', (reg.execute u env cmd).run s = some (.error e, s') →
      s'.live env.clock = s.live env.clock) ↔
      ¬ reg.PartialEffect u env.clock cmd s := by
  change Harmless env.clock (reg.execute u env cmd) s ↔ _
  unfold CommandRegistry.execute CommandRegistry.PartialEffect
  cases reg.find u cmd.name with
  | none => exact iff_of_true (harmless_fail env.clock _ s) (by simp)
  | some command =>
    simp only [Option.some.injEq, exists_eq_left']
    cases harity : cmd.validateArity command.arity with
    | error e =>
      refine iff_of_true (harmless_fail env.clock _ s) fun h => ?_
      rw [h.arity] at harity
      cases harity
    | ok _ => exact Command.execute_harmless env cmd.args s command

/-- `MSET a 1 \xff 2` on the empty store fails and leaves `a` behind. -/
theorem mset_error_leaves_key :
    ∃ e s', (serverRegistry.execute asciiCaseMap (.atClock ⟨0, 0, by decide, by decide⟩)
        ⟨"MSET", [utf8 "a", utf8 "1", [0xFF], utf8 "2"]⟩).run .new = some (.error e, s') ∧
      s'.live ⟨0, 0, by decide, by decide⟩ "a" = some ⟨.string (utf8 "1"), none⟩ ∧
      MemoryStore.new.live ⟨0, 0, by decide, by decide⟩ "a" = none :=
  ⟨notUtf8, _, rfl, by decide, rfl⟩

end RustyPotato
