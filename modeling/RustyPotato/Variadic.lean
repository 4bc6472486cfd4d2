import RustyPotato.Answers

/-!
# Commands with any number of arguments

`DEL`, `EXISTS`, `HSET` and `HDEL` go through their arguments one at a time, and what an argument
does depends on those before it. In the end each counts what it says it counts, whatever is listed
twice.
-/

namespace RustyPotato

open Cmd Parse

/-- How many different texts of the list satisfy `p`. -/
def countDistinct (p : String → Bool) (texts : List String) : Nat :=
  (texts.toFinset.filter fun t => p t = true).card

/--
A loop that counts a text satisfying `p` and leaves `q`, which differs there alone: the text no
longer counts.
-/
theorem countDistinct_cons (p q : String → Bool) (text : String) (texts : List String)
    (hgone : q text = false) (hkeep : ∀ t ≠ text, q t = p t) :
    countDistinct p (text :: texts) = (if p text then 1 else 0) + countDistinct q texts := by
  have hrest : (texts.toFinset.filter fun t => q t = true) =
      (texts.toFinset.filter fun t => p t = true).erase text := by
    ext t
    by_cases ht : t = text
    · simp [ht, hgone]
    · simp [ht, hkeep t ht]
  have hall : ((text :: texts).toFinset.filter fun t => p t = true) =
      if p text then insert text ((texts.toFinset.filter fun t => p t = true).erase text)
      else (texts.toFinset.filter fun t => p t = true).erase text := by
    ext t
    by_cases ht : t = text
    · subst ht
      split_ifs with hp <;> simp [hp]
    · split_ifs <;> simp [ht]
  unfold countDistinct
  rw [hrest, hall]
  split_ifs
  · rw [Finset.card_insert_of_notMem (Finset.notMem_erase _ _), Nat.add_comm]
  · rw [Nat.zero_add]

theorem count_step (n : Int) (b : Bool) (k : Nat) :
    (if b then n + 1 else n) + (k : Int) = n + ((if b then 1 else 0) + k : Nat) := by
  cases b <;> simp [Int.add_assoc]

/-! ## `DEL` -/

theorem Slot.delete_fst (c : Clock) (t : Slot) : (t.delete c).1 = (t.live c).isSome := by
  obtain ⟨_ | e, i⟩ := t
  · rfl
  · cases hx : e.isExpired c with
    | true => simp [Slot.delete, hx, Slot.live_expired]
    | false => simp [Slot.delete, hx, Slot.live_alive]

theorem run_eachText_delete (c : Clock) (keys : List String) (n : Int) (s : MemoryStore) :
    ∃ s', (eachText (fun key => Cmd.atKey key (Slot.delete c))
      (fun n removed => if removed then n + 1 else n)
        (keys.map utf8) n).run s =
          some (.ok (n + countDistinct (fun k => (s.live c k).isSome) keys), s') ∧
      ∀ k, s'.slot k = if k ∈ keys then .empty else s.slot k := by
  induction keys generalizing n s with
  | nil => exact ⟨s, by simp [eachText, countDistinct]; rfl, by simp⟩
  | cons key keys ih =>
    rw [run_eachText_cons _ _ key keys n _ s _ (run_atKey key _ s), Slot.delete_eq_empty,
      Slot.delete_fst]
    obtain ⟨s', hs', hslots⟩ := ih (if (s.live c key).isSome then n + 1 else n) (s.put key .empty)
    refine ⟨s', hs'.trans ?_, fun k => ?_⟩
    · rw [countDistinct_cons _ (fun k => ((s.put key .empty).live c k).isSome) key keys,
        ← count_step]
      · simp [MemoryStore.live]
      · intro k hk
        rw [MemoryStore.live, MemoryStore.slot_put, if_neg hk]
        rfl
    · rw [hslots k, MemoryStore.slot_put]
      by_cases hk : k = key <;> simp [hk]

theorem respond_del (u : CaseMap) (env : Env) (keys : List String) (hne : keys ≠ [])
    (s : MemoryStore) :
    ∃ s', respond u env ⟨"DEL", keys.map utf8⟩ s =
        (some (.ok (.integer (countDistinct (fun k => (s.live env.clock k).isSome) keys))), s') ∧
      ∀ k, s'.slot k = if k ∈ keys then .empty else s.slot k := by
  have hlength := List.length_pos_of_ne_nil hne
  obtain ⟨s', hs', hslots⟩ := run_eachText_delete env.clock keys 0 s
  refine ⟨s', respond_registered u env .del (by decide) _
    (arity_atLeast _ _ _ (by simp only [List.length_map]; omega)) s s' _ ?_, hslots⟩
  change (delCommand env (keys.map utf8)).run s = _
  unfold delCommand
  rw [someArgs_texts "DEL" keys hne, lift_ok_bind, run_bind_ok _ _ s s' _ hs', Int.zero_add]
  rfl

/-! ## Hashes -/

/--
The fields under the key, none if it is missing or expired. Another type has no fields to speak of.
-/
def Slot.fields (c : Clock) (t : Slot) : Option Hash :=
  match t.unexpired c with
  | none => some ∅
  | some e =>
    match e.value with
    | .hash h => some h
    | _ => none

namespace Slot

variable (c : Clock) (h : Hash)

theorem fields_expired (e : StoredValue) (i : Option Int) (hx : e.isExpired c = true) :
    fields c ⟨some e, i⟩ = some ∅ := by
  simp [fields, unexpired_expired, hx]

theorem fields_alive (e : StoredValue) (i : Option Int) (hx : e.isExpired c = false) :
    fields c ⟨some e, i⟩ = some h ↔ e.value = .hash h := by
  simp only [fields, unexpired_alive c e i hx]
  cases e.value <;> simp

theorem hset_fields (field value : String) (t : Slot) (hf : t.fields c = some h) :
    ∃ t', t.hset c field value = (.ok (h.lookup field).isNone, t') ∧
      t'.fields c = some (h.insert field value) := by
  obtain ⟨_ | e, i⟩ := t
  · obtain rfl := Option.some.inj hf
    exact ⟨_, rfl, (fields_alive c _ _ i rfl).mpr rfl⟩
  · cases hx : e.isExpired c with
    | true =>
      rw [fields_expired c e i hx] at hf
      obtain rfl := Option.some.inj hf
      simp only [Slot.hset, Slot.purge, hx, if_true]
      exact ⟨_, rfl, (fields_alive c _ _ none rfl).mpr rfl⟩
    | false =>
      have hv := (fields_alive c h e i hx).mp hf
      simp only [Slot.hset, Slot.purge, hx, hv, Bool.false_eq_true, if_false]
      refine ⟨_, rfl, (fields_alive c _ _ i ?_).mpr rfl⟩
      rw [← hx]
      rfl

theorem erase_eq_empty (field : String) (hfield : (h.lookup field).isNone = false)
    (hcard : h.entries.card = 1) : h.erase field = ∅ := by
  have hmem : field ∈ h.keys := by
    rw [Finmap.mem_keys, ← Finmap.lookup_isSome]
    simpa [Option.isSome_iff_ne_none] using hfield
  rw [card_entries] at hcard
  have hkeys : (h.erase field).keys = ∅ := by
    rw [Finmap.keys_erase, ← Finset.card_eq_zero, Finset.card_erase_of_mem hmem, hcard]
  refine Finmap.ext_lookup fun f => ?_
  rw [Finmap.lookup_empty, Finmap.lookup_eq_none, ← Finmap.mem_keys, hkeys]
  exact Finset.notMem_empty f

/-- What a slot is once a hash command has looked at it. -/
structure Swept (t : Slot) : Prop where
  wellFormed : t.WellFormed
  purged : t.purge c = t

theorem swept_empty : Swept c .empty := ⟨wellFormed_empty, rfl⟩

theorem hdel_fields (field : String) (t : Slot) (ht : t.WellFormed) (hf : t.fields c = some h) :
    ∃ t', t.hdel c field = (.ok (h.lookup field).isSome, t') ∧ t'.fields c = some (h.erase field) ∧
      t'.Swept c := by
  have hkept := ht.run c (.hdel field) trivial
  obtain ⟨_ | e, i⟩ := t
  · obtain rfl := Option.some.inj hf
    exact ⟨_, rfl, rfl, ht, rfl⟩
  · cases hx : e.isExpired c with
    | true =>
      rw [fields_expired c e i hx] at hf
      obtain rfl := Option.some.inj hf
      simp only [Slot.hdel, hx, if_true, delete_eq_empty]
      exact ⟨_, rfl, rfl, swept_empty c⟩
    | false =>
      have hv := (fields_alive c h e i hx).mp hf
      simp only [Op.run, Slot.hdel, hx, hv, Bool.false_eq_true, if_false] at hkept ⊢
      cases hfield : (h.lookup field).isNone with
      | true =>
        rw [Option.isNone_iff_eq_none] at hfield
        have hsame : h.erase field = h := by
          refine Finmap.ext_lookup fun f => ?_
          by_cases hff : f = field
          · rw [hff, Finmap.lookup_erase, hfield]
          · exact Finmap.lookup_erase_ne hff
        rw [if_pos rfl, hsame, hfield]
        exact ⟨_, rfl, hf, ht, by simp [Slot.purge, hx]⟩
      | false =>
        have hsome : (h.lookup field).isSome = true := by
          rw [← Option.not_isNone, hfield]
          rfl
        rw [hfield, if_neg Bool.false_ne_true] at hkept
        rw [if_neg Bool.false_ne_true, hsome]
        by_cases hcard : h.entries.card = 1
        · rw [if_pos hcard]
          refine ⟨_, rfl, ?_, swept_empty c⟩
          rw [erase_eq_empty h field hfield hcard]
          rfl
        · rw [if_neg hcard] at hkept ⊢
          refine ⟨_, rfl, (fields_alive c _ _ i ?_).mpr rfl, hkept, ?_⟩
          · rw [← hx]
            rfl
          · exact if_neg (ne_true_of_eq_false hx)

/-- Without a field the key is in neither map. -/
theorem Swept.eq_empty_iff (t : Slot) (ht : t.Swept c) (hf : t.fields c = some h) : t = .empty ↔
    h = ∅ := by
  constructor
  · rintro rfl
    exact (Option.some.inj hf).symm
  · rintro rfl
    obtain ⟨_ | e, i⟩ := t
    · have hindex : i = none := ht.wellFormed.indexed
      rw [hindex]
      rfl
    · cases hx : e.isExpired c with
      | true =>
        have hpurged := ht.purged
        simp only [Slot.purge, hx, if_true] at hpurged
        exact hpurged.symm
      | false =>
        have hv := (fields_alive c ∅ e i hx).mp hf
        have hstorable := ht.wellFormed.storable e rfl
        rw [hv] at hstorable
        exact absurd rfl hstorable

end Slot

/-! ## `HSET` -/

theorem pairs_pairArgs (ps : List (String × String)) :
    pairs (pairArgs ps) = ps.map fun p => (utf8 p.1, utf8 p.2) := by
  induction ps with
  | nil => rfl
  | cons p ps ih =>
    rw [pairArgs, List.flatMap_cons, ← pairArgs]
    simp only [List.cons_append, List.nil_append, pairs, List.map_cons, ih]

theorem hsetRequest_texts (key : String) (ps : List (String × String)) (hne : ps ≠ []) :
    hsetRequest (utf8 key :: pairArgs ps) =
      some (.ok ⟨key, ps.map fun p => (utf8 p.1, utf8 p.2)⟩) := by
  have hpos := List.length_pos_of_ne_nil hne
  unfold hsetRequest
  rw [if_neg (by simp only [List.length_cons, length_pairArgs]; omega), argStr_key,
    ← pairs_pairArgs]
  rfl

theorem run_hset (c : Clock) (key : String) (ps : List (String × String)) (n : Int)
    (s : MemoryStore) (h : Hash) (hf : (s.slot key).fields c = some h) :
    ∃ s', ((ps.map fun p : String × String => (utf8 p.1, utf8 p.2)).foldlM (fun (n : Int) p => do
          let (field, value) ← lift (fieldValue p)
          let isNew ← tryAtKey key (Slot.hset c field value)
          pure (if isNew then n + 1 else n)) n).run s =
        some (.ok (n + countDistinct (fun f => (h.lookup f).isNone) (ps.map Prod.fst)), s') ∧
      (s'.slot key).fields c = some (hashWith h ps) ∧ ∀ k ≠ key, s'.slot k = s.slot k := by
  induction ps generalizing n s h with
  | nil => exact ⟨s, by simp [countDistinct]; rfl, hf, fun _ _ => rfl⟩
  | cons p ps ih =>
    obtain ⟨t, ht, htf⟩ := Slot.hset_fields c h p.1 p.2 _ hf
    obtain ⟨s', hs', hfields, hothers⟩ :=
      ih (if (h.lookup p.1).isNone then n + 1 else n) (s.put key t) (h.insert p.1 p.2)
        (by rw [MemoryStore.slot_put_self]; exact htf)
    refine ⟨s', ?_, hfields, fun k hk => ?_⟩
    · rw [List.map_cons, List.foldlM_cons,
        fieldValue_ok _ p.1 p.2 (fromUtf8_utf8 _) (fromUtf8_utf8 _), lift_ok_bind]
      rw [run_bind_ok _ _ s (s.put key t) (if (h.lookup p.1).isNone then n + 1 else n) ?_]
      · refine hs'.trans ?_
        rw [List.map_cons, countDistinct_cons _ (fun f => ((h.insert p.1 p.2).lookup f).isNone),
          ← count_step]
        · simp
        · intro f hf
          rw [Finmap.lookup_insert_of_ne _ hf]
      · rw [run_bind_ok _ _ s _ _ (run_tryAtKey key _ s _ t ht)]
        rfl
    · rw [hothers k hk, MemoryStore.slot_put, if_neg hk]

theorem respond_hset (u : CaseMap) (env : Env) (key : String) (ps : List (String × String))
    (hne : ps ≠ []) (s : MemoryStore) (h : Hash) (hf : (s.slot key).fields env.clock = some h) :
    ∃ s', respond u env ⟨"HSET", utf8 key :: pairArgs ps⟩ s =
        (some (.ok (.integer (countDistinct (fun f => (h.lookup f).isNone) (ps.map Prod.fst)))),
          s') ∧
      (s'.slot key).fields env.clock = some (hashWith h ps) ∧ ∀ k ≠ key, s'.slot k = s.slot k := by
  have hpos := List.length_pos_of_ne_nil hne
  have hlength := length_pairArgs ps
  obtain ⟨s', hs', hfields, hothers⟩ := run_hset env.clock key ps 0 s h hf
  refine ⟨s', respond_registered u env .hset (by decide) _
    (arity_atLeast _ _ _ (by simp only [List.length_cons, hlength]; omega)) s s' _ ?_, hfields,
    hothers⟩
  change (hsetCommand env (utf8 key :: pairArgs ps)).run s = _
  unfold hsetCommand
  rw [hsetRequest_texts key ps hne, lift_ok_bind, run_bind_ok _ _ s s' _ hs', Int.zero_add]
  rfl

/-! ## `HDEL` -/

/-- The fields that are left. -/
def without (h : Hash) (fields : List String) : Hash := fields.foldl (fun h f => h.erase f) h

theorem lookup_without (h : Hash) (fields : List String) (f : String) :
    (without h fields).lookup f = if f ∈ fields then none else h.lookup f := by
  induction fields generalizing h with
  | nil => rfl
  | cons field fields ih =>
    change (without (h.erase field) fields).lookup f = _
    rw [ih]
    by_cases hf : f = field
    · subst hf
      simp
    · simp [hf, Finmap.lookup_erase_ne hf]

theorem keyFields_texts (name key : String) (fields : List String) (hne : fields ≠ []) :
    keyFields name (utf8 key :: fields.map utf8) = some (.ok key) := by
  have hpos := List.length_pos_of_ne_nil hne
  unfold keyFields
  rw [if_neg (by simp only [List.length_cons, List.length_map]; omega), argStr_key]

/-- The first turn takes an expired entry away, so only a loop without turns could leave one. -/
theorem run_eachText_hdel (c : Clock) (key : String) (fields : List String) (n : Int)
    (s : MemoryStore) (h : Hash) (hs : (s.slot key).WellFormed)
    (hf : (s.slot key).fields c = some h) (hnil : fields = [] → (s.slot key).purge c = s.slot key) :
    ∃ s', (eachText (fun field => tryAtKey key (Slot.hdel c field))
      (fun n removed => if removed then n + 1 else n)
        (fields.map utf8) n).run s =
        some (.ok (n + countDistinct (fun f => (h.lookup f).isSome) fields), s') ∧
      (s'.slot key).fields c = some (without h fields) ∧ (s'.slot key).Swept c ∧
        ∀ k ≠ key, s'.slot k = s.slot k := by
  induction fields generalizing n s h with
  | nil => exact ⟨s, by simp [eachText, countDistinct]; rfl, hf, ⟨hs, hnil rfl⟩, fun _ _ => rfl⟩
  | cons field fields ih =>
    obtain ⟨t, ht, htf, hswept⟩ := Slot.hdel_fields c h field _ hs hf
    obtain ⟨s', hs', hfields, hend, hothers⟩ :=
      ih (if (h.lookup field).isSome then n + 1 else n) (s.put key t) (h.erase field)
        (by rw [MemoryStore.slot_put_self]; exact hswept.wellFormed)
      (by rw [MemoryStore.slot_put_self]; exact htf)
      (fun _ => by rw [MemoryStore.slot_put_self]; exact hswept.purged)
    refine ⟨s', ?_, hfields, hend, fun k hk => ?_⟩
    · rw [run_eachText_cons _ _ field fields n _ s _ (run_tryAtKey key _ s _ t ht), hs']
      rw [countDistinct_cons _ (fun f => ((h.erase field).lookup f).isSome), ← count_step]
      · simp
      · intro f hf
        rw [Finmap.lookup_erase_ne hf]
    · rw [hothers k hk, MemoryStore.slot_put, if_neg hk]

theorem respond_hdel (u : CaseMap) (env : Env) (key : String) (fields : List String)
    (hne : fields ≠ []) (s : MemoryStore) (hs : (s.slot key).WellFormed) (h : Hash)
    (hf : (s.slot key).fields env.clock = some h) :
    ∃ s', respond u env ⟨"HDEL", utf8 key :: fields.map utf8⟩ s =
        (some (.ok (.integer (countDistinct (fun f => (h.lookup f).isSome) fields))), s') ∧
      (s'.slot key).fields env.clock = some (without h fields) ∧
        (s'.slot key = .empty ↔ without h fields = ∅) ∧
      ∀ k ≠ key, s'.slot k = s.slot k := by
  have hpos := List.length_pos_of_ne_nil hne
  obtain ⟨s', hs', hfields, hend, hothers⟩ :=
    run_eachText_hdel env.clock key fields 0 s h hs hf (absurd · hne)
  refine ⟨s', respond_registered u env .hdel (by decide) _
    (arity_atLeast _ _ _ (by simp only [List.length_cons, List.length_map]; omega)) s s' _ ?_,
    hfields, hend.eq_empty_iff _ _ _ hfields, hothers⟩
  change (hdelCommand env (utf8 key :: fields.map utf8)).run s = _
  unfold hdelCommand
  rw [keyFields_texts "HDEL" key fields hne, lift_ok_bind, List.drop_one, List.tail_cons,
    run_bind_ok _ _ s s' _ hs', Int.zero_add]
  rfl

/-! ## The four commands -/

/-- What the four commands reply and what they leave. Fewer arguments than these are refused. -/
theorem variadic_replies (u : CaseMap) (env : Env) (s : MemoryStore) (hs : Reachable u s) :
    (∀ keys ≠ [], ∃ s', respond u env ⟨"DEL", keys.map utf8⟩ s =
        (some (.ok (.integer (countDistinct (fun k => (s.live env.clock k).isSome) keys))), s') ∧
      ∀ k, s'.slot k = if k ∈ keys then .empty else s.slot k) ∧
    (∀ keys ≠ [], (respond u env ⟨"EXISTS", keys.map utf8⟩ s).1 =
      some (.ok (.integer (keys.countP fun k => (s.live env.clock k).isSome)))) ∧
    (∀ key h, (s.slot key).fields env.clock = some h → ∀ ps ≠ [],
      ∃ s' h', respond u env ⟨"HSET", utf8 key :: pairArgs ps⟩ s =
          (some (.ok (.integer (countDistinct (fun f => (h.lookup f).isNone) (ps.map Prod.fst)))),
            s') ∧
        (s'.slot key).fields env.clock = some h' ∧
          (∀ f, h'.lookup f = (lastOf f ps).or (h.lookup f)) ∧
        ∀ k ≠ key, s'.slot k = s.slot k) ∧
    ∀ key h, (s.slot key).fields env.clock = some h → ∀ fields ≠ [],
      ∃ s' h', respond u env ⟨"HDEL", utf8 key :: fields.map utf8⟩ s =
          (some (.ok (.integer (countDistinct (fun f => (h.lookup f).isSome) fields))), s') ∧
        (s'.slot key).fields env.clock = some h' ∧
        (∀ f, h'.lookup f = if f ∈ fields then none else h.lookup f) ∧
        (s'.slot key = .empty ↔ h' = ∅) ∧ ∀ k ≠ key, s'.slot k = s.slot k := by
  refine ⟨fun keys hne => respond_del u env keys hne s,
    fun keys hne => respond_exists u env keys hne s, fun key h hf ps hne => ?_,
    fun key h hf fields hne => ?_⟩
  · obtain ⟨s', hreply, hfields, hothers⟩ := respond_hset u env key ps hne s h hf
    exact ⟨s', hashWith h ps, hreply, hfields, lookup_hashWith h ps, hothers⟩
  · obtain ⟨s', hreply, hfields, hend, hothers⟩ :=
      respond_hdel u env key fields hne s (hs.wellFormed u s key) h hf
    exact ⟨s', without h fields, hreply, hfields, lookup_without h fields, hend, hothers⟩

/-- A hash with two fields and a string. -/
def mixedStore : MemoryStore :=
  (handleConnection asciiCaseMap .default (fun _ => .sample)
    [encodeCommand [utf8 "HSET", utf8 "h", utf8 "f", utf8 "1", utf8 "g", utf8 "2"],
      encodeCommand [utf8 "SET", utf8 "a", utf8 "v"]] .new).store

def twoFields : Hash := ((∅ : Hash).insert "f" "1").insert "g" "2"

theorem mixedStore_fields : (mixedStore.slot "h").fields Env.sample.clock = some twoFields := by
  decide +kernel

theorem without_twoFields (h : Hash)
    (hlookup : ∀ f, h.lookup f = if f ∈ ["f", "g", "f"] then none else twoFields.lookup f) :
    h = ∅ := by
  refine Finmap.ext_lookup fun f => ?_
  rw [hlookup, Finmap.lookup_empty]
  split_ifs with hmem
  · rfl
  · simp only [List.mem_cons, List.not_mem_nil, or_false, not_or] at hmem
    rw [twoFields, Finmap.lookup_insert_of_ne _ hmem.2.1, Finmap.lookup_insert_of_ne _ hmem.1,
      Finmap.lookup_empty]

/-- Each list names something twice. `HDEL` takes the last field, and the key with it. -/
theorem listed_twice_counted :
    Reachable asciiCaseMap mixedStore ∧
    (∃ s', respond asciiCaseMap .sample ⟨"DEL", ["a", "b", "a"].map utf8⟩ mixedStore =
      (some (.ok (.integer 1)), s') ∧
      s'.slot "a" = .empty ∧ s'.slot "h" = mixedStore.slot "h") ∧
    (respond asciiCaseMap .sample ⟨"EXISTS", ["a", "b", "h", "a"].map utf8⟩ mixedStore).1 =
      some (.ok (.integer 3)) ∧
    (∃ s' h', respond asciiCaseMap .sample
      ⟨"HSET", utf8 "h" :: pairArgs [("g", "5"), ("x", "6"), ("x", "7")]⟩ mixedStore =
        (some (.ok (.integer 1)), s') ∧ (s'.slot "h").fields Env.sample.clock = some h' ∧
      h'.lookup "f" = some "1" ∧ h'.lookup "g" = some "5" ∧ h'.lookup "x" = some "7") ∧
    ∃ s', respond asciiCaseMap .sample ⟨"HDEL", utf8 "h" :: ["f", "g", "f"].map utf8⟩ mixedStore =
        (some (.ok (.integer 2)), s') ∧ s'.slot "h" = .empty := by
  have hreachable : Reachable asciiCaseMap mixedStore := handleConnection_reachable ..
  obtain ⟨hdel, hexists, hhset, hhdel⟩ :=
    variadic_replies asciiCaseMap .sample mixedStore hreachable
  refine ⟨hreachable, ?_, ?_, ?_, ?_⟩
  · obtain ⟨s', hreply, hslots⟩ := hdel ["a", "b", "a"] (List.cons_ne_nil _ _)
    have hcount : countDistinct (fun k => (mixedStore.live Env.sample.clock k).isSome) ["a", "b",
      "a"] = 1 := by
      decide +kernel
    rw [hcount] at hreply
    exact ⟨s', hreply, hslots "a", hslots "h"⟩
  · rw [hexists ["a", "b", "h", "a"] (List.cons_ne_nil _ _)]
    have hcount : (["a", "b", "h", "a"].countP
      fun k => (mixedStore.live Env.sample.clock k).isSome) = 3 := by
      decide +kernel
    rw [hcount]
    rfl
  · obtain ⟨s', h', hreply, hfields, hlookup, -⟩ := hhset "h" twoFields mixedStore_fields
      [("g", "5"), ("x", "6"), ("x", "7")] (List.cons_ne_nil _ _)
    exact ⟨s', h', hreply, hfields, hlookup "f", hlookup "g", hlookup "x"⟩
  · obtain ⟨s', h', hreply, -, hlookup, hempty, -⟩ :=
      hhdel "h" twoFields mixedStore_fields ["f", "g", "f"] (List.cons_ne_nil _ _)
    exact ⟨s', hreply, hempty.mpr (without_twoFields h' hlookup)⟩

end RustyPotato
