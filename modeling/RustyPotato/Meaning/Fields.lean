import RustyPotato.Meaning.Rules

/-! # What the commands on hashes mean -/

namespace RustyPotato

open Cmd Parse

namespace Database

variable (env : Env) (key : String)

/-! ## Commands that read -/

theorem readHash_live {α : Type} (operation : String) (missing : α) (read : Hash → α)
    (hmissing : read ∅ = missing) (t : Slot) :
    (t.readHash env.clock operation missing read).1.mapError RustyPotatoError.toClientError =
      (fields (t.live env.clock)).map read := by
  simp only [Slot.readHash, Slot.live]
  cases t.unexpired env.clock with
  | none =>
    rw [← hmissing]
    rfl
  | some e =>
    simp only [Option.map_some, StoredValue.toEntry, fields]
    cases e.value <;> rfl

theorem means_readHash {α : Type} (operation : String) (missing : α) (read : Hash → α)
    (hmissing : read ∅ = missing) :
    Means env.clock (tryAtKey key (Slot.readHash env.clock operation missing read)) fun db =>
      ((fields (db key)).map read, db) := by
  refine (means_tryAtKey env.clock key .purge _ (fun e => (fields e).map read) (fun _ => rfl)
    (readHash_live env operation missing read hmissing)).congr env.clock _ _ _ fun db => ?_
  rw [Op.apply, put_self]

theorem means_hashReply {α : Type} (operation : String) (missing : α) (read : Hash → α)
    (hmissing : read ∅ = missing) (reply : α → ResponseValue) :
    Means env.clock (tryAtKey key (Slot.readHash env.clock operation missing read) >>= fun a =>
      pure (reply a)) fun db =>
      ((fields (db key)).map fun h => reply (read h), db) := by
  refine (means_map env.clock _ reply _
    (means_readHash env key operation missing read hmissing)).congr env.clock _ _ _ fun db => ?_
  cases fields (db key) <;> rfl

theorem keyField_texts (name field : String) :
    keyField name [utf8 key, utf8 field] = some (.ok (key, field)) := by
  unfold keyField
  rw [if_neg (by simp)]
  refine (bind_eq_ok _ _ _).mpr ⟨key, argStr_key key _, ?_⟩
  exact (bind_eq_ok _ _ _).mpr ⟨field, argText_ok _ field (fromUtf8_utf8 field), rfl⟩

theorem means_hget (field : String) :
    Means env.clock (hgetCommand env [utf8 key, utf8 field]) fun db =>
      ((fields (db key)).map fun h => bulkOrNil (h.lookup field), db) := by
  unfold hgetCommand
  rw [keyField_texts, lift_ok_bind]
  exact means_hashReply env key "hget" none _ rfl bulkOrNil

theorem means_hexists (field : String) :
    Means env.clock (hexistsCommand env [utf8 key, utf8 field]) fun db =>
      ((fields (db key)).map fun h => .integer (if (h.lookup field).isSome then 1 else 0), db) := by
  unfold hexistsCommand
  rw [keyField_texts, lift_ok_bind]
  exact means_hashReply env key "hexists" false (fun h => (h.lookup field).isSome) rfl fun found =>
    .integer (if found then 1 else 0)

theorem means_wholeHash (name : String) (reply : List (String × String) → ResponseValue) :
    Means env.clock (wholeHash name reply env [utf8 key]) fun db =>
      ((fields (db key)).map fun h => reply (env.hashOrder.toList h), db) := by
  unfold wholeHash
  rw [oneKey_key, lift_ok_bind]
  exact means_hashReply env key "hgetall" [] _ (IterOrder.toList_empty _) reply

/-! ## Commands on several fields -/

theorem hset_live (c : Clock) (field value : String) (t : Slot) :
    (t.hset c field value).1.mapError RustyPotatoError.toClientError =
      (fields (t.live c)).map fun h => (h.lookup field).isNone := by
  obtain ⟨_ | e, i⟩ := t
  · rfl
  · cases hx : e.isExpired c with
    | true =>
      simp only [Slot.hset, Slot.purge, hx, if_true, Slot.live_expired]
      rfl
    | false =>
      rw [Slot.live_alive c e i hx]
      simp only [Slot.hset, Slot.purge, hx, Bool.false_eq_true, if_false, StoredValue.toEntry,
        fields]
      cases e.value <;> rfl

/-- One pair of `HSET`. -/
def hsetOne (n : Int) (p : String × String) (db : Database) : Except String Int × Database :=
  ((fields (db key)).map fun h => if (h.lookup p.1).isNone then n + 1 else n,
    db.put key ((Op.hset p.1 p.2).apply env.clock (db key)))

theorem put_put (db : Database) (e e' : Option Entry) :
    (db.put key e).put key e' = db.put key e' := by
  funext k
  by_cases hk : k = key <;> simp [put, hk]

@[simp] theorem put_at (db : Database) (e : Option Entry) : db.put key e key = e := if_pos rfl

theorem forEach_hsetOne_hash (ps : List (String × String)) (n : Int) (h : Hash) (d : Option Int)
    (db : Database) (hdb : db key = some ⟨.hash h, d⟩) :
    forEach (hsetOne env key) ps n db =
      (.ok (n + countDistinct (fun f => (h.lookup f).isNone) (ps.map Prod.fst)),
        db.put key (some ⟨.hash (hashWith h ps), d⟩)) := by
  induction ps generalizing n h db with
  | nil =>
    have hsame : db.put key (some ⟨.hash (hashWith h []), d⟩) = db := by
      rw [hashWith, List.foldl_nil, ← hdb, put_self]
    rw [hsame]
    simp [forEach, countDistinct]
  | cons p ps ih =>
    simp only [forEach, andThen, hsetOne, hdb, fields, Except.map, Op.apply]
    rw [ih _ (h.insert p.1 p.2) _ (put_at ..), put_put, List.map_cons,
      countDistinct_cons _ (fun f => ((h.insert p.1 p.2).lookup f).isNone) p.1 _ (by simp)
        fun f hf => by rw [Finmap.lookup_insert_of_ne _ hf], ← count_step]
    rfl

theorem means_hset (ps : List (String × String)) (hne : ps ≠ []) :
    Means env.clock (hsetCommand env (utf8 key :: pairArgs ps))
      ((Query.hset key ps).meaning env) := by
  unfold hsetCommand
  rw [hsetRequest_texts key ps hne, lift_ok_bind, List.foldlM_map]
  refine (means_map env.clock _ _ _
    (means_foldlM env.clock _ (hsetOne env key) ps (fun n p _ => ?_) 0)).congr env.clock _ _ _
    fun db => ?_
  · rw [fieldValue_ok _ p.1 p.2 (fromUtf8_utf8 _) (fromUtf8_utf8 _), lift_ok_bind]
    refine (means_map env.clock _ (fun isNew => if isNew then n + 1 else n) _
      (means_tryAtKey env.clock key (.hset p.1 p.2) _
        (fun e => (fields e).map fun h => (h.lookup p.1).isNone) (fun _ => rfl)
      (hset_live env.clock p.1 p.2))).congr env.clock _ _ _ fun db => ?_
    simp only [hsetOne]
    cases fields (db key) <;> rfl
  · obtain ⟨p, ps, rfl⟩ := List.exists_cons_of_ne_nil hne
    simp only [Query.meaning]
    cases hdb : db key with
    | none =>
      simp only [forEach, andThen, hsetOne, hdb, fields, Except.map, Op.apply]
      rw [forEach_hsetOne_hash env key ps _ _ none _ (put_at ..), put_put]
      simp only [List.map_cons, Option.bind_none]
      rw [countDistinct_cons _ (fun f => (((∅ : Hash).insert p.1 p.2).lookup f).isNone) p.1 _
        (by simp) fun f hf => by rw [Finmap.lookup_insert_of_ne _ hf]]
      simp [hashWith]
    | some e =>
      obtain ⟨v, d⟩ := e
      cases v with
      | hash h =>
        rw [forEach_hsetOne_hash env key (p :: ps) 0 h d db hdb, Int.zero_add]
        rfl
      | _ =>
        have hsame : db.put key (db key) = db := put_self db key
        rw [hdb] at hsame
        simp only [forEach, andThen, hsetOne, hdb, fields, Except.map, Op.apply, hsame]

theorem hdel_live (c : Clock) (field : String) (t : Slot) :
    (t.hdel c field).1.mapError RustyPotatoError.toClientError =
      (fields (t.live c)).map fun h => (h.lookup field).isSome := by
  obtain ⟨_ | e, i⟩ := t
  · rfl
  · cases hx : e.isExpired c with
    | true =>
      simp only [Slot.hdel, hx, if_true, Slot.live_expired]
      rfl
    | false =>
      rw [Slot.live_alive c e i hx]
      simp only [Slot.hdel, hx, Bool.false_eq_true, if_false, StoredValue.toEntry, fields]
      cases e.value with
      | hash h =>
        cases hf : h.lookup field with
        | none => simp [hf, Except.mapError, Except.map]
        | some v =>
          simp only [hf, Option.isNone_some, Bool.false_eq_true, if_false]
          split_ifs <;> simp [Except.mapError, Except.map, hf]
      | _ => rfl

theorem hdel_apply_same (c : Clock) (field : String) (e : Option Entry)
    (h : ∀ g, fields e = .ok g → g.lookup field = none) : (Op.hdel field).apply c e = e := by
  cases e with
  | none => rfl
  | some e =>
    simp only [fields] at h
    simp only [Op.apply]
    cases hv : e.value with
    | hash g =>
      rw [hv] at h
      simp [h g rfl]
    | _ => rfl

/-- One field of `HDEL`. -/
def hdelOne (n : Int) (field : String) (db : Database) : Except String Int × Database :=
  ((fields (db key)).map fun h => if (h.lookup field).isSome then n + 1 else n,
    db.put key ((Op.hdel field).apply env.clock (db key)))

theorem card_of_erase_eq_empty (h : Hash) (field : String) (hfield : (h.lookup field).isSome = true)
    (herase : h.erase field = ∅) : h.entries.card = 1 := by
  have hkeys : h.keys = {field} := by
    ext f
    rw [Finset.mem_singleton, Finmap.mem_keys, ← Finmap.lookup_isSome]
    constructor
    · intro hf
      by_contra hne
      rw [← Finmap.lookup_erase_ne hne, herase, Finmap.lookup_empty] at hf
      cases hf
    · rintro rfl
      exact hfield
  have hcard : h.keys.card = h.entries.card := Multiset.card_map ..
  rw [← hcard, hkeys, Finset.card_singleton]

theorem without_ne (h : Hash) (field : String) (names : List String)
    (hfield : (h.lookup field).isSome = true) : without (h.erase field) names ≠ h := by
  intro hsame
  have hgone := lookup_without (h.erase field) names field
  rw [hsame, Finmap.lookup_erase, ite_self] at hgone
  simp [hgone] at hfield

/-- By induction on the fields. A turn may take the key away, and then the others find nothing. -/
theorem forEach_hdelOne (names : List String) (n : Int) (h : Hash) (db : Database)
    (hdb : fields (db key) = .ok h) :
    forEach (hdelOne env key) names n db =
      (.ok (n + countDistinct (fun f => (h.lookup f).isSome) names),
        if without h names = h then db
        else if without h names = ∅ then db.put key none
        else db.put key (some ⟨.hash (without h names), (db key).bind Entry.deadline⟩)) := by
  induction names generalizing n h db with
  | nil => simp [forEach, countDistinct, without]
  | cons field names ih =>
    have hcount := countDistinct_cons (fun f => (h.lookup f).isSome)
      (fun f => ((h.erase field).lookup f).isSome) field names (by simp) fun f hf => by
        rw [Finmap.lookup_erase_ne hf]
    have hwithout : without h (field :: names) = without (h.erase field) names := rfl
    simp only [forEach, andThen, hdelOne, hdb, Except.map]
    rw [hcount, hwithout, ← count_step]
    cases hfield : (h.lookup field).isSome with
    | false =>
      have hnone : h.lookup field = none := by simpa using hfield
      have herase : h.erase field = h := by
        refine Finmap.ext_lookup fun f => ?_
        by_cases hf : f = field
        · rw [hf, Finmap.lookup_erase, hnone]
        · rw [Finmap.lookup_erase_ne hf]
      have happly : (Op.hdel field).apply env.clock (db key) = db key := by
        refine hdel_apply_same env.clock field (db key) fun g hg => ?_
        rw [hdb, Except.ok.injEq] at hg
        rw [← hg, hnone]
      rw [happly, put_self, ih _ h db hdb, herase]
    | true =>
      -- There is such a field, so there is a hash.
      obtain ⟨d, hkey⟩ : ∃ d, db key = some ⟨.hash h, d⟩ := by
        cases hkey : db key with
        | none =>
          rw [hkey] at hdb
          cases hdb
          simp at hfield
        | some e =>
          obtain ⟨v, d⟩ := e
          rw [hkey] at hdb
          cases v with
          | hash g =>
            cases hdb
            exact ⟨d, rfl⟩
          | _ => cases hdb
      have hne := without_ne h field names hfield
      rw [if_neg hne, hkey]
      have hsome : (h.lookup field).isNone = false := by simpa using hfield
      simp only [Op.apply, hsome, Bool.false_eq_true, if_false, if_true, Option.bind_some]
      by_cases hcard : h.entries.card = 1
      · have hempty : h.erase field = ∅ := Slot.erase_eq_empty h field hsome hcard
        have hrest : without (∅ : Hash) names = ∅ := by
          refine Finmap.ext_lookup fun f => ?_
          rw [lookup_without, Finmap.lookup_empty, ite_self]
        rw [if_pos hcard, ih _ ∅ _ (by rw [put_at]; rfl), hempty, hrest]
        simp
      · have hleft : h.erase field ≠ ∅ :=
          fun hempty => hcard (card_of_erase_eq_empty h field hfield hempty)
        rw [if_neg hcard, ih _ (h.erase field) _ (by rw [put_at]; rfl), put_put, put_put, put_at]
        simp only [Option.bind_some]
        split_ifs with hsame hgone
        · exact absurd (hsame.symm.trans hgone) hleft
        · rw [hsame]
        · rfl
        · rfl

theorem means_hdel (names : List String) (hne : names ≠ []) :
    Means env.clock (hdelCommand env (utf8 key :: names.map utf8))
      ((Query.hdel key names).meaning env) := by
  unfold hdelCommand
  rw [keyFields_texts "HDEL" key names hne, lift_ok_bind, List.drop_one, List.tail_cons]
  refine (means_map env.clock _ _ _
    (means_eachText env.clock _ _ (hdelOne env key) (fun n field => ?_) names 0)).congr env.clock _
    _ _ fun db => ?_
  · refine (means_map env.clock _ (fun removed => if removed then n + 1 else n) _
      (means_tryAtKey env.clock key (.hdel field) _
        (fun e => (fields e).map fun h => (h.lookup field).isSome) (fun _ => rfl)
      (hdel_live env.clock field))).congr env.clock _ _ _ fun db => ?_
    simp only [hdelOne]
    cases fields (db key) <;> rfl
  · simp only [Query.meaning]
    cases hdb : fields (db key) with
    | ok h =>
      rw [forEach_hdelOne env key names 0 h db hdb, Int.zero_add]
      rfl
    | error e =>
      obtain ⟨field, names, rfl⟩ := List.exists_cons_of_ne_nil hne
      have happly : (Op.hdel field).apply env.clock (db key) = db key := by
        refine hdel_apply_same env.clock field (db key) fun g hg => ?_
        rw [hdb] at hg
        cases hg
      simp only [forEach, andThen, hdelOne, hdb, Except.map, happly, put_self]

/-- One field of `HMGET`. -/
def hmgetOne (out : List ResponseValue) (field : String) (db : Database) :
    Except String (List ResponseValue) × Database :=
  ((fields (db key)).map fun h => out ++ [bulkOrNil (h.lookup field)], db)

theorem forEach_hmgetOne (names : List String) (out : List ResponseValue) (h : Hash) (db : Database)
    (hdb : fields (db key) = .ok h) :
    forEach (hmgetOne key) names out db = (.ok (out ++ names.map fun f => bulkOrNil (h.lookup f)),
      db) := by
  induction names generalizing out with
  | nil => simp [forEach]
  | cons field names ih =>
    simp only [forEach, andThen, hmgetOne, hdb, Except.map, ih, List.map_cons, List.append_assoc,
      List.cons_append, List.nil_append]

theorem means_hmget (names : List String) (hne : names ≠ []) :
    Means env.clock (hmgetCommand env (utf8 key :: names.map utf8))
      ((Query.hmget key names).meaning env) := by
  unfold hmgetCommand
  rw [keyFields_texts "HMGET" key names hne, lift_ok_bind, List.drop_one, List.tail_cons]
  refine (means_map env.clock _ _ _
    (means_eachText env.clock _ _ (hmgetOne key) (fun out field => ?_) names [])).congr env.clock _
    _ _ fun db => ?_
  · refine (means_map env.clock _ (fun found => out ++ [bulkOrNil found]) _
      (means_readHash env key "hget" none _ rfl)).congr env.clock _ _ _ fun db => ?_
    simp only [hmgetOne]
    cases fields (db key) <;> rfl
  · simp only [Query.meaning]
    cases hdb : fields (db key) with
    | ok h =>
      rw [forEach_hmgetOne key names [] h db hdb]
      rfl
    | error e =>
      obtain ⟨field, names, rfl⟩ := List.exists_cons_of_ne_nil hne
      simp only [forEach, andThen, hmgetOne, hdb, Except.map]

end Database

end RustyPotato
