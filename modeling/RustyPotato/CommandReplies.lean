import RustyPotato.ReplyRules

/-!
# What each command replies

A value that the client can read, or an error of one line. The four commands whose errors repeat
more than fixed texts are not here.
-/

namespace RustyPotato

open Cmd Parse

/--
From a store of ordinary size the command replies with a value that can be read, or an error of one
line.
-/
def Cmd.Replies (m : Cmd ResponseValue) : Prop := Ensures MemoryStore.Small m fun v _ => v.Sized

theorem Slot.readHash_wrongType {α : Type} (c : Clock) (operation : String) (missing : α)
    (read : Hash → α) (t : Slot) (e : RustyPotatoError)
    (h : (t.readHash c operation missing read).1 = .error e) : e.toClientError = wrongType := by
  unfold Slot.readHash at h
  simp only at h
  split at h
  · split at h <;> cases h
    rfl
  · cases h

theorem Slot.readHash_read {α : Type} (c : Clock) (operation : String) (missing a : α)
    (read : Hash → α) (t : Slot) (h : (t.readHash c operation missing read).1 = .ok a) :
    a = missing ∨ ∃ e g, t.unexpired c = some e ∧ e.value = .hash g ∧ a = read g := by
  unfold Slot.readHash at h
  simp only at h
  split at h
  · rename_i e he
    split at h
    · rename_i g hg
      cases h
      exact .inr ⟨e, g, he, hg, rfl⟩
    · cases h
  · cases h
    exact .inl rfl

theorem Slot.hset_wrongType (c : Clock) (field value : String) (t : Slot) (e : RustyPotatoError)
    (h : (t.hset c field value).1 = .error e) : e.toClientError = wrongType := by
  unfold Slot.hset at h
  simp only at h
  split at h
  · split at h <;> cases h
    rfl
  · cases h

theorem Slot.hdel_wrongType (c : Clock) (field : String) (t : Slot) (e : RustyPotatoError)
    (h : (t.hdel c field).1 = .error e) : e.toClientError = wrongType := by
  unfold Slot.hdel at h
  split at h
  · split_ifs at h
    split at h
    · split_ifs at h
    · cases h
      rfl
  · cases h

theorem wrongType_oneLine : ¬ HasLineEnd wrongType.toList := by decide

section Commands

variable (env : Env) (args : List Bytes)

theorem setCommand_replies : (setCommand env args).Replies := by
  refine ensures_lift_bind _ _ (setRequest_oneLine env.clock args) fun r _ => ?_
  refine ensures_bind (Q := fun outcome _ => ∀ e, outcome.previous = some e → e.Small) _ _ _ ?_
    fun outcome => ?_
  · refine ensures_atKey _ _ fun s hs e he => ?_
    rw [Slot.setWithOptions_previous] at he
    exact (hs.slot r.key).unexpired env.clock _ e he
  · split
    · unfold previousReply
      split
      · rename_i stored hstored
        split
        · exact ensures_pure _ fun s hs => sized_asString _ (hs stored hstored).value
        · exact ensures_pure _ fun s hs => sized_asString _ (hs stored hstored).value
        · exact ensures_fail _ wrongType_oneLine
        · exact ensures_fail _ wrongType_oneLine
      · exact ensures_pure _ fun _ _ => sized_nilBulk
    · split
      · exact ensures_pure _ fun _ _ => sized_simpleString _ (by decide)
      · exact ensures_pure _ fun _ _ => sized_nilBulk

theorem getCommand_replies : (getCommand env args).Replies := by
  refine ensures_lift_bind _ _ (oneKey_oneLine args "GET" (by decide)) fun key _ => ?_
  refine ensures_bind (Q := fun found _ => ∀ e, found = some e → e.Small) _ _ _ ?_ fun found => ?_
  · exact ensures_atKey _ _ fun s hs e he => (hs.slot key).unexpired env.clock _ e he
  · split
    · rename_i stored
      split
      · rename_i b hb
        refine ensures_pure _ fun s hs => sized_bulk _ ?_
        have hsmall := (hs stored rfl).value
        unfold ValueType.asBytes at hb
        split at hb
        · rename_i hvalue
          cases hb
          rw [hvalue] at hsmall
          have : b.length ≤ 2 ^ 29 := hsmall
          omega
        · cases hb
      · exact ensures_pure _ fun s hs => sized_asString _ (hs stored rfl).value
    · exact ensures_pure _ fun _ _ => sized_nilBulk

theorem counts_replies {α : Type} (name : String) (hname : plain name = true)
    (hcount : args.length ≤ 2 ^ 29) (f : Slot → α × Slot) (counted : α → Bool) :
    (do
      lift (someArgs name args)
      let n ← eachText (fun key => atKey key f) (fun n a => if counted a then n + 1 else n) args
        (0 : Int)
      return .integer n : Cmd ResponseValue).Replies := by
  refine ensures_lift_bind _ _ (someArgs_oneLine args name hname) fun _ _ => ?_
  have hloop := ensures_eachText (fun key => atKey key f)
    (fun n a => if counted a then n + 1 else n) (fun k (n : Int) _ => 0 ≤ n ∧ n ≤ k)
    (fun k n key => ?_) args 0
  · refine ensures_bind (Q := fun (n : Int) _ => 0 ≤ n ∧ n ≤ args.length) _ _ _ ?_ fun n => ?_
    · intro s r s' _ hrun
      exact hloop s r s' ⟨le_rfl, by simp⟩ hrun
    · exact ensures_pure _ fun s hs => sized_integer n (by omega)
  · refine ensures_atKey _ _ fun s hs => ?_
    push_cast
    split_ifs <;> omega

theorem delCommand_replies (hcount : args.length ≤ 2 ^ 29) : (delCommand env args).Replies :=
  counts_replies args "DEL" (by decide) hcount _ id

theorem existsCommand_replies (hcount : args.length ≤ 2 ^ 29) : (existsCommand env args).Replies :=
  counts_replies args "EXISTS" (by decide) hcount _ id

/-- What a loop has collected for an array. -/
structure Collected (k : Nat) (out : List ResponseValue) (s : MemoryStore) : Prop where
  slot : ∀ key, (s.slot key).Small
  length : out.length = k
  sized : ∀ v ∈ out, v.Sized

theorem Collected.add (k : Nat) (out : List ResponseValue) (s s' : MemoryStore) (v : ResponseValue)
    (h : Collected k out s) (hs : ∀ key, (s'.slot key).Small) (hv : v.Sized) :
    Collected (k + 1) (out ++ [v]) s' where
  slot := hs
  length := by rw [List.length_append, h.length]; rfl
  sized w hw := by
    rcases List.mem_append.mp hw with hw | hw
    · exact h.sized w hw
    · rw [List.mem_singleton.mp hw]
      exact hv

theorem collected_replies {α : Type} (items : List Bytes) (hcount : items.length ≤ 2 ^ 29)
    (m : String → Cmd α) (reply : α → ResponseValue)
    (hm : ∀ text, Ensures (fun s => ∀ key, (s.slot key).Small) (m text)
      fun a s => (∀ key, (s.slot key).Small) ∧ (reply a).Sized) :
    (do
      let out ← eachText m (fun out a => out ++ [reply a]) items []
      return .array out : Cmd ResponseValue).Replies := by
  have hloop := ensures_eachText m (fun out a => out ++ [reply a]) Collected
    (fun k out text => ?_) items []
  · refine ensures_bind (Q := Collected items.length) _ _ _ ?_ fun out => ?_
    · intro s r s' hs hrun
      exact hloop s r s' ⟨hs.slot, rfl, by simp⟩ hrun
    · exact ensures_pure _ fun s hs => sized_array out (by have := hs.length; omega) hs.sized
  · intro s r s' hs hrun
    have := hm text s r s' hs.slot hrun
    cases r with
    | ok a => exact hs.add k out s s' (reply a) this.1 this.2
    | error e => exact this

theorem mgetCommand_replies (hcount : args.length ≤ 2 ^ 29) : (mgetCommand env args).Replies := by
  refine ensures_lift_bind _ _ (someArgs_oneLine args "MGET" (by decide)) fun _ _ => ?_
  refine collected_replies args hcount _ mgetSlot fun key => ensures_atKey _ _ fun s hs => ?_
  refine ⟨small_put s key _ hs ((hs key).purge env.clock _), ?_⟩
  have hfound := (hs key).unexpired env.clock
  unfold Slot.get mgetSlot
  simp only
  split
  · rename_i stored hstored
    have hsmall := (hfound stored hstored).value
    split
    · rename_i b hvalue
      rw [hvalue] at hsmall
      have : b.length ≤ 2 ^ 29 := hsmall
      exact sized_bulk b (by omega)
    · exact sized_asString _ hsmall
    · exact sized_nilBulk
  · exact sized_nilBulk

theorem msetCommand_replies : (msetCommand env args).Replies := by
  have hpairs : OneLine (msetPairs args) :=
    oneLine_guard _ _ (wrongNumber_oneLine "MSET" (by decide)) _ (oneLine_pure _)
  refine ensures_lift_bind _ _ hpairs fun ps _ => ?_
  refine ensures_bind (Q := fun _ _ => True) _ _ _ ?_ fun _ => ?_
  · have hloop := ensures_foldlM (fun _ p => do
      let key ← lift (argText p.1)
      atKey key fun t => ((), t.set env.clock (.string p.2))) (fun _ _ _ => True)
        (fun _ _ p => ?_) ps 0 ()
    · exact fun s r s' _ hrun => hloop s r s' trivial hrun
    · refine ensures_lift_bind _ _ (oneLine_argText _) fun key _ => ?_
      exact ensures_atKey _ _ fun _ _ => trivial
  · exact ensures_pure _ fun _ _ => sized_simpleString _ (by decide)

theorem deadlineCommand_replies (name : String) (hname : plain name = true)
    (resolve : Clock → Nat → Parse Int) (hresolve : ∀ c n, OneLine (resolve c n)) :
    (deadlineCommand name resolve env args).Replies := by
  refine ensures_lift_bind _ _ (deadlineRequest_oneLine args name hname _ (hresolve env.clock))
    fun r _ => ?_
  refine ensures_bind (Q := fun _ _ => True) _ _ _ (ensures_atKey _ _ fun _ _ => trivial)
    fun applied => ?_
  exact ensures_pure _ fun _ _ => sized_integer _ (by split_ifs <;> decide)

theorem slotNumber_replies (name : String) (hname : plain name = true) (f : Slot → Int × Slot)
    (hf : ∀ t, t.Small → -(2 ^ 63) ≤ (f t).1 ∧ (f t).1 < 2 ^ 63) :
    (do
      let key ← lift (oneKey name args)
      let n ← atKey key f
      return .integer n : Cmd ResponseValue).Replies := by
  refine ensures_lift_bind _ _ (oneKey_oneLine args name hname) fun key _ => ?_
  refine ensures_bind (Q := fun n _ => -(2 ^ 63) ≤ n ∧ n < 2 ^ 63) _ _ _ ?_ fun n => ?_
  · exact ensures_atKey _ _ fun s hs => hf _ (hs.slot key)
  · exact ensures_pure _ fun _ hn => sized_integer n hn

theorem ttlCommand_replies : (ttlCommand env args).Replies := by
  refine slotNumber_replies args "TTL" (by decide) _ fun t ht => ?_
  unfold Slot.ttl
  simp only
  split
  · rename_i e he
    have hdeadline := (ht.unexpired env.clock t e he).deadline
    unfold StoredValue.ttlSeconds
    cases hd : e.expiresAt with
    | none => simp
    | some d =>
      have hlt := hdeadline d hd
      have hnow : 0 ≤ env.clock.now := Int.natCast_nonneg _
      simp only [Option.map_some, Option.getD_some]
      split_ifs
      · unfold nanosPerSec at *
        omega
      · decide
  · decide

theorem pttlCommand_replies : (pttlCommand env args).Replies := by
  refine slotNumber_replies args "PTTL" (by decide) _ fun t _ => ?_
  unfold Slot.pttl
  simp only
  split
  · rename_i e he
    unfold StoredValue.ttlMillis
    cases hd : e.expiresAt with
    | none => simp
    | some d =>
      simp only [Option.map_some, Option.getD_some]
      split_ifs
      · unfold nanosPerMilli at *
        omega
      · decide
  · decide

/-! ## Hashes -/

theorem length_pairs (args : List Bytes) : (pairs args).length ≤ args.length := by
  fun_induction pairs args with
  | case1 a b rest ih =>
    simp only [List.length_cons]
    omega
  | case2 => simp

theorem fieldValue_oneLine (p : Bytes × Bytes) : OneLine (fieldValue p) :=
  oneLine_bind _ _ (oneLine_argText _) fun _ => oneLine_bind _ _ (oneLine_argText _)
    fun _ => oneLine_pure _

theorem hsetRequest_pairs (r : HsetRequest) (h : hsetRequest args = some (.ok r)) :
    r.pairs.length ≤ args.length := by
  unfold hsetRequest at h
  split at h
  · cases h
  · obtain ⟨key, -, hr⟩ := (bind_eq_ok ..).mp h
    cases hr
    have := length_pairs (args.drop 1)
    rw [List.length_drop] at this
    exact this.trans (Nat.sub_le _ _)

theorem hsetCommand_replies (hcount : args.length ≤ 2 ^ 29) : (hsetCommand env args).Replies := by
  have hrequest : OneLine (hsetRequest args) :=
    oneLine_guard _ _ (wrongNumber_oneLine "HSET" (by decide)) _
      (oneLine_bind _ _ (oneLine_argStr args 0) fun _ => oneLine_pure _)
  refine ensures_lift_bind _ _ hrequest fun r hr => ?_
  have hpairs := hsetRequest_pairs args r hr
  refine ensures_bind (Q := fun (n : Int) _ => 0 ≤ n ∧ n ≤ r.pairs.length) _ _ _ ?_ fun n => ?_
  · have hloop := ensures_foldlM (fun (n : Int) p => do
      let fv ← lift (fieldValue p)
      let isNew ← tryAtKey r.key (Slot.hset env.clock fv.1 fv.2)
      pure (if isNew then n + 1 else n)) (fun k n _ => 0 ≤ n ∧ n ≤ k) (fun k n p => ?_) r.pairs 0 0
    · rw [Nat.zero_add] at hloop
      exact fun s r s' _ hrun => hloop s r s' ⟨le_rfl, by simp⟩ hrun
    · refine ensures_lift_bind _ _ (fieldValue_oneLine p) fun fv _ => ?_
      refine ensures_bind (Q := fun _ _ => 0 ≤ n ∧
        n ≤ k) _ _ _ ?_ fun isNew => ensures_pure _ fun _ hs => ?_
      · refine ensures_tryAtKey _ _ (fun _ _ hs _ => hs) fun s e _ he => ?_
        rw [Slot.hset_wrongType _ _ _ _ e he]
        exact wrongType_oneLine
      · push_cast
        split_ifs <;> omega
  · exact ensures_pure _ fun _ hs => sized_integer n (by omega)

theorem hdelCommand_replies (hcount : args.length ≤ 2 ^ 29) : (hdelCommand env args).Replies := by
  refine ensures_lift_bind _ _ (keyFields_oneLine args "HDEL" (by decide)) fun key _ => ?_
  have hdrop : (args.drop 1).length ≤ args.length := by
    rw [List.length_drop]
    exact Nat.sub_le _ _
  have hloop := ensures_eachText (fun field => tryAtKey key (Slot.hdel env.clock field))
    (fun n removed => if removed then n + 1 else n) (fun k (n : Int) _ => 0 ≤ n ∧ n ≤ k)
    (fun k n field => ?_) (args.drop 1) 0
  · refine ensures_bind (Q := fun (n : Int) _ => 0 ≤ n ∧ n ≤ (args.drop 1).length) _ _ _ ?_
      fun n => ?_
    · exact fun s r s' _ hrun => hloop s r s' ⟨le_rfl, by simp⟩ hrun
    · exact ensures_pure _ fun s hs => sized_integer n (by omega)
  · refine ensures_tryAtKey _ _ (fun s removed hs _ => ?_) fun s e _ he => ?_
    · push_cast
      split_ifs <;> omega
    · rw [Slot.hdel_wrongType _ _ _ e he]
      exact wrongType_oneLine

theorem readHash_ensures {α : Type} (key operation : String) (missing : α) (read : Hash → α)
    (good : α → Prop) (hmissing : good missing)
    (hread : ∀ g, (ValueType.hash g).Small → good (read g)) :
    Ensures (fun s => ∀ k, (s.slot k).Small)
      (tryAtKey key (Slot.readHash env.clock operation missing read))
      fun a s => (∀ k, (s.slot k).Small) ∧ good a := by
  refine ensures_tryAtKey _ _ (fun s a hs ha => ?_) fun s e _ he => ?_
  · refine ⟨small_put s key _ hs ((hs key).purge env.clock _), ?_⟩
    rcases Slot.readHash_read _ _ _ _ _ _ ha with rfl | ⟨e, g, he, hg, rfl⟩
    · exact hmissing
    · have hsmall := ((hs key).unexpired env.clock _ e he).value
      rw [hg] at hsmall
      exact hread g hsmall
  · rw [Slot.readHash_wrongType _ _ _ _ _ e he]
    exact wrongType_oneLine

theorem hget_ensures (key field : String) :
    Ensures (fun s => ∀ k, (s.slot k).Small) (tryAtKey key (Slot.hget env.clock field))
      fun found s => (∀ k, (s.slot k).Small) ∧ (bulkOrNil found).Sized := by
  refine readHash_ensures env key "hget" none _ (fun found => (bulkOrNil found).Sized) sized_nilBulk
    fun g hg => ?_
  cases hfound : g.lookup field with
  | none => exact sized_nilBulk
  | some value => exact sized_text value (hg.2 field value hfound).2

theorem hgetCommand_replies : (hgetCommand env args).Replies := by
  refine ensures_lift_bind _ _ (keyField_oneLine args "HGET" (by decide)) fun kf _ => ?_
  refine ensures_bind (Q := fun found _ => (bulkOrNil found).Sized) _ _ _ ?_ fun found => ?_
  · intro s r s' hs hrun
    have := hget_ensures env kf.1 kf.2 s r s' hs.slot hrun
    cases r with
    | ok found => exact this.2
    | error e => exact this
  · exact ensures_pure _ fun _ h => h

theorem hmgetCommand_replies (hcount : args.length ≤ 2 ^ 29) : (hmgetCommand env args).Replies := by
  refine ensures_lift_bind _ _ (keyFields_oneLine args "HMGET" (by decide)) fun key _ => ?_
  refine collected_replies (args.drop 1) ?_ _ bulkOrNil (hget_ensures env key)
  rw [List.length_drop]
  omega

theorem hexistsCommand_replies : (hexistsCommand env args).Replies := by
  refine ensures_lift_bind _ _ (keyField_oneLine args "HEXISTS" (by decide)) fun kf _ => ?_
  refine ensures_bind (Q := fun _ _ => True) _ _ _ ?_ fun found => ?_
  · intro s r s' hs hrun
    have := readHash_ensures env kf.1 "hexists" false _ (fun _ => True) trivial (fun _ _ =>
      trivial) s r s' hs.slot hrun
    cases r with
    | ok found => trivial
    | error e => exact this
  · exact ensures_pure _ fun _ _ => sized_integer _ (by split_ifs <;> decide)

theorem wholeHash_replies (name : String) (hname : plain name = true)
    (reply : List (String × String) → ResponseValue) (hreply : ∀ fields, fields.length ≤ 2 ^ 29 →
      (∀ p ∈ fields, (utf8 p.1).length ≤ 2 ^ 29 ∧ (utf8 p.2).length ≤ 2 ^ 29) →
        (reply fields).Sized) :
    (wholeHash name reply env args).Replies := by
  refine ensures_lift_bind _ _ (oneKey_oneLine args name hname) fun key _ => ?_
  refine ensures_bind (Q := fun fields _ => (reply fields).Sized) _ _ _ ?_ fun fields => ?_
  · intro s r s' hs hrun
    have := readHash_ensures env key "hgetall" [] (fun h => env.hashOrder.toList h) (fun fields =>
      (reply fields).Sized) (hreply [] (by simp) (by simp)) (fun g hg => ?_) s r s' hs.slot hrun
    · cases r with
      | ok fields => exact this.2
      | error e => exact this
    · refine hreply _ ?_ fun p hp => hg.2 p.1 p.2 ((env.hashOrder.mem_iff g p.1 p.2).mp hp)
      rw [env.hashOrder.length_toList]
      exact hg.1
  · exact ensures_pure _ fun _ h => h

theorem hgetallCommand_replies : (hgetallCommand env args).Replies := by
  refine wholeHash_replies env args "HGETALL" (by decide) _ fun fields hcount hfields => ?_
  refine sized_array _ ?_ fun v hv => ?_
  · rw [List.length_flatMap]
    simp only [List.length_cons, List.length_nil, List.map_const', List.sum_replicate, smul_eq_mul]
    omega
  · obtain ⟨p, hp, hv⟩ := List.mem_flatMap.mp hv
    simp only [List.mem_cons, List.not_mem_nil, or_false] at hv
    rcases hv with rfl | rfl
    · exact sized_text _ (hfields p hp).1
    · exact sized_text _ (hfields p hp).2

theorem hkeysCommand_replies : (hkeysCommand env args).Replies := by
  refine wholeHash_replies env args "HKEYS" (by decide) _ fun fields hcount hfields => ?_
  refine sized_array _ (by rw [List.length_map]; omega) fun v hv => ?_
  obtain ⟨p, hp, rfl⟩ := List.mem_map.mp hv
  exact sized_text _ (hfields p hp).1

theorem hvalsCommand_replies : (hvalsCommand env args).Replies := by
  refine wholeHash_replies env args "HVALS" (by decide) _ fun fields hcount hfields => ?_
  refine sized_array _ (by rw [List.length_map]; omega) fun v hv => ?_
  obtain ⟨p, hp, rfl⟩ := List.mem_map.mp hv
  exact sized_text _ (hfields p hp).2

theorem hlenCommand_replies : (hlenCommand env args).Replies :=
  wholeHash_replies env args "HLEN" (by decide) _ fun fields hcount _ => sized_integer _ (by omega)

/-! ## The server -/

theorem pingCommand_replies (hargs : ∀ a ∈ args, a.length ≤ 2 ^ 29) :
    (pingCommand env args).Replies := by
  unfold pingCommand
  split
  · exact ensures_pure _ fun _ _ => sized_simpleString _ (by decide)
  · rename_i message
    have := hargs message (by simp)
    exact ensures_pure _ fun _ _ => sized_bulk _ (by omega)
  · exact ensures_fail _ (wrongNumber_oneLine _ (by decide))

theorem echoCommand_replies (hargs : ∀ a ∈ args, a.length ≤ 2 ^ 29) :
    (echoCommand env args).Replies := by
  unfold echoCommand
  split
  · rename_i message
    have := hargs message (by simp)
    exact ensures_pure _ fun _ _ => sized_bulk _ (by omega)
  · exact ensures_fail _ (wrongNumber_oneLine _ (by decide))

theorem dbsizeCommand_replies : (dbsizeCommand env args).Replies := by
  unfold dbsizeCommand
  split
  · exact ensures_read _ fun s hs => sized_integer _ (by have := hs.len; omega)
  · exact ensures_fail _ (wrongNumber_oneLine _ (by decide))

theorem typeCommand_replies : (typeCommand env args).Replies := by
  refine ensures_lift_bind _ _ (oneKey_oneLine args "TYPE" (by decide)) fun key _ => ?_
  refine ensures_bind (Q := fun _ _ => True) _ _ _ (ensures_atKey _ _ fun _ _ => trivial)
    fun found => ?_
  split
  · rename_i stored
    refine ensures_pure _ fun _ _ => sized_simpleString _ ?_
    cases stored.value <;> rw [ValueType.typeName] <;> decide
  · exact ensures_pure _ fun _ _ => sized_simpleString _ (by decide)

theorem flushdbCommand_replies : (flushdbCommand env args).Replies := by
  have hrequest : OneLine (flushRequest args) := by
    unfold flushRequest
    split
    · exact oneLine_pure _
    · split
      · exact oneLine_pure _
      · exact oneLine_throw _ (by decide)
    · exact oneLine_throw _ (by decide)
  refine ensures_lift_bind _ _ hrequest fun _ _ => ?_
  refine ensures_bind (Q := fun _ _ => True) _ _ _ ?_ fun _ => ?_
  · intro s r s' _ hrun
    cases hrun
    trivial
  · exact ensures_pure _ fun _ _ => sized_simpleString _ (by decide)

theorem quitCommand_replies : (quitCommand env args).Replies := by
  unfold quitCommand
  split
  · exact ensures_pure _ fun _ _ => sized_simpleString _ (by decide)
  · exact ensures_fail _ (wrongNumber_oneLine _ (by decide))

theorem bgrewriteaofCommand_replies : (bgrewriteaofCommand env args).Replies := by
  unfold bgrewriteaofCommand
  split
  · split
    · exact ensures_fail _ (not_hasLineEnd_plain _ rfl)
    -- The text of the error is not part of what the client is told.
    · exact ensures_fail _ (not_hasLineEnd_plain "ERR internal server error" rfl)
    · exact ensures_pure _ fun _ _ => sized_simpleString _ (by decide)
  · exact ensures_fail _ (wrongNumber_oneLine _ (by decide))

theorem keysCommand_replies : (keysCommand env args).Replies := by
  refine ensures_lift_bind _ _ (oneKey_oneLine args "KEYS" (by decide)) fun pattern _ => ?_
  refine ensures_read _ fun s hs => sized_array _ ?_ fun v hv => ?_
  · have hfilter := List.length_filter_le (globMatch pattern) (s.keys env.keyOrder)
    have hlen := hs.len
    unfold MemoryStore.len at hlen
    unfold MemoryStore.keys at hfilter
    rw [List.length_map, env.keyOrder.length_toList] at hfilter
    rw [List.length_map]
    unfold MemoryStore.keys
    omega
  · obtain ⟨key, hkey, rfl⟩ := List.mem_map.mp hv
    obtain ⟨p, hp, rfl⟩ := List.mem_map.mp (List.mem_filter.mp hkey).1
    have hdata := (env.keyOrder.mem_iff s.data p.1 p.2).mp hp
    refine sized_text _ (hs.key p.1 ?_)
    simp [MemoryStore.slot, hdata]

theorem length_infoKeyspace (n : Nat) (hn : n ≤ 2 ^ 29) :
    (utf8 (infoKeyspace n)).length ≤ 2 ^ 29 := by
  have hdigits := length_digits n (by omega)
  have hnumber := length_utf8_le (toString n)
  rw [Lib.Decimal.toList_toString_nat] at hnumber
  have hhead : (utf8 "# Keyspace\r\n").length = 12 := by decide
  have hkeys : (utf8 "db0:keys=").length = 9 := by decide
  have hrest : (utf8 ",expires=0,avg_ttl=0\r\n").length = 22 := by decide
  have hend : (utf8 "\r\n").length = 2 := by decide
  have hempty : (utf8 "").length = 0 := by decide
  unfold infoKeyspace
  split_ifs <;> simp only [utf8_append, List.length_append] <;> omega

theorem infoCommand_replies (hhost : (utf8 (infoServer env.host)).length ≤ 2 ^ 29) :
    (infoCommand env args).Replies := by
  have hsection : OneLine (infoSection args) := by
    unfold infoSection
    split
    · exact oneLine_pure _
    · exact oneLine_argText _
    · exact oneLine_throw _ (wrongNumber_oneLine _ (by decide))
  have hempty : (utf8 "").length = 0 := by decide
  unfold infoCommand
  generalize infoSection args = p at hsection
  match p with
  | none =>
    intro s r s' _ hrun
    cases hrun
  | some (.error e) => exact ensures_fail e (hsection e rfl)
  | some (.ok want) =>
    refine ensures_read _ fun s hs => sized_bulk _ ?_
    have hkeyspace := length_infoKeyspace s.len hs.len
    simp only [utf8_append, List.length_append]
    split_ifs <;> omega

end Commands

end RustyPotato
