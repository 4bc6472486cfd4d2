import RustyPotato.Meaning.Rules
import RustyPotato.SetSemantics

/-! # What the commands on keys mean -/

namespace RustyPotato

open Cmd Parse

/-! ## Commands that read one key -/

namespace Database

variable (env : Env) (key : String)

theorem means_get : Means env.clock (getCommand env [utf8 key])
    fun db => (.ok (displayed (db key)), db) := by
  unfold getCommand
  rw [oneKey_key, lift_ok_bind]
  refine Cmd.means_read env.clock key (fun e => .ok (displayed e)) _ (fun _ => rfl) _ fun t s => ?_
  simp only [Slot.get, Slot.live]
  cases t.unexpired env.clock with
  | none => rfl
  | some e =>
    simp only [Option.map_some, StoredValue.toEntry, displayed]
    cases e.value <;> rfl

theorem means_type :
    Means env.clock (typeCommand env [utf8 key]) fun db =>
      (.ok (.simpleString ((db key).elim "none" fun e => e.value.typeName)), db) := by
  unfold typeCommand
  rw [oneKey_key, lift_ok_bind]
  refine Cmd.means_read env.clock key
    (fun e => .ok (ResponseValue.simpleString (e.elim "none" fun e => e.value.typeName))) _
    (fun _ => rfl) _ fun t s => ?_
  simp only [Slot.get, Slot.live]
  cases t.unexpired env.clock <;> rfl

theorem means_ttl :
    Means env.clock (ttlCommand env [utf8 key]) fun db =>
      (.ok (.integer (remaining env.clock.now nanosPerSec (db key))), db) := by
  unfold ttlCommand
  rw [oneKey_key, lift_ok_bind]
  refine Cmd.means_read env.clock key
    (fun e => .ok (ResponseValue.integer (remaining env.clock.now nanosPerSec e))) _
    (fun _ => rfl) _ fun t s => ?_
  simp only [Slot.ttl, Slot.live]
  cases t.unexpired env.clock with
  | none => rfl
  | some e =>
    simp only [Option.map_some, StoredValue.toEntry, StoredValue.ttlSeconds]
    cases e.expiresAt <;> rfl

theorem means_pttl :
    Means env.clock (pttlCommand env [utf8 key]) fun db =>
      (.ok (.integer (min (remaining env.clock.now nanosPerMilli (db key)) (2 ^ 63 - 1))), db) := by
  unfold pttlCommand
  rw [oneKey_key, lift_ok_bind]
  refine Cmd.means_read env.clock key
    (fun e => .ok (ResponseValue.integer
      (min (remaining env.clock.now nanosPerMilli e) (2 ^ 63 - 1)))) _ (fun _ => rfl) _
    fun t s => ?_
  simp only [Slot.pttl, Slot.live]
  cases t.unexpired env.clock with
  | none => rfl
  | some e =>
    simp only [Option.map_some, StoredValue.toEntry, StoredValue.ttlMillis]
    cases e.expiresAt with
    | none => rfl
    | some d =>
      simp only [Option.map_some, Option.getD_some, remaining]
      split_ifs <;> rfl

/-! ## Commands that write one key -/

theorem incrBy_live (c : Clock) (amount : I64) (t : Slot) :
    (t.incrBy c amount).1 = sum amount (t.live c) := by
  obtain ⟨_ | e, i⟩ := t
  · rfl
  · cases hx : e.isExpired c with
    | true => simp [Slot.incrBy, hx, Slot.live_expired, sum]
    | false =>
      rw [Slot.live_alive c e i hx]
      simp only [Slot.incrBy, hx, sum, StoredValue.toEntry, Bool.false_eq_true, if_false]
      cases e.value.toInteger with
      | error err => rfl
      | ok n =>
        simp only [Except.bind]
        cases n.checkedAdd amount <;> rfl

theorem incrBy_apply (c : Clock) (amount : I64) (e : Option Entry) :
    (Op.incrBy amount).apply c e =
      match sum amount e with
      | .error _ => e
      | .ok n => some ⟨.integer n, e.bind Entry.deadline⟩ := by
  cases e with
  | none => rfl
  | some e =>
    simp only [Op.apply, Op.incremented, sum]
    cases e.value.toInteger with
    | error err => rfl
    | ok n =>
      simp only [Except.toOption, Except.bind, Option.bind_some]
      cases n.checkedAdd amount <;> rfl

theorem means_incrBy (name : String) (amount : I64) :
    Means env.clock (incrByCommand name amount env [utf8 key]) fun db => db.add key amount := by
  unfold incrByCommand
  have hkey : incrKey name [utf8 key] = some (.ok key) := argStr_key key []
  rw [hkey, lift_ok_bind]
  refine (means_map env.clock _ (fun n : I64 => ResponseValue.integer n.val) _
    (means_tryAtKey env.clock key (.incrBy amount) _
      (fun e => (sum amount e).mapError RustyPotatoError.toClientError) (fun _ => rfl) fun t => by
      rw [incrBy_live])).congr env.clock _ _ _ fun db => ?_
  simp only [add, incrBy_apply]
  cases sum amount (db key) with
  | error err => simp [Except.mapError, Except.map]
  | ok n => rfl

theorem expireAt_live (c : Clock) (deadline : Int) (flag : ExpireFlag) (t : Slot) :
    (t.expireAtWithOptions c deadline flag).1 =
      (t.live c).any fun e => Slot.shouldApply flag deadline e.deadline := by
  obtain ⟨_ | e, i⟩ := t
  · rfl
  · cases hx : e.isExpired c with
    | true => simp [Slot.expireAtWithOptions, hx, Slot.live_expired]
    | false =>
      rw [Slot.live_alive c e i hx]
      simp only [Slot.expireAtWithOptions, hx, StoredValue.toEntry, Bool.false_eq_true, if_false,
        Option.any_some]
      split_ifs with happly <;> simp [happly]

theorem deadlineRequest_args (name : String) (resolve : Nat → Parse Int) (number : Bytes)
    (rest : List Bytes) (n : Nat) (flag : ExpireFlag) (deadline : Int)
    (hnumber : (fromUtf8 number).bind parseU64 = some n) (hflag : parseExpireFlag rest = .ok flag)
    (hresolve : resolve n = some (.ok deadline)) :
    deadlineRequest name resolve (utf8 key :: number :: rest) =
      some (.ok (key, deadline, flag)) := by
  have hargs : expireRequest name (utf8 key :: number :: rest) = some (.ok ⟨key, n, flag⟩) := by
    unfold expireRequest
    rw [if_neg (by simp)]
    refine (bind_eq_ok _ _ _).mpr ⟨key, argStr_key key _, ?_⟩
    refine (bind_eq_ok _ _ _).mpr ⟨number, rfl, ?_⟩
    rw [hnumber]
    exact (bind_eq_ok _ _ _).mpr ⟨flag, congrArg some hflag, rfl⟩
  exact (bind_eq_ok _ _ _).mpr ⟨_, hargs, (bind_eq_ok _ _ _).mpr ⟨deadline, hresolve, rfl⟩⟩

theorem means_deadline (name : String) (resolve : Clock → Nat → Parse Int) (number : Bytes)
    (rest : List Bytes) (expiry : Expiry) (flag : ExpireFlag)
    (hnumber : (fromUtf8 number).bind parseU64 = some expiry.amount)
    (hflag : parseExpireFlag rest = .ok flag)
    (hresolve : resolve env.clock expiry.amount = some (.ok (expiry.instant env.clock))) :
    Means env.clock (deadlineCommand name resolve env (utf8 key :: number :: rest))
      ((Query.expire key expiry flag).meaning env) := by
  unfold deadlineCommand
  rw [deadlineRequest_args key name _ number rest _ flag _ hnumber hflag hresolve, lift_ok_bind]
  refine (Cmd.means_atKey_bind env.clock key (.expireAt (expiry.instant env.clock) flag) (fun e =>
    .ok (ResponseValue.integer <|
      if e.any fun e => Slot.shouldApply flag (expiry.instant env.clock) e.deadline then 1 else 0))
    _ (fun _ => rfl) _ fun t s => by rw [expireAt_live]; rfl).congr env.clock _ _ _ fun db => ?_
  simp only [Query.meaning]
  cases he : db key with
  | none =>
    have hsame : db.put key none = db := by rw [← he, put_self]
    simp [Op.apply, hsame]
  | some e =>
    simp only [Op.apply, Option.any_some]
    split_ifs
    · rfl
    · rw [← he, put_self]

/--
The option that the code makes of the choice keeps the deadline or sets the one that the choice
names.
-/
theorem resolveTtl_choice (c : Clock) (choice : SetTtlChoice) (hlt : choice.amount < 2 ^ 64)
    (htimely : ∀ expiry ∈ choice.expiry?, expiry.Timely c) :
    ∃ ttl, resolveTtl c choice = some (.ok ttl) ∧
      ∀ e, Op.newDeadline ttl e = choice.deadline c e := by
  cases choice with
  | default => exact ⟨.none, rfl, fun _ => rfl⟩
  | keepTtl => exact ⟨.keepTtl, rfl, fun _ => rfl⟩
  | seconds n =>
    refine ⟨.at (c.now + fromSecs n), ?_, fun _ => rfl⟩
    rw [resolveTtl, addDuration_secs c n (htimely _ rfl)]
    rfl
  | milliseconds n =>
    refine ⟨.at (c.now + fromMillis n), ?_, fun _ => rfl⟩
    rw [resolveTtl, addDuration_millis c n hlt]
    rfl
  | unixSeconds n =>
    refine ⟨.at (unixDeadline c (saturatingMul n 1000)), ?_, fun _ => rfl⟩
    have hbound : saturatingMul n 1000 < 2 ^ 64 := by
      unfold saturatingMul
      omega
    rw [resolveTtl, resolveUnixTarget_eq c _ (htimely _ rfl) hbound]
    rfl
  | unixMilliseconds n =>
    refine ⟨.at (unixDeadline c n), ?_, fun _ => rfl⟩
    rw [resolveTtl, resolveUnixTarget_eq c n (htimely _ rfl) hlt]
    rfl

theorem setRequest_args (c : Clock) (value : Bytes) (rest : List Bytes) (opts : SetOptions)
    (ttl : SetTtlOption) (hopts : parseSetOptions rest = .ok opts)
    (httl : resolveTtl c opts.ttl = some (.ok ttl)) :
    setRequest c (utf8 key :: value :: rest) = some (.ok ⟨⟨key, value, opts⟩, ttl⟩) := by
  have hargs : setArgs (utf8 key :: value :: rest) = some (.ok ⟨key, value, opts⟩) := by
    unfold setArgs
    rw [if_neg (by simp)]
    refine (bind_eq_ok _ _ _).mpr ⟨key, argStr_key key _, ?_⟩
    refine (bind_eq_ok _ _ _).mpr ⟨value, rfl, ?_⟩
    exact (bind_eq_ok _ _ _).mpr ⟨opts, congrArg some hopts, rfl⟩
  exact (bind_eq_ok _ _ _).mpr ⟨_, hargs, (bind_eq_ok _ _ _).mpr ⟨ttl, httl, rfl⟩⟩

theorem run_previousReply (p : Option StoredValue) (s : MemoryStore) :
    (previousReply p).run s = some (previous (p.map StoredValue.toEntry), s) := by
  cases p with
  | none => rfl
  | some e =>
    simp only [previousReply, Option.map_some, StoredValue.toEntry, previous]
    cases e.value <;> rfl

theorem means_set (value : Bytes) (rest : List Bytes) (opts : SetOptions)
    (hopts : parseSetOptions rest = .ok opts)
    (htimely : (Query.set key value opts).Timely env.clock) :
    Means env.clock (setCommand env (utf8 key :: value :: rest))
      ((Query.set key value opts).meaning env) := by
  obtain ⟨ttl, httl, hdeadline⟩ :=
    resolveTtl_choice env.clock opts.ttl (parseSetOptions_amount rest opts hopts) htimely
  unfold setCommand
  rw [setRequest_args key env.clock value rest opts ttl hopts httl, lift_ok_bind]
  refine (means_atKey_bind env.clock key (.setWithOptions (.string value) ttl opts.existence)
    (fun e =>
    if opts.get then previous e
    else .ok (if Slot.allows opts.existence e.isSome then .simpleString "OK" else .nilBulk)) _
    (fun _ => rfl) _ fun t s => ?_).congr env.clock _ _ _ fun db => ?_
  · simp only
    rw [Slot.setWithOptions_previous, Slot.setWithOptions_applied, Slot.live, Option.isSome_map]
    split_ifs
    · exact run_previousReply _ s
    · rfl
    · rfl
  · simp only [Query.meaning, Op.apply, hdeadline]
    split_ifs <;> simp

/-! ## Commands on several keys -/

/-- One key of `DEL`. -/
def delOne (n : Int) (key : String) (db : Database) : Except String Int × Database :=
  (.ok (if (db key).isSome then n + 1 else n), db.put key none)

theorem forEach_delOne (keys : List String) (n : Int) (db : Database) :
    forEach delOne keys n db =
      (.ok (n + countDistinct (fun k => (db k).isSome) keys),
        fun k => if k ∈ keys then none else db k) := by
  induction keys generalizing n db with
  | nil => simp [forEach, countDistinct]
  | cons key keys ih =>
    simp only [forEach, andThen, delOne, ih]
    rw [countDistinct_cons _ (fun k => (db.put key none k).isSome) key keys (by simp [put])
      fun k hk => by simp [put, hk], ← count_step]
    congr 1
    funext k
    by_cases hk : k = key <;> simp [put, hk]

theorem means_del (keys : List String) (hne : keys ≠ []) :
    Means env.clock (delCommand env (keys.map utf8)) ((Query.del keys).meaning env) := by
  unfold delCommand
  rw [someArgs_texts "DEL" keys hne, lift_ok_bind]
  refine (means_map env.clock _ _ _
    (means_eachText env.clock _ _ delOne (fun n key => ?_) keys 0)).congr env.clock _ _ _
    fun db => ?_
  · exact means_map env.clock _ _ _
      (means_atKey env.clock key .delete _ Option.isSome (fun _ => rfl) (Slot.delete_fst env.clock))
  · rw [forEach_delOne, Int.zero_add]
    rfl

/-- One key of `EXISTS`. -/
def existsOne (n : Int) (key : String) (db : Database) : Except String Int × Database :=
  (.ok (if (db key).isSome then n + 1 else n), db)

theorem forEach_existsOne (keys : List String) (n : Int) (db : Database) :
    forEach existsOne keys n db = (.ok (n + keys.countP fun k => (db k).isSome), db) := by
  induction keys generalizing n with
  | nil => simp [forEach]
  | cons key keys ih =>
    simp only [forEach, andThen, existsOne, ih, List.countP_cons]
    split_ifs <;> simp [Int.add_assoc, Int.add_comm]

theorem means_exists (keys : List String) (hne : keys ≠ []) :
    Means env.clock (existsCommand env (keys.map utf8)) ((Query.exists_ keys).meaning env) := by
  unfold existsCommand
  rw [someArgs_texts "EXISTS" keys hne, lift_ok_bind]
  refine (means_map env.clock _ _ _
    (means_eachText env.clock _ _ existsOne (fun n key => ?_) keys 0)).congr env.clock _ _ _
    fun db => ?_
  · refine means_read env.clock key (fun e => .ok (if e.isSome then n + 1 else n)) _
      (fun _ => rfl) _ fun t s => ?_
    simp only [Slot.existsKey, Slot.live, Option.isSome_map]
    rfl
  · rw [forEach_existsOne, Int.zero_add]
    rfl

/-- One key of `MGET`. -/
def mgetOne (out : List ResponseValue) (key : String) (db : Database) :
    Except String (List ResponseValue) × Database :=
  (.ok (out ++ [displayedText (db key)]), db)

theorem forEach_mgetOne (keys : List String) (out : List ResponseValue) (db : Database) :
    forEach mgetOne keys out db = (.ok (out ++ keys.map fun k => displayedText (db k)), db) := by
  induction keys generalizing out with
  | nil => simp [forEach]
  | cons key keys ih =>
    simp only [forEach, andThen, mgetOne, ih, List.map_cons, List.append_assoc, List.cons_append,
      List.nil_append]

theorem means_mget (keys : List String) (hne : keys ≠ []) :
    Means env.clock (mgetCommand env (keys.map utf8)) ((Query.mget keys).meaning env) := by
  unfold mgetCommand
  rw [someArgs_texts "MGET" keys hne, lift_ok_bind]
  refine (means_map env.clock _ _ _
    (means_eachText env.clock _ _ mgetOne (fun out key => ?_) keys [])).congr env.clock _ _ _
    fun db => ?_
  · refine means_read env.clock key (fun e => .ok (out ++ [displayedText e])) _ (fun _ => rfl) _
      fun t s => ?_
    simp only [Slot.get, Slot.live]
    cases t.unexpired env.clock with
    | none => rfl
    | some e =>
      simp only [Option.map_some, StoredValue.toEntry, mgetSlot, displayedText]
      cases e.value <;> rfl
  · rw [forEach_mgetOne]
    rfl

theorem pairs_flatMap (ps : List (String × Bytes)) :
    Parse.pairs (ps.flatMap fun p => [utf8 p.1, p.2]) = ps.map fun p => (utf8 p.1, p.2) := by
  induction ps with
  | nil => rfl
  | cons p ps ih =>
    simp only [List.flatMap_cons, List.cons_append, List.nil_append, Parse.pairs, List.map_cons, ih]

theorem length_flatMap_pairs (ps : List (String × Bytes)) :
    (ps.flatMap fun p => [utf8 p.1, p.2]).length = 2 * ps.length := by
  induction ps with
  | nil => rfl
  | cons p ps ih =>
    simp only [List.flatMap_cons, List.length_append, List.length_cons, List.length_nil, ih]
    omega

/-- One pair of `MSET`. -/
def msetOne (_ : Unit) (p : String × Bytes) (db : Database) : Except String Unit × Database :=
  (.ok (), db.put p.1 (some ⟨.string p.2, none⟩))

theorem forEach_msetOne (ps : List (String × Bytes)) (db : Database) :
    forEach msetOne ps () db =
      (.ok (), fun k => ((lastOf k ps).map fun v => ⟨.string v, none⟩).or (db k)) := by
  induction ps generalizing db with
  | nil => rfl
  | cons p ps ih =>
    simp only [forEach, andThen, msetOne, ih]
    congr 1
    funext k
    rw [lastOf_cons]
    cases lastOf k ps with
    | some v => rfl
    | none => by_cases hk : k = p.1 <;> simp [put, hk]

theorem means_mset (ps : List (String × Bytes)) (hne : ps ≠ []) :
    Means env.clock (msetCommand env (ps.flatMap fun p => [utf8 p.1, p.2]))
      ((Query.mset ps).meaning env) := by
  have hlength := length_flatMap_pairs ps
  have hpos := List.length_pos_of_ne_nil hne
  have hpairs : msetPairs (ps.flatMap fun p => [utf8 p.1, p.2]) =
      some (.ok (ps.map fun p => (utf8 p.1, p.2))) := by
    unfold msetPairs
    rw [if_neg (by rw [List.isEmpty_iff_length_eq_zero]; omega), pairs_flatMap]
    rfl
  unfold msetCommand
  rw [hpairs, lift_ok_bind, List.foldlM_map]
  refine (means_map env.clock _ _ _
    (means_foldlM env.clock _ msetOne ps (fun _ p _ => ?_) ())).congr env.clock _ _ _ fun db => ?_
  · rw [argText_ok _ p.1 (fromUtf8_utf8 p.1), lift_ok_bind]
    exact means_atKey env.clock p.1 (.set (.string p.2)) _ (fun _ => ()) (fun _ => rfl) fun _ => rfl
  · rw [forEach_msetOne]
    rfl

end Database

end RustyPotato
