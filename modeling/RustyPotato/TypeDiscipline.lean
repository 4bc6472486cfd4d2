import RustyPotato.Variadic

/-!
# Commands on a value of another type

Each hash operation of the store makes its own test of the type and answers `WRONGTYPE`. `INCR`
fails where it reads the number. `GET` makes no test: it shows a hash as the text that stands for
one.
-/

namespace RustyPotato

open Cmd Parse

/-! ## Operations that fail -/

theorem run_tryAtKey_error {α : Type} (key : String) (f : Slot → Except RustyPotatoError α × Slot)
    (s : MemoryStore) (e : RustyPotatoError) (h : f (s.slot key) = (.error e, s.slot key)) :
    (tryAtKey key f).run s = some (.error e.toClientError, s) := by
  simp only [tryAtKey, MemoryStore.atKey, h, MemoryStore.put_slot]
  rfl

theorem run_bind_error {α β : Type} (m : Cmd α) (f : α → Cmd β) (s s' : MemoryStore) (e : String)
    (h : m.run s = some (.error e, s')) : (m >>= f).run s = some (.error e, s') := by
  rw [run_bind, h]

theorem run_eachText_error {α γ : Type} (m : String → Cmd α) (g : γ → α → γ) (text : String)
    (texts : List String) (acc : γ) (e : String) (s s' : MemoryStore)
    (h : (m text).run s = some (.error e, s')) :
    (eachText m g ((text :: texts).map utf8) acc).run s = some (.error e, s') := by
  unfold eachText
  rw [List.map_cons, List.foldlM_cons, argText_ok _ text (fromUtf8_utf8 text), lift_ok_bind]
  exact run_bind_error _ _ s s' e (run_bind_error _ _ s s' e h)

namespace Slot

variable (c : Clock) (t : Slot) (h : t.WrongType c)

include h

theorem readHash_refused {α : Type} (operation : String) (missing : α) (read : Hash → α) :
    t.readHash c operation missing read = (.error (.storageError wrongType (some operation)),
      t) := by
  obtain ⟨_, i⟩ := t
  obtain ⟨e, rfl, hx, hv⟩ := h
  simp only [readHash, unexpired_alive c e i hx, purge, hx, Bool.false_eq_true, if_false]

theorem hset_refused (field value : String) :
    t.hset c field value = (.error (.storageError wrongType (some "hset")), t) := by
  obtain ⟨_, i⟩ := t
  obtain ⟨e, rfl, hx, hv⟩ := h
  simp only [hset, purge, hx, Bool.false_eq_true, if_false]

theorem hdel_refused (field : String) :
    t.hdel c field = (.error (.storageError wrongType (some "hdel")), t) := by
  obtain ⟨_, i⟩ := t
  obtain ⟨e, rfl, hx, hv⟩ := h
  simp only [hdel, hx, Bool.false_eq_true, if_false]

end Slot

theorem Slot.incrBy_hash (c : Clock) (increment : I64) (e : StoredValue) (i : Option Int) (h : Hash)
    (hx : e.isExpired c = false) (hv : e.value = .hash h) :
    Slot.incrBy c increment ⟨some e, i⟩ = (.error (.notAnInteger "hash"), ⟨some e, i⟩) := by
  simp only [Slot.incrBy, hx, hv, ValueType.toInteger, Bool.false_eq_true, if_false]

/-! ## The hash commands -/

/-- The hash commands on this key, with arguments as they take them, all of them text. -/
inductive HashCommand (key : String) : Command → List Bytes → Prop
  | hset (ps : List (String × String)) (hne : ps ≠ []) :
    HashCommand key .hset (utf8 key :: pairArgs ps)
  | hget (field : String) : HashCommand key .hget [utf8 key, utf8 field]
  | hmget (fields : List String) (hne : fields ≠ []) :
    HashCommand key .hmget (utf8 key :: fields.map utf8)
  | hdel (fields : List String) (hne : fields ≠ []) :
    HashCommand key .hdel (utf8 key :: fields.map utf8)
  | hgetall : HashCommand key .hgetall [utf8 key]
  | hkeys : HashCommand key .hkeys [utf8 key]
  | hvals : HashCommand key .hvals [utf8 key]
  | hlen : HashCommand key .hlen [utf8 key]
  | hexists (field : String) : HashCommand key .hexists [utf8 key, utf8 field]

theorem keyField_texts (name key field : String) :
    keyField name [utf8 key, utf8 field] = some (.ok (key, field)) := by
  unfold keyField
  rw [if_neg (by simp)]
  refine (bind_eq_ok _ _ _).mpr ⟨key, argStr_key key _, (bind_eq_ok _ _ _).mpr ⟨field, ?_, rfl⟩⟩
  exact argText_ok (utf8 field) field (fromUtf8_utf8 field)

namespace HashCommand

variable (env : Env) (key : String) (s : MemoryStore) (h : (s.slot key).WrongType env.clock)

theorem arity (command : Command) (args : List Bytes) (hcall : HashCommand key command args) :
    ParsedCommand.validateArity ⟨command.name, args⟩ command.arity = .ok () := by
  cases hcall with
  | hset ps hne =>
    have hpos := List.length_pos_of_ne_nil hne
    exact arity_atLeast _ _ _ (by simp only [List.length_cons, length_pairArgs]; omega)
  | hmget fields hne | hdel fields hne =>
    have hpos := List.length_pos_of_ne_nil hne
    exact arity_atLeast _ _ _ (by simp only [List.length_cons, List.length_map]; omega)
  | _ => exact arity_fixed _ _ _ rfl

include h

theorem run_hget (field : String) :
    (tryAtKey key (Slot.hget env.clock field)).run s = some (.error wrongType, s) :=
  run_tryAtKey_error key _ s _ (Slot.readHash_refused env.clock _ h "hget" _ _)

theorem run_wholeHash (name : String) (reply : List (String × String) → ResponseValue) :
    (wholeHash name reply env [utf8 key]).run s = some (.error wrongType, s) := by
  unfold wholeHash
  rw [oneKey_key, lift_ok_bind]
  exact run_bind_error _ _ s s _
    (run_tryAtKey_error key _ s _ (Slot.readHash_refused env.clock _ h "hgetall" _ _))

/-- Every one of them fails at its first look at the key, and writes nothing. -/
theorem run_execute (command : Command) (args : List Bytes) (hcall : HashCommand key command args) :
    (command.execute env args).run s = some (.error wrongType, s) := by
  cases hcall with
  | hset ps hne =>
    change (hsetCommand env _).run s = _
    unfold hsetCommand
    rw [hsetRequest_texts key ps hne, lift_ok_bind]
    refine run_bind_error _ _ s s _ ?_
    obtain ⟨p, ps, rfl⟩ := List.exists_cons_of_ne_nil hne
    rw [List.map_cons, List.foldlM_cons,
      fieldValue_ok _ p.1 p.2 (fromUtf8_utf8 _) (fromUtf8_utf8 _), lift_ok_bind]
    refine run_bind_error _ _ s s _ (run_bind_error _ _ s s _ ?_)
    exact run_tryAtKey_error key _ s _ (Slot.hset_refused env.clock _ h p.1 p.2)
  | hget field =>
    change (hgetCommand env _).run s = _
    unfold hgetCommand
    rw [keyField_texts, lift_ok_bind]
    exact run_bind_error _ _ s s _ (run_hget env key s h field)
  | hmget fields hne =>
    change (hmgetCommand env _).run s = _
    unfold hmgetCommand
    obtain ⟨field, fields, rfl⟩ := List.exists_cons_of_ne_nil hne
    rw [keyFields_texts "HMGET" key _ hne, lift_ok_bind]
    refine run_bind_error _ _ s s _ ?_
    exact run_eachText_error _ _ field fields [] _ s s (run_hget env key s h field)
  | hdel fields hne =>
    change (hdelCommand env _).run s = _
    unfold hdelCommand
    obtain ⟨field, fields, rfl⟩ := List.exists_cons_of_ne_nil hne
    rw [keyFields_texts "HDEL" key _ hne, lift_ok_bind]
    refine run_bind_error _ _ s s _ ?_
    exact run_eachText_error _ _ field fields 0 _ s s
      (run_tryAtKey_error key _ s _ (Slot.hdel_refused env.clock _ h field))
  | hgetall => exact run_wholeHash env key s h _ _
  | hkeys => exact run_wholeHash env key s h _ _
  | hvals => exact run_wholeHash env key s h _ _
  | hlen => exact run_wholeHash env key s h _ _
  | hexists field =>
    change (hexistsCommand env _).run s = _
    unfold hexistsCommand
    rw [keyField_texts, lift_ok_bind]
    exact run_bind_error _ _ s s _
      (run_tryAtKey_error key _ s _ (Slot.readHash_refused env.clock _ h "hexists" _ _))

end HashCommand

/-! ## `GET`, `INCR` and `DECR` -/

section
variable (u : CaseMap) (env : Env) (key : String) (s : MemoryStore)

/-- A string is answered with its bytes, and whatever else is there with the text that shows it. -/
theorem respond_get (stored : StoredValue) (h : (s.slot key).unexpired env.clock = some stored) :
    respond u env ⟨"GET", [utf8 key]⟩ s =
      (some (.ok (stored.value.asBytes.elim (.text stored.value.asString) .bulk)),
      s.put key ((s.slot key).purge env.clock)) := by
  refine respond_registered u env .get (by decide) _ (arity_fixed _ _ _ rfl) s _ _ ?_
  change (getCommand env [utf8 key]).run s = _
  unfold getCommand
  rw [oneKey_key, lift_ok_bind, run_bind_ok _ _ s _ _ (run_atKey key _ s)]
  simp only [Slot.get, h]
  cases stored.value.asBytes with
  | none => rfl
  | some b => rfl

theorem respond_get_bytes (stored : StoredValue) (b : Bytes)
    (h : (s.slot key).unexpired env.clock = some stored) (hb : stored.value.asBytes = some b) :
    respond u env ⟨"GET", [utf8 key]⟩ s =
      (some (.ok (.bulk b)), s.put key ((s.slot key).purge env.clock)) := by
  rw [respond_get u env key s stored h, hb]
  rfl

theorem respond_get_shown (stored : StoredValue)
    (h : (s.slot key).unexpired env.clock = some stored) (hb : stored.value.asBytes = none) :
    respond u env ⟨"GET", [utf8 key]⟩ s =
      (some (.ok (.text stored.value.asString)), s.put key ((s.slot key).purge env.clock)) := by
  rw [respond_get u env key s stored h, hb]
  rfl

theorem run_incrByCommand_hash (name : String) (increment : I64) (stored : StoredValue)
    (i : Option Int) (h : Hash) (hslot : s.slot key = ⟨some stored, i⟩)
    (hx : stored.isExpired env.clock = false) (hv : stored.value = .hash h) :
    (incrByCommand name increment env [utf8 key]).run s =
      some (.error (RustyPotatoError.toClientError (.notAnInteger "hash")), s) := by
  have hkey : incrKey name [utf8 key] = some (.ok key) := argStr_key key []
  unfold incrByCommand
  rw [hkey, lift_ok_bind]
  refine run_bind_error _ _ s s _ (run_tryAtKey_error key _ s _ ?_)
  rw [hslot]
  exact Slot.incrBy_hash env.clock increment stored i h hx hv

end

/-- The commands that meet a value of another type than theirs under this key. -/
inductive Mistyped (key : String) : ValueType → ParsedCommand → Prop
  | onHash (v : ValueType) (hv : ∀ h, v ≠ .hash h) (command : Command) (args : List Bytes)
    (hcall : HashCommand key command args) : Mistyped key v ⟨command.name, args⟩
  | get (h : Hash) : Mistyped key (.hash h) ⟨"GET", [utf8 key]⟩
  | incr (h : Hash) : Mistyped key (.hash h) ⟨"INCR", [utf8 key]⟩
  | decr (h : Hash) : Mistyped key (.hash h) ⟨"DECR", [utf8 key]⟩

/-- The reply is an error, which says `WRONGTYPE` unless the command wanted a number. -/
def RepliesWrongType (cmd : ParsedCommand) (reply : Option (Except String ResponseValue)) : Prop :=
  ∃ message, reply = some (.error message) ∧
    (cmd.name ≠ "INCR" ∧ cmd.name ≠ "DECR" → ∃ rest, message = "WRONGTYPE" ++ rest)

theorem HashCommand.name_ne (key : String) (command : Command) (args : List Bytes)
    (hcall : HashCommand key command args) :
    command.name ≠ "GET" ∧ command ∈ serverRegistry.commands := by
  cases hcall <;> decide

/--
Every command but `GET` refuses a value of another type with an error and leaves both maps alone.
-/
theorem wrong_type_refused_iff (u : CaseMap) (env : Env) (s : MemoryStore) (key : String)
    (stored : StoredValue) (hstored : s.data.lookup key = some stored)
    (hx : stored.isExpired env.clock = false) (cmd : ParsedCommand)
    (h : Mistyped key stored.value cmd) :
    RepliesWrongType cmd (respond u env cmd s).1 ∧ (respond u env cmd s).2 = s ↔
      cmd.name ≠ "GET" := by
  have hslot : s.slot key = ⟨some stored, s.expirationIndex.lookup key⟩ := by
    rw [MemoryStore.slot, hstored]
  generalize hv : stored.value = v at h
  cases h with
  | onHash v hne command args hcall =>
    have hwrong : (s.slot key).WrongType env.clock := ⟨stored, hstored, hx, by rwa [hv]⟩
    obtain ⟨hname, hmem⟩ := hcall.name_ne key command args
    rw [respond_registered u env command hmem args (hcall.arity key command args) s s _
      (hcall.run_execute env key s hwrong command args)]
    refine iff_of_true
      ⟨⟨_, rfl, fun _ => ⟨" Operation against a key holding the wrong kind of value", ?_⟩⟩, rfl⟩
      hname
    decide +kernel
  | get g =>
    have hunexpired : (s.slot key).unexpired env.clock = some stored := by
      rw [hslot, Slot.unexpired_alive _ _ _ hx]
    rw [respond_get_shown u env key s stored hunexpired (by rw [hv]; rfl)]
    refine iff_of_false ?_ (fun hget => hget rfl)
    rintro ⟨⟨message, hreply, -⟩, -⟩
    cases hreply
  | incr g =>
    have hreply := respond_registered u env .incr (by decide) _ (arity_fixed _ _ _ rfl) s s _
      (run_incrByCommand_hash env key s "INCR" incrAmount stored _ g hslot hx hv)
    rw [show respond u env ⟨"INCR", [utf8 key]⟩ s = _ from hreply]
    exact iff_of_true ⟨⟨_, rfl, fun hincr => absurd rfl hincr.1⟩, rfl⟩ (by simp)
  | decr g =>
    have hreply := respond_registered u env .decr (by decide) _ (arity_fixed _ _ _ rfl) s s _
      (run_incrByCommand_hash env key s "DECR" decrAmount stored _ g hslot hx hv)
    rw [show respond u env ⟨"DECR", [utf8 key]⟩ s = _ from hreply]
    exact iff_of_true ⟨⟨_, rfl, fun hdecr => absurd rfl hdecr.2⟩, rfl⟩ (by simp)

/-- A hash with one field. -/
def sampleHash : MemoryStore :=
  (handleConnection asciiCaseMap .default (fun _ => .sample)
    [encodeCommand [utf8 "HSET", utf8 "h", utf8 "f", utf8 "v"]] .new).store

theorem sampleHash_lookup :
    sampleHash.data.lookup "h" =
      some (.new Env.sample.clock (.hash ((∅ : Hash).insert "f" "v"))) := by
  decide +kernel

theorem incr_hash_refused :
    RepliesWrongType ⟨"INCR", [utf8 "h"]⟩
      (respond asciiCaseMap .sample ⟨"INCR", [utf8 "h"]⟩ sampleHash).1 ∧
      (respond asciiCaseMap .sample ⟨"INCR", [utf8 "h"]⟩ sampleHash).2 = sampleHash :=
  (wrong_type_refused_iff asciiCaseMap .sample sampleHash "h" _ sampleHash_lookup rfl
    ⟨"INCR", [utf8 "h"]⟩ (.incr _)).mpr (by decide)

/-- `GET` on the hash is answered with a bulk string. -/
theorem get_hash_answered : Reachable asciiCaseMap sampleHash ∧
    ((sampleHash.data.lookup "h").map fun e => (e.value, e.isExpired Env.sample.clock)) =
      some (.hash ((∅ : Hash).insert "f" "v"), false) ∧
    (respond asciiCaseMap .sample ⟨"GET", [utf8 "h"]⟩ sampleHash).1 =
      some (.ok (.bulk (utf8 "(hash)"))) := by
  refine ⟨handleConnection_reachable .., by decide +kernel, ?_⟩
  have hunexpired : (sampleHash.slot "h").unexpired Env.sample.clock =
      some (.new Env.sample.clock (.hash ((∅ : Hash).insert "f" "v"))) := by
    decide +kernel
  exact congrArg Prod.fst (respond_get_shown asciiCaseMap .sample "h" sampleHash _ hunexpired rfl)

end RustyPotato
