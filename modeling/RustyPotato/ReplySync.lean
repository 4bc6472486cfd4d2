import RustyPotato.CommandReplies

/-!
# Which replies are in sync

Errors are written as one line and nothing in them is escaped. Those that repeat what a client sent
end early where it had a line end; all others are read back as they were meant.
-/

namespace RustyPotato

open Cmd Parse

/-! ## Errors that repeat what a client sent -/

theorem parseI64_oneLine (text : String) (i : I64) (h : parseI64 text = some i) :
    ¬ HasLineEnd text.toList := by
  intro hend
  have hcr : '\r' ∈ text.toList := hend.subset (by simp)
  obtain ⟨n, hn, -⟩ := Option.bind_eq_some_iff.mp h
  have hsigned : Lib.Decimal.signed text.toList = some n := (Option.filter_eq_some_iff.mp hn).1
  rcases Lib.Decimal.mem_signed _ n hsigned '\r' hcr with h | h | h <;> revert h <;> decide

theorem toInteger_repeats (v : ValueType) :
    (∃ e, v.toInteger = .error e ∧ HasLineEnd e.toClientError.toList) ↔ ∃ b, v = .string b ∧
      crlf <:+: b := by
  have hrepeat : ∀ text, HasLineEnd (RustyPotatoError.notAnInteger text).toClientError.toList ↔
    HasLineEnd text.toList :=
    fun text => hasLineEnd_after _ (by decide) text
  cases v with
  | string b =>
    simp only [ValueType.toInteger, ValueType.string.injEq, exists_eq_left']
    cases htext : fromUtf8 b with
    | none =>
      simp only [Except.error.injEq, exists_eq_left', hrepeat]
      rw [fromUtf8Lossy, String.toList_ofList]
      exact (SameLineEnds.lossy b).iff
    | some text =>
      obtain rfl := (fromUtf8_eq_some _ _).mp htext
      rw [crlf_utf8]
      cases hparse : parseI64 text with
      | none => simp only [hparse, Except.error.injEq, exists_eq_left', hrepeat]
      | some i =>
        refine iff_of_false ?_ (parseI64_oneLine text i hparse)
        rintro ⟨e, he, -⟩
        simp only [hparse] at he
        cases he
  | integer i =>
    refine iff_of_false ?_ ?_
    · rintro ⟨e, he, -⟩
      cases he
    · rintro ⟨b, hb, -⟩
      cases hb
  | hash h =>
    refine iff_of_false ?_ ?_
    · rintro ⟨e, he, hend⟩
      cases he
      rw [hrepeat] at hend
      exact absurd hend (by decide)
    · rintro ⟨b, hb, -⟩
      cases hb
  | list l =>
    refine iff_of_false ?_ ?_
    · rintro ⟨e, he, hend⟩
      cases he
      rw [hrepeat] at hend
      exact absurd hend (by decide)
    · rintro ⟨b, hb, -⟩
      cases hb

theorem Slot.incrBy_repeats (c : Clock) (increment : I64) (t : Slot) :
    (∃ e, (t.incrBy c increment).1 = .error e ∧ HasLineEnd e.toClientError.toList) ↔
      ∃ e b, t.unexpired c = some e ∧ e.value = .string b ∧ crlf <:+: b := by
  unfold Slot.incrBy Slot.unexpired
  cases hentry : t.entry with
  | none => simp
  | some e =>
    by_cases hexp : e.isExpired c = true
    · simp [hexp]
    · have hvalue := toInteger_repeats e.value
      have hlive : Option.filter (fun e => !e.isExpired c) (some e) = some e := by simp [hexp]
      simp only [hlive, if_neg hexp, Option.some.injEq, exists_and_left, exists_eq_left']
      rw [← hvalue]
      cases hint : e.value.toInteger with
      | error err => simp
      | ok n =>
        refine iff_of_false ?_ (by simp)
        rintro ⟨err, herr, hend⟩
        cases hadd : n.checkedAdd increment with
        | none =>
          simp only [hadd] at herr
          cases herr
          exact absurd hend (by decide)
        | some m =>
          simp only [hadd] at herr
          cases herr

theorem formatUnknownCommand_repeats (name : String) (args : List Bytes) :
    HasLineEnd (formatUnknownCommand name args).toList ↔
      HasLineEnd name.toList ∨ ∃ a ∈ args.take 5, crlf <:+: a := by
  have hquoted : ∀ a : Bytes, HasLineEnd ("'" ++ fromUtf8Lossy a ++ "'").toList ↔ crlf <:+: a := by
    intro a
    rw [hasLineEnd_before _ (by decide), hasLineEnd_after _ (by decide), fromUtf8Lossy,
      String.toList_ofList]
    exact (SameLineEnds.lossy a).iff
  have hdots : ¬ HasLineEnd "...".toList := by decide
  unfold formatUnknownCommand
  simp only
  rw [hasLineEnd_between _ (by decide), hasLineEnd_after _ (by decide),
    hasLineEnd_intercalate _ (by decide)]
  have hlist : ∀ l : List Bytes,
      (∃ t ∈ l.map fun a => "'" ++ fromUtf8Lossy a ++ "'", HasLineEnd t.toList) ↔
      ∃ a ∈ l, crlf <:+: a := by
    intro l
    simp only [List.mem_map, exists_exists_and_eq_and, hquoted]
  refine or_congr_right ?_
  split_ifs
  · simp only [List.mem_append, List.mem_singleton, or_and_right, exists_or, exists_eq_left, hdots,
      or_false, hlist]
  · exact hlist _

/--
What a command repeats has a line end: the subcommand of `COMMAND`, the value that `INCR` finds.
-/
def Command.Leaks (env : Env) (args : List Bytes) (s : MemoryStore) : Command → Prop
  | .command _ => ∃ text rest, args = utf8 text :: rest ∧ crlf <:+: utf8 text
  | .incr | .decr =>
    ∃ key e b, args = [utf8 key] ∧ (s.slot key).unexpired env.clock = some e ∧ e.value = .string b ∧
      crlf <:+: b
  | _ => False

/-- A name that is not registered is repeated with its first five arguments. -/
def ReplyLeak (u : CaseMap) (env : Env) (cmd : ParsedCommand) (s : MemoryStore) : Prop :=
  match serverRegistry.find u cmd.name with
  | none => crlf <:+: utf8 cmd.name ∨ ∃ a ∈ cmd.args.take 5, crlf <:+: a
  | some command => command.Leaks env cmd.args s

theorem Cmd.Replies.inSync (m : Cmd ResponseValue) (hm : m.Replies) (s s' : MemoryStore)
    (hs : s.Small) (r : Except String ResponseValue) (hrun : m.run s = some (r, s')) :
    InSync r := by
  have hresult := hm s r s' hs hrun
  cases r with
  | ok v => exact inSync_ok v hresult
  | error e => exact (inSync_error e).mpr hresult

section Repeating
variable (env : Env) (s s' : MemoryStore) (r : Except String ResponseValue)

theorem incrByCommand_inSync (name : String) (increment : I64) (a : Bytes)
    (hrun : (incrByCommand name increment env [a]).run s = some (r, s')) :
    InSync r ↔ ¬ ∃ key e b, [a] = [utf8 key] ∧ (s.slot key).unexpired env.clock = some e ∧
      e.value = .string b ∧
      crlf <:+: b := by
  have hparse : incrByCommand name increment env [a] =
      lift (argText a) >>= fun key => tryAtKey key (Slot.incrBy env.clock increment) >>= fun n =>
        pure (.integer n.val) := rfl
  rw [hparse] at hrun
  cases htext : fromUtf8 a with
  | none =>
    simp only [argText, htext] at hrun
    cases hrun
    refine iff_of_true ((inSync_error _).mpr (by decide)) ?_
    rintro ⟨key, e, b, ha, -⟩
    cases ha
    rw [fromUtf8_utf8] at htext
    cases htext
  | some key =>
    obtain rfl := (fromUtf8_eq_some _ _).mp htext
    have hrepeats := Slot.incrBy_repeats env.clock increment (s.slot key)
    have hkey : (∃ k e b, [utf8 key] = [utf8 k] ∧ (s.slot k).unexpired env.clock = some e ∧
        e.value = .string b ∧ crlf <:+: b) ↔ ∃ e b, (s.slot key).unexpired env.clock = some e ∧
        e.value = .string b ∧ crlf <:+: b := by
      constructor
      · rintro ⟨k, e, b, hk, h⟩
        obtain rfl := utf8_injective _ _ (List.cons.inj hk).1
        exact ⟨e, b, h⟩
      · rintro ⟨e, b, h⟩
        exact ⟨key, e, b, rfl, h⟩
    rw [hkey, ← hrepeats]
    simp only [argText, htext] at hrun
    replace hrun : (tryAtKey key (Slot.incrBy env.clock increment) >>= fun n =>
        pure (ResponseValue.integer n.val)).run s = some (r, s') := hrun
    rw [run_bind] at hrun
    simp only [tryAtKey, MemoryStore.atKey] at hrun
    cases hincr : ((s.slot key).incrBy env.clock increment).1 with
    | ok n =>
      rw [hincr] at hrun
      cases hrun
      exact iff_of_true (inSync_ok _ (sized_integer _ n.inRange)) (by simp)
    | error e =>
      rw [hincr] at hrun
      cases hrun
      rw [inSync_error]
      simp

theorem commandReply_inSync (total : Nat) (htotal : total < 2 ^ 31) (sub : String) :
    InSync (commandReply total sub) ↔ ¬ HasLineEnd sub.toList := by
  unfold commandReply
  split_ifs with hcount hlist
  · subst hcount
    exact iff_of_true (inSync_ok _ (sized_integer _ (by omega))) (by decide)
  · refine iff_of_true (inSync_ok _ (sized_array [] (by decide) (by simp))) ?_
    rcases hlist with rfl | rfl | rfl <;> decide
  · rw [inSync_error, hasLineEnd_before _ (by decide), hasLineEnd_after _ rfl, hasLineEnd_lowercase]

theorem commandCommand_inSync (total : Nat) (htotal : total < 2 ^ 31) (args : List Bytes)
    (hrun : (commandCommand total env args).run s = some (r, s')) :
    InSync r ↔ ¬ ∃ text rest, args = utf8 text :: rest ∧ crlf <:+: utf8 text := by
  match args with
  | [] =>
    cases hrun
    exact iff_of_true (inSync_ok _ (sized_array [] (by decide) (by simp))) (by simp)
  | sub :: rest =>
    have hparse : commandCommand total env (sub :: rest) =
        lift (argText sub >>= fun sub =>
          ExceptT.mk (some (commandReply total (toAsciiUppercase sub)))) := rfl
    rw [hparse] at hrun
    cases htext : fromUtf8 sub with
    | none =>
      simp only [argText, htext] at hrun
      cases hrun
      refine iff_of_true ((inSync_error _).mpr (by decide)) ?_
      rintro ⟨text, rest', hsub, -⟩
      cases hsub
      rw [fromUtf8_utf8] at htext
      cases htext
    | some text =>
      obtain rfl := (fromUtf8_eq_some _ _).mp htext
      have hsub : (∃ t l, utf8 text :: rest = utf8 t :: l ∧ crlf <:+: utf8 t) ↔
          crlf <:+: utf8 text := by
        constructor
        · rintro ⟨t, l, ht, h⟩
          rwa [(List.cons.inj ht).1]
        · intro h
          exact ⟨text, rest, rfl, h⟩
      rw [hsub, crlf_utf8, ← hasLineEnd_uppercase]
      simp only [argText, htext] at hrun
      replace hrun : (lift (some (commandReply total (toAsciiUppercase text)))).run s =
          some (r, s') := hrun
      obtain rfl : commandReply total (toAsciiUppercase text) = r :=
        congrArg Prod.fst (Option.some.inj hrun)
      exact commandReply_inSync total htotal (toAsciiUppercase text)

end Repeating

/-! ## The registry -/

/-- The commands whose errors repeat more than fixed texts. -/
def Command.repeatsInput : Command → Bool
  | .incr | .decr | .command _ => true
  | _ => false

theorem Command.execute_replies (command : Command) (h : command.repeatsInput = false) (env : Env)
    (args : List Bytes) (hin : SmallInput env args) : (command.execute env args).Replies := by
  cases command with
  | incr | decr | command _ => cases h
  | set => exact setCommand_replies env args
  | get => exact getCommand_replies env args
  | del => exact delCommand_replies env args hin.count
  | exists_ => exact existsCommand_replies env args hin.count
  | mget => exact mgetCommand_replies env args hin.count
  | mset => exact msetCommand_replies env args
  | expire => exact deadlineCommand_replies env args "EXPIRE" rfl _ fun _ _ => oneLine_orAbort _
  | pexpire => exact deadlineCommand_replies env args "PEXPIRE" rfl _ fun _ _ => oneLine_orAbort _
  | expireat =>
    exact deadlineCommand_replies env args "EXPIREAT" rfl _ fun _ _ => resolveUnixTarget_oneLine _ _
  | pexpireat => exact deadlineCommand_replies env args "PEXPIREAT" rfl _ resolveUnixTarget_oneLine
  | ttl => exact ttlCommand_replies env args
  | pttl => exact pttlCommand_replies env args
  | hset => exact hsetCommand_replies env args hin.count
  | hget => exact hgetCommand_replies env args
  | hdel => exact hdelCommand_replies env args hin.count
  | hgetall => exact hgetallCommand_replies env args
  | hmget => exact hmgetCommand_replies env args hin.count
  | hkeys => exact hkeysCommand_replies env args
  | hvals => exact hvalsCommand_replies env args
  | hlen => exact hlenCommand_replies env args
  | hexists => exact hexistsCommand_replies env args
  | ping => exact pingCommand_replies env args hin.arg
  | echo => exact echoCommand_replies env args hin.arg
  | dbsize => exact dbsizeCommand_replies env args
  | type => exact typeCommand_replies env args
  | flushdb => exact flushdbCommand_replies env args
  | info => exact infoCommand_replies env args hin.host
  | keys => exact keysCommand_replies env args
  | quit => exact quitCommand_replies env args
  | bgrewriteaof => exact bgrewriteaofCommand_replies env args

theorem validateArity_fixed (cmd : ParsedCommand) (n : Nat)
    (h : cmd.validateArity (.fixed n) = .ok ()) : cmd.totalArgs = n := by
  unfold ParsedCommand.validateArity at h
  by_contra hne
  simp [hne] at h

theorem Command.inSync_iff (command : Command) (hmem : command ∈ serverRegistry.commands)
    (env : Env) (cmd : ParsedCommand) (harity : cmd.validateArity command.arity = .ok ())
    (hin : SmallInput env cmd.args) (s s' : MemoryStore) (hs : s.Small)
    (r : Except String ResponseValue) (hrun : (command.execute env cmd.args).run s = some (r, s')) :
    InSync r ↔ ¬ command.Leaks env cmd.args s := by
  have hone : command = .incr ∨ command = .decr → ∃ a, cmd.args = [a] := by
    intro h
    have htotal : cmd.totalArgs = 2 := by
      rcases h with rfl | rfl <;> exact validateArity_fixed cmd 2 harity
    exact List.length_eq_one_iff.mp (Nat.succ.inj htotal)
  by_cases hrepeats : command.repeatsInput = false
  · have hquiet : ¬ command.Leaks env cmd.args s := by
      cases command <;> first | exact not_false | cases hrepeats
    exact iff_of_true (Cmd.Replies.inSync _ (command.execute_replies hrepeats env _ hin) s s' hs r
      hrun) hquiet
  · cases command with
    | incr =>
      obtain ⟨a, ha⟩ := hone (.inl rfl)
      rw [ha] at hrun ⊢
      exact incrByCommand_inSync env s s' r _ _ a hrun
    | decr =>
      obtain ⟨a, ha⟩ := hone (.inr rfl)
      rw [ha] at hrun ⊢
      exact incrByCommand_inSync env s s' r _ _ a hrun
    | command total =>
      obtain rfl : total = 33 := by simpa [serverRegistry] using hmem
      exact commandCommand_inSync env s s' r _ (by decide) _ hrun
    | _ => exact absurd rfl hrepeats

theorem registered_plain (command : Command) (hmem : command ∈ serverRegistry.commands) :
    '\r' ∉ command.name.toList := by
  revert command
  decide

/--
The error of the arity names the command as the client wrote it, which cannot have a line end: its
upper case is a registered name.
-/
theorem validateArity_oneLine (u : CaseMap) (cmd : ParsedCommand) (command : Command)
    (hfind : serverRegistry.find u cmd.name = some command) (arity : CommandArity) (e : String)
    (h : cmd.validateArity arity = .error e) : ¬ HasLineEnd ("ERR " ++ e).toList := by
  have hnumber : ∀ n : Nat, ¬ HasLineEnd (toString n).toList :=
    fun n => (crlf_utf8 _).not.mp (not_crlf_toString n)
  have hname : ¬ HasLineEnd cmd.name.toList := by
    refine u.not_hasLineEnd cmd.name ?_
    obtain ⟨hmem, hupper⟩ := (serverRegistry.find_eq_some u (by decide) cmd.name command).mp hfind
    rw [← hupper]
    exact registered_plain command hmem
  have htext : ∀ expected : String, ¬ HasLineEnd expected.toList →
      ¬ HasLineEnd ("ERR " ++
        ("wrong number of arguments for '" ++ cmd.name ++ "' command: expected " ++ expected ++
          ", got " ++ toString cmd.totalArgs)).toList := by
    intro expected hexpected
    rw [hasLineEnd_after _ rfl, hasLineEnd_between _ rfl, hasLineEnd_between _ rfl,
      hasLineEnd_after _ rfl]
    simp only [hname, hexpected, hnumber, or_self, not_false_eq_true]
  unfold ParsedCommand.validateArity at h
  split at h
  · split_ifs at h
    cases h
    exact htext _ (hnumber _)
  · split_ifs at h
    cases h
    refine htext _ ?_
    rw [hasLineEnd_between _ rfl]
    simp only [hnumber, or_self, not_false_eq_true]
  · split_ifs at h
    cases h
    refine htext _ ?_
    rw [hasLineEnd_after _ rfl]
    exact hnumber _

theorem validateArity_leaks (command : Command) (env : Env) (cmd : ParsedCommand) (s : MemoryStore)
    (e : String) (h : cmd.validateArity command.arity = .error e) :
    ¬ command.Leaks env cmd.args s := by
  cases command with
  | incr | decr =>
    rintro ⟨key, e, b, hargs, -⟩
    simp [ParsedCommand.validateArity, Command.arity, ParsedCommand.totalArgs, hargs] at h
  | command total => simp [ParsedCommand.validateArity, Command.arity, ParsedCommand.totalArgs] at h
  | _ => exact not_false

/--
The reply is one value, an error exactly when the command failed, unless it repeats a line end.
-/
theorem replies_in_sync_iff (u : CaseMap) (env : Env) (cmd : ParsedCommand) (s s' : MemoryStore)
    (r : Except String ResponseValue) (hin : SmallInput env cmd.args) (hs : s.Small)
    (hrun : (serverRegistry.execute u env cmd).run s = some (r, s')) : InSync r ↔
      ¬ ReplyLeak u env cmd s := by
  unfold CommandRegistry.execute at hrun
  unfold ReplyLeak
  cases hfind : serverRegistry.find u cmd.name with
  | none =>
    rw [hfind] at hrun
    cases hrun
    rw [inSync_error, formatUnknownCommand_repeats, ← crlf_utf8]
  | some command =>
    rw [hfind] at hrun
    simp only at hrun ⊢
    cases harity : cmd.validateArity command.arity with
    | error e =>
      rw [harity] at hrun
      cases hrun
      exact iff_of_true ((inSync_error _).mpr
        (validateArity_oneLine u cmd command hfind _ e harity))
        (validateArity_leaks command env cmd s e harity)
    | ok _ =>
      rw [harity] at hrun
      have hmem : command ∈ serverRegistry.commands := List.mem_of_find?_eq_some hfind
      exact command.inSync_iff hmem env cmd harity hin s s' hs r hrun

/-- A text under `k`, with half of a line end in it. -/
def textSlot : Slot := ⟨some (.new Env.sample.clock (.string (utf8 "ten\n"))), none⟩

def textStore : MemoryStore := MemoryStore.new.put "k" textSlot

theorem slot_textStore (key : String) :
    textStore.slot key = if key = "k" then textSlot else .empty := by
  unfold textStore
  rw [MemoryStore.slot_put]
  rfl

theorem small_textStore : textStore.Small where
  slot key e he := by
    rw [slot_textStore] at he
    split_ifs at he
    · cases he
      have hlength : (utf8 "ten\n").length ≤ 2 ^ 29 := by decide
      exact ⟨hlength, fun d hd => by cases hd⟩
    · cases he
  key key he := by
    rw [slot_textStore] at he
    split_ifs at he with hkey
    · rw [hkey]
      decide
    · exact absurd rfl he
  len := by decide

def textError : String := "ERR value is not an integer or out of range: ten\n"

theorem stored_text_in_sync : SmallInput Env.sample [utf8 "k"] ∧ textStore.Small ∧
    (serverRegistry.execute asciiCaseMap Env.sample ⟨"INCR", [utf8 "k"]⟩).run textStore =
      some (.error textError, textStore) ∧ InSync (.error textError) := by
  have hin : SmallInput Env.sample [utf8 "k"] := ⟨by decide, by decide, by decide +kernel⟩
  have hrun : (serverRegistry.execute asciiCaseMap Env.sample ⟨"INCR", [utf8 "k"]⟩).run textStore =
      some (.error textError, textStore) := rfl
  refine ⟨hin, small_textStore, hrun, ?_⟩
  refine (replies_in_sync_iff asciiCaseMap Env.sample ⟨"INCR", [utf8 "k"]⟩ _ _ _ hin small_textStore
    hrun).mpr ?_
  rintro ⟨key, e, b, hargs, he, hb, hend⟩
  obtain rfl : "k" = key := utf8_injective _ _ (List.cons.inj hargs).1
  rw [slot_textStore, if_pos rfl] at he
  cases he
  cases hb
  exact absurd hend (by decide)

/-- The rest of the name is read as a reply of its own. -/
theorem unknown_name_out_of_sync : ∃ r,
    (serverRegistry.execute asciiCaseMap Env.sample ⟨"X\r\n+OK", []⟩).run .new = some (r, .new) ∧
      ¬ InSync r := by
  refine ⟨.error (formatUnknownCommand "X\r\n+OK" []), rfl, ?_⟩
  rw [inSync_error]
  decide +kernel

end RustyPotato
