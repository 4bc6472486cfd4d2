import RustyPotato.Retime
import RustyPotato.SetGrammar

/-!
# Where a command panics

The arguments are indexed after their number was checked. What is left is `Instant::now() +
Duration`, which panics past the end of the clock: for an amount of milliseconds there is always
room, for one of seconds not.
-/

namespace RustyPotato

open Cmd Parse

/-! ## Arguments -/

theorem bind_ne_none {α β : Type} (p : Parse α) (f : α → Parse β) (hp : p ≠ none)
    (hf : ∀ a, p = some (.ok a) → f a ≠ none) : (p >>= f) ≠ none := by
  match p with
  | none => exact absurd rfl hp
  | some (.error e) =>
    intro h
    cases h
  | some (.ok a) => exact hf a rfl

theorem planOf_ne_none {α : Type} (p : Parse α) (hp : p ≠ none) (steps : α → List Step) :
    planOf p steps ≠ none := by
  match p with
  | none => exact absurd rfl hp
  | some (.error e) =>
    intro h
    cases h
  | some (.ok a) =>
    intro h
    cases h

theorem guard_ne_none {α : Type} (c : Prop) [Decidable c] (e : String) (p : Parse α)
    (hp : ¬ c → p ≠ none) : (if c then throw e else p) ≠ none := by
  split_ifs with hc
  · exact fun h => by cases h
  · exact hp hc

theorem arg_ne_none (args : List Bytes) (i : Nat) (h : i < args.length) : arg args i ≠ none := by
  unfold arg orAbort
  rw [List.getElem?_eq_getElem h]
  exact Option.some_ne_none _

theorem argText_ne_none (b : Bytes) : argText b ≠ none := by
  unfold argText
  split
  · exact fun h => by cases h
  · exact fun h => by cases h

theorem argStr_ne_none (args : List Bytes) (i : Nat) (h : i < args.length) : argStr args i ≠ none :=
  bind_ne_none _ _ (arg_ne_none args i h) fun b _ => argText_ne_none b

theorem oneKey_ne_none (name : String) (args : List Bytes) : oneKey name args ≠ none :=
  guard_ne_none _ _ _ fun hlen => argStr_ne_none args 0 (by omega)

theorem keyField_ne_none (name : String) (args : List Bytes) : keyField name args ≠ none := by
  refine guard_ne_none _ _ _ fun hlen => ?_
  refine bind_ne_none _ _ (argStr_ne_none args 0 (by omega)) fun _ _ => ?_
  exact bind_ne_none _ _ (argStr_ne_none args 1 (by omega)) fun _ _ h => by cases h

theorem setArgs_ne_none (args : List Bytes) : setArgs args ≠ none := by
  refine guard_ne_none _ _ _ fun hlen => ?_
  refine bind_ne_none _ _ (argStr_ne_none args 0 (by omega)) fun _ _ => ?_
  refine bind_ne_none _ _ (arg_ne_none args 1 (by omega)) fun _ _ => ?_
  exact bind_ne_none _ _ (Option.some_ne_none _) fun _ _ h => by cases h

theorem expireRequest_ne_none (name : String) (args : List Bytes) :
    expireRequest name args ≠ none := by
  refine guard_ne_none _ _ _ fun hlen => ?_
  refine bind_ne_none _ _ (argStr_ne_none args 0 (by omega)) fun _ _ => ?_
  refine bind_ne_none _ _ (arg_ne_none args 1 (by omega)) fun _ _ => ?_
  split
  · exact fun h => by cases h
  · exact bind_ne_none _ _ (Option.some_ne_none _) fun _ _ h => by cases h

/-! ## Deadlines past the end of the clock -/

/-- `now + Duration::from_secs(n)` does not panic. -/
def Clock.HasRoom (c : Clock) (n : Nat) : Prop := c.now + fromSecs n < 2 ^ 63 * nanosPerSec

def SetTtlChoice.amount : SetTtlChoice → Nat
  | default | keepTtl => 0
  | seconds n | milliseconds n | unixSeconds n | unixMilliseconds n => n

theorem ttlToken_amount (token : String) (choice : Nat → SetTtlChoice)
    (h : ttlToken token = some choice) (n : Nat) : (choice n).amount = n := by
  unfold ttlToken at h
  split_ifs at h <;> cases h <;> rfl

theorem parseSetOptions_amount (args : List Bytes) (opts : SetOptions)
    (h : parseSetOptions args = .ok opts) : opts.ttl.amount < 2 ^ 64 := by
  have hreads := parseSetOptionsFrom_reads (fun opts => opts.ttl.amount < 2 ^ 64)
    (fun _ => True) trivial trivial trivial
    (fun _ _ h => h) (fun _ _ => Nat.two_pow_pos 64) ?_ (fun _ h => h) args {} false false
    (Nat.two_pow_pos 64)
  · unfold parseSetOptions at h
    rw [h] at hreads
    exact hreads
  · intro opts token choice text n htoken hparse
    simp only [ttlToken_amount token choice htoken]
    exact parseU64_lt text n hparse

theorem resolveUnixTarget_ne_none (c : Clock) (millis : Nat) (h : millis < 2 ^ 64) :
    resolveUnixTarget c millis ≠ none := by
  unfold resolveUnixTarget
  intro hnone
  split at hnone
  · cases hnone
  · rename_i nowMs _
    split_ifs at hnone
    · cases hnone
    · rw [addDuration_millis c (millis - nowMs) (by omega)] at hnone
      cases hnone

/-- The seconds from now that the command asks for. -/
def Command.seconds (args : List Bytes) : Command → Option Nat
  | set =>
    match setArgs args with
    | some (.ok { opts := { ttl := .seconds n, .. }, .. }) => some n
    | _ => none
  | expire =>
    match expireRequest "EXPIRE" args with
    | some (.ok r) => some r.amount
    | _ => none
  | _ => none

theorem addDuration_secs (c : Clock) (n : Nat) (h : c.HasRoom n) :
    addDuration c.now (fromSecs n) = some (c.now + fromSecs n) := if_pos h

theorem resolveTtl_ne_none (c : Clock) (choice : SetTtlChoice) (hlt : choice.amount < 2 ^ 64)
    (hroom : ∀ n, choice = .seconds n → c.HasRoom n) : resolveTtl c choice ≠ none := by
  cases choice with
  | default | keepTtl =>
    intro h
    cases h
  | seconds n =>
    rw [resolveTtl, addDuration_secs c n (hroom n rfl)]
    intro h
    cases h
  | milliseconds n =>
    rw [resolveTtl, addDuration_millis c n hlt]
    intro h
    cases h
  | unixSeconds n =>
    rw [resolveTtl, map_eq_pure_bind]
    refine bind_ne_none _ _ (resolveUnixTarget_ne_none c _ ?_) fun _ _ h => by cases h
    simp only [saturatingMul]
    omega
  | unixMilliseconds n =>
    rw [resolveTtl, map_eq_pure_bind]
    exact bind_ne_none _ _ (resolveUnixTarget_ne_none c n hlt) fun _ _ h => by cases h

theorem setArgs_amount (args : List Bytes) (a : SetArgs) (h : setArgs args = some (.ok a)) :
    a.opts.ttl.amount < 2 ^ 64 := by
  unfold setArgs at h
  split_ifs at h
  · cases h
  obtain ⟨key, -, h⟩ := (bind_eq_ok _ _ _).mp h
  obtain ⟨value, -, h⟩ := (bind_eq_ok _ _ _).mp h
  obtain ⟨opts, hopts, h⟩ := (bind_eq_ok _ _ _).mp h
  cases h
  exact parseSetOptions_amount (args.drop 2) opts (Option.some.inj hopts)

theorem expireRequest_amount (name : String) (args : List Bytes) (r : ExpireRequest)
    (h : expireRequest name args = some (.ok r)) : r.amount < 2 ^ 64 := by
  unfold expireRequest at h
  split_ifs at h
  · cases h
  obtain ⟨key, -, h⟩ := (bind_eq_ok _ _ _).mp h
  obtain ⟨text, -, h⟩ := (bind_eq_ok _ _ _).mp h
  cases hn : (fromUtf8 text).bind parseU64 with
  | none =>
    rw [hn] at h
    cases h
  | some n =>
    rw [hn] at h
    obtain ⟨flag, -, h⟩ := (bind_eq_ok _ _ _).mp h
    cases h
    obtain ⟨digits, -, hn⟩ := Option.bind_eq_some_iff.mp hn
    exact parseU64_lt digits n hn

/-! ## The commands -/

namespace Command

/-- A command panics only for want of room. -/
theorem plan_ne_none (cmd : Command) (env : Env) (args : List Bytes)
    (hroom : ∀ n, cmd.seconds args = some n → env.clock.HasRoom n) : cmd.plan env args ≠ none := by
  have hdeadline : ∀ name resolve,
      (∀ r, expireRequest name args = some (.ok r) → resolve env.clock r.amount ≠ none) →
      deadlinePlan env args name resolve ≠ none := by
    intro name resolve hresolve
    refine planOf_ne_none _ (bind_ne_none _ _ (expireRequest_ne_none name args) fun r hr => ?_) _
    exact bind_ne_none _ _ (hresolve r hr) fun _ _ h => by cases h
  cases cmd with
  | set =>
    refine planOf_ne_none _ (bind_ne_none _ _ (setArgs_ne_none args) fun b hb => ?_) _
    refine bind_ne_none _ _ (resolveTtl_ne_none _ _ (setArgs_amount args b hb)
      fun n hn => hroom n ?_) fun _ _ h => by cases h
    obtain ⟨key, value, opts⟩ := b
    obtain ⟨ttl, existence, get⟩ := opts
    obtain rfl : ttl = .seconds n := hn
    rw [seconds, hb]
  | expire =>
    refine hdeadline "EXPIRE" resolveSecs fun r hr => ?_
    rw [resolveSecs, addDuration_secs _ _ (hroom r.amount (by rw [seconds, hr]))]
    exact fun h => by cases h
  | pexpire =>
    refine hdeadline "PEXPIRE" resolveMillis fun r hr => ?_
    rw [resolveMillis, addDuration_millis _ _ (expireRequest_amount _ args r hr)]
    exact fun h => by cases h
  | expireat =>
    refine hdeadline "EXPIREAT" resolveUnixSecs fun r _ => resolveUnixTarget_ne_none _ _ ?_
    simp only [saturatingMul]
    omega
  | pexpireat =>
    exact hdeadline "PEXPIREAT" resolveUnixTarget fun r hr =>
      resolveUnixTarget_ne_none _ _ (expireRequest_amount _ args r hr)
  | get | ttl | pttl | hgetall | hkeys | hvals | hlen | type | keys =>
    exact planOf_ne_none _ (oneKey_ne_none _ args) _
  | del | exists_ | mget => exact planOf_ne_none _ (guard_ne_none _ _ _ fun _ h => by cases h) _
  | mset => exact planOf_ne_none _ (guard_ne_none _ _ _ fun _ h => by cases h) _
  | incr | decr =>
    refine planOf_ne_none _ (guard_ne_none _ _ _ fun hne => argStr_ne_none args 0 ?_) _
    exact List.length_pos_of_ne_nil (by simpa using hne)
  | hset =>
    refine planOf_ne_none _ (guard_ne_none _ _ _ fun hlen => ?_) _
    exact bind_ne_none _ _ (argStr_ne_none args 0 (by omega)) fun _ _ h => by cases h
  | hget | hexists => exact planOf_ne_none _ (keyField_ne_none _ args) _
  | hdel | hmget =>
    exact planOf_ne_none _ (guard_ne_none _ _ _ fun hlen => argStr_ne_none args 0 (by omega)) _
  | flushdb =>
    refine planOf_ne_none _ ?_ _
    unfold flushRequest
    split
    · exact fun h => by cases h
    · split_ifs
      · exact fun h => by cases h
      · exact fun h => by cases h
    · exact fun h => by cases h
  | info =>
    refine planOf_ne_none _ ?_ _
    unfold infoSection
    split
    · exact fun h => by cases h
    · exact argText_ne_none _
    · exact fun h => by cases h
  | ping | echo | dbsize | quit | bgrewriteaof | command => exact Option.some_ne_none _

end Command

/-- The seconds from now that the command asks for. -/
def ParsedCommand.seconds (u : CaseMap) (cmd : ParsedCommand) : Option Nat :=
  (serverRegistry.find u cmd.name).bind (Command.seconds cmd.args)

theorem serverRegistry_plan_ne_none (u : CaseMap) (env : Env) (cmd : ParsedCommand)
    (hroom : ∀ n, cmd.seconds u = some n → env.clock.HasRoom n) :
    serverRegistry.plan u env cmd ≠ none := by
  unfold CommandRegistry.plan
  cases hfind : serverRegistry.find u cmd.name with
  | none => exact Option.some_ne_none _
  | some command =>
    simp only
    cases cmd.validateArity command.arity with
    | error e => exact Option.some_ne_none _
    | ok _ =>
      refine command.plan_ne_none env cmd.args fun n hn => hroom n ?_
      rw [ParsedCommand.seconds, hfind]
      exact hn

/-! ## And for want of room it does -/

theorem bind_of_ok {α β : Type} (p : Parse α) (f : α → Parse β) (a : α) (h : p = some (.ok a)) :
    (p >>= f) = f a := by
  rw [h]
  rfl

theorem bind_of_none {α β : Type} (p : Parse α) (f : α → Parse β) (h : p = none) :
    (p >>= f) = none := by
  rw [h]
  rfl

theorem orAbort_none {α : Type} (o : Option α) (h : o = none) : orAbort o = none := by
  rw [h]
  rfl

theorem Command.plan_eq_none (cmd : Command) (env : Env) (args : List Bytes) (n : Nat)
    (h : cmd.seconds args = some n) (hroom : ¬ env.clock.HasRoom n) : cmd.plan env args = none := by
  have hadd : addDuration env.clock.now (fromSecs n) = none := if_neg hroom
  unfold seconds at h
  split at h
  · split at h
    · rename_i key value existence get hargs
      cases h
      have hrequest : setRequest env.clock args = none := by
        unfold setRequest
        rw [bind_of_ok _ _ _ hargs]
        refine bind_of_none _ _ ?_
        rw [resolveTtl, map_eq_pure_bind]
        exact bind_of_none _ _ (orAbort_none _ hadd)
      rw [plan, setPlan, hrequest]
      rfl
    · cases h
  · split at h
    · rename_i r hr
      cases h
      have hrequest : deadlineRequest "EXPIRE" (resolveSecs env.clock) args = none := by
        unfold deadlineRequest
        rw [bind_of_ok _ _ _ hr]
        exact bind_of_none _ _ (orAbort_none _ hadd)
      rw [plan, deadlinePlan, hrequest]
      rfl
    · cases h
  · cases h

theorem setArgs_length (args : List Bytes) (a : SetArgs) (h : setArgs args = some (.ok a)) :
    2 ≤ args.length := by
  unfold setArgs at h
  split_ifs at h with hlen
  · cases h
  · omega

theorem expireRequest_length (name : String) (args : List Bytes) (r : ExpireRequest)
    (h : expireRequest name args = some (.ok r)) : 2 ≤ args.length ∧ args.length ≤ 3 := by
  unfold expireRequest at h
  split_ifs at h with hlen
  · cases h
  refine ⟨by omega, ?_⟩
  obtain ⟨key, -, h⟩ := (bind_eq_ok _ _ _).mp h
  obtain ⟨text, -, h⟩ := (bind_eq_ok _ _ _).mp h
  cases hn : (fromUtf8 text).bind parseU64 with
  | none =>
    rw [hn] at h
    cases h
  | some n =>
    rw [hn] at h
    obtain ⟨flag, hflag, -⟩ := (bind_eq_ok _ _ _).mp h
    have hflags : parseExpireFlag (args.drop 2) = .ok flag := Option.some.inj hflag
    by_contra hmore
    have htwo : 2 ≤ (args.drop 2).length := by
      rw [List.length_drop]
      omega
    obtain ⟨a, b, rest, hrest⟩ : ∃ a b rest, args.drop 2 = a :: b :: rest := by
      rcases hdrop : args.drop 2 with _ | ⟨a, _ | ⟨b, rest⟩⟩
      · simp [hdrop] at htwo
      · simp [hdrop] at htwo
      · exact ⟨a, b, rest, rfl⟩
    rw [hrest] at hflags
    cases hflags

/-- A command whose amount could be read has passed the check of its arity. -/
theorem Command.arity_of_seconds (cmd : ParsedCommand) (command : Command) (n : Nat)
    (h : command.seconds cmd.args = some n) : cmd.validateArity command.arity = .ok () := by
  unfold seconds at h
  split at h
  · split at h
    · rename_i hargs
      have hlen := setArgs_length _ _ hargs
      rw [arity, ParsedCommand.validateArity, ParsedCommand.totalArgs]
      exact if_neg (by omega)
    · cases h
  · split at h
    · rename_i hr
      have hlen := expireRequest_length _ _ _ hr
      rw [arity, ParsedCommand.validateArity, ParsedCommand.totalArgs]
      exact if_neg (by omega)
    · cases h
  · cases h

theorem serverRegistry_plan_eq_none (u : CaseMap) (env : Env) (cmd : ParsedCommand) (n : Nat)
    (h : cmd.seconds u = some n) (hroom : ¬ env.clock.HasRoom n) :
    serverRegistry.plan u env cmd = none := by
  obtain ⟨command, hfind, hseconds⟩ := Option.bind_eq_some_iff.mp h
  unfold CommandRegistry.plan
  simp only [hfind, Command.arity_of_seconds cmd command n hseconds]
  exact command.plan_eq_none env cmd.args n hseconds hroom

/--
A command returns, on whatever store, just when the clock has room for the seconds it asks for.
-/
theorem execute_returns_iff (u : CaseMap) (env : Env) (cmd : ParsedCommand) (s : MemoryStore) :
    (∃ r s', (serverRegistry.execute u env cmd).run s = some (r, s')) ↔
      ∀ n, cmd.seconds u = some n → env.clock.HasRoom n := by
  have hfollows := serverRegistry.execute_follows u env cmd
  constructor
  · rintro ⟨r, s', hrun⟩ n hn
    by_contra hroom
    rw [serverRegistry_plan_eq_none u env cmd n hn hroom] at hfollows
    rw [hfollows s] at hrun
    cases hrun
  · intro hroom
    cases hplan : serverRegistry.plan u env cmd with
    | none => exact absurd hplan (serverRegistry_plan_ne_none u env cmd hroom)
    | some steps =>
      rw [hplan] at hfollows
      obtain ⟨r, hr⟩ := hfollows s
      exact ⟨r, _, hr⟩

/--
The largest number of seconds that fits an `i64`, a hundred seconds after the start, on an empty
store.
-/
theorem expire_i64_max_panics :
    (serverRegistry.execute asciiCaseMap .sample
      ⟨"EXPIRE", [utf8 "k", utf8 "9223372036854775807"]⟩).run .new = none :=
  rfl

end RustyPotato
