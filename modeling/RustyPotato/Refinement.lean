import RustyPotato.ExpiredAsMissing
import RustyPotato.Meaning.Fields
import RustyPotato.Meaning.Keys

/-!
# The server refines the database

Every query that a client puts into words, in any case and with its options in any order, is
answered as the database answers it. By induction this goes on through a run, while keys expire
between the commands.
-/

namespace RustyPotato

open Cmd Parse

namespace Query

/-! ## Every query -/

theorem flushdb_means (env : Env) : Means env.clock (flushdbCommand env []) (flushdb.meaning env) :=
  fun _ => ⟨.new, rfl, rfl⟩

theorem expire_means (env : Env) (key : String) (expiry : Expiry) (flag : ExpireFlag)
    (args : List Bytes) (hargs : (expire key expiry flag).Args args)
    (htimely : expiry.Timely env.clock) :
    Means env.clock ((expire key expiry flag).command.execute env args)
      ((expire key expiry flag).meaning env) := by
  obtain ⟨number, rest, rfl, hnumber, hflag⟩ := hargs
  have hlt : expiry.amount < 2 ^ 64 := by
    obtain ⟨digits, -, hdigits⟩ := Option.bind_eq_some_iff.mp hnumber
    exact parseU64_lt digits _ hdigits
  cases expiry with
  | seconds n =>
    refine Database.means_deadline env key "EXPIRE" resolveSecs number rest
      (.seconds n) flag hnumber hflag ?_
    rw [Expiry.amount, resolveSecs, addDuration_secs env.clock n htimely]
    rfl
  | milliseconds n =>
    refine Database.means_deadline env key "PEXPIRE" resolveMillis number rest
      (.milliseconds n) flag hnumber hflag ?_
    rw [Expiry.amount, resolveMillis, addDuration_millis env.clock n hlt]
    rfl
  | unixSeconds n =>
    refine Database.means_deadline env key "EXPIREAT" resolveUnixSecs number rest
      (.unixSeconds n) flag hnumber hflag ?_
    have hbound : saturatingMul n 1000 < 2 ^ 64 := by
      unfold saturatingMul
      omega
    exact resolveUnixTarget_eq env.clock _ htimely hbound
  | unixMilliseconds n =>
    refine Database.means_deadline env key "PEXPIREAT" resolveUnixTarget number rest
      (.unixMilliseconds n) flag hnumber hflag ?_
    exact resolveUnixTarget_eq env.clock n htimely hlt

theorem command_means (env : Env) (q : Query) (args : List Bytes) (hargs : q.Args args)
    (htimely : q.Timely env.clock) :
    Means env.clock (q.command.execute env args) (q.meaning env) := by
  cases q with
  | set key value opts =>
    obtain ⟨rest, rfl, hopts⟩ := hargs
    exact Database.means_set env key value rest opts hopts htimely
  | expire key expiry flag => exact expire_means env key expiry flag args hargs htimely
  | get key =>
    obtain rfl := hargs
    exact Database.means_get env key
  | del keys =>
    obtain ⟨hne, rfl⟩ := hargs
    exact Database.means_del env keys hne
  | exists_ keys =>
    obtain ⟨hne, rfl⟩ := hargs
    exact Database.means_exists env keys hne
  | mget keys =>
    obtain ⟨hne, rfl⟩ := hargs
    exact Database.means_mget env keys hne
  | mset pairs =>
    obtain ⟨hne, rfl⟩ := hargs
    exact Database.means_mset env pairs hne
  | incr key =>
    obtain rfl := hargs
    exact Database.means_incrBy env key "INCR" incrAmount
  | decr key =>
    obtain rfl := hargs
    exact Database.means_incrBy env key "DECR" decrAmount
  | ttl key =>
    obtain rfl := hargs
    exact Database.means_ttl env key
  | pttl key =>
    obtain rfl := hargs
    exact Database.means_pttl env key
  | type key =>
    obtain rfl := hargs
    exact Database.means_type env key
  | hset key pairs =>
    obtain ⟨hne, rfl⟩ := hargs
    exact Database.means_hset env key pairs hne
  | hget key field =>
    obtain rfl := hargs
    exact Database.means_hget env key field
  | hdel key names =>
    obtain ⟨hne, rfl⟩ := hargs
    exact Database.means_hdel env key names hne
  | hmget key names =>
    obtain ⟨hne, rfl⟩ := hargs
    exact Database.means_hmget env key names hne
  | hexists key field =>
    obtain rfl := hargs
    exact Database.means_hexists env key field
  | hgetall key =>
    obtain rfl := hargs
    exact Database.means_wholeHash env key "HGETALL" _
  | hkeys key =>
    obtain rfl := hargs
    exact Database.means_wholeHash env key "HKEYS" _
  | hvals key =>
    obtain rfl := hargs
    exact Database.means_wholeHash env key "HVALS" _
  | hlen key =>
    obtain rfl := hargs
    refine (Database.means_wholeHash env key "HLEN" _).congr env.clock _ _ _ fun db => ?_
    simp only [meaning, IterOrder.length_toList]
  | flushdb =>
    obtain rfl := hargs
    exact flushdb_means env

theorem command_mem (q : Query) : q.command ∈ serverRegistry.commands := by
  cases q with
  | expire key expiry flag => cases expiry <;> simp [command, serverRegistry]
  | _ => simp [command, serverRegistry]

theorem parseExpireFlag_length (rest : List Bytes) (flag : ExpireFlag)
    (h : parseExpireFlag rest = .ok flag) : rest.length ≤ 1 := by
  match rest with
  | [] => simp
  | [_] => simp
  | _ :: _ :: _ => cases h

theorem args_arity (q : Query) (name : String) (args : List Bytes) (h : q.Args args) :
    ParsedCommand.validateArity ⟨name, args⟩ q.command.arity = .ok () := by
  cases q with
  | set key value opts =>
    obtain ⟨rest, rfl, -⟩ := h
    exact arity_atLeast _ _ _ (by simp)
  | expire key expiry flag =>
    obtain ⟨number, rest, rfl, -, hflag⟩ := h
    have hlength := parseExpireFlag_length rest flag hflag
    have harity : (expire key expiry flag).command.arity = .range 3 4 := by cases expiry <;> rfl
    rw [harity]
    simp [ParsedCommand.validateArity, ParsedCommand.totalArgs]
    omega
  | del keys | exists_ keys | mget keys =>
    obtain ⟨hne, rfl⟩ := h
    have hpos := List.length_pos_of_ne_nil hne
    exact arity_atLeast _ _ _ (by simp only [List.length_map]; omega)
  | mset pairs =>
    obtain ⟨hne, rfl⟩ := h
    have hpos := List.length_pos_of_ne_nil hne
    exact arity_atLeast _ _ _ (by rw [Database.length_flatMap_pairs]; omega)
  | hset key pairs =>
    obtain ⟨hne, rfl⟩ := h
    have hpos := List.length_pos_of_ne_nil hne
    exact arity_atLeast _ _ _ (by simp only [List.length_cons, length_pairArgs]; omega)
  | hdel key names | hmget key names =>
    obtain ⟨hne, rfl⟩ := h
    have hpos := List.length_pos_of_ne_nil hne
    exact arity_atLeast _ _ _ (by simp only [List.length_cons, List.length_map]; omega)
  | flushdb =>
    obtain rfl := h
    rfl
  | _ =>
    obtain rfl := h
    exact arity_fixed _ _ _ rfl

theorem means (u : CaseMap) (env : Env) (cmd : ParsedCommand) (q : Query) (hsaid : q.SaidBy u cmd)
    (htimely : q.Timely env.clock) :
    Means env.clock (serverRegistry.execute u env cmd) (q.meaning env) := by
  obtain ⟨hname, hargs⟩ := hsaid
  have hfind : serverRegistry.find u cmd.name = some q.command :=
    (CommandRegistry.find_eq_some u serverRegistry (by decide) _ _).mpr ⟨q.command_mem, hname⟩
  have hexecute : serverRegistry.execute u env cmd = q.command.execute env cmd.args := by
    unfold CommandRegistry.execute
    rw [hfind]
    simp only [q.args_arity cmd.name cmd.args hargs]
  rw [hexecute]
  exact q.command_means env cmd.args hargs htimely

theorem respond_meaning (u : CaseMap) (env : Env) (cmd : ParsedCommand) (q : Query)
    (hsaid : q.SaidBy u cmd) (htimely : q.Timely env.clock) (s : MemoryStore) :
    (respond u env cmd s).1 = some (q.meaning env (s.live env.clock)).1 ∧
      (respond u env cmd s).2.live env.clock = (q.meaning env (s.live env.clock)).2 := by
  obtain ⟨s', hrun, hlive⟩ := q.means u env cmd hsaid htimely s
  unfold respond
  rw [hrun]
  exact ⟨rfl, hlive⟩

/-! ## A whole run -/

/-- The commands of a run as the server gets them, and what their clients mean. -/
abbrev Run := List (Env × ParsedCommand × Query)

def commands (run : Run) : List (Env × ParsedCommand) := run.map fun x => (x.1, x.2.1)

def queries (run : Run) : List (Env × Query) := run.map fun x => (x.1, x.2.2)

end Query

/--
The server is a database. Whatever its two maps hold, a run of queries is answered as the database
that a client sees at the start answers it, and leaves the database that the queries leave.
-/
theorem server_is_database (u : CaseMap) (a b : Clock) (run : Query.Run)
    (hsaid : ∀ x ∈ run, x.2.2.SaidBy u x.2.1) (htimely : ∀ x ∈ run, x.2.2.Timely x.1.clock)
    (hclocks : Forward a b (Query.commands run)) (s : MemoryStore) :
    (respondAll u (Query.commands run) s).1 =
        (Query.meaningAll (Query.queries run) (s.live a)).1.map some ∧
      (respondAll u (Query.commands run) s).2.live b =
        Database.later b (Query.meaningAll (Query.queries run) (s.live a)).2 := by
  induction run generalizing a s with
  | nil => exact ⟨rfl, funext fun k => MemoryStore.live_later a b hclocks s k⟩
  | cons x run ih =>
    obtain ⟨env, cmd, q⟩ := x
    have hlater : s.live env.clock = Database.later env.clock (s.live a) :=
      funext fun k => MemoryStore.live_later a env.clock hclocks.1 s k
    obtain ⟨hanswer, hlive⟩ := q.respond_meaning u env cmd (hsaid _ List.mem_cons_self)
      (htimely _ List.mem_cons_self) s
    obtain ⟨hanswers, hend⟩ := ih env.clock (fun y hy => hsaid y (List.mem_cons_of_mem _ hy))
      (fun y hy => htimely y (List.mem_cons_of_mem _ hy)) hclocks.2 (respond u env cmd s).2
    rw [hlive, hlater] at hanswers hend
    rw [hlater] at hanswer
    refine ⟨?_, hend⟩
    simp only [Query.commands, Query.queries, List.map_cons, respondAll, Query.meaningAll]
    rw [hanswer]
    exact congrArg _ hanswers

/-- A key with ten seconds to live, asked for its time, taken for a hash, and gone. -/
def shortLife : Query.Run :=
  [(.sample, ⟨"set", [utf8 "k", utf8 "v", utf8 "ex", utf8 "10"]⟩,
      .set "k" (utf8 "v") { ttl := .seconds 10 }),
    (.atClock (.ofSecs 107 (by decide)), ⟨"TTL", [utf8 "k"]⟩, .ttl "k"),
    (.atClock (.ofSecs 107 (by decide)), ⟨"HLEN", [utf8 "k"]⟩, .hlen "k"),
    (.atClock (.ofSecs 111 (by decide)), ⟨"GET", [utf8 "k"]⟩, .get "k")]

theorem shortLife_answers :
    (respondAll asciiCaseMap (Query.commands shortLife) .new).1 =
      [some (.ok (.simpleString "OK")), some (.ok (.integer 3)), some (.error wrongType),
        some (.ok .nilBulk)] := by
  have hsaid : ∀ x ∈ shortLife, x.2.2.SaidBy asciiCaseMap x.2.1 := by
    simp only [shortLife, List.forall_mem_cons]
    refine ⟨⟨by decide, _, rfl, by decide +kernel⟩, ⟨by decide, rfl⟩, ⟨by decide, rfl⟩,
      ⟨by decide, rfl⟩, by simp⟩
  have htimely : ∀ x ∈ shortLife, x.2.2.Timely x.1.clock := by
    simp only [shortLife, List.forall_mem_cons]
    refine ⟨?_, trivial, trivial, trivial, by simp⟩
    rintro expiry ⟨⟩
    simp [Expiry.Timely, Clock.HasRoom, Env.sample, Env.atClock, Clock.ofSecs, Clock.ofNanos,
      Clock.now, fromSecs, nanosPerSec]
  obtain ⟨hanswers, -⟩ :=
    server_is_database asciiCaseMap Env.sample.clock (.ofSecs 111 (by decide)) shortLife hsaid
      htimely (by decide +kernel) .new
  rw [hanswers]
  simp [shortLife, Query.queries, Query.meaningAll, Query.meaning, Database.later, Database.put,
    Database.fields, Database.remaining, Database.displayed, Entry.alive, Entry.isExpired,
    SetTtlChoice.deadline, SetTtlChoice.expiry?, Expiry.instant, Slot.allows, Env.sample,
    Env.atClock, Clock.ofSecs, Clock.ofNanos, Clock.now, fromSecs, nanosPerSec, Except.map]

end RustyPotato
