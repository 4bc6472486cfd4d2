import RustyPotato.Commands.Server

/-! # The registry (`commands/registry.rs`) and the two that the server builds (`lib.rs`) -/

namespace RustyPotato

open Cmd

inductive Command where
  | set | get | del | exists_ | mget | mset | incr | decr
  | expire | pexpire | expireat | pexpireat | ttl | pttl
  | hset | hget | hdel | hgetall | hmget | hkeys | hvals | hlen | hexists
  | ping | echo | dbsize | type | flushdb | info | keys | quit | bgrewriteaof
  | command (total : Nat)
deriving DecidableEq

namespace Command

def name : Command → String
  | set => "SET"
  | get => "GET"
  | del => "DEL"
  | exists_ => "EXISTS"
  | mget => "MGET"
  | mset => "MSET"
  | incr => "INCR"
  | decr => "DECR"
  | expire => "EXPIRE"
  | pexpire => "PEXPIRE"
  | expireat => "EXPIREAT"
  | pexpireat => "PEXPIREAT"
  | ttl => "TTL"
  | pttl => "PTTL"
  | hset => "HSET"
  | hget => "HGET"
  | hdel => "HDEL"
  | hgetall => "HGETALL"
  | hmget => "HMGET"
  | hkeys => "HKEYS"
  | hvals => "HVALS"
  | hlen => "HLEN"
  | hexists => "HEXISTS"
  | ping => "PING"
  | echo => "ECHO"
  | dbsize => "DBSIZE"
  | type => "TYPE"
  | flushdb => "FLUSHDB"
  | info => "INFO"
  | keys => "KEYS"
  | quit => "QUIT"
  | bgrewriteaof => "BGREWRITEAOF"
  | command _ => "COMMAND"

def arity : Command → CommandArity
  | set => .atLeast 3
  | get => .fixed 2
  | del => .atLeast 2
  | exists_ => .atLeast 2
  | mget => .atLeast 2
  | mset => .atLeast 3
  | incr => .fixed 2
  | decr => .fixed 2
  | expire => .range 3 4
  | pexpire => .range 3 4
  | expireat => .range 3 4
  | pexpireat => .range 3 4
  | ttl => .fixed 2
  | pttl => .fixed 2
  | hset => .atLeast 4
  | hget => .fixed 3
  | hdel => .atLeast 3
  | hgetall => .fixed 2
  | hmget => .atLeast 3
  | hkeys => .fixed 2
  | hvals => .fixed 2
  | hlen => .fixed 2
  | hexists => .fixed 3
  | ping => .range 1 2
  | echo => .fixed 2
  | dbsize => .fixed 1
  | type => .fixed 2
  | flushdb => .range 1 2
  | info => .range 1 2
  | keys => .fixed 2
  | quit => .fixed 1
  | bgrewriteaof => .fixed 1
  | command _ => .atLeast 1

def isMutation : Command → Bool
  | set | del | mset | incr | decr | expire | pexpire | expireat | pexpireat | hset | hdel
  | flushdb => true
  | _ => false

def isTerminal : Command → Bool
  | quit => true
  | _ => false

def execute : Command → Env → List Bytes → Cmd ResponseValue
  | set => setCommand
  | get => getCommand
  | del => delCommand
  | exists_ => existsCommand
  | mget => mgetCommand
  | mset => msetCommand
  | incr => incrCommand
  | decr => decrCommand
  | expire => expireCommand
  | pexpire => pexpireCommand
  | expireat => expireatCommand
  | pexpireat => pexpireatCommand
  | ttl => ttlCommand
  | pttl => pttlCommand
  | hset => hsetCommand
  | hget => hgetCommand
  | hdel => hdelCommand
  | hgetall => hgetallCommand
  | hmget => hmgetCommand
  | hkeys => hkeysCommand
  | hvals => hvalsCommand
  | hlen => hlenCommand
  | hexists => hexistsCommand
  | ping => pingCommand
  | echo => echoCommand
  | dbsize => dbsizeCommand
  | type => typeCommand
  | flushdb => flushdbCommand
  | info => infoCommand
  | keys => keysCommand
  | quit => quitCommand
  | bgrewriteaof => bgrewriteaofCommand
  | command total => commandCommand total

/-- What the command will do to the store: its arguments decide, and for deadlines the clock. -/
def plan (env : Env) (args : List Bytes) : Command → Option (List Step)
  | set => setPlan env args
  | get => readPlan args "GET"
  | del => eachPlan args "DEL" fun key => .on key .delete
  | exists_ => eachPlan args "EXISTS" fun key => .on key .purge
  | mget => eachPlan args "MGET" fun key => .on key .purge
  | mset => msetPlan args
  | incr => incrPlan args "INCR" incrAmount
  | decr => incrPlan args "DECR" decrAmount
  | expire => deadlinePlan env args "EXPIRE" resolveSecs
  | pexpire => deadlinePlan env args "PEXPIRE" resolveMillis
  | expireat => deadlinePlan env args "EXPIREAT" resolveUnixSecs
  | pexpireat => deadlinePlan env args "PEXPIREAT" resolveUnixTarget
  | ttl => readPlan args "TTL"
  | pttl => readPlan args "PTTL"
  | hset => hsetPlan args
  | hget => fieldPlan args "HGET"
  | hdel => fieldsPlan args "HDEL" .hdel
  | hgetall => readPlan args "HGETALL"
  | hmget => fieldsPlan args "HMGET" fun _ => .purge
  | hkeys => readPlan args "HKEYS"
  | hvals => readPlan args "HVALS"
  | hlen => readPlan args "HLEN"
  | hexists => fieldPlan args "HEXISTS"
  | type => readPlan args "TYPE"
  | flushdb => flushPlan args
  | info => planOf (infoSection args) fun _ => []
  | keys => planOf (oneKey "KEYS" args) fun _ => []
  | ping | echo | dbsize | quit | bgrewriteaof | command _ => some []

/-- Every command keeps to its plan, on every store. -/
theorem execute_follows (cmd : Command) (env : Env) (args : List Bytes) :
    Follows env.clock (cmd.execute env args) (cmd.plan env args) := by
  cases cmd with
  | set => exact setCommand_follows env args
  | get => exact getCommand_follows env args
  | del => exact delCommand_follows env args
  | exists_ => exact existsCommand_follows env args
  | mget => exact mgetCommand_follows env args
  | mset => exact msetCommand_follows env args
  | incr => exact incrByCommand_follows env args "INCR" _
  | decr => exact incrByCommand_follows env args "DECR" _
  | expire => exact deadlineCommand_follows env args "EXPIRE" _
  | pexpire => exact deadlineCommand_follows env args "PEXPIRE" _
  | expireat => exact deadlineCommand_follows env args "EXPIREAT" _
  | pexpireat => exact deadlineCommand_follows env args "PEXPIREAT" _
  | ttl => exact ttlCommand_follows env args
  | pttl => exact pttlCommand_follows env args
  | hset => exact hsetCommand_follows env args
  | hget => exact hgetCommand_follows env args
  | hdel => exact hdelCommand_follows env args
  | hgetall => exact wholeHash_follows env args "HGETALL" _
  | hmget => exact hmgetCommand_follows env args
  | hkeys => exact wholeHash_follows env args "HKEYS" _
  | hvals => exact wholeHash_follows env args "HVALS" _
  | hlen => exact wholeHash_follows env args "HLEN" _
  | hexists => exact hexistsCommand_follows env args
  | ping => exact pingCommand_follows env args
  | echo => exact echoCommand_follows env args
  | dbsize => exact dbsizeCommand_follows env args
  | type => exact typeCommand_follows env args
  | flushdb => exact flushdbCommand_follows env args
  | info => exact infoCommand_follows env args
  | keys => exact keysCommand_follows env args
  | quit => exact quitCommand_follows env args
  | bgrewriteaof => exact bgrewriteaofCommand_follows env args
  | command total => exact commandCommand_follows env args total

/-- A command that is not logged does no more than purge what has expired. -/
theorem plan_readOnly (cmd : Command) (h : cmd.isMutation = false) (env : Env) (args : List Bytes)
    (steps : List Step) (hp : cmd.plan env args = some steps) :
    ∀ step ∈ steps, ∃ key, step = .on key .purge := by
  cases cmd with
  | set | del | mset | incr | decr | expire | pexpire | expireat | pexpireat | hset | hdel
  | flushdb => cases h
  | exists_ | mget =>
    exact planOf_forall _ _ _ (fun _ => textPlan_forall _ _ (fun key => ⟨key, rfl⟩) _) steps hp
  | hmget =>
    exact planOf_forall _ _ _ (fun key => textPlan_forall _ _ (fun _ => ⟨key, rfl⟩) _) steps hp
  | ping | echo | dbsize | quit | bgrewriteaof | command _ =>
    obtain rfl := Option.some.inj hp
    simp
  | _ => exact planOf_forall _ _ _ (by simp) steps hp

end Command

theorem Step.actAll_purges (c : Clock) (k : String) (steps : List Step)
    (h : ∀ step ∈ steps, ∃ key, step = .on key .purge) (e : Option Entry) :
    actAll c k steps e = e := by
  induction steps with
  | nil => rfl
  | cons step steps ih =>
    obtain ⟨key, rfl⟩ := h step List.mem_cons_self
    have hact : act c k (.on key .purge) e = e := by simp [act, Op.apply]
    rw [actAll_cons, hact]
    exact ih fun step hstep => h step (List.mem_cons_of_mem _ hstep)

/-! ## Dispatch -/

/-- The client id is for the trace of the server only and left out. -/
structure ParsedCommand where
  name : String
  args : List Bytes
deriving DecidableEq

def ParsedCommand.totalArgs (cmd : ParsedCommand) : Nat := cmd.args.length + 1

def ParsedCommand.validateArity (cmd : ParsedCommand) (arity : CommandArity) : Except String Unit :=
  let error (expected : String) : Except String Unit :=
    .error ("wrong number of arguments for '" ++ cmd.name ++ "' command: expected " ++ expected ++
      ", got " ++ toString cmd.totalArgs)
  match arity with
  | .fixed n => if cmd.totalArgs ≠ n then error (toString n) else .ok ()
  | .range min max =>
    if cmd.totalArgs < min ∨ max < cmd.totalArgs then
      error (toString min ++ "-" ++ toString max)
    else .ok ()
  | .atLeast min => if cmd.totalArgs < min then error ("at least " ++ toString min) else .ok ()

def formatUnknownCommand (name : String) (args : List Bytes) : String :=
  let quoted := (args.take 5).map fun a => "'" ++ fromUtf8Lossy a ++ "'"
  "ERR unknown command '" ++ name ++ "', with args beginning with: " ++
    ", ".intercalate (if 5 < args.length then quoted ++ ["..."] else quoted)

/-- The commands by the name they were registered under. -/
structure CommandRegistry where
  commands : List Command

namespace CommandRegistry

variable (u : CaseMap) (reg : CommandRegistry)

def find (name : String) : Option Command :=
  reg.commands.find? fun cmd => cmd.name == u.toUppercase name

def execute (env : Env) (cmd : ParsedCommand) : Cmd ResponseValue :=
  match reg.find u cmd.name with
  | some command =>
    match cmd.validateArity command.arity with
    | .error e => fail ("ERR " ++ e)
    | .ok () => command.execute env cmd.args
  | none => fail (formatUnknownCommand cmd.name cmd.args)

def isMutation (name : String) : Bool := ((reg.find u name).map Command.isMutation).getD false

def isTerminal (name : String) : Bool := ((reg.find u name).map Command.isTerminal).getD false

def plan (env : Env) (cmd : ParsedCommand) : Option (List Step) :=
  match reg.find u cmd.name with
  | some command =>
    match cmd.validateArity command.arity with
    | .error _ => some []
    | .ok () => command.plan env cmd.args
  | none => some []

theorem execute_follows (env : Env) (cmd : ParsedCommand) :
    Follows env.clock (reg.execute u env cmd) (reg.plan u env cmd) := by
  unfold execute plan
  split
  · split
    · exact takes_fail env.clock _
    · exact Command.execute_follows _ env cmd.args
  · exact takes_fail env.clock _

/-- Every result comes from the plan. -/
theorem exists_plan (env : Env) (cmd : ParsedCommand) (s s' : MemoryStore)
    (r : Except String ResponseValue) (h : (reg.execute u env cmd).run s = some (r, s')) :
    ∃ steps, reg.plan u env cmd = some steps ∧ s' = Step.runAll env.clock steps s := by
  have hfollows := reg.execute_follows u env cmd
  cases hplan : reg.plan u env cmd with
  | none =>
    rw [hplan] at hfollows
    rw [hfollows s] at h
    cases h
  | some steps =>
    rw [hplan] at hfollows
    obtain ⟨r', hr⟩ := hfollows s
    rw [hr] at h
    cases h
    exact ⟨steps, rfl, rfl⟩

theorem plan_readOnly (env : Env) (cmd : ParsedCommand) (h : reg.isMutation u cmd.name = false)
    (steps : List Step) (hp : reg.plan u env cmd = some steps) :
    ∀ step ∈ steps, ∃ key, step = .on key .purge := by
  unfold plan at hp
  split at hp
  · rename_i command hfind
    split at hp
    · cases hp
      simp
    · exact command.plan_readOnly (by simpa [isMutation, hfind] using h) env cmd.args steps hp
  · cases hp
    simp

end CommandRegistry

/-- What `with_components_internal` registers. -/
def serverRegistry : CommandRegistry where
  commands := [.set, .get, .del, .exists_, .expire, .ttl, .pttl, .pexpire, .expireat, .pexpireat,
    .incr, .decr, .hset, .hget, .hdel, .hgetall, .hexists, .hmget, .hkeys, .hvals, .hlen, .ping,
    .echo, .dbsize, .type, .flushdb, .info, .keys, .mget, .mset, .quit, .bgrewriteaof, .command 33]

/-- What `open` registers for the replay. -/
def replayRegistry : CommandRegistry where
  commands := [.set, .get, .del, .exists_, .mset, .expire, .ttl, .pexpire, .expireat, .pexpireat,
    .incr, .decr, .hset, .hget, .hdel, .hgetall, .hexists, .flushdb]

/-- `COMMAND COUNT` tells the truth. -/
example : serverRegistry.commands.length = 33 := rfl

/-- Each name finds the one command that has it. -/
theorem CommandRegistry.find_eq_some (u : CaseMap) (reg : CommandRegistry)
    (hreg : (reg.commands.map Command.name).Nodup) (name : String) (cmd : Command) :
    reg.find u name = some cmd ↔ cmd ∈ reg.commands ∧ cmd.name = u.toUppercase name := by
  unfold find
  constructor
  · intro h
    exact ⟨List.mem_of_find?_eq_some h, by simpa using List.find?_some h⟩
  · rintro ⟨hmem, hname⟩
    cases hf : reg.commands.find? fun cmd => cmd.name == u.toUppercase name with
    | none => simpa [hname] using List.find?_eq_none.mp hf cmd hmem
    | some other =>
      have hother : other.name = cmd.name := by rw [hname]; simpa using List.find?_some hf
      rw [List.inj_on_of_nodup_map hreg (List.mem_of_find?_eq_some hf) hmem hother]

/-- Every command that is logged is there for the replay. -/
theorem mutation_mem_replay (cmd : Command) (hmem : cmd ∈ serverRegistry.commands)
    (h : cmd.isMutation = true) : cmd ∈ replayRegistry.commands := by
  revert cmd
  decide

theorem CommandRegistry.exists_of_isMutation (u : CaseMap) (reg : CommandRegistry) (name : String)
    (h : reg.isMutation u name = true) : ∃ cmd, reg.find u name = some cmd ∧
      cmd.isMutation = true := by
  unfold isMutation at h
  cases hf : reg.find u name with
  | none => simp [hf] at h
  | some cmd => exact ⟨cmd, rfl, by simpa [hf] using h⟩

theorem replayRegistry_find (u : CaseMap) (name : String)
    (h : serverRegistry.isMutation u name = true) :
    replayRegistry.find u name = serverRegistry.find u name := by
  obtain ⟨cmd, hfind, hmut⟩ := CommandRegistry.exists_of_isMutation u _ name h
  obtain ⟨hmem, hname⟩ :=
    (CommandRegistry.find_eq_some u serverRegistry (by decide) name cmd).mp hfind
  rw [hfind, CommandRegistry.find_eq_some u replayRegistry (by decide)]
  exact ⟨mutation_mem_replay cmd hmem hmut, hname⟩

/-- The replay gives a logged command the plan that it had live, but for the clock. -/
theorem replayRegistry_plan (u : CaseMap) (env : Env) (cmd : ParsedCommand)
    (h : serverRegistry.isMutation u cmd.name = true) :
    replayRegistry.plan u env cmd = serverRegistry.plan u env cmd := by
  unfold CommandRegistry.plan
  rw [replayRegistry_find u cmd.name h]

end RustyPotato
