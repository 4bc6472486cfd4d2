import RustyPotato.Commands.Hashes

/-! # The commands on the server and on all keys (`commands/server.rs`) -/

namespace RustyPotato

open Cmd Parse

/-! ## The pattern of `KEYS` -/

/-- The loop of `match_class` over what follows the bracket, with the bytes consumed so far. -/
def classFrom (b : UInt8) : Bytes → Nat → Bool → Option (Nat × Bool)
  | [], _, _ => none
  | lo :: rest, i, matched =>
    if lo = ch ']' then some (i + 1, matched)
    else
      match rest with
      | dash :: hi :: rest =>
        if dash = ch '-' ∧ hi ≠ ch ']' then
          classFrom b rest (i + 3) (matched || (decide (lo ≤ b) && decide (b ≤ hi)))
        else classFrom b (dash :: hi :: rest) (i + 1) (matched || lo == b)
      | rest => classFrom b rest (i + 1) (matched || lo == b)

/--
How far the class at the head of `p` reaches and whether it matches `b`. Unclosed, it is none.
-/
def matchClass (p : Bytes) (b : UInt8) : Option (Nat × Bool) :=
  match p.drop 1 with
  | caret :: rest =>
    if caret = ch '^' then (classFrom b rest 2 false).map fun r => (r.1, !r.2)
    else classFrom b (caret :: rest) 1 false
  | [] => none

/-- Where the loop of `glob_match_bytes` stands, and the last star it passed. -/
structure GlobState where
  pi : Nat
  ti : Nat
  starP : Option Nat
  starT : Nat

/-- One turn that consumes something, if the pattern allows one here. -/
def GlobState.advance (p t : Bytes) (g : GlobState) : Option GlobState :=
  match p[g.pi]?, t[g.ti]? with
  | some a, some b =>
    if a = ch '\\' then
      if p[g.pi + 1]? = some b then some { g with pi := g.pi + 2, ti := g.ti + 1 } else none
    else if a = ch '?' then some { g with pi := g.pi + 1, ti := g.ti + 1 }
    else if a = ch '*' then some { g with starP := some g.pi, starT := g.ti, pi := g.pi + 1 }
    else if a = ch '[' then
      match matchClass (p.drop g.pi) b with
      | some (n, true) => some { g with pi := g.pi + n, ti := g.ti + 1 }
      | _ => none
    else if a = b then some { g with pi := g.pi + 1, ti := g.ti + 1 }
    else none
  | _, _ => none

/-- Back to the last star, which takes one byte more. -/
def GlobState.backtrack (g : GlobState) : Option GlobState :=
  g.starP.map fun sp => { g with pi := sp + 1, starT := g.starT + 1, ti := g.starT + 1 }

def globLoop (p t : Bytes) : Nat → GlobState → Bool
  | 0, _ => false
  | fuel + 1, g =>
    if g.ti < t.length then
      match (g.advance p t).or g.backtrack with
      | some g => globLoop p t fuel g
      | none => false
    else ((p.drop g.pi).dropWhile (· == ch '*')).isEmpty

/-- Between two backtracks the pattern index grows, and each backtrack moves the star on. -/
def globMatchBytes (p t : Bytes) : Bool :=
  globLoop p t ((t.length + 2) * (p.length + 2)) { pi := 0, ti := 0, starP := none, starT := 0 }

def globMatch (pattern text : String) : Bool := globMatchBytes (utf8 pattern) (utf8 text)

/-! ## The commands -/

def pingCommand (_ : Env) (args : List Bytes) : Cmd ResponseValue :=
  match args with
  | [] => pure (.simpleString "PONG")
  | [message] => pure (.bulk message)
  | _ => fail (wrongNumber "PING")

def echoCommand (_ : Env) (args : List Bytes) : Cmd ResponseValue :=
  match args with
  | [message] => pure (.bulk message)
  | _ => fail (wrongNumber "ECHO")

/-- Counts the keys that have expired and not been purged as well. -/
def dbsizeCommand (_ : Env) (args : List Bytes) : Cmd ResponseValue :=
  if args.isEmpty then read fun s => .integer s.len else fail (wrongNumber "DBSIZE")

def typeCommand (env : Env) (args : List Bytes) : Cmd ResponseValue := do
  let key ← lift (oneKey "TYPE" args)
  match ← atKey key (Slot.get env.clock) with
  | some stored => return .simpleString stored.value.typeName
  | none => return .simpleString "none"

def flushRequest (args : List Bytes) : Parse Unit :=
  match args with
  | [] => pure ()
  | [mode] =>
    if eqIgnoreAsciiCase mode (utf8 "SYNC") ∨ eqIgnoreAsciiCase mode (utf8 "ASYNC") then pure ()
    else throw syntaxError
  | _ => throw syntaxError

def flushdbCommand (_ : Env) (args : List Bytes) : Cmd ResponseValue := do
  lift (flushRequest args)
  update MemoryStore.clear
  return .simpleString "OK"

def infoServer (host : Host) : String :=
  "# Server\r\n" ++ "rustypotato_version:" ++ host.version ++ "\r\n" ++
  "os:" ++ host.os ++ "\r\n" ++
  "arch:" ++ host.arch ++ "\r\n" ++ "process_id:" ++ toString host.processId ++ "\r\n" ++
  "uptime_in_seconds:" ++ toString host.uptimeSeconds ++ "\r\n" ++ "tcp_port:0\r\n" ++ "\r\n"

def infoKeyspace (keys : Nat) : String :=
  "# Keyspace\r\n" ++
  (if 0 < keys then "db0:keys=" ++ toString keys ++ ",expires=0,avg_ttl=0\r\n" else "") ++ "\r\n"

def infoSection (args : List Bytes) : Parse String :=
  match args with
  | [] => pure "default"
  | [section_] => argText section_
  | _ => throw (wrongNumber "INFO")

def infoCommand (env : Env) (args : List Bytes) : Cmd ResponseValue := do
  let want ← toAsciiLowercase <$> lift (infoSection args)
  let server :=
    if want ∈ ["server", "default", "all", "everything"] then infoServer env.host else ""
  let wantKeyspace := want ∈ ["keyspace", "default", "all", "everything"]
  read fun s => .text (server ++ if wantKeyspace then infoKeyspace s.len else "")

/-- Lists the keys that have expired and not been purged as well. -/
def keysCommand (env : Env) (args : List Bytes) : Cmd ResponseValue := do
  let pattern ← lift (oneKey "KEYS" args)
  read fun s => .array (((s.keys env.keyOrder).filter (globMatch pattern)).map .text)

def commandReply (total : Nat) (sub : String) : Except String ResponseValue :=
  if sub = "COUNT" then .ok (.integer total)
  else if sub = "LIST" ∨ sub = "DOCS" ∨ sub = "INFO" then .ok (.array [])
  else
    .error ("ERR unknown subcommand or wrong number of arguments for '" ++ toAsciiLowercase sub ++
      "'")

def commandCommand (total : Nat) (_ : Env) (args : List Bytes) : Cmd ResponseValue :=
  match args with
  | [] => pure (.array [])
  | sub :: _ => lift (do
      let sub ← argText sub
      ExceptT.mk (some (commandReply total (toAsciiUppercase sub))))

/-- The rewrite reads the store and leaves it alone; its outcome is part of the environment. -/
def bgrewriteaofCommand (env : Env) (args : List Bytes) : Cmd ResponseValue :=
  if args.isEmpty then
    match env.rewrite with
    | none => fail "ERR persistence (AOF) is not enabled; BGREWRITEAOF has nothing to do"
    | some (.error e) => fail e.toError.toClientError
    | some (.ok ()) => pure (.simpleString "Background append only file rewriting started")
  else fail (wrongNumber "BGREWRITEAOF")

def quitCommand (_ : Env) (args : List Bytes) : Cmd ResponseValue :=
  if args.isEmpty then pure (.simpleString "OK") else fail (wrongNumber "QUIT")

/-! ## What they write -/

section
variable (env : Env) (args : List Bytes)

theorem pingCommand_follows : Follows env.clock (pingCommand env args) (some []) := by
  unfold pingCommand
  split
  · exact takes_pure env.clock _
  · exact takes_pure env.clock _
  · exact takes_fail env.clock _

theorem echoCommand_follows : Follows env.clock (echoCommand env args) (some []) := by
  unfold echoCommand
  split
  · exact takes_pure env.clock _
  · exact takes_fail env.clock _

theorem dbsizeCommand_follows : Follows env.clock (dbsizeCommand env args) (some []) := by
  unfold dbsizeCommand
  split
  · exact takes_read env.clock _
  · exact takes_fail env.clock _

theorem typeCommand_follows : Follows env.clock (typeCommand env args) (readPlan args "TYPE") := by
  refine follows_lift env.clock _ _ _ fun key => ?_
  refine takes_bind_last env.clock _ _ _ (takes_atKey env.clock key .purge _ fun _ => rfl)
    fun found => ?_
  split <;> exact takes_pure env.clock _

def flushPlan : Option (List Step) := planOf (flushRequest args) fun _ => [.flush]

theorem flushdbCommand_follows : Follows env.clock (flushdbCommand env args) (flushPlan args) := by
  refine follows_lift env.clock _ _ _ fun _ => ?_
  exact takes_bind_last env.clock _ _ _ (fun s => ⟨.ok (), rfl⟩) fun _ => takes_pure env.clock _

theorem infoCommand_follows :
    Follows env.clock (infoCommand env args) (planOf (infoSection args) fun _ => []) := by
  unfold infoCommand
  rcases infoSection args with _ | (e | want)
  · exact fun _ => rfl
  · exact takes_fail env.clock e
  · exact takes_read env.clock _

theorem keysCommand_follows :
    Follows env.clock (keysCommand env args) (planOf (oneKey "KEYS" args) fun _ => []) :=
  follows_lift env.clock _ _ _ fun _ => takes_read env.clock _

theorem commandCommand_follows (total : Nat) :
    Follows env.clock (commandCommand total env args) (some []) := by
  unfold commandCommand
  split
  · exact takes_pure env.clock _
  · rename_i sub _
    cases hs : fromUtf8 sub with
    | none => rw [argText_error sub hs]; exact takes_fail env.clock _
    | some text =>
      rw [argText_ok sub text hs]
      intro s
      exact ⟨commandReply total (toAsciiUppercase text), rfl⟩

theorem bgrewriteaofCommand_follows :
    Follows env.clock (bgrewriteaofCommand env args) (some []) := by
  unfold bgrewriteaofCommand
  split
  · split
    · exact takes_fail env.clock _
    · exact takes_fail env.clock _
    · exact takes_pure env.clock _
  · exact takes_fail env.clock _

theorem quitCommand_follows : Follows env.clock (quitCommand env args) (some []) := by
  unfold quitCommand
  split
  · exact takes_pure env.clock _
  · exact takes_fail env.clock _

end

end RustyPotato
