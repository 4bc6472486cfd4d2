import RustyPotato.Commands.Strings

/-! # The commands on deadlines (`commands/ttl.rs`) -/

namespace RustyPotato

open Cmd Parse

def parseExpireFlag : List Bytes → Except String ExpireFlag
  | [] => .ok .none
  | [arg] =>
    match (fromUtf8 arg).map toAsciiUppercase with
    | some "NX" => .ok .nx
    | some "XX" => .ok .xx
    | some "GT" => .ok .gt
    | some "LT" => .ok .lt
    | _ => .error syntaxError
  | _ => .error syntaxError

structure ExpireRequest where
  key : String
  amount : Nat
  flag : ExpireFlag

/-- What the four commands that set a deadline read alike. -/
def expireRequest (name : String) (args : List Bytes) : Parse ExpireRequest := do
  if args.length < 2 then throw (wrongNumber name)
  let key ← argStr args 0
  let text ← arg args 1
  match (fromUtf8 text).bind parseU64 with
  | none => throw notInteger
  | some amount =>
    let flag ← ExceptT.mk (some (parseExpireFlag (args.drop 2)))
    return { key, amount, flag }

/-- The key, the deadline and the flag, once the amount is resolved. -/
def deadlineRequest (name : String) (resolve : Nat → Parse Int) (args : List Bytes) :
    Parse (String × Int × ExpireFlag) := do
  let r ← expireRequest name args
  let deadline ← resolve r.amount
  return (r.key, deadline, r.flag)

def deadlineCommand (name : String) (resolve : Clock → Nat → Parse Int) (env : Env)
    (args : List Bytes) : Cmd ResponseValue := do
  let (key, deadline, flag) ← lift (deadlineRequest name (resolve env.clock) args)
  let applied ← atKey key (Slot.expireAtWithOptions env.clock deadline flag)
  return .integer (if applied then 1 else 0)

/-- The first line of `expire_with_options`, before it looks the key up. -/
def resolveSecs (c : Clock) (n : Nat) : Parse Int := orAbort (addDuration c.now (fromSecs n))

def resolveMillis (c : Clock) (n : Nat) : Parse Int := orAbort (addDuration c.now (fromMillis n))

def resolveUnixSecs (c : Clock) (n : Nat) : Parse Int := resolveUnixTarget c (saturatingMul n 1000)

def expireCommand : Env → List Bytes → Cmd ResponseValue := deadlineCommand "EXPIRE" resolveSecs

def pexpireCommand : Env → List Bytes → Cmd ResponseValue := deadlineCommand "PEXPIRE" resolveMillis

def expireatCommand : Env → List Bytes → Cmd ResponseValue :=
  deadlineCommand "EXPIREAT" resolveUnixSecs

def pexpireatCommand : Env → List Bytes → Cmd ResponseValue :=
  deadlineCommand "PEXPIREAT" resolveUnixTarget

def ttlCommand (env : Env) (args : List Bytes) : Cmd ResponseValue := do
  let key ← lift (oneKey "TTL" args)
  let secs ← atKey key (Slot.ttl env.clock)
  return .integer secs

def pttlCommand (env : Env) (args : List Bytes) : Cmd ResponseValue := do
  let key ← lift (oneKey "PTTL" args)
  let millis ← atKey key (Slot.pttl env.clock)
  return .integer millis

/-! ## What they write -/

section
variable (env : Env) (args : List Bytes)

def deadlinePlan (name : String) (resolve : Clock → Nat → Parse Int) : Option (List Step) :=
  planOf (deadlineRequest name (resolve env.clock) args) fun r => [.on r.1 (.expireAt r.2.1 r.2.2)]

theorem deadlineCommand_follows (name : String) (resolve : Clock → Nat → Parse Int) :
    Follows env.clock (deadlineCommand name resolve env args)
      (deadlinePlan env args name resolve) := by
  refine follows_lift env.clock _ _ _ fun r => ?_
  exact takes_bind_last env.clock _ _ _ (takes_atKey env.clock r.1 _ _ fun _ => rfl) fun _ =>
    takes_pure env.clock _

theorem ttlCommand_follows : Follows env.clock (ttlCommand env args) (readPlan args "TTL") := by
  refine follows_lift env.clock _ _ _ fun key => ?_
  exact takes_bind_last env.clock _ _ _ (takes_atKey env.clock key .purge _ fun _ => rfl) fun _ =>
    takes_pure env.clock _

theorem pttlCommand_follows : Follows env.clock (pttlCommand env args) (readPlan args "PTTL") := by
  refine follows_lift env.clock _ _ _ fun key => ?_
  exact takes_bind_last env.clock _ _ _ (takes_atKey env.clock key .purge _ fun _ => rfl) fun _ =>
    takes_pure env.clock _

end

end RustyPotato
