import RustyPotato.Commands.Basic

/-! # The string commands (`commands/string.rs`, `commands/atomic.rs`) -/

namespace RustyPotato

open Cmd Parse

/-! ## `SET` and its options -/

inductive SetTtlChoice where
  | default
  | keepTtl
  | seconds (n : Nat)
  | milliseconds (n : Nat)
  | unixSeconds (n : Nat)
  | unixMilliseconds (n : Nat)
deriving DecidableEq

structure SetOptions where
  ttl : SetTtlChoice := .default
  existence : SetExistence := .always
  get : Bool := false
deriving DecidableEq

/-- The four options that take a number. -/
def ttlToken (token : String) : Option (Nat → SetTtlChoice) :=
  if token = "EX" then some .seconds
  else if token = "PX" then some .milliseconds
  else if token = "EXAT" then some .unixSeconds
  else if token = "PXAT" then some .unixMilliseconds
  else none

/-- The loop of `parse_set_options`, from the options read so far. -/
def parseSetOptionsFrom : List Bytes → SetOptions → (ttlSet existenceSet : Bool) →
    Except String SetOptions
  | [], opts, _, _ => .ok opts
  | arg :: rest, opts, ttlSet, existenceSet =>
    match fromUtf8 arg with
    | none => .error syntaxError
    | some text =>
      let token := toAsciiUppercase text
      if token = "NX" ∨ token = "XX" then
        if existenceSet then .error syntaxError
        else
          let existence := if token = "NX" then .onlyIfNotExists else .onlyIfExists
          parseSetOptionsFrom rest { opts with existence } ttlSet true
      else if token = "KEEPTTL" then
        if ttlSet then .error syntaxError
        else parseSetOptionsFrom rest { opts with ttl := .keepTtl } true existenceSet
      else
        match ttlToken token with
        | some choice =>
          if ttlSet then .error syntaxError
          else
            match rest with
            | [] => .error syntaxError
            | number :: rest =>
              match (fromUtf8 number).bind parseU64 with
              | none => .error notInteger
              | some n =>
                if (token = "EX" ∨ token = "PX") ∧ n = 0 then
                  .error "ERR invalid expire time in 'set' command"
                else parseSetOptionsFrom rest { opts with ttl := choice n } true existenceSet
        | none =>
          if token = "GET" then
            if opts.get then .error syntaxError
            else parseSetOptionsFrom rest { opts with get := true } ttlSet existenceSet
          else .error syntaxError

def parseSetOptions (args : List Bytes) : Except String SetOptions :=
  parseSetOptionsFrom args {} false false

/-- `u64::saturating_mul`. -/
def saturatingMul (a b : Nat) : Nat := min (a * b) (2 ^ 64 - 1)

/--
`resolve_unix_target`, whose body `resolve_ttl` repeats. A time in the past gives an instant in the
past.
-/
def resolveUnixTarget (c : Clock) (targetMs : Nat) : Parse Int :=
  match c.unixMillis with
  | none => throw "ERR system clock error"
  | some nowMs =>
    if targetMs ≤ nowMs then pure (c.now - nanosPerMilli)
    else orAbort (addDuration c.now (fromMillis (targetMs - nowMs)))

def resolveTtl (c : Clock) : SetTtlChoice → Parse SetTtlOption
  | .default => pure .none
  | .keepTtl => pure .keepTtl
  | .seconds n => SetTtlOption.at <$> orAbort (addDuration c.now (fromSecs n))
  | .milliseconds n => SetTtlOption.at <$> orAbort (addDuration c.now (fromMillis n))
  | .unixSeconds n => SetTtlOption.at <$> resolveUnixTarget c (saturatingMul n 1000)
  | .unixMilliseconds n => SetTtlOption.at <$> resolveUnixTarget c n

/-- What `SET` reads before it turns to the clock. -/
structure SetArgs where
  key : String
  value : Bytes
  opts : SetOptions

def setArgs (args : List Bytes) : Parse SetArgs := do
  if args.length < 2 then throw (wrongNumber "SET")
  let key ← argStr args 0
  let value ← arg args 1
  let opts ← ExceptT.mk (some (parseSetOptions (args.drop 2)))
  return { key, value, opts }

structure SetRequest extends SetArgs where
  ttl : SetTtlOption

def setRequest (c : Clock) (args : List Bytes) : Parse SetRequest := do
  let a ← setArgs args
  let ttl ← resolveTtl c a.opts.ttl
  return { a with ttl }

/-- The reply to `SET` with `GET`: the previous value, whether or not the write was made. -/
def previousReply : Option StoredValue → Cmd ResponseValue
  | some stored =>
    match stored.value with
    | .string _ | .integer _ => pure (.text stored.value.asString)
    | .hash _ | .list _ => fail wrongType
  | none => pure .nilBulk

def setCommand (env : Env) (args : List Bytes) : Cmd ResponseValue := do
  let r ← lift (setRequest env.clock args)
  let outcome ← atKey r.key (Slot.setWithOptions env.clock (.string r.value) r.ttl r.opts.existence)
  if r.opts.get then previousReply outcome.previous
  else if outcome.applied then return .simpleString "OK"
  else return .nilBulk

/-! ## The others -/

/-- The arguments of a command that takes one key and nothing else. -/
def oneKey (name : String) (args : List Bytes) : Parse String := do
  if args.length ≠ 1 then throw (wrongNumber name)
  argStr args 0

/-- The arguments of a command that takes one or more. -/
def someArgs (name : String) (args : List Bytes) : Parse Unit :=
  if args.isEmpty then throw (wrongNumber name) else pure ()

def getCommand (env : Env) (args : List Bytes) : Cmd ResponseValue := do
  let key ← lift (oneKey "GET" args)
  match ← atKey key (Slot.get env.clock) with
  | some stored =>
    match stored.value.asBytes with
    | some b => return .bulk b
    | none => return .text stored.value.asString
  | none => return .nilBulk

def delCommand (env : Env) (args : List Bytes) : Cmd ResponseValue := do
  lift (someArgs "DEL" args)
  let n ← eachText (fun key => atKey key (Slot.delete env.clock))
    (fun n removed => if removed then n + 1 else n) args 0
  return .integer n

def existsCommand (env : Env) (args : List Bytes) : Cmd ResponseValue := do
  lift (someArgs "EXISTS" args)
  let n ← eachText (fun key => atKey key (Slot.existsKey env.clock))
    (fun n found => if found then n + 1 else n) args 0
  return .integer n

/-- A key of another type shows as nil. -/
def mgetSlot : Option StoredValue → ResponseValue
  | some stored =>
    match stored.value with
    | .string b => .bulk b
    | .integer _ => .text stored.value.asString
    | _ => .nilBulk
  | none => .nilBulk

def mgetCommand (env : Env) (args : List Bytes) : Cmd ResponseValue := do
  lift (someArgs "MGET" args)
  let out ← eachText (fun key => atKey key (Slot.get env.clock))
    (fun out found => out ++ [mgetSlot found]) args []
  return .array out

def msetPairs (args : List Bytes) : Parse (List (Bytes × Bytes)) :=
  if args.isEmpty ∨ args.length % 2 ≠ 0 then throw (wrongNumber "MSET") else pure (pairs args)

def msetCommand (env : Env) (args : List Bytes) : Cmd ResponseValue := do
  let ps ← lift (msetPairs args)
  ps.foldlM (fun _ p => do
    let key ← lift (argText p.1)
    atKey key fun t => ((), t.set env.clock (.string p.2))) ()
  return .simpleString "OK"

/-- `INCR` and `DECR` ask for some argument only; the registry has checked that there is one. -/
def incrKey (name : String) (args : List Bytes) : Parse String := do
  if args.isEmpty then throw (wrongNumber name)
  argStr args 0

def incrByCommand (name : String) (increment : I64) (env : Env) (args : List Bytes) :
    Cmd ResponseValue := do
  let key ← lift (incrKey name args)
  let n ← tryAtKey key (Slot.incrBy env.clock increment)
  return .integer n.val

def incrAmount : I64 := ⟨1, by decide⟩

def incrCommand : Env → List Bytes → Cmd ResponseValue := incrByCommand "INCR" incrAmount

def decrAmount : I64 := ⟨-1, by decide⟩

def decrCommand : Env → List Bytes → Cmd ResponseValue := incrByCommand "DECR" decrAmount

/-! ## What they write -/

section
variable (env : Env) (args : List Bytes)

def setPlan : Option (List Step) :=
  planOf (setRequest env.clock args) fun r =>
    [.on r.key (.setWithOptions (.string r.value) r.ttl r.opts.existence)]

theorem takes_previousReply (c : Clock) (p : Option StoredValue) :
    Takes c (previousReply p) [] := by
  unfold previousReply
  split
  · split
    · exact takes_pure c _
    · exact takes_pure c _
    · exact takes_fail c _
    · exact takes_fail c _
  · exact takes_pure c _

theorem setCommand_follows : Follows env.clock (setCommand env args) (setPlan env args) := by
  refine follows_lift env.clock _ _ _ fun r => ?_
  refine takes_bind_last env.clock _ _ _ (takes_atKey env.clock r.key _ _ fun _ => rfl)
    fun outcome => ?_
  split
  · exact takes_previousReply env.clock _
  · split <;> exact takes_pure env.clock _

def readPlan (name : String) : Option (List Step) :=
  planOf (oneKey name args) fun key => [.on key .purge]

theorem getCommand_follows : Follows env.clock (getCommand env args) (readPlan args "GET") := by
  refine follows_lift env.clock _ _ _ fun key => ?_
  refine takes_bind_last env.clock _ _ _ (takes_atKey env.clock key .purge _ fun _ => rfl)
    fun found => ?_
  split
  · split <;> exact takes_pure env.clock _
  · exact takes_pure env.clock _

/-- The plan of a command that does one thing to each of its arguments. -/
def eachPlan (name : String) (step : String → Step) : Option (List Step) :=
  planOf (someArgs name args) fun _ => textPlan step args

theorem eachKey_follows {α γ : Type} (name : String) (op : Op) (f : Slot → α × Slot)
    (hf : ∀ t, (f t).2 = op.run env.clock t) (g : γ → α → γ) (acc : γ) (reply : γ → ResponseValue) :
    Follows env.clock (do
      lift (someArgs name args)
      let r ← eachText (fun key => atKey key f) g args acc
      return reply r) (eachPlan args name fun key => .on key op) := by
  refine follows_lift env.clock _ _ _ fun _ => ?_
  refine takes_bind_last env.clock _ _ _ ?_ fun _ => takes_pure env.clock _
  exact takes_eachText env.clock _ _ _ (fun key => takes_atKey env.clock key op f hf)
    (fun key rest => idle_atKey env.clock key f _) args acc

theorem delCommand_follows :
    Follows env.clock (delCommand env args) (eachPlan args "DEL" fun key => .on key .delete) :=
  eachKey_follows env args "DEL" .delete _ (fun _ => rfl) _ _ _

theorem existsCommand_follows :
    Follows env.clock (existsCommand env args) (eachPlan args "EXISTS" fun key => .on key .purge) :=
  eachKey_follows env args "EXISTS" .purge _ (fun _ => rfl) _ _ _

theorem mgetCommand_follows :
    Follows env.clock (mgetCommand env args) (eachPlan args "MGET" fun key => .on key .purge) :=
  eachKey_follows env args "MGET" .purge _ (fun _ => rfl) _ _ _

def msetSteps : List (Bytes × Bytes) → List Step :=
  loopPlan fun p => (fromUtf8 p.1).map fun key => [.on key (.set (.string p.2))]

def msetPlan : Option (List Step) := planOf (msetPairs args) msetSteps

theorem msetCommand_follows : Follows env.clock (msetCommand env args) (msetPlan args) := by
  refine follows_lift env.clock _ _ _ fun ps => ?_
  refine takes_bind_last env.clock _ _ _ ?_ fun _ => takes_pure env.clock _
  refine takes_foldlM env.clock _ _ ?_ ?_ ?_ ps ()
  · intro p steps hp _
    obtain ⟨key, hk, rfl⟩ := Option.map_eq_some_iff.mp hp
    rw [argText_ok p.1 key hk, lift_ok_bind]
    exact takes_atKey env.clock key _ _ fun _ => rfl
  · intro p hp _
    exact ⟨notUtf8, by rw [argText_error p.1 (Option.map_eq_none_iff.mp hp), lift_error_bind]⟩
  · intro p hp _ rest
    obtain ⟨key, hk⟩ := Option.isSome_iff_exists.mp (by simpa using hp)
    rw [argText_ok p.1 key hk, lift_ok_bind]
    exact idle_atKey env.clock key _ _

def incrPlan (name : String) (increment : I64) : Option (List Step) :=
  planOf (incrKey name args) fun key => [.on key (.incrBy increment)]

theorem incrByCommand_follows (name : String) (increment : I64) :
    Follows env.clock (incrByCommand name increment env args) (incrPlan args name increment) := by
  refine follows_lift env.clock _ _ _ fun key => ?_
  exact takes_bind_last env.clock _ _ _ (takes_tryAtKey env.clock key _ _ fun _ => rfl) fun _ =>
    takes_pure env.clock _

end

end RustyPotato
