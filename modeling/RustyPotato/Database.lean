import RustyPotato.Panic
import RustyPotato.Variadic

/-!
# The database that the commands are for

A database holds values with deadlines under keys. A query reads it and changes it at one reading of
the clock, and between two queries keys expire. There is one map here, without index, metadata and
anything to purge. `KEYS`, `DBSIZE` and `INFO` are not queries: they tell of entries that have
expired and are still there.
-/

namespace RustyPotato

abbrev Database := String → Option Entry

/-- The ways to name a deadline. -/
inductive Expiry where
  | seconds (n : Nat)
  | milliseconds (n : Nat)
  | unixSeconds (n : Nat)
  | unixMilliseconds (n : Nat)

namespace Expiry

def instant (c : Clock) : Expiry → Int
  | seconds n => c.now + fromSecs n
  | milliseconds n => c.now + fromMillis n
  | unixSeconds n => unixDeadline c (saturatingMul n 1000)
  | unixMilliseconds n => unixDeadline c n

def amount : Expiry → Nat
  | seconds n | milliseconds n | unixSeconds n | unixMilliseconds n => n

/-- The clocks can name the instant. -/
def Timely (c : Clock) : Expiry → Prop
  | seconds n => c.HasRoom n
  | milliseconds _ => True
  | unixSeconds _ | unixMilliseconds _ => 0 ≤ c.wall

end Expiry

def SetTtlChoice.expiry? : SetTtlChoice → Option Expiry
  | .default | .keepTtl => none
  | .seconds n => some (.seconds n)
  | .milliseconds n => some (.milliseconds n)
  | .unixSeconds n => some (.unixSeconds n)
  | .unixMilliseconds n => some (.unixMilliseconds n)

/-- The deadline that `SET` leaves, where this was. -/
def SetTtlChoice.deadline (c : Clock) (e : Option Entry) : SetTtlChoice → Option Int
  | .keepTtl => e.bind Entry.deadline
  | choice => choice.expiry?.map (Expiry.instant c)

/-! ## What is seen of an entry -/

namespace Database

/-- A key of another type shows a word for it. -/
def displayed : Option Entry → ResponseValue
  | none => .nilBulk
  | some e =>
    match e.value with
    | .string b => .bulk b
    | v => .text v.asString

def displayedText : Option Entry → ResponseValue
  | none => .nilBulk
  | some e =>
    match e.value with
    | .string b => .bulk b
    | .integer i => .text (toString i.val)
    | _ => .nilBulk

/-- `SET` with `GET` shows what was there as text. -/
def previous : Option Entry → Except String ResponseValue
  | none => .ok .nilBulk
  | some e =>
    match e.value with
    | .string b => .ok (.text (fromUtf8Lossy b))
    | .integer i => .ok (.text (toString i.val))
    | _ => .error wrongType

/-- In whole units. At its deadline a key is still there and has no time left. -/
def remaining (now : Int) (unit : Nat) : Option Entry → Int
  | none => -2
  | some ⟨_, none⟩ => -1
  | some ⟨_, some d⟩ => if now < d then (d - now) / unit else -2

/-- A missing key is a hash without fields. -/
def fields : Option Entry → Except String Hash
  | none => .ok ∅
  | some e =>
    match e.value with
    | .hash h => .ok h
    | _ => .error wrongType

/-- What has not expired. -/
def later (c : Clock) (db : Database) : Database := fun k => (db k).bind (Entry.alive c)

def put (db : Database) (key : String) (e : Option Entry) : Database :=
  fun k => if k = key then e else db k

/-- Nothing counts as zero. -/
def sum (amount : I64) : Option Entry → Except RustyPotatoError I64
  | none => .ok amount
  | some e =>
    e.value.toInteger.bind fun n => (n.checkedAdd amount).elim (.error .integerOverflow) .ok

def add (db : Database) (key : String) (amount : I64) : Except String ResponseValue × Database :=
  match sum amount (db key) with
  | .error err => (.error err.toClientError, db)
  | .ok n => (.ok (.integer n.val), db.put key (some ⟨.integer n, (db key).bind Entry.deadline⟩))

end Database

/-! ## Queries -/

inductive Query where
  | set (key : String) (value : Bytes) (opts : SetOptions)
  | get (key : String)
  | del (keys : List String)
  | exists_ (keys : List String)
  | mget (keys : List String)
  | mset (pairs : List (String × Bytes))
  | incr (key : String)
  | decr (key : String)
  | expire (key : String) (expiry : Expiry) (flag : ExpireFlag)
  | ttl (key : String)
  | pttl (key : String)
  | type (key : String)
  | hset (key : String) (pairs : List (String × String))
  | hget (key field : String)
  | hdel (key : String) (fields : List String)
  | hmget (key : String) (fields : List String)
  | hexists (key field : String)
  | hgetall (key : String)
  | hkeys (key : String)
  | hvals (key : String)
  | hlen (key : String)
  | flushdb

namespace Query

def command : Query → Command
  | set _ _ _ => .set
  | get _ => .get
  | del _ => .del
  | exists_ _ => .exists_
  | mget _ => .mget
  | mset _ => .mset
  | incr _ => .incr
  | decr _ => .decr
  | expire _ (.seconds _) _ => .expire
  | expire _ (.milliseconds _) _ => .pexpire
  | expire _ (.unixSeconds _) _ => .expireat
  | expire _ (.unixMilliseconds _) _ => .pexpireat
  | ttl _ => .ttl
  | pttl _ => .pttl
  | type _ => .type
  | hset _ _ => .hset
  | hget _ _ => .hget
  | hdel _ _ => .hdel
  | hmget _ _ => .hmget
  | hexists _ _ => .hexists
  | hgetall _ => .hgetall
  | hkeys _ => .hkeys
  | hvals _ => .hvals
  | hlen _ => .hlen
  | flushdb => .flushdb

/-- The arguments that ask for it. The options of `SET` may stand in any order that it reads. -/
def Args : Query → List Bytes → Prop
  | set key value opts, args =>
    ∃ rest, args = utf8 key :: value :: rest ∧ parseSetOptions rest = .ok opts
  | expire key expiry flag, args =>
    ∃ number rest, args = utf8 key :: number :: rest ∧
      (fromUtf8 number).bind parseU64 = some expiry.amount ∧ parseExpireFlag rest = .ok flag
  | get key, args | incr key, args | decr key, args | ttl key, args | pttl key, args
  | type key, args | hgetall key, args | hkeys key, args | hvals key, args | hlen key, args =>
    args = [utf8 key]
  | del keys, args | exists_ keys, args | mget keys, args => keys ≠ [] ∧ args = keys.map utf8
  | mset pairs, args => pairs ≠ [] ∧ args = pairs.flatMap fun p => [utf8 p.1, p.2]
  | hset key pairs, args => pairs ≠ [] ∧ args = utf8 key :: pairArgs pairs
  | hget key field, args | hexists key field, args => args = [utf8 key, utf8 field]
  | hdel key fields, args | hmget key fields, args =>
    fields ≠ [] ∧ args = utf8 key :: fields.map utf8
  | flushdb, args => args = []

/-- The name may be written in either case. -/
def SaidBy (u : CaseMap) (cmd : ParsedCommand) (q : Query) : Prop :=
  q.command.name = u.toUppercase cmd.name ∧ q.Args cmd.args

/-- The deadline it names, if it names one, is within reach of the clocks. -/
def Timely (c : Clock) : Query → Prop
  | set _ _ opts => ∀ expiry ∈ opts.ttl.expiry?, expiry.Timely c
  | expire _ expiry _ => expiry.Timely c
  | _ => True

open Database in
/-- The answer, and the database afterwards. -/
def meaning (env : Env) (db : Database) : Query → Except String ResponseValue × Database
  | set key value opts =>
    let applied := Slot.allows opts.existence (db key).isSome
    (if opts.get then previous (db key) else .ok (if applied then .simpleString "OK" else .nilBulk),
      if applied then
        db.put key (Entry.alive env.clock ⟨.string value, opts.ttl.deadline env.clock (db key)⟩)
      else db)
  | get key => (.ok (displayed (db key)), db)
  | del keys =>
    (.ok (.integer (countDistinct (fun k => (db k).isSome) keys)),
      fun k => if k ∈ keys then none else db k)
  | exists_ keys => (.ok (.integer (keys.countP fun k => (db k).isSome)), db)
  | mget keys => (.ok (.array (keys.map fun k => displayedText (db k))), db)
  | mset pairs =>
    (.ok (.simpleString "OK"), fun k => ((lastOf k pairs).map fun v => ⟨.string v, none⟩).or (db k))
  | incr key => db.add key incrAmount
  | decr key => db.add key decrAmount
  | expire key expiry flag =>
    match db key with
    | none => (.ok (.integer 0), db)
    | some e =>
      if Slot.shouldApply flag (expiry.instant env.clock) e.deadline then
        (.ok (.integer 1),
          db.put key (Entry.alive env.clock ⟨e.value, some (expiry.instant env.clock)⟩))
      else (.ok (.integer 0), db)
  | ttl key => (.ok (.integer (remaining env.clock.now nanosPerSec (db key))), db)
  | pttl key =>
    (.ok (.integer (min (remaining env.clock.now nanosPerMilli (db key)) (2 ^ 63 - 1))), db)
  | type key => (.ok (.simpleString ((db key).elim "none" fun e => e.value.typeName)), db)
  | hset key pairs =>
    match fields (db key) with
    | .error e => (.error e, db)
    | .ok h =>
      (.ok (.integer (countDistinct (fun f => (h.lookup f).isNone) (pairs.map Prod.fst))),
        db.put key (some ⟨.hash (hashWith h pairs), (db key).bind Entry.deadline⟩))
  | hget key field => ((fields (db key)).map fun h => bulkOrNil (h.lookup field), db)
  | hdel key names =>
    match fields (db key) with
    | .error e => (.error e, db)
    | .ok h =>
      (.ok (.integer (countDistinct (fun f => (h.lookup f).isSome) names)),
        if without h names = h then db
        -- The last field takes its key with it.
        else if without h names = ∅ then db.put key none
        else db.put key (some ⟨.hash (without h names), (db key).bind Entry.deadline⟩))
  | hmget key names =>
    ((fields (db key)).map fun h => .array (names.map fun f => bulkOrNil (h.lookup f)), db)
  | hexists key field =>
    ((fields (db key)).map fun h => .integer (if (h.lookup field).isSome then 1 else 0), db)
  | hgetall key =>
    ((fields (db key)).map fun h =>
      .array ((env.hashOrder.toList h).flatMap fun p => [.text p.1, .text p.2]), db)
  | hkeys key =>
    ((fields (db key)).map fun h => .array ((env.hashOrder.toList h).map fun p => .text p.1), db)
  | hvals key =>
    ((fields (db key)).map fun h => .array ((env.hashOrder.toList h).map fun p => .text p.2), db)
  | hlen key => ((fields (db key)).map fun h => .integer h.keys.card, db)
  | flushdb => (.ok (.simpleString "OK"), fun _ => none)

/-- One query after the other. -/
def meaningAll : List (Env × Query) → Database → List (Except String ResponseValue) × Database
  | [], db => ([], db)
  | (env, q) :: rest, db =>
    let (answer, db) := q.meaning env (db.later env.clock)
    let (answers, db) := meaningAll rest db
    (answer :: answers, db)

end Query

end RustyPotato
