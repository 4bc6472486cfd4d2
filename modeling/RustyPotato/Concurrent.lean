import RustyPotato.Lib.Threads
import RustyPotato.Store

/-!
# The store under concurrent clients (`storage/memory.rs`)

Here a call on the store is a program: one step for each call on one of the two `DashMap`s, where a
block that holds an entry is one step. Other clients can come between any two steps. Without them
each program does what the operation on the slot does.
-/

namespace RustyPotato

open Lib.Threads

/-- A call on a map. All but the last are on `data`. -/
inductive DashCall where
  | get | getMut | entry | insert | remove | removeIndex
deriving DecidableEq

structure StoreStep where
  call : DashCall
  key : String
  /-- The client has found the key expired and is about to remove it. -/
  purging : Bool
deriving DecidableEq

abbrev StoreProg := Prog StoreStep Clock MemoryStore

/-- What a client sees under a key while it holds the entry. -/
inductive Seen (α : Type) where
  | missing
  | expired
  | live (a : α)

namespace Slot

def seen {α : Type} (c : Clock) (read : Clock → StoredValue → α) (s : Slot) : Seen α :=
  match s.entry with
  | none => .missing
  | some e => if e.isExpired c then .expired else .live (read c e)

/-- The entry block of `set_with_options`, where the deadline is resolved already. -/
def setEntry (c : Clock) (value : ValueType) (resolved : Option Int) (existence : SetExistence)
    (s : Slot) : SetOutcome × Slot :=
  match s.entry with
  | some e =>
    let present := !e.isExpired c
    let previous := if present then some e else none
    if allows existence present then
      (⟨true, previous⟩, ⟨some (storedWith c value resolved), resolved⟩)
    else (⟨false, previous⟩, s)
  | none =>
    match existence with
    | .onlyIfExists => (⟨false, none⟩, s)
    | _ => (⟨true, none⟩, ⟨some (storedWith c value resolved), resolved.or s.index⟩)

/-- The entry block of `hset`. It does not look at the deadline. -/
def hsetEntry (c : Clock) (field value : String) (s : Slot) : Except RustyPotatoError Bool × Slot :=
  match s.entry with
  | some e =>
    match e.value with
    | .hash h =>
      (.ok (h.lookup field).isNone,
        { s with
          entry := some
            (({ e with value := .hash (h.insert field value) }.touch c).updateMetadata c) })
    | _ => (.error (.storageError wrongType (some "hset")), s)
  | none =>
    (.ok true, { s with entry := some (.new c (.hash ((∅ : Hash).insert field value))) })

/-- The block of `expire_with_options` and `expire_at_with_options` that holds the entry. -/
def expireEntry (c : Clock) (deadline : Int) (flag : ExpireFlag) (s : Slot) : Seen Bool × Slot :=
  match s.entry with
  | some e =>
    if e.isExpired c then (.expired, s)
    else if shouldApply flag deadline e.expiresAt then
      (.live true, ⟨some (e.setExpiration deadline), some deadline⟩)
    else (.live false, s)
  | none => (.missing, s)

/-- The block of `persist` that holds the entry. -/
def persistEntry (c : Clock) (s : Slot) : Seen Bool × Slot :=
  match s.entry with
  | some e =>
    if e.isExpired c then (.expired, s)
    else (.live e.expiresAt.isSome, ⟨some e.removeExpiration, none⟩)
  | none => (.missing, s)

/-- The entry block of `incr_by`. It ends without a result when it has removed an expired entry. -/
def incrEntry (c : Clock) (increment : I64) (s : Slot) :
    Option (Except RustyPotatoError I64) × Slot :=
  match s.entry with
  | some e =>
    if e.isExpired c then (none, { s with entry := none })
    else
      match e.value.toInteger with
      | .error err => (some (.error err), s)
      | .ok current =>
        match current.checkedAdd increment with
        | none => (some (.error .integerOverflow), s)
        | some n =>
          (some (.ok n), { s with entry := some ({ e with value := .integer n }.touch c) })
  | none => (some (.ok increment), { s with entry := some (.new c (.integer increment)) })

/-- What `hdel` decides on: whether the field is there, and whether it is the last one. -/
def hdelLook (field : String) (s : Slot) : Option (Except RustyPotatoError (Bool × Bool)) :=
  s.entry.map fun e =>
    match e.value with
    | .hash h =>
      .ok ((h.lookup field).isSome, decide (h.entries.card = 1) && (h.lookup field).isSome)
    | _ => .error (.storageError wrongType (some "hdel"))

/-- The block of `hdel` that takes the field out of what it then finds. -/
def hdelEntry (c : Clock) (field : String) (s : Slot) : Slot :=
  match s.entry with
  | some e =>
    match e.value with
    | .hash h =>
      { s with
        entry := some (({ e with value := .hash (h.erase field) }.touch c).updateMetadata c) }
    | _ => s
  | none => s

/-- What is under the key then has the deadline of what was there, or none. -/
def Inherits (s s' : Slot) : Prop :=
  ∀ e', s'.entry = some e' → e'.expiresAt = none ∨ ∃ e, s.entry = some e ∧
    e'.expiresAt = e.expiresAt

theorem inherits_hsetEntry (c : Clock) (field value : String) (s : Slot) :
    s.Inherits (s.hsetEntry c field value).2 := by
  intro e' h
  obtain ⟨_ | e, i⟩ := s
  · cases h
    exact .inl rfl
  · refine .inr ⟨e, rfl, ?_⟩
    obtain ⟨v, d, m⟩ := e
    cases v <;> cases h <;> rfl

theorem inherits_hdelEntry (c : Clock) (field : String) (s : Slot) :
    s.Inherits (s.hdelEntry c field) := by
  intro e' h
  obtain ⟨_ | e, i⟩ := s
  · cases h
  · refine .inr ⟨e, rfl, ?_⟩
    obtain ⟨v, d, m⟩ := e
    cases v <;> cases h <;> rfl

theorem inherits_incrEntry (c : Clock) (increment : I64) (s : Slot) :
    s.Inherits (s.incrEntry c increment).2 := by
  intro e' h
  obtain ⟨_ | e, i⟩ := s
  · cases h
    exact .inl rfl
  · refine .inr ⟨e, rfl, ?_⟩
    unfold incrEntry at h
    simp only at h
    split_ifs at h
    cases hvalue : e.value.toInteger with
    | error err =>
      simp only [hvalue] at h
      cases h
      rfl
    | ok n =>
      simp only [hvalue] at h
      cases hadd : n.checkedAdd increment with
      | none =>
        simp only [hadd] at h
        cases h
        rfl
      | some m =>
        simp only [hadd] at h
        cases h
        rfl

/-- What is under the key has not expired then. -/
def Lasts (last : Clock) (s : Slot) : Prop := ∀ e, s.entry = some e → e.isExpired last = false

theorem Lasts.inherit (last : Clock) (s s' : Slot) (h : s.Lasts last) (hs' : s.Inherits s') :
    s'.Lasts last := by
  intro e' he'
  rcases hs' e' he' with hnone | ⟨e, he, hsame⟩
  · exact e'.isExpired_of_none last hnone
  · rw [StoredValue.isExpired_congr last e e' hsame]
    exact h e he

def hashRead {α : Type} (operation : String) (read : Hash → α) (_ : Clock) (e : StoredValue) :
    Except RustyPotatoError α :=
  match e.value with
  | .hash h => .ok (read h)
  | _ => .error (.storageError wrongType (some operation))

end Slot

namespace Concurrent

/-! ## The steps -/

def look {α : Type} (purging : Bool) (key : String) (read : Clock → StoredValue → α) :
    StoreProg (Seen α) :=
  .atomic ⟨.get, key, purging⟩ fun c s => ((s.slot key).seen c read, s)

def removeIndex (purging : Bool) (key : String) : StoreProg Unit :=
  .atomic ⟨.removeIndex, key, purging⟩ fun _ s =>
    s.atKey key fun t => ((), { t with index := none })

def remove (purging : Bool) (key : String) : StoreProg Bool :=
  .atomic ⟨.remove, key, purging⟩ fun _ s =>
    s.atKey key fun t => (t.entry.isSome, { t with entry := none })

def insert (key : String) (value : ValueType) : StoreProg Unit :=
  .atomic ⟨.insert, key, false⟩ fun c s =>
    s.atKey key fun t => ((), { t with entry := some (.new c value) })

/-! ## The calls -/

/-- `delete` and `delete_sync`. Both branches remove. -/
def delete (purging : Bool) (key : String) : StoreProg Bool := do
  match ← look purging key fun _ _ => () with
  | .expired =>
    removeIndex purging key
    let _ ← remove purging key
    return false
  | _ =>
    removeIndex purging key
    remove purging key

/-- The readers: an expired key is deleted on the way. -/
def readKey {α : Type} (key : String) (missing : α) (read : Clock → StoredValue → α) :
    StoreProg α := do
  match ← look false key read with
  | .missing => return missing
  | .expired =>
    let _ ← delete true key
    return missing
  | .live a => return a

def get (key : String) : StoreProg (Option StoredValue) := readKey key none fun _ e => some e

def existsKey (key : String) : StoreProg Bool := readKey key false fun _ _ => true

def ttl (key : String) : StoreProg Int := readKey key (-2) fun c e => (e.ttlSeconds c).getD (-1)

def pttl (key : String) : StoreProg Int := readKey key (-2) fun c e => (e.ttlMillis c).getD (-1)

def hget (key field : String) : StoreProg (Except RustyPotatoError (Option String)) :=
  readKey key (.ok none) (Slot.hashRead "hget" fun h => h.lookup field)

def hgetall (key : String) (order : IterOrder String) :
    StoreProg (Except RustyPotatoError (List (String × String))) :=
  readKey key (.ok []) (Slot.hashRead "hgetall" fun h => order.toList h)

def hexists (key field : String) : StoreProg (Except RustyPotatoError Bool) :=
  readKey key (.ok false) (Slot.hashRead "hexists" fun h => (h.lookup field).isSome)

def set (key : String) (value : ValueType) : StoreProg Unit := do
  removeIndex false key
  insert key value

/-- `KEEPTTL` reads the deadline in a step of its own. -/
def resolveTtl (key : String) : SetTtlOption → StoreProg (Option Int)
  | .none => return none
  | .at d => return some d
  | .keepTtl => do
    match ← look false key fun _ e => e.expiresAt with
    | .live d => return d
    | _ => return none

def setWithOptions (key : String) (value : ValueType) (ttl : SetTtlOption)
    (existence : SetExistence) : StoreProg SetOutcome := do
  let resolved ← resolveTtl key ttl
  .atomic ⟨.entry, key, false⟩ fun c s => s.atKey key (Slot.setEntry c value resolved existence)

def expireAtWithOptions (key : String) (deadline : Int) (flag : ExpireFlag) : StoreProg Bool := do
  match ← Prog.atomic ⟨.getMut, key, false⟩ fun c s =>
    s.atKey key (Slot.expireEntry c deadline flag) with
  | .missing => return false
  | .expired =>
    let _ ← delete true key
    return false
  | .live applied => return applied

/-- The first part of `hset`. -/
def purgeExpired (key : String) : StoreProg Unit := readKey key () fun _ _ => ()

def hset (key field value : String) : StoreProg (Except RustyPotatoError Bool) := do
  purgeExpired key
  .atomic ⟨.entry, key, false⟩ fun c s => s.atKey key (Slot.hsetEntry c field value)

def persist (key : String) : StoreProg Bool := do
  match ← Prog.atomic ⟨.getMut, key, false⟩ fun c s => s.atKey key (Slot.persistEntry c) with
  | .missing => return false
  | .expired =>
    let _ ← delete true key
    return false
  | .live had => return had

/--
The lock is gone with the expired entry, and what is inserted then replaces whatever is there.
-/
def incrBy (key : String) (increment : I64) : StoreProg (Except RustyPotatoError I64) := do
  match ← Prog.atomic ⟨.entry, key, false⟩ fun c s => s.atKey key (Slot.incrEntry c increment) with
  | some r => return r
  | none =>
    removeIndex false key
    insert key (.integer increment)
    return .ok increment

/--
The part of `hdel` after the check for expiry. It decides under one lock and acts under another.
-/
def hdelUnexpired (key field : String) : StoreProg (Except RustyPotatoError Bool) := do
  match ← Prog.atomic ⟨.get, key, false⟩ fun _ s => ((s.slot key).hdelLook field, s) with
  | none => return .ok false
  | some (.error e) => return .error e
  | some (.ok (present, last)) =>
    if !present then return .ok false
    else if last then do
      let _ ← remove false key
      removeIndex false key
      return .ok true
    else do
      .atomic ⟨.getMut, key, false⟩ fun c s => s.atKey key fun t => ((), t.hdelEntry c field)
      return .ok true

def hdel (key field : String) : StoreProg (Except RustyPotatoError Bool) := do
  match ← look false key fun _ _ => () with
  | .expired =>
    let _ ← delete true key
    return .ok false
  | _ => hdelUnexpired key field

/-! ## Without other clients -/

section Alone

variable {α : Type} (c : Clock) (key : String) (s : MemoryStore)

@[simp] theorem look_alone (purging : Bool) (read : Clock → StoredValue → α) :
    (look purging key read).alone c s = ((s.slot key).seen c read, s) := rfl

theorem put_put (t t' : Slot) : (s.put key t).put key t' = s.put key t' := by
  refine MemoryStore.ext_slot _ _ fun k => ?_
  simp only [MemoryStore.slot_put]
  split_ifs <;> rfl

theorem removal_alone (purging : Bool) :
    (do removeIndex purging key; remove purging key : StoreProg Bool).alone c s =
      s.atKey key fun t => (t.entry.isSome, .empty) := by
  simp [removeIndex, remove, MemoryStore.atKey, put_put, Slot.empty]

theorem delete_alone (purging : Bool) :
    (delete purging key).alone c s = s.atKey key (Slot.delete c) := by
  have hremove := removal_alone c key s purging
  rw [Prog.alone_bind] at hremove
  rw [delete, Prog.alone_bind, look_alone]
  unfold Slot.seen
  cases h : (s.slot key).entry with
  | none => simp [hremove, MemoryStore.atKey, Slot.delete, h]
  | some e =>
    by_cases hexp : e.isExpired c = true
    · simp [hremove, MemoryStore.atKey, Slot.delete, h, hexp]
    · simp [hremove, MemoryStore.atKey, Slot.delete, h, hexp]

theorem readKey_alone (missing : α) (read : Clock → StoredValue → α) :
    (readKey key missing read).alone c s =
      s.atKey key fun t => (((t.unexpired c).map (read c)).getD missing, t.purge c) := by
  rw [readKey, Prog.alone_bind, look_alone]
  unfold Slot.seen
  cases h : (s.slot key).entry with
  | none => simp [MemoryStore.atKey, Slot.unexpired, Slot.purge, h, MemoryStore.put_slot]
  | some e =>
    by_cases hexp : e.isExpired c = true
    · simp [delete_alone, MemoryStore.atKey, Slot.unexpired, Slot.purge, Slot.delete, h, hexp,
        Option.filter]
    · simp [MemoryStore.atKey, Slot.unexpired, Slot.purge, h, hexp, MemoryStore.put_slot,
        Option.filter]

theorem get_alone : (get key).alone c s = s.atKey key (Slot.get c) := by
  rw [get, readKey_alone]
  cases h : (s.slot key).unexpired c <;> simp [MemoryStore.atKey, Slot.get, h]

theorem existsKey_alone : (existsKey key).alone c s = s.atKey key (Slot.existsKey c) := by
  rw [existsKey, readKey_alone]
  cases h : (s.slot key).unexpired c <;> simp [MemoryStore.atKey, Slot.existsKey, h]

theorem ttl_alone : (ttl key).alone c s = s.atKey key (Slot.ttl c) := by
  rw [ttl, readKey_alone]
  cases h : (s.slot key).unexpired c <;> simp [MemoryStore.atKey, Slot.ttl, h]

theorem pttl_alone : (pttl key).alone c s = s.atKey key (Slot.pttl c) := by
  rw [pttl, readKey_alone]
  cases h : (s.slot key).unexpired c <;> simp [MemoryStore.atKey, Slot.pttl, h]

theorem hashRead_alone (operation : String) (missing : α) (read : Hash → α) :
    (readKey key (.ok missing) (Slot.hashRead operation read)).alone c s =
      s.atKey key (Slot.readHash c operation missing read) := by
  rw [readKey_alone]
  cases h : (s.slot key).unexpired c with
  | none => simp [MemoryStore.atKey, Slot.readHash, h]
  | some e =>
    cases hvalue : e.value <;> simp [MemoryStore.atKey, Slot.readHash, Slot.hashRead, h, hvalue]

theorem hget_alone (field : String) :
    (hget key field).alone c s = s.atKey key (Slot.hget c field) :=
  hashRead_alone ..

theorem hgetall_alone (order : IterOrder String) :
    (hgetall key order).alone c s = s.atKey key (Slot.hgetall c order) :=
  hashRead_alone ..

theorem hexists_alone (field : String) :
    (hexists key field).alone c s = s.atKey key (Slot.hexists c field) :=
  hashRead_alone ..

theorem set_alone (value : ValueType) : (set key value).alone c s =
    s.atKey key fun t => ((), t.set c value) := by
  simp [set, removeIndex, insert, MemoryStore.atKey, put_put, Slot.set]

theorem setWithOptions_alone (value : ValueType) (ttl : SetTtlOption) (existence : SetExistence) :
    (setWithOptions key value ttl existence).alone c s =
      s.atKey key (Slot.setWithOptions c value ttl existence) := by
  have hresolve : (resolveTtl key ttl).alone c s = ((s.slot key).resolveTtl c ttl, s) := by
    cases ttl with
    | none => rfl
    | «at» d => rfl
    | keepTtl =>
      rw [resolveTtl, Prog.alone_bind, look_alone]
      unfold Slot.seen Slot.resolveTtl
      cases h : (s.slot key).entry with
      | none => rfl
      | some e => by_cases hexp : e.isExpired c = true <;> simp [hexp]
  rw [setWithOptions, Prog.alone_bind, hresolve]
  rfl

theorem expireAtWithOptions_alone (deadline : Int) (flag : ExpireFlag) :
    (expireAtWithOptions key deadline flag).alone c s =
      s.atKey key (Slot.expireAtWithOptions c deadline flag) := by
  rw [expireAtWithOptions, Prog.alone_bind, Prog.alone_atomic]
  unfold MemoryStore.atKey Slot.expireEntry Slot.expireAtWithOptions
  cases h : (s.slot key).entry with
  | none => simp
  | some e =>
    by_cases hexp : e.isExpired c = true
    · simp [hexp, delete_alone, MemoryStore.atKey, put_put]
    · by_cases happly : Slot.shouldApply flag deadline e.expiresAt = true <;> simp [hexp, happly]

theorem hset_alone (field value : String) :
    (hset key field value).alone c s = s.atKey key (Slot.hset c field value) := by
  have hpurge : ((purgeExpired key).alone c s).2 = s.put key ((s.slot key).purge c) := by
    rw [purgeExpired, readKey_alone]
    rfl
  rw [hset, Prog.alone_bind, hpurge, Prog.alone_atomic]
  simp only [MemoryStore.atKey, MemoryStore.slot_put_self, put_put]
  rfl

theorem persist_alone : (persist key).alone c s = s.atKey key (Slot.persist c) := by
  rw [persist, Prog.alone_bind, Prog.alone_atomic]
  unfold MemoryStore.atKey Slot.persistEntry Slot.persist
  cases h : (s.slot key).entry with
  | none => simp
  | some e =>
    by_cases hexp : e.isExpired c = true
    · simp [hexp, delete_alone, MemoryStore.atKey, put_put]
    · simp [hexp]

theorem incrBy_alone (increment : I64) :
    (incrBy key increment).alone c s = s.atKey key (Slot.incrBy c increment) := by
  rw [incrBy, Prog.alone_bind, Prog.alone_atomic]
  unfold MemoryStore.atKey Slot.incrEntry Slot.incrBy
  cases h : (s.slot key).entry with
  | none => simp
  | some e =>
    by_cases hexp : e.isExpired c = true
    · simp [hexp, removeIndex, insert, MemoryStore.atKey, put_put]
    · cases hvalue : e.value.toInteger with
      | error err => simp [hexp, hvalue]
      | ok n => cases hadd : n.checkedAdd increment <;> simp [hexp, hvalue, hadd]

theorem hdel_alone (field : String) :
    (hdel key field).alone c s = s.atKey key (Slot.hdel c field) := by
  rw [hdel, Prog.alone_bind, look_alone]
  unfold Slot.seen Slot.hdel
  cases h : (s.slot key).entry with
  | none => simp [hdelUnexpired, Slot.hdelLook, MemoryStore.atKey, h, MemoryStore.put_slot]
  | some e =>
    by_cases hexp : e.isExpired c = true
    · simp [hexp, delete_alone, MemoryStore.atKey, h]
    · cases hvalue : e.value with
      | hash g =>
        cases hfield : g.lookup field with
        | none =>
          simp [hexp, hdelUnexpired, Slot.hdelLook, MemoryStore.atKey, h, hvalue, hfield,
            MemoryStore.put_slot]
        | some value =>
          by_cases hlast : g.entries.card = 1
          · simp [hexp, hdelUnexpired, Slot.hdelLook, MemoryStore.atKey, h, hvalue, hfield, hlast,
              remove, removeIndex, put_put, Slot.empty]
          · simp [hexp, hdelUnexpired, Slot.hdelLook, Slot.hdelEntry, MemoryStore.atKey, h, hvalue,
              hfield, hlast]
      | _ =>
        simp [hexp, hdelUnexpired, Slot.hdelLook, MemoryStore.atKey, h, hvalue,
          MemoryStore.put_slot]

end Alone

end Concurrent

end RustyPotato
