import RustyPotato.LazyExpiry

/-!
# The two maps as seen by concurrent writers (`storage/memory.rs`)

`set_with_options`, `expire_at_with_options` and `persist` write the index while they hold the
entry. Here that write is a step of its own, between the steps of the block that holds the entry.
All calls are on one key.
-/

namespace RustyPotato

open Lib.Threads

/-- A call on one of the two maps. -/
inductive MapCall where
  | get | insert | remove
  /-- The block that takes the entry, up to the first write of the index. -/
  | block
  | removeIndex (guarded : Bool)
  /-- While the entry is held; `unwritten` if the entry has still to be written. -/
  | insertIndex (deadline : Int) (unwritten : Bool)
  /-- The write of the entry with which `set_with_options` ends its block. -/
  | write (deadline : Option Int)
deriving DecidableEq

abbrev MapProg := Prog MapCall Clock MemoryStore

/-- Outside of the three calls that write the index under the lock. -/
def MapCall.ofStep (l : StoreStep) : MapCall :=
  match l.call with
  | .get => .get
  | .getMut | .entry => .block
  | .insert => .insert
  | .remove => .remove
  | .removeIndex => .removeIndex false

namespace Slot

/-- The block of `set_with_options` up to the index: it is over, or there is an entry to write. -/
def setBlock (c : Clock) (value : ValueType) (resolved : Option Int) (existence : SetExistence)
    (s : Slot) : (SetOutcome ⊕ Option StoredValue × StoredValue) × Slot :=
  match s.entry with
  | some e =>
    let present := !e.isExpired c
    let previous := if present then some e else none
    if allows existence present then (.inr (previous, storedWith c value resolved), s)
    else (.inl ⟨false, previous⟩, s)
  | none =>
    match existence with
    | .onlyIfExists => (.inl ⟨false, none⟩, s)
    | _ =>
      match resolved with
      | some _ => (.inr (none, storedWith c value resolved), s)
      -- Nothing is written to the index here.
      | none => (.inl ⟨true, none⟩, { s with entry := some (storedWith c value resolved) })

/-- The block of `expire_with_options` and `expire_at_with_options` up to the index. -/
def expireBlock (c : Clock) (deadline : Int) (flag : ExpireFlag) (s : Slot) : Seen Bool × Slot :=
  match s.entry with
  | some e =>
    if e.isExpired c then (.expired, s)
    else if shouldApply flag deadline e.expiresAt then
      (.live true, { s with entry := some (e.setExpiration deadline) })
    else (.live false, s)
  | none => (.missing, s)

/-- The block of `persist` up to the index. -/
def persistBlock (c : Clock) (s : Slot) : Seen Bool × Slot :=
  match s.entry with
  | some e =>
    if e.isExpired c then (.expired, s)
    else (.live e.expiresAt.isSome, { s with entry := some e.removeExpiration })
  | none => (.missing, s)

end Slot

namespace TwoMaps

variable (key : String)

def removeIndex (guarded : Bool) : MapProg Unit :=
  .atomic (.removeIndex guarded) fun _ s => s.atKey key fun t => ((), { t with index := none })

def insertIndex (deadline : Int) (unwritten : Bool) : MapProg Unit :=
  .atomic (.insertIndex deadline unwritten) fun _ s =>
    s.atKey key fun t => ((), { t with index := some deadline })

def write (resolved : Option Int) (stored : StoredValue) : MapProg Unit :=
  .atomic (.write resolved) fun _ s => s.atKey key fun t => ((), { t with entry := some stored })

def index (resolved : Option Int) : MapProg Unit :=
  match resolved with
  | some d => insertIndex key d true
  | none => removeIndex key true

/-- The part of `set_with_options` after the deadline is resolved. -/
def setResolved (value : ValueType) (resolved : Option Int) (existence : SetExistence) :
    MapProg SetOutcome := do
  match ← Prog.atomic .block fun c s => s.atKey key (Slot.setBlock c value resolved existence) with
  | .inl outcome => return outcome
  | .inr (previous, stored) =>
    index key resolved
    write key resolved stored
    return ⟨true, previous⟩

def setWithOptions (value : ValueType) (ttl : SetTtlOption) (existence : SetExistence) :
    MapProg SetOutcome := do
  let resolved ← (Concurrent.resolveTtl key ttl).relabel MapCall.ofStep
  setResolved key value resolved existence

def delete : MapProg Bool := (Concurrent.delete true key).relabel MapCall.ofStep

def expireAtWithOptions (deadline : Int) (flag : ExpireFlag) : MapProg Bool := do
  match ← Prog.atomic .block fun c s => s.atKey key (Slot.expireBlock c deadline flag) with
  | .missing => return false
  | .expired =>
    let _ ← delete key
    return false
  | .live true =>
    insertIndex key deadline false
    return true
  | .live false => return false

def persist : MapProg Bool := do
  match ← Prog.atomic .block fun c s => s.atKey key (Slot.persistBlock c) with
  | .missing => return false
  | .expired =>
    let _ ← delete key
    return false
  | .live had =>
    removeIndex key true
    return had

end TwoMaps

/--
`expire_with_options` is `expire_at_with_options` once it has added its duration to the clock.
-/
inductive WriterCall where
  | set (value : ValueType)
  | setWithOptions (value : ValueType) (ttl : SetTtlOption) (existence : SetExistence)
  | expireAtWithOptions (deadline : Int) (flag : ExpireFlag)
  | persist
  | delete
  | incrBy (increment : I64)

/-- What the call is where a block that holds the entry is one step. -/
def WriterCall.program (key : String) : WriterCall → StoreProg Unit
  | set value => Concurrent.set key value
  | setWithOptions value ttl existence => once (Concurrent.setWithOptions key value ttl existence)
  | expireAtWithOptions deadline flag => once (Concurrent.expireAtWithOptions key deadline flag)
  | persist => once (Concurrent.persist key)
  | delete => once (Concurrent.delete false key)
  | incrBy increment => once (Concurrent.incrBy key increment)

def WriterCall.body (key : String) : WriterCall → MapProg Unit
  | setWithOptions value ttl existence => do
    let _ ← TwoMaps.setWithOptions key value ttl existence
    return ()
  | expireAtWithOptions deadline flag => do
    let _ ← TwoMaps.expireAtWithOptions key deadline flag
    return ()
  | persist => do
    let _ ← TwoMaps.persist key
    return ()
  | call => (call.program key).relabel MapCall.ofStep

/-! ## Without other clients -/

section Alone

variable (c : Clock) (key : String) (s : MemoryStore)

namespace TwoMaps

theorem delete_alone : (delete key).alone c s = s.atKey key (Slot.delete c) := by
  rw [delete, Prog.alone_relabel, Concurrent.delete_alone]

theorem setWithOptions_alone (value : ValueType) (ttl : SetTtlOption) (existence : SetExistence) :
    (setWithOptions key value ttl existence).alone c s =
      (Concurrent.setWithOptions key value ttl existence).alone c s := by
  simp only [setWithOptions, setResolved, Concurrent.setWithOptions, Prog.alone_bind,
    Prog.alone_relabel, Prog.alone_atomic]
  generalize (Concurrent.resolveTtl key ttl).alone c s = x
  obtain ⟨resolved, s⟩ := x
  unfold MemoryStore.atKey Slot.setBlock Slot.setEntry
  cases h : (s.slot key).entry with
  | none =>
    cases existence <;> cases resolved <;>
      simp [index, insertIndex, write, MemoryStore.atKey, Concurrent.put_put]
  | some e =>
    simp only
    split_ifs <;> cases resolved <;>
      simp [index, insertIndex, removeIndex, write, MemoryStore.atKey, Concurrent.put_put]

theorem expireAtWithOptions_alone (deadline : Int) (flag : ExpireFlag) :
    (expireAtWithOptions key deadline flag).alone c s =
      (Concurrent.expireAtWithOptions key deadline flag).alone c s := by
  rw [expireAtWithOptions, Prog.alone_bind, Prog.alone_atomic, Concurrent.expireAtWithOptions,
    Prog.alone_bind, Prog.alone_atomic]
  unfold MemoryStore.atKey Slot.expireBlock Slot.expireEntry
  cases h : (s.slot key).entry with
  | none => simp
  | some e =>
    simp only
    split_ifs <;> simp [insertIndex, delete_alone, Concurrent.delete_alone, MemoryStore.atKey,
      Concurrent.put_put]

theorem persist_alone : (persist key).alone c s = (Concurrent.persist key).alone c s := by
  rw [persist, Prog.alone_bind, Prog.alone_atomic, Concurrent.persist, Prog.alone_bind,
    Prog.alone_atomic]
  unfold MemoryStore.atKey Slot.persistBlock Slot.persistEntry
  cases h : (s.slot key).entry with
  | none => simp
  | some e =>
    simp only
    split_ifs <;> simp [removeIndex, delete_alone, Concurrent.delete_alone, MemoryStore.atKey,
      Concurrent.put_put]

end TwoMaps

/-- Without other clients it makes no difference that the index is written in a step of its own. -/
theorem WriterCall.body_alone (call : WriterCall) :
    (call.body key).alone c s = (call.program key).alone c s := by
  cases call with
  | setWithOptions value ttl existence =>
    simp only [body, program, once, Prog.alone_bind, TwoMaps.setWithOptions_alone]
    rfl
  | expireAtWithOptions deadline flag =>
    simp only [body, program, once, Prog.alone_bind, TwoMaps.expireAtWithOptions_alone]
    rfl
  | persist =>
    simp only [body, program, once, Prog.alone_bind, TwoMaps.persist_alone]
    rfl
  | _ => exact Prog.alone_relabel c _ _ s

end Alone

end RustyPotato
