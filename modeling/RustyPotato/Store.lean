import Mathlib.Data.String.Basic
import RustyPotato.Value

/-!
# The store (`storage/memory.rs`)

Every operation of `MemoryStore` but `clear` looks at one key and writes nothing under another. It
is a function on the slot of that key: what the two maps hold there.
-/

namespace RustyPotato

inductive ExpireFlag where
  | none | nx | xx | gt | lt
deriving DecidableEq

inductive SetExistence where
  | always | onlyIfNotExists | onlyIfExists
deriving DecidableEq

inductive SetTtlOption where
  | none
  | at (deadline : Int)
  | keepTtl
deriving DecidableEq

structure SetOutcome where
  applied : Bool
  previous : Option StoredValue
deriving DecidableEq

/-- The order in which a map hands out its entries. The source fixes none. -/
structure IterOrder (β : Type) where
  toList : (Finmap fun _ : String => β) → List (String × β)
  nodup : ∀ m, ((toList m).map Prod.fst).Nodup
  mem_iff : ∀ m k v, (k, v) ∈ toList m ↔ m.lookup k = some v

theorem IterOrder.length_toList {β : Type} (order : IterOrder β) (m : Finmap fun _ : String => β) :
    (order.toList m).length = m.keys.card := by
  have hkeys : ((order.toList m).map Prod.fst).toFinset = m.keys := by
    ext k
    rw [List.mem_toFinset, Finmap.mem_keys, ← Finmap.lookup_isSome, Option.isSome_iff_exists]
    constructor
    · intro hmem
      obtain ⟨p, hp, rfl⟩ := List.mem_map.mp hmem
      exact ⟨p.2, (order.mem_iff m p.1 p.2).mp hp⟩
    · rintro ⟨v, hv⟩
      exact List.mem_map.mpr ⟨(k, v), (order.mem_iff m k v).mpr hv, rfl⟩
  rw [← hkeys, List.toFinset_card_of_nodup (order.nodup m), List.length_map]

/-- The order of the keys as text. -/
def IterOrder.sorted (β : Type) : IterOrder β where
  toList m := (m.keys.sort (· ≤ ·)).filterMap fun k => (m.lookup k).map (k, ·)
  nodup m := by
    have hkeys : (m.keys.sort (· ≤ ·)).Nodup := Finset.sort_nodup ..
    generalize m.keys.sort (· ≤ ·) = ks at hkeys
    rw [List.map_filterMap]
    refine hkeys.filterMap ?_
    intro a b k ha hb
    simp only [Option.map_map, Option.mem_def, Option.map_eq_some_iff, Function.comp_apply] at ha hb
    obtain ⟨-, -, ha⟩ := ha
    obtain ⟨-, -, hb⟩ := hb
    rw [ha, hb]
  mem_iff m k v := by
    simp only [List.mem_filterMap, Finset.mem_sort, Option.map_eq_some_iff, Prod.mk.injEq]
    constructor
    · rintro ⟨k', -, v', hv', rfl, rfl⟩
      exact hv'
    · intro hv
      exact ⟨k, Finmap.mem_keys.mpr (Finmap.mem_of_lookup_eq_some hv), v, hv, rfl, rfl⟩

/-- What `data` and `expiration_index` hold under one key. -/
@[ext] structure Slot where
  entry : Option StoredValue
  index : Option Int
deriving DecidableEq

def wrongType : String := "WRONGTYPE Operation against a key holding the wrong kind of value"

namespace Slot

def empty : Slot := ⟨none, none⟩

/-- The entry as a reader sees it: an expired one is not there. -/
def unexpired (c : Clock) (s : Slot) : Option StoredValue := s.entry.filter fun e => !e.isExpired c

/-- What the lazy expiry of every read does: an expired entry leaves both maps. -/
def purge (c : Clock) (s : Slot) : Slot :=
  match s.entry with
  | some e => if e.isExpired c then empty else s
  | none => s

def set (c : Clock) (value : ValueType) (_ : Slot) : Slot := ⟨some (.new c value), none⟩

/-- `KEEPTTL` keeps the deadline of a live entry only. -/
def resolveTtl (c : Clock) (ttl : SetTtlOption) (s : Slot) : Option Int :=
  match ttl with
  | .none => none
  | .at d => some d
  | .keepTtl => s.entry.bind fun e => if e.isExpired c then none else e.expiresAt

def storedWith (c : Clock) (value : ValueType) : Option Int → StoredValue
  | some d => .newWithExpiration c value d
  | none => .new c value

theorem expiresAt_storedWith (c : Clock) (value : ValueType) (ttl : Option Int) :
    (storedWith c value ttl).expiresAt = ttl := by
  cases ttl <;> rfl

def allows (existence : SetExistence) (present : Bool) : Bool :=
  match existence with
  | .always => true
  | .onlyIfNotExists => !present
  | .onlyIfExists => present

def setWithOptions (c : Clock) (value : ValueType) (ttl : SetTtlOption) (existence : SetExistence)
    (s : Slot) : SetOutcome × Slot :=
  let resolved := s.resolveTtl c ttl
  match s.entry with
  | some e =>
    let present := !e.isExpired c
    let previous := if present then some e else none
    if allows existence present then
      (⟨true, previous⟩, ⟨some (storedWith c value resolved), resolved⟩)
    else (⟨false, previous⟩, s)
  | none =>
    match existence with
    | .onlyIfExists => (⟨false, none⟩, s)
    -- A vacant key keeps what the index holds when there is no deadline to write.
    | _ => (⟨true, none⟩, ⟨some (storedWith c value resolved), resolved.or s.index⟩)

theorem setWithOptions_previous (c : Clock) (v : ValueType) (ttl : SetTtlOption)
    (existence : SetExistence) (t : Slot) : (t.setWithOptions c v ttl existence).1.previous =
      t.unexpired c := by
  obtain ⟨_ | e, i⟩ := t
  · cases existence <;> rfl
  · cases hx : e.isExpired c <;> simp [Slot.setWithOptions, Slot.unexpired, Option.filter, hx] <;>
      split <;> rfl

def get (c : Clock) (s : Slot) : Option StoredValue × Slot := (s.unexpired c, s.purge c)

/-- `delete` and `delete_sync`. -/
def delete (c : Clock) (s : Slot) : Bool × Slot :=
  match s.entry with
  | some e => (!e.isExpired c, empty)
  | none => (false, empty)

theorem delete_eq_empty (c : Clock) (s : Slot) : (s.delete c).2 = empty := by
  unfold delete
  split <;> rfl

def existsKey (c : Clock) (s : Slot) : Bool × Slot := ((s.unexpired c).isSome, s.purge c)

def ttl (c : Clock) (s : Slot) : Int × Slot :=
  (match s.unexpired c with
    | some e => (e.ttlSeconds c).getD (-1)
    | none => -2, s.purge c)

def pttl (c : Clock) (s : Slot) : Int × Slot :=
  (match s.unexpired c with
    | some e => (e.ttlMillis c).getD (-1)
    | none => -2, s.purge c)

/-- Without a current deadline the key counts as one that never ends. -/
def shouldApply (flag : ExpireFlag) (deadline : Int) (current : Option Int) : Bool :=
  match flag, current with
  | .none, _ => true
  | .nx, current => current.isNone
  | .xx, current => current.isSome
  | .gt, some d => decide (d < deadline)
  | .gt, none => false
  | .lt, some d => decide (deadline < d)
  | .lt, none => true

/-- `expire_at_with_options`, and `expire_with_options` once it has its deadline. -/
def expireAtWithOptions (c : Clock) (deadline : Int) (flag : ExpireFlag) (s : Slot) : Bool × Slot :=
  match s.entry with
  | some e =>
    if e.isExpired c then (false, (s.delete c).2)
    else if shouldApply flag deadline e.expiresAt then
      (true, ⟨some (e.setExpiration deadline), some deadline⟩)
    else (false, s)
  | none => (false, s)

def persist (c : Clock) (s : Slot) : Bool × Slot :=
  match s.entry with
  | some e =>
    if e.isExpired c then (false, (s.delete c).2)
    else (e.expiresAt.isSome, ⟨some e.removeExpiration, none⟩)
  | none => (false, s)

def incrBy (c : Clock) (increment : I64) (s : Slot) : Except RustyPotatoError I64 × Slot :=
  match s.entry with
  | some e =>
    if e.isExpired c then (.ok increment, ⟨some (.new c (.integer increment)), none⟩)
    else
      match e.value.toInteger with
      | .error err => (.error err, s)
      | .ok current =>
        match current.checkedAdd increment with
        | none => (.error .integerOverflow, s)
        -- The metadata is not brought up to date here.
        | some n => (.ok n, { s with entry := some ({ e with value := .integer n }.touch c) })
  | none => (.ok increment, { s with entry := some (.new c (.integer increment)) })

def hset (c : Clock) (field value : String) (s : Slot) : Except RustyPotatoError Bool × Slot :=
  let s := s.purge c
  match s.entry with
  | some e =>
    match e.value with
    | .hash h =>
      (.ok (h.lookup field).isNone,
        { s with
          entry := some
            (({ e with value := .hash (h.insert field value) }.touch c).updateMetadata c) })
    | _ => (.error (.storageError wrongType (some "hset")), s)
  | none =>
    (.ok true, { s with entry := some (.new c (.hash ((∅ : Hash).insert field value))) })

/-- What the hash readers do: `missing` for no key, `read` for a hash, an error for another type. -/
def readHash {α : Type} (c : Clock) (operation : String) (missing : α) (read : Hash → α)
    (s : Slot) : Except RustyPotatoError α × Slot :=
  (match s.unexpired c with
    | some e =>
      match e.value with
      | .hash h => .ok (read h)
      | _ => .error (.storageError wrongType (some operation))
    | none => .ok missing, s.purge c)

def hget (c : Clock) (field : String) : Slot → Except RustyPotatoError (Option String) × Slot :=
  readHash c "hget" none fun h => h.lookup field

def hgetall (c : Clock) (order : IterOrder String) :
    Slot → Except RustyPotatoError (List (String × String)) × Slot :=
  readHash c "hgetall" [] fun h => order.toList h

def hexists (c : Clock) (field : String) : Slot → Except RustyPotatoError Bool × Slot :=
  readHash c "hexists" false fun h => (h.lookup field).isSome

def hdel (c : Clock) (field : String) (s : Slot) : Except RustyPotatoError Bool × Slot :=
  match s.entry with
  | some e =>
    if e.isExpired c then (.ok false, (s.delete c).2)
    else
      match e.value with
      | .hash h =>
        if (h.lookup field).isNone then (.ok false, s)
        -- The last field takes its key with it.
        else if h.entries.card = 1 then (.ok true, empty)
        else
          (.ok true, { s with
            entry := some (({ e with value := .hash (h.erase field) }.touch c).updateMetadata c) })
      | _ => (.error (.storageError wrongType (some "hdel")), s)
  | none => (.ok false, s)

end Slot

/-! ## What has not expired -/

namespace Slot

variable (c : Clock)

@[simp] theorem unexpired_vacant (i : Option Int) : unexpired c ⟨none, i⟩ = none := rfl

@[simp] theorem unexpired_empty : unexpired c empty = none := rfl

theorem unexpired_expired (e : StoredValue) (i : Option Int) (h : e.isExpired c = true) :
    unexpired c ⟨some e, i⟩ = none := by
  simp [unexpired, Option.filter, h]

theorem unexpired_alive (e : StoredValue) (i : Option Int) (h : e.isExpired c = false) :
    unexpired c ⟨some e, i⟩ = some e := by
  simp [unexpired, Option.filter, h]

@[simp] theorem unexpired_purge (t : Slot) : (t.purge c).unexpired c = t.unexpired c := by
  obtain ⟨_ | e, i⟩ := t
  · rfl
  · cases hx : e.isExpired c with
    | true => simp [purge, hx, unexpired_expired]
    | false => simp [purge, hx]

end Slot

/-! ## The two maps -/

structure MemoryStore where
  data : Finmap fun _ : String => StoredValue
  expirationIndex : Finmap fun _ : String => Int
deriving DecidableEq

/-- Makes the map hold `v` under `k`, or nothing. -/
def assign {β : Type} (m : Finmap fun _ : String => β) (k : String) : Option β →
    Finmap fun _ : String => β
  | some v => m.insert k v
  | none => m.erase k

theorem lookup_assign {β : Type} (m : Finmap fun _ : String => β) (k k' : String) (v : Option β) :
    (assign m k v).lookup k' = if k' = k then v else m.lookup k' := by
  unfold assign
  split <;> split_ifs with h
  · rw [h, Finmap.lookup_insert]
  · exact Finmap.lookup_insert_of_ne m h
  · rw [h, Finmap.lookup_erase]
  · exact Finmap.lookup_erase_ne h

namespace MemoryStore

def new : MemoryStore := ⟨∅, ∅⟩

def slot (s : MemoryStore) (key : String) : Slot :=
  ⟨s.data.lookup key, s.expirationIndex.lookup key⟩

def put (s : MemoryStore) (key : String) (t : Slot) : MemoryStore :=
  ⟨assign s.data key t.entry, assign s.expirationIndex key t.index⟩

theorem slot_put (s : MemoryStore) (key k : String) (t : Slot) :
    (s.put key t).slot k = if k = key then t else s.slot k := by
  simp only [slot, put, lookup_assign]
  split_ifs <;> rfl

@[simp] theorem slot_put_self (s : MemoryStore) (key : String) (t : Slot) :
    (s.put key t).slot key = t := by
  simp [slot_put]

@[simp] theorem slot_new (k : String) : new.slot k = .empty := rfl

theorem ext_slot (s t : MemoryStore) (h : ∀ k, s.slot k = t.slot k) : s = t := by
  obtain ⟨data, index⟩ := s
  obtain ⟨data', index'⟩ := t
  have hd : data = data' := Finmap.ext_lookup fun k => congrArg Slot.entry (h k)
  have hi : index = index' := Finmap.ext_lookup fun k => congrArg Slot.index (h k)
  rw [hd, hi]

theorem put_slot (s : MemoryStore) (key : String) : s.put key (s.slot key) = s := by
  refine ext_slot _ _ fun k => ?_
  rw [slot_put]
  split_ifs with h
  · rw [h]
  · rfl

/-- An operation on the slot of one key. -/
def atKey {α : Type} (s : MemoryStore) (key : String) (f : Slot → α × Slot) : α × MemoryStore :=
  ((f (s.slot key)).1, s.put key (f (s.slot key)).2)

@[simp] theorem atKey_fst {α : Type} (s : MemoryStore) (key : String) (f : Slot → α × Slot) :
    (s.atKey key f).1 = (f (s.slot key)).1 := rfl

theorem slot_atKey {α : Type} (s : MemoryStore) (key k : String) (f : Slot → α × Slot) :
    (s.atKey key f).2.slot k = if k = key then (f (s.slot key)).2 else s.slot k :=
  slot_put ..

def len (s : MemoryStore) : Nat := s.data.keys.card

def clear (_ : MemoryStore) : MemoryStore := new

def keys (order : IterOrder StoredValue) (s : MemoryStore) : List String :=
  (order.toList s.data).map Prod.fst

theorem nodup_keys (s : MemoryStore) (order : IterOrder StoredValue) : (s.keys order).Nodup :=
  order.nodup s.data

theorem mem_keys_iff (s : MemoryStore) (key : String) (order : IterOrder StoredValue) :
    key ∈ s.keys order ↔ ∃ e, s.data.lookup key = some e := by
  simp only [keys, List.mem_map, Prod.exists, exists_and_right, exists_eq_right, order.mem_iff]

/-- The entries that have not expired. -/
def snapshot (c : Clock) (order : IterOrder StoredValue) (s : MemoryStore) :
    List (String × StoredValue) :=
  (order.toList s.data).filter fun p => !p.2.isExpired c

/-- `delete_internal`: no look at the deadline. -/
def deleteInternal (s : MemoryStore) (key : String) : Bool × MemoryStore :=
  s.atKey key fun t => (t.entry.isSome, .empty)

/-- One key after the other, counting those that were there. -/
def deleteAll (s : MemoryStore) : List String → Nat × MemoryStore
  | [] => (0, s)
  | key :: keys =>
    let (removed, s) := s.deleteInternal key
    let (n, s) := s.deleteAll keys
    (if removed then n + 1 else n, s)

/-- Here a deadline counts as passed at the very instant it names. -/
def cleanupExpired (c : Clock) (order : IterOrder Int) (s : MemoryStore) : Nat × MemoryStore :=
  s.deleteAll (((order.toList s.expirationIndex).filter fun p => decide (p.2 ≤ c.now)).map Prod.fst)

theorem slot_deleteAll (s : MemoryStore) (keys : List String) (k : String) :
    (s.deleteAll keys).2.slot k = if k ∈ keys then .empty else s.slot k := by
  induction keys generalizing s with
  | nil => rfl
  | cons key keys ih =>
    rw [deleteAll]
    simp only
    rw [ih, deleteInternal, slot_atKey]
    by_cases hk : k = key <;> simp [hk]

/-- What `cleanup_expired` takes: the index alone decides. -/
theorem slot_cleanupExpired (c : Clock) (order : IterOrder Int) (s : MemoryStore) (k : String) :
    (s.cleanupExpired c order).2.slot k = if ∃ d, (s.slot k).index = some d ∧
      d ≤ c.now then .empty else s.slot k := by
  rw [cleanupExpired, slot_deleteAll]
  refine if_congr ?_ rfl rfl
  simp only [List.mem_map, List.mem_filter, decide_eq_true_eq, Prod.exists, order.mem_iff,
    exists_and_right, exists_eq_right, slot]

end MemoryStore

end RustyPotato
