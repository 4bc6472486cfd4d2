import RustyPotato.Store

/-!
# The keyspace

What a client can see of a store: the value and the deadline under every key that has not expired.
The commands write through eight operations on one key, and each of them is a function of what is
seen there alone. So an expired entry counts as a missing one, whether it was purged or not.
-/

namespace RustyPotato

/-- A value with its deadline, without the times and the sizes that nothing reads. -/
@[ext] structure Entry where
  value : ValueType
  deadline : Option Int
deriving DecidableEq

namespace Entry

def isExpired (c : Clock) (e : Entry) : Bool :=
  match e.deadline with
  | some d => decide (d < c.now)
  | none => false

/-- The entry, unless its deadline has passed. -/
def alive (c : Clock) (e : Entry) : Option Entry := if e.isExpired c then none else some e

theorem alive_eq_some (c : Clock) (e e' : Entry) : e.alive c = some e' ↔ e.isExpired c = false ∧
    e = e' := by
  unfold alive
  split <;> simp_all

@[simp] theorem alive_forever (c : Clock) (v : ValueType) : alive c ⟨v, none⟩ = some ⟨v, none⟩ :=
  rfl

end Entry

def StoredValue.toEntry (e : StoredValue) : Entry := ⟨e.value, e.expiresAt⟩

@[simp] theorem StoredValue.toEntry_isExpired (c : Clock) (e : StoredValue) :
    e.toEntry.isExpired c = e.isExpired c := rfl

/-- What a client sees under one key. -/
def Slot.live (c : Clock) (s : Slot) : Option Entry := (s.unexpired c).map StoredValue.toEntry

@[simp] theorem Slot.live_empty (c : Clock) : Slot.empty.live c = none := rfl

theorem Slot.live_none (c : Clock) (i : Option Int) : Slot.live c ⟨none, i⟩ = none := rfl

theorem Slot.live_some (c : Clock) (e : StoredValue) (i : Option Int) :
    Slot.live c ⟨some e, i⟩ = e.toEntry.alive c := by
  unfold Slot.live Slot.unexpired Entry.alive
  by_cases h : e.isExpired c <;> simp [h, Option.filter]

/-- The unexpired keys with their values and deadlines. -/
def MemoryStore.live (c : Clock) (s : MemoryStore) (key : String) : Option Entry :=
  (s.slot key).live c

@[simp] theorem MemoryStore.live_new (c : Clock) (k : String) : MemoryStore.new.live c k = none :=
  rfl

/-! ## The operations on one key -/

/-- The operations that the commands apply to a key. -/
inductive Op where
  | purge
  | set (value : ValueType)
  | setWithOptions (value : ValueType) (ttl : SetTtlOption) (existence : SetExistence)
  | delete
  | expireAt (deadline : Int) (flag : ExpireFlag)
  | incrBy (increment : I64)
  | hset (field value : String)
  | hdel (field : String)

namespace Op

/-- The operation as the store runs it. -/
def run (c : Clock) : Op → Slot → Slot
  | purge, s => s.purge c
  | set value, s => s.set c value
  | setWithOptions value ttl existence, s => (s.setWithOptions c value ttl existence).2
  | delete, s => (s.delete c).2
  | expireAt deadline flag, s => (s.expireAtWithOptions c deadline flag).2
  | incrBy increment, s => (s.incrBy c increment).2
  | hset field value, s => (s.hset c field value).2
  | hdel field, s => (s.hdel c field).2

/-- The deadline that a `SET` leaves. -/
def newDeadline (ttl : SetTtlOption) (e : Option Entry) : Option Int :=
  match ttl with
  | .none => none
  | .at d => some d
  | .keepTtl => e.bind Entry.deadline

/-- The value after an increment, when there is one. -/
def incremented (increment : I64) (v : ValueType) : Option I64 :=
  v.toInteger.toOption.bind fun n => n.checkedAdd increment

/-- The operation as a client sees it. -/
def apply (c : Clock) : Op → Option Entry → Option Entry
  | purge, e => e
  | set value, _ => some ⟨value, none⟩
  | setWithOptions value ttl existence, e =>
    if Slot.allows existence e.isSome then Entry.alive c ⟨value, newDeadline ttl e⟩ else e
  | delete, _ => none
  | expireAt _ _, none => none
  | expireAt deadline flag, some e =>
    if Slot.shouldApply flag deadline e.deadline then
      Entry.alive c ⟨e.value, some deadline⟩
    else some e
  | incrBy increment, none => some ⟨.integer increment, none⟩
  | incrBy increment, some e =>
    match incremented increment e.value with
    | some n => some ⟨.integer n, e.deadline⟩
    | none => some e
  | hset field value, none => some ⟨.hash ((∅ : Hash).insert field value), none⟩
  | hset field value, some e =>
    match e.value with
    | .hash h => some ⟨.hash (h.insert field value), e.deadline⟩
    | _ => some e
  | hdel _, none => none
  | hdel field, some e =>
    match e.value with
    | .hash h =>
      if (h.lookup field).isNone then some e
      else if h.entries.card = 1 then none
      else some ⟨.hash (h.erase field), e.deadline⟩
    | _ => some e

end Op

theorem Slot.live_expired (c : Clock) (e : StoredValue) (i : Option Int)
    (h : e.isExpired c = true) : Slot.live c ⟨some e, i⟩ = none := by
  rw [live_some, Entry.alive, StoredValue.toEntry_isExpired, if_pos h]

theorem Slot.live_alive (c : Clock) (e : StoredValue) (i : Option Int) (h : e.isExpired c = false) :
    Slot.live c ⟨some e, i⟩ = some e.toEntry := by
  rw [live_some, Entry.alive, StoredValue.toEntry_isExpired, if_neg (by simp [h])]

theorem Slot.live_revalue (c : Clock) (e e' : StoredValue) (i : Option Int)
    (h : e.isExpired c = false) (hd : e'.expiresAt = e.expiresAt) :
    Slot.live c ⟨some e', i⟩ = some ⟨e'.value, e.expiresAt⟩ := by
  have h' : e'.isExpired c = false := by rw [← h, StoredValue.isExpired, StoredValue.isExpired, hd]
  rw [live_alive c e' i h', StoredValue.toEntry, hd]

namespace Op

theorem live_storedWith (c : Clock) (value : ValueType) (ttl i : Option Int) :
    Slot.live c ⟨some (Slot.storedWith c value ttl), i⟩ = Entry.alive c ⟨value, ttl⟩ := by
  rw [Slot.live_some]
  cases ttl <;> rfl

theorem live_run_vacant (c : Clock) (op : Op) (i : Option Int) :
    (op.run c ⟨none, i⟩).live c = op.apply c none := by
  cases op with
  | setWithOptions value ttl existence =>
    cases existence <;> cases ttl <;>
      simp [run, apply, Slot.setWithOptions, Slot.resolveTtl, Slot.allows, newDeadline,
        live_storedWith, Slot.live_none]
  | _ => rfl

theorem live_run_expired (c : Clock) (op : Op) (e : StoredValue) (i : Option Int)
    (h : e.isExpired c = true) : (op.run c ⟨some e, i⟩).live c = op.apply c none := by
  cases op with
  | purge => simp [run, apply, Slot.purge, h]
  | set value => rfl
  | setWithOptions value ttl existence =>
    cases existence <;> cases ttl <;>
      simp [run, apply, Slot.setWithOptions, Slot.resolveTtl, Slot.allows, newDeadline,
        live_storedWith, Slot.live_expired, h]
  | delete => rfl
  | expireAt deadline flag => simp [run, apply, Slot.expireAtWithOptions, Slot.delete, h]
  | incrBy increment => simp [run, apply, Slot.incrBy, h, Slot.live_some, StoredValue.toEntry]
  | hset field value =>
    simp [run, apply, Slot.hset, Slot.purge, h, Slot.empty, Slot.live_some, StoredValue.toEntry]
  | hdel field => simp [run, apply, Slot.hdel, Slot.delete, h]

theorem live_run_alive (c : Clock) (op : Op) (e : StoredValue) (i : Option Int)
    (h : e.isExpired c = false) : (op.run c ⟨some e, i⟩).live c = op.apply c (some e.toEntry) := by
  cases op with
  | purge => simp [run, apply, Slot.purge, h, Slot.live_alive]
  | set value => rfl
  | setWithOptions value ttl existence =>
    cases existence <;> cases ttl <;>
      simp [run, apply, Slot.setWithOptions, Slot.resolveTtl, Slot.allows, newDeadline,
        live_storedWith, Slot.live_alive, h, StoredValue.toEntry]
  | delete => rfl
  | expireAt deadline flag =>
    simp only [run, apply, Slot.expireAtWithOptions, h, Bool.false_eq_true, if_false]
    by_cases hs : Slot.shouldApply flag deadline e.expiresAt = true
    · rw [if_pos hs, if_pos (show Slot.shouldApply flag deadline e.toEntry.deadline = true from hs),
        Slot.live_some]
      rfl
    · rw [if_neg hs, if_neg (show ¬ Slot.shouldApply flag deadline e.toEntry.deadline =
        true from hs)]
      exact Slot.live_alive c e i h
  | incrBy increment =>
    have hlive := Slot.live_alive c e i h
    simp only [run, apply, incremented, Slot.incrBy, h, StoredValue.toEntry, Bool.false_eq_true,
      if_false]
    cases e.value.toInteger with
    | error err => exact hlive
    | ok n =>
      simp only [Except.toOption, Option.bind_some]
      cases n.checkedAdd increment with
      | none => exact hlive
      | some m => exact Slot.live_revalue c e _ i h rfl
  | hset field value =>
    have hlive := Slot.live_alive c e i h
    simp only [run, apply, Slot.hset, Slot.purge, h, StoredValue.toEntry, Bool.false_eq_true,
      if_false]
    cases hv : e.value with
    | hash g => exact Slot.live_revalue c e _ i h rfl
    | _ => simpa only [StoredValue.toEntry, hv] using hlive
  | hdel field =>
    have hlive := Slot.live_alive c e i h
    simp only [run, apply, Slot.hdel, h, StoredValue.toEntry, Bool.false_eq_true, if_false]
    cases hv : e.value with
    | hash g =>
      simp only
      split_ifs
      · simpa only [StoredValue.toEntry, hv] using hlive
      · rfl
      · exact Slot.live_revalue c e _ i h rfl
    | _ => simpa only [StoredValue.toEntry, hv] using hlive

/-- A client sees of the result of an operation only what it saw before. -/
theorem live_run (c : Clock) (op : Op) (s : Slot) :
    (op.run c s).live c = op.apply c (s.live c) := by
  obtain ⟨_ | e, i⟩ := s
  · exact live_run_vacant c op i
  · cases h : e.isExpired c with
    | true => rw [live_run_expired c op e i h, Slot.live_expired c e i h]
    | false => rw [live_run_alive c op e i h, Slot.live_alive c e i h]

end Op

/-! ## What a command does to the store -/

/-- One operation on one key, or the end of them all. -/
inductive Step where
  | on (key : String) (op : Op)
  | flush

namespace Step

def run (c : Clock) : Step → MemoryStore → MemoryStore
  | on key op, s => s.put key (op.run c (s.slot key))
  | flush, s => s.clear

/-- What a step does to the entry that a client sees under `k`. -/
def act (c : Clock) (k : String) : Step → Option Entry → Option Entry
  | on key op, e => if k = key then op.apply c e else e
  | flush, _ => none

def runAll (c : Clock) (steps : List Step) (s : MemoryStore) : MemoryStore :=
  steps.foldl (fun s step => step.run c s) s

def actAll (c : Clock) (k : String) (steps : List Step) (e : Option Entry) : Option Entry :=
  steps.foldl (fun e step => step.act c k e) e

@[simp] theorem runAll_nil (c : Clock) (s : MemoryStore) : runAll c [] s = s := rfl

@[simp] theorem runAll_cons (c : Clock) (step : Step) (steps : List Step) (s : MemoryStore) :
    runAll c (step :: steps) s = runAll c steps (step.run c s) := rfl

@[simp] theorem actAll_nil (c : Clock) (k : String) (e : Option Entry) : actAll c k [] e = e := rfl

@[simp] theorem actAll_cons (c : Clock) (k : String) (step : Step) (steps : List Step)
    (e : Option Entry) :
    actAll c k (step :: steps) e = actAll c k steps (step.act c k e) := rfl

theorem live_run (c : Clock) (k : String) (step : Step) (s : MemoryStore) :
    (step.run c s).live c k = step.act c k (s.live c k) := by
  cases step with
  | on key op =>
    simp only [run, act, MemoryStore.live, MemoryStore.slot_put]
    split_ifs with h
    · rw [h, Op.live_run]
    · rfl
  | flush => rfl

theorem live_runAll (c : Clock) (k : String) (steps : List Step) (s : MemoryStore) :
    (runAll c steps s).live c k = actAll c k steps (s.live c k) := by
  induction steps generalizing s with
  | nil => rfl
  | cons step steps ih => rw [runAll_cons, actAll_cons, ih, live_run]

/-- The step can change what is under `k`. -/
def touches (k : String) : Step → Prop
  | on key _ => key = k
  | flush => True

theorem act_untouched (c : Clock) (k : String) (step : Step) (e : Option Entry)
    (h : ¬ step.touches k) : step.act c k e = e := by
  cases step with
  | on key op => exact if_neg fun hk => h hk.symm
  | flush => exact absurd trivial h

theorem actAll_untouched (c : Clock) (k : String) (steps : List Step) (e : Option Entry)
    (h : ∀ step ∈ steps, ¬ step.touches k) : actAll c k steps e = e := by
  induction steps generalizing e with
  | nil => rfl
  | cons step steps ih =>
    rw [actAll_cons, act_untouched c k step e (h step List.mem_cons_self)]
    exact ih e fun st hst => h st (List.mem_cons_of_mem _ hst)

end Step

/-! ## Time passes -/

/-- The second clock was read no earlier. -/
def Clock.le (a b : Clock) : Prop := a.mono ≤ b.mono

instance (a b : Clock) : Decidable (a.le b) := inferInstanceAs (Decidable (_ ≤ _))

theorem Entry.isExpired_mono (a b : Clock) (h : a.le b) (e : Entry) (he : e.isExpired a = true) :
    e.isExpired b = true := by
  obtain ⟨v, _ | d⟩ := e
  · cases he
  · have hd : d < a.now := of_decide_eq_true he
    refine decide_eq_true (p := d < b.now) ?_
    simp only [Clock.now, Clock.le] at *
    omega

theorem StoredValue.isExpired_before (a b : Clock) (h : a.le b) (e : StoredValue)
    (he : e.isExpired b = false) : e.isExpired a = false := by
  rw [Bool.eq_false_iff]
  intro hexp
  have hlater : e.isExpired b = true := Entry.isExpired_mono a b h e.toEntry hexp
  rw [he] at hlater
  cases hlater

/-- With time a client loses sight of what expires, and of nothing else. -/
theorem Slot.live_later (a b : Clock) (h : a.le b) (s : Slot) :
    s.live b = (s.live a).bind (Entry.alive b) := by
  obtain ⟨_ | e, i⟩ := s
  · rfl
  · rw [live_some, live_some, Entry.alive, Entry.alive]
    cases ha : e.toEntry.isExpired a with
    | true => simp [Entry.isExpired_mono a b h _ ha]
    | false => simp [Entry.alive]

theorem MemoryStore.live_later (a b : Clock) (h : a.le b) (s : MemoryStore) (k : String) :
    s.live b k = (s.live a k).bind (Entry.alive b) := Slot.live_later a b h _

end RustyPotato
