import RustyPotato.CounterRace
import RustyPotato.Keyspace
import RustyPotato.Lib.Locks
import RustyPotato.Lib.Race

/-!
# The store as an atomic object

Every call of a client on the store is several steps on two maps, and other clients come in between.
As long as nothing expires meanwhile, the calls that take the lock of their key once still act as if
each was one step on the keyspace. Of the clients that try to set a missing key for themselves, just
one succeeds, even if an expired entry lies there.
-/

namespace RustyPotato

open Lib.Threads Lib.Machine

/-- The calls that act under one lock. `KEEPTTL` and `hdel` take two. -/
inductive KeyCall where
  | get (key : String)
  | existsKey (key : String)
  | hget (key field : String)
  | hexists (key field : String)
  | set (key : String) (value : ValueType)
  | setWithOptions (key : String) (value : ValueType) (deadline : Option Int)
    (existence : SetExistence)
  | delete (key : String)
  | expireAt (key : String) (deadline : Int) (flag : ExpireFlag)
  | incrBy (key : String) (increment : I64)
  | hset (key field value : String)

inductive KeyReply where
  | done
  | found (e : Option Entry)
  | flag (b : Bool)
  | outcome (applied : Bool) (previous : Option Entry)
  | number (r : Except RustyPotatoError I64)
  | field (r : Except RustyPotatoError (Option String))
  | change (r : Except RustyPotatoError Bool)

namespace KeyCall

def key : KeyCall → String
  | get key | existsKey key | hget key _ | hexists key _ | set key _ | setWithOptions key _ _ _
  | delete key | expireAt key _ _ | incrBy key _ | hset key _ _ => key

def ttlOption : Option Int → SetTtlOption
  | none => .none
  | some d => .at d

/-- What the call does to the keyspace. -/
def op : KeyCall → Op
  | get _ | existsKey _ | hget _ _ | hexists _ _ => .purge
  | set _ value => .set value
  | setWithOptions _ value deadline existence =>
    .setWithOptions value (ttlOption deadline) existence
  | delete _ => .delete
  | expireAt _ deadline flag => .expireAt deadline flag
  | incrBy _ increment => .incrBy increment
  | hset _ field value => .hset field value

def hashReply {α : Type} (operation : String) (missing : α) (read : Hash → α) (e : Option Entry) :
    Except RustyPotatoError α :=
  match e.map Entry.value with
  | none => .ok missing
  | some (.hash h) => .ok (read h)
  | some _ => .error (.storageError wrongType (some operation))

def incrReply (increment : I64) (e : Option Entry) : Except RustyPotatoError I64 :=
  match e with
  | none => .ok increment
  | some e =>
    match e.value.toInteger with
    | .error err => .error err
    | .ok n =>
      match n.checkedAdd increment with
      | none => .error .integerOverflow
      | some m => .ok m

/-- What the call tells its client of the entry that is seen under the key. -/
def reply (call : KeyCall) (e : Option Entry) : KeyReply :=
  match call with
  | get _ => .found e
  | existsKey _ => .flag e.isSome
  | hget _ field => .field (hashReply "hget" none (fun h => h.lookup field) e)
  | hexists _ field => .change (hashReply "hexists" false (fun h => (h.lookup field).isSome) e)
  | set _ _ => .done
  | setWithOptions _ _ _ existence => .outcome (Slot.allows existence e.isSome) e
  | delete _ => .flag e.isSome
  | expireAt _ deadline flag => .flag (e.any fun e => Slot.shouldApply flag deadline e.deadline)
  | incrBy _ increment => .number (incrReply increment e)
  | hset _ field _ => .change (hashReply "hset" true (fun h => (h.lookup field).isNone) e)

/-- The call as the store runs it. -/
def body : KeyCall → StoreProg KeyReply
  | get key => do return .found ((← Concurrent.get key).map StoredValue.toEntry)
  | existsKey key => do return .flag (← Concurrent.existsKey key)
  | hget key field => do return .field (← Concurrent.hget key field)
  | hexists key field => do return .change (← Concurrent.hexists key field)
  | set key value => do
    Concurrent.set key value
    return .done
  | setWithOptions key value deadline existence => do
    let outcome ← Concurrent.setWithOptions key value (ttlOption deadline) existence
    return .outcome outcome.applied (outcome.previous.map StoredValue.toEntry)
  | delete key => do return .flag (← Concurrent.delete false key)
  | expireAt key deadline flag =>
    do return .flag (← Concurrent.expireAtWithOptions key deadline flag)
  | incrBy key increment => do return .number (← Concurrent.incrBy key increment)
  | hset key field value => do return .change (← Concurrent.hset key field value)

/-- The deadlines that the call sets are not over by then. -/
def Lasting (last : Clock) : KeyCall → Prop
  | setWithOptions _ _ (some d) _ | expireAt _ d _ => last.now ≤ d
  | _ => True

end KeyCall

def MemoryStore.entries (s : MemoryStore) (key : String) : Option Entry :=
  (s.slot key).entry.map StoredValue.toEntry

theorem MemoryStore.entries_atKey {α : Type} (s : MemoryStore) (key : String)
    (f : Slot → α × Slot) :
    (s.atKey key f).2.entries =
      Function.update s.entries key ((f (s.slot key)).2.entry.map StoredValue.toEntry) := by
  funext k
  rw [entries, slot_atKey, Function.update_apply]
  split_ifs <;> rfl

section
variable (last : Clock)

/-- The keyspace as an object whose calls act in one step. -/
def keyspace : Object StoreStep Clock MemoryStore { call : KeyCall // call.Lasting last } KeyReply
    (String → Option Entry) where
  body call := call.1.body
  spec call t := (call.1.reply (t call.1.key),
    Function.update t call.1.key (call.1.op.apply last (t call.1.key)))
  view := MemoryStore.entries
  inv s := ∀ k, (s.slot k).Lasts last
  env c := c.le last
  changes _ := true
  guarded _ := false

variable {last} (call : { call : KeyCall // call.Lasting last }) (t : String → Option Entry)

theorem inv_atKey {α : Type} (s : MemoryStore) (hs : ∀ k, (s.slot k).Lasts last) (key : String)
    (f : Slot → α × Slot) (hf : (f (s.slot key)).2.Lasts last) (k : String) :
    ((s.atKey key f).2.slot k).Lasts last := by
  rw [MemoryStore.slot_atKey]
  split_ifs with hk
  · exact hf
  · exact hs k

/-- A step that is the whole effect of its call. -/
theorem atKey_pending {α : Type} (l : StoreStep) (f : Clock → Slot → α × Slot)
    (k : α → StoreProg KeyReply)
    (h : ∀ c slot, c.le last → slot.Lasts last → (f c slot).2.Lasts last ∧
      (f c slot).2.entry.map StoredValue.toEntry =
        call.1.op.apply last (slot.entry.map StoredValue.toEntry) ∧
      k (f c slot).1 = .ret (call.1.reply (slot.entry.map StoredValue.toEntry))) :
    (keyspace last).Pending call t (Prog.atomic l (fun c s => s.atKey call.1.key (f c)) >>= k) := by
  refine Object.pending_atomic _ _ _ _ _ _ fun c s hc hs _ => ?_
  obtain ⟨hlasts, hview, hresult⟩ := h c (s.slot call.1.key) hc (hs _)
  refine ⟨inv_atKey s hs _ _ hlasts, (Bool.noConfusion ·), .inr ⟨?_, ?_⟩⟩
  · exact (s.entries_atKey _ _).trans (congrArg _ hview)
  · rw [MemoryStore.atKey_fst, hresult]
    rfl

end

/-! ## The blocks that hold an entry -/

section
variable (last c : Clock) (hc : c.le last) (t : Slot) (ht : t.Lasts last)

theorem alive_lasting (v : ValueType) (d : Option Int) (h : ∀ x, d = some x → last.now ≤ x) :
    Entry.alive last ⟨v, d⟩ = some ⟨v, d⟩ := by
  refine (Entry.alive_eq_some ..).mpr ⟨?_, rfl⟩
  cases d with
  | none => rfl
  | some x =>
    refine decide_eq_false (p := x < last.now) ?_
    have := h x rfl
    omega

theorem lasts_storedWith (v : ValueType) (d i : Option Int) (h : ∀ x, d = some x → last.now ≤ x) :
    Slot.Lasts last ⟨some (Slot.storedWith c v d), i⟩ := by
  intro e he
  cases he
  have halive := (Entry.alive_eq_some ..).mp (alive_lasting last v d h)
  cases d <;> exact halive.1

theorem toEntry_storedWith (v : ValueType) (d : Option Int) :
    (Slot.storedWith c v d).toEntry = ⟨v, d⟩ := by
  cases d <;> rfl

include hc ht

omit hc in
theorem hsetEntry_acts (field value : String) :
    (t.hsetEntry c field value).2.Lasts last ∧
      (t.hsetEntry c field value).2.entry.map StoredValue.toEntry =
        (Op.hset field value).apply last (t.entry.map StoredValue.toEntry) ∧
      (t.hsetEntry c field value).1 =
        KeyCall.hashReply "hset" true (fun h => (h.lookup field).isNone)
          (t.entry.map StoredValue.toEntry) := by
  refine ⟨ht.inherit last _ _ (Slot.inherits_hsetEntry c field value t), ?_⟩
  obtain ⟨_ | ⟨v, d, m⟩, i⟩ := t
  · exact ⟨rfl, rfl⟩
  · cases v <;> exact ⟨rfl, rfl⟩

end

/-! ## The calls -/

namespace KeyCall

variable {last : Clock} (t : String → Option Entry)

theorem hset_pending (key field value : String) :
    (keyspace last).Pending ⟨.hset key field value, trivial⟩ t
      (KeyCall.hset key field value).body := by
  have hentry : ∀ t, (keyspace last).Pending ⟨.hset key field value, trivial⟩ t
      (Prog.atomic ⟨.entry, key, false⟩ (fun c s => s.atKey key (Slot.hsetEntry c field value)) >>=
        fun r =>
        return .change r) := by
    intro t
    refine atKey_pending ⟨.hset key field value, trivial⟩ t _ _ _ fun c slot _ hslot => ?_
    obtain ⟨hlasts, hview, hresult⟩ := hsetEntry_acts last c slot hslot field value
    exact ⟨hlasts, hview, by rw [hresult]; rfl⟩
  intro c s hc hs _
  refine ⟨hs, (Bool.noConfusion ·), .inl ⟨rfl, ?_⟩⟩
  change Object.Pending _ _ _
    (Prog.bind (Prog.bind (Prog.bind (Prog.ret ((s.slot key).seen c fun _ _ => ())) _) _) _)
  unfold Slot.seen
  cases hslot : (s.slot key).entry with
  | none => exact hentry _
  | some e =>
    have hlive : e.isExpired c = false := e.isExpired_before c last hc (hs _ e hslot)
    simp only [hlive, Bool.false_eq_true, if_false]
    exact hentry _

end KeyCall

/-- A `SET` with `NX`. -/
structure LockCall (last : Clock) where
  value : ValueType
  deadline : Option Int
  lasting : ∀ d, deadline = some d → last.now ≤ d

namespace LockCall

variable {last : Clock}

def entry (call : LockCall last) : Entry := ⟨call.value, call.deadline⟩

/-- Whether the key was set, and what was there before. -/
def body (key : String) (call : LockCall last) : StoreProg (Bool × Option Entry) := do
  let outcome ← Concurrent.setWithOptions key call.value
    (KeyCall.ttlOption call.deadline) .onlyIfNotExists
  return (outcome.applied, outcome.previous.map StoredValue.toEntry)

def spec (call : LockCall last) : Option Entry → (Bool × Option Entry) × Option Entry
  | none => ((true, none), some call.entry)
  | some e => ((false, some e), some e)

end LockCall

section
variable (first last : Clock) (key : String)

def lockKey : Object StoreStep Clock MemoryStore (LockCall last) (Bool × Option Entry)
    (Option Entry) where
  body := LockCall.body key
  spec := LockCall.spec
  view s := (s.slot key).live last
  inv s := (s.slot key).Settled first last
  env c := first.le c ∧ c.le last
  changes _ := true
  guarded _ := false

theorem setEntry_locks (c : Clock) (t : Slot)
    (hsame : ∀ e, t.entry = some e → e.isExpired c = e.isExpired last) (ht : t.Settled first last)
    (call : LockCall last) :
    (t.setEntry c call.value call.deadline .onlyIfNotExists).2.Settled first last ∧
      (t.setEntry c call.value call.deadline .onlyIfNotExists).2.live last =
        (call.spec (t.live last)).2 ∧
      ((t.setEntry c call.value call.deadline .onlyIfNotExists).1.applied,
        (t.setEntry c call.value call.deadline .onlyIfNotExists).1.previous.map
          StoredValue.toEntry) =
        (call.spec (t.live last)).1 := by
  have hset : ∀ i,
      Slot.live last ⟨some (Slot.storedWith c call.value call.deadline), i⟩ = some call.entry := by
    intro i
    rw [Slot.live_some, toEntry_storedWith,
      alive_lasting last call.value call.deadline call.lasting]
    rfl
  have hlasts : ∀ i, Slot.Settled first last ⟨some (Slot.storedWith c call.value call.deadline),
      i⟩ := by
    intro i e he hexp
    rw [lasts_storedWith last c call.value call.deadline i call.lasting e he] at hexp
    cases hexp
  obtain ⟨_ | e, i⟩ := t
  · exact ⟨hlasts _, hset _, rfl⟩
  · have hc := hsame e rfl
    cases hexp : e.isExpired last with
    | true =>
      rw [hexp] at hc
      rw [Slot.live_expired last e i hexp]
      simp only [Slot.setEntry, hc, Slot.allows]
      exact ⟨hlasts _, hset _, rfl⟩
    | false =>
      rw [hexp] at hc
      simp only [Slot.setEntry, hc, Slot.allows]
      rw [Slot.live_alive last e i hexp]
      exact ⟨ht, Slot.live_alive last e i hexp, rfl⟩

theorem lockKey_pending (call : LockCall last) (t : Option Entry) :
    (lockKey first last key).Pending call t (call.body key) := by
  have hentry : (lockKey first last key).Pending call t
      (Prog.atomic ⟨.entry, key, false⟩
        (fun c s => s.atKey key (Slot.setEntry c call.value call.deadline .onlyIfNotExists)) >>=
          fun outcome =>
          return (outcome.applied, outcome.previous.map StoredValue.toEntry)) := by
    refine Object.pending_atomic _ _ _ _ _ _ fun c s hc hs _ => ?_
    obtain ⟨hsettled, hview, hresult⟩ := setEntry_locks first last c (s.slot key)
      (fun e he => hs.isExpired_eq first last _ c hc e he) hs call
    refine ⟨?_, (Bool.noConfusion ·), .inr ⟨?_, ?_⟩⟩
    · show ((s.atKey key _).2.slot key).Settled first last
      rwa [MemoryStore.slot_atKey, if_pos rfl]
    · show ((s.atKey key _).2.slot key).live last = _
      rw [MemoryStore.slot_atKey, if_pos rfl, hview]
      rfl
    · rw [MemoryStore.atKey_fst]
      exact hresult
  obtain ⟨v, d, h⟩ := call
  cases d <;> exact hentry

end

/-- One after the other: the first sets the key, and all others find it set. -/
theorem sequential_found (last : Clock) (h : List (LockCall last × (Bool × Option Entry)))
    (e : Entry) (t : Option Entry) (hseq : Sequential LockCall.spec (some e) h t) :
    t = some e ∧ ∀ x ∈ h, x.2 = (false, some e) := by
  induction h with
  | nil => exact ⟨hseq.symm, by simp⟩
  | cons x h ih =>
    obtain ⟨hresult, hrest⟩ := hseq
    obtain ⟨ht, hall⟩ := ih hrest
    refine ⟨ht, fun y hy => ?_⟩
    rcases List.mem_cons.mp hy with rfl | hy
    · exact hresult.symm
    · exact hall y hy

/--
However many clients try to set a key with `NX` that is missing or expired, with or without a
deadline, and however their steps interleave: one of them sets it, its value stays, and every other
one is told so.
-/
theorem lock_single_winner (key : String) (first last : Clock) (s s' : MemoryStore)
    (hfree : ∀ e, (s.slot key).entry = some e → e.isExpired first = true) (hle : first.le last)
    (calls : List (LockCall last)) (hcalls : calls ≠ []) (as : List (Nat × Clock))
    (hclocks : ∀ a ∈ as, first.le a.2 ∧ a.2.le last) (rs : List (Bool × Option Entry))
    (hrun : run Race.step as ⟨s, calls.map (LockCall.body key)⟩ = some ⟨s', rs.map .ret⟩) :
    ∃ winner ∈ calls, (winner, true, none) ∈ calls.zip rs ∧ rs.countP Prod.fst = 1 ∧
      (s'.slot key).live last = some winner.entry ∧
      ∀ r ∈ rs, r = (true, none) ∨ r = (false, some winner.entry) := by
  have hlinear := (lockKey first last key).linearizable (lockKey_pending first last key) calls s s'
    (fun e he _ => hfree e he) as hclocks (Race.undisturbed_of_unguarded _ as _) rs hrun
  have hmissing : (s.slot key).live last = none := by
    generalize s.slot key = t at hfree
    obtain ⟨_ | e, i⟩ := t
    · rfl
    · exact Slot.live_expired last e i (Entry.isExpired_mono first last hle e.toEntry (hfree e rfl))
  obtain ⟨hlength, h, hperm, hseq⟩ := hlinear
  have hview : (lockKey first last key).view s = none := hmissing
  rw [hview] at hseq
  have hsnd : (calls.zip rs).map Prod.snd = rs := List.map_snd_zip (by omega)
  cases h with
  | nil =>
    have hzip := hperm.symm.eq_nil
    rw [List.zip_eq_nil_iff] at hzip
    rcases hzip with hnil | hnil
    · exact absurd hnil hcalls
    · rw [hnil, List.length_nil] at hlength
      exact absurd (List.length_eq_zero_iff.mp hlength.symm) hcalls
  | cons x h =>
    obtain ⟨winner, r⟩ := x
    obtain ⟨hresult, hrest⟩ := hseq
    obtain rfl : r = (true, none) := hresult.symm
    obtain ⟨hend, hothers⟩ := sequential_found last h winner.entry _ hrest
    have hmem : (winner, true, none) ∈ calls.zip rs := hperm.subset List.mem_cons_self
    refine ⟨winner, (List.of_mem_zip hmem).1, hmem, ?_, hend, fun r hr => ?_⟩
    · have hcount : (calls.zip rs).countP (fun x => x.2.1) = 1 := by
        rw [← hperm.countP_eq, List.countP_cons_of_pos rfl, List.countP_eq_zero.mpr]
        intro y hy
        simp [hothers y hy]
      rw [← hsnd, List.countP_map]
      exact hcount
    · rw [← hsnd] at hr
      obtain ⟨y, hy, rfl⟩ := List.mem_map.mp hr
      rcases List.mem_cons.mp (hperm.symm.subset hy) with rfl | hy
      · exact .inl rfl
      · exact .inr (hothers y hy)

/-- Two clients go for the same expired key. -/
def twoLocks : List (LockCall Env.sample.clock) :=
  [⟨.string (utf8 "a"), none, nofun⟩, ⟨.string (utf8 "b"), none, nofun⟩]

theorem twoLocks_winner :
    ∃ s', run Race.step [(1, Env.sample.clock), (0, Env.sample.clock)]
        ⟨staleHits, twoLocks.map (LockCall.body "hits")⟩ =
          some ⟨s', [(false, some ⟨.string (utf8 "b"), none⟩), (true, none)].map .ret⟩ ∧
      ∃ winner ∈ twoLocks, (s'.slot "hits").live Env.sample.clock = some winner.entry := by
  obtain ⟨s', hrun⟩ : ∃ s', run Race.step [(1, Env.sample.clock), (0, Env.sample.clock)]
      ⟨staleHits, twoLocks.map (LockCall.body "hits")⟩ =
        some ⟨s', [(false, some ⟨.string (utf8 "b"), none⟩), (true, none)].map .ret⟩ := ⟨_, rfl⟩
  obtain ⟨winner, hmem, -, -, hlive, -⟩ :=
    lock_single_winner "hits" Env.sample.clock Env.sample.clock staleHits s' (by rintro e ⟨⟩; rfl)
      (by decide) twoLocks (by simp [twoLocks]) _ (by simp [Clock.le]) _ hrun
  exact ⟨s', hrun, winner, hmem, hlive⟩

end RustyPotato
