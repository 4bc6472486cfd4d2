import RustyPotato.Commands.Basic
import RustyPotato.Concurrent
import RustyPotato.Lib.Race

/-!
# Hashes under concurrent clients

`hset` writes under one lock. `hdel` decides under one lock whether the field is there and whether
it is the last one, and acts under another, whatever others have written in between.
-/

namespace RustyPotato

open Lib.Threads Lib.Machine

inductive HashCall where
  | hset (field value : String)
  | hdel (field : String)

namespace HashCall

def body (key : String) : HashCall → StoreProg (Except RustyPotatoError Bool)
  | hset field value => Concurrent.hset key field value
  | hdel field => Concurrent.hdel key field

/-- What a call is to do to the value under the key, if there is one. -/
def spec : HashCall → Option ValueType → Except RustyPotatoError Bool × Option ValueType
  | hset field value, none => (.ok true, some (.hash ((∅ : Hash).insert field value)))
  | hset field value, some (.hash h) =>
    (.ok (h.lookup field).isNone, some (.hash (h.insert field value)))
  | hset _ _, some v => (.error (.storageError wrongType (some "hset")), some v)
  | hdel _, none => (.ok false, none)
  | hdel field, some (.hash h) =>
    if (h.lookup field).isNone then (.ok false, some (.hash h))
    else (.ok true, if h.entries.card = 1 then none else some (.hash (h.erase field)))
  | hdel _, some v => (.error (.storageError wrongType (some "hdel")), some v)

end HashCall

/-- The call changes what is under its key. -/
def StoreStep.writesHash (l : StoreStep) : Bool :=
  l.call = .entry ∨ l.call = .remove ∨ l.call = .getMut

/-- The client has decided what to delete and has yet to delete it. -/
def StoreStep.decided (l : StoreStep) : Bool := l.call = .remove ∨ l.call = .getMut

def MemoryStore.valueOf (key : String) (s : MemoryStore) : Option ValueType :=
  (s.slot key).entry.map StoredValue.value

theorem valueOf_put (key : String) (s : MemoryStore) (t : Slot) :
    (s.put key t).valueOf key = t.entry.map StoredValue.value := by
  rw [MemoryStore.valueOf, MemoryStore.slot_put_self]

section
variable (last : Clock) (key : String)

/--
Hashes as an object: a client that has decided what to delete relies on nobody writing in between.
-/
def hashes : Object StoreStep Clock MemoryStore HashCall (Except RustyPotatoError Bool)
    (Option ValueType) where
  body := HashCall.body key
  spec := HashCall.spec
  view := MemoryStore.valueOf key
  inv s := (s.slot key).Lasts last
  env c := c.le last
  changes := StoreStep.writesHash
  guarded := StoreStep.decided

theorem seen_lasting {α : Type} (c : Clock) (hc : c.le last) (t : Slot) (h : t.Lasts last)
    (read : Clock → StoredValue → α) : t.seen c read = .missing ∨ ∃ a, t.seen c read = .live a := by
  obtain ⟨_ | e, i⟩ := t
  · exact .inl rfl
  · refine .inr ⟨read c e, ?_⟩
    have hlive : e.isExpired c = false := e.isExpired_before c last hc (h e rfl)
    simp [Slot.seen, hlive]

/-! ## `hset` -/

theorem hsetEntry_spec (c : Clock) (field value : String) (t : Slot) :
    (t.hsetEntry c field value).1 =
      (HashCall.spec (.hset field value) (t.entry.map StoredValue.value)).1 ∧
      (t.hsetEntry c field value).2.entry.map StoredValue.value =
        (HashCall.spec (.hset field value) (t.entry.map StoredValue.value)).2 := by
  obtain ⟨_ | e, i⟩ := t
  · exact ⟨rfl, rfl⟩
  · obtain ⟨v, d, m⟩ := e
    cases v <;> exact ⟨rfl, rfl⟩

theorem hset_pending (field value : String) (t : Option ValueType) :
    (hashes last key).Pending (.hset field value) t (Concurrent.hset key field value) := by
  -- The block that holds the entry is the whole effect.
  have hentry : ∀ t, (hashes last key).Pending (.hset field value) t
      (Prog.atomic ⟨.entry, key, false⟩ fun c s => s.atKey key (Slot.hsetEntry c field value)) := by
    intro t c s hc hs _
    obtain ⟨hresult, hvalue⟩ := hsetEntry_spec c field value (s.slot key)
    refine ⟨?_, nofun, .inr ⟨(valueOf_put key s _).trans hvalue, hresult⟩⟩
    show ((s.atKey key _).2.slot key).Lasts last
    rw [MemoryStore.slot_atKey, if_pos rfl]
    exact hs.inherit last _ _ (Slot.inherits_hsetEntry c field value (s.slot key))
  intro c s hc hs _
  refine ⟨hs, fun _ => rfl, .inl ⟨rfl, ?_⟩⟩
  change Object.Pending _ _ _
    (Prog.bind (Prog.bind (Prog.ret ((s.slot key).seen c fun _ _ => ())) _) _)
  rcases seen_lasting last c hc (s.slot key) hs fun _ _ => () with h | ⟨a, h⟩
  · rw [h]
    exact hentry _
  · rw [h]
    exact hentry _

/-! ## `hdel` -/

theorem hdelEntry_value (c : Clock) (field : String) (t : Slot) (g : Hash)
    (h : t.entry.map StoredValue.value = some (.hash g)) :
    (t.hdelEntry c field).entry.map StoredValue.value = some (.hash (g.erase field)) := by
  obtain ⟨_ | e, i⟩ := t
  · cases h
  · have hvalue : e.value = .hash g := Option.some.inj h
    simp [Slot.hdelEntry, hvalue]

theorem spec_hdel_present (field : String) (g : Hash) (hpresent : (g.lookup field).isSome = true) :
    HashCall.spec (.hdel field) (some (.hash g)) =
      (.ok true, if g.entries.card = 1 then none else some (.hash (g.erase field))) := by
  obtain ⟨v, hv⟩ := Option.isSome_iff_exists.mp hpresent
  simp [HashCall.spec, hv]

theorem drop_pending (field : String) (g : Hash) (hpresent : (g.lookup field).isSome = true)
    (hlast : g.entries.card = 1) :
    (hashes last key).Pending (.hdel field) (some (.hash g)) (do
      let _ ← Concurrent.remove false key
      Concurrent.removeIndex false key
      return .ok true) := by
  refine Object.pending_atomic _ _ _ _ _ _ fun c s hc hs hguard => ?_
  have hview : (hashes last key).view s = some (.hash g) := hguard rfl
  rw [hview]
  have hspec : (hashes last key).spec (.hdel field) (some (.hash g)) = (.ok true, none) := by
    refine (spec_hdel_present field g hpresent).trans ?_
    rw [if_pos hlast]
  rw [hspec]
  refine ⟨?_, nofun, .inr ⟨valueOf_put key s _, fun c' s' hc' hs' => ?_⟩⟩
  · intro e he
    rw [MemoryStore.slot_atKey, if_pos rfl] at he
    cases he
  · refine ⟨fun e he => ?_, valueOf_put key s' _, rfl⟩
    rw [MemoryStore.slot_atKey, if_pos rfl] at he
    exact hs' e he

theorem erase_pending (field : String) (g : Hash) (hpresent : (g.lookup field).isSome = true)
    (hmore : g.entries.card ≠ 1) :
    (hashes last key).Pending (.hdel field) (some (.hash g)) (do
      Prog.atomic ⟨.getMut, key, false⟩ fun c s => s.atKey key fun t => ((), t.hdelEntry c field)
      return .ok true) := by
  refine Object.pending_atomic _ _ _ _ _ _ fun c s hc hs hguard => ?_
  have hview : (hashes last key).view s = some (.hash g) := hguard rfl
  rw [hview]
  have hspec : (hashes last key).spec (.hdel field) (some (.hash g)) =
      (.ok true, some (.hash (g.erase field))) := by
    refine (spec_hdel_present field g hpresent).trans ?_
    rw [if_neg hmore]
  rw [hspec]
  refine ⟨?_, nofun, .inr ⟨?_, rfl⟩⟩
  · show ((s.atKey key _).2.slot key).Lasts last
    rw [MemoryStore.slot_atKey, if_pos rfl]
    exact hs.inherit last _ _ (Slot.inherits_hdelEntry c field (s.slot key))
  · exact (valueOf_put key s _).trans (hdelEntry_value c field (s.slot key) g hview)

/-- What the decision is, and what follows from it as long as nobody writes. -/
theorem hdelUnexpired_pending (field : String) (t : Option ValueType) :
    (hashes last key).Pending (.hdel field) t (Concurrent.hdelUnexpired key field) := by
  refine Object.pending_look _ _ _ _ _ _ fun c s hc hs => ?_
  have hview : (hashes last key).view s = (s.slot key).entry.map StoredValue.value := rfl
  rw [hview]
  generalize s.slot key = t
  obtain ⟨_ | e, i⟩ := t
  · exact .inr ⟨rfl, rfl⟩
  · obtain ⟨v, created, accessed, deadline, m⟩ := e
    cases v with
    | hash g =>
      cases hfield : g.lookup field with
      | none =>
        refine .inr ⟨?_, ?_⟩
        · simp [hashes, HashCall.spec, hfield]
        · have hspec : (HashCall.spec (.hdel field) (some (.hash g))).1 = .ok false := by
            simp [HashCall.spec, hfield]
          have hsettled : (hashes last key).Settled ((hashes last key).spec (.hdel field)
            (some (.hash g))).1
              (pure (.ok false)) := hspec.symm
          simpa [Slot.hdelLook, hfield] using hsettled
      | some value =>
        have hpresent : (g.lookup field).isSome = true := by rw [hfield]; rfl
        by_cases hlast : g.entries.card = 1
        · refine .inl ?_
          have hprog := drop_pending last key field g hpresent hlast
          simpa [Slot.hdelLook, hfield, hlast] using hprog
        · refine .inl ?_
          have hprog := erase_pending last key field g hpresent hlast
          simpa [Slot.hdelLook, hfield, hlast] using hprog
    | _ => exact .inr ⟨rfl, rfl⟩

theorem hdel_pending (field : String) (t : Option ValueType) :
    (hashes last key).Pending (.hdel field) t (Concurrent.hdel key field) := by
  refine Object.pending_look _ _ _ _ _ _ fun c s hc hs => .inl ?_
  rcases seen_lasting last c hc (s.slot key) hs fun _ _ => () with h | ⟨a, h⟩
  · rw [h]
    exact hdelUnexpired_pending last key field _
  · rw [h]
    exact hdelUnexpired_pending last key field _

theorem hash_pending (call : HashCall) (t : Option ValueType) :
    (hashes last key).Pending call t (call.body key) := by
  cases call with
  | hset field value => exact hset_pending last key field value t
  | hdel field => exact hdel_pending last key field t

end

/-! ## Any number of clients -/

/--
On a key that does not expire, calls that do not write between the decision and the act of an `hdel`
are atomic.
-/
theorem hash_calls_atomic (key : String) (last : Clock) (s s' : MemoryStore)
    (hlasts : (s.slot key).Lasts last) (calls : List HashCall) (as : List (Nat × Clock))
    (hclocks : ∀ a ∈ as, a.2.le last) (rs : List (Except RustyPotatoError Bool))
    (hrun : run Race.step as ⟨s, calls.map (HashCall.body key)⟩ = some ⟨s', rs.map .ret⟩)
    (hfree : Along Race.step (fun a r => r.undisturbed StoreStep.writesHash StoreStep.decided a =
      true) as
      ⟨s, calls.map (HashCall.body key)⟩) :
    Linearizable HashCall.spec (s.valueOf key) calls rs (s'.valueOf key) :=
  (hashes last key).linearizable (hash_pending last key) calls s s' hlasts as hclocks hfree rs hrun

/-! ## The last field and a new one -/

def oneField : Hash := (∅ : Hash).insert "f" "1"

/-- One client deletes the only field of a hash, another adds a field, in these turns. -/
def fieldTurns (turns : List Nat) :
    Option (Race StoreStep Clock MemoryStore (Except RustyPotatoError Bool)) :=
  run Race.step (turns.map fun i => (i, Env.sample.clock))
    ⟨MemoryStore.new.put "h" ⟨some (.new Env.sample.clock (.hash oneField)), none⟩,
      [HashCall.hdel "f", .hset "g" "2"].map (HashCall.body "h")⟩

/-- The field is added before the decision. -/
theorem field_added_in_time :
    ∃ s', fieldTurns [0, 1, 1, 0, 0] = some ⟨s', [.ok true, .ok true].map .ret⟩ ∧
      Linearizable HashCall.spec (some (.hash oneField)) [.hdel "f", .hset "g" "2"]
        [.ok true, .ok true]
        (s'.valueOf "h") := by
  obtain ⟨s', hrun⟩ : ∃ s', fieldTurns [0, 1, 1, 0, 0] = some ⟨s', [.ok true, .ok true].map .ret⟩ :=
    ⟨_, rfl⟩
  refine ⟨s', hrun, hash_calls_atomic "h" Env.sample.clock _ s' ?_
    [.hdel "f", .hset "g" "2"] _ ?_ _ hrun ?_⟩
  · rintro e ⟨⟩
    rfl
  · simp [Clock.le]
  · exact along_of_check _ _ _ _ rfl

/-- The field is added between the decision and the removal of the key, and is lost. -/
theorem added_field_lost :
    ∃ s', fieldTurns [0, 0, 1, 1, 0, 0] = some ⟨s', [.ok true, .ok true].map .ret⟩ ∧
      s'.valueOf "h" = none ∧
      ¬ Linearizable HashCall.spec (some (.hash oneField)) [.hdel "f", .hset "g" "2"]
        [.ok true, .ok true]
        (s'.valueOf "h") := by
  refine ⟨_, rfl, rfl, fun h => ?_⟩
  rcases h.pair with hseq | hseq
  · exact absurd (congrArg Option.isSome hseq.2.2) (by decide +kernel)
  · exact absurd (congrArg Option.isSome hseq.2.2) (by decide +kernel)

end RustyPotato
