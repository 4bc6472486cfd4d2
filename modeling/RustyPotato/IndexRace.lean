import RustyPotato.Lib.Locks
import RustyPotato.TwoMaps
import RustyPotato.ExpiryTests

/-!
# The expiration index under concurrent writers

`set`, `delete` and the expired branch of `incr_by` remove the key from the index first and touch
`data` after, without a lock over both; the other writers hold the entry while they write the index.
The index follows the entry unless a deadline goes into it between such a removal and the call on
`data` after it.
-/

namespace RustyPotato

open Lib.Threads Lib.Machine

/-! ## Clients that wait for the entry -/

namespace MapCall

/-- The client that is about to make the call holds the entry. -/
def guarded : MapCall → Bool
  | removeIndex guarded => guarded
  | insertIndex _ _ | write _ => true
  | _ => false

/-- All calls but a removal from the index without the lock are on `data` or under the lock. -/
def waits (call : MapCall) : Bool := call != removeIndex false

def indexes : MapCall → Bool
  | insertIndex _ _ => true
  | _ => false

/--
The client has removed the key from the index, without the lock, and is about to write or remove the
entry.
-/
def follows : MapCall → Bool
  | insert | remove => true
  | _ => false

end MapCall

abbrev IndexClients := Pool MapCall Clock MemoryStore

abbrev IndexAct := Act Clock WriterCall

def IndexClients.step (key : String) : IndexAct → IndexClients → Option IndexClients :=
  Pool.lockStep MapCall.guarded MapCall.waits (WriterCall.body key) fun _ _ => true

/--
No deadline goes into the index while another client is between its removal from there and its call
on `data`.
-/
def IndexClients.undisturbed (a : IndexAct) (s : IndexClients) : Bool :=
  (s.label? a).all fun x => !x.1.indexes || (s.others a).all fun call => !call.follows

/-! ## What the steps expect -/

/-- What the index holds is the deadline of the entry. -/
def Slot.Agrees (t : Slot) : Prop :=
  ∀ d, t.index = some d → t.entry.map StoredValue.expiresAt = some (some d)

theorem Slot.Indexed.agrees (t : Slot) (h : t.Indexed) : t.Agrees := by
  intro d hd
  unfold Indexed at h
  rw [hd] at h
  obtain ⟨e, he, hdeadline⟩ := Option.bind_eq_some_iff.mp h.symm
  rw [he, Option.map_some, hdeadline]

theorem Slot.agrees_of_index (t : Slot) (h : t.index = none) : t.Agrees := by
  intro d hd
  rw [h] at hd
  cases hd

theorem Slot.Agrees.update (t : Slot) (e e' : StoredValue) (he : t.entry = some e)
    (hd : e'.expiresAt = e.expiresAt) (ht : t.Agrees) : Agrees { t with entry := some e' } := by
  intro d hindex
  have := ht d hindex
  rw [he, Option.map_some] at this
  rw [Option.map_some, hd]
  exact this

theorem Slot.Agrees.create (t : Slot) (e : StoredValue) (he : t.entry = none) (ht : t.Agrees) :
    Agrees { t with entry := some e } := by
  intro d hindex
  have := ht d hindex
  rw [he] at this
  cases this

namespace MapCall

/-- What is so under the key when the call is made. -/
def Expects (call : MapCall) (t : Slot) : Prop :=
  match call with
  | insert | remove => t.index = none
  | insertIndex d false => t.entry.map StoredValue.expiresAt = some (some d)
  | write resolved => ∀ d, t.index = some d → resolved = some d
  | _ => True

def pre (key : String) (call : MapCall) (_ : Clock) (s : MemoryStore) : Prop :=
  call.Expects (s.slot key)

/-- What the call does to the slot. -/
def Does (call : MapCall) (t t' : Slot) : Prop :=
  match call with
  | get => t' = t
  | insert => t'.index = t.index
  | remove => t'.index = t.index
  | block => t'.index = t.index
  | removeIndex _ => t' = { t with index := none }
  | insertIndex d _ => t' = { t with index := some d }
  | write resolved => t'.index = t.index ∧ t'.entry.map StoredValue.expiresAt = some resolved

/-- The call brings the two maps together again. -/
def mends : MapCall → Bool
  | removeIndex _ | insertIndex _ _ | write _ => true
  | _ => false

def Free (call call' : MapCall) : Prop :=
  (call'.guarded = true → call = removeIndex false) ∧ (call'.follows = true → call.indexes = false)

theorem Does.keeps (call call' : MapCall) (t t' : Slot) (h : call.Does t t')
    (hfree : call.Free call') (hexpects : call'.Expects t) : call'.Expects t' := by
  have hindex : call.indexes = false → t.index = none → t'.index = none := by
    intro hindexes hnone
    cases call with
    | get => rw [show t' = t from h, hnone]
    | removeIndex guarded => rw [show t' = { t with index := none } from h]
    | insertIndex d unwritten => cases hindexes
    | write resolved => rw [h.1, hnone]
    | _ => rw [show t'.index = t.index from h, hnone]
  have hguarded : call'.guarded = true → t' = { t with index := none } := by
    intro hcall
    cases hfree.1 hcall
    exact h
  cases call' with
  | insert => exact hindex (hfree.2 rfl) hexpects
  | remove => exact hindex (hfree.2 rfl) hexpects
  | insertIndex d unwritten =>
    rw [hguarded rfl]
    cases unwritten with
    | false => exact hexpects
    | true => trivial
  | write resolved =>
    intro d hd
    rw [hguarded rfl] at hd
    cases hd
  | _ => trivial

/-- What one step of a writer does, and what comes after it. -/
structure Leads (call : MapCall) (t t' : Slot) (next : Option MapCall) : Prop where
  does : call.Does t t'
  locks : ∀ call', next = some call' → call'.guarded = true → call.waits = true
  expects : call.Expects t → ∀ call', next = some call' → call'.Expects t'
  agrees : call.Expects t →
    (∃ call', next = some call' ∧ call'.mends = true) ∨ (call.mends = true ∨ t.Agrees → t'.Agrees)

def Proper (key : String) (call : MapCall) (effect : Clock → MemoryStore → MemoryStore)
    (next : Clock → MemoryStore → Option MapCall) : Prop :=
  ∀ c s, call.Leads (s.slot key) ((effect c s).slot key) (next c s)

end MapCall

/-! ## The programs -/

section Programs

open TwoMaps

variable {α β : Type} (key : String)

theorem step_proper (call : MapCall) (f : Clock → Slot → α × Slot) (k : α → MapProg β)
    (h : ∀ c t, call.Leads t (f c t).2 (k (f c t).1).label?)
    (hk : ∀ c t, (k (f c t).1).EachStep (MapCall.Proper key)) :
    (Prog.atomic call (fun c s => s.atKey key (f c)) >>= k).EachStep (MapCall.Proper key) := by
  refine Prog.eachStep_atomic _ _ _ (fun c s => ?_) fun c s => hk c (s.slot key)
  rw [MemoryStore.slot_atKey, if_pos rfl]
  exact h c (s.slot key)

theorem get_proper (f : Clock → MemoryStore → α) (k : α → MapProg β)
    (hnext : ∀ a call, (k a).label? = some call → call.guarded = false ∧ ∀ t, call.Expects t)
    (hk : ∀ a, (k a).EachStep (MapCall.Proper key)) :
    (Prog.atomic .get (fun c s => (f c s, s)) >>= k).EachStep (MapCall.Proper key) := by
  refine Prog.eachStep_atomic _ _ _ (fun c s => ⟨rfl, ?_, ?_, ?_⟩) fun c s => hk _
  · intro call hcall hguarded
    rfl
  · intro _ call hcall
    exact (hnext _ call hcall).2 _
  · intro _
    right
    rintro (hmends | hagrees)
    · cases hmends
    · exact hagrees

theorem removeIndex_proper (guarded : Bool) (k : Unit → MapProg β)
    (hnext : ∀ call, (k ()).label? = some call → call.guarded = guarded ∧
      ∀ t : Slot, t.index = none → call.Expects t)
    (hk : (k ()).EachStep (MapCall.Proper key)) :
    (removeIndex key guarded >>= k).EachStep (MapCall.Proper key) := by
  refine step_proper key _ _ _ (fun c t => ⟨rfl, ?_, ?_, ?_⟩) fun _ _ => hk
  · intro call hcall hguarded
    rw [(hnext call hcall).1] at hguarded
    rw [hguarded]
    rfl
  · intro _ call hcall
    exact (hnext call hcall).2 _ rfl
  · intro _
    exact .inr fun _ => Slot.agrees_of_index _ rfl

theorem insert_proper (call : MapCall) (hcall : call = .insert ∨ call = .remove)
    (f : Clock → Slot → α × Slot) (hf : ∀ c t, (f c t).2.index = t.index) (g : α → β) :
    (Prog.atomic call (fun c s => s.atKey key (f c)) >>= fun a => pure (g a)).EachStep
      (MapCall.Proper key) := by
  refine step_proper key _ _ _ (fun c t => ⟨?_, ?_, ?_, ?_⟩) fun _ _ => trivial
  · rcases hcall with rfl | rfl <;> exact hf c t
  · intro call' h
    cases h
  · intro _ call' h
    cases h
  · intro hexpects
    have hnone : t.index = none := by rcases hcall with rfl | rfl <;> exact hexpects
    exact .inr fun _ => Slot.agrees_of_index _ (by rw [hf, hnone])

theorem leads_block (t t' : Slot) (next : Option MapCall) (hindex : t'.index = t.index)
    (hnext : ∀ call, next = some call → call.Expects t')
    (hagrees : (∃ call, next = some call ∧ call.mends = true) ∨ (t.Agrees → t'.Agrees)) :
    MapCall.block.Leads t t' next where
  does := hindex
  locks _ _ _ := rfl
  expects _ := hnext
  agrees _ := by
    refine hagrees.imp_right fun h => ?_
    rintro (hmends | ht)
    · cases hmends
    · exact h ht

theorem leads_looked (t : Slot) (next : Option MapCall)
    (hnext : ∀ call, next = some call → call.Expects t) : MapCall.block.Leads t t next :=
  leads_block t t next rfl hnext (.inr id)

theorem leads_done (t t' : Slot) (hindex : t'.index = t.index) (hagrees : t.Agrees → t'.Agrees) :
    MapCall.block.Leads t t' none := by
  refine leads_block t t' none hindex (fun call hcall => ?_) (.inr hagrees)
  cases hcall

/-- What follows a removal from the index without the lock. -/
theorem follows_expects (call call' : MapCall) (hcall : call.follows = true)
    (h : some call = some call') :
    call'.guarded = false ∧ ∀ t : Slot, t.index = none → call'.Expects t := by
  cases h
  cases call with
  | insert => exact ⟨rfl, fun t ht => ht⟩
  | remove => exact ⟨rfl, fun t ht => ht⟩
  | _ => cases hcall

theorem delete_proper (purging : Bool) :
    ((Concurrent.delete purging key).relabel MapCall.ofStep).EachStep (MapCall.Proper key) := by
  rw [Concurrent.delete, Prog.relabel_bind]
  refine get_proper key (fun c s => (s.slot key).seen c fun _ _ => ()) _ (fun seen call hcall => ?_)
    fun seen => ?_
  · obtain rfl : call = .removeIndex false := by cases seen <;> cases hcall <;> rfl
    exact ⟨rfl, fun _ => trivial⟩
  · cases seen with
    | expired =>
      rw [Prog.relabel_bind]
      refine removeIndex_proper key false _
        (fun call hcall => follows_expects .remove call rfl hcall) ?_
      rw [Prog.relabel_bind]
      exact insert_proper key .remove (.inr rfl) _ (fun _ _ => rfl) fun _ => false
    | _ =>
      rw [Prog.relabel_bind]
      refine removeIndex_proper key false _
        (fun call hcall => follows_expects .remove call rfl hcall) ?_
      exact insert_proper key .remove (.inr rfl) _ (fun _ _ => rfl) id

theorem set_proper (value : ValueType) :
    ((Concurrent.set key value).relabel MapCall.ofStep).EachStep (MapCall.Proper key) := by
  rw [Concurrent.set, Prog.relabel_bind]
  refine removeIndex_proper key false _ (fun call hcall => follows_expects .insert call rfl hcall)
    ?_
  exact insert_proper key .insert (.inl rfl) _ (fun _ _ => rfl) id

/-- `incr_by` removes what has expired, or keeps the deadline that is there. -/
theorem incrEntry_agrees (c : Clock) (increment : I64) (t : Slot) :
    ((t.incrEntry c increment).1 = none ∧ (t.incrEntry c increment).2 = { t with entry := none }) ∨
      ∃ r, (t.incrEntry c increment).1 = some r ∧ (t.incrEntry c increment).2.index = t.index ∧
        (t.Agrees → (t.incrEntry c increment).2.Agrees) := by
  unfold Slot.incrEntry
  cases he : t.entry with
  | none => exact .inr ⟨_, rfl, rfl, Slot.Agrees.create t _ he⟩
  | some e =>
    simp only
    split_ifs with hexp
    · exact .inl ⟨rfl, rfl⟩
    · right
      cases hvalue : e.value.toInteger with
      | error err => exact ⟨_, rfl, rfl, id⟩
      | ok n =>
        simp only
        cases hadd : n.checkedAdd increment with
        | none => exact ⟨_, rfl, rfl, id⟩
        | some m => exact ⟨_, rfl, rfl, Slot.Agrees.update t e _ he rfl⟩

theorem incrBy_proper (increment : I64) :
    ((Concurrent.incrBy key increment).relabel MapCall.ofStep).EachStep (MapCall.Proper key) := by
  rw [Concurrent.incrBy, Prog.relabel_bind]
  refine step_proper key .block (fun c => Slot.incrEntry c increment) _ (fun c t => ?_)
    fun c t => ?_
  · rcases incrEntry_agrees c increment t with ⟨hresult, hslot⟩ | ⟨r, hresult, hindex, hagrees⟩
    · rw [hresult, hslot]
      refine leads_block t _ _ rfl (fun call hcall => ?_) (.inl ⟨_, rfl, rfl⟩)
      cases hcall
      trivial
    · rw [hresult]
      exact leads_done t _ hindex hagrees
  · generalize (t.incrEntry c increment).1 = result
    cases result with
    | some r => trivial
    | none =>
      rw [Prog.relabel_bind]
      refine removeIndex_proper key false _
        (fun call hcall => follows_expects .insert call rfl hcall) ?_
      rw [Prog.relabel_bind]
      exact insert_proper key .insert (.inl rfl) _ (fun _ _ => rfl) fun _ => Except.ok increment

/-! The calls that write the index under the lock. -/

theorem insertIndex_proper (deadline : Int) (unwritten : Bool) (k : Unit → MapProg β)
    (hnext : (k ()).label? = if unwritten then some (.write (some deadline)) else none)
    (hk : (k ()).EachStep (MapCall.Proper key)) :
    (insertIndex key deadline unwritten >>= k).EachStep (MapCall.Proper key) := by
  refine step_proper key _ _ _ (fun c t => ⟨rfl, ?_, ?_, ?_⟩) fun _ _ => hk
  · intro call hcall hguarded
    rfl
  · intro _ call hcall
    rw [hnext] at hcall
    split_ifs at hcall
    cases hcall
    intro d hd
    exact hd
  · intro hexpects
    cases unwritten with
    | true => exact .inl ⟨_, hnext, rfl⟩
    | false =>
      right
      intro _ d hd
      cases hd
      exact hexpects

theorem write_proper (resolved : Option Int) (stored : StoredValue)
    (hstored : stored.expiresAt = resolved) (b : β) :
    (write key resolved stored >>= fun _ => pure b).EachStep (MapCall.Proper key) := by
  refine step_proper key _ _ _ (fun c t => ⟨?_, ?_, ?_, ?_⟩) fun _ _ => trivial
  · exact ⟨rfl, congrArg some hstored⟩
  · intro call hcall
    cases hcall
  · intro _ call hcall
    cases hcall
  · intro hexpects
    right
    intro _ d hd
    rw [← hexpects d hd, ← hstored]
    rfl

theorem index_proper (resolved : Option Int) (stored : StoredValue)
    (hstored : stored.expiresAt = resolved) (b : β) :
    (index key resolved >>= fun _ => write key resolved stored >>= fun _ => pure b).EachStep
      (MapCall.Proper key) := by
  cases resolved with
  | some d => exact insertIndex_proper key d true _ rfl (write_proper key (some d) stored hstored b)
  | none =>
    refine removeIndex_proper key true _ (fun call hcall => ?_)
      (write_proper key none stored hstored b)
    cases hcall
    refine ⟨rfl, fun t ht d hd => ?_⟩
    rw [ht] at hd
    cases hd

theorem setBlock_cases (c : Clock) (value : ValueType) (resolved : Option Int)
    (existence : SetExistence) (t : Slot) :
    (∃ previous, t.setBlock c value resolved existence =
      (.inr (previous, Slot.storedWith c value resolved), t)) ∨
      ∃ outcome, (t.setBlock c value resolved existence).1 = .inl outcome ∧
        (t.setBlock c value resolved existence).2.index = t.index ∧
        (t.Agrees → (t.setBlock c value resolved existence).2.Agrees) := by
  unfold Slot.setBlock
  cases he : t.entry with
  | none =>
    cases existence with
    | onlyIfExists => exact .inr ⟨_, rfl, rfl, id⟩
    | _ =>
      cases resolved with
      | some d => exact .inl ⟨_, rfl⟩
      | none => exact .inr ⟨_, rfl, rfl, Slot.Agrees.create t _ he⟩
  | some e =>
    simp only
    split_ifs
    · exact .inl ⟨_, rfl⟩
    · exact .inl ⟨_, rfl⟩
    · exact .inr ⟨_, rfl, rfl, id⟩
    · exact .inr ⟨_, rfl, rfl, id⟩

theorem setResolved_proper (value : ValueType) (resolved : Option Int) (existence : SetExistence) :
    (setResolved key value resolved existence).EachStep (MapCall.Proper key) := by
  refine step_proper key .block _ _ (fun c t => ?_) fun c t => ?_
  · rcases setBlock_cases c value resolved existence t with
        ⟨previous, h⟩ | ⟨outcome, hresult, hindex, hagrees⟩
    · rw [h]
      refine leads_looked t _ fun call hcall => ?_
      cases resolved <;> cases hcall <;> trivial
    · rw [hresult]
      exact leads_done t _ hindex hagrees
  · rcases setBlock_cases c value resolved existence t with ⟨previous, h⟩ | ⟨outcome, hresult, -, -⟩
    · rw [h]
      exact index_proper key resolved _ (Slot.expiresAt_storedWith c value resolved) _
    · rw [hresult]
      trivial

theorem setWithOptions_proper (value : ValueType) (ttl : SetTtlOption) (existence : SetExistence) :
    (setWithOptions key value ttl existence).EachStep (MapCall.Proper key) := by
  cases ttl with
  | none => exact setResolved_proper key value none existence
  | «at» d => exact setResolved_proper key value (some d) existence
  | keepTtl =>
    rw [setWithOptions, Concurrent.resolveTtl, Prog.relabel_bind, Prog.bind_assoc]
    refine get_proper key (fun c s => (s.slot key).seen c fun _ e => e.expiresAt) _
      (fun seen call hcall => ?_) fun seen => ?_
    · obtain rfl : call = .block := by cases seen <;> cases hcall <;> rfl
      exact ⟨rfl, fun _ => trivial⟩
    · cases seen <;> exact setResolved_proper key value _ existence

theorem expireAtWithOptions_proper (deadline : Int) (flag : ExpireFlag) :
    (expireAtWithOptions key deadline flag).EachStep (MapCall.Proper key) := by
  refine step_proper key .block _ _ (fun c t => ?_) fun c t => ?_
  · unfold Slot.expireBlock
    cases he : t.entry with
    | none => exact leads_done t t rfl id
    | some e =>
      simp only
      split_ifs
      · refine leads_looked t _ fun call hcall => ?_
        cases hcall
        trivial
      · refine leads_block t _ _ rfl (fun call hcall => ?_) (.inl ⟨_, rfl, rfl⟩)
        cases hcall
        rfl
      · exact leads_done t t rfl id
  · generalize (t.expireBlock c deadline flag).1 = seen
    rcases seen with _ | _ | _ | _
    · trivial
    · exact (delete_proper key true).map _ fun _ => false
    · trivial
    · exact insertIndex_proper key deadline false _ rfl trivial

theorem persist_proper : (persist key).EachStep (MapCall.Proper key) := by
  refine step_proper key .block _ _ (fun c t => ?_) fun c t => ?_
  · unfold Slot.persistBlock
    cases he : t.entry with
    | none => exact leads_done t t rfl id
    | some e =>
      simp only
      split_ifs
      · refine leads_looked t _ fun call hcall => ?_
        cases hcall
        trivial
      · refine leads_block t _ _ rfl (fun call hcall => ?_) (.inl ⟨_, rfl, rfl⟩)
        cases hcall
        trivial
  · generalize (t.persistBlock c).1 = seen
    rcases seen with _ | _ | had
    · trivial
    · exact (delete_proper key true).map _ fun _ => false
    · refine removeIndex_proper key true _ (fun call hcall => ?_) trivial
      cases hcall

theorem WriterCall.body_proper (call : WriterCall) :
    (call.body key).EachStep (MapCall.Proper key) := by
  cases call with
  | set value => exact set_proper key value
  | setWithOptions value ttl existence =>
    exact (setWithOptions_proper key value ttl existence).map _ fun _ => ()
  | expireAtWithOptions deadline flag =>
    exact (expireAtWithOptions_proper key deadline flag).map _ fun _ => ()
  | persist => exact (persist_proper key).map _ fun _ => ()
  | delete =>
    simp only [body, program, once]
    rw [Prog.relabel_bind]
    exact (delete_proper key false).map _ fun _ => ()
  | incrBy increment =>
    simp only [body, program, once]
    rw [Prog.relabel_bind]
    exact (incrBy_proper key increment).map _ fun _ => ()

end Programs

/-! ## Any number of clients -/

/--
What every run keeps: each client finds what its next call expects, one of them at most holds the
entry, and if the two maps differ then some client is about to bring them together.
-/
structure IndexClients.Inv (key : String) (s : IndexClients) : Prop where
  proper : ∀ p ∈ s.threads, p.EachStep (MapCall.Proper key)
  outlined : s.Outlined (MapCall.pre key) MapCall.Free
  exclusive : s.Exclusive MapCall.guarded
  repaired : s.Repaired (fun store => (store.slot key).Agrees) fun call => call.mends = true

section Run

variable (key : String)

theorem WriterCall.body_starts (call : WriterCall) (first : MapCall)
    (h : (call.body key).label? = some first) : first.guarded = false ∧ ∀ t, first.Expects t := by
  have hfirst : first = .removeIndex false ∨ first = .get ∨ first = .block := by
    cases call with
    | set value => exact .inl (Option.some.inj h).symm
    | delete => exact .inr (.inl (Option.some.inj h).symm)
    | setWithOptions value ttl existence =>
      cases ttl with
      | keepTtl => exact .inr (.inl (Option.some.inj h).symm)
      | _ => exact .inr (.inr (Option.some.inj h).symm)
    | _ => exact .inr (.inr (Option.some.inj h).symm)
  rcases hfirst with rfl | rfl | rfl <;> exact ⟨rfl, fun _ => trivial⟩

theorem WriterCall.body_sound (call : WriterCall) :
    (call.body key).Sound (MapCall.pre key) MapCall.Free where
  holds _ _ first h := (call.body_starts key first h).2 _
  outlined := by
    refine Prog.EachStep.outlined _ _ _ ((call.body_proper key).imp ?_)
    intro l effect next h c s hpre
    exact ⟨fun l' hfree => (h c s).does.keeps l l' _ _ hfree, (h c s).expects hpre⟩

theorem IndexClients.free_of_undisturbed (a : IndexAct) (s : IndexClients)
    (hs : s.Exclusive MapCall.guarded)
    (hblocked : s.blocked MapCall.guarded MapCall.waits a = false) (h : s.undisturbed a = true) :
    s.Free MapCall.Free a := by
  intro call c hcall call' hcall'
  refine ⟨fun hguarded => ?_, fun hfollows => ?_⟩
  · by_contra hne
    have hwaits : call.waits = true := by simpa [MapCall.waits] using hne
    rw [hs.others a s hblocked call c hcall (.inl hwaits) call' hcall'] at hguarded
    cases hguarded
  · rw [undisturbed, hcall, Option.all_some] at h
    by_contra hindexes
    rw [Bool.not_eq_false] at hindexes
    rw [hindexes, Bool.not_true, Bool.false_or] at h
    have := List.all_eq_true.mp h call' hcall'
    rw [hfollows] at this
    cases this

theorem IndexClients.Inv.step (a : IndexAct) (s s' : IndexClients) (hs : s.Inv key)
    (h : s.undisturbed a = true) (hstep : IndexClients.step key a s = some s') : s'.Inv key := by
  have hlock := hstep
  obtain ⟨hblocked, hstep⟩ := Pool.lockStep_eq_some _ _ a s s' hstep
  have hfree := IndexClients.free_of_undisturbed a s hs.exclusive hblocked h
  refine ⟨?_, ?_, ?_, ?_⟩
  · exact Pool.eachStep_step _ _ _ (WriterCall.body_proper key) a s s' hs.proper hstep
  · exact hs.outlined.step _ _ (fun _ _ _ _ _ hpre => hpre) (WriterCall.body_sound key) a s s' hfree
      hstep
  · refine hs.exclusive.step _ _ (fun call first hfirst => (call.body_starts key first hfirst).1) a
      s s' ?_ hlock
    exact fun p hp => (hs.proper p hp).imp fun l effect next hproper c s => (hproper c s).locks
  · refine hs.repaired.step _ _ (fun _ _ _ _ _ hpre => hpre) a s s' hs.outlined ?_ hstep
    exact fun p hp => (hs.proper p hp).imp fun l effect next hproper c s => (hproper c s).agrees

theorem IndexClients.inv_idle (n : Nat) (c : Clock) (store : MemoryStore)
    (h : (store.slot key).Agrees) : IndexClients.Inv key (.idle n c store) where
  proper p hp := by
    rw [List.eq_of_mem_replicate hp]
    trivial
  outlined := Pool.outlined_idle n c store
  exclusive := Pool.exclusive_idle n c store
  repaired := .inl h

end Run

/-- All calls have returned. -/
def IndexClients.returned (s : IndexClients) : Bool := s.threads.all fun p => p.label?.isNone

theorem IndexClients.stands_of_returned (s : IndexClients) (h : s.returned = true) (i : Nat) :
    s.stands i = none := by
  unfold Pool.stands
  cases hi : s.threads[i]? with
  | none => rfl
  | some p =>
    have := List.all_eq_true.mp h p (List.mem_of_getElem? hi)
    rwa [Option.isNone_iff_eq_none] at this

/--
Any number of clients that write one key, in any order of their steps: where no deadline goes into
the index while another client is between its removal from the index and its call on `data`,
`cleanup_expired` then takes the key only if its deadline is not in the future.
-/
theorem cleanup_takes_only_ended (key : String) (n : Nat) (c₀ : Clock) (store : MemoryStore)
    (hstore : (store.slot key).Agrees) (acts : List IndexAct) (s : IndexClients)
    (hundisturbed : Along (IndexClients.step key) (fun a s => s.undisturbed a = true) acts
      (.idle n c₀ store))
    (hrun : run (IndexClients.step key) acts (.idle n c₀ store) = some s)
    (hreturned : s.returned = true) (c : Clock) (order : IterOrder Int) (e : StoredValue)
    (he : s.shared.data.lookup key = some e)
    (hremoved : (s.shared.cleanupExpired c order).2.data.lookup key = none) :
    ∃ d, e.expiresAt = some d ∧ d ≤ c.now := by
  have hinv := invariant _ _ (IndexClients.Inv key)
    (fun a s s' hs h hstep => hs.step key a s s' h hstep) acts _ s hundisturbed hrun
    (IndexClients.inv_idle key n c₀ store hstore)
  have hagrees : (s.shared.slot key).Agrees :=
    hinv.repaired.of_done s (s.stands_of_returned hreturned)
  have hafter := congrArg Slot.entry (MemoryStore.slot_cleanupExpired c order s.shared key)
  change (s.shared.cleanupExpired c order).2.data.lookup key = _ at hafter
  rw [hremoved] at hafter
  split_ifs at hafter with hindex
  · obtain ⟨d, hd, hle⟩ := hindex
    have hdeadline := hagrees d hd
    change (s.shared.data.lookup key).map _ = _ at hdeadline
    rw [he, Option.map_some, Option.some.injEq] at hdeadline
    exact ⟨d, hdeadline, hle⟩
  · change none = s.shared.data.lookup key at hafter
    rw [he] at hafter
    cases hafter

/-- A client takes its next steps. -/
def IndexAct.steps (i n : Nat) : List IndexAct := List.replicate n (.step i Env.sample.clock)

/-- A permanent key that one client sets again and another gives a deadline. -/
def setAndExpire : List IndexAct :=
  .call 0 (.set (.integer incrAmount)) :: IndexAct.steps 0 2 ++
    [.call 0 (.set (.integer decrAmount)), .call 1 (.expireAtWithOptions (200 * nanosPerSec) .none)]

/-- The deadline is set after the key: what is taken at second 201 has ended. -/
theorem expire_last_ended : ∃ s e,
    run (IndexClients.step "k") (setAndExpire ++ IndexAct.steps 0 2 ++ IndexAct.steps 1 2)
      (.idle 2 Env.sample.clock .new) = some s ∧ s.returned = true ∧
        s.shared.data.lookup "k" = some e ∧
    (s.shared.cleanupExpired (.ofSecs 201 (by decide)) (.sorted _)).2.data.lookup "k" = none ∧
    ∃ d, e.expiresAt = some d ∧ d ≤ (Clock.ofSecs 201 (by decide)).now := by
  refine ⟨_, _, rfl, rfl, rfl, by decide +kernel, ?_⟩
  exact cleanup_takes_only_ended "k" 2 Env.sample.clock .new (Slot.agrees_of_index _ rfl)
    (setAndExpire ++ IndexAct.steps 0 2 ++ IndexAct.steps 1 2) _
    (along_of_check _ _ _ _ (by decide +kernel)) rfl rfl _ (.sorted _) _ rfl (by decide +kernel)

/--
The deadline goes into the index between the two calls of `set`: what is stored is permanent, and is
taken.
-/
theorem permanent_key_taken : ∃ s e,
    run (IndexClients.step "k")
      (setAndExpire ++ IndexAct.steps 0 1 ++ IndexAct.steps 1 2 ++ IndexAct.steps 0 1)
      (.idle 2 Env.sample.clock .new) = some s ∧ s.returned = true ∧
        s.shared.data.lookup "k" = some e ∧
    e.expiresAt = none ∧
    (s.shared.cleanupExpired (.ofSecs 201 (by decide)) (.sorted _)).2.data.lookup "k" = none :=
  ⟨_, _, rfl, rfl, rfl, rfl, by decide +kernel⟩

end RustyPotato
