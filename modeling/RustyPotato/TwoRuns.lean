import RustyPotato.Registry

/-!
# Two runs of one command

A command that names its keys does the same in two stores that agree on what it can see under these
keys: it gives the same reply, and the stores still agree. What it can see is an unexpired entry,
and no more.
-/

namespace RustyPotato

open Cmd Parse

/-! ## Arguments that could be read -/

namespace Parse

variable {α β : Type}

theorem guard_eq_ok (c : Prop) [Decidable c] (e : String) (p : Parse α) (a : α)
    (h : (if c then throw e else p) = some (.ok a)) : p = some (.ok a) := by
  split_ifs at h
  · cases h
  · exact h

theorem argText_eq_ok (b : Bytes) (text : String) (h : argText b = some (.ok text)) :
    fromUtf8 b = some text := by
  unfold argText at h
  split at h
  · rename_i text' htext
    cases h
    exact htext
  · cases h

theorem argStr_zero_eq_ok (args : List Bytes) (key : String) (h : argStr args 0 = some (.ok key)) :
    args.head?.bind fromUtf8 = some key := by
  obtain ⟨b, hb, hkey⟩ := (bind_eq_ok _ _ _).mp h
  cases args with
  | nil => cases hb
  | cons a args =>
    cases hb
    exact argText_eq_ok _ key hkey

end Parse

/-! ## Rules for two runs -/

namespace Cmd

variable {α α' β β' γ γ' : Type} (R : MemoryStore → MemoryStore → Prop)

/-- Both panic, both fail alike, or both end with related results; and the stores are related. -/
inductive Alike (Q : α → α' → Prop) :
    Option (Except String α × MemoryStore) → Option (Except String α' × MemoryStore) → Prop
  | panic : Alike Q none none
  | ok (a : α) (a' : α') (t t' : MemoryStore) (ha : Q a a') (ht : R t t') :
    Alike Q (some (.ok a, t)) (some (.ok a', t'))
  | error (e : String) (t t' : MemoryStore) (ht : R t t') : Alike Q (some (.error e, t))
    (some (.error e, t'))

def Relates (m : Cmd α) (m' : Cmd α') (Q : α → α' → Prop) : Prop :=
  ∀ s s', R s s' → Alike R Q (m.run s) (m'.run s')

variable {R} {Q : α → α' → Prop}

theorem relates_pure (a : α) (a' : α') (h : Q a a') : Relates R (pure a) (pure a') Q :=
  fun s s' hs => .ok a a' s s' h hs

theorem relates_fail (e : String) : Relates R (fail e) (fail e) Q := fun s s' hs => .error e s s' hs

theorem relates_bind (m : Cmd α) (m' : Cmd α') (f : α → Cmd β) (f' : α' → Cmd β')
    (P : β → β' → Prop) (hm : Relates R m m' Q) (hf : ∀ a a', Q a a' → Relates R (f a) (f' a') P) :
    Relates R (m >>= f) (m' >>= f') P := by
  intro s s' hs
  have hfirst := hm s s' hs
  rw [run_bind, run_bind]
  generalize m.run s = x, m'.run s' = x' at hfirst
  cases hfirst with
  | panic => exact .panic
  | ok a a' t t' ha ht => exact hf a a' ha t t' ht
  | error e t t' ht => exact .error e t t' ht

theorem relates_lift_bind (p : Parse α) (f : α → Cmd β) (f' : α → Cmd β') (P : β → β' → Prop)
    (hf : ∀ a, p = some (.ok a) → Relates R (f a) (f' a) P) :
    Relates R (lift p >>= f) (lift p >>= f') P := by
  intro s s' hs
  match p with
  | none => exact .panic
  | some (.error e) => exact .error e s s' hs
  | some (.ok a) => exact hf a rfl s s' hs

theorem relates_foldlM (body : γ → β → Cmd γ) (body' : γ' → β → Cmd γ') (P : γ → γ' → Prop)
    (items : List β) (hbody : ∀ b ∈ items, ∀ acc acc', P acc acc' →
      Relates R (body acc b) (body' acc' b) P) (acc : γ) (acc' : γ')
    (hacc : P acc acc') : Relates R (items.foldlM body acc) (items.foldlM body' acc') P := by
  induction items generalizing acc acc' with
  | nil => exact relates_pure acc acc' hacc
  | cons b items ih =>
    rw [List.foldlM_cons, List.foldlM_cons]
    refine relates_bind _ _ _ _ P (hbody b List.mem_cons_self acc acc' hacc) fun acc acc' hacc => ?_
    exact ih (fun b hb => hbody b (List.mem_cons_of_mem _ hb)) acc acc' hacc

/-- The results may differ as far as nothing is made of the difference. -/
theorem relates_eachText (Q : α → α → Prop) (m : String → Cmd α) (g : γ → α → γ)
    (hg : ∀ acc a a', Q a a' → g acc a = g acc a') (args : List Bytes)
    (hm : ∀ b ∈ args, ∀ text, fromUtf8 b = some text → Relates R (m text) (m text) Q) (acc : γ) :
    Relates R (eachText m g args acc) (eachText m g args acc) Eq := by
  refine relates_foldlM _ _ Eq args (fun b hb acc acc' hacc => ?_) acc acc rfl
  subst hacc
  refine relates_lift_bind _ _ _ Eq fun text htext => ?_
  refine relates_bind _ _ _ _ Eq (hm b hb text (argText_eq_ok b text htext)) fun r r' hr => ?_
  exact relates_pure _ _ (hg acc r r' hr)

end Cmd

/-! ## Operations that cannot see an expired entry -/

namespace Slot

variable {α β : Type} (c : Clock)

/-- The result and what can be seen afterwards follow from what could be seen before. -/
def Blind (f : Slot → α × Slot) : Prop :=
  ∀ t t', t.unexpired c = t'.unexpired c →
    (f t).1 = (f t').1 ∧ (f t).2.unexpired c = (f t').2.unexpired c

/-- The index is not looked at, and an expired entry is treated like none. -/
structure IgnoresExpired (f : Slot → α × Slot) : Prop where
  vacant : ∀ i, (f ⟨none, i⟩).1 = (f empty).1 ∧
    (f ⟨none, i⟩).2.unexpired c = (f empty).2.unexpired c
  expired : ∀ e i, e.isExpired c = true →
    (f ⟨some e, i⟩).1 = (f empty).1 ∧ (f ⟨some e, i⟩).2.unexpired c = (f empty).2.unexpired c
  alive : ∀ e i, e.isExpired c = false →
    (f ⟨some e, i⟩).1 = (f ⟨some e, none⟩).1 ∧
    (f ⟨some e, i⟩).2.unexpired c = (f ⟨some e, none⟩).2.unexpired c

theorem IgnoresExpired.reduce (f : Slot → α × Slot) (h : IgnoresExpired c f) (t : Slot) :
    (f t).1 = (f ⟨t.unexpired c, none⟩).1 ∧
      (f t).2.unexpired c = (f ⟨t.unexpired c, none⟩).2.unexpired c := by
  obtain ⟨_ | e, i⟩ := t
  · exact h.vacant i
  · cases hx : e.isExpired c with
    | true =>
      rw [unexpired_expired c e i hx]
      exact h.expired e i hx
    | false =>
      rw [unexpired_alive c e i hx]
      exact h.alive e i hx

theorem IgnoresExpired.blind (f : Slot → α × Slot) (h : IgnoresExpired c f) : Blind c f := by
  intro t t' ht
  obtain ⟨hresult, hslot⟩ := h.reduce c f t
  obtain ⟨hresult', hslot'⟩ := h.reduce c f t'
  rw [ht] at hresult hslot
  exact ⟨hresult.trans hresult'.symm, hslot.trans hslot'.symm⟩

theorem blind_get : Blind c (get c) := by
  intro t t' ht
  simp only [get, unexpired_purge, ht, and_self]

theorem blind_existsKey : Blind c (existsKey c) := by
  intro t t' ht
  simp only [existsKey, unexpired_purge, ht, and_self]

theorem blind_ttl : Blind c (ttl c) := by
  intro t t' ht
  simp only [ttl, unexpired_purge, ht, and_self]

theorem blind_pttl : Blind c (pttl c) := by
  intro t t' ht
  simp only [pttl, unexpired_purge, ht, and_self]

theorem blind_readHash (operation : String) (missing : α) (read : Hash → α) :
    Blind c (readHash c operation missing read) := by
  intro t t' ht
  simp only [readHash, unexpired_purge, ht, and_self]

theorem blind_set (value : ValueType) : Blind c fun t => ((), t.set c value) := by
  intro t t' _
  exact ⟨rfl, rfl⟩

theorem blind_delete : Blind c (delete c) := by
  refine IgnoresExpired.blind c _ ⟨fun i => ⟨rfl, rfl⟩, fun e i h => ?_, fun e i h => ⟨rfl, rfl⟩⟩
  simp [delete, h, empty]

theorem blind_expireAtWithOptions (deadline : Int) (flag : ExpireFlag) :
    Blind c (expireAtWithOptions c deadline flag) := by
  refine IgnoresExpired.blind c _ ⟨fun i => ⟨rfl, rfl⟩, fun e i h => ?_, fun e i h => ?_⟩
  · simp [expireAtWithOptions, delete, h, empty]
  · simp only [expireAtWithOptions, h, Bool.false_eq_true, if_false]
    split_ifs <;> exact ⟨rfl, rfl⟩

theorem blind_incrBy (increment : I64) : Blind c (incrBy c increment) := by
  refine IgnoresExpired.blind c _ ⟨fun i => ⟨rfl, rfl⟩, fun e i h => ?_, fun e i h => ?_⟩
  · simp only [incrBy, h, if_true, empty, and_self]
  · simp only [incrBy, h, Bool.false_eq_true, if_false]
    split
    · exact ⟨rfl, rfl⟩
    · split <;> exact ⟨rfl, rfl⟩

theorem blind_hset (field value : String) : Blind c (hset c field value) := by
  refine IgnoresExpired.blind c _ ⟨fun i => ⟨rfl, rfl⟩, fun e i h => ?_, fun e i h => ?_⟩
  · simp only [hset, purge, h, if_true, empty, and_self]
  · simp only [hset, purge, h, Bool.false_eq_true, if_false]
    split <;> exact ⟨rfl, rfl⟩

theorem blind_hdel (field : String) : Blind c (hdel c field) := by
  refine IgnoresExpired.blind c _ ⟨fun i => ⟨rfl, rfl⟩, fun e i h => ?_, fun e i h => ?_⟩
  · simp [hdel, delete, h, empty]
  · simp only [hdel, h, Bool.false_eq_true, if_false]
    split
    · split_ifs <;> exact ⟨rfl, rfl⟩
    · exact ⟨rfl, rfl⟩

theorem blind_setWithOptions (value : ValueType) (ttl : SetTtlOption) (existence : SetExistence) :
    Blind c (setWithOptions c value ttl existence) := by
  refine IgnoresExpired.blind c _ ⟨fun i => ?_, fun e i h => ?_, fun e i h => ?_⟩
  · cases existence <;> exact ⟨rfl, rfl⟩
  · cases existence <;> cases ttl <;>
      simp [setWithOptions, resolveTtl, allows, h, empty, unexpired_expired]
  · simp only [setWithOptions, resolveTtl, h]
    split_ifs <;> exact ⟨rfl, rfl⟩

/-- The operations whose results show no entry. -/
inductive Plain : {α : Type} → (Slot → α × Slot) → Prop
  | existsKey : Plain (existsKey c)
  | ttl : Plain (ttl c)
  | pttl : Plain (pttl c)
  | readHash {α : Type} (operation : String) (missing : α) (read : Hash → α) :
    Plain (readHash c operation missing read)
  | set (value : ValueType) : Plain fun t => ((), t.set c value)
  | delete : Plain (delete c)
  | expireAt (deadline : Int) (flag : ExpireFlag) : Plain (expireAtWithOptions c deadline flag)
  | incrBy (increment : I64) : Plain (incrBy c increment)
  | hset (field value : String) : Plain (hset c field value)
  | hdel (field : String) : Plain (hdel c field)

theorem Plain.blind (f : Slot → α × Slot) (h : Plain c f) : Blind c f := by
  cases h with
  | existsKey => exact blind_existsKey c
  | ttl => exact blind_ttl c
  | pttl => exact blind_pttl c
  | readHash operation missing read => exact blind_readHash c operation missing read
  | set value => exact blind_set c value
  | delete => exact blind_delete c
  | expireAt deadline flag => exact blind_expireAtWithOptions c deadline flag
  | incrBy increment => exact blind_incrBy c increment
  | hset field value => exact blind_hset c field value
  | hdel field => exact blind_hdel c field

end Slot

/-! ## Stores that agree under some keys -/

/--
Operations that are blind to expired entries keep the stores related when they act under these keys.
-/
structure KeyRel (c : Clock) (K : String → Prop) (R : MemoryStore → MemoryStore → Prop) : Prop where
  atKey : ∀ key, K key → ∀ {α : Type} (f : Slot → α × Slot), Slot.Blind c f → ∀ s s', R s s' →
    (f (s.slot key)).1 = (f (s'.slot key)).1 ∧
    R (s.put key (f (s.slot key)).2) (s'.put key (f (s'.slot key)).2)

/-- Under this key the operation keeps the stores related, and its results are. -/
def OneKey {α : Type} (R : MemoryStore → MemoryStore → Prop) (key : String) (f : Slot → α × Slot)
    (Q : α → α → Prop) : Prop :=
  ∀ s s', R s s' →
    Q (f (s.slot key)).1 (f (s'.slot key)).1 ∧
    R (s.put key (f (s.slot key)).2) (s'.put key (f (s'.slot key)).2)

def SetOutcome.Alike (V : StoredValue → StoredValue → Prop) (r r' : SetOutcome) : Prop :=
  r.applied = r'.applied ∧ Option.Rel V r.previous r'.previous

/-- What two runs need of the operations. Entries that come out of the store are related by `V`. -/
structure KeyOps (c : Clock) (K : String → Prop) (R : MemoryStore → MemoryStore → Prop)
    (V : StoredValue → StoredValue → Prop) : Prop where
  plain : ∀ key, K key → ∀ {α : Type} (f : Slot → α × Slot), Slot.Plain c f → OneKey R key f Eq
  get : ∀ key, K key → OneKey R key (Slot.get c) (Option.Rel V)
  setWithOptions : ∀ key, K key → ∀ value ttl existence,
    OneKey R key (Slot.setWithOptions c value ttl existence) (SetOutcome.Alike V)
  shown : ∀ e e', V e e' → printed e.value = printed e'.value

theorem Option.rel_of_eq {α : Type} (a b : Option α) (h : a = b) : Option.Rel Eq a b := by
  subst h
  cases a with
  | none => exact .none
  | some a => exact .some rfl

theorem KeyRel.ops (c : Clock) (K : String → Prop) (R : MemoryStore → MemoryStore → Prop)
    (h : KeyRel c K R) : KeyOps c K R Eq where
  plain key hkey _ f hf := h.atKey key hkey f (hf.blind c f)
  get key hkey s s' hs := by
    obtain ⟨hresult, hstore⟩ := h.atKey key hkey _ (Slot.blind_get c) s s' hs
    exact ⟨Option.rel_of_eq _ _ hresult, hstore⟩
  setWithOptions key hkey value ttl existence s s' hs := by
    obtain ⟨hresult, hstore⟩ :=
      h.atKey key hkey _ (Slot.blind_setWithOptions c value ttl existence) s s' hs
    exact ⟨⟨congrArg SetOutcome.applied hresult,
      Option.rel_of_eq _ _ (congrArg SetOutcome.previous hresult)⟩, hstore⟩
  shown e e' he := by rw [he]

section
variable {α α' β : Type} {c : Clock} {K : String → Prop} {R : MemoryStore → MemoryStore → Prop}
  (key : String)

theorem relates_atKey (f : Slot → α × Slot) (Q : α → α → Prop) (hf : OneKey R key f Q) :
    Relates R (Cmd.atKey key f) (Cmd.atKey key f) Q := by
  intro s s' hs
  obtain ⟨hresult, hstore⟩ := hf s s' hs
  exact .ok _ _ _ _ hresult hstore

theorem relates_tryAtKey_map (f : Slot → Except RustyPotatoError β × Slot) (hf : OneKey R key f Eq)
    (g : β → α) (g' : β → α') :
    Relates R (tryAtKey key fun t => ((f t).1.map g, (f t).2))
      (tryAtKey key fun t => ((f t).1.map g', (f t).2))
      fun a a' => ∃ b, a = g b ∧ a' = g' b := by
  intro s s' hs
  obtain ⟨hresult, hstore⟩ := hf s s' hs
  simp only [tryAtKey, MemoryStore.atKey, hresult]
  cases (f (s'.slot key)).1 with
  | error e => exact .error _ _ _ hstore
  | ok b => exact .ok _ _ _ _ ⟨b, rfl, rfl⟩ hstore

theorem relates_tryAtKey (f : Slot → Except RustyPotatoError α × Slot) (hf : OneKey R key f Eq) :
    Relates R (tryAtKey key f) (tryAtKey key f) Eq := by
  intro s s' hs
  obtain ⟨hresult, hstore⟩ := hf s s' hs
  simp only [tryAtKey, MemoryStore.atKey, hresult]
  cases (f (s'.slot key)).1 with
  | error e => exact .error _ _ _ hstore
  | ok a => exact .ok _ _ _ _ rfl hstore

end

/-! ## The keys that a command names -/

namespace Command

/-- All commands but those on the server and on every key at once. -/
def namesKeys : Command → Bool
  | ping | echo | dbsize | flushdb | info | keys | quit | bgrewriteaof | command _ => false
  | _ => true

/-- Arguments that are no text name no key. -/
def named (args : List Bytes) : Command → List String
  | del | exists_ | mget => args.filterMap fromUtf8
  | mset => (pairs args).filterMap fun p => fromUtf8 p.1
  | ping | echo | dbsize | flushdb | info | keys | quit | bgrewriteaof | command _ => []
  | _ => (args.head?.bind fromUtf8).toList

end Command

section FirstKey

variable (args : List Bytes)

theorem oneKey_first (name key : String) (h : oneKey name args = some (.ok key)) :
    args.head?.bind fromUtf8 = some key := argStr_zero_eq_ok _ _ (guard_eq_ok _ _ _ _ h)

theorem incrKey_first (name key : String) (h : incrKey name args = some (.ok key)) :
    args.head?.bind fromUtf8 = some key := argStr_zero_eq_ok _ _ (guard_eq_ok _ _ _ _ h)

theorem keyFields_first (name key : String) (h : keyFields name args = some (.ok key)) :
    args.head?.bind fromUtf8 = some key := argStr_zero_eq_ok _ _ (guard_eq_ok _ _ _ _ h)

theorem keyField_first (name : String) (r : String × String)
    (h : keyField name args = some (.ok r)) : args.head?.bind fromUtf8 = some r.1 := by
  obtain ⟨key, hkey, h⟩ := (bind_eq_ok _ _ _).mp (guard_eq_ok _ _ _ _ h)
  obtain ⟨field, -, h⟩ := (bind_eq_ok _ _ _).mp h
  cases h
  exact argStr_zero_eq_ok _ _ hkey

theorem hsetRequest_first (r : HsetRequest) (h : hsetRequest args = some (.ok r)) :
    args.head?.bind fromUtf8 = some r.key := by
  obtain ⟨key, hkey, h⟩ := (bind_eq_ok _ _ _).mp (guard_eq_ok _ _ _ _ h)
  cases h
  exact argStr_zero_eq_ok _ _ hkey

theorem setRequest_first (c : Clock) (r : SetRequest) (h : setRequest c args = some (.ok r)) :
    args.head?.bind fromUtf8 = some r.key := by
  obtain ⟨a, ha, h⟩ := (bind_eq_ok _ _ _).mp h
  obtain ⟨key, hkey, ha⟩ := (bind_eq_ok _ _ _).mp (guard_eq_ok _ _ _ _ ha)
  obtain ⟨value, -, ha⟩ := (bind_eq_ok _ _ _).mp ha
  obtain ⟨opts, -, ha⟩ := (bind_eq_ok _ _ _).mp ha
  obtain ⟨ttl, -, h⟩ := (bind_eq_ok _ _ _).mp h
  cases ha
  cases h
  exact argStr_zero_eq_ok _ _ hkey

theorem deadlineRequest_first (name : String) (resolve : Nat → Parse Int)
    (r : String × Int × ExpireFlag) (h : deadlineRequest name resolve args = some (.ok r)) :
    args.head?.bind fromUtf8 = some r.1 := by
  obtain ⟨request, hrequest, h⟩ := (bind_eq_ok _ _ _).mp h
  obtain ⟨deadline, -, h⟩ := (bind_eq_ok _ _ _).mp h
  cases h
  obtain ⟨key, hkey, hrequest⟩ := (bind_eq_ok _ _ _).mp (guard_eq_ok _ _ _ _ hrequest)
  obtain ⟨text, -, hrequest⟩ := (bind_eq_ok _ _ _).mp hrequest
  split at hrequest
  · cases hrequest
  · obtain ⟨flag, -, hrequest⟩ := (bind_eq_ok _ _ _).mp hrequest
    cases hrequest
    exact argStr_zero_eq_ok _ _ hkey

end FirstKey

/-! ## The commands -/

/-- The fields of a hash that two runs hand out, each in its own order. -/
def Command.SameReply (P : List (String × String) → List (String × String) → Prop) :
    Command → ResponseValue → ResponseValue → Prop
  | hgetall, r, r' => ∃ ps ps', P ps ps' ∧ r = .array (ps.flatMap fun p => [.text p.1, .text p.2]) ∧
      r' = .array (ps'.flatMap fun p => [.text p.1, .text p.2])
  | hkeys, r, r' =>
    ∃ ps ps', P ps ps' ∧ r = .array (ps.map fun p => .text p.1) ∧
      r' = .array (ps'.map fun p => .text p.1)
  | hvals, r, r' =>
    ∃ ps ps', P ps ps' ∧ r = .array (ps.map fun p => .text p.2) ∧
      r' = .array (ps'.map fun p => .text p.2)
  | _, r, r' => r = r'

theorem IterOrder.toList_empty {β : Type} (order : IterOrder β) : order.toList ∅ = [] := by
  refine List.eq_nil_of_length_eq_zero ?_
  rw [order.length_toList, Finmap.keys_empty, Finset.card_empty]

theorem Slot.hgetall_eq (c : Clock) (order : IterOrder String) (t : Slot) :
    t.hgetall c order = ((t.readHash c "hgetall" ∅ id).1.map order.toList,
      (t.readHash c "hgetall" ∅ id).2) := by
  unfold hgetall readHash
  cases t.unexpired c with
  | none => simp [Except.map, order.toList_empty]
  | some e => cases hv : e.value <;> simp only [hv] <;> rfl

section Commands

variable {c : Clock} {K : String → Prop} {R : MemoryStore → MemoryStore → Prop}
  {V : StoredValue → StoredValue → Prop} (hops : KeyOps c K R V) (env env' : Env)
  (henv : env.clock = c) (henv' : env'.clock = c) (args : List Bytes)

section
include henv henv'

/-- A command that does one thing under each key and folds the outcomes. -/
theorem eachKey_relates {α γ : Type} (name : String) (f : Clock → Slot → α × Slot)
    (Q : α → α → Prop) (hf : ∀ key, K key → OneKey R key (f c) Q) (g : γ → α → γ)
    (hg : ∀ acc a a', Q a a' → g acc a = g acc a') (acc : γ) (reply : γ → ResponseValue)
    (hkeys : ∀ key ∈ args.filterMap fromUtf8, K key) :
    Relates R (do
        lift (someArgs name args)
        let r ← eachText (fun key => Cmd.atKey key (f env.clock)) g args acc
        return reply r)
      (do
        lift (someArgs name args)
        let r ← eachText (fun key => Cmd.atKey key (f env'.clock)) g args acc
        return reply r) Eq := by
  rw [henv, henv']
  refine relates_lift_bind _ _ _ _ fun _ _ => ?_
  refine relates_bind _ _ _ _ _ (relates_eachText Q _ g hg args (fun b hb text htext => ?_) acc)
    fun r r' hr => ?_
  · exact relates_atKey text _ Q (hf text (hkeys text (List.mem_filterMap.mpr ⟨b, hb, htext⟩)))
  · exact relates_pure _ _ (congrArg reply hr)

/--
A command that reads its arguments, does one thing under its key, and makes a reply of the outcome.
-/
theorem oneOp_relates {α β : Type} (p : Parse β) (keyOf : β → String)
    (f : Clock → β → Slot → α × Slot) (Q : α → α → Prop)
    (hf : ∀ b, K (keyOf b) → OneKey R (keyOf b) (f c b) Q) (reply : β → α → Cmd ResponseValue)
    (hreply : ∀ b a a', Q a a' → Relates R (reply b a) (reply b a') Eq)
    (hkey : ∀ b, p = some (.ok b) → K (keyOf b)) :
    Relates R (lift p >>= fun b => Cmd.atKey (keyOf b) (f env.clock b) >>= reply b)
      (lift p >>= fun b => Cmd.atKey (keyOf b) (f env'.clock b) >>= reply b) Eq := by
  rw [henv, henv']
  refine relates_lift_bind _ _ _ _ fun b hb => ?_
  exact relates_bind _ _ _ _ _ (relates_atKey _ _ Q (hf b (hkey b hb))) (hreply b)

end

include hops henv henv'

/-- A command that does one thing under its key for each field. -/
theorem eachField_relates {α γ : Type} (name : String)
    (f : Clock → String → Slot → Except RustyPotatoError α × Slot)
    (hf : ∀ field, Slot.Plain c (f c field)) (g : γ → α → γ) (acc : γ) (reply : γ → ResponseValue)
    (hkey : ∀ key, args.head?.bind fromUtf8 = some key → K key) :
    Relates R (do
        let key ← lift (keyFields name args)
        let r ← eachText (fun field => tryAtKey key (f env.clock field)) g (args.drop 1) acc
        return reply r)
      (do
        let key ← lift (keyFields name args)
        let r ← eachText (fun field => tryAtKey key (f env'.clock field)) g (args.drop 1) acc
        return reply r) Eq := by
  rw [henv, henv']
  refine relates_lift_bind _ _ _ _ fun key h => ?_
  have hK := hkey key (keyFields_first args name key h)
  refine relates_bind _ _ _ _ _
    (relates_eachText Eq _ g (fun acc a a' ha => by rw [ha]) _ (fun b hb field _ => ?_) acc)
    fun r r' hr => ?_
  · exact relates_tryAtKey key _ (hops.plain key hK _ (hf field))
  · exact relates_pure _ _ (congrArg reply hr)

/-- As `oneOp_relates`, for an operation that shows no entry and a reply that is no error. -/
theorem onePlain_relates {α β : Type} (p : Parse β) (keyOf : β → String)
    (f : Clock → β → Slot → α × Slot) (hf : ∀ b, Slot.Plain c (f c b)) (reply : α → ResponseValue)
    (hkey : ∀ b, p = some (.ok b) → K (keyOf b)) :
    Relates R (lift p >>= fun b => Cmd.atKey (keyOf b) (f env.clock b) >>= fun a => pure (reply a))
      (lift p >>= fun b => Cmd.atKey (keyOf b) (f env'.clock b) >>= fun a => pure (reply a)) Eq :=
  oneOp_relates env env' henv henv' p keyOf f Eq (fun b hK => hops.plain _ hK _ (hf b)) _
    (fun _ _ _ ha => relates_pure _ _ (congrArg reply ha)) hkey

theorem oneTryOp_relates {α β : Type} (p : Parse β) (keyOf : β → String)
    (f : Clock → β → Slot → Except RustyPotatoError α × Slot) (hf : ∀ b, Slot.Plain c (f c b))
    (reply : α → ResponseValue)
    (hkey : ∀ b, p = some (.ok b) → K (keyOf b)) :
    Relates R (lift p >>= fun b => tryAtKey (keyOf b) (f env.clock b) >>= fun a => pure (reply a))
      (lift p >>= fun b => tryAtKey (keyOf b) (f env'.clock b) >>= fun a => pure (reply a)) Eq := by
  rw [henv, henv']
  refine relates_lift_bind _ _ _ _ fun b hb => ?_
  refine relates_bind _ _ _ _ _ (relates_tryAtKey _ _ (hops.plain _ (hkey b hb) _ (hf b)))
    fun a a' ha => ?_
  exact relates_pure _ _ (congrArg reply ha)

theorem wholeHash_relates (name : String) (reply : List (String × String) → ResponseValue)
    (Q : ResponseValue → ResponseValue → Prop)
    (hQ : ∀ h : Hash, Q (reply (env.hashOrder.toList h)) (reply (env'.hashOrder.toList h)))
    (hkey : ∀ key, args.head?.bind fromUtf8 = some key → K key) :
    Relates R (wholeHash name reply env args) (wholeHash name reply env' args) Q := by
  unfold wholeHash
  rw [henv, henv']
  refine relates_lift_bind _ _ _ _ fun key h => ?_
  have hread := hops.plain key (hkey key (oneKey_first args name key h)) _
    (.readHash "hgetall" ∅ id)
  rw [funext (Slot.hgetall_eq c env.hashOrder), funext (Slot.hgetall_eq c env'.hashOrder)]
  refine relates_bind _ _ _ _ _ (relates_tryAtKey_map key _ hread _ _) ?_
  rintro _ _ ⟨g, rfl, rfl⟩
  exact relates_pure _ _ (hQ g)

end Commands

/-! ## What the replies show of an entry -/

section Shown

variable {R : MemoryStore → MemoryStore → Prop} {V : StoredValue → StoredValue → Prop}
  (hV : ∀ e e', V e e' → printed e.value = printed e'.value)

include hV

theorem relates_previousReply (p p' : Option StoredValue) (h : Option.Rel V p p') :
    Relates R (previousReply p) (previousReply p') Eq := by
  cases h with
  | none => exact relates_pure _ _ rfl
  | @some e e' he =>
    unfold previousReply
    rcases printed_cases _ _ (hV e e' he) with heq | ⟨i, hv, hw⟩ | ⟨i, hv, hw⟩
    · simp only [heq]
      split
      · exact relates_pure _ _ rfl
      · exact relates_pure _ _ rfl
      · exact relates_fail _
      · exact relates_fail _
    · simp only [hv, hw, asString_printed]
      exact relates_pure _ _ rfl
    · simp only [hv, hw, asString_printed]
      exact relates_pure _ _ rfl

theorem mgetSlot_eq (p p' : Option StoredValue) (h : Option.Rel V p p') :
    mgetSlot p = mgetSlot p' := by
  cases h with
  | none => rfl
  | @some e e' he =>
    unfold mgetSlot
    rcases printed_cases _ _ (hV e e' he) with heq | ⟨i, hv, hw⟩ | ⟨i, hv, hw⟩
    · simp only [heq]
    · simp only [hv, hw]
      rfl
    · simp only [hv, hw]
      rfl

end Shown

section
variable {c : Clock} {K : String → Prop} {R : MemoryStore → MemoryStore → Prop}
  {V : StoredValue → StoredValue → Prop} (hops : KeyOps c K R V) (env env' : Env)
  (henv : env.clock = c) (henv' : env'.clock = c) (args : List Bytes)

include hops henv henv'

theorem setCommand_relates (hkey : ∀ key, args.head?.bind fromUtf8 = some key → K key) :
    Relates R (setCommand env args) (setCommand env' args) Eq := by
  have hrequest : setRequest env'.clock args = setRequest env.clock args := by rw [henv, henv']
  unfold setCommand
  rw [hrequest]
  refine oneOp_relates env env' henv henv' (setRequest env.clock args) (fun r => r.key)
    (fun c r => Slot.setWithOptions c (.string r.value) r.ttl r.opts.existence) (SetOutcome.Alike V)
    (fun r hK => hops.setWithOptions _ hK _ _ _) _ (fun r outcome outcome' houtcome => ?_)
    fun r hr => hkey _ (setRequest_first args env.clock r hr)
  obtain ⟨happlied, hprevious⟩ := houtcome
  rw [happlied]
  split
  · exact relates_previousReply hops.shown _ _ hprevious
  · split
    · exact relates_pure _ _ rfl
    · exact relates_pure _ _ rfl

theorem getCommand_relates (hkey : ∀ key, args.head?.bind fromUtf8 = some key → K key) :
    Relates R (getCommand env args) (getCommand env' args) Eq := by
  refine oneOp_relates env env' henv henv' (oneKey "GET" args) id (fun c _ => Slot.get c)
    (Option.Rel V) (fun key hK => hops.get key hK) _ (fun _ found found' hfound => ?_)
    fun key h => hkey _ (oneKey_first args _ _ h)
  cases hfound with
  | none => exact relates_pure _ _ rfl
  | @some e e' he =>
    simp only
    rcases printed_cases _ _ (hops.shown e e' he) with heq | ⟨i, hv, hw⟩ | ⟨i, hv, hw⟩
    · rw [heq]
      split
      · exact relates_pure _ _ rfl
      · exact relates_pure _ _ rfl
    · rw [hv, hw]
      exact relates_pure _ _ rfl
    · rw [hv, hw]
      exact relates_pure _ _ rfl

theorem typeCommand_relates (hkey : ∀ key, args.head?.bind fromUtf8 = some key → K key)
    (htype : ∀ e e', V e e' → e.value.typeName = e'.value.typeName) :
    Relates R (typeCommand env args) (typeCommand env' args) Eq := by
  refine oneOp_relates env env' henv henv' (oneKey "TYPE" args) id (fun c _ => Slot.get c)
    (Option.Rel V) (fun key hK => hops.get key hK) _ (fun _ found found' hfound => ?_)
    fun key h => hkey _ (oneKey_first args _ _ h)
  cases hfound with
  | none => exact relates_pure _ _ rfl
  | @some e e' he => exact relates_pure _ _ (congrArg ResponseValue.simpleString (htype e e' he))

theorem deadlineCommand_relates (name : String) (resolve : Clock → Nat → Parse Int)
    (hkey : ∀ key, args.head?.bind fromUtf8 = some key → K key) :
    Relates R (deadlineCommand name resolve env args) (deadlineCommand name resolve env' args)
      Eq := by
  have hclock : env'.clock = env.clock := henv'.trans henv.symm
  unfold deadlineCommand
  rw [hclock]
  exact onePlain_relates hops env env henv henv (deadlineRequest name (resolve env.clock) args)
    Prod.fst (fun c r => Slot.expireAtWithOptions c r.2.1 r.2.2) (fun _ => .expireAt _ _) _
    fun r hr => hkey _ (deadlineRequest_first args name _ r hr)

theorem msetCommand_relates (hkeys : ∀ key ∈ (pairs args).filterMap fun p => fromUtf8 p.1, K key) :
    Relates R (msetCommand env args) (msetCommand env' args) Eq := by
  unfold msetCommand
  rw [henv, henv']
  refine relates_lift_bind _ _ _ _ fun ps hps => ?_
  have hpairs : ps = pairs args := by
    have := guard_eq_ok _ _ _ _ hps
    cases this
    rfl
  subst hpairs
  refine relates_bind (Q := Eq) _ _ _ _ _ ?_ fun _ _ _ => relates_pure _ _ rfl
  refine relates_foldlM _ _ Eq _ (fun p hp _ _ _ => ?_) () () rfl
  refine relates_lift_bind _ _ _ _ fun key hkey => ?_
  exact relates_atKey key _ Eq
    (hops.plain key (hkeys key (List.mem_filterMap.mpr ⟨p, hp, argText_eq_ok _ _ hkey⟩)) _
      (.set (.string p.2)))

theorem hsetCommand_relates (hkey : ∀ key, args.head?.bind fromUtf8 = some key → K key) :
    Relates R (hsetCommand env args) (hsetCommand env' args) Eq := by
  unfold hsetCommand
  rw [henv, henv']
  refine relates_lift_bind _ _ _ _ fun r hr => ?_
  have hK := hkey r.key (hsetRequest_first args r hr)
  refine relates_bind (Q := Eq) _ _ _ _ _ ?_ fun n n' hn =>
    relates_pure _ _ (congrArg ResponseValue.integer hn)
  refine relates_foldlM _ _ Eq _ (fun p hp n n' hn => ?_) 0 0 rfl
  subst hn
  refine relates_lift_bind _ _ _ _ fun fv hfv => ?_
  refine relates_bind _ _ _ _ _ (relates_tryAtKey r.key _ (hops.plain r.key hK _ (.hset fv.1 fv.2)))
    fun isNew isNew' h => ?_
  subst h
  exact relates_pure _ _ rfl

/--
Whatever command it is, both runs do the same, each with the fields of a hash in its own order.
-/
theorem Command.execute_relates (cmd : Command) (hnames : cmd.namesKeys = true)
    (hkeys : ∀ key ∈ cmd.named args, K key)
    (htype : cmd = .type → ∀ e e', V e e' → e.value.typeName = e'.value.typeName)
    (P : List (String × String) → List (String × String) → Prop)
    (hP : ∀ h, P (env.hashOrder.toList h) (env'.hashOrder.toList h))
    (hlength : ∀ ps ps', P ps ps' → ps.length = ps'.length) :
    Relates R (cmd.execute env args) (cmd.execute env' args) (cmd.SameReply P) := by
  have hfirst : (∀ key ∈ (args.head?.bind fromUtf8).toList, K key) →
      ∀ key, args.head?.bind fromUtf8 = some key → K key := by
    intro h key hkey
    exact h key (by simp [hkey])
  have hsame : ∀ {α γ : Type} (g : γ → α → γ) (acc : γ) (a a' : α), a = a' →
      g acc a = g acc a' := by
    intro α γ g acc a a' ha
    rw [ha]
  cases cmd with
  | ping | echo | dbsize | flushdb | info | keys | quit | bgrewriteaof | command _ => cases hnames
  | set => exact setCommand_relates hops env env' henv henv' args (hfirst hkeys)
  | get => exact getCommand_relates hops env env' henv henv' args (hfirst hkeys)
  | del =>
    exact eachKey_relates env env' henv henv' args "DEL" Slot.delete Eq
      (fun key hK => hops.plain key hK _ .delete) _ (hsame _) _ _ hkeys
  | exists_ =>
    exact eachKey_relates env env' henv henv' args "EXISTS" Slot.existsKey Eq
      (fun key hK => hops.plain key hK _ .existsKey) _ (hsame _) _ _ hkeys
  | mget =>
    exact eachKey_relates env env' henv henv' args "MGET" Slot.get (Option.Rel V)
      (fun key hK => hops.get key hK) _ (fun out p p' hp => by rw [mgetSlot_eq hops.shown p p' hp])
      _ _ hkeys
  | mset => exact msetCommand_relates hops env env' henv henv' args hkeys
  | incr =>
    exact oneTryOp_relates hops env env' henv henv' (incrKey "INCR" args) id
      (fun c _ => Slot.incrBy c incrAmount) (fun _ => .incrBy _) _ fun key h => hfirst hkeys _
      (incrKey_first args _ _ h)
  | decr =>
    exact oneTryOp_relates hops env env' henv henv' (incrKey "DECR" args) id
      (fun c _ => Slot.incrBy c decrAmount) (fun _ => .incrBy _) _ fun key h => hfirst hkeys _
      (incrKey_first args _ _ h)
  | expire => exact deadlineCommand_relates hops env env' henv henv' args "EXPIRE" _ (hfirst hkeys)
  | pexpire =>
    exact deadlineCommand_relates hops env env' henv henv' args "PEXPIRE" _ (hfirst hkeys)
  | expireat =>
    exact deadlineCommand_relates hops env env' henv henv' args "EXPIREAT" _ (hfirst hkeys)
  | pexpireat =>
    exact deadlineCommand_relates hops env env' henv henv' args "PEXPIREAT" _ (hfirst hkeys)
  | ttl =>
    exact onePlain_relates hops env env' henv henv' (oneKey "TTL" args) id (fun c _ => Slot.ttl c)
      (fun _ => .ttl) _ fun key h => hfirst hkeys _ (oneKey_first args _ _ h)
  | pttl =>
    exact onePlain_relates hops env env' henv henv' (oneKey "PTTL" args) id (fun c _ => Slot.pttl c)
      (fun _ => .pttl) _ fun key h => hfirst hkeys _ (oneKey_first args _ _ h)
  | type => exact typeCommand_relates hops env env' henv henv' args (hfirst hkeys) (htype rfl)
  | hset => exact hsetCommand_relates hops env env' henv henv' args (hfirst hkeys)
  | hget =>
    exact oneTryOp_relates hops env env' henv henv' (keyField "HGET" args) Prod.fst
      (fun c r => Slot.hget c r.2) (fun _ => .readHash _ _ _) _ fun r h => hfirst hkeys _
      (keyField_first args _ r h)
  | hexists =>
    exact oneTryOp_relates hops env env' henv henv' (keyField "HEXISTS" args) Prod.fst
      (fun c r => Slot.hexists c r.2) (fun _ => .readHash _ _ _) _ fun r h => hfirst hkeys _
      (keyField_first args _ r h)
  | hdel =>
    exact eachField_relates hops env env' henv henv' args "HDEL" Slot.hdel (fun _ => .hdel _) _ _ _
      (hfirst hkeys)
  | hmget =>
    exact eachField_relates hops env env' henv henv' args "HMGET" Slot.hget
      (fun _ => .readHash _ _ _) _ _ _ (hfirst hkeys)
  | hgetall =>
    exact wholeHash_relates hops env env' henv henv' args "HGETALL" _ _
      (fun h => ⟨_, _, hP h, rfl, rfl⟩) (hfirst hkeys)
  | hkeys =>
    exact wholeHash_relates hops env env' henv henv' args "HKEYS" _ _
      (fun h => ⟨_, _, hP h, rfl, rfl⟩) (hfirst hkeys)
  | hvals =>
    exact wholeHash_relates hops env env' henv henv' args "HVALS" _ _
      (fun h => ⟨_, _, hP h, rfl, rfl⟩) (hfirst hkeys)
  | hlen =>
    refine wholeHash_relates hops env env' henv henv' args "HLEN" _ _ (fun h => ?_) (hfirst hkeys)
    rw [hlength _ _ (hP h)]
    rfl

end

/-! ## Through the registry -/

namespace ParsedCommand

variable (u : CaseMap) (cmd : ParsedCommand)

/-- If the name is registered at all, it is that of a command with keys. -/
def NamesKeys : Prop :=
  ∀ command, serverRegistry.find u cmd.name = some command → command.namesKeys = true

instance : Decidable (cmd.NamesKeys u) :=
  decidable_of_iff ((serverRegistry.find u cmd.name).all Command.namesKeys = true)
    (by cases h : serverRegistry.find u cmd.name <;> simp [NamesKeys, h])

def named : List String := ((serverRegistry.find u cmd.name).map (Command.named cmd.args)).getD []

def SameReply (P : List (String × String) → List (String × String) → Prop) (r r' : ResponseValue) :
    Prop :=
  match serverRegistry.find u cmd.name with
  | some command => command.SameReply P r r'
  | none => r = r'

end ParsedCommand

/-- An unknown name and a wrong number of arguments give the same error in both runs. -/
theorem serverRegistry_relates_found (u : CaseMap) (R : MemoryStore → MemoryStore → Prop)
    (env env' : Env) (cmd : ParsedCommand) (Q : ResponseValue → ResponseValue → Prop)
    (h : ∀ command, serverRegistry.find u cmd.name = some command →
      Relates R (command.execute env cmd.args) (command.execute env' cmd.args) Q) :
    Relates R (serverRegistry.execute u env cmd) (serverRegistry.execute u env' cmd) Q := by
  unfold CommandRegistry.execute
  cases hfind : serverRegistry.find u cmd.name with
  | none => exact relates_fail _
  | some command =>
    simp only
    cases cmd.validateArity command.arity with
    | error e => exact relates_fail _
    | ok _ => exact h command hfind

theorem serverRegistry_relates (u : CaseMap) {c : Clock} {K : String → Prop}
    {R : MemoryStore → MemoryStore → Prop} (hR : KeyRel c K R) (env env' : Env)
    (henv : env.clock = c) (henv' : env'.clock = c) (cmd : ParsedCommand) (hnames : cmd.NamesKeys u)
    (hkeys : ∀ key ∈ cmd.named u, K key) (P : List (String × String) → List (String × String) →
      Prop)
    (hP : ∀ h, P (env.hashOrder.toList h) (env'.hashOrder.toList h))
    (hlength : ∀ ps ps', P ps ps' → ps.length = ps'.length) :
    Relates R (serverRegistry.execute u env cmd) (serverRegistry.execute u env' cmd)
      (cmd.SameReply u P) := by
  refine serverRegistry_relates_found u R env env' cmd _ fun command hfind => ?_
  unfold ParsedCommand.SameReply
  rw [hfind]
  refine command.execute_relates hR.ops env env' henv henv' cmd.args (hnames command hfind) ?_
    (fun _ e e' he => by rw [he]) P hP hlength
  simpa [ParsedCommand.named, hfind] using hkeys

/--
What the server answers, and the store afterwards. A panic answers nothing and comes before any
write.
-/
def respond (u : CaseMap) (env : Env) (cmd : ParsedCommand) (s : MemoryStore) :
    Option (Except String ResponseValue) × MemoryStore :=
  match (serverRegistry.execute u env cmd).run s with
  | some (r, s') => (some r, s')
  | none => (none, s)

/-- The store that a command leaves is the one before, or the one that its plan makes of it. -/
theorem respond_store (u : CaseMap) (env : Env) (cmd : ParsedCommand) (s : MemoryStore) :
    (respond u env cmd s).2 =
      ((serverRegistry.plan u env cmd).map fun steps => Step.runAll env.clock steps s).getD s := by
  have hfollows := serverRegistry.execute_follows u env cmd
  unfold respond
  cases hplan : serverRegistry.plan u env cmd with
  | none =>
    rw [hplan] at hfollows
    rw [hfollows s]
    rfl
  | some steps =>
    rw [hplan] at hfollows
    obtain ⟨r, hr⟩ := hfollows s
    rw [hr]
    rfl

theorem respond_induction (u : CaseMap) (env : Env) (cmd : ParsedCommand) (s : MemoryStore)
    (P : MemoryStore → Prop) (hs : P s) (h : ∀ steps, serverRegistry.plan u env cmd = some steps →
      P (Step.runAll env.clock steps s)) :
    P (respond u env cmd s).2 := by
  rw [respond_store]
  cases hplan : serverRegistry.plan u env cmd with
  | none => exact hs
  | some steps => exact h steps hplan

end RustyPotato
