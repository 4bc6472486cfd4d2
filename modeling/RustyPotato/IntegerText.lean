import RustyPotato.ExpiredAsMissing
import RustyPotato.KeyIsolation
import RustyPotato.Representation

/-!
# A number and its text

A rewritten log brings a number back as the string that it prints as. Apart from `TYPE` no command
can tell the two: it gives the same reply and leaves two stores that again differ in this way only.
-/

namespace RustyPotato

open Cmd Parse

/-- The same deadline, and values that print alike. -/
structure StoredValue.Interchangeable (e e' : StoredValue) : Prop where
  deadline : e.expiresAt = e'.expiresAt
  value : printed e.value = printed e'.value

/-- The index is left out: no command but the cleanup looks at it. -/
def Slot.Interchangeable (t t' : Slot) : Prop :=
  Option.Rel StoredValue.Interchangeable t.entry t'.entry

def MemoryStore.Interchangeable (s s' : MemoryStore) : Prop :=
  ∀ k, (s.slot k).Interchangeable (s'.slot k)

/-! ## The operations -/

theorem toInteger_eq (v w : ValueType) (h : printed v = printed w) : v.toInteger = w.toInteger := by
  rcases printed_cases v w h with rfl | ⟨i, rfl, rfl⟩ | ⟨i, rfl, rfl⟩
  · rfl
  · exact (toInteger_printed i).symm
  · exact toInteger_printed i

namespace StoredValue.Interchangeable

variable {e e' : StoredValue} (h : e.Interchangeable e')

include h

theorem isExpired_eq (c : Clock) : e.isExpired c = e'.isExpired c :=
  isExpired_congr c e' e h.deadline

theorem ttlSeconds_eq (c : Clock) : e.ttlSeconds c = e'.ttlSeconds c := by
  unfold ttlSeconds
  rw [h.deadline]

theorem ttlMillis_eq (c : Clock) : e.ttlMillis c = e'.ttlMillis c := by
  unfold ttlMillis
  rw [h.deadline]

end StoredValue.Interchangeable

namespace Slot

theorem Interchangeable.vacant (i i' : Option Int) : Interchangeable ⟨none, i⟩ ⟨none, i'⟩ := .none

/-- Both entries are missing or expired, or both are there. -/
inductive BothSeen (c : Clock) : Slot → Slot → Prop
  | vacant (i i' : Option Int) : BothSeen c ⟨none, i⟩ ⟨none, i'⟩
  | expired (e e' : StoredValue) (i i' : Option Int) (h : e.Interchangeable e')
    (hx : e.isExpired c = true)
    (hx' : e'.isExpired c = true) : BothSeen c ⟨some e, i⟩ ⟨some e', i'⟩
  | alive (e e' : StoredValue) (i i' : Option Int) (h : e.Interchangeable e')
    (hx : e.isExpired c = false)
    (hx' : e'.isExpired c = false) : BothSeen c ⟨some e, i⟩ ⟨some e', i'⟩

theorem Interchangeable.seen (c : Clock) (t t' : Slot) (h : t.Interchangeable t') :
    BothSeen c t t' := by
  obtain ⟨entry, i⟩ := t
  obtain ⟨entry', i'⟩ := t'
  unfold Interchangeable at h
  cases h with
  | none => exact .vacant i i'
  | @some e e' he =>
    cases hx : e.isExpired c with
    | true => exact .expired e e' i i' he hx (he.isExpired_eq c ▸ hx)
    | false => exact .alive e e' i i' he hx (he.isExpired_eq c ▸ hx)

/-- Related results, and interchangeable slots. -/
def Outcome {α : Type} (Q : α → α → Prop) (p p' : α × Slot) : Prop :=
  Q p.1 p'.1 ∧ p.2.Interchangeable p'.2

def Keeps {α : Type} (Q : α → α → Prop) (f : Slot → α × Slot) : Prop :=
  ∀ t t', t.Interchangeable t' → Outcome Q (f t) (f t')

variable (c : Clock)

theorem BothSeen.purge (t t' : Slot) (h : BothSeen c t t') :
    (t.purge c).Interchangeable (t'.purge c) := by
  cases h with
  | vacant i i' => exact .vacant i i'
  | expired e e' i i' h hx hx' =>
    simp only [Slot.purge, hx, hx', if_true]
    exact .none
  | alive e e' i i' h hx hx' =>
    simp only [Slot.purge, hx, hx', Bool.false_eq_true, if_false]
    exact .some h

theorem BothSeen.unexpired (t t' : Slot) (h : BothSeen c t t') :
    Option.Rel StoredValue.Interchangeable (t.unexpired c) (t'.unexpired c) := by
  cases h with
  | vacant i i' => exact .none
  | expired e e' i i' h hx hx' =>
    rw [unexpired_expired c e i hx, unexpired_expired c e' i' hx']
    exact .none
  | alive e e' i i' h hx hx' =>
    rw [unexpired_alive c e i hx, unexpired_alive c e' i' hx']
    exact .some h

theorem keeps_get : Keeps (Option.Rel StoredValue.Interchangeable) (get c) :=
  fun t t' h => ⟨(h.seen c t t').unexpired c t t', (h.seen c t t').purge c t t'⟩

theorem keeps_readHash {α : Type} (operation : String) (missing : α) (read : Hash → α) :
    Keeps Eq (readHash c operation missing read) := by
  intro t t' h
  refine ⟨?_, (h.seen c t t').purge c t t'⟩
  have hunexpired := (h.seen c t t').unexpired c t t'
  simp only [readHash]
  generalize t.unexpired c = x, t'.unexpired c = x' at hunexpired
  cases hunexpired with
  | none => rfl
  | @some e e' he =>
    rcases printed_cases _ _ he.value with hv | ⟨i, hv, hw⟩ | ⟨i, hv, hw⟩
    · simp only [hv]
    · simp only [hv, hw]
    · simp only [hv, hw]

theorem keeps_existsKey : Keeps Eq (existsKey c) := by
  intro t t' h
  refine ⟨?_, (h.seen c t t').purge c t t'⟩
  have hunexpired := (h.seen c t t').unexpired c t t'
  simp only [existsKey]
  generalize t.unexpired c = x, t'.unexpired c = x' at hunexpired
  cases hunexpired <;> rfl

theorem keeps_ttl : Keeps Eq (ttl c) := by
  intro t t' h
  refine ⟨?_, (h.seen c t t').purge c t t'⟩
  have hunexpired := (h.seen c t t').unexpired c t t'
  simp only [ttl]
  generalize t.unexpired c = x, t'.unexpired c = x' at hunexpired
  cases hunexpired with
  | none => rfl
  | some he => simp only [he.ttlSeconds_eq c]

theorem keeps_pttl : Keeps Eq (pttl c) := by
  intro t t' h
  refine ⟨?_, (h.seen c t t').purge c t t'⟩
  have hunexpired := (h.seen c t t').unexpired c t t'
  simp only [pttl]
  generalize t.unexpired c = x, t'.unexpired c = x' at hunexpired
  cases hunexpired with
  | none => rfl
  | some he => simp only [he.ttlMillis_eq c]

theorem interchangeable_refl (e : StoredValue) : e.Interchangeable e := ⟨rfl, rfl⟩

theorem keeps_set (value : ValueType) : Keeps Eq fun t => ((), t.set c value) :=
  fun _ _ _ => ⟨rfl, .some (interchangeable_refl _)⟩

theorem keeps_delete : Keeps Eq (delete c) := by
  intro t t' h
  have hseen := h.seen c t t'
  clear h
  cases hseen with
  | vacant i i' => exact ⟨rfl, .none⟩
  | expired e e' i i' h hx hx' => exact ⟨by simp only [delete, hx, hx'], .none⟩
  | alive e e' i i' h hx hx' => exact ⟨by simp only [delete, hx, hx'], .none⟩

theorem keeps_expireAt (deadline : Int) (flag : ExpireFlag) :
    Keeps Eq (expireAtWithOptions c deadline flag) := by
  intro t t' h
  have hseen := h.seen c t t'
  clear h
  cases hseen with
  | vacant i i' => exact ⟨rfl, .none⟩
  | expired e e' i i' h hx hx' =>
    simp only [expireAtWithOptions, hx, hx', if_true, delete_eq_empty]
    exact ⟨rfl, .none⟩
  | alive e e' i i' h hx hx' =>
    simp only [expireAtWithOptions, hx, hx', h.deadline, Bool.false_eq_true, if_false]
    split_ifs
    · exact ⟨rfl, .some ⟨rfl, h.value⟩⟩
    · exact ⟨rfl, .some h⟩

theorem keeps_incrBy (increment : I64) : Keeps Eq (incrBy c increment) := by
  intro t t' h
  have hseen := h.seen c t t'
  clear h
  cases hseen with
  | vacant i i' => exact ⟨rfl, .some (interchangeable_refl _)⟩
  | expired e e' i i' h hx hx' =>
    simp only [incrBy, hx, hx', if_true]
    exact ⟨rfl, .some (interchangeable_refl _)⟩
  | alive e e' i i' h hx hx' =>
    simp only [incrBy, hx, hx', toInteger_eq _ _ h.value, Bool.false_eq_true, if_false]
    cases e'.value.toInteger with
    | error err => exact ⟨rfl, .some h⟩
    | ok n =>
      simp only
      cases n.checkedAdd increment with
      | none => exact ⟨rfl, .some h⟩
      | some m => exact ⟨rfl, .some ⟨h.deadline, rfl⟩⟩

theorem keeps_hset (field value : String) : Keeps Eq (hset c field value) := by
  intro t t' h
  have hseen := h.seen c t t'
  clear h
  cases hseen with
  | vacant i i' => exact ⟨rfl, .some (interchangeable_refl _)⟩
  | expired e e' i i' h hx hx' =>
    simp only [hset, purge, hx, hx', if_true]
    exact ⟨rfl, .some (interchangeable_refl _)⟩
  | alive e e' i i' h hx hx' =>
    simp only [hset, purge, hx, hx', Bool.false_eq_true, if_false]
    rcases printed_cases _ _ h.value with hv | ⟨n, hv, hw⟩ | ⟨n, hv, hw⟩
    · simp only [hv]
      cases e'.value with
      | hash g => exact ⟨rfl, .some ⟨h.deadline, rfl⟩⟩
      | _ => exact ⟨rfl, .some h⟩
    · simp only [hv, hw]
      exact ⟨rfl, .some h⟩
    · simp only [hv, hw]
      exact ⟨rfl, .some h⟩

theorem keeps_hdel (field : String) : Keeps Eq (hdel c field) := by
  intro t t' h
  have hseen := h.seen c t t'
  clear h
  cases hseen with
  | vacant i i' => exact ⟨rfl, .none⟩
  | expired e e' i i' h hx hx' =>
    simp only [hdel, hx, hx', if_true, delete_eq_empty]
    exact ⟨rfl, .none⟩
  | alive e e' i i' h hx hx' =>
    simp only [hdel, hx, hx', Bool.false_eq_true, if_false]
    rcases printed_cases _ _ h.value with hv | ⟨n, hv, hw⟩ | ⟨n, hv, hw⟩
    · simp only [hv]
      cases e'.value with
      | hash g =>
        simp only
        split_ifs
        · exact ⟨rfl, .some h⟩
        · exact ⟨rfl, .none⟩
        · exact ⟨rfl, .some ⟨h.deadline, rfl⟩⟩
      | _ => exact ⟨rfl, .some h⟩
    · simp only [hv, hw]
      exact ⟨rfl, .some h⟩
    · simp only [hv, hw]
      exact ⟨rfl, .some h⟩

theorem keeps_setWithOptions (value : ValueType) (ttl : SetTtlOption) (existence : SetExistence) :
    Keeps (SetOutcome.Alike StoredValue.Interchangeable)
      (setWithOptions c value ttl existence) := by
  intro t t' h
  have hseen := h.seen c t t'
  clear h
  cases hseen with
  | vacant i i' =>
    cases existence with
    | onlyIfExists => exact ⟨⟨rfl, .none⟩, .none⟩
    | always | onlyIfNotExists => exact ⟨⟨rfl, .none⟩, .some (interchangeable_refl _)⟩
  | expired e e' i i' h hx hx' =>
    simp only [setWithOptions, resolveTtl, hx, hx', Option.bind_some, Bool.not_true,
      Bool.false_eq_true, if_true, if_false]
    split_ifs
    · exact ⟨⟨rfl, .none⟩, .some (interchangeable_refl _)⟩
    · exact ⟨⟨rfl, .none⟩, .some h⟩
  | alive e e' i i' h hx hx' =>
    simp only [setWithOptions, resolveTtl, hx, hx', h.deadline, Option.bind_some, Bool.not_false,
      Bool.false_eq_true, if_true, if_false]
    split_ifs
    · exact ⟨⟨rfl, .some h⟩, .some (interchangeable_refl _)⟩
    · exact ⟨⟨rfl, .some h⟩, .some h⟩

theorem Plain.keeps {α : Type} (f : Slot → α × Slot) (h : Plain c f) : Keeps Eq f := by
  cases h with
  | existsKey => exact keeps_existsKey c
  | ttl => exact keeps_ttl c
  | pttl => exact keeps_pttl c
  | readHash operation missing read => exact keeps_readHash c operation missing read
  | set value => exact keeps_set c value
  | delete => exact keeps_delete c
  | expireAt deadline flag => exact keeps_expireAt c deadline flag
  | incrBy increment => exact keeps_incrBy c increment
  | hset field value => exact keeps_hset c field value
  | hdel field => exact keeps_hdel c field

end Slot

/-! ## The commands -/

theorem Slot.Keeps.oneKey {α : Type} (Q : α → α → Prop) (f : Slot → α × Slot) (h : Keeps Q f)
    (key : String) : OneKey MemoryStore.Interchangeable key f Q := by
  intro s s' hs
  obtain ⟨hresult, hslot⟩ := h _ _ (hs key)
  refine ⟨hresult, fun k => ?_⟩
  rw [MemoryStore.slot_put, MemoryStore.slot_put]
  split_ifs
  · exact hslot
  · exact hs k

theorem keyOps_interchangeable (c : Clock) :
    KeyOps c (fun _ => True) MemoryStore.Interchangeable StoredValue.Interchangeable where
  plain key _ _ f hf := (hf.keeps c f).oneKey Eq f key
  get key _ := (Slot.keeps_get c).oneKey _ _ key
  setWithOptions key _ value ttl existence :=
    (Slot.keeps_setWithOptions c value ttl existence).oneKey _ _ key
  shown _ _ h := h.value

namespace MemoryStore.Interchangeable

variable (s s' : MemoryStore) (h : s.Interchangeable s')

include h

theorem keys_eq : s.data.keys = s'.data.keys := by
  ext k
  rw [Finmap.mem_keys, Finmap.mem_keys, ← Finmap.lookup_isSome, ← Finmap.lookup_isSome]
  have hk : Option.Rel StoredValue.Interchangeable (s.data.lookup k) (s'.data.lookup k) := h k
  generalize s.data.lookup k = x, s'.data.lookup k = x' at hk
  cases hk <;> simp

theorem len_eq : s.len = s'.len := by
  unfold MemoryStore.len
  rw [h.keys_eq s s']

theorem keys_perm (order order' : IterOrder StoredValue) :
    (s.keys order).Perm (s'.keys order') := by
  refine (List.perm_ext_iff_of_nodup (s.nodup_keys order) (s'.nodup_keys order')).mpr fun k => ?_
  have hkeys : ∀ (m : MemoryStore) (order : IterOrder StoredValue), k ∈ m.keys order ↔
      k ∈ m.data.keys := by
    intro m order
    rw [m.mem_keys_iff, Finmap.mem_keys, ← Finmap.lookup_isSome, Option.isSome_iff_exists]
  rw [hkeys, hkeys, h.keys_eq s s']

end MemoryStore.Interchangeable

/-- The same reply, but for the order of the fields of a hash and of the keys that `KEYS` lists. -/
def Command.SameListing : Command → ResponseValue → ResponseValue → Prop
  | .keys, r, r' =>
    ∃ ks ks' : List String, ks.Perm ks' ∧ r = .array (ks.map .text) ∧ r' = .array (ks'.map .text)
  | cmd, r, r' => cmd.SameReply List.Perm r r'

/--
The two environments of one command: the same but for the order in which the maps hand out their
entries.
-/
structure Env.SameReading (env env' : Env) : Prop where
  clock : env.clock = env'.clock
  host : env.host = env'.host
  rewrite : env.rewrite = env'.rewrite

section
variable {R : MemoryStore → MemoryStore → Prop} {α : Type}

theorem relates_read (f f' : MemoryStore → α) (Q : α → α → Prop)
    (h : ∀ s s', R s s' → Q (f s) (f' s')) :
    Relates R (read f) (read f') Q := fun s s' hs => .ok _ _ s s' (h s s' hs) hs

theorem relates_update (f : MemoryStore → MemoryStore) (h : ∀ s s', R s s' → R (f s) (f s')) :
    Relates R (update f) (update f) Eq := fun s s' hs => .ok () () _ _ rfl (h s s' hs)

theorem relates_lift (p : Parse α) : Relates R (lift p) (lift p) Eq := by
  intro s s' hs
  rcases p with _ | e | a
  · exact .panic
  · exact .error e s s' hs
  · exact .ok a a s s' rfl hs

end

section
variable (env env' : Env) (henv : env.SameReading env') (args : List Bytes)

theorem dbsizeCommand_interchangeable :
    Relates MemoryStore.Interchangeable (dbsizeCommand env args) (dbsizeCommand env' args) Eq := by
  unfold dbsizeCommand
  split
  · exact relates_read _ _ Eq fun s s' hs => by rw [hs.len_eq s s']
  · exact relates_fail _

theorem flushdbCommand_interchangeable :
    Relates MemoryStore.Interchangeable (flushdbCommand env args)
      (flushdbCommand env' args) Eq := by
  refine relates_lift_bind _ _ _ _ fun _ _ => ?_
  refine relates_bind _ _ _ _ _ (relates_update _ fun s s' _ k => .none) fun _ _ _ => ?_
  exact relates_pure _ _ rfl

theorem keysCommand_interchangeable :
    Relates MemoryStore.Interchangeable (keysCommand env args) (keysCommand env' args)
      (Command.SameListing .keys) := by
  refine relates_lift_bind _ _ _ _ fun pattern _ => ?_
  refine relates_read _ _ _ fun s s' hs => ⟨_, _, ?_, rfl, rfl⟩
  exact (hs.keys_perm s s' env.keyOrder env'.keyOrder).filter _

include henv

theorem infoCommand_interchangeable :
    Relates MemoryStore.Interchangeable (infoCommand env args) (infoCommand env' args) Eq := by
  have hwant : Relates MemoryStore.Interchangeable (toAsciiLowercase <$> lift (infoSection args))
      (toAsciiLowercase <$> lift (infoSection args)) Eq :=
    relates_bind (Q := Eq) _ _ _ _ Eq (relates_lift _) fun _ _ h =>
      relates_pure _ _ (congrArg toAsciiLowercase h)
  refine relates_bind _ _ _ _ _ hwant fun want want' h => ?_
  subst h
  refine relates_read _ _ Eq fun s s' hs => ?_
  rw [henv.host, hs.len_eq s s']

theorem bgrewriteaofCommand_interchangeable :
    Relates MemoryStore.Interchangeable (bgrewriteaofCommand env args)
      (bgrewriteaofCommand env' args) Eq := by
  unfold bgrewriteaofCommand
  rw [henv.rewrite]
  split
  · split
    · exact relates_fail _
    · exact relates_fail _
    · exact relates_pure _ _ rfl
  · exact relates_fail _

theorem Command.execute_interchangeable (cmd : Command) (htype : cmd ≠ .type) :
    Relates MemoryStore.Interchangeable (cmd.execute env args)
      (cmd.execute env' args) cmd.SameListing := by
  by_cases hnames : cmd.namesKeys = true
  · have hrelates :=
      cmd.execute_relates (keyOps_interchangeable env.clock) env env' rfl henv.clock.symm args
        hnames (fun _ _ => trivial) (fun htype' => absurd htype' htype) List.Perm
      (fun g => env.hashOrder.perm env'.hashOrder g) (fun _ _ hps => hps.length_eq)
    cases cmd with
    | keys => cases hnames
    | _ => exact hrelates
  · cases cmd with
    | ping =>
      simp only [Command.execute, pingCommand]
      split
      · exact relates_pure _ _ rfl
      · exact relates_pure _ _ rfl
      · exact relates_fail _
    | echo =>
      simp only [Command.execute, echoCommand]
      split
      · exact relates_pure _ _ rfl
      · exact relates_fail _
    | dbsize => exact dbsizeCommand_interchangeable env env' args
    | flushdb => exact flushdbCommand_interchangeable env env' args
    | info => exact infoCommand_interchangeable env env' henv args
    | keys => exact keysCommand_interchangeable env env' args
    | quit =>
      simp only [Command.execute, quitCommand]
      split
      · exact relates_pure _ _ rfl
      · exact relates_fail _
    | bgrewriteaof => exact bgrewriteaofCommand_interchangeable env env' henv args
    | command total =>
      simp only [Command.execute, commandCommand]
      split
      · exact relates_pure _ _ rfl
      · exact relates_lift _
    | _ => exact absurd rfl hnames

end

/-! ## Runs -/

/-- The reply relation of the command that the name resolves to. -/
def ParsedCommand.SameListing (u : CaseMap) (cmd : ParsedCommand) (r r' : ResponseValue) : Prop :=
  match serverRegistry.find u cmd.name with
  | some command => command.SameListing r r'
  | none => r = r'

/-- Both panic, both fail with the same error, or both reply the same but for the order. -/
inductive ParsedCommand.Indistinct (u : CaseMap) (cmd : ParsedCommand) :
    Option (Except String ResponseValue) → Option (Except String ResponseValue) → Prop
  | panic : Indistinct u cmd none none
  | error (e : String) : Indistinct u cmd (some (.error e)) (some (.error e))
  | ok (r r' : ResponseValue) (h : cmd.SameListing u r r') : Indistinct u cmd (some (.ok r))
    (some (.ok r'))

def ParsedCommand.NotType (u : CaseMap) (cmd : ParsedCommand) : Prop :=
  serverRegistry.find u cmd.name ≠ some .type

theorem respond_interchangeable (u : CaseMap) (env env' : Env) (henv : env.SameReading env')
    (cmd : ParsedCommand) (hcmd : cmd.NotType u) (s s' : MemoryStore) (hs : s.Interchangeable s') :
    cmd.Indistinct u (respond u env cmd s).1 (respond u env' cmd s').1 ∧
      (respond u env cmd s).2.Interchangeable (respond u env' cmd s').2 := by
  have hrelates : Relates MemoryStore.Interchangeable (serverRegistry.execute u env cmd)
      (serverRegistry.execute u env' cmd) (cmd.SameListing u) := by
    refine serverRegistry_relates_found u _ env env' cmd _ fun command hfind => ?_
    unfold ParsedCommand.SameListing
    rw [hfind]
    exact Command.execute_interchangeable env env' henv cmd.args command fun htype =>
      hcmd (htype ▸ hfind)
  have hrun := hrelates s s' hs
  unfold respond
  generalize (serverRegistry.execute u env cmd).run s = x,
    (serverRegistry.execute u env' cmd).run s' = x' at hrun
  cases hrun with
  | panic => exact ⟨.panic, hs⟩
  | ok r r' t t' hr ht => exact ⟨.ok r r' hr, ht⟩
  | error e t t' ht => exact ⟨.error e, ht⟩

/-- One command in both runs: its two environments, which differ in the orders alone. -/
structure TwinCall where
  env : Env
  env' : Env
  same : env.SameReading env'
  cmd : ParsedCommand

def TwinCall.first (calls : List TwinCall) : List (Env × ParsedCommand) :=
  calls.map fun x => (x.env, x.cmd)

def TwinCall.second (calls : List TwinCall) : List (Env × ParsedCommand) :=
  calls.map fun x => (x.env', x.cmd)

/-- The replies, command by command. -/
inductive Indistinguishable (u : CaseMap) : List TwinCall →
    List (Option (Except String ResponseValue)) →
    List (Option (Except String ResponseValue)) → Prop
  | nil : Indistinguishable u [] [] []
  | cons (x : TwinCall) (calls : List TwinCall) (r r' : Option (Except String ResponseValue))
    (rs rs' : List (Option (Except String ResponseValue))) (h : x.cmd.Indistinct u r r')
    (hrest : Indistinguishable u calls rs rs') : Indistinguishable u (x :: calls) (r :: rs)
    (r' :: rs')

theorem respondAll_interchangeable (u : CaseMap) (calls : List TwinCall)
    (hcalls : ∀ x ∈ calls, x.cmd.NotType u) (s s' : MemoryStore) (hs : s.Interchangeable s') :
    Indistinguishable u calls (respondAll u (TwinCall.first calls) s).1
      (respondAll u (TwinCall.second calls) s').1 := by
  induction calls generalizing s s' with
  | nil => exact .nil
  | cons x calls ih =>
    obtain ⟨hreply, hafter⟩ := respond_interchangeable u x.env x.env' x.same x.cmd
      (hcalls x List.mem_cons_self) s s' hs
    exact .cons x calls _ _ _ _ hreply
      (ih (fun y hy => hcalls y (List.mem_cons_of_mem _ hy)) _ _ hafter)

/--
With a number under the key or with its decimal text, with the same deadline, every sequence of
commands other than `TYPE` gives the same replies, one by one. The maps may hand out their entries
in different orders.
-/
theorem integer_text_interchangeable (u : CaseMap) (s : MemoryStore) (k : String) (n : I64)
    (e e' : StoredValue) (index : Option Int) (hvalue : e.value = .integer n)
    (hvalue' : e'.value = .string (utf8 (toString n.val))) (hdeadline : e.expiresAt = e'.expiresAt)
    (calls : List TwinCall) (hcalls : ∀ x ∈ calls, x.cmd.NotType u) :
    Indistinguishable u calls (respondAll u (TwinCall.first calls) (s.put k ⟨some e, index⟩)).1
      (respondAll u (TwinCall.second calls) (s.put k ⟨some e', index⟩)).1 := by
  refine respondAll_interchangeable u calls hcalls _ _ fun key => ?_
  rw [MemoryStore.slot_put, MemoryStore.slot_put]
  split_ifs
  · refine .some ⟨hdeadline, ?_⟩
    rw [hvalue, hvalue']
    rfl
  · unfold Slot.Interchangeable
    cases (s.slot key).entry with
    | none => exact .none
    | some stored => exact .some (Slot.interchangeable_refl stored)

/-- One `GET` and one `INCR` at second 100. -/
def getThenIncr : List TwinCall :=
  [⟨.sample, .sample, ⟨rfl, rfl, rfl⟩, ⟨"GET", [utf8 "n"]⟩⟩,
    ⟨.sample, .sample, ⟨rfl, rfl, rfl⟩, ⟨"INCR", [utf8 "n"]⟩⟩]

theorem one_and_its_text :
    Indistinguishable asciiCaseMap getThenIncr
      (respondAll asciiCaseMap (TwinCall.first getThenIncr)
        (MemoryStore.new.put "n" ⟨some (.new Env.sample.clock (.integer incrAmount)), none⟩)).1
      (respondAll asciiCaseMap (TwinCall.second getThenIncr)
        (MemoryStore.new.put "n" ⟨some (.new Env.sample.clock (.string (utf8 "1"))), none⟩)).1 := by
  refine integer_text_interchangeable asciiCaseMap .new "n" incrAmount
    (.new Env.sample.clock (.integer incrAmount)) (.new Env.sample.clock (.string (utf8 "1"))) none
    rfl ?_ rfl getThenIncr ?_
  · decide +kernel
  · unfold ParsedCommand.NotType
    decide +kernel

end RustyPotato
