import RustyPotato.Commands.Loops
import RustyPotato.Session

/-!
# The stores that commands build

Whatever the commands were and whatever they replied, a store holds strings, numbers and hashes with
at least one field. The background task only takes keys away.
-/

namespace RustyPotato

open Cmd

/-- The stores that the server can be in. -/
inductive Reachable (u : CaseMap) : MemoryStore → Prop
  | new : Reachable u .new
  | command (env : Env) (cmd : ParsedCommand) (s s' : MemoryStore) (r : Except String ResponseValue)
    (h : Reachable u s) (hrun : (serverRegistry.execute u env cmd).run s = some (r, s')) :
    Reachable u s'
  | cleanup (c : Clock) (order : IterOrder Int) (s : MemoryStore) (h : Reachable u s) :
    Reachable u (s.cleanupExpired c order).2

/-- No list, and no empty hash. -/
def ValueType.Storable : ValueType → Prop
  | .string _ | .integer _ => True
  | .hash h => h.entries.card ≠ 0
  | .list _ => False

def Slot.Storable (s : Slot) : Prop := ∀ e, s.entry = some e → e.value.Storable

def MemoryStore.Storable (s : MemoryStore) : Prop := ∀ key, (s.slot key).Storable

/-- The operation brings no other value than a storable one. -/
def Op.Storable : Op → Prop
  | set value | setWithOptions value _ _ => value.Storable
  | _ => True

def Step.Storable : Step → Prop
  | on _ op => op.Storable
  | flush => True

theorem card_entries (h : Hash) : h.entries.card = h.keys.card := (Multiset.card_map ..).symm

theorem card_insert_ne_zero (h : Hash) (field value : String) :
    (h.insert field value).entries.card ≠ 0 := by
  rw [card_entries]
  refine Finset.card_ne_zero_of_mem (a := field) ?_
  exact Finmap.mem_keys.mpr (Finmap.mem_insert.mpr (.inl rfl))

theorem card_erase_ne_zero (h : Hash) (field : String) (hfield : ¬ (h.lookup field).isNone = true)
    (hcard : ¬ h.entries.card = 1) : (h.erase field).entries.card ≠ 0 := by
  have hmem : field ∈ h.keys := by
    rw [Finmap.mem_keys, ← Finmap.lookup_isSome]
    simpa [Option.isSome_iff_ne_none] using hfield
  have hpos := Finset.card_pos.mpr ⟨field, hmem⟩
  rw [card_entries] at hcard ⊢
  rw [Finmap.keys_erase, Finset.card_erase_of_mem hmem]
  omega

theorem Slot.storable_empty : Slot.empty.Storable := by
  rintro e ⟨⟩

theorem Slot.storable_some (e : StoredValue) (i : Option Int) (h : e.value.Storable) :
    Slot.Storable ⟨some e, i⟩ := by
  rintro e' ⟨⟩
  exact h

namespace Op

/-- The value that an entry starts with where there was none. -/
def Brings : Op → ValueType → Prop
  | set value, v | setWithOptions value _ _, v => v = value
  | incrBy increment, v => v = .integer increment
  | hset field value, v => v = .hash ((∅ : Hash).insert field value)
  | _, _ => False

/-- What an operation can leave of a slot. -/
inductive Leaves (c : Clock) (s : Slot) : Op → Slot → Prop
  | same (op : Op) : Leaves c s op s
  | emptied (op : Op) : Leaves c s op .empty
  | begun (op : Op) (value : ValueType) (d i : Option Int) (hvalue : op.Brings value)
    (hi : i = d ∨ s.entry = none ∧ i = d.or s.index) :
    Leaves c s op ⟨some (Slot.storedWith c value d), i⟩
  | retimed (deadline : Int) (flag : ExpireFlag) (e : StoredValue) (he : s.entry = some e) :
    Leaves c s (.expireAt deadline flag) ⟨some (e.setExpiration deadline), some deadline⟩
  | counted (increment n : I64) (e : StoredValue) (he : s.entry = some e) :
    Leaves c s (.incrBy increment) { s with entry := some ({ e with value := .integer n }.touch c) }
  | filled (op : Op) (e : StoredValue) (h : Hash) (he : s.entry = some e)
    (hne : h.entries.card ≠ 0) :
    Leaves c s op { s with entry := some (({ e with value := .hash h }.touch c).updateMetadata c) }

theorem setWithOptions_leaves (c : Clock) (value : ValueType) (ttl : SetTtlOption)
    (existence : SetExistence) (s : Slot) :
    Leaves c s (.setWithOptions value ttl existence)
      (s.setWithOptions c value ttl existence).2 := by
  obtain ⟨_ | e, i⟩ := s
  · cases existence with
    | onlyIfExists => exact .same _
    | always | onlyIfNotExists => exact .begun _ value _ _ rfl (.inr ⟨rfl, rfl⟩)
  · unfold Slot.setWithOptions
    by_cases hallow : Slot.allows existence (!e.isExpired c) = true
    · simp only [if_pos hallow]
      exact .begun _ value _ _ rfl (.inl rfl)
    · simp only [if_neg hallow]
      exact .same _

theorem incrBy_leaves (c : Clock) (increment : I64) (s : Slot) :
    Leaves c s (.incrBy increment) (s.incrBy c increment).2 := by
  obtain ⟨_ | e, i⟩ := s
  · exact .begun _ (.integer increment) none _ rfl (.inr ⟨rfl, rfl⟩)
  · simp only [Slot.incrBy]
    split_ifs
    · exact .begun _ (.integer increment) none none rfl (.inl rfl)
    · cases e.value.toInteger with
      | error err => exact .same _
      | ok current =>
        simp only
        cases current.checkedAdd increment with
        | none => exact .same _
        | some n => exact .counted increment n e rfl

theorem hset_leaves (c : Clock) (field value : String) (s : Slot) :
    Leaves c s (.hset field value) (s.hset c field value).2 := by
  obtain ⟨_ | e, i⟩ := s
  · exact .begun _ _ none _ rfl (.inr ⟨rfl, rfl⟩)
  · simp only [Slot.hset, Slot.purge]
    by_cases hx : e.isExpired c = true
    · simp only [if_pos hx]
      exact .begun _ _ none none rfl (.inl rfl)
    · simp only [if_neg hx]
      cases e.value with
      | hash h => exact .filled _ e _ rfl (card_insert_ne_zero h field value)
      | _ => exact .same _

theorem hdel_leaves (c : Clock) (field : String) (s : Slot) :
    Leaves c s (.hdel field) (s.hdel c field).2 := by
  obtain ⟨_ | e, i⟩ := s
  · exact .same _
  · simp only [Slot.hdel]
    split_ifs
    · exact .emptied _
    · cases e.value with
      | hash h =>
        simp only
        split_ifs with hnone hcard
        · exact .same _
        · exact .emptied _
        · exact .filled _ e _ rfl (card_erase_ne_zero h field hnone hcard)
      | _ => exact .same _

theorem run_leaves (c : Clock) (op : Op) (s : Slot) : Leaves c s op (op.run c s) := by
  cases op with
  | purge =>
    simp only [run, Slot.purge]
    split
    · split_ifs
      · exact .emptied _
      · exact .same _
    · exact .same _
  | set value => exact .begun _ value none none rfl (.inl rfl)
  | setWithOptions value ttl existence => exact setWithOptions_leaves c value ttl existence s
  | delete =>
    rw [run, Slot.delete_eq_empty]
    exact .emptied _
  | expireAt deadline flag =>
    simp only [run, Slot.expireAtWithOptions]
    split
    · rename_i e he
      split_ifs
      · rw [Slot.delete_eq_empty]
        exact .emptied _
      · exact .retimed deadline flag e he
      · exact .same _
    · exact .same _
  | incrBy increment => exact incrBy_leaves c increment s
  | hset field value => exact hset_leaves c field value s
  | hdel field => exact hdel_leaves c field s

theorem Brings.storable (op : Op) (hop : op.Storable) (value : ValueType) (h : op.Brings value) :
    value.Storable := by
  cases op with
  | set | setWithOptions =>
    obtain rfl := h
    exact hop
  | incrBy increment =>
    obtain rfl := h
    trivial
  | hset field value =>
    obtain rfl := h
    exact card_insert_ne_zero ∅ field value
  | _ => exact h.elim

end Op

theorem Slot.Storable.run (c : Clock) (op : Op) (hop : op.Storable) (s : Slot) (hs : s.Storable) :
    (op.run c s).Storable := by
  have hleaves := op.run_leaves c s
  generalize op.run c s = t at hleaves
  cases hleaves with
  | same => exact hs
  | emptied => exact storable_empty
  | begun _ value d i hvalue _ =>
    refine storable_some _ _ ?_
    cases d <;> exact hvalue.storable op hop value
  | retimed _ _ e he => exact storable_some _ _ (hs e he)
  | counted => exact storable_some _ _ trivial
  | filled _ e h _ hne => exact storable_some _ _ hne

/-! ## From one slot to a run -/

section Slots

variable (P : Slot → Prop) (c : Clock) (hempty : P .empty)

include hempty

/-- What every operation keeps of a slot, a list of steps keeps of all slots. -/
theorem Step.runAll_slots (Q : Op → Prop) (hop : ∀ op, Q op → ∀ s, P s → P (op.run c s))
    (steps : List Step) (h : ∀ key op, Step.on key op ∈ steps → Q op) (s : MemoryStore)
    (hs : ∀ key, P (s.slot key)) (key : String) : P ((Step.runAll c steps s).slot key) := by
  induction steps generalizing s with
  | nil => exact hs key
  | cons step steps ih =>
    refine ih (fun key op hop => h key op (List.mem_cons_of_mem _ hop)) (step.run c s) ?_
    intro k
    cases step with
    | flush => exact hempty
    | on key op =>
      rw [Step.run, MemoryStore.slot_put]
      split_ifs
      · exact hop op (h key op List.mem_cons_self) _ (hs key)
      · exact hs k

theorem MemoryStore.deleteAll_slots (s : MemoryStore) (hs : ∀ key, P (s.slot key))
    (keys : List String) (key : String) : P ((s.deleteAll keys).2.slot key) := by
  induction keys generalizing s with
  | nil => exact hs key
  | cons k keys ih =>
    refine ih (s.deleteInternal k).2 fun k' => ?_
    rw [MemoryStore.deleteInternal, MemoryStore.slot_atKey]
    split_ifs
    · exact hempty
    · exact hs k'

end Slots

theorem Step.runAll_storable (c : Clock) (steps : List Step) (h : ∀ step ∈ steps, step.Storable)
    (s : MemoryStore) (hs : s.Storable) : (Step.runAll c steps s).Storable :=
  runAll_slots _ c Slot.storable_empty Op.Storable (Slot.Storable.run c) steps
    (fun _ _ hmem => h _ hmem) s hs

/-- The steps that a command can take. -/
inductive Command.Makes : Command → Step → Prop
  | purge (cmd : Command) (h : cmd.isMutation = false) (key : String) : Makes cmd (.on key .purge)
  | set (key : String) (b : Bytes) (ttl : SetTtlOption) (existence : SetExistence) :
    Makes .set (.on key (.setWithOptions (.string b) ttl existence))
  | del (key : String) : Makes .del (.on key .delete)
  | mset (key : String) (b : Bytes) : Makes .mset (.on key (.set (.string b)))
  | incr (key : String) : Makes .incr (.on key (.incrBy incrAmount))
  | decr (key : String) : Makes .decr (.on key (.incrBy decrAmount))
  | expire (key : String) (d : Int) (flag : ExpireFlag) : Makes .expire (.on key (.expireAt d flag))
  | pexpire (key : String) (d : Int) (flag : ExpireFlag) :
    Makes .pexpire (.on key (.expireAt d flag))
  | expireat (key : String) (d : Int) (flag : ExpireFlag) :
    Makes .expireat (.on key (.expireAt d flag))
  | pexpireat (key : String) (d : Int) (flag : ExpireFlag) :
    Makes .pexpireat (.on key (.expireAt d flag))
  | hset (key field value : String) : Makes .hset (.on key (.hset field value))
  | hdel (key field : String) : Makes .hdel (.on key (.hdel field))
  | flushdb : Makes .flushdb .flush

theorem Command.plan_makes (cmd : Command) (env : Env) (args : List Bytes) (steps : List Step)
    (hp : cmd.plan env args = some steps) : ∀ step ∈ steps, cmd.Makes step := by
  by_cases hmut : cmd.isMutation = false
  · intro step hstep
    obtain ⟨key, rfl⟩ := plan_readOnly cmd hmut env args steps hp step hstep
    exact .purge cmd hmut key
  · cases cmd with
    | del => exact planOf_forall _ _ _ (fun _ => textPlan_forall _ _ .del _) steps hp
    | hdel => exact planOf_forall _ _ _ (fun key => textPlan_forall _ _ (.hdel key) _) steps hp
    | mset =>
      refine planOf_forall _ _ _ (fun ps step hstep => ?_) steps hp
      rw [msetSteps_eq] at hstep
      obtain ⟨p, -, rfl⟩ := List.mem_map.mp hstep
      exact .mset p.1 p.2
    | hset =>
      refine planOf_forall _ _ _ (fun r step hstep => ?_) steps hp
      rw [hsetSteps_eq] at hstep
      obtain ⟨p, -, rfl⟩ := List.mem_map.mp hstep
      exact .hset r.key p.1 p.2
    | set | incr | decr | expire | pexpire | expireat | pexpireat | flushdb =>
      refine planOf_forall _ _ _ (fun _ step hstep => ?_) steps hp
      rw [List.mem_singleton.mp hstep]
      constructor
    | _ => exact absurd rfl hmut

theorem Command.plan_storable (cmd : Command) (env : Env) (args : List Bytes) (steps : List Step)
    (hp : cmd.plan env args = some steps) : ∀ step ∈ steps, step.Storable := by
  intro step hstep
  cases plan_makes cmd env args steps hp step hstep <;> trivial

theorem CommandRegistry.plan_storable (u : CaseMap) (reg : CommandRegistry) (env : Env)
    (cmd : ParsedCommand) (steps : List Step) (hp : reg.plan u env cmd = some steps) :
    ∀ step ∈ steps, step.Storable := by
  unfold plan at hp
  split at hp
  · split at hp
    · cases hp
      simp
    · exact Command.plan_storable _ env cmd.args steps hp
  · cases hp
    simp

theorem Reachable.storable (u : CaseMap) (s : MemoryStore) (h : Reachable u s) : s.Storable := by
  induction h with
  | new => exact fun _ => Slot.storable_empty
  | command env cmd s s' r _ hrun ih =>
    obtain ⟨steps, hplan, rfl⟩ := CommandRegistry.exists_plan u _ env cmd s s' r hrun
    exact Step.runAll_storable env.clock steps
      (CommandRegistry.plan_storable u _ env cmd steps hplan) s ih
  | cleanup c order s _ ih => exact MemoryStore.deleteAll_slots _ Slot.storable_empty s ih _

theorem Session.Chain.reachable (u : CaseMap) (s s' : MemoryStore) (xs : List Served)
    (h : Chain u s xs s') (hs : Reachable u s) : Reachable u s' := by
  induction xs generalizing s with
  | nil =>
    obtain rfl : s' = s := h
    exact hs
  | cons x xs ih => exact ih x.after h.2 (.command x.env x.cmd s x.after x.result hs h.1)

theorem handleConnection_reachable (u : CaseMap) (limits : CodecLimits) (envs : Nat → Env)
    (reads : List Bytes) : Reachable u (handleConnection u limits envs reads .new).store :=
  (handleConnection_follows u limits envs reads .new).chain.reachable u _ _ _ .new

end RustyPotato
