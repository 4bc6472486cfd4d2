import RustyPotato.Concurrent
import RustyPotato.Commands.Strings

/-!
# Lazy expiry under concurrent clients

A client that finds a key expired removes it some steps later, and does not look again in the last
of them. No live entry is lost that way unless another client writes the key in between.
-/

namespace RustyPotato

open Lib.Threads Lib.Machine Concurrent

/-- The commands that meet lazy expiry, with the arguments that they hand to the store. -/
inductive ClientCommand where
  | get (key : String)
  | mget (keys : List String)
  | existsKeys (keys : List String)
  | type (key : String)
  | ttl (key : String)
  | pttl (key : String)
  | hget (key field : String)
  | hgetall (key : String) (order : IterOrder String)
  | hexists (key field : String)
  | hset (key : String) (pairs : List (String × String))
  | expire (key : String) (deadline : Int) (flag : ExpireFlag)
  | set (key : String) (value : ValueType) (ttl : SetTtlOption) (existence : SetExistence)
  | mset (pairs : List (String × ValueType))

/-- A call whose result goes into the reply. -/
def once {γ : Type} (p : StoreProg γ) : StoreProg Unit := do
  let _ ← p
  return ()

/-- One call after the other. -/
def each {β γ : Type} (f : β → StoreProg γ) : List β → StoreProg Unit
  | [] => return ()
  | x :: xs => do
    let _ ← f x
    each f xs

/-- The first error ends the command. -/
def hsetPairs (key : String) : List (String × String) → StoreProg Unit
  | [] => return ()
  | (field, value) :: pairs => do
    match ← Concurrent.hset key field value with
    | .ok _ => hsetPairs key pairs
    | .error _ => return ()

/--
An argument that is no UTF-8 ends a list where it stands, so it is as if the list were shorter.
-/
def ClientCommand.body : ClientCommand → StoreProg Unit
  | get key | type key => once (Concurrent.get key)
  | mget keys => each Concurrent.get keys
  | existsKeys keys => each Concurrent.existsKey keys
  | ttl key => once (Concurrent.ttl key)
  | pttl key => once (Concurrent.pttl key)
  | hget key field => once (Concurrent.hget key field)
  | hgetall key order => once (Concurrent.hgetall key order)
  | hexists key field => once (Concurrent.hexists key field)
  | hset key pairs => hsetPairs key pairs
  | expire key deadline flag => once (Concurrent.expireAtWithOptions key deadline flag)
  | set key value option existence => once (Concurrent.setWithOptions key value option existence)
  | mset pairs => each (fun p => Concurrent.set p.1 p.2) pairs

def Clock.notAfter (c c' : Clock) : Bool := decide (c.now ≤ c'.now)

abbrev Clients := Pool StoreStep Clock MemoryStore

abbrev ClientAct := Act Clock ClientCommand

def Clients.step : ClientAct → Clients → Option Clients :=
  Pool.step ClientCommand.body Clock.notAfter

/-- The call puts an entry under its key. -/
def StoreStep.writes (l : StoreStep) : Bool := l.call = .insert ∨ l.call = .entry

/-- The step does not write a key that another client has found expired and not yet removed. -/
def Clients.undisturbed (a : ClientAct) (s : Clients) : Bool :=
  (s.label? a).all fun x => !x.1.writes || (s.others a).all
    fun l => !(l.purging && l.key == x.1.key)

/-- A `data.remove` of the lazy expiry takes no entry that is unexpired at that step. -/
def Clients.SparesLive (a : ClientAct) (s : Clients) : Prop :=
  ∀ l c, s.label? a = some (l, c) → s.time.notAfter c = true → l.call = .remove → l.purging = true →
    ∀ e, s.shared.data.lookup l.key = some e → e.isExpired c = true

/-! ## The assertion of a client that purges -/

/-- The key is expired or not there. -/
def Gone (c : Clock) (s : MemoryStore) (key : String) : Prop :=
  ∀ e, (s.slot key).entry = some e → e.isExpired c = true

def StoreStep.pre (l : StoreStep) (c : Clock) (s : MemoryStore) : Prop :=
  l.purging = true → Gone c s l.key

def StoreStep.Free (l l' : StoreStep) : Prop := l.writes = true → l'.purging = true → l'.key ≠ l.key

theorem Gone.later (c c' : Clock) (s : MemoryStore) (key : String) (hc : c.notAfter c' = true)
    (h : Gone c s key) : Gone c' s key := by
  intro e he
  have hold := h e he
  have hc : c.now ≤ c'.now := of_decide_eq_true hc
  unfold StoredValue.isExpired at hold ⊢
  cases hd : e.expiresAt with
  | none => simp [hd] at hold
  | some d =>
    simp only [hd, decide_eq_true_eq] at hold ⊢
    omega

section Programs

/-- The program goes from assertion to assertion. -/
def StoreSound {α : Type} (p : StoreProg α) : Prop := p.Sound StoreStep.pre StoreStep.Free

variable {α β : Type}

/-- A step that revives no key but one that it writes is free of the others. -/
theorem free_of_gone (l : StoreStep) (c : Clock) (s s' : MemoryStore)
    (h : ∀ key, (key ≠ l.key ∨ l.writes = false) → Gone c s key → Gone c s' key) (l' : StoreStep)
    (hfree : l.Free l') (hpre : l'.pre c s) : l'.pre c s' := by
  intro hpurging
  refine h l'.key ?_ (hpre hpurging)
  by_cases hw : l.writes = true
  · exact .inl (hfree hw hpurging)
  · exact .inr (eq_false_of_ne_true hw)

theorem gone_atKey (c : Clock) (s : MemoryStore) (key k : String) (f : Slot → α × Slot)
    (h : (∀ e, (s.slot key).entry = some e → e.isExpired c = true) →
      ∀ e, (f (s.slot key)).2.entry = some e → e.isExpired c = true) (hk : Gone c s k) :
    Gone c (s.atKey key f).2 k := by
  unfold Gone at hk ⊢
  rw [MemoryStore.slot_atKey]
  split_ifs with hkey
  · subst hkey
    exact h hk
  · exact hk

theorem sound_atomic (l : StoreStep) (f : Clock → MemoryStore → α × MemoryStore)
    (k : α → StoreProg β) (hl : l.purging = false)
    (hf : ∀ c s key, (key ≠ l.key ∨ l.writes = false) → Gone c s key → Gone c (f c s).2 key)
    (hk : ∀ c s, (k (f c s).1).Holds StoreStep.pre c (f c s).2)
    (hnext : ∀ a, (k a).Outlined StoreStep.pre StoreStep.Free) :
    StoreSound (Prog.atomic l f >>= k) where
  holds c s := Prog.holds_atomic l f k c s (fun h => by simp [hl] at h)
  outlined := Prog.outlined_atomic l f k
    (fun c s _ l' hfree hpre => free_of_gone l c s _ (hf c s) l' hfree hpre)
    (fun c s _ => hk c s) hnext

theorem remove_outlined (key : String) (k : Bool → StoreProg β) (hk : ∀ b, StoreSound (k b)) :
    (remove true key >>= k).Outlined StoreStep.pre StoreStep.Free := by
  refine Prog.outlined_atomic _ _ k ?_ (fun c s _ => (hk _).holds c _) fun b => (hk b).outlined
  intro c s _ l' hfree hpre
  refine free_of_gone _ c s _ (fun k _ hgone => gone_atKey c s key k _ ?_ hgone) l' hfree hpre
  rintro - e ⟨⟩

theorem removal_outlined (key : String) (k : Bool → StoreProg β) (hk : ∀ b, StoreSound (k b)) :
    (do removeIndex true key; let b ← remove true key; k b : StoreProg β).Outlined StoreStep.pre
    StoreStep.Free := by
  refine Prog.outlined_atomic _ _ _ ?_ ?_ fun _ => remove_outlined key k hk
  · intro c s _ l' hfree hpre
    exact free_of_gone _ c s _ (fun k _ hgone => gone_atKey c s key k _ id hgone) l' hfree hpre
  · intro c s hpre
    exact Prog.holds_atomic _ _ k c _ fun _ => gone_atKey c s key key _ id (hpre rfl)

theorem delete_outlined (key : String) :
    (delete true key).Outlined StoreStep.pre StoreStep.Free := by
  refine Prog.outlined_atomic _ _ _ (fun c s _ l' _ hpre => hpre) ?_ ?_
  · intro c s hpre
    split <;> exact Prog.holds_atomic _ _ _ c s hpre
  · intro seen
    split
    · exact removal_outlined key (fun _ => pure false) fun _ => Prog.sound_ret false
    · exact removal_outlined key pure Prog.sound_ret

/-- A client that has just found the key expired may go on to delete it. -/
theorem delete_holds (c : Clock) (s : MemoryStore) (key : String) (k : Bool → StoreProg β)
    (h : Gone c s key) : (delete true key >>= k).Holds StoreStep.pre c s :=
  fun _ hl => by
    cases hl
    exact fun _ => h

theorem gone_of_seen (c : Clock) (s : MemoryStore) (key : String) (read : Clock → StoredValue → α)
    (h : (s.slot key).seen c read = .expired) : Gone c s key := by
  intro e he
  unfold Slot.seen at h
  rw [he] at h
  by_contra hlive
  simp [hlive] at h

theorem readKey_sound (key : String) (missing : α) (read : Clock → StoredValue → α) :
    StoreSound (readKey key missing read) := by
  refine sound_atomic _ _ _ rfl (fun c s k _ h => h) ?_ ?_
  · intro c s
    split
    · exact Prog.holds_ret _ c s
    · rename_i hseen
      exact delete_holds c s key _ (gone_of_seen c s key read hseen)
    · exact Prog.holds_ret _ c s
  · intro seen
    split
    · trivial
    · exact (delete_outlined key).bind _ _ fun _ => Prog.sound_ret missing
    · trivial

theorem sound_last (l : StoreStep) (f : Clock → MemoryStore → α × MemoryStore)
    (hl : l.purging = false) (hf : ∀ c s key, (key ≠ l.key ∨ l.writes = false) → Gone c s key →
      Gone c (f c s).2 key) :
    StoreSound (Prog.atomic l f) :=
  sound_atomic l f pure hl hf (fun c _ => Prog.holds_ret _ c _) fun _ => trivial

theorem sound_write (call : DashCall) (key : String)
    (hw : StoreStep.writes ⟨call, key, false⟩ = true) (f : Clock → Slot → α × Slot) :
    StoreSound (Prog.atomic ⟨call, key, false⟩ fun c s => s.atKey key (f c)) := by
  refine sound_last _ _ rfl fun c s k hk hgone => ?_
  have hne : k ≠ key := hk.resolve_right (by simp [hw])
  unfold Gone
  rw [MemoryStore.slot_atKey, if_neg hne]
  exact hgone

theorem set_sound (key : String) (value : ValueType) : StoreSound (Concurrent.set key value) := by
  refine Prog.Sound.bind _ _ ?_ fun _ => sound_write .insert key rfl _
  exact sound_last _ _ rfl fun c s k _ h => gone_atKey c s key k _ id h

theorem setWithOptions_sound (key : String) (value : ValueType) (ttl : SetTtlOption)
    (existence : SetExistence) :
    StoreSound (Concurrent.setWithOptions key value ttl existence) := by
  refine Prog.Sound.bind _ _ ?_ fun _ => sound_write .entry key rfl _
  cases ttl with
  | none => exact Prog.sound_ret none
  | «at» d => exact Prog.sound_ret (some d)
  | keepTtl =>
    refine Prog.Sound.bind _ _ (sound_last _ _ rfl fun c s k _ h => h) fun seen => ?_
    split <;> exact Prog.sound_ret _

theorem hset_sound (key field value : String) : StoreSound (Concurrent.hset key field value) :=
  Prog.Sound.bind _ _ (readKey_sound key () _) fun _ => sound_write .entry key rfl _

theorem expireEntry_expired (c : Clock) (deadline : Int) (flag : ExpireFlag) (s : Slot)
    (h : ∀ e, s.entry = some e → e.isExpired c = true) : (s.expireEntry c deadline flag).2 = s := by
  unfold Slot.expireEntry
  split
  · rename_i e he
    rw [if_pos (h e he)]
  · rfl

theorem expireAtWithOptions_sound (key : String) (deadline : Int) (flag : ExpireFlag) :
    StoreSound (Concurrent.expireAtWithOptions key deadline flag) := by
  refine sound_atomic _ _ _ rfl ?_ ?_ ?_
  · intro c s k _ hgone
    refine gone_atKey c s key k _ (fun h => ?_) hgone
    rw [expireEntry_expired c deadline flag _ h]
    exact h
  · intro c s
    split
    · exact Prog.holds_ret _ c _
    · rename_i hseen
      refine delete_holds c _ key _ ?_
      have hexpired : ∀ e, (s.slot key).entry = some e → e.isExpired c = true := by
        intro e he
        by_contra hlive
        have hseen : ((s.slot key).expireEntry c deadline flag).1 = .expired := hseen
        unfold Slot.expireEntry at hseen
        simp only [he, hlive, if_false] at hseen
        split at hseen <;> cases hseen
      refine gone_atKey c s key key _ (fun h => ?_) hexpired
      rw [expireEntry_expired c deadline flag _ h]
      exact h
    · exact Prog.holds_ret _ c _
  · intro seen
    split
    · trivial
    · exact (delete_outlined key).bind _ _ fun _ => Prog.sound_ret false
    · trivial

theorem once_sound (p : StoreProg α) (hp : StoreSound p) : StoreSound (once p) :=
  hp.bind _ _ fun _ => Prog.sound_ret ()

theorem each_sound (f : β → StoreProg α) (hf : ∀ x, StoreSound (f x)) (xs : List β) :
    StoreSound (each f xs) := by
  induction xs with
  | nil => exact Prog.sound_ret ()
  | cons x xs ih => exact (hf x).bind _ _ fun _ => ih

theorem hsetPairs_sound (key : String) (pairs : List (String × String)) :
    StoreSound (hsetPairs key pairs) := by
  induction pairs with
  | nil => exact Prog.sound_ret ()
  | cons p pairs ih =>
    refine (hset_sound key p.1 p.2).bind _ _ fun r => ?_
    split
    · exact ih
    · exact Prog.sound_ret ()

theorem ClientCommand.body_sound (cmd : ClientCommand) : StoreSound cmd.body := by
  cases cmd with
  | get key | type key | ttl key | pttl key | hget key _ | hgetall key _ | hexists key _ =>
    exact once_sound _ (readKey_sound key _ _)
  | mget keys | existsKeys keys => exact each_sound _ (fun key => readKey_sound key _ _) keys
  | hset key pairs => exact hsetPairs_sound key pairs
  | expire key deadline flag => exact once_sound _ (expireAtWithOptions_sound key deadline flag)
  | set key value option existence =>
    exact once_sound _ (setWithOptions_sound key value option existence)
  | mset pairs => exact each_sound _ (fun p => set_sound p.1 p.2) pairs

end Programs

theorem Clients.free_of_undisturbed (a : ClientAct) (s : Clients) (h : s.undisturbed a = true) :
    s.Free StoreStep.Free a := by
  intro l c hl l' hl' hw hpurging hkey
  rw [undisturbed, hl, Option.all_some, hw, Bool.not_true, Bool.false_or] at h
  have := List.all_eq_true.mp h l' hl'
  simp [hpurging, hkey] at this

/--
Any number of clients, in any order of their steps and at clocks that do not go back: where no
client writes a key that another one is about to purge, lazy expiry removes no live entry.
-/
theorem lazy_expiry_spares_live (n : Nat) (c : Clock) (store : MemoryStore) (acts : List ClientAct)
    (h : Along Clients.step (fun a s => s.undisturbed a = true) acts (.idle n c store)) :
    Along Clients.step Clients.SparesLive acts (.idle n c store) := by
  have hfree := h.imp _ _ _ Clients.free_of_undisturbed
  have hasserts := Pool.asserts_along ClientCommand.body Clock.notAfter
    (fun l c c' s hc hpre hpurging => (hpre hpurging).later c c' s l.key hc)
    ClientCommand.body_sound acts _ (Pool.outlined_idle n c store) hfree
  refine hasserts.imp _ _ _ fun a s hs l c hl htime _ hpurging => ?_
  exact hs l c hl htime hpurging

/-- A key is set until second 50, and at second 100 a client finds it expired twice. -/
def expiredRead : List ClientAct :=
  [.call 1 (.set "k" (.integer incrAmount) (.at (50 * nanosPerSec)) .always),
    .step 1 (.ofSecs 40 (by decide)), .call 0 (.get "k"), .step 0 Env.sample.clock,
    .step 0 Env.sample.clock]

/-- The other client waits until the key is removed. -/
def waitingWrite : List ClientAct :=
  expiredRead ++ [.step 0 Env.sample.clock, .step 0 Env.sample.clock,
    .call 1 (.set "k" (.integer incrAmount) .none .always), .step 1 Env.sample.clock]

theorem waitingWrite_spares_live :
    Along Clients.step Clients.SparesLive waitingWrite (.idle 2 (.ofSecs 40 (by decide)) .new) :=
  lazy_expiry_spares_live 2 _ .new waitingWrite (along_of_check _ _ _ _ (by decide +kernel))

/-- The other client sets the key anew before the two removals. -/
def racingWrite : List ClientAct :=
  expiredRead ++ [.call 1 (.set "k" (.integer incrAmount) .none .always), .step 1 Env.sample.clock,
    .step 0 Env.sample.clock]

theorem lazy_expiry_removes_live :
    ¬ Along Clients.step Clients.SparesLive (racingWrite ++ [.step 0 Env.sample.clock])
      (.idle 2 (.ofSecs 40 (by decide)) .new) := by
  intro h
  have hrun : (run Clients.step racingWrite (.idle 2 (.ofSecs 40 (by decide)) .new)).map (fun s =>
      (s.label? (.step 0 Env.sample.clock : ClientAct), s.time.notAfter Env.sample.clock,
        (s.shared.data.lookup "k").map fun e => e.isExpired Env.sample.clock)) =
      some (some (⟨.remove, "k", true⟩, Env.sample.clock), true, some false) := by decide +kernel
  obtain ⟨s, hs, hfacts⟩ := Option.map_eq_some_iff.mp hrun
  simp only [Prod.mk.injEq] at hfacts
  obtain ⟨hlabel, htime, hdata⟩ := hfacts
  obtain ⟨e, he, hlive⟩ := Option.map_eq_some_iff.mp hdata
  have hspares := h.at_action _ _ _ _ _ _ s hs ⟨.remove, "k", true⟩ Env.sample.clock hlabel htime
    rfl rfl e he
  rw [hlive] at hspares
  cases hspares

end RustyPotato
