import RustyPotato.LazyExpiry

/-!
# `SET` with `KEEPTTL` under concurrent clients

`set_with_options` reads the deadline to keep in one step and writes it back in another. What it
writes is the deadline of the entry it replaces unless another client takes the lock on the key in
between.
-/

namespace RustyPotato

open Lib.Threads Lib.Machine Concurrent

/-- The calls on the store that set, move or remove deadlines. -/
inductive TtlCall where
  | set (key : String) (value : ValueType)
  | setWithOptions (key : String) (value : ValueType) (ttl : SetTtlOption)
    (existence : SetExistence)
  | expireAtWithOptions (key : String) (deadline : Int) (flag : ExpireFlag)
  | persist (key : String)
  | delete (key : String)

def TtlCall.program : TtlCall → StoreProg Unit
  | set key value => Concurrent.set key value
  | setWithOptions key value ttl existence =>
    once (Concurrent.setWithOptions key value ttl existence)
  | expireAtWithOptions key deadline flag => once (Concurrent.expireAtWithOptions key deadline flag)
  | persist key => once (Concurrent.persist key)
  | delete key => once (Concurrent.delete false key)

/-! ## Labels that know what is kept -/

structure TtlStep where
  step : StoreStep
  /-- The deadline that was read, if the step is the write of a `KEEPTTL`. -/
  kept : Option (Option Int)

abbrev TtlProg := Prog TtlStep Clock MemoryStore

def TtlStep.plain (l : StoreStep) : TtlStep := ⟨l, none⟩

def setKeepTtl (key : String) (value : ValueType) (existence : SetExistence) :
    TtlProg SetOutcome := do
  let resolved ← (Concurrent.resolveTtl key .keepTtl).relabel TtlStep.plain
  .atomic ⟨⟨.entry, key, false⟩, some resolved⟩ fun c s =>
    s.atKey key (Slot.setEntry c value resolved existence)

def TtlCall.body : TtlCall → TtlProg Unit
  | setWithOptions key value .keepTtl existence => do
    let _ ← setKeepTtl key value existence
    return ()
  | call => call.program.relabel TtlStep.plain

/-- The labels say nothing about what a call does. -/
theorem TtlCall.body_relabel (call : TtlCall) : call.body.relabel TtlStep.step = call.program := by
  have hplain : ∀ {α : Type} (p : StoreProg α),
      (p.relabel TtlStep.plain).relabel TtlStep.step = p :=
    Prog.relabel_cancel TtlStep.plain TtlStep.step fun _ => rfl
  cases call with
  | setWithOptions key value ttl existence =>
    cases ttl with
    | keepTtl =>
      simp only [body, setKeepTtl, program, once, Concurrent.setWithOptions, Prog.relabel_bind]
      rw [hplain]
      rfl
    | _ => exact hplain _
  | _ => exact hplain _

abbrev TtlClients := Pool TtlStep Clock MemoryStore

abbrev TtlAct := Act Clock TtlCall

def TtlClients.step : TtlAct → TtlClients → Option TtlClients :=
  Pool.step TtlCall.body Clock.notAfter

/-- The call can put another deadline under its key, or none. -/
def StoreStep.moves (l : StoreStep) : Bool :=
  l.call = .getMut ∨ l.call = .entry ∨ l.call = .insert ∨ l.call = .remove

/--
The step does not move the deadline of a key that another client has read in order to keep it.
-/
def TtlClients.undisturbed (a : TtlAct) (s : TtlClients) : Bool :=
  (s.label? a).all fun x => !x.1.step.moves || (s.others a).all
    fun l => !(l.kept.isSome && l.step.key == x.1.step.key)

/-- Where a `KEEPTTL` writes over a live entry, the deadline of that entry stays. -/
def TtlClients.KeepsTtl (a : TtlAct) (s : TtlClients) : Prop :=
  ∀ l c, s.label? a = some (l, c) → l.kept.isSome = true → ∀ s', step a s = some s' →
    ∀ e, (s.shared.slot l.step.key).entry = some e → e.isExpired c = false →
      ∃ e', (s'.shared.slot l.step.key).entry = some e' ∧ e'.expiresAt = e.expiresAt

/-! ## The assertion of a client that keeps a deadline -/

def MemoryStore.deadline (key : String) (s : MemoryStore) : Option (Option Int) :=
  (s.slot key).entry.map StoredValue.expiresAt

/-- What is live under the key has this deadline. -/
def HasDeadline (c : Clock) (d : Option Int) (key : String) (s : MemoryStore) : Prop :=
  ∀ e, (s.slot key).entry = some e → e.isExpired c = false → e.expiresAt = d

def TtlStep.pre (l : TtlStep) (c : Clock) (s : MemoryStore) : Prop :=
  ∀ d, l.kept = some d → HasDeadline c d l.step.key s

def TtlStep.Free (l l' : TtlStep) : Prop :=
  l.step.moves = true → l'.kept.isSome = true → l'.step.key ≠ l.step.key

theorem HasDeadline.later (c c' : Clock) (d : Option Int) (key : String) (s : MemoryStore)
    (hc : c.notAfter c' = true) (h : HasDeadline c d key s) : HasDeadline c' d key s := by
  intro e he hlive
  have hle : c.now ≤ c'.now := of_decide_eq_true hc
  refine h e he (e.isExpired_before c c' ?_ hlive)
  unfold Clock.now at hle
  unfold Clock.le
  omega

theorem HasDeadline.congr (c : Clock) (d : Option Int) (key : String) (s s' : MemoryStore)
    (hsame : s'.deadline key = s.deadline key) (h : HasDeadline c d key s) :
    HasDeadline c d key s' := by
  intro e' he' hlive
  unfold MemoryStore.deadline at hsame
  rw [he', Option.map_some] at hsame
  obtain ⟨e, he, hdeadline⟩ := Option.map_eq_some_iff.mp hsame.symm
  rw [← hdeadline]
  refine h e he ?_
  rw [StoredValue.isExpired_congr c e' e hdeadline]
  exact hlive

/-- The step leaves all deadlines but, if it can move it, the one under its key. -/
def StoreStep.Tame (l : StoreStep) (effect : Clock → MemoryStore → MemoryStore) : Prop :=
  ∀ c s key, key ≠ l.key ∨ l.moves = false → (effect c s).deadline key = s.deadline key

theorem free_of_tame (l : TtlStep) (effect : Clock → MemoryStore → MemoryStore)
    (h : l.step.Tame effect) (c : Clock) (s : MemoryStore) (l' : TtlStep) (hfree : l.Free l')
    (hpre : l'.pre c s) : l'.pre c (effect c s) := by
  intro d hd
  refine (hpre d hd).congr c d _ s _ (h c s _ ?_)
  by_cases hmoves : l.step.moves = true
  · exact .inl (hfree hmoves (by rw [hd]; rfl))
  · exact .inr (eq_false_of_ne_true hmoves)

theorem plain_sound {α : Type} (p : StoreProg α) (hp : p.Every StoreStep.Tame) :
    (p.relabel TtlStep.plain).Sound TtlStep.pre TtlStep.Free := by
  induction p with
  | ret a => exact Prog.sound_ret a
  | step l effect next ih =>
    refine ⟨?_, fun c s _ => ⟨?_, ?_, ?_⟩⟩
    · intro c s l' hl' d hd
      cases hl'
      cases hd
    · exact free_of_tame (.plain l) effect hp.1 c s
    · exact (ih c s (hp.2 c s)).holds c _
    · exact (ih c s (hp.2 c s)).outlined

/-! ## The calls -/

section Calls

variable {α : Type} (key : String)

theorem tame_moves (call : DashCall) (purging : Bool)
    (hmoves : StoreStep.moves ⟨call, key, purging⟩ = true) (f : Clock → Slot → α × Slot) :
    StoreStep.Tame ⟨call, key, purging⟩ fun c s => (s.atKey key (f c)).2 := by
  intro c s k hk
  have hne : k ≠ key := hk.resolve_right (by simp [hmoves])
  rw [MemoryStore.deadline, MemoryStore.slot_atKey, if_neg hne]
  rfl

theorem removeIndex_tame (purging : Bool) : (removeIndex purging key).Every StoreStep.Tame := by
  refine Prog.every_atomic _ _ fun c s k _ => ?_
  rw [MemoryStore.deadline, MemoryStore.slot_atKey]
  split_ifs with hk
  · rw [hk]
    rfl
  · rfl

theorem remove_tame (purging : Bool) : (remove purging key).Every StoreStep.Tame :=
  Prog.every_atomic _ _ (tame_moves key .remove purging rfl _)

theorem look_tame (purging : Bool) (read : Clock → StoredValue → α) :
    (look purging key read).Every StoreStep.Tame :=
  Prog.every_atomic _ _ fun _ _ _ _ => rfl

theorem delete_tame (purging : Bool) : (Concurrent.delete purging key).Every StoreStep.Tame := by
  refine (look_tame key purging _).bind _ _ fun seen => ?_
  cases seen with
  | expired =>
    refine (removeIndex_tame key purging).bind _ _ fun _ => ?_
    exact (remove_tame key purging).bind _ _ fun _ => trivial
  | _ => exact (removeIndex_tame key purging).bind _ _ fun _ => remove_tame key purging

theorem set_tame (value : ValueType) : (Concurrent.set key value).Every StoreStep.Tame :=
  (removeIndex_tame key false).bind _ _ fun _ =>
    Prog.every_atomic _ _ (tame_moves key .insert false rfl _)

theorem resolveTtl_tame (ttl : SetTtlOption) :
    (Concurrent.resolveTtl key ttl).Every StoreStep.Tame := by
  cases ttl with
  | keepTtl =>
    refine (look_tame key false _).bind _ _ fun seen => ?_
    cases seen <;> trivial
  | _ => trivial

theorem setWithOptions_tame (value : ValueType) (ttl : SetTtlOption) (existence : SetExistence) :
    (Concurrent.setWithOptions key value ttl existence).Every StoreStep.Tame :=
  (resolveTtl_tame key ttl).bind _ _ fun _ =>
    Prog.every_atomic _ _ (tame_moves key .entry false rfl _)

/-- The two calls that change a deadline in place delete what they find expired. -/
theorem getMut_tame (f : Clock → Slot → Seen Bool × Slot) (k : Seen Bool → StoreProg Bool)
    (hk : ∀ seen, (k seen).Every StoreStep.Tame) :
    (Prog.atomic ⟨.getMut, key, false⟩ (fun c s => s.atKey key (f c)) >>= k).Every StoreStep.Tame :=
  (Prog.every_atomic _ _ (tame_moves key .getMut false rfl _)).bind _ _ hk

theorem expireAtWithOptions_tame (deadline : Int) (flag : ExpireFlag) :
    (Concurrent.expireAtWithOptions key deadline flag).Every StoreStep.Tame := by
  refine getMut_tame key _ _ fun seen => ?_
  cases seen with
  | expired => exact (delete_tame key true).bind _ _ fun _ => trivial
  | _ => trivial

theorem persist_tame : (Concurrent.persist key).Every StoreStep.Tame := by
  refine getMut_tame key _ _ fun seen => ?_
  cases seen with
  | expired => exact (delete_tame key true).bind _ _ fun _ => trivial
  | _ => trivial

theorem once_tame (p : StoreProg α) (hp : p.Every StoreStep.Tame) : (once p).Every StoreStep.Tame :=
  hp.bind _ _ fun _ => trivial

end Calls

theorem TtlCall.program_tame (call : TtlCall) : call.program.Every StoreStep.Tame := by
  cases call with
  | set key value => exact set_tame key value
  | setWithOptions key value ttl existence =>
    exact once_tame _ (setWithOptions_tame key value ttl existence)
  | expireAtWithOptions key deadline flag =>
    exact once_tame _ (expireAtWithOptions_tame key deadline flag)
  | persist key => exact once_tame _ (persist_tame key)
  | delete key => exact once_tame _ (delete_tame key false)

theorem hasDeadline_resolveTtl (c : Clock) (key : String) (s : MemoryStore) :
    HasDeadline c ((s.slot key).resolveTtl c .keepTtl) key s := by
  intro e he hlive
  simp [Slot.resolveTtl, he, hlive]

theorem setKeepTtl_eq (key : String) (value : ValueType) (existence : SetExistence) :
    setKeepTtl key value existence =
      .step (.plain ⟨.get, key, false⟩) (fun _ s => s) fun c s =>
        .atomic ⟨⟨.entry, key, false⟩, some ((s.slot key).resolveTtl c .keepTtl)⟩ fun c' s' =>
          s'.atKey key (Slot.setEntry c' value ((s.slot key).resolveTtl c .keepTtl) existence) := by
  refine congrArg (Prog.step _ _) (funext fun c => funext fun s => ?_)
  change Prog.bind (Prog.relabel TtlStep.plain
    (Prog.bind (Prog.ret ((s.slot key).seen c fun _ e => e.expiresAt)) _)) _ = _
  generalize s.slot key = t
  obtain ⟨_ | e, i⟩ := t
  · rfl
  · by_cases hexp : e.isExpired c = true
    · simp only [Slot.seen, Slot.resolveTtl, hexp, if_true, Option.bind_some]
      rfl
    · simp only [Slot.seen, Slot.resolveTtl, hexp, Option.bind_some]
      rfl

theorem setKeepTtl_sound (key : String) (value : ValueType) (existence : SetExistence) :
    (setKeepTtl key value existence).Sound TtlStep.pre TtlStep.Free := by
  rw [setKeepTtl_eq]
  refine ⟨?_, fun c s _ => ⟨fun l' _ hpre => hpre, ?_,
    fun c' s' _ => ⟨?_, Prog.holds_ret _ _ _, trivial⟩⟩⟩
  · intro c s l hl d hd
    cases hl
    cases hd
  · intro l hl d hd
    cases hl
    cases hd
    exact hasDeadline_resolveTtl c key s
  · exact free_of_tame ⟨⟨.entry, key, false⟩, some _⟩ _
      (tame_moves key .entry false rfl fun c => Slot.setEntry c value _ existence) c' s'

theorem TtlCall.body_sound (call : TtlCall) : call.body.Sound TtlStep.pre TtlStep.Free := by
  have hplain := plain_sound call.program call.program_tame
  cases call with
  | setWithOptions key value ttl existence =>
    cases ttl with
    | keepTtl => exact (setKeepTtl_sound key value existence).bind _ _ fun _ => Prog.sound_ret ()
    | _ => exact hplain
  | _ => exact hplain

/-! ## What is written -/

/-- A step that keeps a deadline leaves that one or the one it finds. -/
def TtlStep.WritesKept (l : TtlStep) (effect : Clock → MemoryStore → MemoryStore) : Prop :=
  ∀ d, l.kept = some d → ∀ c s e, (s.slot l.step.key).entry = some e →
    ∃ e', ((effect c s).slot l.step.key).entry = some e' ∧
    (e'.expiresAt = d ∨ e'.expiresAt = e.expiresAt)

theorem setEntry_expiresAt (c : Clock) (value : ValueType) (resolved : Option Int)
    (existence : SetExistence) (t : Slot) (e : StoredValue) (he : t.entry = some e) :
    ∃ e', (t.setEntry c value resolved existence).2.entry = some e' ∧
      (e'.expiresAt = resolved ∨ e'.expiresAt = e.expiresAt) := by
  unfold Slot.setEntry
  simp only [he]
  by_cases hallowed : Slot.allows existence (!e.isExpired c) = true
  · rw [if_pos hallowed]
    refine ⟨_, rfl, .inl ?_⟩
    cases resolved <;> rfl
  · rw [if_neg hallowed]
    exact ⟨e, he, .inr rfl⟩

theorem plain_writesKept {α : Type} (p : StoreProg α) (hp : p.Every StoreStep.Tame) :
    (p.relabel TtlStep.plain).Every TtlStep.WritesKept := by
  refine Prog.Every.relabel TtlStep.plain _ (fun l effect _ d hd => ?_) p hp
  cases hd

theorem setKeepTtl_writesKept (key : String) (value : ValueType) (existence : SetExistence) :
    (setKeepTtl key value existence).Every TtlStep.WritesKept := by
  refine (plain_writesKept _ (resolveTtl_tame key .keepTtl)).bind _ _ fun resolved => ?_
  refine Prog.every_atomic _ _ fun d hd c s e he => ?_
  cases hd
  rw [MemoryStore.slot_atKey, if_pos rfl]
  exact setEntry_expiresAt c value resolved existence _ e he

theorem TtlCall.body_writesKept (call : TtlCall) : call.body.Every TtlStep.WritesKept := by
  have hplain := plain_writesKept call.program call.program_tame
  cases call with
  | setWithOptions key value ttl existence =>
    cases ttl with
    | keepTtl => exact (setKeepTtl_writesKept key value existence).bind _ _ fun _ => trivial
    | _ => exact hplain
  | _ => exact hplain

/-! ## Any number of clients -/

theorem TtlClients.free_of_undisturbed (a : TtlAct) (s : TtlClients) (h : s.undisturbed a = true) :
    s.Free TtlStep.Free a := by
  intro l c hl l' hl' hmoves hkept hkey
  rw [undisturbed, hl, Option.all_some, hmoves, Bool.not_true, Bool.false_or] at h
  have := List.all_eq_true.mp h l' hl'
  simp [hkept, hkey] at this

/--
Any number of clients, in any order of their steps and at clocks that do not go back: where no
client takes the lock on a key that another one has read in order to keep its deadline, `KEEPTTL`
keeps it.
-/
theorem keepttl_keeps_deadline (n : Nat) (c : Clock) (store : MemoryStore) (acts : List TtlAct)
    (h : Along TtlClients.step (fun a s => s.undisturbed a = true) acts (.idle n c store)) :
    Along TtlClients.step (fun a s => s.KeepsTtl a) acts (.idle n c store) := by
  have hfree := h.imp _ _ _ TtlClients.free_of_undisturbed
  have hasserts := Pool.asserts_along TtlCall.body Clock.notAfter
    (fun l c c' s hc hpre d hd => (hpre d hd).later c c' d _ s hc) TtlCall.body_sound acts _
    (Pool.outlined_idle n c store) hfree
  refine Along.of_invariant _ _ _
    (fun s : TtlClients => ∀ p ∈ s.threads, p.Every TtlStep.WritesKept) ?_ ?_ acts _ hasserts ?_
  · intro a s s' hs _ hstep
    exact Pool.every_step _ _ _ TtlCall.body_writesKept a s s' hs hstep
  · intro a s hs hpre l c hl hkept s' hstep e he hlive
    obtain ⟨i, call, rfl, -⟩ | ⟨i, c, l, effect, next, rfl, hi, htime, rfl⟩ :=
      Pool.step_cases _ _ a s s' hstep
    · cases hl
    · simp only [Pool.label?, hi, Option.bind_some, Prog.label?, Option.map_some, Option.some.injEq,
        Prod.mk.injEq] at hl
      obtain ⟨rfl, rfl⟩ := hl
      obtain ⟨d, hd⟩ := Option.isSome_iff_exists.mp hkept
      have hlabel : s.label? (.step i c : TtlAct) = some (l, c) := by
        simp [Pool.label?, hi, Prog.label?]
      have hread : e.expiresAt = d := hpre l c hlabel htime d hd e he hlive
      obtain ⟨e', he', hdeadline⟩ := (hs _ (List.mem_of_getElem? hi)).1 d hd c s.shared e he
      exact ⟨e', he', hdeadline.elim (fun h => h.trans hread.symm) id⟩
  · intro p hp
    rw [List.eq_of_mem_replicate hp]
    trivial

/-! ## `KEEPTTL` and `PERSIST` -/

/-- A key with a deadline; one client sets it with `KEEPTTL`, another makes it persistent. -/
def keepAndPersist : List TtlAct :=
  [.call 1 (.setWithOptions "k" (.integer incrAmount) (.at (200 * nanosPerSec)) .always),
    .step 1 Env.sample.clock, .call 0 (.setWithOptions "k" (.integer decrAmount) .keepTtl .always),
    .call 1 (.persist "k")]

theorem persist_first_keeps :
    Along TtlClients.step (fun a s => s.KeepsTtl a)
      (keepAndPersist ++ [.step 1 Env.sample.clock, .step 0 Env.sample.clock,
        .step 0 Env.sample.clock])
      (.idle 2 Env.sample.clock .new) :=
  keepttl_keeps_deadline 2 _ .new _ (along_of_check _ _ _ _ (by decide +kernel))

/-- The deadline is read before `PERSIST` removes it and written back after. -/
theorem removed_deadline_returns :
    ∃ s s', run TtlClients.step
      (keepAndPersist ++ [.step 0 Env.sample.clock, .step 1 Env.sample.clock])
        (.idle 2 Env.sample.clock .new) = some s ∧
      TtlClients.step (.step 0 Env.sample.clock) s = some s' ∧ s.shared.deadline "k" = some none ∧
      s'.shared.deadline "k" = some (some (200 * (nanosPerSec : Int))) ∧
        ¬ s.KeepsTtl (.step 0 Env.sample.clock) := by
  refine ⟨_, _, rfl, rfl, rfl, rfl, fun h => ?_⟩
  obtain ⟨e', he', hdeadline⟩ := h _ _ rfl rfl _ rfl _ rfl rfl
  cases he'
  cases hdeadline

end RustyPotato
