import RustyPotato.Keyspace

/-!
# What a command is (`commands/mod.rs`)

A command reads its arguments, may change the store, and replies or fails. A failure keeps the
changes made before it.
-/

namespace RustyPotato

inductive ResponseValue where
  | simpleString (s : String)
  | bulkString (b : Option Bytes)
  | integer (i : Int)
  | array (elements : List ResponseValue)
  | nil

namespace ResponseValue

def bulk (b : Bytes) : ResponseValue := .bulkString (some b)

/-- `bulk` of a `String`. -/
def text (s : String) : ResponseValue := bulk (utf8 s)

def nilBulk : ResponseValue := .bulkString none

end ResponseValue

inductive CommandArity where
  | fixed (n : Nat)
  | range (min max : Nat)
  | atLeast (min : Nat)
deriving DecidableEq

/-- What `INFO` reads of the machine. -/
structure Host where
  version : String
  os : String
  arch : String
  processId : Nat
  uptimeSeconds : Nat

/-- What a command meets besides its arguments and the store. -/
structure Env where
  clock : Clock
  keyOrder : IterOrder StoredValue
  hashOrder : IterOrder String
  host : Host
  /-- What a rewrite of the log ends with, if persistence is enabled. -/
  rewrite : Option (Except PersistenceError Unit)

/-- A machine that names nothing, with persistence disabled. -/
def Env.atClock (clock : Clock) : Env where
  clock := clock
  keyOrder := .sorted _
  hashOrder := .sorted _
  host := ⟨"", "", "", 0, 0⟩
  rewrite := none

/-- For runs on fixed inputs: second 100. -/
def Env.sample : Env := .atClock (.ofSecs 100 (by decide))

/-- The part of a command that does not look at the store: an error ends it, `none` is a panic. -/
abbrev Parse := ExceptT String Option

/-- The wording that the commands share; the check of the registry has its own. -/
def wrongNumber (name : String) : String :=
  "ERR wrong number of arguments for '" ++ name ++ "' command"

def notUtf8 : String := "ERR value is not a valid UTF-8 string in this position"

def notInteger : String := "ERR value is not an integer or out of range"

def syntaxError : String := "ERR syntax error"

namespace Parse

/-- A value that is there, or else a panic. -/
def orAbort {α : Type} (o : Option α) : Parse α := o.map Except.ok

def argText (b : Bytes) : Parse String :=
  match fromUtf8 b with
  | some text => pure text
  | none => throw notUtf8

/-- `args[i]`. -/
def arg (args : List Bytes) (i : Nat) : Parse Bytes := orAbort args[i]?

def argStr (args : List Bytes) (i : Nat) : Parse String := arg args i >>= argText

theorem bind_eq_ok {α β : Type} (p : Parse α) (f : α → Parse β) (b : β) :
    (p >>= f) = some (.ok b) ↔ ∃ a, p = some (.ok a) ∧ f a = some (.ok b) := by
  match p with
  | some (.ok a) =>
    refine ⟨fun h => ⟨a, rfl, h⟩, ?_⟩
    rintro ⟨a', ha, h⟩
    cases ha
    exact h
  | some (.error e) =>
    refine iff_of_false (fun h => ?_) (fun ⟨a, ha, _⟩ => ?_)
    · cases h
    · cases ha
  | none =>
    refine iff_of_false (fun h => ?_) (fun ⟨a, ha, _⟩ => ?_)
    · cases h
    · cases ha

/-- The arguments of a loop that takes two at a time. -/
def pairs : List Bytes → List (Bytes × Bytes)
  | a :: b :: rest => (a, b) :: pairs rest
  | _ => []

end Parse

/-- A command at work on a store. `none` is a panic. -/
structure Cmd (α : Type) where
  run : MemoryStore → Option (Except String α × MemoryStore)

namespace Cmd

variable {α β γ : Type}

def bind (m : Cmd α) (f : α → Cmd β) : Cmd β where
  run s :=
    match m.run s with
    | some (.ok a, s) => (f a).run s
    | some (.error e, s) => some (.error e, s)
    | none => none

instance : Monad Cmd where
  pure a := ⟨fun s => some (.ok a, s)⟩
  bind := bind

/-- `return CommandResult::Error(e)`. -/
def fail (e : String) : Cmd α := ⟨fun s => some (.error e, s)⟩

def lift (p : Parse α) : Cmd α := ⟨fun s => p.run.map fun r => (r, s)⟩

/-- An operation of the store under one key. -/
def atKey (key : String) (f : Slot → α × Slot) : Cmd α where
  run s := some (.ok (s.atKey key f).1, (s.atKey key f).2)

/-- An operation of the store that can fail. The client reads `to_client_error`. -/
def tryAtKey (key : String) (f : Slot → Except RustyPotatoError α × Slot) : Cmd α where
  run s := some ((s.atKey key f).1.mapError RustyPotatoError.toClientError, (s.atKey key f).2)

/-- A look at the whole store. -/
def read (f : MemoryStore → α) : Cmd α := ⟨fun s => some (.ok (f s), s)⟩

def update (f : MemoryStore → MemoryStore) : Cmd Unit := ⟨fun s => some (.ok (), f s)⟩

/-- A loop over arguments that reads each as text, acts, and folds the outcome into `acc`. -/
def eachText (m : String → Cmd α) (g : γ → α → γ) (args : List Bytes) (acc : γ) : Cmd γ :=
  args.foldlM (fun acc b => do
    let text ← lift (Parse.argText b)
    let r ← m text
    pure (g acc r)) acc

end Cmd

/-! ## What a command does, whatever it replies -/

namespace Cmd

variable {α β γ : Type}

/-- The command never panics, and takes these steps on every store. -/
def Takes (c : Clock) (m : Cmd α) (steps : List Step) : Prop :=
  ∀ s, ∃ r, m.run s = some (r, Step.runAll c steps s)

/-- As `Takes`, where no steps at all stands for a panic on every store. -/
def Follows (c : Clock) (m : Cmd α) : Option (List Step) → Prop
  | some steps => Takes c m steps
  | none => ∀ s, m.run s = none

/-- The steps do nothing to a store that the command has left with an error. -/
def Idle (c : Clock) (m : Cmd α) (steps : List Step) : Prop :=
  ∀ s e s', m.run s = some (.error e, s') → Step.runAll c steps s' = s'

theorem run_bind (m : Cmd α) (f : α → Cmd β) (s : MemoryStore) :
    (m >>= f).run s =
      match m.run s with
      | some (.ok a, s) => (f a).run s
      | some (.error e, s) => some (.error e, s)
      | none => none := rfl

theorem takes_pure (c : Clock) (a : α) : Takes c (pure a) [] := fun _ => ⟨.ok a, rfl⟩

theorem takes_fail (c : Clock) (e : String) : Takes c (fail e : Cmd α) [] :=
  fun _ => ⟨.error e, rfl⟩

theorem takes_read (c : Clock) (f : MemoryStore → α) : Takes c (read f) [] :=
  fun s => ⟨.ok (f s), rfl⟩

theorem takes_atKey (c : Clock) (key : String) (op : Op) (f : Slot → α × Slot)
    (h : ∀ t, (f t).2 = op.run c t) : Takes c (atKey key f) [.on key op] := by
  intro s
  refine ⟨.ok (f (s.slot key)).1, ?_⟩
  simp only [atKey, MemoryStore.atKey, Step.runAll_cons, Step.runAll_nil, Step.run, h]

theorem takes_tryAtKey (c : Clock) (key : String) (op : Op)
    (f : Slot → Except RustyPotatoError α × Slot) (h : ∀ t, (f t).2 = op.run c t) :
    Takes c (tryAtKey key f) [.on key op] := by
  intro s
  refine ⟨(f (s.slot key)).1.mapError RustyPotatoError.toClientError, ?_⟩
  simp only [tryAtKey, MemoryStore.atKey, Step.runAll_cons, Step.runAll_nil, Step.run, h]

theorem takes_bind (c : Clock) (m : Cmd α) (f : α → Cmd β) (first rest : List Step)
    (hm : Takes c m first) (hf : ∀ a, Takes c (f a) rest) (hidle : Idle c m rest) :
    Takes c (m >>= f) (first ++ rest) := by
  intro s
  obtain ⟨r, hr⟩ := hm s
  have happ : Step.runAll c (first ++ rest) s = Step.runAll c rest (Step.runAll c first s) :=
    List.foldl_append ..
  simp only [run_bind, hr, happ]
  cases r with
  | ok a => exact hf a _
  | error e => exact ⟨.error e, by rw [hidle s e _ hr]⟩

/-- After the last write only the reply is left to build. -/
theorem takes_bind_last (c : Clock) (m : Cmd α) (f : α → Cmd β) (steps : List Step)
    (hm : Takes c m steps) (hf : ∀ a, Takes c (f a) []) : Takes c (m >>= f) steps := by
  have := takes_bind c m f steps [] hm hf fun _ _ _ _ => rfl
  rwa [List.append_nil] at this

theorem idle_atKey (c : Clock) (key : String) (f : Slot → α × Slot) (steps : List Step) :
    Idle c (atKey key f) steps := by
  intro s e s' h
  simp [atKey] at h

theorem bind_error (m : Cmd α) (f : α → Cmd β) (s s' : MemoryStore) (e : String)
    (h : (m >>= f).run s = some (.error e, s')) :
    m.run s = some (.error e, s') ∨ ∃ a s₁, m.run s = some (.ok a, s₁) ∧
      (f a).run s₁ = some (.error e, s') := by
  rw [run_bind] at h
  split at h
  · rename_i a s₁ hm
    exact .inr ⟨a, s₁, hm, h⟩
  · rename_i e' s₁ hm
    simp only [Option.some.injEq, Prod.mk.injEq, Except.error.injEq] at h
    exact .inl (by rw [hm, h.1, h.2])
  · cases h

theorem argText_ok (b : Bytes) (text : String) (h : fromUtf8 b = some text) :
    Parse.argText b = some (.ok text) := by
  simp only [Parse.argText, h]
  rfl

theorem argText_error (b : Bytes) (h : fromUtf8 b = none) :
    Parse.argText b = some (.error notUtf8) := by
  simp only [Parse.argText, h]
  rfl

theorem argStr_key (key : String) (args : List Bytes) :
    Parse.argStr (utf8 key :: args) 0 = some (.ok key) :=
  argText_ok _ key (fromUtf8_utf8 key)

@[simp] theorem lift_ok_bind (a : α) (f : α → Cmd β) : (lift (some (.ok a)) >>= f) = f a := rfl

@[simp] theorem lift_error_bind (e : String) (f : α → Cmd β) :
    (lift (some (.error e)) >>= f) = fail e := rfl

/-- The steps of a command that first reads its arguments. -/
def planOf (p : Parse α) (steps : α → List Step) : Option (List Step) :=
  match p with
  | some (.ok a) => some (steps a)
  | some (.error _) => some []
  | none => none

theorem follows_lift (c : Clock) (p : Parse α) (f : α → Cmd β) (steps : α → List Step)
    (h : ∀ a, Takes c (f a) (steps a)) : Follows c (lift p >>= f) (planOf p steps) := by
  match p with
  | some (.ok a) => exact h a
  | some (.error e) => exact takes_fail c e
  | none => exact fun _ => rfl

/-! ## Loops over the arguments -/

/-- The steps of a loop that stops at the first argument it cannot read. -/
def loopPlan (read : β → Option (List Step)) : List β → List Step
  | [] => []
  | b :: rest =>
    match read b with
    | some steps => steps ++ loopPlan read rest
    | none => []

theorem takes_foldlM (c : Clock) (body : γ → β → Cmd γ) (read : β → Option (List Step))
    (hread : ∀ b steps, read b = some steps → ∀ acc, Takes c (body acc b) steps)
    (hstop : ∀ b, read b = none → ∀ acc, ∃ e, body acc b = fail e)
    (hidle : ∀ b, (read b).isSome → ∀ acc rest, Idle c (body acc b) (loopPlan read rest))
    (items : List β) (acc : γ) : Takes c (items.foldlM body acc) (loopPlan read items) := by
  induction items generalizing acc with
  | nil => exact takes_pure c acc
  | cons b rest ih =>
    rw [List.foldlM_cons, loopPlan]
    cases hb : read b with
    | none =>
      obtain ⟨e, he⟩ := hstop b hb acc
      rw [he]
      exact takes_fail c e
    | some steps =>
      exact takes_bind c _ _ steps _ (hread b steps hb acc) ih (hidle b (by simp [hb]) acc rest)

/-- One step for each argument, up to the first that is no text. -/
def textPlan (step : String → Step) (args : List Bytes) : List Step :=
  loopPlan (fun b => (fromUtf8 b).map fun text => [step text]) args

theorem planOf_forall (P : Step → Prop) (p : Parse α) (plan : α → List Step)
    (h : ∀ a, ∀ step ∈ plan a, P step) (steps : List Step) (hp : planOf p plan = some steps) :
    ∀ step ∈ steps, P step := by
  unfold planOf at hp
  split at hp
  · obtain rfl := Option.some.inj hp
    exact h _
  · obtain rfl := Option.some.inj hp
    simp
  · cases hp

theorem loopPlan_forall (P : Step → Prop) (read : β → Option (List Step))
    (h : ∀ b steps, read b = some steps → ∀ step ∈ steps, P step) (items : List β) :
    ∀ step ∈ loopPlan read items, P step := by
  induction items with
  | nil => simp [loopPlan]
  | cons b rest ih =>
    rw [loopPlan]
    split
    · rename_i steps hb
      intro step hstep
      rcases List.mem_append.mp hstep with hstep | hstep
      · exact h b steps hb step hstep
      · exact ih step hstep
    · simp

theorem textPlan_forall (P : Step → Prop) (step : String → Step) (h : ∀ text, P (step text))
    (args : List Bytes) : ∀ a ∈ textPlan step args, P a := by
  refine loopPlan_forall P _ ?_ args
  intro b steps hb a ha
  obtain ⟨text, -, rfl⟩ := Option.map_eq_some_iff.mp hb
  rw [List.mem_singleton.mp ha]
  exact h text

theorem takes_eachText (c : Clock) (m : String → Cmd α) (g : γ → α → γ) (step : String → Step)
    (hm : ∀ text, Takes c (m text) [step text])
    (hidle : ∀ text rest, Idle c (m text) (textPlan step rest)) (args : List Bytes) (acc : γ) :
    Takes c (eachText m g args acc) (textPlan step args) := by
  refine takes_foldlM c _ _ ?_ ?_ ?_ args acc
  · intro b steps hb acc
    cases ht : fromUtf8 b with
    | none => simp [ht] at hb
    | some text =>
      simp only [ht, Option.map_some, Option.some.injEq] at hb
      subst hb
      rw [argText_ok b text ht, lift_ok_bind]
      exact takes_bind_last c _ _ _ (hm text) fun _ => takes_pure c _
  · intro b hb acc
    simp only [Option.map_eq_none_iff] at hb
    exact ⟨notUtf8, by rw [argText_error b hb, lift_error_bind]⟩
  · intro b hb acc rest s e s' h
    obtain ⟨text, ht⟩ := Option.isSome_iff_exists.mp (by simpa using hb)
    rw [argText_ok b text ht, lift_ok_bind] at h
    rcases bind_error _ _ _ _ _ h with h | ⟨a, s₁, -, h⟩
    · exact hidle text rest s e s' h
    · cases h

end Cmd

end RustyPotato
