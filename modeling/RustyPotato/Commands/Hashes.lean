import RustyPotato.Commands.Expiry

/-! # The hash commands (`commands/hash.rs`) -/

namespace RustyPotato

open Cmd Parse

structure HsetRequest where
  key : String
  pairs : List (Bytes × Bytes)

def hsetRequest (args : List Bytes) : Parse HsetRequest := do
  if args.length < 3 ∨ (args.length - 1) % 2 ≠ 0 then throw (wrongNumber "HSET")
  let key ← argStr args 0
  return { key, pairs := pairs (args.drop 1) }

/-- A field and its value, both read before either is written. -/
def fieldValue (p : Bytes × Bytes) : Parse (String × String) := do
  let field ← argText p.1
  let value ← argText p.2
  return (field, value)

def hsetCommand (env : Env) (args : List Bytes) : Cmd ResponseValue := do
  let r ← lift (hsetRequest args)
  let n ← r.pairs.foldlM (fun (n : Int) p => do
    let (field, value) ← lift (fieldValue p)
    let isNew ← tryAtKey r.key (Slot.hset env.clock field value)
    pure (if isNew then n + 1 else n)) 0
  return .integer n

/-- The arguments of a command that takes a key and a field. -/
def keyField (name : String) (args : List Bytes) : Parse (String × String) := do
  if args.length ≠ 2 then throw (wrongNumber name)
  let key ← argStr args 0
  let field ← argStr args 1
  return (key, field)

/-- The arguments of a command that takes a key and some fields. -/
def keyFields (name : String) (args : List Bytes) : Parse String := do
  if args.length < 2 then throw (wrongNumber name)
  argStr args 0

def bulkOrNil : Option String → ResponseValue
  | some value => .text value
  | none => .nilBulk

def hgetCommand (env : Env) (args : List Bytes) : Cmd ResponseValue := do
  let (key, field) ← lift (keyField "HGET" args)
  let found ← tryAtKey key (Slot.hget env.clock field)
  return bulkOrNil found

def hdelCommand (env : Env) (args : List Bytes) : Cmd ResponseValue := do
  let key ← lift (keyFields "HDEL" args)
  let n ← eachText (fun field => tryAtKey key (Slot.hdel env.clock field))
    (fun n removed => if removed then n + 1 else n) (args.drop 1) 0
  return .integer n

def hmgetCommand (env : Env) (args : List Bytes) : Cmd ResponseValue := do
  let key ← lift (keyFields "HMGET" args)
  let out ← eachText (fun field => tryAtKey key (Slot.hget env.clock field))
    (fun out found => out ++ [bulkOrNil found]) (args.drop 1) []
  return .array out

/-- The commands that read the whole hash under a key. -/
def wholeHash (name : String) (reply : List (String × String) → ResponseValue) (env : Env)
    (args : List Bytes) : Cmd ResponseValue := do
  let key ← lift (oneKey name args)
  let fields ← tryAtKey key (Slot.hgetall env.clock env.hashOrder)
  return reply fields

def hgetallCommand : Env → List Bytes → Cmd ResponseValue :=
  wholeHash "HGETALL" fun fields => .array (fields.flatMap fun p => [.text p.1, .text p.2])

def hkeysCommand : Env → List Bytes → Cmd ResponseValue :=
  wholeHash "HKEYS" fun fields => .array (fields.map fun p => .text p.1)

def hvalsCommand : Env → List Bytes → Cmd ResponseValue :=
  wholeHash "HVALS" fun fields => .array (fields.map fun p => .text p.2)

def hlenCommand : Env → List Bytes → Cmd ResponseValue :=
  wholeHash "HLEN" fun fields => .integer fields.length

def hexistsCommand (env : Env) (args : List Bytes) : Cmd ResponseValue := do
  let (key, field) ← lift (keyField "HEXISTS" args)
  let found ← tryAtKey key (Slot.hexists env.clock field)
  return .integer (if found then 1 else 0)

/-! ## A key of another type -/

/-- The slot holds a live value that is no hash. -/
def Slot.WrongType (c : Clock) (t : Slot) : Prop :=
  ∃ e, t.entry = some e ∧ e.isExpired c = false ∧ ∀ h, e.value ≠ .hash h

theorem Slot.hset_error (c : Clock) (field value : String) (t : Slot) (e : RustyPotatoError)
    (h : (t.hset c field value).1 = .error e) : t.WrongType c := by
  obtain ⟨_ | stored, i⟩ := t
  · cases h
  · refine ⟨stored, rfl, ?_⟩
    cases hx : stored.isExpired c with
    | true => simp [Slot.hset, Slot.purge, hx, Slot.empty] at h
    | false =>
      refine ⟨rfl, fun g hg => ?_⟩
      simp [Slot.hset, Slot.purge, hx, hg] at h

theorem Slot.hdel_error (c : Clock) (field : String) (t : Slot) (e : RustyPotatoError)
    (h : (t.hdel c field).1 = .error e) : t.WrongType c := by
  obtain ⟨_ | stored, i⟩ := t
  · cases h
  · refine ⟨stored, rfl, ?_⟩
    cases hx : stored.isExpired c with
    | true => simp [Slot.hdel, hx] at h
    | false =>
      refine ⟨rfl, fun g hg => ?_⟩
      simp only [Slot.hdel, hx, hg, Bool.false_eq_true, if_false] at h
      split at h
      · cases h
      · split at h <;> cases h

theorem Slot.readHash_error {α : Type} (c : Clock) (operation : String) (missing : α)
    (read : Hash → α) (t : Slot) (e : RustyPotatoError)
    (h : (t.readHash c operation missing read).1 = .error e) :
    t.WrongType c := by
  obtain ⟨_ | stored, i⟩ := t
  · cases h
  · refine ⟨stored, rfl, ?_⟩
    cases hx : stored.isExpired c with
    | true => simp [Slot.readHash, Slot.unexpired, Option.filter, hx] at h
    | false =>
      refine ⟨rfl, fun g hg => ?_⟩
      simp [Slot.readHash, Slot.unexpired, Option.filter, hx, hg] at h

/-- The hash operations, which leave a live value of another type alone. -/
def Op.OnHash : Op → Prop
  | .purge | .hset _ _ | .hdel _ => True
  | _ => False

theorem Op.run_wrongType (c : Clock) (op : Op) (hop : op.OnHash) (t : Slot) (h : t.WrongType c) :
    op.run c t = t := by
  obtain ⟨_, i⟩ := t
  obtain ⟨e, rfl, hx, hv⟩ := h
  cases op with
  | purge => simp [Op.run, Slot.purge, hx]
  | hset field value =>
    simp only [Op.run, Slot.hset, Slot.purge, hx, Bool.false_eq_true, if_false]
  | hdel field =>
    simp only [Op.run, Slot.hdel, hx, Bool.false_eq_true, if_false]
  | _ => cases hop

/-- A hash command that has met another type under its key would do no more there. -/
theorem idle_wrongType {α : Type} (c : Clock) (key : String)
    (f : Slot → Except RustyPotatoError α × Slot) (op : Op) (hop : op.OnHash)
    (hf : ∀ t, (f t).2 = op.run c t) (herr : ∀ t e, (f t).1 = .error e → t.WrongType c)
    (steps : List Step) (hsteps : ∀ step ∈ steps, ∃ op : Op, op.OnHash ∧ step = .on key op) :
    Idle c (tryAtKey key f) steps := by
  intro s e s' h
  simp only [tryAtKey, MemoryStore.atKey, Option.some.injEq, Prod.mk.injEq] at h
  obtain ⟨h1, rfl⟩ := h
  have hw : (s.slot key).WrongType c := by
    cases hr : (f (s.slot key)).1 with
    | ok a => rw [hr] at h1; cases h1
    | error e' => exact herr _ _ hr
  rw [hf, Op.run_wrongType c op hop _ hw, MemoryStore.put_slot]
  induction steps with
  | nil => rfl
  | cons step steps ih =>
    obtain ⟨op', hop', rfl⟩ := hsteps step List.mem_cons_self
    rw [Step.runAll_cons, Step.run, Op.run_wrongType c op' hop' _ hw, MemoryStore.put_slot]
    exact ih fun step hstep => hsteps step (List.mem_cons_of_mem _ hstep)

/-! ## What they write -/

section
variable (env : Env) (args : List Bytes)

def hsetSteps (key : String) : List (Bytes × Bytes) → List Step :=
  loopPlan fun p =>
    match fromUtf8 p.1, fromUtf8 p.2 with
    | some field, some value => some [.on key (.hset field value)]
    | _, _ => none

def hsetPlan : Option (List Step) := planOf (hsetRequest args) fun r => hsetSteps r.key r.pairs

theorem fieldValue_ok (p : Bytes × Bytes) (field value : String) (hf : fromUtf8 p.1 = some field)
    (hv : fromUtf8 p.2 = some value) : fieldValue p = some (.ok (field, value)) := by
  unfold fieldValue
  rw [argText_ok p.1 field hf, argText_ok p.2 value hv]
  rfl

theorem fieldValue_error (p : Bytes × Bytes) (h : fromUtf8 p.1 = none ∨ fromUtf8 p.2 = none) :
    fieldValue p = some (.error notUtf8) := by
  unfold fieldValue
  cases hf : fromUtf8 p.1 with
  | none => rw [argText_error p.1 hf]; rfl
  | some field =>
    have hv : fromUtf8 p.2 = none := by simpa [hf] using h
    rw [argText_ok p.1 field hf, argText_error p.2 hv]
    rfl

theorem hsetRead_some (key : String) (p : Bytes × Bytes) (steps : List Step)
    (h : (match fromUtf8 p.1, fromUtf8 p.2 with
      | some field, some value => some [Step.on key (.hset field value)]
      | _, _ => none) = some steps) :
    ∃ field value, fromUtf8 p.1 = some field ∧ fromUtf8 p.2 = some value ∧
      steps = [.on key (.hset field value)] := by
  split at h
  · rename_i field value hf hv
    exact ⟨field, value, hf, hv, (Option.some.inj h).symm⟩
  · cases h

theorem idle_hset (key field value : String) (rest : List (Bytes × Bytes)) :
    Idle env.clock (tryAtKey key (Slot.hset env.clock field value)) (hsetSteps key rest) := by
  refine idle_wrongType env.clock key _ (.hset field value) trivial (fun _ => rfl)
    (fun t e => Slot.hset_error env.clock field value t e) _ ?_
  refine loopPlan_forall _ _ (fun p steps hp step hstep => ?_) rest
  obtain ⟨f, v, -, -, rfl⟩ := hsetRead_some key p steps hp
  exact ⟨.hset f v, trivial, List.mem_singleton.mp hstep⟩

theorem hsetCommand_follows : Follows env.clock (hsetCommand env args) (hsetPlan args) := by
  refine follows_lift env.clock _ _ _ fun r => ?_
  refine takes_bind_last env.clock _ _ _ ?_ fun _ => takes_pure env.clock _
  refine takes_foldlM env.clock _ _ ?_ ?_ ?_ r.pairs 0
  · intro p steps hp n
    obtain ⟨field, value, hf, hv, rfl⟩ := hsetRead_some r.key p steps hp
    rw [fieldValue_ok p field value hf hv, lift_ok_bind]
    exact takes_bind_last env.clock _ _ _ (takes_tryAtKey env.clock r.key _ _ fun _ => rfl) fun _ =>
      takes_pure env.clock _
  · intro p hp n
    refine ⟨notUtf8, ?_⟩
    rw [fieldValue_error p, lift_error_bind]
    by_contra hcon
    simp only [not_or, ← Option.isSome_iff_ne_none] at hcon
    obtain ⟨field, hf⟩ := Option.isSome_iff_exists.mp hcon.1
    obtain ⟨value, hv⟩ := Option.isSome_iff_exists.mp hcon.2
    simp [hf, hv] at hp
  · intro p hp n rest s e s' h
    obtain ⟨steps, hsteps⟩ := Option.isSome_iff_exists.mp hp
    obtain ⟨field, value, hf, hv, -⟩ := hsetRead_some r.key p steps hsteps
    rw [fieldValue_ok p field value hf hv, lift_ok_bind] at h
    rcases bind_error _ _ _ _ _ h with h | ⟨a, s₁, -, h⟩
    · exact idle_hset env r.key field value rest s e s' h
    · cases h

/-- The plan of a command that does one thing under a key for each field. -/
def fieldsPlan (name : String) (op : String → Op) : Option (List Step) :=
  planOf (keyFields name args) fun key => textPlan (fun field => .on key (op field)) (args.drop 1)

theorem fields_follows {α γ : Type} (name : String) (op : String → Op)
    (hop : ∀ field, (op field).OnHash) (f : String → Slot → Except RustyPotatoError α × Slot)
    (hf : ∀ field t, (f field t).2 = (op field).run env.clock t)
    (herr : ∀ field t e, (f field t).1 = .error e → t.WrongType env.clock) (g : γ → α → γ) (acc : γ)
    (reply : γ → ResponseValue) :
    Follows env.clock (do
      let key ← lift (keyFields name args)
      let r ← eachText (fun field => tryAtKey key (f field)) g (args.drop 1) acc
      return reply r) (fieldsPlan args name op) := by
  refine follows_lift env.clock _ _ _ fun key => ?_
  refine takes_bind_last env.clock _ _ _ ?_ fun _ => takes_pure env.clock _
  refine takes_eachText env.clock _ _ _ (fun field => takes_tryAtKey env.clock key _ _ (hf field))
    ?_ _ acc
  intro field rest
  refine idle_wrongType env.clock key _ (op field) (hop field) (hf field) (herr field) _ ?_
  exact textPlan_forall _ _ (fun text => ⟨op text, hop text, rfl⟩) rest

theorem hdelCommand_follows :
    Follows env.clock (hdelCommand env args) (fieldsPlan args "HDEL" .hdel) :=
  fields_follows env args "HDEL" .hdel (fun _ => trivial) _ (fun _ _ => rfl)
    (fun field t e => Slot.hdel_error env.clock field t e) _ _ _

theorem hmgetCommand_follows :
    Follows env.clock (hmgetCommand env args) (fieldsPlan args "HMGET" fun _ => .purge) :=
  fields_follows env args "HMGET" (fun _ => .purge) (fun _ => trivial) _ (fun _ _ => rfl)
    (fun _ t e => Slot.readHash_error env.clock _ _ _ t e) _ _ _

def fieldPlan (name : String) : Option (List Step) :=
  planOf (keyField name args) fun r => [.on r.1 .purge]

theorem hgetCommand_follows : Follows env.clock (hgetCommand env args) (fieldPlan args "HGET") := by
  refine follows_lift env.clock _ _ _ fun r => ?_
  exact takes_bind_last env.clock _ _ _ (takes_tryAtKey env.clock r.1 .purge _ fun _ => rfl)
    fun _ =>
    takes_pure env.clock _

theorem hexistsCommand_follows :
    Follows env.clock (hexistsCommand env args) (fieldPlan args "HEXISTS") := by
  refine follows_lift env.clock _ _ _ fun r => ?_
  exact takes_bind_last env.clock _ _ _ (takes_tryAtKey env.clock r.1 .purge _ fun _ => rfl)
    fun _ =>
    takes_pure env.clock _

theorem wholeHash_follows (name : String) (reply : List (String × String) → ResponseValue) :
    Follows env.clock (wholeHash name reply env args) (readPlan args name) := by
  refine follows_lift env.clock _ _ _ fun key => ?_
  exact takes_bind_last env.clock _ _ _ (takes_tryAtKey env.clock key .purge _ fun _ => rfl)
    fun _ =>
    takes_pure env.clock _

end

end RustyPotato
