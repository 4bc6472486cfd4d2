import RustyPotato.Registry

/-!
# A command at another time

The log holds the frames of the clients, so the replay resolves every deadline again, against its
own clock. What a command does is the same up to that: a relative deadline moves with the clock, and
a clock before the epoch lets no Unix time through.
-/

namespace RustyPotato

open Cmd Parse

/-- A deadline as a client names it. -/
inductive Target where
  | after (nanos : Nat)
  | unix (millis : Nat)

def Target.resolve (c : Clock) : Target → Parse Int
  | after nanos => orAbort (addDuration c.now nanos)
  | unix millis => resolveUnixTarget c millis

/-- Whether the deadline counts from the moment of the command. -/
def Target.isRelative : Target → Bool
  | after _ => true
  | unix _ => false

/-- Where `resolve_unix_target` puts the deadline, at a clock after the epoch. -/
def unixDeadline (c : Clock) (millis : Nat) : Int :=
  if (millis : Int) ≤ c.wall / nanosPerMilli then c.now - nanosPerMilli
  else c.now + (millis - c.wall / nanosPerMilli) * nanosPerMilli

theorem resolveUnixTarget_eq (c : Clock) (millis : Nat) (hwall : 0 ≤ c.wall)
    (hmillis : millis < 2 ^ 64) :
    resolveUnixTarget c millis = some (.ok (unixDeadline c millis)) := by
  obtain ⟨nowMs, hnow, heq, -⟩ := unixMillis_eq c hwall
  rw [resolveUnixTarget, hnow, unixDeadline, ← heq]
  simp only
  by_cases hle : millis ≤ nowMs
  · rw [if_pos hle, if_pos (by exact_mod_cast hle)]
    rfl
  · rw [if_neg hle, if_neg (by exact_mod_cast hle), addDuration_millis c _ (by omega)]
    have hsub : ((millis - nowMs : Nat) : Int) = millis - nowMs := by omega
    rw [fromMillis, Nat.cast_mul, hsub]
    rfl

theorem resolveUnixTarget_eq_ok (c : Clock) (millis : Nat) (d : Int)
    (h : resolveUnixTarget c millis = some (.ok d)) : 0 ≤ c.wall ∧ d = unixDeadline c millis := by
  unfold resolveUnixTarget at h
  split at h
  · cases h
  · rename_i nowMs hnow
    obtain ⟨hwall, heq, -⟩ := unixMillis_eq_some c nowMs hnow
    refine ⟨hwall, ?_⟩
    rw [unixDeadline, ← heq]
    split_ifs at h with hle
    · rw [if_pos (by exact_mod_cast hle)]
      cases h
      rfl
    · rw [if_neg (by exact_mod_cast hle)]
      cases hadd : addDuration c.now (fromMillis (millis - nowMs)) with
      | none =>
        rw [hadd] at h
        cases h
      | some sum =>
        rw [hadd] at h
        cases h
        have hsub : ((millis - nowMs : Nat) : Int) = millis - nowMs := by omega
        rw [addDuration_eq_some _ _ _ hadd, fromMillis, Nat.cast_mul, hsub]

/-- What waits for a deadline: a `SET`, or one of the `EXPIRE` commands. -/
inductive TimedOp where
  | set (value : ValueType) (existence : SetExistence)
  | expire (flag : ExpireFlag)

def TimedOp.op (deadline : Int) : TimedOp → Op
  | set value existence => .setWithOptions value (.at deadline) existence
  | expire flag => .expireAt deadline flag

/-- The operation names a deadline. -/
def Op.Timed : Op → Prop
  | setWithOptions _ (.at _) _ | expireAt _ _ => True
  | _ => False

theorem TimedOp.timed_op (t : TimedOp) (d : Int) : (t.op d).Timed := by
  cases t <;> trivial

def Step.Timed : Step → Prop
  | on _ op => op.Timed
  | flush => False

/-- The steps of one command at two clocks, where the first does not refuse it. -/
inductive SamePlan (relative : Bool) (c c' : Clock) : List Step → List Step → Prop
  | untimed (steps : List Step) (h : ∀ a ∈ steps, ¬ a.Timed) : SamePlan relative c c' steps steps
  | timed (key : String) (t : TimedOp) (target : Target) (d d' : Int)
    (hrelative : target.isRelative = relative)
    (h : target.resolve c = some (.ok d)) (h' : target.resolve c' = some (.ok d')) :
    SamePlan relative c c' [.on key (t.op d)] [.on key (t.op d')]
  | dropped (key : String) (t : TimedOp) (target : Target) (d : Int) (e : String)
    (h : target.resolve c = some (.ok d)) (h' : target.resolve c' = some (.error e)) :
    SamePlan relative c c' [.on key (t.op d)] []

theorem ok_of_lift {α β : Type} (p : Parse α) (f : α → Cmd β) (s s' : MemoryStore) (v : β)
    (h : (lift p >>= f).run s = some (.ok v, s')) : ∃ a, p = some (.ok a) := by
  match p with
  | some (.ok a) => exact ⟨a, rfl⟩
  | some (.error e) => cases h
  | none => cases h

theorem planOf_bind_ok {α β : Type} (p : Parse α) (a : α) (hp : p = some (.ok a)) (f : α → Parse β)
    (steps : β → List Step) : planOf (p >>= f) steps = planOf (f a) steps := by
  rw [hp]
  rfl

/-- A command that has read its arguments, and takes one step once the deadline is resolved. -/
theorem samePlan_target {γ : Type} (c c' : Clock) (key : String) (t : TimedOp) (target : Target)
    (mk : Int → γ) (steps : γ → List Step) (hsteps : ∀ d, steps (mk d) = [.on key (t.op d)]) (r : γ)
    (hr : (target.resolve c >>= fun d => (pure (mk d) : Parse γ)) = some (.ok r)) (bs : List Step)
    (hbs : planOf (target.resolve c' >>= fun d => (pure (mk d) : Parse γ)) steps = some bs) :
    SamePlan target.isRelative c c' (steps r) bs := by
  obtain ⟨d, hd, hr⟩ := (bind_eq_ok _ _ _).mp hr
  cases hr
  rw [hsteps]
  match hd' : target.resolve c' with
  | none =>
    rw [hd'] at hbs
    cases hbs
  | some (.error e) =>
    rw [hd'] at hbs
    cases hbs
    exact .dropped key t target d e hd hd'
  | some (.ok d') =>
    rw [planOf_bind_ok _ d' hd'] at hbs
    cases hbs
    rw [hsteps]
    exact .timed key t target d d' rfl hd hd'

/-- The deadline that the options of a `SET` name. -/
def SetTtlChoice.target? : SetTtlChoice → Option Target
  | default | keepTtl => none
  | seconds n => some (.after (fromSecs n))
  | milliseconds n => some (.after (fromMillis n))
  | unixSeconds n => some (.unix (saturatingMul n 1000))
  | unixMilliseconds n => some (.unix n)

/-- The option counts from now. -/
def SetTtlChoice.isRelative : SetTtlChoice → Bool
  | seconds _ | milliseconds _ => true
  | _ => false

theorem SetTtlChoice.target?_isRelative (choice : SetTtlChoice) (target : Target)
    (h : choice.target? = some target) : target.isRelative = choice.isRelative := by
  cases choice <;> cases h <;> rfl

theorem resolveTtl_target (c : Clock) (choice : SetTtlChoice) (target : Target)
    (h : choice.target? = some target) :
    resolveTtl c choice = SetTtlOption.at <$> target.resolve c := by
  cases choice <;> cases h <;> rfl

theorem resolveTtl_untimed (c : Clock) (choice : SetTtlChoice) (h : choice.target? = none) :
    resolveTtl c choice = some (.ok (if choice = .keepTtl then .keepTtl else .none)) := by
  cases choice with
  | default => rfl
  | keepTtl => rfl
  | _ => cases h

/-- A `SET` with `EX` or `PX`. -/
def setRelative (args : List Bytes) : Bool :=
  match setArgs args with
  | some (.ok a) => a.opts.ttl.isRelative
  | _ => false

theorem setPlan_same (env env' : Env) (args : List Bytes) (r : SetRequest)
    (hr : setRequest env.clock args = some (.ok r)) (bs : List Step)
    (hbs : setPlan env' args = some bs) :
    SamePlan (setRelative args) env.clock env'.clock
      [.on r.key (.setWithOptions (.string r.value) r.ttl r.opts.existence)] bs := by
  obtain ⟨a, ha, hr⟩ := (bind_eq_ok _ _ _).mp hr
  rw [setPlan, setRequest, planOf_bind_ok _ a ha] at hbs
  cases htarget : a.opts.ttl.target? with
  | some target =>
    rw [resolveTtl_target _ _ target htarget, bind_map_left] at hr hbs
    have hrelative : setRelative args = target.isRelative := by
      rw [a.opts.ttl.target?_isRelative target htarget, setRelative, ha]
    rw [hrelative]
    exact samePlan_target _ _ a.key (.set (.string a.value) a.opts.existence) target _ _
      (fun _ => rfl) r hr bs hbs
  | none =>
    rw [resolveTtl_untimed _ _ htarget] at hr hbs
    cases hr
    cases hbs
    refine .untimed _ ?_
    intro b hb
    rw [List.mem_singleton.mp hb]
    simp only
    split <;> exact id

theorem deadlinePlan_same (env env' : Env) (args : List Bytes) (name : String)
    (resolve : Clock → Nat → Parse Int) (relative : Bool) (target : Nat → Target)
    (hrelative : ∀ n, (target n).isRelative = relative)
    (htarget : ∀ c n, resolve c n = (target n).resolve c) (r : String × Int × ExpireFlag)
    (hr : deadlineRequest name (resolve env.clock) args = some (.ok r)) (bs : List Step)
    (hbs : deadlinePlan env' args name resolve = some bs) :
    SamePlan relative env.clock env'.clock [.on r.1 (.expireAt r.2.1 r.2.2)] bs := by
  obtain ⟨a, ha, hr⟩ := (bind_eq_ok _ _ _).mp hr
  rw [deadlinePlan, deadlineRequest, planOf_bind_ok _ a ha, htarget] at hbs
  rw [htarget] at hr
  rw [← hrelative a.amount]
  exact samePlan_target _ _ a.key (.expire a.flag) (target a.amount) _ _ (fun _ => rfl) r hr bs hbs

namespace Command

/-- The commands that can set a deadline. -/
def isTimed : Command → Bool
  | set | expire | pexpire | expireat | pexpireat => true
  | _ => false

theorem plan_env (cmd : Command) (h : cmd.isTimed = false) (env env' : Env) (args : List Bytes) :
    cmd.plan env args = cmd.plan env' args := by
  cases cmd with
  | set | expire | pexpire | expireat | pexpireat => cases h
  | _ => rfl

theorem plan_untimed (cmd : Command) (h : cmd.isTimed = false) (env : Env) (args : List Bytes)
    (steps : List Step) (hp : cmd.plan env args = some steps) : ∀ a ∈ steps, ¬ a.Timed := by
  by_cases hmut : cmd.isMutation = false
  · intro a ha
    obtain ⟨key, rfl⟩ := plan_readOnly cmd hmut env args steps hp a ha
    exact id
  · cases cmd with
    | del => exact planOf_forall _ _ _ (fun _ => textPlan_forall _ _ (fun _ => id) _) steps hp
    | mset =>
      refine planOf_forall _ _ _ (fun ps => loopPlan_forall _ _ (fun p steps hp a ha => ?_) ps)
        steps hp
      obtain ⟨key, -, rfl⟩ := Option.map_eq_some_iff.mp hp
      rw [List.mem_singleton.mp ha]
      exact id
    | hset =>
      have hp : planOf (hsetRequest args) (fun r => hsetSteps r.key r.pairs) = some steps := hp
      refine planOf_forall _ _ _ (fun r => loopPlan_forall _ _ (fun p steps hp a ha => ?_) _) steps
        hp
      obtain ⟨field, value, -, -, rfl⟩ := hsetRead_some r.key p steps hp
      rw [List.mem_singleton.mp ha]
      exact id
    | hdel => exact planOf_forall _ _ _ (fun _ => textPlan_forall _ _ (fun _ => id) _) steps hp
    | incr | decr | flushdb =>
      refine planOf_forall _ _ _ (fun _ a ha => ?_) steps hp
      rw [List.mem_singleton.mp ha]
      exact id
    | set | expire | pexpire | expireat | pexpireat => cases h
    | _ => exact absurd rfl hmut

/-- The command names its deadline, if any, by the time from now. -/
def relative (args : List Bytes) : Command → Bool
  | set => setRelative args
  | expire | pexpire => true
  | _ => false

/-- The replay of a command that was accepted, unless it panics. -/
theorem plan_same (cmd : Command) (env env' : Env) (args : List Bytes) (s s₁ : MemoryStore)
    (v : ResponseValue) (hrun : (cmd.execute env args).run s = some (.ok v, s₁)) (bs : List Step)
    (hbs : cmd.plan env' args = some bs) :
    ∃ as, cmd.plan env args = some as ∧
      SamePlan (cmd.relative args) env.clock env'.clock as bs := by
  by_cases htimed : cmd.isTimed = false
  · rw [plan_env cmd htimed env' env] at hbs
    exact ⟨bs, hbs, .untimed bs (plan_untimed cmd htimed env args bs hbs)⟩
  · -- Each of the five is one request with one step, so the request was read.
    have hdeadline : ∀ name resolve relative (target : Nat → Target),
        (∀ n, (target n).isRelative = relative) →
        (∀ c n, resolve c n = (target n).resolve c) →
        (deadlineCommand name resolve env args).run s = some (.ok v, s₁) →
        deadlinePlan env' args name resolve = some bs →
        ∃ as, deadlinePlan env args name resolve = some as ∧
        SamePlan relative env.clock env'.clock as bs := by
      intro name resolve relative target hrelative htarget hrun hbs
      obtain ⟨r, hr⟩ := ok_of_lift _ _ s s₁ v hrun
      exact ⟨_, by rw [deadlinePlan, hr]; rfl,
        deadlinePlan_same env env' args name resolve relative target hrelative htarget r hr bs hbs⟩
    cases cmd with
    | set =>
      obtain ⟨r, hr⟩ := ok_of_lift _ _ s s₁ v hrun
      refine ⟨_, ?_, setPlan_same env env' args r hr bs hbs⟩
      rw [plan, setPlan, hr]
      rfl
    | expire =>
      exact hdeadline "EXPIRE" resolveSecs true (fun n => .after (fromSecs n)) (fun _ => rfl)
        (fun _ _ => rfl) hrun hbs
    | pexpire =>
      exact hdeadline "PEXPIRE" resolveMillis true (fun n => .after (fromMillis n)) (fun _ => rfl)
        (fun _ _ => rfl) hrun hbs
    | expireat =>
      exact hdeadline "EXPIREAT" resolveUnixSecs false (fun n => .unix (saturatingMul n 1000))
        (fun _ => rfl) (fun _ _ => rfl) hrun hbs
    | pexpireat =>
      exact hdeadline "PEXPIREAT" resolveUnixTarget false .unix (fun _ => rfl)
        (fun _ _ => rfl) hrun hbs
    | _ => exact absurd rfl htimed

end Command

def ParsedCommand.relative (u : CaseMap) (cmd : ParsedCommand) : Bool :=
  (serverRegistry.find u cmd.name).any (Command.relative cmd.args)

/-- The replay of a logged command goes through the other registry. -/
theorem replayRegistry_plan_same (u : CaseMap) (env env' : Env) (cmd : ParsedCommand)
    (s s₁ : MemoryStore) (v : ResponseValue) (hmut : serverRegistry.isMutation u cmd.name = true)
    (hrun : (serverRegistry.execute u env cmd).run s = some (.ok v, s₁)) (bs : List Step)
    (hbs : replayRegistry.plan u env' cmd = some bs) :
    ∃ as, serverRegistry.plan u env cmd = some as ∧
      SamePlan (cmd.relative u) env.clock env'.clock as bs := by
  rw [replayRegistry_plan u env' cmd hmut] at hbs
  unfold CommandRegistry.execute at hrun
  unfold CommandRegistry.plan at hbs ⊢
  split at hrun
  · split at hrun
    · cases hrun
    · rename_i command hfind _ harity
      simp only [hfind, harity, ParsedCommand.relative, Option.any_some] at hbs ⊢
      exact command.plan_same env env' cmd.args s s₁ v hrun bs hbs
  · cases hrun

/-! ## Commands without a deadline -/

/-- The command names no deadline. -/
def Command.timeless (args : List Bytes) : Command → Bool
  | set =>
    match setArgs args with
    | some (.ok a) => a.opts.ttl.target?.isNone
    | _ => true
  | expire | pexpire | expireat | pexpireat => false
  | _ => true

theorem setPlan_timeless (env env' : Env) (args : List Bytes)
    (h : Command.timeless args .set = true) :
    setPlan env args = setPlan env' args ∧ ∀ steps, setPlan env args = some steps →
      ∀ a ∈ steps, ¬ a.Timed := by
  match hargs : setArgs args with
  | none =>
    have hplan : ∀ env, setPlan env args = none :=
      fun env => by rw [setPlan, setRequest, hargs]; rfl
    rw [hplan, hplan]
    exact ⟨rfl, fun steps hsteps => by cases hsteps⟩
  | some (.error e) =>
    have hplan : ∀ env, setPlan env args = some [] :=
      fun env => by rw [setPlan, setRequest, hargs]; rfl
    rw [hplan, hplan]
    refine ⟨rfl, fun steps hsteps => ?_⟩
    cases hsteps
    simp
  | some (.ok a) =>
    have hnone : a.opts.ttl.target? = none := by
      rw [Command.timeless, hargs] at h
      exact Option.isNone_iff_eq_none.mp h
    rw [setPlan, setPlan, setRequest, setRequest, planOf_bind_ok _ a hargs,
      planOf_bind_ok _ a hargs, planOf_bind_ok _ _ (resolveTtl_untimed _ _ hnone),
      planOf_bind_ok _ _ (resolveTtl_untimed _ _ hnone)]
    refine ⟨rfl, fun steps hsteps => ?_⟩
    cases hsteps
    intro b hb
    rw [List.mem_singleton.mp hb]
    simp only
    split <;> exact id

/-- Without a deadline the clock is nothing to the command. -/
theorem Command.plan_timeless (cmd : Command) (env env' : Env) (args : List Bytes)
    (h : cmd.timeless args = true) :
    cmd.plan env args = cmd.plan env' args ∧ ∀ steps, cmd.plan env args = some steps →
      ∀ a ∈ steps, ¬ a.Timed := by
  by_cases htimed : cmd.isTimed = false
  · exact ⟨plan_env cmd htimed env env' args, plan_untimed cmd htimed env args⟩
  · cases cmd with
    | set => exact setPlan_timeless env env' args h
    | expire | pexpire | expireat | pexpireat => cases h
    | _ => exact absurd rfl htimed

def ParsedCommand.timeless (u : CaseMap) (cmd : ParsedCommand) : Bool :=
  (serverRegistry.find u cmd.name).all (Command.timeless cmd.args)

theorem serverRegistry_plan_timeless (u : CaseMap) (env env' : Env) (cmd : ParsedCommand)
    (h : cmd.timeless u = true) :
    serverRegistry.plan u env cmd = serverRegistry.plan u env' cmd ∧
      ∀ steps, serverRegistry.plan u env cmd = some steps → ∀ a ∈ steps, ¬ a.Timed := by
  have hnil : ∀ steps : List Step, some [] = some steps → ∀ a ∈ steps, ¬ a.Timed := by
    rintro steps ⟨⟩
    simp
  unfold CommandRegistry.plan
  cases hfind : serverRegistry.find u cmd.name with
  | none => exact ⟨rfl, hnil⟩
  | some command =>
    simp only
    cases cmd.validateArity command.arity with
    | error e => exact ⟨rfl, hnil⟩
    | ok _ =>
      refine command.plan_timeless env env' cmd.args ?_
      rwa [ParsedCommand.timeless, hfind] at h

end RustyPotato
