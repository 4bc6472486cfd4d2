import RustyPotato.IntegerText
import RustyPotato.Interleaving

/-!
# Restarts and rewrites

A server is stopped, opened again on its log, and its log is rewritten, at any time between two
commands and any number of times. Its clients cannot tell: apart from `TYPE` and `INFO`, every
command has the reply that it has on a server that has been up all the time and never rewrites. The
stop is an orderly one, so all that was logged has reached the file.
-/

namespace RustyPotato

open Lib.Machine

/--
A command, with what it meets on the server and what it meets on the one that has been up all the
time.
-/
structure NodeCall where
  env : Env
  env' : Env
  cmd : ParsedCommand

/-- A command and its reply, if it has not panicked. -/
abbrev Answered := NodeCall × Option (Except String ResponseValue)

/-- A server and its log, with the commands so far. -/
structure Node where
  store : MemoryStore
  file : Bytes
  answered : List Answered

inductive NodeEvent where
  | command (x : NodeCall) (frame : Bytes)
  | rewrite (env : Env)
  /-- The reads of the file, and what each command of the replay meets. -/
  | restart (chunks : List Bytes) (renvs : Nat → Env)

/-- Not `INFO`, which prints the process id and the uptime. -/
def ParsedCommand.NotInfo (u : CaseMap) (cmd : ParsedCommand) : Prop :=
  serverRegistry.find u cmd.name ≠ some .info

namespace Node

def start : Node := ⟨.new, [], []⟩

variable (u : CaseMap)

/-- `is_ok && command_registry.is_mutation(..)`. -/
def logs (cmd : ParsedCommand) : Option (Except String ResponseValue) → Bool
  | some (.ok _) => serverRegistry.isMutation u cmd.name
  | _ => false

def step (a : NodeEvent) (n : Node) : Option Node :=
  match a with
  | .command x frame =>
    let answer := respond u x.env x.cmd n.store
    some ⟨answer.2, if logs u x.cmd answer.1 then n.file ++ frame else n.file,
      n.answered ++ [(x, answer.1)]⟩
  | .rewrite env =>
    match snapshotToFrames env.clock env.hashOrder (n.store.snapshot env.clock env.keyOrder) with
    | .ok frames => some { n with file := frames.flatten }
    | .error _ => some n
  | .restart chunks renvs =>
    if chunks.flatten = n.file ∧ ∀ chunk ∈ chunks, chunk.length ≤ chunkSize then
      (recover u renvs (replayFile u .new chunks) .new).map fun store => { n with store }
    else none

/-- Both servers read the same clock, and a rewrite on request ends alike. -/
structure SameTime (env env' : Env) : Prop where
  clock : env.clock = env'.clock
  rewrite : env.rewrite = env'.rewrite

/--
The commands name no deadline, none of them fails midway, and the replay can read every frame.
-/
def Admits (limits : CodecLimits) (a : NodeEvent) (n : Node) : Prop :=
  match a with
  | .command x frame =>
    IsFrame u limits frame x.cmd ∧ x.cmd.totalArgs ≤ CodecLimits.default.maxArrayLength ∧
      frame.length + chunkSize ≤ CodecLimits.default.maxBufferSize ∧ x.cmd.timeless u = true ∧
      (x.cmd.NotType u ∧ x.cmd.NotInfo u ∧ SameTime x.env x.env') ∧
      ∀ e s', (serverRegistry.execute u x.env x.cmd).run n.store = some (.error e, s') →
        s'.live x.env.clock = n.store.live x.env.clock
  | .rewrite env =>
    ∀ frames, snapshotToFrames env.clock env.hashOrder (n.store.snapshot env.clock env.keyOrder) =
      .ok frames → fitsReplay env n.store frames = true
  | .restart _ _ => True

/-! ## The log holds the values -/

structure Durable (n : Node) : Prop where
  eternal : n.store.Eternal
  storable : n.store.Storable
  log : ∃ steps, IsLog u n.file steps ∧ ∀ k,
    (Step.valueAll k steps none).map printed = (n.store.values k).map printed

end Node

theorem storable_of_printed (v w : ValueType) (h : printed v = printed w) (hv : v.Storable) :
    w.Storable := by
  rcases printed_cases v w h with rfl | ⟨i, rfl, rfl⟩ | ⟨i, rfl, rfl⟩
  · exact hv
  · trivial
  · trivial

namespace MemoryStore

theorem Storable.of_values (s t : MemoryStore)
    (h : ∀ k, (t.values k).map printed = (s.values k).map printed) (hs : s.Storable) :
    t.Storable := by
  intro k e he
  have hvalue := h k
  unfold values Slot.value? at hvalue
  rw [he, Option.map_some, Option.map_some] at hvalue
  cases hold : (s.slot k).entry with
  | none =>
    rw [hold] at hvalue
    cases hvalue
  | some old =>
    rw [hold, Option.map_some, Option.map_some, Option.some.injEq] at hvalue
    exact storable_of_printed _ _ hvalue.symm (hs k old hold)

/-- Without deadlines, what prints alike is interchangeable. -/
theorem interchangeable_of_values (s t : MemoryStore) (hs : s.Eternal) (ht : t.Eternal)
    (h : ∀ k, (s.values k).map printed = (t.values k).map printed) : s.Interchangeable t := by
  intro k
  have hvalue := h k
  have hsk := hs k
  have htk := ht k
  unfold values Slot.value? at hvalue
  unfold Slot.Eternal at hsk htk
  unfold Slot.Interchangeable
  generalize (s.slot k).entry = x, (t.slot k).entry = y at hvalue hsk htk
  obtain _ | e := x
  · obtain _ | e' := y
    · exact .none
    · cases hvalue
  · obtain _ | e' := y
    · cases hvalue
    · exact .some ⟨by rw [hsk e rfl, htk e' rfl], Option.some.inj hvalue⟩

theorem Interchangeable.trans (s t r : MemoryStore) (h : s.Interchangeable t)
    (h' : t.Interchangeable r) : s.Interchangeable r := by
  intro k
  have hk := h k
  have hk' := h' k
  unfold Slot.Interchangeable at hk hk' ⊢
  generalize (s.slot k).entry = x, (t.slot k).entry = y, (r.slot k).entry = z at hk hk'
  cases hk with
  | none =>
    cases hk'
    exact .none
  | some hxy =>
    cases hk' with
    | some hyz => exact .some ⟨hxy.deadline.trans hyz.deadline, hxy.value.trans hyz.value⟩

end MemoryStore

namespace Node

variable {u : CaseMap}

theorem durable_start : Durable u start where
  eternal := MemoryStore.eternal_new
  storable _ := Slot.storable_empty
  log := ⟨[], isLog_nil u, fun _ => rfl⟩

/-- A command without a deadline leaves none, and does to the values what its steps say. -/
theorem respond_values (env : Env) (cmd : ParsedCommand) (htimeless : cmd.timeless u = true)
    (s : MemoryStore) (hs : s.Eternal) (steps : List Step)
    (hplan : serverRegistry.plan u env cmd = some steps) :
    (respond u env cmd s).2.Eternal ∧ ∀ k,
      (respond u env cmd s).2.values k = Step.valueAll k steps (s.values k) := by
  have huntimed := (serverRegistry_plan_timeless u env env cmd htimeless).2 steps hplan
  rw [respond_store, hplan, Option.map_some, Option.getD_some]
  exact ⟨(Step.runAll_values "" env.clock steps huntimed s hs).1,
    fun k => (Step.runAll_values k env.clock steps huntimed s hs).2⟩

theorem respond_eternal (env : Env) (cmd : ParsedCommand) (htimeless : cmd.timeless u = true)
    (s : MemoryStore) (hs : s.Eternal) : (respond u env cmd s).2.Eternal := by
  cases hplan : serverRegistry.plan u env cmd with
  | some steps => exact (respond_values env cmd htimeless s hs steps hplan).1
  | none =>
    rw [respond_store, hplan]
    exact hs

theorem respond_storable (env : Env) (cmd : ParsedCommand) (s : MemoryStore) (hs : s.Storable) :
    (respond u env cmd s).2.Storable := by
  rw [respond_store]
  cases hplan : serverRegistry.plan u env cmd with
  | none => exact hs
  | some steps =>
    exact Step.runAll_storable env.clock steps
      (CommandRegistry.plan_storable u _ env cmd steps hplan) s hs

/-- What is not logged has not changed a value. -/
theorem respond_unlogged (env : Env) (cmd : ParsedCommand) (htimeless : cmd.timeless u = true)
    (s : MemoryStore) (hs : s.Eternal)
    (hclean : ∀ e s', (serverRegistry.execute u env cmd).run s = some (.error e, s') →
      s'.live env.clock = s.live env.clock)
    (hlogs : logs u cmd (respond u env cmd s).1 = false) (k : String) :
    (respond u env cmd s).2.values k = s.values k := by
  have heternal := respond_eternal env cmd htimeless s hs
  unfold respond at hlogs heternal ⊢
  cases hrun : (serverRegistry.execute u env cmd).run s with
  | none => rfl
  | some x =>
    obtain ⟨r, s'⟩ := x
    rw [hrun] at hlogs heternal
    simp only at hlogs heternal ⊢
    cases r with
    | error e =>
      rw [← heternal.live_value env.clock k, hclean e s' hrun, hs.live_value env.clock k]
    | ok v =>
      obtain ⟨steps, hplan, rfl⟩ := CommandRegistry.exists_plan u _ env cmd s s' (.ok v) hrun
      have hpurges := CommandRegistry.plan_readOnly u _ env cmd hlogs steps hplan
      rw [(Agree.refl id s hs).purges id env.clock s s steps hpurges]

theorem Durable.command (limits : CodecLimits) (n : Node) (h : Durable u n) (x : NodeCall)
    (frame : Bytes) (hadmits : Admits u limits (.command x frame) n) (n' : Node)
    (hstep : step u (.command x frame) n = some n') : Durable u n' := by
  obtain ⟨hframe, hcount, hsize, htimeless, -, hclean⟩ := hadmits
  cases hstep
  refine ⟨respond_eternal x.env x.cmd htimeless n.store h.eternal,
    respond_storable x.env x.cmd n.store h.storable, ?_⟩
  obtain ⟨steps, hlog, hvalues⟩ := h.log
  cases hlogs : logs u x.cmd (respond u x.env x.cmd n.store).1 with
  | false =>
    refine ⟨steps, by simpa [hlogs] using hlog, fun k => ?_⟩
    simp only [respond_unlogged x.env x.cmd htimeless n.store h.eternal hclean hlogs k]
    exact hvalues k
  | true =>
    -- The command was accepted, so it has a plan, the same one at every replay.
    obtain ⟨v, s', hrun, hmutation⟩ : ∃ v s',
        (serverRegistry.execute u x.env x.cmd).run n.store = some (.ok v, s') ∧
        serverRegistry.isMutation u x.cmd.name = true := by
      unfold respond at hlogs
      cases hrun : (serverRegistry.execute u x.env x.cmd).run n.store with
      | none =>
        rw [hrun] at hlogs
        cases hlogs
      | some y =>
        obtain ⟨r, s'⟩ := y
        rw [hrun] at hlogs
        cases r with
        | error e => cases hlogs
        | ok v => exact ⟨v, s', rfl, hlogs⟩
    have hready : Server.Ready u ⟨x.cmd, frame⟩ :=
      ⟨hmutation, Replayable.isFrame u limits frame x.cmd ⟨hcount, hsize⟩ hframe, hsize, htimeless⟩
    obtain ⟨plan, hplan, -, -⟩ := hready.exists_plan _ x.env (.ok v) n.store s' hrun
    refine ⟨steps ++ plan, ?_, fun k => ?_⟩
    · simpa [hlogs] using hlog.append u _ _ _ _ (hready.isLog _ plan hplan)
    · rw [Step.valueAll_append]
      simp only [(respond_values x.env x.cmd htimeless n.store h.eternal plan (hplan x.env)).2 k]
      exact Step.valueAll_respects k printed respects_printed plan _ _ (hvalues k)

theorem Durable.rewrite (limits : CodecLimits) (n : Node) (h : Durable u n) (env : Env)
    (hadmits : Admits u limits (.rewrite env) n) (n' : Node)
    (hstep : step u (.rewrite env) n = some n') : Durable u n' := by
  simp only [step] at hstep
  split at hstep
  · rename_i frames hframes
    cases hstep
    obtain ⟨steps, hlog, hvalues⟩ := snapshot_isLog u env n.store h.eternal h.storable frames
      hframes (hadmits frames hframes)
    refine ⟨h.eternal, h.storable, steps, hlog, fun k => ?_⟩
    rw [hvalues k, Option.map_map]
    exact congrArg (fun f => (n.store.values k).map f) (funext Server.printed_printed)
  · cases hstep
    exact h

/-- The log is read back whole, whenever and however it is read. -/
theorem Durable.recovers (n : Node) (h : Durable u n) (chunks : List Bytes) (renvs : Nat → Env)
    (hfile : chunks.flatten = n.file) (hchunks : ∀ chunk ∈ chunks, chunk.length ≤ chunkSize) :
    ∃ t, recover u renvs (replayFile u .new chunks) .new = some t ∧ t.Eternal ∧
      ∀ k, (t.values k).map printed = (n.store.values k).map printed := by
  obtain ⟨steps, hlog, hvalues⟩ := h.log
  obtain ⟨t, ht, heternal, hsame⟩ := hlog.recovers u _ steps chunks hchunks hfile renvs
  exact ⟨t, ht, heternal, fun k => by rw [hsame k, hvalues k]⟩

theorem Durable.restart (n : Node) (h : Durable u n) (chunks : List Bytes) (renvs : Nat → Env)
    (n' : Node) (hstep : step u (.restart chunks renvs) n = some n') :
    Durable u n' ∧ n'.store.Interchangeable n.store ∧ n'.answered = n.answered := by
  simp only [step] at hstep
  split_ifs at hstep with hreads
  obtain ⟨t, ht, heternal, hvalues⟩ := h.recovers n chunks renvs hreads.1 hreads.2
  rw [ht] at hstep
  cases hstep
  refine ⟨⟨heternal, h.storable.of_values n.store t hvalues, ?_⟩,
    MemoryStore.interchangeable_of_values t n.store heternal h.eternal hvalues, rfl⟩
  obtain ⟨steps, hlog, hsteps⟩ := h.log
  exact ⟨steps, hlog, fun k => by rw [hsteps k, hvalues k]⟩

end Node

/-! ## The replies -/

theorem respondAll_concat (u : CaseMap) (xs : List (Env × ParsedCommand)) (x : Env × ParsedCommand)
    (s : MemoryStore) :
    respondAll u (xs ++ [x]) s =
      ((respondAll u xs s).1 ++ [(respond u x.1 x.2 (respondAll u xs s).2).1],
        (respond u x.1 x.2 (respondAll u xs s).2).2) := by
  induction xs generalizing s with
  | nil => rfl
  | cons y xs ih =>
    rw [List.cons_append, respondAll, ih]
    rfl

/-- The same in another process. -/
def Env.withHost (env : Env) (host : Host) : Env := { env with host }

theorem Command.execute_host (cmd : Command) (h : cmd ≠ .info) (env : Env) (host : Host)
    (args : List Bytes) : cmd.execute (env.withHost host) args = cmd.execute env args := by
  cases cmd with
  | info => exact absurd rfl h
  | _ => rfl

theorem respond_host (u : CaseMap) (cmd : ParsedCommand) (h : cmd.NotInfo u) (env : Env)
    (host : Host) (s : MemoryStore) :
    respond u (env.withHost host) cmd s = respond u env cmd s := by
  have hexecute : serverRegistry.execute u (env.withHost host) cmd =
      serverRegistry.execute u env cmd := by
    unfold CommandRegistry.execute
    cases hfind : serverRegistry.find u cmd.name with
    | none => rfl
    | some command => simp only [command.execute_host (fun hinfo => h (hinfo ▸ hfind)) env host]
  unfold respond
  rw [hexecute]

namespace Node

variable {u : CaseMap}

/-- The same commands on the server that has been up all the time. -/
def elsewhere (answered : List Answered) : List (Env × ParsedCommand) :=
  answered.map fun x => (x.1.env', x.1.cmd)

/-- The node next to the server that has been up all the time. -/
structure Matches (u : CaseMap) (n : Node) : Prop where
  durable : Durable u n
  store : n.store.Interchangeable (respondAll u (elsewhere n.answered) .new).2
  replies : List.Forall₂ (fun x r => x.1.cmd.Indistinct u x.2 r) n.answered
    (respondAll u (elsewhere n.answered) .new).1

theorem matches_start : Matches u start where
  durable := durable_start
  store _ := .none
  replies := .nil

/-- The process id and the uptime of the two servers may differ. -/
theorem respond_matches (x : NodeCall)
    (hcmd : x.cmd.NotType u ∧ x.cmd.NotInfo u ∧ SameTime x.env x.env') (s s' : MemoryStore)
    (hs : s.Interchangeable s') :
    x.cmd.Indistinct u (respond u x.env x.cmd s).1 (respond u x.env' x.cmd s').1 ∧
      (respond u x.env x.cmd s).2.Interchangeable (respond u x.env' x.cmd s').2 := by
  obtain ⟨htype, hinfo, htime⟩ := hcmd
  have hsame : x.env.SameReading (x.env'.withHost x.env.host) := ⟨htime.clock, rfl, htime.rewrite⟩
  have hboth := respond_interchangeable u x.env _ hsame x.cmd htype s s' hs
  rwa [respond_host u x.cmd hinfo x.env' x.env.host] at hboth

theorem Matches.step (limits : CodecLimits) (a : NodeEvent) (n n' : Node) (h : Matches u n)
    (hadmits : Admits u limits a n) (hstep : step u a n = some n') : Matches u n' := by
  cases a with
  | command x frame =>
    have hdurable := h.durable.command limits n x frame hadmits n' hstep
    cases hstep
    have hmore : ∀ r,
        elsewhere (n.answered ++ [(x, r)]) = elsewhere n.answered ++ [(x.env', x.cmd)] :=
      fun _ => List.map_append
    obtain ⟨hreply, hafter⟩ := respond_matches x hadmits.2.2.2.2.1 _ _ h.store
    refine ⟨hdurable, ?_, ?_⟩
    · rw [hmore, respondAll_concat]
      exact hafter
    · rw [hmore, respondAll_concat]
      exact List.rel_append h.replies (.cons hreply .nil)
  | rewrite env =>
    have hdurable := h.durable.rewrite limits n env hadmits n' hstep
    simp only [Node.step] at hstep
    split at hstep
    · cases hstep
      exact ⟨hdurable, h.store, h.replies⟩
    · cases hstep
      exact h
  | restart chunks renvs =>
    obtain ⟨hdurable, hsame, hanswered⟩ := h.durable.restart n chunks renvs n' hstep
    refine ⟨hdurable, ?_, ?_⟩
    · rw [hanswered]
      exact hsame.trans _ _ _ h.store
    · rw [hanswered]
      exact h.replies

/--
Whatever the restarts and rewrites between the commands, every reply is the one of a server that has
been up all the time, and the next restart comes up again.
-/
theorem restarts_invisible (limits : CodecLimits) (events : List NodeEvent) (n : Node)
    (hadmits : Along (step u) (Admits u limits) events start)
    (hrun : run (step u) events start = some n) :
    List.Forall₂ (fun x r => x.1.cmd.Indistinct u x.2 r) n.answered
      (respondAll u (elsewhere n.answered) .new).1 ∧
      ∀ chunks renvs, chunks.flatten = n.file → (∀ chunk ∈ chunks, chunk.length ≤ chunkSize) →
        (step u (.restart chunks renvs) n).isSome = true := by
  have hmatches : Matches u n := invariant (step u) (Admits u limits) (Matches u)
    (fun a s s' hs hok hs' => hs.step limits a s s' hok hs') events start n hadmits hrun
    matches_start
  refine ⟨hmatches.replies, fun chunks renvs hfile hchunks => ?_⟩
  obtain ⟨t, ht, -, -⟩ := hmatches.durable.recovers n chunks renvs hfile hchunks
  simp only [step]
  rw [if_pos ⟨hfile, hchunks⟩, ht]
  rfl

/-- The command is accepted, which can be evaluated. -/
def accepts (u : CaseMap) (limits : CodecLimits) (a : NodeEvent) (n : Node) : Bool :=
  match a with
  | .command x frame =>
    decide (IsFrame u limits frame x.cmd ∧ x.cmd.totalArgs ≤ CodecLimits.default.maxArrayLength ∧
      frame.length + chunkSize ≤ CodecLimits.default.maxBufferSize ∧ x.cmd.timeless u = true ∧
      serverRegistry.find u x.cmd.name ≠ some .type ∧
      serverRegistry.find u x.cmd.name ≠ some .info ∧
      x.env.clock = x.env'.clock ∧ x.env.rewrite = x.env'.rewrite) &&
    ((serverRegistry.execute u x.env x.cmd).run n.store).all fun r => r.1.isOk
  | .rewrite env =>
    match snapshotToFrames env.clock env.hashOrder (n.store.snapshot env.clock env.keyOrder) with
    | .ok frames => fitsReplay env n.store frames
    | .error _ => true
  | .restart _ _ => true

theorem admits_of_accepts (limits : CodecLimits) (a : NodeEvent) (n : Node)
    (h : accepts u limits a n = true) : Admits u limits a n := by
  cases a with
  | command x frame =>
    simp only [accepts, Bool.and_eq_true, decide_eq_true_eq] at h
    obtain ⟨⟨hframe, hcount, hsize, htimeless, htype, hinfo, hclock, hrewrite⟩, hok⟩ := h
    refine ⟨hframe, hcount, hsize, htimeless, ⟨htype, hinfo, hclock, hrewrite⟩, fun e s' hrun => ?_⟩
    rw [hrun] at hok
    cases hok
  | rewrite env =>
    intro frames hframes
    simpa only [accepts, hframes] using h
  | restart _ _ => trivial

/-- What a command meets in a process with this id. -/
def sampleIn (processId : Nat) : Env := Env.sample.withHost { Env.sample.host with processId }

/--
A key is counted up, before and after a rewrite and two restarts. Each process has an id of its own.
-/
def sampleLife : List NodeEvent :=
  let incr := encodeCommand [utf8 "INCR", utf8 "n"]
  let one := encodeCommand [utf8 "SET", utf8 "n", utf8 "1"]
  let count := fun processId =>
    NodeEvent.command ⟨sampleIn processId, sampleIn 1, ⟨"INCR", [utf8 "n"]⟩⟩ incr
  [count 1, .rewrite (sampleIn 1), .restart [one] fun _ => sampleIn 2, count 2,
    .restart [one, incr] fun _ => sampleIn 3, count 3]

theorem sampleLife_replies :
    ∃ n, run (step asciiCaseMap) sampleLife start = some n ∧
      List.Forall₂ (fun x r => x.1.cmd.Indistinct asciiCaseMap x.2 r) n.answered
        (respondAll asciiCaseMap (elsewhere n.answered) .new).1 := by
  obtain ⟨n, hrun⟩ := Option.isSome_iff_exists.mp
    (show (run (step asciiCaseMap) sampleLife start).isSome = true by decide +kernel)
  refine ⟨n, hrun, (restarts_invisible .default sampleLife n ?_ hrun).1⟩
  exact (along_of_check _ _ _ _ (by decide +kernel)).imp _ _ _ (admits_of_accepts .default) _ _

end Node

end RustyPotato
