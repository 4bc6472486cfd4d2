import RustyPotato.Barrier
import RustyPotato.LogValues

/-!
# The order of the log

A command is executed first and sent to the writer later, after the barrier was released. Between
the two the store is ahead of the log by the commands that are not yet sent. Where these keep to
different keys, the order in which they arrive does not matter.
-/

namespace RustyPotato

open Lib.Machine

/-- The steps, and with them the command, concern the key. -/
def Touching (k : String) (steps : List Step) : Prop := ∃ step ∈ steps, step.touches k

def ParsedCommand.Touches (u : CaseMap) (cmd : ParsedCommand) (k : String) : Prop :=
  ∃ env steps, serverRegistry.plan u env cmd = some steps ∧ Touching k steps

theorem not_touching_nil (k : String) : ¬ Touching k [] := by
  rintro ⟨step, hstep, -⟩
  cases hstep

theorem Step.valueAll_of_not_touching (k : String) (steps : List Step) (v : Option ValueType)
    (h : ¬ Touching k steps) :
    Step.valueAll k steps v = v :=
  Step.valueAll_untouched k steps v fun step hstep htouch => h ⟨step, hstep, htouch⟩

/-- The request that was executed and not yet sent. -/
def Phase.unsent : Phase → Option Request
  | executed r _ | finished r _ => some r
  | _ => none

namespace Server

section
variable (u : CaseMap) (limits : CodecLimits)

def repliesOk (i : Nat) (env : Env) (s : Server) : Bool :=
  match s.phase i with
  | .guarded r =>
    ((serverRegistry.execute u env r.cmd).run s.store).all fun x => x.1.toOption.isSome
  | _ => true

/-- The clients send mutations without deadlines, and each of them is accepted. -/
def admitted (a : Action) (s : Server) : Bool :=
  match a with
  | .acquire _ r => decide (IsFrame u limits r.frame r.cmd) && r.cmd.timeless u
  | .execute i env => s.repliesOk u i env
  | _ => true

/-- The replay can read the frame of the request, and the frames of the rewrite. -/
def fits (a : Action) (s : Server) : Bool :=
  match a with
  | .acquire _ r =>
    decide (r.cmd.totalArgs ≤ CodecLimits.default.maxArrayLength ∧
      r.frame.length + chunkSize ≤ CodecLimits.default.maxBufferSize)
  | .snapshot _ env =>
    match snapshotToFrames env.clock env.hashOrder (s.store.snapshot env.clock env.keyOrder) with
    | .ok frames => fitsReplay env s.store frames
    | .error _ => true
  | _ => true

/-- No command is executed while another on one of its keys waits to be sent. -/
def InTurn (a : Action) (s : Server) : Prop :=
  match a with
  | .execute i _ => ∀ r, s.phase i = .guarded r → ∀ j r', j ≠ i → (s.phase j).unsent = some r' →
      ∀ k, ¬ (r.cmd.Touches u k ∧ r'.cmd.Touches u k)
  | _ => True

/-- When a swap is sent no command waits to be sent. -/
def Settled (a : Action) (s : Server) : Prop :=
  match a with
  | .sendSwap i => s.phase i = .written → ∀ j, (s.phase j).unsent = none
  | _ => True

/-- A request that the log can take. -/
structure Ready (r : Request) : Prop where
  mutation : serverRegistry.isMutation u r.cmd.name = true
  frame : IsFrame u .default r.frame r.cmd
  size : r.frame.length + chunkSize ≤ CodecLimits.default.maxBufferSize
  timeless : r.cmd.timeless u = true

/-- The bytes are a log of the values in the store. -/
def Rewritten (bytes : Bytes) (store : MemoryStore) : Prop :=
  ∃ steps, IsLog u bytes steps ∧ ∀ k, Step.valueAll k steps none = (store.values k).map printed

/-- What is known of a connection, and the steps by which it is ahead of the log. -/
def PhaseSound (store : MemoryStore) (temp : Option Bytes) : Phase → List Step → Prop
  | .guarded r, ahead => ahead = [] ∧ Ready u r
  | .executed r result, ahead | .finished r result, ahead =>
    (∃ v, result = .ok v) ∧ Ready u r ∧ ∀ env, serverRegistry.plan u env r.cmd = some ahead
  | .captured frames, ahead => ahead = [] ∧ Rewritten u frames.flatten store
  | .written, ahead => ahead = [] ∧ ∃ bytes, temp = some bytes ∧ Rewritten u bytes store
  | .swapping, ahead => ahead = [] ∧ ∃ bytes, temp = some bytes
  | _, ahead => ahead = []

end

/--
The store is the log with the steps of the connections that are ahead of it, each on its own keys.
-/
structure Tracks (u : CaseMap) (f : ValueType → ValueType) (s : Server) (steps : List Step)
    (ahead : Nat → List Step) : Prop where
  log : IsLog u s.effective steps
  phases : ∀ i, PhaseSound u s.store s.writer.disk.temp (s.phase i) (ahead i)
  disjoint : ∀ i j k, i ≠ j → Touching k (ahead i) → ¬ Touching k (ahead j)
  values : ∀ i k, (∀ j ≠ i, ¬ Touching k (ahead j)) →
    (s.store.values k).map f = (Step.valueAll k (steps ++ ahead i) none).map f

structure Faithful (u : CaseMap) (f : ValueType → ValueType) (s : Server) : Prop where
  handle : s.writer.handle = .append
  eternal : s.store.Eternal
  storable : s.store.Storable
  tracks : ∃ steps ahead, Tracks u f s steps ahead

variable {u : CaseMap} {f : ValueType → ValueType} {s : Server}

/-- Only a rewrite depends on the store and on its file. -/
theorem PhaseSound.other (p : Phase) (hp : p.rewrites = false) (store store' : MemoryStore)
    (temp temp' : Option Bytes) (ahead : List Step) (h : PhaseSound u store temp p ahead) :
    PhaseSound u store' temp' p ahead := by
  cases p with
  | rewriting | captured | written | swapping | swapped => cases hp
  | _ => exact h

theorem touches_of_unsent (store : MemoryStore) (temp : Option Bytes) (p : Phase)
    (ahead : List Step) (h : PhaseSound u store temp p ahead) (k : String) (hk : Touching k ahead) :
    ∃ r, p.unsent = some r ∧ r.cmd.Touches u k := by
  have hnil : ahead ≠ [] := by
    rintro rfl
    exact not_touching_nil k hk
  cases p with
  | executed r result | finished r result =>
    exact ⟨r, rfl, .atClock (.ofNanos 0 (by decide)), ahead, h.2.2 _, hk⟩
  | guarded | captured | written | swapping => exact absurd h.1 hnil
  | idle | replying | rewriting | swapped => exact absurd h hnil

theorem Faithful.move (h : Faithful u f s) (s' : Server) (i : Nat) (p : Phase)
    (hphase : s'.phase = Function.update s.phase i p) (hstore : s'.store = s.store)
    (heffective : s'.effective = s.effective) (hhandle : s'.writer.handle = .append)
    (hp : ∀ ahead, PhaseSound u s.store s.writer.disk.temp (s.phase i) ahead →
      PhaseSound u s.store s'.writer.disk.temp p ahead)
    (hothers : ∀ j ≠ i, ∀ ahead, PhaseSound u s.store s.writer.disk.temp (s.phase j) ahead →
      PhaseSound u s.store s'.writer.disk.temp (s.phase j) ahead) : Faithful u f s' := by
  obtain ⟨steps, ahead, ht⟩ := h.tracks
  refine ⟨hhandle, hstore ▸ h.eternal, hstore ▸ h.storable, steps, ahead, heffective ▸ ht.log, ?_,
    ht.disjoint, ?_⟩
  · intro j
    rw [hphase, hstore, Function.update_apply]
    split_ifs with hji
    · exact hp _ (hji ▸ ht.phases j)
    · exact hothers j hji _ (ht.phases j)
  · rw [hstore]
    exact ht.values

theorem Faithful.goto (h : Faithful u f s) (s' : Server) (i : Nat) (p : Phase)
    (hphase : s'.phase = Function.update s.phase i p) (hstore : s'.store = s.store)
    (hwriter : s'.writer = s.writer) (hqueue : s'.queue = s.queue)
    (hp : ∀ ahead, PhaseSound u s.store s.writer.disk.temp (s.phase i) ahead →
      PhaseSound u s.store s.writer.disk.temp p ahead) : Faithful u f s' := by
  refine h.move s' i p hphase hstore ?_ (hwriter ▸ h.handle) (hwriter ▸ hp)
    (fun j _ ahead hj => hwriter ▸ hj)
  rw [effective, effective, hqueue, hwriter]

/-! ## What one action does -/

theorem ready_of_admitted (limits : CodecLimits) (i : Nat) (r : Request)
    (hadmitted : admitted u limits (.acquire i r) s = true) (hfits : fits (.acquire i r) s = true)
    (hmutation : serverRegistry.isMutation u r.cmd.name = true) : Ready u r := by
  rw [admitted, Bool.and_eq_true] at hadmitted
  obtain ⟨hcount, hsize⟩ := of_decide_eq_true hfits
  have hframe := Replayable.isFrame u limits r.frame r.cmd ⟨hcount, hsize⟩
    (of_decide_eq_true hadmitted.1)
  exact ⟨hmutation, hframe, hsize, hadmitted.2⟩

/-- The steps of a request, which are the same at any time, live and in the replay. -/
theorem Ready.exists_plan (r : Request) (h : Ready u r) (env : Env)
    (result : Except String ResponseValue) (store after : MemoryStore)
    (hrun : (serverRegistry.execute u env r.cmd).run store = some (result, after)) :
    ∃ steps, (∀ env, serverRegistry.plan u env r.cmd = some steps) ∧
      (∀ step ∈ steps, ¬ step.Timed) ∧
      after = Step.runAll env.clock steps store := by
  obtain ⟨steps, hplan, hafter⟩ := CommandRegistry.exists_plan u _ env r.cmd store after result hrun
  refine ⟨steps, fun env' => ?_,
    (serverRegistry_plan_timeless u env env r.cmd h.timeless).2 steps hplan, hafter⟩
  rw [(serverRegistry_plan_timeless u env' env r.cmd h.timeless).1, hplan]

theorem Ready.isLog (r : Request) (h : Ready u r) (steps : List Step)
    (hplan : ∀ env, serverRegistry.plan u env r.cmd = some steps) : IsLog u r.frame steps := by
  refine isLog_frame u r.frame r.cmd steps h.frame h.size ⟨fun env => ?_, ?_⟩
  · rw [replayRegistry_plan u env r.cmd h.mutation, hplan env]
  · let env : Env := .atClock (.ofNanos 0 (by decide))
    exact (serverRegistry_plan_timeless u env env r.cmd h.timeless).2 steps (hplan env)

/-- A command is executed, and its connection gets ahead of the log. -/
theorem Tracks.execute (hf : Respects f) (hd : Disciplined s) (heternal : s.store.Eternal)
    (steps : List Step) (ahead : Nat → List Step) (h : Tracks u f s steps ahead) (i : Nat)
    (c : Clock) (r : Request) (v : ResponseValue) (plan : List Step)
    (hphase : s.phase i = .guarded r) (hplan : ∀ env, serverRegistry.plan u env r.cmd = some plan)
    (huntimed : ∀ step ∈ plan, ¬ step.Timed) (hturn : ∀ j r', j ≠ i → (s.phase j).unsent = some r' →
      ∀ k, ¬ (r.cmd.Touches u k ∧ r'.cmd.Touches u k)) :
    Tracks u f { s.goto i (.executed r (.ok v)) with store := Step.runAll c plan s.store } steps
      (Function.update ahead i plan) := by
  have hi := h.phases i
  rw [hphase] at hi
  have hnone := hd.rewriter_none i (by rw [hphase]; rfl)
  have htouches : ∀ k, Touching k plan → r.cmd.Touches u k := fun k hk =>
    ⟨.atClock (.ofNanos 0 (by decide)), plan, hplan _, hk⟩
  -- The other connections that are ahead keep to other keys.
  have hapart : ∀ j ≠ i, ∀ k, Touching k plan → ¬ Touching k (ahead j) := by
    intro j hji k hk hkj
    obtain ⟨r', hr', htouch⟩ := touches_of_unsent _ _ _ _ (h.phases j) k hkj
    exact hturn j r' hji hr' k ⟨htouches k hk, htouch⟩
  have hrun := fun k => (Step.runAll_values k c plan huntimed s.store heternal).2
  refine ⟨h.log, fun j => ?_, fun j l k hjl hj hl => ?_, fun j k hothers => ?_⟩
  · show PhaseSound u _ _ (Function.update s.phase i _ j) _
    by_cases hji : j = i
    · subst hji
      rw [Function.update_self, Function.update_self]
      exact ⟨⟨v, rfl⟩, hi.2, hplan⟩
    · rw [Function.update_of_ne hji, Function.update_of_ne hji]
      refine (h.phases j).other _ ?_ _ _ _ _ _
      by_contra hcon
      rw [Bool.not_eq_false] at hcon
      rw [hd.rewrites j hcon] at hnone
      cases hnone
  · by_cases hji : j = i
    · subst hji
      rw [Function.update_self] at hj
      rw [Function.update_of_ne hjl.symm] at hl
      exact hapart l hjl.symm k hj hl
    · rw [Function.update_of_ne hji] at hj
      by_cases hli : l = i
      · subst hli
        rw [Function.update_self] at hl
        exact hapart j hji k hl hj
      · rw [Function.update_of_ne hli] at hl
        exact h.disjoint j l k hjl hj hl
  · show ((Step.runAll c plan s.store).values k).map f = _
    rw [hrun k]
    by_cases hji : j = i
    · subst hji
      have hold := h.values j k fun l hl => by
        have := hothers l hl
        rwa [Function.update_of_ne hl] at this
      rw [hi.1, List.append_nil] at hold
      rw [Function.update_self, Step.valueAll_append]
      exact Step.valueAll_respects k f hf plan _ _ hold
    · have hplan' : ¬ Touching k plan := by
        have := hothers i (Ne.symm hji)
        rwa [Function.update_self] at this
      rw [Step.valueAll_of_not_touching k plan _ hplan', Function.update_of_ne hji]
      refine h.values j k fun l hl => ?_
      by_cases hli : l = i
      · rw [hli, hi.1]
        exact not_touching_nil k
      · have := hothers l hl
        rwa [Function.update_of_ne hli] at this

/-- A frame is sent, and the log catches up with its connection. -/
theorem Tracks.send (steps : List Step) (ahead : Nat → List Step) (h : Tracks u f s steps ahead)
    (i : Nat) (r : Request) (v : ResponseValue) (hphase : s.phase i = .finished r (.ok v))
    (s' : Server) (p : Phase) (hphase' : s'.phase = Function.update s.phase i p)
    (hp : ∀ store temp, PhaseSound u store temp p []) (hstore : s'.store = s.store)
    (hwriter : s'.writer = s.writer) (hqueue : s'.queue = s.queue ++ [.record r.frame]) :
    Tracks u f s' (steps ++ ahead i) (Function.update ahead i []) := by
  have hi := h.phases i
  rw [hphase] at hi
  obtain ⟨-, hready, hplan⟩ := hi
  refine ⟨?_, fun j => ?_, fun j l k hjl hj hl => ?_, fun j k hothers => ?_⟩
  · have heffective : s'.effective = s.effective ++ r.frame := by
      rw [effective, effective, hqueue, hwriter, List.foldl_append]
      rfl
    rw [heffective]
    exact h.log.append u _ _ _ _ (hready.isLog r (ahead i) hplan)
  · rw [hphase', hstore, hwriter]
    by_cases hji : j = i
    · subst hji
      rw [Function.update_self, Function.update_self]
      exact hp _ _
    · rw [Function.update_of_ne hji, Function.update_of_ne hji]
      exact h.phases j
  · have hne : ∀ m, Touching k (Function.update ahead i [] m) → m ≠ i ∧ Touching k (ahead m) := by
      intro m hm
      rw [Function.update_apply] at hm
      split_ifs at hm with hmi
      · exact absurd hm (not_touching_nil k)
      · exact ⟨hmi, hm⟩
    exact h.disjoint j l k hjl (hne j hj).2 (hne l hl).2
  · rw [hstore]
    have hrest : ¬ Touching k (ahead i) ∨ ∀ m ≠ i, ¬ Touching k (ahead m) := by
      by_cases hk : Touching k (ahead i)
      · exact .inr fun m hm => h.disjoint i m k hm.symm hk
      · exact .inl hk
    rcases hrest with hk | hk
    · -- The command does not concern the key.
      have hold := h.values j k fun m hm => by
        by_cases hmi : m = i
        · rwa [hmi]
        · have := hothers m hm
          rwa [Function.update_of_ne hmi] at this
      rw [hold, List.append_assoc, Step.valueAll_append, Step.valueAll_append, Step.valueAll_append,
        Step.valueAll_of_not_touching k (ahead i) _ hk]
      by_cases hji : j = i
      · subst hji
        rw [Function.update_self, Step.valueAll_of_not_touching k (ahead j) _ hk]
        rfl
      · rw [Function.update_of_ne hji]
    · -- No other connection is ahead on it.
      rw [h.values i k hk, Step.valueAll_append k (steps ++ ahead i)]
      congr 1
      refine (Step.valueAll_of_not_touching k _ _ ?_).symm
      rw [Function.update_apply]
      split_ifs with hji
      · exact not_touching_nil k
      · exact hk j hji

theorem ahead_eq_nil (store : MemoryStore) (temp : Option Bytes) (p : Phase) (ahead : List Step)
    (h : PhaseSound u store temp p ahead) (hp : p.unsent = none) : ahead = [] := by
  cases p with
  | executed | finished => cases hp
  | guarded | captured | written | swapping => exact h.1
  | idle | replying | rewriting | swapped => exact h

/-- A swap is sent while the log is complete, and the rewrite takes its place. -/
theorem Tracks.sendSwap (hprinted : ∀ v, f (printed v) = f v) (steps : List Step)
    (ahead : Nat → List Step) (h : Tracks u f s steps ahead) (i : Nat)
    (hphase : s.phase i = .written) (hsettled : ∀ j, (s.phase j).unsent = none) (s' : Server)
    (hphase' : s'.phase = Function.update s.phase i .swapping) (hstore : s'.store = s.store)
    (hwriter : s'.writer = s.writer) (hqueue : s'.queue = s.queue ++ [.swapFile i]) :
    ∃ steps', Tracks u f s' steps' fun _ => [] := by
  have hi := h.phases i
  rw [hphase] at hi
  obtain ⟨-, bytes, htemp, steps', hlog, hvalues⟩ := hi
  refine ⟨steps', ?_, fun j => ?_, fun j l k _ hj => absurd hj (not_touching_nil k),
    fun j k _ => ?_⟩
  · have heffective : s'.effective = bytes := by
      rw [effective, hqueue, List.foldl_append, hwriter, htemp]
      rfl
    rwa [heffective]
  · rw [hphase', hstore, hwriter, Function.update_apply]
    split_ifs with hji
    · exact ⟨rfl, bytes, htemp⟩
    · exact ahead_eq_nil _ _ _ _ (h.phases j) (hsettled j) ▸ h.phases j
  · rw [hstore, List.append_nil, hvalues k, Option.map_map]
    congr 1
    exact funext fun v => (hprinted v).symm

theorem Faithful.same (h : Faithful u f s) (s' : Server) (hphase : s'.phase = s.phase)
    (hstore : s'.store = s.store) (heffective : s'.effective = s.effective)
    (hhandle : s'.writer.handle = .append) (htemp : s'.writer.disk.temp = s.writer.disk.temp) :
    Faithful u f s' := by
  refine h.move s' 0 (s.phase 0) ?_ hstore heffective hhandle
    (fun ahead hp => htemp ▸ hp) fun j _ ahead hp => htemp ▸ hp
  rw [hphase, Function.update_eq_self]

/-- The conditions under which an action keeps the log complete. -/
def Orderly (u : CaseMap) (limits : CodecLimits) (f : ValueType → ValueType) (a : Action)
    (s : Server) : Prop :=
  admitted u limits a s = true ∧ fits a s = true ∧ InTurn u a s ∧
    ∀ i, a = .sendSwap i → Settled a s ∧ ∀ v, f (printed v) = f v

theorem Faithful.execute (hf : Respects f) (limits : CodecLimits) (hd : Disciplined s)
    (h : Faithful u f s) (i : Nat) (env : Env) (r : Request) (result : Except String ResponseValue)
    (after : MemoryStore) (hphase : s.phase i = .guarded r)
    (hrun : (serverRegistry.execute u env r.cmd).run s.store = some (result, after))
    (hadmitted : admitted u limits (.execute i env) s = true)
    (hturn : InTurn u (.execute i env) s) :
    Faithful u f { s.goto i (.executed r result) with store := after } := by
  obtain ⟨steps, ahead, ht⟩ := h.tracks
  have hready : Ready u r := by
    have := ht.phases i
    rw [hphase] at this
    exact this.2
  obtain ⟨plan, hplan, huntimed, rfl⟩ := hready.exists_plan r env result s.store after hrun
  have hreply : ∃ v, result = .ok v := by
    simp only [admitted, repliesOk, hphase, hrun, Option.all_some] at hadmitted
    cases result with
    | ok v => exact ⟨v, rfl⟩
    | error e => cases hadmitted
  obtain ⟨v, rfl⟩ := hreply
  refine ⟨h.handle, (Step.runAll_values "" env.clock plan huntimed s.store h.eternal).1,
    Step.runAll_storable env.clock plan
    (CommandRegistry.plan_storable u _ env r.cmd plan (hplan env)) s.store
      h.storable,
    steps, Function.update ahead i plan, ?_⟩
  exact ht.execute hf hd h.eternal steps ahead i env.clock r v plan hphase hplan huntimed
    (hturn r hphase)

theorem Faithful.writeTemp (hd : Disciplined s) (h : Faithful u f s) (i : Nat) (frames : List Bytes)
    (hphase : s.phase i = .captured frames) :
    Faithful u f { s.goto i .written with
      writer := { s.writer with disk := { s.writer.disk with temp := some frames.flatten } } } := by
  have hrewrites : (s.phase i).rewrites = true := by rw [hphase]; rfl
  refine h.move _ i _ rfl rfl ?_ h.handle (fun ahead hp => ?_) fun j hji ahead hp => ?_
  · exact foldl_applyCmd s.queue (hd.no_swaps i hrewrites (by rw [hphase]; simp)) _ _ _
  · rw [hphase] at hp
    exact ⟨hp.1, frames.flatten, rfl, hp.2⟩
  · exact hp.other _ (hd.not_rewrites i j hrewrites hji) _ _ _ _ _

theorem Faithful.record (h : Faithful u f s) (now : Int) (frame : Bytes)
    (hhand : s.hand = some (.record frame)) :
    Faithful u f { s with hand := none, writer := (s.writer.record now .ok frame).2 } := by
  obtain ⟨hlive, hhandle, htemp⟩ := AofWriter.flushWhen_ok now (s.writer.push frame) h.handle
    ((s.writer.push frame).recordSync now)
  refine h.same _ rfl rfl ?_ hhandle htemp
  have hqueue : s.queue = .record frame :: s.channel := by simp [queue, hhand]
  rw [effective, effective, hqueue, List.foldl_cons]
  simp only [AofWriter.record, queue, Option.toList_none, List.nil_append, hlive, htemp]
  rw [applyCmd, List.append_assoc]
  rfl

/-- The swap puts on disk what the log already counted as written. -/
theorem Faithful.swap (hd : Disciplined s) (h : Faithful u f s) (now : Int) (i : Nat)
    (hhand : s.hand = some (.swapFile i)) :
    Faithful u f { s.goto i (.swapped (s.writer.swapFile now none).1) with
      hand := none
      writer := (s.writer.swapFile now none).2 } := by
  obtain ⟨steps, ahead, ht⟩ := h.tracks
  have hqueue : s.queue = .swapFile i :: s.channel := by simp [queue, hhand]
  have hphase := hd.swaps i (by rw [hqueue]; exact List.mem_cons_self)
  have hrewrites : (s.phase i).rewrites = true := by rw [hphase]; rfl
  have honce := hd.once
  rw [hqueue, List.countP_cons_of_pos rfl] at honce
  have hsound := ht.phases i
  rw [hphase] at hsound
  obtain ⟨-, bytes, htemp⟩ := hsound
  have hwriter : (s.writer.swapFile now none).2 =
      { s.writer with
        buffer := []
        disk := ⟨bytes, bytes, none⟩
        handle := .append
        lastFlush := now } := by
    simp [AofWriter.swapFile, htemp]
  refine h.move _ i _ rfl rfl ?_ (by rw [hwriter]) (fun ahead hp => ?_) fun j hji ahead hp => ?_
  · rw [effective, effective, hqueue, List.foldl_cons, applyCmd, htemp]
    simp only [hwriter, List.append_nil, Option.getD_some]
    exact foldl_applyCmd s.channel (by omega) _ _ _
  · rw [hphase] at hp
    exact hp.1
  · exact hp.other _ (hd.not_rewrites i j hrewrites hji) _ _ _ _ _

theorem Faithful.step (hf : Respects f) (limits : CodecLimits) (hd : Disciplined s)
    (h : Faithful u f s) (a : Action) (s' : Server) (hok : Orderly u limits f a s)
    (hm : Moves u s a s') : Faithful u f s' := by
  obtain ⟨hadmitted, hfits, hturn, hswap⟩ := hok
  obtain ⟨steps, ahead, ht⟩ := h.tracks
  cases hm with
  | acquire i r hphase hmutation hfree =>
    refine h.goto _ i _ rfl rfl rfl rfl fun ahead hp => ?_
    rw [hphase] at hp
    exact ⟨hp, ready_of_admitted limits i r hadmitted hfits hmutation⟩
  | execute i env r result after hphase hrun =>
    exact h.execute hf limits hd i env r result after hphase hrun hadmitted hturn
  | release i _ _ hphase | reply i _ _ hphase | lock i hphase | refuse i _ _ hphase
  | finish i _ hphase =>
    refine h.goto _ i _ rfl rfl rfl rfl fun ahead hp => ?_
    rw [hphase] at hp
    exact hp
  | send i r v hphase =>
    refine ⟨h.handle, h.eternal, h.storable, _, _,
      ht.send steps ahead i r v hphase _ _ rfl (fun _ _ => rfl) rfl rfl ?_⟩
    exact (List.append_assoc ..).symm
  | skip i r e hphase =>
    have := ht.phases i
    rw [hphase] at this
    obtain ⟨⟨v, hv⟩, -⟩ := this
    cases hv
  | read i env r result after hphase hmutation hrun =>
    obtain ⟨plan, hplan, rfl⟩ := CommandRegistry.exists_plan u _ env r.cmd s.store after result hrun
    have hpurge := (Agree.refl id s.store h.eternal).purges id env.clock s.store s.store plan
      (CommandRegistry.plan_readOnly u _ env r.cmd hmutation plan hplan)
    refine h.goto _ i _ rfl hpurge rfl rfl fun ahead hp => ?_
    rw [hphase] at hp
    exact hp
  | snapshot i env frames hphase hframes =>
    refine h.goto _ i _ rfl rfl rfl rfl fun ahead hp => ?_
    rw [hphase] at hp
    simp only [fits, hframes] at hfits
    exact ⟨hp, snapshot_isLog u env s.store h.eternal h.storable frames hframes hfits⟩
  | writeTemp i frames hphase => exact h.writeTemp hd i frames hphase
  | sendSwap i hphase =>
    obtain ⟨hsettled, hprinted⟩ := hswap i rfl
    obtain ⟨steps', ht'⟩ := ht.sendSwap hprinted steps ahead i hphase (hsettled hphase)
      { s.goto i .swapping with channel := s.channel ++ [.swapFile i] } rfl rfl rfl
      (List.append_assoc ..).symm
    exact ⟨h.handle, h.eternal, h.storable, steps', _, ht'⟩
  | recv m rest hhand hchannel =>
    refine h.same _ rfl rfl ?_ h.handle rfl
    simp [effective, queue, hhand, hchannel]
  | record now frame hhand => exact h.record now frame hhand
  | swap now i hhand => exact h.swap hd now i hhand
  | tick now hhand =>
    obtain ⟨hlive, hhandle, htemp⟩ :=
      AofWriter.flushWhen_ok now s.writer h.handle (s.writer.periodicSync now)
    refine h.same _ rfl rfl ?_ hhandle htemp
    rw [effective, effective]
    simp only [AofWriter.periodicFlush, hlive, htemp]
    rfl

/-! ## What a run leaves in the file -/

/-- Nobody has a command under way, and the writer has dealt with all it was sent. -/
structure Quiet (s : Server) : Prop where
  phase : ∀ i, s.phase i = .idle
  channel : s.channel = []
  hand : s.hand = none

theorem Quiet.effective (h : Quiet s) : s.effective = s.writer.disk.live ++ s.writer.buffer := by
  simp [Server.effective, queue, h.channel, h.hand]

theorem Faithful.recovers (hquiet : Quiet s) (h : Faithful u f s) (chunks : List Bytes)
    (hchunks : ∀ chunk ∈ chunks, chunk.length ≤ chunkSize)
    (hfile : chunks.flatten = s.writer.disk.live ++ s.writer.buffer) (renvs : Nat → Env) :
    ∃ t, recover u renvs (replayFile u .new chunks) .new = some t ∧ Agree f t s.store := by
  obtain ⟨steps, ahead, ht⟩ := h.tracks
  have hahead : ∀ i, ahead i = [] := by
    intro i
    have := ht.phases i
    rwa [hquiet.phase i] at this
  obtain ⟨t, ht', heternal, hvalues⟩ := ht.log.recovers u _ steps chunks hchunks
    (hfile.trans hquiet.effective.symm) renvs
  refine ⟨t, ht', heternal, h.eternal, fun k => ?_⟩
  rw [hvalues k, ht.values 0 k fun j _ => hahead j ▸ not_touching_nil k, hahead 0, List.append_nil]

end Server

end RustyPotato
