import RustyPotato.Lib.Machine
import RustyPotato.Snapshot
import RustyPotato.Writer

/-!
# The server as a whole

Connections execute commands on one store, and log them through a channel to the one task that
writes the file. A rewrite of the log holds a barrier against the mutations. Every `await` between
the steps of `process_buffer`, of `BGREWRITEAOF` and of `run_writer_task` is a place where another
task may go on, so a run is any sequence of the actions below. Nothing fails in the file system
here.
-/

namespace RustyPotato

/-- A command that a connection has decoded, with its bytes. -/
structure Request where
  cmd : ParsedCommand
  frame : Bytes

/-- The messages to the writer. A swap names the connection that waits for its end. -/
inductive WriterCmd where
  | record (frame : Bytes)
  | swapFile (reply : Nat)
deriving DecidableEq

/-- A request as a client sends it. -/
def Request.of (name : String) (args : List Bytes) : Request :=
  ⟨⟨name, args⟩, encodeCommand (utf8 name :: args)⟩

/-- `AOF_CHANNEL_CAPACITY`. -/
def channelCapacity : Nat := 8192

/-- Where a connection is with its command. -/
inductive Phase where
  | idle
  /-- It holds the barrier as a reader. -/
  | guarded (r : Request)
  | executed (r : Request) (result : Except String ResponseValue)
  /-- The barrier is released, and the frame not yet sent. -/
  | finished (r : Request) (result : Except String ResponseValue)
  /-- The reply is not yet written. The number says which record was sent. -/
  | replying (result : Except String ResponseValue) (record : Option Nat)
  /-- `BGREWRITEAOF` holds the barrier as a writer. -/
  | rewriting
  | captured (frames : List Bytes)
  | written
  | swapping
  | swapped (result : Except RustyPotatoError Unit)

/-- The record that was sent for the command whose reply comes next. -/
def Phase.record? : Phase → Option Nat
  | replying _ record => record
  | _ => none

inductive Action where
  | acquire (i : Nat) (r : Request)
  | execute (i : Nat) (env : Env)
  | release (i : Nat)
  | send (i : Nat)
  | read (i : Nat) (env : Env) (r : Request)
  | reply (i : Nat)
  | lock (i : Nat)
  | snapshot (i : Nat) (env : Env)
  | writeTemp (i : Nat)
  | sendSwap (i : Nat)
  | finish (i : Nat)
  | recv
  | work (now : Int)
  | tick (now : Int)

structure Server where
  store : MemoryStore
  phase : Nat → Phase
  /-- The barrier: its readers, or the connection that rewrites. -/
  readers : Finset Nat
  rewriter : Option Nat
  channel : List WriterCmd
  /-- The message that the writer has taken. -/
  hand : Option WriterCmd
  writer : AofWriter
  /-- The frames of all the records sent so far. -/
  sent : List Bytes

namespace Server

/-- A server with an empty store, that has opened an empty file. -/
def start (policy : FsyncPolicy) (now : Int) : Server where
  store := .new
  phase := fun _ => .idle
  readers := ∅
  rewriter := none
  channel := []
  hand := none
  writer := .openAt policy now []
  sent := []

def goto (i : Nat) (p : Phase) (s : Server) : Server :=
  { s with phase := Function.update s.phase i p }

theorem phase_goto (i : Nat) (p : Phase) (s : Server) :
    (s.goto i p).phase = Function.update s.phase i p := rfl

/-- The reply to `BGREWRITEAOF`. -/
def rewriteReply : Except RustyPotatoError Unit → Except String ResponseValue
  | .ok () => .ok (.simpleString "Background append only file rewriting started")
  | .error e => .error e.toClientError

variable (u : CaseMap)

/-- The action, where it is possible. -/
def step (a : Action) (s : Server) : Option Server :=
  match a with
  | .acquire i r =>
    match s.phase i with
    | .idle =>
      if serverRegistry.isMutation u r.cmd.name = true ∧ s.rewriter = none then
        some { s.goto i (.guarded r) with readers := insert i s.readers }
      else none
    | _ => none
  | .execute i env =>
    match s.phase i with
    | .guarded r =>
      ((serverRegistry.execute u env r.cmd).run s.store).map fun x =>
        { s.goto i (.executed r x.1) with store := x.2 }
    | _ => none
  | .release i =>
    match s.phase i with
    | .executed r result => some { s.goto i (.finished r result) with readers := s.readers.erase i }
    | _ => none
  | .send i =>
    match s.phase i with
    | .finished r (.ok v) =>
      if s.channel.length < channelCapacity then
        some { s.goto i (.replying (.ok v) (some s.sent.length)) with
          channel := s.channel ++ [.record r.frame]
          sent := s.sent ++ [r.frame] }
      else none
    | .finished _ (.error e) => some (s.goto i (.replying (.error e) none))
    | _ => none
  | .read i env r =>
    match s.phase i with
    | .idle =>
      if serverRegistry.isMutation u r.cmd.name = false then
        ((serverRegistry.execute u env r.cmd).run s.store).map fun x =>
          { s.goto i (.replying x.1 none) with store := x.2 }
      else none
    | _ => none
  | .reply i =>
    match s.phase i with
    | .replying _ _ => some (s.goto i .idle)
    | _ => none
  | .lock i =>
    match s.phase i with
    | .idle =>
      if s.readers = ∅ ∧ s.rewriter = none then
        some { s.goto i .rewriting with rewriter := some i }
      else none
    | _ => none
  | .snapshot i env =>
    match s.phase i with
    | .rewriting =>
      match snapshotToFrames env.clock env.hashOrder (s.store.snapshot env.clock env.keyOrder) with
      | .ok frames => some (s.goto i (.captured frames))
      | .error e =>
        some { s.goto i (.replying (rewriteReply (.error e)) none) with rewriter := none }
    | _ => none
  | .writeTemp i =>
    match s.phase i with
    | .captured frames =>
      some { s.goto i .written with
        writer := { s.writer with disk := { s.writer.disk with temp := some frames.flatten } } }
    | _ => none
  | .sendSwap i =>
    match s.phase i with
    | .written =>
      if s.channel.length < channelCapacity then
        some { s.goto i .swapping with channel := s.channel ++ [.swapFile i] }
      else none
    | _ => none
  | .finish i =>
    match s.phase i with
    | .swapped result =>
      some { s.goto i (.replying (rewriteReply result) none) with rewriter := none }
    | _ => none
  | .recv =>
    match s.hand, s.channel with
    | none, m :: rest => some { s with hand := some m, channel := rest }
    | _, _ => none
  | .work now =>
    match s.hand with
    | some (.record frame) =>
      some { s with hand := none, writer := (s.writer.record now .ok frame).2 }
    | some (.swapFile i) =>
      some { s.goto i (.swapped (s.writer.swapFile now none).1) with
        hand := none
        writer := (s.writer.swapFile now none).2 }
    | none => none
  | .tick now =>
    match s.hand with
    | none => some { s with writer := (s.writer.periodicFlush now .ok).2 }
    | some _ => none

abbrev run : List Action → Server → Option Server := Lib.Machine.run (step u)

/-- What waits for the writer, the message in its hand first. -/
def queue (s : Server) : List WriterCmd := s.hand.toList ++ s.channel

/-! ## What an action can do -/

variable (s : Server)

/-- The actions that were possible, and what each of them changes. -/
inductive Moves : Action → Server → Prop
  | acquire (i : Nat) (r : Request) (hphase : s.phase i = .idle)
    (hmutation : serverRegistry.isMutation u r.cmd.name = true) (hfree : s.rewriter = none) :
    Moves (.acquire i r) { s.goto i (.guarded r) with readers := insert i s.readers }
  | execute (i : Nat) (env : Env) (r : Request) (result : Except String ResponseValue)
    (after : MemoryStore)
    (hphase : s.phase i = .guarded r)
    (hrun : (serverRegistry.execute u env r.cmd).run s.store = some (result, after)) :
    Moves (.execute i env) { s.goto i (.executed r result) with store := after }
  | release (i : Nat) (r : Request) (result : Except String ResponseValue)
    (hphase : s.phase i = .executed r result) :
    Moves (.release i) { s.goto i (.finished r result) with readers := s.readers.erase i }
  | send (i : Nat) (r : Request) (v : ResponseValue) (hphase : s.phase i = .finished r (.ok v)) :
    Moves (.send i) { s.goto i (.replying (.ok v) (some s.sent.length)) with
      channel := s.channel ++ [.record r.frame]
      sent := s.sent ++ [r.frame] }
  | skip (i : Nat) (r : Request) (e : String) (hphase : s.phase i = .finished r (.error e)) :
    Moves (.send i) (s.goto i (.replying (.error e) none))
  | read (i : Nat) (env : Env) (r : Request) (result : Except String ResponseValue)
    (after : MemoryStore)
    (hphase : s.phase i = .idle) (hmutation : serverRegistry.isMutation u r.cmd.name = false)
    (hrun : (serverRegistry.execute u env r.cmd).run s.store = some (result, after)) :
    Moves (.read i env r) { s.goto i (.replying result none) with store := after }
  | reply (i : Nat) (result : Except String ResponseValue) (record : Option Nat)
    (hphase : s.phase i = .replying result record) : Moves (.reply i) (s.goto i .idle)
  | lock (i : Nat) (hphase : s.phase i = .idle) (hreaders : s.readers = ∅)
    (hfree : s.rewriter = none) :
    Moves (.lock i) { s.goto i .rewriting with rewriter := some i }
  | snapshot (i : Nat) (env : Env) (frames : List Bytes) (hphase : s.phase i = .rewriting)
    (hframes : snapshotToFrames env.clock env.hashOrder (s.store.snapshot env.clock env.keyOrder) =
      .ok frames) :
    Moves (.snapshot i env) (s.goto i (.captured frames))
  | refuse (i : Nat) (env : Env) (e : RustyPotatoError) (hphase : s.phase i = .rewriting) :
    Moves (.snapshot i env)
    { s.goto i (.replying (rewriteReply (.error e)) none) with rewriter := none }
  | writeTemp (i : Nat) (frames : List Bytes) (hphase : s.phase i = .captured frames) :
    Moves (.writeTemp i) { s.goto i .written with
      writer := { s.writer with disk := { s.writer.disk with temp := some frames.flatten } } }
  | sendSwap (i : Nat) (hphase : s.phase i = .written) :
    Moves (.sendSwap i) { s.goto i .swapping with channel := s.channel ++ [.swapFile i] }
  | finish (i : Nat) (result : Except RustyPotatoError Unit)
    (hphase : s.phase i = .swapped result) :
    Moves (.finish i) { s.goto i (.replying (rewriteReply result) none) with rewriter := none }
  | recv (m : WriterCmd) (rest : List WriterCmd) (hhand : s.hand = none)
    (hchannel : s.channel = m :: rest) :
    Moves .recv { s with hand := some m, channel := rest }
  | record (now : Int) (frame : Bytes) (hhand : s.hand = some (.record frame)) :
    Moves (.work now) { s with hand := none, writer := (s.writer.record now .ok frame).2 }
  | swap (now : Int) (i : Nat) (hhand : s.hand = some (.swapFile i)) :
    Moves (.work now) { s.goto i (.swapped (s.writer.swapFile now none).1) with
      hand := none
      writer := (s.writer.swapFile now none).2 }
  | tick (now : Int) (hhand : s.hand = none) :
    Moves (.tick now) { s with writer := (s.writer.periodicFlush now .ok).2 }

variable {u s}

theorem step_moves (a : Action) (s' : Server) (h : step u a s = some s') : Moves u s a s' := by
  cases a with
  | acquire i r =>
    simp only [step] at h
    split at h
    · split_ifs at h with hc
      cases h
      exact .acquire i r (by assumption) hc.1 hc.2
    · cases h
  | execute i env =>
    simp only [step] at h
    split at h
    · obtain ⟨⟨result, after⟩, hrun, rfl⟩ := Option.map_eq_some_iff.mp h
      exact .execute i env _ result after (by assumption) hrun
    · cases h
  | release i =>
    simp only [step] at h
    split at h
    · cases h
      exact .release i _ _ (by assumption)
    · cases h
  | send i =>
    simp only [step] at h
    split at h
    · split_ifs at h
      cases h
      exact .send i _ _ (by assumption)
    · cases h
      exact .skip i _ _ (by assumption)
    · cases h
  | read i env r =>
    simp only [step] at h
    split at h
    · split_ifs at h with hc
      obtain ⟨⟨result, after⟩, hrun, rfl⟩ := Option.map_eq_some_iff.mp h
      exact .read i env r result after (by assumption) hc hrun
    · cases h
  | reply i =>
    simp only [step] at h
    split at h
    · cases h
      exact .reply i _ _ (by assumption)
    · cases h
  | lock i =>
    simp only [step] at h
    split at h
    · split_ifs at h with hc
      cases h
      exact .lock i (by assumption) hc.1 hc.2
    · cases h
  | snapshot i env =>
    simp only [step] at h
    split at h
    · split at h
      · cases h
        exact .snapshot i env _ (by assumption) (by assumption)
      · cases h
        exact .refuse i env _ (by assumption)
    · cases h
  | writeTemp i =>
    simp only [step] at h
    split at h
    · cases h
      exact .writeTemp i _ (by assumption)
    · cases h
  | sendSwap i =>
    simp only [step] at h
    split at h
    · split_ifs at h
      cases h
      exact .sendSwap i (by assumption)
    · cases h
  | finish i =>
    simp only [step] at h
    split at h
    · cases h
      exact .finish i _ (by assumption)
    · cases h
  | recv =>
    simp only [step] at h
    split at h
    · cases h
      exact .recv _ _ (by assumption) (by assumption)
    · cases h
  | work now =>
    simp only [step] at h
    split at h
    · cases h
      exact .record now _ (by assumption)
    · cases h
      exact .swap now _ (by assumption)
    · cases h
  | tick now =>
    simp only [step] at h
    split at h
    · cases h
      exact .tick now (by assumption)
    · cases h

end Server

end RustyPotato
