import RustyPotato.Interleaving

/-!
# The end of a server (`shutdown` in `lib.rs`)

`shutdown` tells the accept loop and the handlers to stop, waits until the pool is empty or for half
a minute, and then sends the writer a last message. The accept loop may be about to take a client in
when it is told, and what is sent behind the last message is lost. What was sent before it is in the
file, and synced.
-/

namespace RustyPotato

open Lib.Machine

/-- `channel_closed` -/
def channelClosed : RustyPotatoError :=
  .persistenceError "AOF writer task is no longer accepting messages" false

/-- `reply_dropped` -/
def replyDropped : RustyPotatoError := .persistenceError "AOF writer dropped a reply channel" false

def Action.connection? : Action → Option Nat
  | acquire i _ | execute i _ | release i | send i | read i _ _ | reply i | lock i | snapshot i _
  | writeTemp i | sendSwap i | finish i => some i
  | recv | work _ | tick _ => none

/-- The connection is about to send the writer a message. -/
def Phase.enqueues : Phase → Bool
  | finished _ (.ok _) | written => true
  | _ => false

/--
What becomes of a connection that needs the writer when the writer is gone. An error of the log is
not reported.
-/
def Phase.lose : Phase → Option Phase
  | finished _ (.ok v) => some (replying (.ok v) none)
  | written => some (swapped (.error channelClosed))
  | swapping => some (swapped (.error replyDropped))
  | _ => none

inductive Stage where
  | running
  /-- The signal is sent, and the pool is looked at from time to time. -/
  | draining
  /-- The last message is in the channel. -/
  | stopping
  | stopped
deriving DecidableEq

structure RustyPotatoServer where
  server : Server
  /-- The connections in the pool. -/
  active : Finset Nat
  listening : Bool
  /-- `handle_new_connection` has a client. -/
  accepting : Bool
  stage : Stage
  /-- The messages of the channel before the last one. -/
  ahead : Nat
  /--
  The log with all that was sent before the last message, and whether the pool was empty then and
  nobody came later.
  -/
  promised : Bytes
  clean : Bool

inductive ServerEvent where
  | serve (a : Action)
  | accept
  | join (i : Nat)
  | leave (i : Nat)
  | signal
  | hear
  | drained
  | giveUp
  | close (now : Int)
  | lose (i : Nat)

namespace RustyPotatoServer

def start (policy : FsyncPolicy) (now : Int) : RustyPotatoServer where
  server := .start policy now
  active := ∅
  listening := true
  accepting := false
  stage := .running
  ahead := 0
  promised := []
  clean := false

/-- The writer takes no message behind the last one, and the last one has a place in the channel. -/
def permits (a : Action) (h : RustyPotatoServer) : Bool :=
  match h.stage, a with
  | .stopping, .recv => decide (0 < h.ahead)
  | .stopping, .send i | .stopping, .sendSwap i =>
    !(h.server.phase i).enqueues || decide (h.server.channel.length + 1 < channelCapacity)
  | .stopped, .send i | .stopped, .sendSwap i => !(h.server.phase i).enqueues
  | .stopped, .recv | .stopped, .work _ | .stopped, .tick _ => false
  | _, _ => true

def aheadAfter (a : Action) (ahead : Nat) : Nat :=
  match a with
  | .recv => ahead - 1
  | _ => ahead

/-- The last message is sent. -/
def finishUp (clean : Bool) (h : RustyPotatoServer) : Option RustyPotatoServer :=
  if h.server.channel.length < channelCapacity then
    some { h with
      stage := .stopping
      ahead := h.server.channel.length
      promised := h.server.effective
      clean }
  else none

def step (u : CaseMap) (a : ServerEvent) (h : RustyPotatoServer) : Option RustyPotatoServer :=
  match a with
  | .serve a =>
    if (∀ i ∈ a.connection?, i ∈ h.active) ∧ h.permits a = true then
      (h.server.step u a).map fun server => { h with server, ahead := aheadAfter a h.ahead }
    else none
  | .accept => if h.listening ∧ ¬ h.accepting then some { h with accepting := true } else none
  | .join i =>
    if h.accepting ∧ i ∉ h.active then
      some { h with
        accepting := false
        active := insert i h.active
        clean := h.clean && decide (h.stage = .running ∨ h.stage = .draining) }
    else none
  | .leave i =>
    if i ∈ h.active ∧ (h.server.phase i).isIdle = true then
      some { h with active := h.active.erase i }
    else none
  | .signal => if h.stage = .running then some { h with stage := .draining } else none
  | .hear =>
    if h.stage ≠ .running ∧ h.listening ∧ ¬ h.accepting then
      some { h with listening := false }
    else none
  | .drained => if h.stage = .draining ∧ h.active = ∅ then h.finishUp true else none
  -- After half a minute.
  | .giveUp => if h.stage = .draining then h.finishUp false else none
  | .close now =>
    if h.stage = .stopping ∧ h.ahead = 0 ∧ h.server.hand = none then
      some { h with
        stage := .stopped
        server := { h.server with
          channel := []
          writer := (h.server.writer.flushToDisk now .ok true).2 } }
    else none
  | .lose i =>
    if h.stage = .stopped ∧ i ∈ h.active then
      (h.server.phase i).lose.map fun p => { h with server := h.server.goto i p }
    else none

end RustyPotatoServer

namespace Server

/-- The writer has its file, and a swap has one to put in its place. -/
structure Writing (s : Server) : Prop where
  handle : s.writer.handle = .append
  temp : ∀ i, s.phase i = .written ∨ s.phase i = .swapping → s.writer.disk.temp ≠ none

variable {u : CaseMap} {s : Server}

theorem Writing.goto (h : Writing s) (s' : Server) (i : Nat) (p : Phase)
    (hphase : s'.phase = Function.update s.phase i p) (hwriter : s'.writer = s.writer)
    (hp : p = .written ∨ p = .swapping → s.phase i = .written ∨ s.phase i = .swapping) :
    Writing s' := by
  refine ⟨hwriter ▸ h.handle, fun j hj => ?_⟩
  rw [hphase, Function.update_apply] at hj
  rw [hwriter]
  split_ifs at hj with hji
  · exact h.temp i (hp hj)
  · exact h.temp j hj

theorem Writing.step (h : Writing s) (hd : Disciplined s) (a : Action) (s' : Server)
    (hm : Moves u s a s') : Writing s' := by
  cases hm with
  | acquire i | execute i | release i | send i | skip i | read i | reply i | lock i | snapshot i
  | refuse i
  | finish i =>
    exact h.goto _ i _ rfl rfl (by simp)
  | sendSwap i hphase => exact h.goto _ i _ rfl rfl fun _ => .inl hphase
  | writeTemp i frames hphase => exact ⟨h.handle, fun j _ => Option.some_ne_none _⟩
  | recv => exact ⟨h.handle, h.temp⟩
  | record now frame hhand =>
    obtain ⟨-, hhandle, htemp⟩ := AofWriter.flushWhen_ok now (s.writer.push frame) h.handle
      ((s.writer.push frame).recordSync now)
    exact ⟨hhandle, fun i hi => by rw [AofWriter.record, htemp]; exact h.temp i hi⟩
  | tick now hhand =>
    obtain ⟨-, hhandle, htemp⟩ :=
      AofWriter.flushWhen_ok now s.writer h.handle (s.writer.periodicSync now)
    exact ⟨hhandle, fun i hi => by rw [AofWriter.periodicFlush, htemp]; exact h.temp i hi⟩
  | swap now i hhand =>
    -- Nobody else has a rewrite under way.
    have hphase := hd.swaps i (by simp [queue, hhand])
    have hrewrites : (s.phase i).rewrites = true := by rw [hphase]; rfl
    obtain ⟨contents, hcontents⟩ := Option.ne_none_iff_exists'.mp (h.temp i (.inr hphase))
    refine ⟨by simp [AofWriter.swapFile, hcontents], fun j hj => ?_⟩
    simp only [phase_goto, Function.update_apply] at hj
    split_ifs at hj with hji
    · simp at hj
    · have hother := hd.not_rewrites i j hrewrites hji
      rcases hj with hj | hj <;> rw [hj] at hother <;> cases hother

/-- The file with the message in hand and the next `n` of the channel. -/
def fileWith (n : Nat) (s : Server) : Bytes :=
  (s.hand.toList ++ s.channel.take n).foldl (applyCmd s.writer.disk.temp)
    (s.writer.disk.live ++ s.writer.buffer)

theorem fileWith_length : s.fileWith s.channel.length = s.effective := by
  rw [fileWith, List.take_length]
  rfl

/--
What the writer still makes of the messages up to one place does not depend on what goes on behind
it.
-/
theorem fileWith_step (hd : Disciplined s) (hw : Writing s) (a : Action) (s' : Server)
    (hm : Moves u s a s') (n : Nat) (hn : n ≤ s.channel.length) (hrecv : a = .recv → 0 < n) :
    s'.fileWith (RustyPotatoServer.aheadAfter a n) = s.fileWith n ∧
      RustyPotatoServer.aheadAfter a n ≤ s'.channel.length := by
  cases hm with
  | acquire | execute | release | skip | read | reply | lock | snapshot | refuse | finish =>
    exact ⟨rfl, hn⟩
  | send i r v hphase | sendSwap i hphase =>
    refine ⟨?_, hn.trans (by simp)⟩
    simp only [fileWith, RustyPotatoServer.aheadAfter, List.take_append_of_le_length hn]
    rfl
  | writeTemp i frames hphase =>
    refine ⟨foldl_applyCmd _ ?_ _ _ _, hn⟩
    have hnone := hd.no_swaps i (by rw [hphase]; rfl) (by rw [hphase]; simp)
    refine List.countP_eq_zero.mpr fun m hmem => List.countP_eq_zero.mp hnone m ?_
    rcases List.mem_append.mp hmem with hmem | hmem
    · exact List.mem_append_left _ hmem
    · exact List.mem_append_right _ (List.mem_of_mem_take hmem)
  | recv m rest hhand hchannel =>
    obtain ⟨k, rfl⟩ : ∃ k, n = k + 1 := ⟨n - 1, by have := hrecv rfl; omega⟩
    rw [hchannel, List.length_cons] at hn
    refine ⟨?_, by simpa [RustyPotatoServer.aheadAfter] using hn⟩
    simp [fileWith, RustyPotatoServer.aheadAfter, hhand, hchannel]
  | record now frame hhand =>
    obtain ⟨hlive, -, htemp⟩ := AofWriter.flushWhen_ok now (s.writer.push frame) hw.handle
      ((s.writer.push frame).recordSync now)
    refine ⟨?_, hn⟩
    simp only [fileWith, RustyPotatoServer.aheadAfter, AofWriter.record, hlive, htemp, hhand,
      Option.toList_some, Option.toList_none, List.nil_append, List.cons_append, List.foldl_cons]
    rw [applyCmd, List.append_assoc]
    rfl
  | tick now hhand =>
    obtain ⟨hlive, -, htemp⟩ :=
      AofWriter.flushWhen_ok now s.writer hw.handle (s.writer.periodicSync now)
    refine ⟨?_, hn⟩
    simp only [fileWith, RustyPotatoServer.aheadAfter, AofWriter.periodicFlush, hlive, htemp]
  | swap now i hhand =>
    refine ⟨?_, hn⟩
    have hqueue : s.queue = .swapFile i :: s.channel := by simp [queue, hhand]
    have hphase := hd.swaps i (by rw [hqueue]; exact List.mem_cons_self)
    have honce := hd.once
    rw [hqueue, List.countP_cons_of_pos rfl] at honce
    have hnone : (s.channel.take n).countP WriterCmd.isSwap = 0 := by
      have := (List.take_sublist n s.channel).countP_le (p := WriterCmd.isSwap)
      omega
    obtain ⟨contents, hcontents⟩ := Option.ne_none_iff_exists'.mp (hw.temp i (.inr hphase))
    simp only [fileWith, RustyPotatoServer.aheadAfter, hhand, Option.toList_some,
      Option.toList_none, List.nil_append, List.cons_append, List.foldl_cons, AofWriter.swapFile,
      hcontents, applyCmd, Option.getD_some, Server.goto, reduceCtorEq, if_false, List.append_nil]
    exact foldl_applyCmd _ hnone _ _ _

end Server

namespace RustyPotatoServer

/-! ## What an event can do -/

inductive Turns (u : CaseMap) (h : RustyPotatoServer) : ServerEvent → RustyPotatoServer → Prop
  | serve (a : Action) (server : Server) (hactive : ∀ i ∈ a.connection?, i ∈ h.active)
    (hpermits : h.permits a = true)
    (hstep : h.server.step u a = some server) :
    Turns u h (.serve a) { h with server, ahead := aheadAfter a h.ahead }
  | accept (hlistening : h.listening = true) : Turns u h .accept { h with accepting := true }
  | join (i : Nat) (haccepting : h.accepting = true) : Turns u h (.join i) { h with
      accepting := false
      active := insert i h.active
      clean := h.clean && decide (h.stage = .running ∨ h.stage = .draining) }
  | leave (i : Nat) (hidle : (h.server.phase i).isIdle = true) :
    Turns u h (.leave i) { h with active := h.active.erase i }
  | signal (hstage : h.stage = .running) : Turns u h .signal { h with stage := .draining }
  | hear : Turns u h .hear { h with listening := false }
  | finishUp (e : ServerEvent) (he : e = .drained ∨ e = .giveUp) (clean : Bool)
    (hstage : h.stage = .draining)
    (hclean : clean = true → h.active = ∅) :
    Turns u h e { h with
      stage := .stopping
      ahead := h.server.channel.length
      promised := h.server.effective
      clean }
  | close (now : Int) (hstage : h.stage = .stopping) (hahead : h.ahead = 0)
    (hhand : h.server.hand = none) :
    Turns u h (.close now) { h with
      stage := .stopped
      server := { h.server with
        channel := []
        writer := (h.server.writer.flushToDisk now .ok true).2 } }
  | lose (i : Nat) (p : Phase) (hstage : h.stage = .stopped) (hactive : i ∈ h.active)
    (hp : (h.server.phase i).lose = some p) :
    Turns u h (.lose i) { h with server := h.server.goto i p }

variable {u : CaseMap} {h : RustyPotatoServer}

theorem step_turns (e : ServerEvent) (h' : RustyPotatoServer) (hstep : step u e h = some h') :
    Turns u h e h' := by
  cases e with
  | serve a =>
    simp only [step] at hstep
    split_ifs at hstep with hc
    obtain ⟨server, hserver, rfl⟩ := Option.map_eq_some_iff.mp hstep
    exact .serve a server hc.1 hc.2 hserver
  | accept =>
    simp only [step] at hstep
    split_ifs at hstep with hc
    cases hstep
    exact .accept hc.1
  | join i =>
    simp only [step] at hstep
    split_ifs at hstep with hc
    cases hstep
    exact .join i hc.1
  | leave i =>
    simp only [step] at hstep
    split_ifs at hstep with hc
    cases hstep
    exact .leave i hc.2
  | signal =>
    simp only [step] at hstep
    split_ifs at hstep with hc
    cases hstep
    exact .signal hc
  | hear =>
    simp only [step] at hstep
    split_ifs at hstep with hc
    cases hstep
    exact .hear
  | drained =>
    simp only [step, finishUp] at hstep
    split_ifs at hstep with hc hroom
    cases hstep
    exact .finishUp _ (.inl rfl) true hc.1 fun _ => hc.2
  | giveUp =>
    simp only [step, finishUp] at hstep
    split_ifs at hstep with hc hroom
    cases hstep
    exact .finishUp _ (.inr rfl) false hc fun hf => by cases hf
  | close now =>
    simp only [step] at hstep
    split_ifs at hstep with hc
    cases hstep
    exact .close now hc.1 hc.2.1 hc.2.2
  | lose i =>
    simp only [step] at hstep
    split_ifs at hstep with hc
    obtain ⟨p, hp, rfl⟩ := Option.map_eq_some_iff.mp hstep
    exact .lose i p hc.1 hc.2 hp

/-! ## What was sent before the last message -/

/--
What waits before the last message makes the file that was promised, and in the end the file is
that.
-/
structure Sound (h : RustyPotatoServer) : Prop where
  disciplined : h.server.Disciplined
  writing : h.server.Writing
  outside : ∀ i ∉ h.active, h.server.phase i = .idle
  stopping : h.stage = .stopping → h.ahead ≤ h.server.channel.length ∧
    h.server.fileWith h.ahead = h.promised
  stopped : h.stage = .stopped → h.server.writer.disk.synced = h.promised ∧
    h.server.writer.disk.live = h.promised ∧ h.server.writer.buffer = [] ∧ h.server.queue = []

theorem sound_start (policy : FsyncPolicy) (now : Int) : Sound (start policy now) where
  disciplined := Server.disciplined_start policy now
  writing := ⟨rfl, fun i hi => by rcases hi with hi | hi <;> cases hi⟩
  outside _ _ := rfl
  stopping hs := by cases hs
  stopped hs := by cases hs

/-- Once the writer is gone, no action touches the log. -/
theorem log_kept (hstage : h.stage = .stopped) (a : Action) (hpermits : h.permits a = true)
    (s' : Server) (hm : Server.Moves u h.server a s') :
    s'.writer.disk.synced = h.server.writer.disk.synced ∧
      s'.writer.disk.live = h.server.writer.disk.live ∧ s'.writer.buffer = h.server.writer.buffer ∧
      s'.queue = h.server.queue := by
  cases hm with
  | recv | record | swap | tick => simp [permits, hstage] at hpermits
  | send i r v hphase | sendSwap i hphase =>
    simp [permits, hstage, hphase, Phase.enqueues] at hpermits
  | _ => exact ⟨rfl, rfl, rfl, rfl⟩

theorem lose_phase (p q : Phase) (h : p.lose = some q) :
    q.reads = false ∧ (q.rewrites = true → p.rewrites = true) ∧ q ≠ .swapping ∧ q ≠ .written := by
  cases p with
  | finished r result =>
    cases result with
    | error e => cases h
    | ok v =>
      cases h
      simp [Phase.reads, Phase.rewrites]
  | written | swapping =>
    cases h
    simp [Phase.reads, Phase.rewrites]
  | _ => cases h

theorem phase_of_other (a : Action) (s s' : Server) (hd : s.Disciplined)
    (hm : Server.Moves u s a s') (i : Nat) (hidle : s.phase i = .idle) (hi : i ∉ a.connection?) :
    s'.phase i = .idle := by
  have hgoto : ∀ j p, j ≠ i → (s.goto j p).phase i = .idle := by
    intro j p hji
    rw [Server.phase_goto, Function.update_of_ne (Ne.symm hji), hidle]
  cases hm with
  | recv | record | tick => exact hidle
  | swap now j hhand =>
    refine hgoto j _ ?_
    rintro rfl
    have := hd.swaps j (by simp [Server.queue, hhand])
    rw [hidle] at this
    cases this
  | _ =>
    refine hgoto _ _ ?_
    rintro rfl
    exact hi rfl

theorem Sound.step (hs : Sound h) (e : ServerEvent) (h' : RustyPotatoServer) (ht : Turns u h e h') :
    Sound h' := by
  obtain ⟨hd, hw, houtside, hstopping, hstopped⟩ := hs
  cases ht with
  | accept | hear => exact ⟨hd, hw, houtside, hstopping, hstopped⟩
  | join i haccepting =>
    exact ⟨hd, hw, fun j hj => houtside j fun hmem => hj (Finset.mem_insert_of_mem hmem), hstopping,
      hstopped⟩
  | leave i hidle =>
    refine ⟨hd, hw, fun j hj => ?_, hstopping, hstopped⟩
    by_cases hji : j = i
    · subst hji
      cases hphase : h.server.phase j <;> simp_all [Phase.isIdle]
    · exact houtside j fun hmem => hj (Finset.mem_erase_of_ne_of_mem hji hmem)
  | signal hstage => exact ⟨hd, hw, houtside, (fun hs => by cases hs), fun hs => by cases hs⟩
  | finishUp _ _ clean hstage _ =>
    exact ⟨hd, hw, houtside, fun _ => ⟨le_rfl, Server.fileWith_length⟩, fun hs => by cases hs⟩
  | serve a server hactive hpermits hstep =>
    have hm := Server.step_moves a server hstep
    refine ⟨hd.step a server hm, hw.step hd a server hm, fun i hi => ?_, fun hs => ?_, fun hs => ?_⟩
    · exact phase_of_other a h.server server hd hm i (houtside i hi) fun hmem => hi (hactive i hmem)
    · obtain ⟨hle, hfile⟩ := hstopping hs
      have hrecv : a = .recv → 0 < h.ahead := by
        rintro rfl
        simp only [permits, show h.stage = .stopping from hs, decide_eq_true_eq] at hpermits
        exact hpermits
      obtain ⟨hsame, hbound⟩ := Server.fileWith_step hd hw a server hm h.ahead hle hrecv
      exact ⟨hbound, hsame.trans hfile⟩
    · obtain ⟨hsynced, hlive, hbuffer, hqueue⟩ := log_kept (h := h) hs a hpermits server hm
      rw [hsynced, hlive, hbuffer, hqueue]
      exact hstopped hs
  | close now hstage hahead hhand =>
    obtain ⟨-, hfile⟩ := hstopping hstage
    rw [hahead, Server.fileWith, hhand] at hfile
    have hpromised : h.server.writer.disk.live ++ h.server.writer.buffer = h.promised := hfile
    have hflush := AofWriter.flushToDisk_ok now true h.server.writer hw.handle
    have hqueue : ∀ m, m ∈ ({ h.server with
        channel := [], writer := (h.server.writer.flushToDisk now .ok true).2 } : Server).queue →
          m ∈ h.server.queue := by
      simp [Server.queue, hhand]
    refine ⟨hd.same _ rfl rfl rfl hqueue ?_, ⟨by rw [hflush]; exact hw.handle, fun i hi => ?_⟩,
      houtside, (fun hs => by cases hs), fun _ => ?_⟩
    · simp [Server.queue, hhand]
    · rw [hflush]
      exact hw.temp i hi
    · rw [hflush]
      exact ⟨hpromised, hpromised, rfl, by simp [Server.queue, hhand]⟩
  | lose i p hstage hactive hp =>
    obtain ⟨hreads, hrewrites, hswapping, hwritten⟩ := lose_phase _ _ hp
    have hqueue := (hstopped hstage).2.2.2
    have hnot : ∀ j, .swapFile j ∉ (h.server.goto i p).queue := by
      intro j hj
      have : .swapFile j ∈ h.server.queue := hj
      rw [hqueue] at this
      cases this
    refine ⟨?_, ?_, fun j hj => ?_, fun hs => ?_, hstopped⟩
    · refine hd.move _ i p rfl (fun j _ hj => hj) (fun hr => ?_) (fun j _ hj => hj)
        (fun hr => hd.rewrites i (hrewrites hr)) hd.exclusive (fun j _ hj => absurd hj (hnot j))
        (fun hj => absurd hj (hnot i)) hd.once
      rw [hreads] at hr
      cases hr
    · exact hw.goto _ i p rfl rfl fun hor => by rcases hor with hor | hor <;> contradiction
    · rw [Server.phase_goto, Function.update_of_ne]
      · exact houtside j hj
      · rintro rfl
        exact hj hactive
    · exact absurd (hstage.symm.trans hs) (by decide)

theorem sound_run (policy : FsyncPolicy) (now : Int) (events : List ServerEvent)
    (hrun : run (step u) events (start policy now) = some h) : Sound h :=
  invariant (step u) (fun _ _ => True) Sound
    (fun e _ h' hs _ hstep => hs.step e h' (step_turns e h' hstep)) events _ h
    (along_of_mem _ _ _ (fun _ _ _ => trivial) _) hrun (sound_start policy now)

/-- The last message was sent at some moment of the run, and the log was then what is promised. -/
theorem exists_last_message (policy : FsyncPolicy) (now : Int) (events : List ServerEvent)
    (hrun : run (step u) events (start policy now) = some h)
    (hstage : h.stage = .stopping ∨ h.stage = .stopped) :
    ∃ before e after s, events = before ++ e :: after ∧ (e = .drained ∨ e = .giveUp) ∧
      run (step u) before (start policy now) = some s ∧ h.promised = s.server.effective := by
  revert hstage
  refine run_induction (step u) (start policy now) (fun events h => h.stage = .stopping ∨
    h.stage = .stopped → ∃ before e after s, events = before ++ e :: after ∧
    (e = .drained ∨ e = .giveUp) ∧
      run (step u) before (start policy now) = some s ∧
      h.promised = s.server.effective) ?_ ?_ events h hrun
  · rintro (hs | hs) <;> cases hs
  · intro events h e h' hrun ih hstep hstage
    have hlater : h.stage = .stopping ∨ h.stage = .stopped → h'.promised = h.promised →
        ∃ before e' after s, events ++ [e] = before ++ e' :: after ∧
        (e' = .drained ∨ e' = .giveUp) ∧
          run (step u) before (start policy now) = some s ∧ h'.promised = s.server.effective := by
      intro hs hsame
      obtain ⟨before, e', after, s, rfl, he', hbefore, hpromised⟩ := ih hs
      exact ⟨before, e', after ++ [e], s, by simp, he', hbefore, hsame.trans hpromised⟩
    cases step_turns e h' hstep with
    | signal => rcases hstage with hs | hs <;> cases hs
    | finishUp _ he clean _ _ => exact ⟨events, e, [], h, rfl, he, hrun, rfl⟩
    | close now hs => exact hlater (.inl hs) rfl
    | lose i p hs => exact hlater (.inr hs) rfl
    | accept | join | leave | hear | serve => exact hlater hstage rfl

/--
Whatever the connections, the rewrites and the writer do, and whether the pool was empty in the end
or not: when the writer has ended, the file is synced and is the log with all that was sent to the
writer before its last message.
-/
theorem shutdown_synced (u : CaseMap) (policy : FsyncPolicy) (now : Int) (events : List ServerEvent)
    (h : RustyPotatoServer) (hrun : run (step u) events (start policy now) = some h)
    (hstopped : h.stage = .stopped) :
    ∃ before e after s, events = before ++ e :: after ∧ (e = .drained ∨ e = .giveUp) ∧
      run (step u) before (start policy now) = some s ∧
        h.server.writer.disk.live = s.server.effective ∧
      h.server.writer.disk.synced = s.server.effective := by
  obtain ⟨hsynced, hlive, -, -⟩ := (sound_run policy now events hrun).stopped hstopped
  obtain ⟨before, e, after, s, hevents, he, hbefore, hpromised⟩ :=
    exists_last_message policy now events hrun (.inr hstopped)
  exact ⟨before, e, after, s, hevents, he, hbefore, hlive.trans hpromised, hsynced.trans hpromised⟩

/--
A client sets a key and stays. The writer gets the last message all the same, and works off what is
before it.
-/
def timedOut : List ServerEvent :=
  [.accept, .join 0, .serve (.acquire 0 (.of "SET" [utf8 "k", utf8 "v"])),
    .serve (.execute 0 .sample), .serve (.release 0), .serve (.send 0), .serve (.reply 0), .signal,
    .hear, .giveUp, .serve .recv, .serve (.work 1), .close 2]

theorem timedOut_synced :
    ∃ h before e after s, run (step asciiCaseMap) timedOut (start .never 0) = some h ∧
      timedOut = before ++ e :: after ∧ (e = .drained ∨ e = .giveUp) ∧
      run (step asciiCaseMap) before (start .never 0) = some s ∧
        h.server.writer.disk.live = s.server.effective ∧
      h.server.writer.disk.synced = s.server.effective := by
  obtain ⟨h, hrun⟩ := Option.isSome_iff_exists.mp
    (show (run (step asciiCaseMap) timedOut (start .never 0)).isSome = true by decide +kernel)
  have hstage : (run (step asciiCaseMap) timedOut (start .never 0)).map stage = some .stopped := by
    decide +kernel
  rw [hrun, Option.map_some, Option.some.injEq] at hstage
  obtain ⟨before, e, after, s, hsynced⟩ :=
    shutdown_synced asciiCaseMap .never 0 timedOut h hrun hstage
  exact ⟨h, before, e, after, s, hrun, hsynced⟩

/-! ## When all have gone -/

/-- While the pool is empty and nobody comes, only the writer has something to do. -/
structure Calm (u : CaseMap) (h : RustyPotatoServer) : Prop where
  faithful : h.stage ≠ .stopped ∨ h.clean = true → h.server.Faithful u printed
  ended : h.clean = true → h.stage = .stopping ∨ h.stage = .stopped
  left : h.clean = true → h.active = ∅
  last : h.clean = true → h.stage = .stopping → h.ahead = h.server.channel.length

/-- The commands are ones that the log can hold. -/
def Decent (u : CaseMap) (limits : CodecLimits) (e : ServerEvent) (h : RustyPotatoServer) : Prop :=
  match e with
  | .serve a => Server.Orderly u limits printed a h.server
  | _ => True

theorem Calm.serve (hc : Calm u h) (hs : Sound h) (limits : CodecLimits) (a : Action)
    (server : Server) (hactive : ∀ i ∈ a.connection?, i ∈ h.active)
    (hm : Server.Moves u h.server a server) (hok : Server.Orderly u limits printed a h.server) :
    Calm u { h with server, ahead := aheadAfter a h.ahead } := by
  have hnobody : h.clean = true → a.connection? = none := by
    intro hclean
    refine Option.eq_none_iff_forall_ne_some.mpr fun i hi => ?_
    have := hactive i hi
    rw [hc.left hclean] at this
    cases this
  refine ⟨fun hf => ?_, hc.ended, hc.left, fun hclean hstage => ?_⟩
  · exact (hc.faithful hf).step respects_printed limits hs.disciplined a server hok hm
  · have hlast := hc.last hclean hstage
    have hnone := hnobody hclean
    cases hm with
    | recv m rest hhand hchannel =>
      rw [hchannel, List.length_cons] at hlast
      simp [aheadAfter, hlast]
    | record | swap | tick => exact hlast
    | _ => cases hnone

theorem Calm.step (hc : Calm u h) (hs : Sound h) (limits : CodecLimits) (e : ServerEvent)
    (h' : RustyPotatoServer) (hok : Decent u limits e h) (ht : Turns u h e h') : Calm u h' := by
  cases ht with
  | serve a server hactive hpermits hstep =>
    exact hc.serve hs limits a server hactive (Server.step_moves a server hstep) hok
  | accept | hear => exact ⟨hc.faithful, hc.ended, hc.left, hc.last⟩
  | join i haccepting =>
    have hnot : (h.clean && decide (h.stage = .running ∨ h.stage = .draining)) = false := by
      rw [Bool.and_eq_false_iff, decide_eq_false_iff_not]
      by_cases hclean : h.clean = true
      · rcases hc.ended hclean with hstage | hstage <;> simp [hstage]
      · exact .inl (Bool.not_eq_true _ ▸ hclean)
    refine ⟨fun hf => ?_, fun hclean => ?_, fun hclean => ?_, fun hclean => ?_⟩
    · rcases hf with hf | hf
      · exact hc.faithful (.inl hf)
      · rw [hnot] at hf
        cases hf
    · rw [hnot] at hclean
      cases hclean
    · rw [hnot] at hclean
      cases hclean
    · rw [hnot] at hclean
      cases hclean
  | leave i hidle =>
    refine ⟨hc.faithful, hc.ended, fun hclean => ?_, hc.last⟩
    show h.active.erase i = ∅
    rw [hc.left hclean, Finset.erase_empty]
  | signal hstage =>
    refine ⟨fun _ => hc.faithful (.inl (by rw [hstage]; decide)), fun hclean => ?_, hc.left,
      fun hclean => ?_⟩
    · rcases hc.ended hclean with hs | hs <;> rw [hstage] at hs <;> cases hs
    · rintro ⟨⟩
  | finishUp _ _ clean hstage hclean =>
    exact ⟨fun _ => hc.faithful (.inl (by rw [hstage]; decide)), fun _ => .inl rfl, hclean,
      fun _ _ => rfl⟩
  | close now hstage hahead hhand =>
    refine ⟨fun hf => ?_, fun _ => .inr rfl, hc.left, fun _ hs => by cases hs⟩
    have hclean : h.clean = true := hf.resolve_left fun hne => hne rfl
    have hchannel : h.server.channel = [] :=
      List.length_eq_zero_iff.mp ((hc.last hclean hstage).symm.trans hahead)
    have hfaithful := hc.faithful (.inr hclean)
    refine hfaithful.same _ rfl rfl ?_ ?_ ?_ <;>
      rw [AofWriter.flushToDisk_ok now true _ hfaithful.handle]
    · simp [Server.effective, Server.queue, hhand, hchannel]
    · exact hfaithful.handle
  | lose i p hstage hactive hp =>
    have hnot : h.clean ≠ true := by
      intro hclean
      rw [hc.left hclean] at hactive
      cases hactive
    refine ⟨fun hf => ?_, hc.ended, hc.left, fun hclean => absurd hclean hnot⟩
    rcases hf with hf | hf
    · exact absurd hstage hf
    · exact absurd hf hnot

/-- A client counts and leaves. -/
def visited : List ServerEvent :=
  [.accept, .join 0, .serve (.acquire 0 (.of "INCR" [utf8 "n"])), .serve (.execute 0 .sample),
    .serve (.release 0), .serve (.send 0), .serve (.reply 0), .leave 0, .signal, .drained, .hear,
    .serve .recv, .serve (.work 1), .close 2]

end RustyPotatoServer

end RustyPotato
