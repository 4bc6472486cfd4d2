import RustyPotato.Interleaving

/-!
# A crash at any moment

A crash leaves what was synced, and some of what was written or being written behind it. Whatever
the connections and the writer are doing then, a rewrite included, the recovery comes up, and every
key has a value that it had at some moment since everything was on disk.
-/

namespace RustyPotato

open Lib.Machine Lib.Stream

/-- A frame that the replay can read, with the steps that its command takes there. -/
structure LogEntry (u : CaseMap) where
  frame : Bytes
  cmd : ParsedCommand
  steps : List Step
  isFrame : IsFrame u .default frame cmd
  plans : Plans u cmd steps
  size : frame.length + chunkSize ≤ CodecLimits.default.maxBufferSize

namespace LogEntry

variable {u : CaseMap}

def bytes (es : List (LogEntry u)) : Bytes := (es.map frame).flatten

def stepsOf (es : List (LogEntry u)) : List Step := (es.map steps).flatten

theorem bytes_concat (es : List (LogEntry u)) (e : LogEntry u) :
    bytes (es ++ [e]) = bytes es ++ e.frame := by
  simp [bytes]

theorem stepsOf_concat (es : List (LogEntry u)) (e : LogEntry u) :
    stepsOf (es ++ [e]) = stepsOf es ++ e.steps := by
  simp [stepsOf]

theorem frames (es : List (LogEntry u)) :
    Frames (parseCommand u .default) (es.map frame) (es.map cmd) := by
  refine List.forall₂_map_left_iff.mpr (List.forall₂_map_right_iff.mpr ?_)
  exact List.forall₂_same.mpr fun e _ => e.isFrame

theorem plans_all (es : List (LogEntry u)) :
    List.Forall₂ (Plans u) (es.map cmd) (es.map steps) := by
  refine List.forall₂_map_left_iff.mpr (List.forall₂_map_right_iff.mpr ?_)
  exact List.forall₂_same.mpr fun e _ => e.plans

theorem isLog (es : List (LogEntry u)) : IsLog u (bytes es) (stepsOf es) := by
  refine ⟨es.map frame, es.map cmd, es.map steps, frames es, plans_all es, fun f hf => ?_, rfl, rfl⟩
  obtain ⟨e, -, rfl⟩ := List.mem_map.mp hf
  exact e.size

theorem exists_entries (fs : List Bytes) (cmds : List ParsedCommand) (plans : List (List Step))
    (hframes : Frames (parseCommand u .default) fs cmds)
    (hplans : List.Forall₂ (Plans u) cmds plans)
    (hsize : ∀ frame ∈ fs, frame.length + chunkSize ≤ CodecLimits.default.maxBufferSize) :
    ∃ es : List (LogEntry u), bytes es = fs.flatten ∧ stepsOf es = plans.flatten := by
  induction hframes generalizing plans with
  | nil =>
    cases hplans
    exact ⟨[], rfl, rfl⟩
  | @cons f c fs cs hf _ ih =>
    cases hplans with
    | @cons _ p _ ps hp hps =>
      obtain ⟨es, hbytes, hsteps⟩ := ih ps hps fun f' hf' => hsize f' (List.mem_cons_of_mem _ hf')
      refine ⟨⟨f, c, p, hf, hp, hsize f List.mem_cons_self⟩ :: es, ?_, ?_⟩
      · rw [List.flatten_cons, ← hbytes]
        rfl
      · rw [List.flatten_cons, ← hsteps]
        rfl

end LogEntry

/-- Two readings of one log stand for the same values. -/
theorem IsLog.values_unique (u : CaseMap) (b : Bytes) (steps steps' : List Step)
    (h : IsLog u b steps) (h' : IsLog u b steps') (k : String) :
    Step.valueAll k steps none = Step.valueAll k steps' none := by
  have hchunks : ∀ chunk ∈ b.map fun x => [x], chunk.length ≤ chunkSize := by
    intro chunk hchunk
    obtain ⟨x, -, rfl⟩ := List.mem_map.mp hchunk
    rw [List.length_singleton]
    decide
  have hflat : (b.map fun x => [x]).flatten = b := by
    rw [← List.flatMap_def, List.flatMap_singleton']
  obtain ⟨t, ht, -, hvalues⟩ := h.recovers u b steps _ hchunks hflat fun _ => .sample
  obtain ⟨t', ht', -, hvalues'⟩ := h'.recovers u b steps' _ hchunks hflat fun _ => .sample
  rw [ht] at ht'
  cases ht'
  rw [← hvalues k, hvalues' k]

namespace Server

open LogEntry

section
variable (u : CaseMap) (s₀ : Server) (acts : List Action)

/-- Every key has under these steps a value that it had at a moment of the run. -/
def Seen (steps : List Step) : Prop :=
  ∀ k, ∃ past s, past <+: acts ∧ run u past s₀ = some s ∧
    (Step.valueAll k steps none).map printed = (s.store.values k).map printed

/-- What the messages make of the log, one after the other. -/
inductive Pending (temp : Option Bytes) : List (LogEntry u) → List WriterCmd → List (LogEntry u) →
    Prop
  | nil (es : List (LogEntry u)) : Pending temp es [] es
  | record (es last : List (LogEntry u)) (e : LogEntry u) (frame : Bytes) (msgs : List WriterCmd)
    (hframe : e.frame = frame) (hseen : Seen u s₀ acts (stepsOf (es ++ [e])))
    (hrest : Pending temp (es ++ [e]) msgs last) : Pending temp es (.record frame :: msgs) last
  | swapFile (es es' last : List (LogEntry u)) (i : Nat) (msgs : List WriterCmd)
    (htemp : temp = some (bytes es'))
    (hseen : Seen u s₀ acts (stepsOf es')) (hrest : Pending temp es' msgs last) :
    Pending temp es (.swapFile i :: msgs) last

/-- The log in entries, of which the first `m` are on disk for sure. -/
structure Logged (s : Server) (es : List (LogEntry u)) (m : Nat) : Prop where
  bound : m ≤ es.length
  file : s.writer.disk.live ++ s.writer.buffer = bytes es
  synced : s.writer.disk.synced = bytes (es.take m)
  seen : ∀ j, m ≤ j → Seen u s₀ acts (stepsOf (es.take j))
  pending : ∃ last, Pending u s₀ acts s.writer.disk.temp es s.queue last

end

variable {u : CaseMap} {s₀ s : Server} {acts : List Action}

theorem seen_now (steps : List Step) (hrun : run u acts s₀ = some s)
    (h : ∀ k, (Step.valueAll k steps none).map printed = (s.store.values k).map printed) :
    Seen u s₀ acts steps :=
  fun k => ⟨acts, s, List.prefix_rfl, hrun, h k⟩

theorem Seen.later (steps : List Step) (h : Seen u s₀ acts steps) (more : List Action) :
    Seen u s₀ (acts ++ more) steps := by
  intro k
  obtain ⟨past, s, hpast, hrun, hvalue⟩ := h k
  exact ⟨past, s, hpast.trans (List.prefix_append ..), hrun, hvalue⟩

namespace Pending

variable {temp : Option Bytes} {es last : List (LogEntry u)} {msgs : List WriterCmd}

theorem later (h : Pending u s₀ acts temp es msgs last) (more : List Action) :
    Pending u s₀ (acts ++ more) temp es msgs last := by
  induction h with
  | nil es => exact .nil es
  | record es last e frame msgs hframe hseen _ ih =>
    exact .record es last e frame msgs hframe (hseen.later _ more) ih
  | swapFile es es' last i msgs htemp hseen _ ih =>
    exact .swapFile es es' last i msgs htemp (hseen.later _ more) ih

/-- The file of a rewrite is looked at by its swap only. -/
theorem other_temp (h : Pending u s₀ acts temp es msgs last)
    (hnone : msgs.countP WriterCmd.isSwap = 0) (temp' : Option Bytes) :
    Pending u s₀ acts temp' es msgs last := by
  induction h with
  | nil es => exact .nil es
  | record es last e frame msgs hframe hseen _ ih =>
    refine .record es last e frame msgs hframe hseen (ih ?_)
    simpa [List.countP_cons, WriterCmd.isSwap] using hnone
  | swapFile es es' last i msgs =>
    exact absurd rfl (List.countP_eq_zero.mp hnone _ List.mem_cons_self)

theorem effective (h : Pending u s₀ acts temp es msgs last) :
    msgs.foldl (applyCmd temp) (bytes es) = bytes last := by
  induction h with
  | nil es => rfl
  | record es last e frame msgs hframe hseen _ ih =>
    rw [List.foldl_cons, applyCmd, ← hframe, ← bytes_concat, ih]
  | swapFile es es' last i msgs htemp hseen _ ih =>
    rw [List.foldl_cons, applyCmd, htemp, Option.getD_some, ← ih, htemp]

theorem seen_last (h : Pending u s₀ acts temp es msgs last) (hseen : Seen u s₀ acts (stepsOf es)) :
    Seen u s₀ acts (stepsOf last) := by
  induction h with
  | nil es => exact hseen
  | record es last e frame msgs hframe hseen' _ ih => exact ih hseen'
  | swapFile es es' last i msgs htemp hseen' _ ih => exact ih hseen'

theorem append (h : Pending u s₀ acts temp es msgs last) (more : List WriterCmd)
    (last' : List (LogEntry u)) (hmore : Pending u s₀ acts temp last more last') :
    Pending u s₀ acts temp es (msgs ++ more) last' := by
  induction h with
  | nil es => exact hmore
  | record es last e frame msgs hframe hseen _ ih =>
    exact .record es last' e frame _ hframe hseen (ih hmore)
  | swapFile es es' last i msgs htemp hseen _ ih =>
    exact .swapFile es es' last' i _ htemp hseen (ih hmore)

end Pending

end Server

/-- Without failures a flush syncs all of the log or nothing more of it. -/
theorem AofWriter.flushWhen_synced (now : Int) (w : AofWriter) (h : w.handle = .append)
    (sync : Option Bool) :
    (w.flushWhen now .ok sync).2.disk.synced = w.disk.synced ∨
      (w.flushWhen now .ok sync).2.disk.synced = w.disk.live ++ w.buffer := by
  cases sync with
  | none => exact .inl rfl
  | some sync =>
    rw [flushWhen, flushToDisk_ok now sync w h]
    cases sync
    · exact .inl rfl
    · exact .inr rfl

namespace Server

open LogEntry

variable {u : CaseMap} {s₀ s : Server} {acts : List Action} {es : List (LogEntry u)} {m : Nat}

namespace Logged

theorem later (h : Logged u s₀ acts s es m) (more : List Action) :
    Logged u s₀ (acts ++ more) s es m := by
  obtain ⟨last, hlast⟩ := h.pending
  exact ⟨h.bound, h.file, h.synced, fun j hj => (h.seen j hj).later _ more, last, hlast.later more⟩

theorem seen_all (h : Logged u s₀ acts s es m) : Seen u s₀ acts (stepsOf es) := by
  have := h.seen es.length h.bound
  rwa [List.take_length] at this

theorem same (h : Logged u s₀ acts s es m) (s' : Server) (hwriter : s'.writer = s.writer)
    (hqueue : s'.queue = s.queue) : Logged u s₀ acts s' es m := by
  obtain ⟨hbound, hfile, hsynced, hseen, hpending⟩ := h
  rw [← hwriter] at hfile hsynced hpending
  exact ⟨hbound, hfile, hsynced, hseen, hqueue ▸ hpending⟩

theorem enqueue (h : Logged u s₀ acts s es m) (s' : Server) (msg : WriterCmd)
    (hwriter : s'.writer = s.writer) (hqueue : s'.queue = s.queue ++ [msg])
    (hmsg : ∀ last, Pending u s₀ acts s.writer.disk.temp es s.queue last →
      ∃ last', Pending u s₀ acts s.writer.disk.temp last [msg] last') :
        Logged u s₀ acts s' es m := by
  obtain ⟨hbound, hfile, hsynced, hseen, last, hlast⟩ := h
  obtain ⟨last', hlast'⟩ := hmsg last hlast
  refine ⟨hbound, hwriter ▸ hfile, hwriter ▸ hsynced, hseen, last', ?_⟩
  rw [hqueue, hwriter]
  exact hlast.append _ _ hlast'

/-- The writer flushes, or does not, once the log has the entries `es'`. -/
theorem flush (h : Logged u s₀ acts s es m) (s' : Server) (w : AofWriter) (now : Int)
    (sync : Option Bool) (es' : List (LogEntry u))
    (hwriter : s'.writer = (w.flushWhen now .ok sync).2) (hhandle : w.handle = .append)
    (htemp : w.disk.temp = s.writer.disk.temp) (hsynced : w.disk.synced = s.writer.disk.synced)
    (hfile : w.disk.live ++ w.buffer = bytes es') (hes : es <+: es')
    (hseen : ∀ j, es.length < j → Seen u s₀ acts (stepsOf (es'.take j)))
    (hpending : ∃ last, Pending u s₀ acts s.writer.disk.temp es' s'.queue last) :
    ∃ m', Logged u s₀ acts s' es' m' := by
  obtain ⟨hlive, -, htemp'⟩ := AofWriter.flushWhen_ok now w hhandle sync
  have hpending' : ∃ last, Pending u s₀ acts s'.writer.disk.temp es' s'.queue last := by
    rw [hwriter, htemp', htemp]
    exact hpending
  have hfile' : s'.writer.disk.live ++ s'.writer.buffer = bytes es' := by rw [hwriter, hlive, hfile]
  have hall : ∀ j, m ≤ j → Seen u s₀ acts (stepsOf (es'.take j)) := by
    intro j hj
    rcases Nat.lt_or_ge es.length j with hlt | hle
    · exact hseen j hlt
    · obtain ⟨more, rfl⟩ := hes
      rw [List.take_append_of_le_length hle]
      exact h.seen j hj
  have hbound : m ≤ es'.length := h.bound.trans hes.length_le
  rcases AofWriter.flushWhen_synced now w hhandle sync with hold | hnew
  · refine ⟨m, hbound, hfile', ?_, hall, hpending'⟩
    obtain ⟨more, rfl⟩ := hes
    rw [hwriter, hold, hsynced, h.synced, List.take_append_of_le_length h.bound]
  · refine ⟨es'.length, le_rfl, hfile', ?_, fun j hj => hall j (hbound.trans hj), hpending'⟩
    rw [hwriter, hnew, hfile, List.take_length]

/-- The swap puts the file of the rewrite in the place of the log, synced. -/
theorem swap (h : Logged u s₀ acts s es m) (hd : Disciplined s) (now : Int) (i : Nat)
    (hhand : s.hand = some (.swapFile i)) (s' : Server)
    (hwriter : s'.writer = (s.writer.swapFile now none).2) (hqueue : s'.queue = s.channel) :
    ∃ es' m', Logged u s₀ acts s' es' m' := by
  obtain ⟨last, hlast⟩ := h.pending
  have hold : s.queue = .swapFile i :: s.channel := by simp [queue, hhand]
  have honce := hd.once
  rw [hold, List.countP_cons_of_pos rfl] at honce
  rw [hold] at hlast
  generalize htemp' : s.writer.disk.temp = temp at hlast
  cases hlast with
  | swapFile _ es' _ _ _ htemp hseen hrest =>
    have hdisk : s'.writer.disk = ⟨bytes es', bytes es', none⟩ ∧ s'.writer.buffer = [] := by
      rw [hwriter, AofWriter.swapFile]
      simp [htemp', htemp]
    refine ⟨es', es'.length, le_rfl, ?_, ?_, fun j hj => ?_, last, ?_⟩
    · rw [hdisk.1, hdisk.2, List.append_nil]
    · rw [hdisk.1, List.take_length]
    · rwa [List.take_of_length_le hj]
    · rw [hqueue]
      exact hrest.other_temp (by omega) _

end Logged

/--
A frame is sent: a key that the command concerns has its value now, and the others keep theirs.
-/
theorem Logged.send (h : Logged u s₀ acts s es m) (hf : Faithful u printed s)
    (hrun : run u acts s₀ = some s) (i : Nat) (r : Request) (v : ResponseValue)
    (hphase : s.phase i = .finished r (.ok v)) (s' : Server) (hwriter : s'.writer = s.writer)
    (hqueue : s'.queue = s.queue ++ [.record r.frame]) : Logged u s₀ acts s' es m := by
  obtain ⟨steps, ahead, ht⟩ := hf.tracks
  have hi := ht.phases i
  rw [hphase] at hi
  obtain ⟨-, hready, hplan⟩ := hi
  have hplans : Plans u r.cmd (ahead i) := by
    refine ⟨fun env => ?_,
      (serverRegistry_plan_timeless u .sample .sample r.cmd hready.timeless).2 _ (hplan _)⟩
    rw [replayRegistry_plan u env r.cmd hready.mutation, hplan env]
  refine h.enqueue s' _ hwriter hqueue fun last hlast => ?_
  refine ⟨last ++ [⟨r.frame, r.cmd, ahead i, hready.frame, hplans, hready.size⟩],
    .record _ _ _ _ _ rfl ?_ (.nil _)⟩
  rw [stepsOf_concat]
  have hlog : IsLog u s.effective (stepsOf last) := by
    have := isLog last
    rwa [← hlast.effective, ← h.file] at this
  intro k
  have hsame : Step.valueAll k (stepsOf last) none = Step.valueAll k steps none :=
    hlog.values_unique u _ _ _ ht.log k
  by_cases hothers : ∀ j ≠ i, ¬ Touching k (ahead j)
  · refine ⟨acts, s, List.prefix_rfl, hrun, ?_⟩
    rw [ht.values i k hothers, Step.valueAll_append, Step.valueAll_append, hsame]
  · -- Another command on the key is not sent yet, so this one does not concern the key.
    push Not at hothers
    obtain ⟨j, hji, hj⟩ := hothers
    rw [Step.valueAll_append, Step.valueAll_of_not_touching k _ _ (ht.disjoint j i k hji hj)]
    exact hlast.seen_last h.seen_all k

theorem Logged.sendSwap (h : Logged u s₀ acts s es m) (hf : Faithful u printed s)
    (hrun : run u acts s₀ = some s) (i : Nat) (hphase : s.phase i = .written) (s' : Server)
    (hwriter : s'.writer = s.writer) (hqueue : s'.queue = s.queue ++ [.swapFile i]) :
    Logged u s₀ acts s' es m := by
  obtain ⟨steps, ahead, ht⟩ := hf.tracks
  have hi := ht.phases i
  rw [hphase] at hi
  obtain ⟨-, b, htemp, steps', ⟨fs, cmds, plans, hframes, hplans, hsize, rfl, rfl⟩, hvalues⟩ := hi
  obtain ⟨es', hbytes, hsteps⟩ := exists_entries fs cmds plans hframes hplans hsize
  refine h.enqueue s' _ hwriter hqueue
    fun last _ => ⟨es', .swapFile _ es' _ _ _ (by rw [htemp, hbytes]) ?_ (.nil _)⟩
  refine seen_now _ hrun fun k => ?_
  rw [hsteps, hvalues k, Option.map_map]
  exact congrArg (fun f => (s.store.values k).map f) (funext printed_printed)

theorem Logged.step (h : Logged u s₀ acts s es m) (hd : Disciplined s) (hf : Faithful u printed s)
    (hrun : run u acts s₀ = some s) (a : Action) (s' : Server) (hm : Moves u s a s') :
    ∃ es' m', Logged u s₀ acts s' es' m' := by
  cases hm with
  | acquire | execute | release | skip | read | reply | lock | snapshot | refuse | finish =>
    exact ⟨es, m, h.same _ rfl rfl⟩
  | send i r v hphase =>
    exact ⟨es, m, h.send hf hrun i r v hphase _ rfl (List.append_assoc ..).symm⟩
  | sendSwap i hphase =>
    exact ⟨es, m, h.sendSwap hf hrun i hphase _ rfl (List.append_assoc ..).symm⟩
  | writeTemp i frames hphase =>
    have hnone := hd.no_swaps i (by rw [hphase]; rfl) (by rw [hphase]; simp)
    obtain ⟨last, hlast⟩ := h.pending
    exact ⟨es, m, h.bound, h.file, h.synced, h.seen, last, hlast.other_temp hnone _⟩
  | recv msg rest hhand hchannel => exact ⟨es, m, h.same _ rfl (by simp [queue, hhand, hchannel])⟩
  | tick now hhand =>
    refine ⟨es, h.flush _ s.writer now (s.writer.periodicSync now) es rfl hf.handle rfl rfl h.file
      List.prefix_rfl (fun j hj => ?_) h.pending⟩
    exact h.seen j (h.bound.trans hj.le)
  | record now frame hhand =>
    obtain ⟨last, hlast⟩ := h.pending
    have hqueue : s.queue = .record frame :: s.channel := by simp [queue, hhand]
    rw [hqueue] at hlast
    cases hlast with
    | record _ _ e _ _ hframe hseen hrest =>
      refine ⟨es ++ [e], h.flush _ (s.writer.push frame) now _ (es ++ [e]) rfl hf.handle rfl rfl ?_
        (List.prefix_append ..) (fun j hj => ?_) ⟨last, by simpa [queue] using hrest⟩⟩
      · rw [bytes_concat, ← h.file, hframe, List.append_assoc]
        rfl
      · rwa [List.take_of_length_le (by simpa using hj)]
  | swap now i hhand => exact h.swap hd now i hhand _ rfl (by simp [queue, goto])

end Server

end RustyPotato
