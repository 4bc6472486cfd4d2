import RustyPotato.Writer

/-!
# The task of the writer (`run_writer_task`)

The task takes one message after the other, with ticks of its timer in between, until it is shut
down or every sender is gone.
-/

namespace RustyPotato

inductive WriterMessage where
  | record (frame : Bytes)
  | flush
  | fileSize
  /-- With what is at the path of the message, if there is a file. -/
  | swapFile (temp : Option Bytes)
  | shutdown
deriving DecidableEq

inductive TaskEvent where
  | message (m : WriterMessage)
  /-- Every sender has been dropped. -/
  | closed
  | tick
deriving DecidableEq

/-- An event, the time, and what the calls to the operating system come to. -/
structure TaskInput where
  event : TaskEvent
  now : Int
  io : IoOutcome
  swapFault : Option SwapFault
  statError : Option String
deriving DecidableEq

inductive WriterReply where
  | result (r : Except RustyPotatoError Unit)
  | size (r : Except RustyPotatoError Nat)
deriving DecidableEq

def AofWriter.currentFileSize (statError : Option String) (w : AofWriter) :
    Except RustyPotatoError Nat :=
  match statError with
  | some e => .error (.persistenceError ("Failed to stat AOF: " ++ e) true)
  | none => .ok (w.disk.live.length + w.buffer.length)

structure WriterTask where
  writer : AofWriter
  running : Bool
deriving DecidableEq

namespace WriterTask

def start (policy : FsyncPolicy) (now : Int) (contents : Bytes) : WriterTask :=
  ⟨.openAt policy now contents, true⟩

/-- One round of the loop: the reply, if the message asks for one, and the task after it. -/
def round (i : TaskInput) (w : AofWriter) : TaskEvent → Option WriterReply × WriterTask
  | .message (.record frame) => (none, ⟨(w.record i.now i.io frame).2, true⟩)
  | .message .flush =>
    (some (.result (w.flushToDisk i.now i.io true).1), ⟨(w.flushToDisk i.now i.io true).2, true⟩)
  | .message .fileSize => (some (.size (w.currentFileSize i.statError)), ⟨w, true⟩)
  | .message (.swapFile temp) =>
    let w := { w with disk := { w.disk with temp } }
    (some (.result (w.swapFile i.now i.swapFault).1), ⟨(w.swapFile i.now i.swapFault).2, true⟩)
  | .message .shutdown =>
    (some (.result (w.flushToDisk i.now i.io true).1), ⟨(w.flushToDisk i.now i.io true).2, false⟩)
  | .closed => (none, ⟨(w.flushToDisk i.now i.io true).2, false⟩)
  | .tick => (none, ⟨(w.periodicFlush i.now i.io).2, true⟩)

/-- Nobody takes a message once the loop has ended. -/
def step (i : TaskInput) (t : WriterTask) : Option WriterReply × WriterTask :=
  if t.running then round i t.writer i.event else (none, t)

def run (t : WriterTask) (is : List TaskInput) : WriterTask := is.foldl (fun t i => (step i t).2) t

end WriterTask

/-- No call to the operating system fails. -/
structure TaskInput.Succeeds (i : TaskInput) : Prop where
  write : i.io.writeFails = none
  flush : i.io.flushOk = true
  sync : i.io.syncOk = true
  swap : i.swapFault = none
  stat : i.statError = none
  temp : i.event ≠ .message (.swapFile none)

instance (i : TaskInput) : Decidable i.Succeeds :=
  decidable_of_iff
    (i.io.writeFails = none ∧ i.io.flushOk = true ∧ i.io.syncOk = true ∧ i.swapFault = none ∧
      i.statError = none ∧ i.event ≠ .message (.swapFile none))
    ⟨fun ⟨a, b, c, d, e, f⟩ => ⟨a, b, c, d, e, f⟩, fun ⟨a, b, c, d, e, f⟩ => ⟨a, b, c, d, e, f⟩⟩

/-! ## The log that the events make -/

/--
A frame is added at the end, and the file of a rewrite takes the place of everything before it.
-/
def TaskEvent.log (bytes : Bytes) : TaskEvent → Bytes
  | .message (.record frame) => bytes ++ frame
  | .message (.swapFile (some temp)) => temp
  | _ => bytes

def TaskEvent.stops : TaskEvent → Bool
  | .message .shutdown => true
  | .closed => true
  | _ => false

/-- What the file is to hold after the events, up to the one that stops the task. -/
def logOf : Bytes → List TaskEvent → Bytes
  | bytes, [] => bytes
  | bytes, ev :: evs => if ev.stops then ev.log bytes else logOf (ev.log bytes) evs

namespace WriterTask

variable (i : TaskInput) (w : AofWriter)

theorem settle_ok (now : Int) (io : IoOutcome) (sync : Bool) (hflush : io.flushOk = true)
    (hsync : io.syncOk = true) : (w.settle now io sync).1 = .ok () := by
  unfold AofWriter.settle
  cases sync <;> simp [hflush, hsync]

theorem flushToDisk_succeeds (now : Int) (io : IoOutcome) (sync : Bool)
    (hhandle : w.handle = .append) (hwrite : io.writeFails = none) (hflush : io.flushOk = true)
    (hsync : io.syncOk = true) :
    (w.flushToDisk now io sync).1 = .ok () ∧
      (w.flushToDisk now io sync).2.disk.live = w.disk.live ++ w.buffer ∧
        (w.flushToDisk now io sync).2.buffer = [] ∧
      (w.flushToDisk now io sync).2.handle = .append ∧
      (w.flushToDisk now io sync).2.fsyncPolicy = w.fsyncPolicy := by
  obtain ⟨hcase, hkeep, hpolicy⟩ := w.flushToDisk_cases now io sync
  have hfails : w.failsAfter io = none := by
    simp only [AofWriter.failsAfter, hhandle, hwrite, Option.filter_none]
  have hok : (w.flushToDisk now io sync).1 = .ok () := by
    unfold AofWriter.flushToDisk
    rw [hfails]
    split_ifs <;> exact settle_ok _ now io sync hflush hsync
  generalize w.flushToDisk now io sync = r at hcase hkeep hpolicy hok
  obtain ⟨r, w'⟩ := r
  cases hcase with
  | written _ _ hlive hbuffer _ => exact ⟨hok, hlive, hbuffer, hkeep.trans hhandle, hpolicy⟩
  | kept => cases hok
  | lost => cases hok

theorem flushWhen_succeeds (now : Int) (io : IoOutcome) (sync? : Option Bool)
    (hhandle : w.handle = .append) (hwrite : io.writeFails = none) (hflush : io.flushOk = true)
    (hsync : io.syncOk = true) :
    (w.flushWhen now io sync?).2.disk.live ++ (w.flushWhen now io sync?).2.buffer =
      w.disk.live ++ w.buffer ∧
      (sync?.isSome = true → (w.flushWhen now io sync?).2.buffer = []) ∧
      (w.flushWhen now io sync?).2.handle = .append ∧
      (w.flushWhen now io sync?).2.fsyncPolicy = w.fsyncPolicy := by
  cases sync? with
  | none => exact ⟨rfl, nofun, hhandle, rfl⟩
  | some sync =>
    obtain ⟨-, hlive, hbuffer, hkeep, hpolicy⟩ :=
      flushToDisk_succeeds w now io sync hhandle hwrite hflush hsync
    unfold AofWriter.flushWhen
    exact ⟨by rw [hlive, hbuffer, List.append_nil], fun _ => hbuffer, hkeep, hpolicy⟩

theorem run_stopped (t : WriterTask) (is : List TaskInput) (h : t.running = false) :
    t.run is = t := by
  induction is with
  | nil => rfl
  | cons i is ih =>
    have hstep : (step i t).2 = t := by rw [step, h]; rfl
    rw [run, List.foldl_cons, hstep]
    exact ih

/--
The file with the buffer behind it is the log, and nothing waits in the buffer of a task that has
ended.
-/
structure Keeps (policy : FsyncPolicy) (log : Bytes) (t : WriterTask) : Prop where
  whole : t.writer.disk.live ++ t.writer.buffer = log
  handle : t.writer.handle = .append
  policy : t.writer.fsyncPolicy = policy
  drained : t.running = false → t.writer.buffer = []

/-- One round without a failure: the log, who goes on, and what was drained and answered. -/
structure Rounded (policy : FsyncPolicy) (log : Bytes) (r : Option WriterReply × WriterTask) :
    Prop where
  keeps : Keeps policy (i.event.log log) r.2
  running : r.2.running = !i.event.stops
  flushed : i.event = .message .flush ∨ i.event = .message .shutdown →
    r.1 = some (.result (.ok ())) ∧ r.2.writer.buffer = []
  recorded : policy = .always → ∀ frame, i.event = .message (.record frame) → r.2.writer.buffer = []
  sized : i.event = .message .fileSize → r.1 = some (.size (.ok log.length))

theorem round_succeeds (h : i.Succeeds) (policy : FsyncPolicy) (log : Bytes)
    (hwhole : w.disk.live ++ w.buffer = log) (hhandle : w.handle = .append)
    (hpolicy : w.fsyncPolicy = policy) : Rounded i policy log (round i w i.event) := by
  obtain ⟨hok, hlive, hbuffer, hkeep, hkept⟩ :=
    flushToDisk_succeeds w i.now i.io true hhandle h.write h.flush h.sync
  have hwrote : (w.flushToDisk i.now i.io true).2.disk.live ++
      (w.flushToDisk i.now i.io true).2.buffer = log := by
    rw [hlive, hbuffer, List.append_nil, hwhole]
  obtain ⟨event, now, io, swapFault, statError⟩ := i
  obtain m | _ | _ := event
  · obtain frame | _ | _ | temp | _ := m
    · obtain ⟨hrecord, hempty, hhandle', hpolicy'⟩ := flushWhen_succeeds (w.push frame) now io
        ((w.push frame).recordSync now) hhandle h.write h.flush h.sync
      refine ⟨⟨?_, hhandle', hpolicy'.trans hpolicy, nofun⟩, rfl, by simp, ?_, by simp⟩
      · rw [← hwhole]
        exact hrecord.trans (List.append_assoc ..).symm
      · rintro rfl _ -
        refine hempty ?_
        have : (w.push frame).fsyncPolicy = .always := hpolicy
        rw [AofWriter.recordSync, this]
        rfl
    · exact ⟨⟨hwrote, hkeep, hkept.trans hpolicy, nofun⟩, rfl,
        fun _ => ⟨by rw [round, hok], hbuffer⟩, nofun, nofun⟩
    · refine ⟨⟨hwhole, hhandle, hpolicy, nofun⟩, rfl, by simp, nofun, fun _ => ?_⟩
      obtain rfl : statError = none := h.stat
      rw [round, ← hwhole, List.length_append]
      rfl
    · obtain _ | temp := temp
      · exact absurd rfl h.temp
      · obtain rfl : swapFault = none := h.swap
        exact ⟨⟨by simp [round, AofWriter.swapFile, TaskEvent.log], rfl, hpolicy, nofun⟩, rfl,
          by simp, nofun, nofun⟩
    · exact ⟨⟨hwrote, hkeep, hkept.trans hpolicy, fun _ => hbuffer⟩, rfl,
        fun _ => ⟨by rw [round, hok], hbuffer⟩, nofun, nofun⟩
  · exact ⟨⟨hwrote, hkeep, hkept.trans hpolicy, fun _ => hbuffer⟩, rfl, by simp, nofun, nofun⟩
  · obtain ⟨hticked, -, hhandle', hpolicy'⟩ :=
      flushWhen_succeeds w now io (w.periodicSync now) hhandle h.write h.flush h.sync
    exact ⟨⟨hticked.trans hwhole, hhandle', hpolicy'.trans hpolicy, nofun⟩, rfl, by simp, nofun,
      nofun⟩

theorem run_keeps (policy : FsyncPolicy) (is : List TaskInput) (h : ∀ i ∈ is, i.Succeeds)
    (log : Bytes) (t : WriterTask) (ht : Keeps policy log t) (hrun : t.running = true) :
    Keeps policy (logOf log (is.map TaskInput.event)) (t.run is) ∧
      (t.run is).running = !(is.map TaskInput.event).any TaskEvent.stops := by
  induction is generalizing log t with
  | nil => exact ⟨ht, hrun⟩
  | cons i is ih =>
    have hround := round_succeeds i t.writer (h i List.mem_cons_self) policy log ht.whole ht.handle
      ht.policy
    have hstep : step i t = round i t.writer i.event := by rw [step, if_pos hrun]
    have hrun_cons : t.run (i :: is) = (step i t).2.run is := rfl
    rw [hrun_cons, hstep]
    rw [List.map_cons, logOf, List.any_cons]
    cases hstop : i.event.stops with
    | true =>
      have hstopped : (round i t.writer i.event).2.running = false := by
        rw [hround.running, hstop]; rfl
      rw [run_stopped _ is hstopped]
      exact ⟨hround.keeps, hstopped⟩
    | false =>
      exact ih (fun j hj => h j (List.mem_cons_of_mem i hj)) _ _ hround.keeps
        (by rw [hround.running, hstop]; rfl)

end WriterTask

/--
The file and the buffer behind it hold what was recorded, at any time and whatever the policy.
-/
theorem writer_bookkeeping (policy : FsyncPolicy) (now : Int) (contents : Bytes)
    (is : List TaskInput) (his : ∀ i ∈ is, i.Succeeds) (i : TaskInput) (hi : i.Succeeds) :
    let t := (WriterTask.start policy now contents).run is
    let log := logOf contents (is.map TaskInput.event)
    t.writer.disk.live ++ t.writer.buffer = log ∧
      (i.event = .message .flush ∨ i.event = .message .shutdown →
        (t.step i).1 = (if t.running then some (.result (.ok ())) else none) ∧
          (t.step i).2.writer.buffer = []) ∧
      (policy = .always → ∀ frame, i.event = .message (.record frame) →
        (t.step i).2.writer.buffer = []) ∧
      (i.event = .message .fileSize →
        (t.step i).1 = if t.running then some (.size (.ok log.length)) else none) := by
  intro t log
  have hstart : WriterTask.Keeps policy contents (.start policy now contents) :=
    ⟨List.append_nil contents, rfl, rfl, fun _ => rfl⟩
  obtain ⟨hkeeps, -⟩ := WriterTask.run_keeps policy is his contents _ hstart rfl
  refine ⟨hkeeps.whole, ?_⟩
  unfold WriterTask.step
  cases hrun : t.running with
  | true =>
    have hround := WriterTask.round_succeeds i t.writer hi policy log hkeeps.whole hkeeps.handle
      hkeeps.policy
    exact ⟨hround.flushed, hround.recorded, hround.sized⟩
  | false =>
    have hdrained : t.writer.buffer = [] := hkeeps.drained hrun
    exact ⟨fun _ => ⟨rfl, hdrained⟩, fun _ _ _ => hdrained, fun _ => rfl⟩

/-- A swap between two records, and the size that is asked for before anything is flushed. -/
theorem swapped_log_size :
    let input := fun event => TaskInput.mk event 0 .ok none none
    let is := [input (.message (.record (utf8 "a"))),
      input (.message (.swapFile (some (utf8 "snapshot")))),
      input .tick, input (.message (.record (utf8 "b")))]
    let t := (WriterTask.start .never 0 (utf8 "old")).run is
    t.writer.disk.live ++ t.writer.buffer = utf8 "snapshotb" ∧ t.writer.buffer ≠ [] ∧
      (t.step (input (.message .fileSize))).1 = some (.size (.ok 9)) := by
  intro input is t
  have h := writer_bookkeeping .never 0 (utf8 "old") is (by decide) (input (.message .fileSize))
    (by decide)
  exact ⟨h.1, by decide, h.2.2.2 rfl⟩

end RustyPotato
