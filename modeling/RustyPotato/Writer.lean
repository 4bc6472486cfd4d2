import RustyPotato.Value

/-!
# The writer of the log (`AofWriter` in `storage/persistence.rs`)

The writer owns the file. It gathers frames in a buffer and writes them out as the policy says. The
outcome of every call to the operating system is an input here, so a run has a pattern of failures.
-/

namespace RustyPotato

inductive FsyncPolicy where
  | always
  | everySecond
  | never
deriving DecidableEq

/-- How the writer has the file open. Nothing can be written through the placeholder of a swap. -/
inductive FileHandle where
  | append
  | readOnly
deriving DecidableEq

/--
The file at the path of the log, what of it was there at the last `fsync`, and the file of a
rewrite.
-/
structure Disk where
  live : Bytes
  synced : Bytes
  temp : Option Bytes
deriving DecidableEq

/-- What the calls of one `flush_to_disk` come to. The disk may take only so many more bytes. -/
structure IoOutcome where
  writeFails : Option Nat
  flushOk : Bool
  syncOk : Bool
  error : String
deriving DecidableEq

def IoOutcome.ok : IoOutcome := ⟨none, true, true, ""⟩

structure AofWriter where
  disk : Disk
  handle : FileHandle
  buffer : Bytes
  fsyncPolicy : FsyncPolicy
  lastFlush : Int
deriving DecidableEq

namespace AofWriter

def flushInterval : Int := nanosPerSec

/-- `open`: the file is created if need be, and appended to. -/
def openAt (policy : FsyncPolicy) (now : Int) (contents : Bytes) : AofWriter where
  disk := ⟨contents, contents, none⟩
  handle := .append
  buffer := []
  fsyncPolicy := policy
  lastFlush := now

def append (data : Bytes) (w : AofWriter) : AofWriter :=
  { w with disk := { w.disk with live := w.disk.live ++ data } }

/-- The bytes after which the write of the buffer fails, if it does. -/
def failsAfter (io : IoOutcome) (w : AofWriter) : Option Nat :=
  let room :=
    match w.handle with
    | .append => io.writeFails
    | .readOnly => some 0
  room.filter fun n => decide (n < w.buffer.length)

/-- `tokio::fs::File` passes what it is given on in pieces of at most this. -/
def maxBufSize : Nat := 2 * 1024 * 1024

/--
Whether a write that fails after `n` bytes does so in its last piece. The pieces are written in the
background, and a failure is reported by the call that follows: `write_all` goes on to the next
piece and fails, but it has returned after the last one, and then only the `flush` behind it fails.
-/
def failsLate (n length : Nat) : Bool := decide ((length - 1) / maxBufSize ≤ n / maxBufSize)

/-- The end of `flush_to_disk`, from the `flush` of the file on. -/
def settle (now : Int) (io : IoOutcome) (sync : Bool) (w : AofWriter) :
    Except RustyPotatoError Unit × AofWriter :=
  if !io.flushOk then (.error (.persistenceError ("AOF flush failed: " ++ io.error) true), w)
  else if sync then
    if !io.syncOk then (.error (.persistenceError ("AOF fsync failed: " ++ io.error) true), w)
    else (.ok (), { w with disk := { w.disk with synced := w.disk.live }, lastFlush := now })
  else (.ok (), { w with lastFlush := now })

def flushToDisk (now : Int) (io : IoOutcome) (sync : Bool) (w : AofWriter) :
    Except RustyPotatoError Unit × AofWriter :=
  if w.buffer = [] then w.settle now io sync
  else
    match w.failsAfter io with
    | none => { w.append w.buffer with buffer := [] }.settle now io sync
    | some n =>
      let w := w.append (w.buffer.take n)
      if failsLate n w.buffer.length then
        (.error (.persistenceError ("AOF flush failed: " ++ io.error) true),
          { w with buffer := [] })
      else (.error (.persistenceError ("AOF write failed: " ++ io.error) true), w)

/-- Whether `record` flushes, and then whether with an `fsync`. -/
def recordSync (now : Int) (w : AofWriter) : Option Bool :=
  match w.fsyncPolicy with
  | .always => some true
  | .everySecond => if flushInterval ≤ now - w.lastFlush then some true else none
  | .never => if 1024 * 1024 ≤ w.buffer.length then some false else none

def periodicSync (now : Int) (w : AofWriter) : Option Bool :=
  match w.fsyncPolicy with
  | .everySecond => if flushInterval ≤ now - w.lastFlush then some true else none
  | _ => none

def flushWhen (now : Int) (io : IoOutcome) (w : AofWriter) : Option Bool →
    Except RustyPotatoError Unit × AofWriter
  | some sync => w.flushToDisk now io sync
  | none => (.ok (), w)

def push (frame : Bytes) (w : AofWriter) : AofWriter := { w with buffer := w.buffer ++ frame }

def record (now : Int) (io : IoOutcome) (frame : Bytes) (w : AofWriter) :
    Except RustyPotatoError Unit × AofWriter :=
  (w.push frame).flushWhen now io ((w.push frame).recordSync now)

def periodicFlush (now : Int) (io : IoOutcome) (w : AofWriter) :
    Except RustyPotatoError Unit × AofWriter :=
  w.flushWhen now io (w.periodicSync now)

end AofWriter

/-- The calls of `swap_file` that can fail. -/
inductive SwapFault where
  | openTemp
  | rename
  | reopen
deriving DecidableEq

def swapError (message : String) : RustyPotatoError := .persistenceError message false

/-- `swap_file`. The file that is renamed was synced when it was written. -/
def AofWriter.swapFile (now : Int) (fault : Option SwapFault) (w : AofWriter) :
    Except RustyPotatoError Unit × AofWriter :=
  let w := { w with buffer := [] }
  match w.disk.temp with
  | none => (.error (swapError "Cannot open temp AOF"), w)
  | some contents =>
    if fault = some .openTemp then (.error (swapError "Cannot open temp AOF"), w)
    else
      let w := { w with handle := .readOnly }
      if fault = some .rename then (.error (swapError "Atomic rename failed"), w)
      else
        let w := { w with disk := ⟨contents, contents, none⟩ }
        if fault = some .reopen then (.error (swapError "Cannot reopen AOF"), w)
        else (.ok (), { w with handle := .append, lastFlush := now })

/-! ## What a flush does -/

namespace AofWriter

variable (now : Int) (io : IoOutcome) (sync : Bool)

theorem settle_writer (w : AofWriter) :
    (w.settle now io sync).2.disk.live = w.disk.live ∧ (w.settle now io sync).2.buffer = w.buffer ∧
      (w.settle now io sync).2.handle = w.handle ∧
        (w.settle now io sync).2.fsyncPolicy = w.fsyncPolicy := by
  unfold settle
  split_ifs <;> exact ⟨rfl, rfl, rfl, rfl⟩

theorem failsAfter_lt (w : AofWriter) (n : Nat) (h : w.failsAfter io = some n) :
    n < w.buffer.length :=
  of_decide_eq_true (Option.filter_eq_some_iff.mp h).2

/-- The three things that can become of the buffer. -/
inductive FlushCase (io : IoOutcome) (w : AofWriter) : Except RustyPotatoError Unit → AofWriter →
    Prop
  | written (r : Except RustyPotatoError Unit) (w' : AofWriter)
    (hlive : w'.disk.live = w.disk.live ++ w.buffer)
    (hbuffer : w'.buffer = []) (hwrite : w.failsAfter io = none) : FlushCase io w r w'
  | kept (n : Nat) (e : RustyPotatoError) (w' : AofWriter)
    (hlive : w'.disk.live = w.disk.live ++ w.buffer.take n)
    (hbuffer : w'.buffer = w.buffer) (hwrite : w.failsAfter io = some n)
    (hlate : failsLate n w.buffer.length = false) : FlushCase io w (.error e) w'
  | lost (n : Nat) (e : RustyPotatoError) (w' : AofWriter)
    (hlive : w'.disk.live = w.disk.live ++ w.buffer.take n)
    (hbuffer : w'.buffer = []) (hwrite : w.failsAfter io = some n)
    (hlate : failsLate n w.buffer.length = true) : FlushCase io w (.error e) w'

theorem flushToDisk_cases (w : AofWriter) :
    FlushCase io w (w.flushToDisk now io sync).1 (w.flushToDisk now io sync).2 ∧
      (w.flushToDisk now io sync).2.handle = w.handle ∧
      (w.flushToDisk now io sync).2.fsyncPolicy = w.fsyncPolicy := by
  unfold flushToDisk
  by_cases hnil : w.buffer = []
  · rw [if_pos hnil]
    obtain ⟨hlive, hbuffer, hhandle, hpolicy⟩ := settle_writer now io sync w
    have hfails : w.failsAfter io = none := by
      by_contra hsome
      obtain ⟨n, hn⟩ := Option.ne_none_iff_exists'.mp hsome
      have := failsAfter_lt io w n hn
      simp [hnil] at this
    exact ⟨.written _ _ (by rw [hlive, hnil, List.append_nil]) (hbuffer.trans hnil) hfails, hhandle,
      hpolicy⟩
  · rw [if_neg hnil]
    cases hfails : w.failsAfter io with
    | none =>
      obtain ⟨hlive, hbuffer, hhandle, hpolicy⟩ :=
        settle_writer now io sync { w.append w.buffer with buffer := [] }
      exact ⟨.written _ _ hlive hbuffer hfails, hhandle, hpolicy⟩
    | some n =>
      have hlength : (w.append (w.buffer.take n)).buffer.length = w.buffer.length := rfl
      simp only [hlength]
      cases hlate : failsLate n w.buffer.length with
      | true => exact ⟨.lost n _ _ rfl rfl hfails hlate, rfl, rfl⟩
      | false => exact ⟨.kept n _ _ rfl rfl hfails hlate, rfl, rfl⟩

theorem flushToDisk_ok (w : AofWriter) (h : w.handle = .append) :
    w.flushToDisk now .ok sync =
      (.ok (), { w with
        disk := { w.disk with
          live := w.disk.live ++ w.buffer
          synced := if sync then w.disk.live ++ w.buffer else w.disk.synced }
        buffer := []
        lastFlush := now }) := by
  obtain ⟨disk, handle, buffer, policy, last⟩ := w
  obtain rfl : handle = .append := h
  unfold flushToDisk
  by_cases hnil : buffer = []
  · subst hnil
    cases sync <;> simp [settle, IoOutcome.ok]
  · rw [if_neg hnil]
    cases sync <;> simp [failsAfter, settle, append, IoOutcome.ok]

end AofWriter

end RustyPotato
