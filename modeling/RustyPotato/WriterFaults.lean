import RustyPotato.Writer

/-!
# The log under failures

What the writer loses or writes twice when the operating system fails it, over any sequence of
records, flushes and ticks, and after a rewrite that could not be completed.
-/

namespace RustyPotato

inductive WriterEvent where
  | record (frame : Bytes)
  | flush
  | tick
deriving DecidableEq

/-- An event that the task handles, with the time and the outcome of the calls it makes. -/
structure TimedEvent where
  event : WriterEvent
  now : Int
  io : IoOutcome
deriving DecidableEq

namespace TimedEvent

variable (ev : TimedEvent) (w : AofWriter)

def frame : Bytes :=
  match ev.event with
  | .record frame => frame
  | _ => []

def step : Except RustyPotatoError Unit × AofWriter :=
  match ev.event with
  | .record frame => w.record ev.now ev.io frame
  | .flush => w.flushToDisk ev.now ev.io true
  | .tick => w.periodicFlush ev.now ev.io

/-- Whether the event leads to a flush, and then whether with an `fsync`. -/
def sync? : Option Bool :=
  match ev.event with
  | .record frame => (w.push frame).recordSync ev.now
  | .flush => some true
  | .tick => w.periodicSync ev.now

theorem step_eq : ev.step w = (w.push ev.frame).flushWhen ev.now ev.io (ev.sync? w) := by
  have hpush : w.push [] = w := by simp [AofWriter.push]
  unfold step sync? frame
  cases ev.event with
  | record frame => rfl
  | flush => rw [hpush]; rfl
  | tick => rw [hpush]; rfl

/-- The event led to a flush, and the flush succeeded. -/
def Flushed : Prop := (ev.sync? w).isSome = true ∧ (ev.step w).1 = .ok ()

/--
A write of the event fails, and has left bytes that will be written again, or takes the rest of the
buffer along.
-/
def Spoils : Prop :=
  (ev.sync? w).isSome = true ∧ ∃ n, (w.push ev.frame).failsAfter ev.io = some n ∧
    (0 < n ∨ AofWriter.failsLate n (w.push ev.frame).buffer.length = true)

instance : Decidable (ev.Flushed w) := inferInstanceAs (Decidable (_ ∧ _))

instance : Decidable (ev.Spoils w) := inferInstanceAs (Decidable (_ ∧ ∃ n, _ = some n ∧ (_ ∨ _)))

end TimedEvent

/-- The writer after the events. -/
def AofWriter.run (evs : List TimedEvent) (w : AofWriter) : AofWriter :=
  evs.foldl (fun w ev => (ev.step w).2) w

/-- The frames that the events bring, one after the other. -/
def recorded (evs : List TimedEvent) : Bytes := evs.flatMap TimedEvent.frame

/-- No failure of the run has spoiled the log. -/
def NeverSpoiled : List TimedEvent → AofWriter → Prop
  | [], _ => True
  | ev :: evs, w => ¬ ev.Spoils w ∧ NeverSpoiled evs (ev.step w).2

instance decidableNeverSpoiled : (evs : List TimedEvent) → (w : AofWriter) →
    Decidable (NeverSpoiled evs w)
  | [], _ => isTrue trivial
  | ev :: evs, w =>
    have := decidableNeverSpoiled evs (ev.step w).2
    inferInstanceAs (Decidable (_ ∧ _))

/-- The last event led to a flush, and the flush succeeded. -/
def EndsFlushed : List TimedEvent → AofWriter → Prop
  | [], _ => False
  | ev :: evs, w => if evs = [] then ev.Flushed w else EndsFlushed evs (ev.step w).2

instance decidableEndsFlushed : (evs : List TimedEvent) → (w : AofWriter) →
    Decidable (EndsFlushed evs w)
  | [], _ => isFalse id
  | ev :: evs, w =>
    have := decidableEndsFlushed evs (ev.step w).2
    inferInstanceAs (Decidable (if evs = [] then ev.Flushed w else EndsFlushed evs (ev.step w).2))

/-! ## One event -/

namespace TimedEvent

variable (ev : TimedEvent) (w : AofWriter)

theorem step_keeps : (ev.step w).2.handle = w.handle ∧
    (ev.step w).2.fsyncPolicy = w.fsyncPolicy := by
  rw [step_eq]
  cases ev.sync? w with
  | none => exact ⟨rfl, rfl⟩
  | some sync => exact (AofWriter.flushToDisk_cases ev.now ev.io sync (w.push ev.frame)).2

theorem step_unflushed (hsync : ev.sync? w = none) : ev.step w = (.ok (), w.push ev.frame) := by
  rw [step_eq, hsync]
  rfl

theorem step_flushed (sync : Bool) (hsync : ev.sync? w = some sync) :
    AofWriter.FlushCase ev.io (w.push ev.frame) (ev.step w).1 (ev.step w).2 := by
  rw [step_eq, hsync]
  exact (AofWriter.flushToDisk_cases ev.now ev.io sync (w.push ev.frame)).1

/-- What a write that is whole or empty leaves between file and buffer. -/
theorem step_whole (h : ¬ ev.Spoils w) :
    (ev.step w).2.disk.live ++ (ev.step w).2.buffer = w.disk.live ++ w.buffer ++ ev.frame := by
  rw [List.append_assoc]
  cases hsync : ev.sync? w with
  | none =>
    rw [step_unflushed ev w hsync]
    rfl
  | some sync =>
    have hsome : (ev.sync? w).isSome = true := by rw [hsync]; rfl
    have hcase := step_flushed ev w sync hsync
    generalize ev.step w = r at hcase
    obtain ⟨r, w'⟩ := r
    cases hcase with
    | written _ _ hlive hbuffer _ =>
      rw [hlive, hbuffer, List.append_nil]
      rfl
    | kept n e _ hlive hbuffer hwrite _ =>
      have hn : n = 0 := by
        by_contra hpos
        exact h ⟨hsome, n, hwrite, .inl (Nat.pos_of_ne_zero hpos)⟩
      rw [hlive, hbuffer, hn, List.take_zero, List.append_nil]
      rfl
    | lost n e _ _ _ hwrite hlate => exact absurd ⟨hsome, n, hwrite, .inr hlate⟩ h

/--
What a failure that spoils the log leaves: a part of the buffer in the file, and all of it or
nothing to come.
-/
theorem step_spoiled (h : ev.Spoils w) :
    ∃ n, (w.push ev.frame).failsAfter ev.io = some n ∧
      (ev.step w).2.disk.live = w.disk.live ++ (w.push ev.frame).buffer.take n ∧
      ((ev.step w).2.buffer = [] ∨ 0 < n ∧ (ev.step w).2.buffer = (w.push ev.frame).buffer) := by
  obtain ⟨hsome, n, hn, hbad⟩ := h
  obtain ⟨sync, hsync⟩ := Option.isSome_iff_exists.mp hsome
  refine ⟨n, hn, ?_⟩
  have hcase := step_flushed ev w sync hsync
  generalize ev.step w = r at hcase
  obtain ⟨r, w'⟩ := r
  cases hcase with
  | written _ _ _ _ hwrite =>
    rw [hn] at hwrite
    cases hwrite
  | kept m e _ hlive hbuffer hwrite hlate =>
    obtain rfl : n = m := Option.some.inj (hn.symm.trans hwrite)
    rcases hbad with hpos | hlate'
    · exact ⟨hlive, .inr ⟨hpos, hbuffer⟩⟩
    · rw [hlate] at hlate'
      cases hlate'
  | lost m e _ hlive hbuffer hwrite _ =>
    obtain rfl : n = m := Option.some.inj (hn.symm.trans hwrite)
    exact ⟨hlive, .inl hbuffer⟩

/--
Whatever happens, the file only grows, by a part of what was waiting, and nothing else is left to
come.
-/
theorem step_appends :
    ∃ n, (ev.step w).2.disk.live = w.disk.live ++ (w.push ev.frame).buffer.take n ∧
      ((ev.step w).2.buffer = [] ∨ (ev.step w).2.buffer = (w.push ev.frame).buffer) := by
  cases hsync : ev.sync? w with
  | none =>
    rw [step_unflushed ev w hsync]
    exact ⟨0, by rw [List.take_zero, List.append_nil]; rfl, .inr rfl⟩
  | some sync =>
    have hcase := step_flushed ev w sync hsync
    generalize ev.step w = r at hcase
    obtain ⟨r, w'⟩ := r
    cases hcase with
    | written _ _ hlive hbuffer _ => exact ⟨_, by rw [List.take_length]; exact hlive, .inl hbuffer⟩
    | kept n e _ hlive hbuffer _ _ => exact ⟨n, hlive, .inr hbuffer⟩
    | lost n e _ hlive hbuffer _ _ => exact ⟨n, hlive, .inl hbuffer⟩

theorem Flushed.buffer_eq (h : ev.Flushed w) : (ev.step w).2.buffer = [] := by
  obtain ⟨hsome, hok⟩ := h
  obtain ⟨sync, hsync⟩ := Option.isSome_iff_exists.mp hsome
  have hcase := step_flushed ev w sync hsync
  generalize ev.step w = r at hcase hok
  obtain ⟨r, w'⟩ := r
  cases hcase with
  | written _ _ _ hbuffer _ => exact hbuffer
  | kept => cases hok
  | lost => cases hok

end TimedEvent

/-! ## Runs -/

theorem recorded_cons (ev : TimedEvent) (evs : List TimedEvent) :
    recorded (ev :: evs) = ev.frame ++ recorded evs := rfl

theorem recorded_append (evs evs' : List TimedEvent) :
    recorded (evs ++ evs') = recorded evs ++ recorded evs' := List.flatMap_append

theorem AofWriter.run_append (evs : List TimedEvent) (ev : TimedEvent) (w : AofWriter) :
    w.run (evs ++ [ev]) = (ev.step (w.run evs)).2 := List.foldl_append ..

theorem EndsFlushed.buffer_eq (evs : List TimedEvent) (w : AofWriter) (h : EndsFlushed evs w) :
    (w.run evs).buffer = [] := by
  induction evs generalizing w with
  | nil => exact h.elim
  | cons ev evs ih =>
    unfold EndsFlushed at h
    split_ifs at h with hnil
    · subst hnil
      exact TimedEvent.Flushed.buffer_eq ev w h
    · exact ih (ev.step w).2 h

theorem run_unspoiled (evs : List TimedEvent) (w : AofWriter) (h : NeverSpoiled evs w) :
    (w.run evs).disk.live ++ (w.run evs).buffer = w.disk.live ++ w.buffer ++ recorded evs := by
  induction evs generalizing w with
  | nil => simp [AofWriter.run, recorded]
  | cons ev evs ih =>
    have hrun := ih (ev.step w).2 h.2
    rw [ev.step_whole w h.1, List.append_assoc] at hrun
    exact hrun

theorem run_live_length (evs : List TimedEvent) (w : AofWriter) :
    w.disk.live.length ≤ (w.run evs).disk.live.length := by
  induction evs generalizing w with
  | nil => exact le_rfl
  | cons ev evs ih =>
    obtain ⟨n, hlive, -⟩ := ev.step_appends w
    have hgrows := congrArg List.length hlive
    rw [List.length_append] at hgrows
    exact le_trans (by omega) (ih (ev.step w).2)

/-- The first failure that spoils the log. -/
theorem exists_spoils (evs : List TimedEvent) (w : AofWriter) (h : ¬ NeverSpoiled evs w) :
    ∃ before ev after, evs = before ++ ev :: after ∧ NeverSpoiled before w ∧
      ev.Spoils (w.run before) := by
  induction evs generalizing w with
  | nil => exact absurd trivial h
  | cons ev evs ih =>
    by_cases hev : ev.Spoils w
    · exact ⟨[], ev, evs, rfl, trivial, hev⟩
    · obtain ⟨before, x, after, rfl, hbefore, hx⟩ := ih (ev.step w).2 fun hrest => h ⟨hev, hrest⟩
      exact ⟨ev :: before, x, after, rfl, ⟨hev, hbefore⟩, hx⟩

/-! ## Other frames of the same lengths -/

/-- The same event with another frame. -/
def TimedEvent.withFrame (ev : TimedEvent) (frame : Bytes) : TimedEvent :=
  match ev.event with
  | .record _ => { ev with event := .record frame }
  | _ => ev

/-- The same events, with these bytes for those of the frames. -/
def refill : List TimedEvent → Bytes → List TimedEvent
  | [], _ => []
  | ev :: evs, bytes =>
    ev.withFrame (bytes.take ev.frame.length) :: refill evs (bytes.drop ev.frame.length)

theorem TimedEvent.frame_withFrame (ev : TimedEvent) (bytes : Bytes) :
    (ev.withFrame (bytes.take ev.frame.length)).frame = bytes.take ev.frame.length := by
  obtain ⟨event, now, io⟩ := ev
  cases event with
  | record frame => rfl
  | flush => simp [withFrame, frame]
  | tick => simp [withFrame, frame]

theorem recorded_refill (evs : List TimedEvent) (bytes : Bytes) :
    recorded (refill evs bytes) = bytes.take (recorded evs).length := by
  induction evs generalizing bytes with
  | nil => simp [refill, recorded]
  | cons ev evs ih =>
    rw [refill, recorded_cons, recorded_cons, ih, ev.frame_withFrame, List.length_append,
      List.take_add]

theorem refill_append (evs evs' : List TimedEvent) (bytes : Bytes) :
    refill (evs ++ evs') bytes =
      refill evs bytes ++ refill evs' (bytes.drop (recorded evs).length) := by
  induction evs generalizing bytes with
  | nil => simp [refill, recorded]
  | cons ev evs ih =>
    rw [List.cons_append, refill, ih, refill, recorded_cons, List.length_append, List.drop_drop]
    rfl

/-- Two writers that only differ in the bytes they have been given. -/
structure AofWriter.Alike (w w' : AofWriter) : Prop where
  handle : w'.handle = w.handle
  policy : w'.fsyncPolicy = w.fsyncPolicy
  last : w'.lastFlush = w.lastFlush
  buffer : w'.buffer.length = w.buffer.length

namespace AofWriter

variable {w w' : AofWriter}

theorem Alike.refl (w : AofWriter) : w.Alike w := ⟨rfl, rfl, rfl, rfl⟩

theorem Alike.push (h : w.Alike w') (frame frame' : Bytes) (hframe : frame'.length = frame.length) :
    (w.push frame).Alike (w'.push frame') := by
  refine ⟨h.handle, h.policy, h.last, ?_⟩
  simp only [AofWriter.push, List.length_append, h.buffer, hframe]

theorem Alike.failsAfter_eq (h : w.Alike w') (io : IoOutcome) :
    w'.failsAfter io = w.failsAfter io := by
  unfold failsAfter
  rw [h.handle, h.buffer]

theorem Alike.settle (h : w.Alike w') (now : Int) (io : IoOutcome) (sync : Bool) :
    (w'.settle now io sync).1 = (w.settle now io sync).1 ∧
      (w.settle now io sync).2.Alike (w'.settle now io sync).2 := by
  obtain ⟨hhandle, hpolicy, hlast, hbuffer⟩ := h
  unfold AofWriter.settle
  split_ifs
  · exact ⟨rfl, hhandle, hpolicy, hlast, hbuffer⟩
  · exact ⟨rfl, hhandle, hpolicy, hlast, hbuffer⟩
  · exact ⟨rfl, hhandle, hpolicy, rfl, hbuffer⟩
  · exact ⟨rfl, hhandle, hpolicy, rfl, hbuffer⟩

theorem Alike.flushToDisk (h : w.Alike w') (now : Int) (io : IoOutcome) (sync : Bool) :
    (w'.flushToDisk now io sync).1 = (w.flushToDisk now io sync).1 ∧
      (w.flushToDisk now io sync).2.Alike (w'.flushToDisk now io sync).2 := by
  have hnil : w'.buffer = [] ↔ w.buffer = [] := by
    rw [← List.length_eq_zero_iff, ← List.length_eq_zero_iff, h.buffer]
  unfold AofWriter.flushToDisk
  rw [h.failsAfter_eq io]
  by_cases hempty : w.buffer = []
  · rw [if_pos hempty, if_pos (hnil.mpr hempty)]
    exact h.settle now io sync
  · rw [if_neg hempty, if_neg fun hempty' => hempty (hnil.mp hempty')]
    cases w.failsAfter io with
    | none =>
      have hcleared : AofWriter.Alike { w.append w.buffer with buffer := [] }
          { w'.append w'.buffer with buffer := [] } := ⟨h.handle, h.policy, h.last, rfl⟩
      exact hcleared.settle now io sync
    | some n =>
      have hlength : (w'.append (w'.buffer.take n)).buffer.length =
          (w.append (w.buffer.take n)).buffer.length := h.buffer
      simp only [hlength]
      split_ifs
      · exact ⟨rfl, h.handle, h.policy, h.last, rfl⟩
      · exact ⟨rfl, h.handle, h.policy, h.last, h.buffer⟩

end AofWriter

namespace TimedEvent

variable (ev : TimedEvent) {w w' : AofWriter}

theorem io_withFrame (frame : Bytes) : (ev.withFrame frame).io = ev.io ∧
    (ev.withFrame frame).now = ev.now := by
  unfold withFrame
  cases ev.event <;> exact ⟨rfl, rfl⟩

theorem sync?_withFrame (h : w.Alike w') (frame : Bytes) (hframe : frame.length = ev.frame.length) :
    (ev.withFrame frame).sync? w' = ev.sync? w := by
  obtain ⟨event, now, io⟩ := ev
  cases event with
  | record old =>
    have hpush := h.push old frame hframe
    simp only [withFrame, sync?, AofWriter.recordSync, hpush.policy, hpush.last, hpush.buffer]
  | flush => rfl
  | tick => simp only [withFrame, sync?, AofWriter.periodicSync, h.policy, h.last]

/-- What an event does to the lengths depends on the lengths only. -/
theorem alike_step (h : w.Alike w') (bytes : Bytes) (hlength : ev.frame.length ≤ bytes.length) :
    let ev' := ev.withFrame (bytes.take ev.frame.length)
    (ev'.step w').1 = (ev.step w).1 ∧ (ev.step w).2.Alike (ev'.step w').2 ∧
      (ev'.Flushed w' ↔ ev.Flushed w) ∧ (ev'.Spoils w' ↔ ev.Spoils w) := by
  intro ev'
  have hframe : (bytes.take ev.frame.length).length = ev.frame.length := by
    rw [List.length_take, Nat.min_eq_left hlength]
  have hsync : ev'.sync? w' = ev.sync? w := ev.sync?_withFrame h _ hframe
  have hpush : (w.push ev.frame).Alike (w'.push ev'.frame) :=
    h.push _ _ (by rw [show ev'.frame = _ from ev.frame_withFrame bytes, hframe])
  obtain ⟨hio, hnow⟩ := ev.io_withFrame (bytes.take ev.frame.length)
  have hstep : (ev'.step w').1 = (ev.step w).1 ∧ (ev.step w).2.Alike (ev'.step w').2 := by
    rw [step_eq, step_eq, hsync, hio, hnow]
    cases ev.sync? w with
    | none => exact ⟨rfl, hpush⟩
    | some sync => exact hpush.flushToDisk ev.now ev.io sync
  refine ⟨hstep.1, hstep.2, ?_, ?_⟩
  · rw [Flushed, Flushed, hsync, hstep.1]
  · rw [Spoils, Spoils, hsync, hio, hpush.failsAfter_eq, hpush.buffer]

end TimedEvent

theorem alike_run (evs : List TimedEvent) (w w' : AofWriter) (h : w.Alike w') (bytes : Bytes)
    (hlength : (recorded evs).length ≤ bytes.length) :
    (w.run evs).Alike (w'.run (refill evs bytes)) ∧
      (EndsFlushed (refill evs bytes) w' ↔ EndsFlushed evs w) ∧
      (NeverSpoiled (refill evs bytes) w' ↔ NeverSpoiled evs w) := by
  induction evs generalizing w w' bytes with
  | nil => exact ⟨h, Iff.rfl, Iff.rfl⟩
  | cons ev evs ih =>
    rw [recorded_cons, List.length_append] at hlength
    obtain ⟨-, hafter, hflushed, hspoils⟩ := ev.alike_step h bytes (by omega)
    obtain ⟨hrun, hends, hnever⟩ :=
      ih _ _ hafter (bytes.drop ev.frame.length) (by rw [List.length_drop]; omega)
    refine ⟨hrun, ?_, ?_⟩
    · have hnil : refill evs (bytes.drop ev.frame.length) = [] ↔ evs = [] := by
        cases evs with
        | nil => simp [refill]
        | cons => simp [refill]
      rw [refill, EndsFlushed, EndsFlushed]
      simp only [hnil]
      split_ifs
      · exact hflushed
      · exact hends
    · rw [refill, NeverSpoiled, NeverSpoiled, hspoils, hnever]

/-! ## A byte that goes missing -/

/-- The byte at `q` is not there yet and will be another one, or it is another one already. -/
def Stained (q : Nat) (mark : UInt8) (w : AofWriter) : Prop :=
  (w.disk.live.length = q ∧ w.buffer.head? ≠ some mark) ∨ ∃ b, w.disk.live[q]? = some b ∧ b ≠ mark

theorem Stained.step (q : Nat) (mark : UInt8) (w : AofWriter) (h : Stained q mark w)
    (ev : TimedEvent) (hframe : ∀ b ∈ ev.frame, b ≠ mark) : Stained q mark (ev.step w).2 := by
  obtain ⟨n, hlive, hbuffer⟩ := ev.step_appends w
  rcases h with ⟨hlen, hhead⟩ | ⟨b, hb, hne⟩
  · have hpush : (w.push ev.frame).buffer.head? ≠ some mark := by
      intro hmark
      unfold AofWriter.push at hmark
      cases hold : w.buffer with
      | nil =>
        simp only [hold, List.nil_append] at hmark
        exact hframe mark (List.mem_of_mem_head? hmark) rfl
      | cons b bs =>
        simp only [hold, List.cons_append, List.head?_cons] at hmark hhead
        exact hhead hmark
    cases htake : (w.push ev.frame).buffer.take n with
    | nil =>
      rw [htake, List.append_nil] at hlive
      refine .inl ⟨by rw [hlive]; exact hlen, ?_⟩
      rcases hbuffer with hnil | hsame
      · simp [hnil]
      · rw [hsame]
        exact hpush
    | cons b bs =>
      refine .inr ⟨b, ?_, ?_⟩
      · rw [hlive, htake, List.getElem?_append_right (by omega), hlen, Nat.sub_self]
        rfl
      · rintro rfl
        have hhead' : ((w.push ev.frame).buffer.take n).head? = some b := by rw [htake]; rfl
        rw [List.head?_take] at hhead'
        split_ifs at hhead'
        exact hpush hhead'
  · refine .inr ⟨b, ?_, hne⟩
    have hlt := (List.getElem?_eq_some_iff.mp hb).1
    rw [hlive, List.getElem?_append_left hlt, hb]

theorem Stained.run (q : Nat) (mark : UInt8) (evs : List TimedEvent)
    (hframes : ∀ b ∈ recorded evs, b ≠ mark) (w : AofWriter) (h : Stained q mark w) :
    Stained q mark (w.run evs) := by
  induction evs generalizing w with
  | nil => exact h
  | cons ev evs ih =>
    rw [recorded_cons] at hframes
    refine ih (fun b hb => hframes b (List.mem_append_right _ hb)) _ ?_
    exact h.step q mark w ev fun b hb => hframes b (List.mem_append_left _ hb)

theorem Stained.ne (q : Nat) (mark : UInt8) (w : AofWriter) (h : Stained q mark w) :
    w.disk.live[q]? ≠ some mark := by
  intro hmark
  rcases h with ⟨hlen, -⟩ | ⟨b, hb, hne⟩
  · rw [List.getElem?_eq_none (by omega)] at hmark
    cases hmark
  · rw [hb] at hmark
    exact hne (Option.some.inj hmark)

/-- Zeros with a one among them. -/
def markedBytes (length p : Nat) : Bytes := (List.replicate length 0).set p 1

theorem markedBytes_get (length p i : Nat) (h : i ≠ p) : (markedBytes length p)[i]? ≠ some 1 := by
  unfold markedBytes
  rw [List.getElem?_set_ne (by omega), List.getElem?_replicate]
  split_ifs <;> simp

/--
After a failure that spoils the log, the byte that should come next has been written before, or
never will be.
-/
theorem spoils_stained (before : List TimedEvent) (ev : TimedEvent) (w : AofWriter)
    (hempty : w.buffer = []) (hbefore : NeverSpoiled before w) (hspoils : ev.Spoils (w.run before))
    (n : Nat) (hn : ((w.run before).push ev.frame).failsAfter ev.io = some n) (p : Nat)
    (hp : w.disk.live.length + p = (w.run before).disk.live.length + n)
    (hmark : ∀ i, i ≠ p → (recorded before ++ ev.frame)[i]? ≠ some 1) :
    Stained (w.disk.live.length + p) 1 (ev.step (w.run before)).2 := by
  obtain ⟨n', hn', hlive, hbuffer⟩ := ev.step_spoiled _ hspoils
  obtain rfl : n = n' := Option.some.inj (hn.symm.trans hn')
  have hlt := AofWriter.failsAfter_lt ev.io _ n hn
  have hgrows := run_live_length before w
  refine .inl ⟨?_, ?_⟩
  · rw [hlive, List.length_append, List.length_take, hp]
    omega
  · rcases hbuffer with hnil | ⟨hpos, hsame⟩
    · simp [hnil]
    · -- The first byte that waits is not the marked one, which comes `n` bytes behind it.
      have hwhole : (w.run before).disk.live ++ ((w.run before).push ev.frame).buffer =
          w.disk.live ++ (recorded before ++ ev.frame) := by
        have hrun := run_unspoiled before w hbefore
        rw [hempty, List.append_nil] at hrun
        rw [AofWriter.push, ← List.append_assoc, hrun, List.append_assoc]
      have hfirst := congrArg (fun l => l[(w.run before).disk.live.length]?) hwhole
      rw [List.getElem?_append_right le_rfl, Nat.sub_self,
        List.getElem?_append_right hgrows] at hfirst
      rw [hsame, List.head?_eq_getElem?, hfirst]
      exact hmark _ (by omega)

/--
The same run with other bytes fails at the same place, with the mark as the first byte that was not
written.
-/
theorem refilled_stained (before : List TimedEvent) (ev : TimedEvent) (w : AofWriter)
    (hempty : w.buffer = []) (hbefore : NeverSpoiled before w) (hspoils : ev.Spoils (w.run before))
    (n : Nat) (hn : ((w.run before).push ev.frame).failsAfter ev.io = some n) (p : Nat)
    (hp : w.disk.live.length + p = (w.run before).disk.live.length + n) (bytes : Bytes)
    (hlength : (recorded before).length + ev.frame.length ≤ bytes.length)
    (hmark : ∀ i, i ≠ p → bytes[i]? ≠ some 1) :
    Stained (w.disk.live.length + p) 1 (w.run (refill (before ++ [ev]) bytes)) := by
  obtain ⟨halike, -, hnever⟩ := alike_run before w w (.refl w) bytes (by omega)
  have hrest : ev.frame.length ≤ (bytes.drop (recorded before).length).length := by
    rw [List.length_drop]
    omega
  obtain ⟨-, -, -, hspoils'⟩ := ev.alike_step halike _ hrest
  have hrec := recorded_refill before bytes
  have hframe := ev.frame_withFrame (bytes.drop (recorded before).length)
  have hio := (ev.io_withFrame ((bytes.drop (recorded before).length).take ev.frame.length)).1
  rw [refill_append, refill, refill, AofWriter.run_append]
  refine spoils_stained (refill before bytes) _ w hempty (hnever.mpr hbefore)
    (hspoils'.mpr hspoils) n ?_ p ?_ ?_
  · rw [hio, (halike.push ev.frame _ ?_).failsAfter_eq ev.io, hn]
    rw [hframe, List.length_take, Nat.min_eq_left hrest]
  · -- Both runs have the same lengths in the file and in the buffer.
    have hwhole := congrArg List.length (run_unspoiled before w hbefore)
    have hwhole' := congrArg List.length (run_unspoiled _ w (hnever.mpr hbefore))
    have hbuffer := halike.buffer
    simp only [List.length_append, hrec, List.length_take] at hwhole hwhole'
    omega
  · intro i hi
    rw [hrec, hframe, ← List.take_add, List.getElem?_take]
    split_ifs
    · exact hmark i hi
    · simp

theorem spoiled_differs (evs : List TimedEvent) (w : AofWriter) (hempty : w.buffer = [])
    (h : ¬ NeverSpoiled evs w) :
    ∃ bytes, bytes.length = (recorded evs).length ∧
      (w.run (refill evs bytes)).disk.live ≠ w.disk.live ++ bytes := by
  obtain ⟨before, ev, after, rfl, hbefore, hspoils⟩ := exists_spoils evs w h
  obtain ⟨n, hn, -, -⟩ := ev.step_spoiled _ hspoils
  have hgrows := run_live_length before w
  obtain ⟨p, hp⟩ : ∃ p, w.disk.live.length + p = (w.run before).disk.live.length + n :=
    ⟨(w.run before).disk.live.length + n - w.disk.live.length, by omega⟩
  have hfirst : (recorded (before ++ [ev])).length =
      (recorded before).length + ev.frame.length := by
    rw [recorded_append, List.length_append, recorded_cons]
    simp [recorded]
  -- The mark is among the bytes that waited when the write failed.
  have hinside : p < (recorded (before ++ [ev])).length := by
    have hlt := AofWriter.failsAfter_lt ev.io _ n hn
    have hwhole := congrArg List.length (run_unspoiled before w hbefore)
    simp only [AofWriter.push, hempty, List.length_append, List.length_nil, Nat.add_zero]
      at hlt hwhole
    rw [hfirst]
    omega
  have hsplit : before ++ ev :: after = before ++ [ev] ++ after := by simp
  have hrecorded : (recorded (before ++ [ev] ++ after)).length =
      (recorded (before ++ [ev])).length + (recorded after).length := by
    rw [recorded_append, List.length_append]
  rw [hsplit]
  generalize hbytes : markedBytes (recorded (before ++ [ev] ++ after)).length p = bytes
  have hlength : bytes.length = (recorded (before ++ [ev] ++ after)).length := by
    rw [← hbytes, markedBytes, List.length_set, List.length_replicate]
  have hmark : ∀ i, i ≠ p → bytes[i]? ≠ some 1 := fun i hi => hbytes ▸ markedBytes_get _ p i hi
  refine ⟨bytes, hlength, fun heq => ?_⟩
  have hstained := refilled_stained before ev w hempty hbefore hspoils n hn p hp bytes
    (by omega) hmark
  have hafter : ∀ b ∈ recorded (refill after (bytes.drop (recorded (before ++ [ev])).length)),
      b ≠ 1 := by
    rw [recorded_refill]
    rintro b hb rfl
    obtain ⟨i, hi⟩ := List.mem_iff_getElem?.mp (List.mem_of_mem_take hb)
    rw [List.getElem?_drop] at hi
    exact hmark _ (by omega) hi
  have hne := (hstained.run _ 1 _ hafter _).ne
  rw [AofWriter.run, AofWriter.run, ← List.foldl_append, ← refill_append, ← AofWriter.run, heq,
    List.getElem?_append_right (by omega), Nat.add_sub_cancel_left, ← hbytes, markedBytes] at hne
  exact hne (List.getElem?_set_self (by rw [List.length_replicate]; omega))

/--
Once a flush succeeds, the file holds every recorded frame once and in order, if no failure on the
way has spoiled the log. After one that has, there are frames of the same lengths with which the
same run goes wrong.
-/
theorem flushed_log_iff_never_spoiled (policy : FsyncPolicy) (start : Int) (contents : Bytes)
    (evs : List TimedEvent) (hflushed : EndsFlushed evs (.openAt policy start contents)) :
    (NeverSpoiled evs (.openAt policy start contents) →
        ((AofWriter.openAt policy start contents).run evs).disk.live = contents ++ recorded evs) ∧
      (¬ NeverSpoiled evs (.openAt policy start contents) →
        ∃ bytes, bytes.length = (recorded evs).length ∧
          EndsFlushed (refill evs bytes) (.openAt policy start contents) ∧
          ((AofWriter.openAt policy start contents).run (refill evs bytes)).disk.live ≠
            contents ++ bytes) := by
  constructor
  · intro hnever
    have hrun := run_unspoiled evs (.openAt policy start contents) hnever
    rw [hflushed.buffer_eq, List.append_nil] at hrun
    simpa [AofWriter.openAt] using hrun
  · intro hspoiled
    obtain ⟨bytes, hlength, hne⟩ := spoiled_differs evs (.openAt policy start contents) rfl hspoiled
    refine ⟨bytes, hlength, ?_, hne⟩
    exact (alike_run evs _ _ (.refl _) bytes hlength.ge).2.1.mpr hflushed

/--
The `fsync` behind the first frame fails. Its bytes are in the file, and are not written again.
-/
theorem failed_fsync_logged_once :
    ((AofWriter.openAt .always 0 (utf8 "*1\r\n$4\r\nPING\r\n")).run
      [⟨.record (utf8 "*1\r\n$7\r\nFLUSHDB\r\n"), 1, { IoOutcome.ok with syncOk := false }⟩,
        ⟨.record (utf8 "*2\r\n$4\r\nINCR\r\n$1\r\nn\r\n"), 2, .ok⟩, ⟨.flush, 3, .ok⟩]).disk.live =
      utf8 "*1\r\n$4\r\nPING\r\n" ++
        recorded [⟨.record (utf8 "*1\r\n$7\r\nFLUSHDB\r\n"), 1,
          { IoOutcome.ok with syncOk := false }⟩,
          ⟨.record (utf8 "*2\r\n$4\r\nINCR\r\n$1\r\nn\r\n"), 2, .ok⟩, ⟨.flush, 3, .ok⟩] :=
  (flushed_log_iff_never_spoiled .always 0 (utf8 "*1\r\n$4\r\nPING\r\n")
    [⟨.record (utf8 "*1\r\n$7\r\nFLUSHDB\r\n"), 1, { IoOutcome.ok with syncOk := false }⟩,
      ⟨.record (utf8 "*2\r\n$4\r\nINCR\r\n$1\r\nn\r\n"), 2, .ok⟩, ⟨.flush, 3, .ok⟩] (by decide)).1
      (by decide)

/--
The disk takes four bytes of a frame. `write_all` has returned by then, and the rest of the frame is
gone.
-/
theorem torn_frame_lost :
    let first : TimedEvent :=
      ⟨.record (utf8 "*1\r\n$7\r\nFLUSHDB\r\n"), 1, { IoOutcome.ok with writeFails := some 4 }⟩
    let last : TimedEvent := ⟨.flush, 2, .ok⟩
    EndsFlushed [first, last] (.openAt .always 0 []) ∧
      ((AofWriter.openAt .always 0 []).run [first, last]).disk.live = utf8 "*1\r\n" := by
  decide

/-! ## A rewrite that could not be completed -/

/-- The frames stand in the file one after the other, maybe with something in between. -/
def Present : List Bytes → Bytes → Prop
  | [], _ => True
  | frame :: frames, file => ∃ gap rest, file = gap ++ frame ++ rest ∧ Present frames rest

theorem present_flatten (frames : List Bytes) (rest : Bytes) :
    Present frames (frames.flatten ++ rest) := by
  induction frames with
  | nil => trivial
  | cons frame frames ih => exact ⟨[], frames.flatten ++ rest, by simp, ih⟩

theorem Present.length_le (frames : List Bytes) (file : Bytes) (h : Present frames file) :
    frames.flatten.length ≤ file.length := by
  induction frames generalizing file with
  | nil => simp
  | cons frame frames ih =>
    obtain ⟨gap, rest, rfl, h⟩ := h
    have := ih rest h
    simp only [List.flatten_cons, List.length_append]
    omega

/-- `swap_file` with one of its calls failing, and then the clean-up of `rewrite_aof`. -/
def AofWriter.failedRewrite (now : Int) (fault : SwapFault) (w : AofWriter) : AofWriter :=
  let w := (w.swapFile now (some fault)).2
  { w with disk := { w.disk with temp := none } }

/--
What it takes for a failed rewrite to do no harm. The pending buffer is thrown away in any case.
From the rename on the writer is left with a handle that it cannot write through.
-/
def SwapFault.Harmless (w : AofWriter) (temp : Bytes) (before after : List Bytes) : SwapFault → Prop
  | openTemp => w.buffer = []
  | rename => w.buffer = [] ∧ after = []
  | reopen => Present (before ++ after) temp

section
variable (evs : List TimedEvent) (w : AofWriter)

theorem run_appending (hhandle : w.handle = .append) (hio : ∀ ev ∈ evs, ev.io.writeFails = none) :
    (w.run evs).disk.live ++ (w.run evs).buffer = w.disk.live ++ w.buffer ++ recorded evs := by
  induction evs generalizing w with
  | nil => simp [AofWriter.run, recorded]
  | cons ev evs ih =>
    have hstep := ev.step_whole w fun ⟨_, n, hn, _⟩ => by
      have hnone : (w.push ev.frame).failsAfter ev.io = none := by
        simp only [AofWriter.failsAfter, AofWriter.push, hhandle, hio ev List.mem_cons_self,
          Option.filter_none]
      rw [hnone] at hn
      cases hn
    have hrun := ih (ev.step w).2 ((ev.step_keeps w).1.trans hhandle) fun e he =>
      hio e (List.mem_cons_of_mem _ he)
    rw [hstep, List.append_assoc] at hrun
    exact hrun

theorem step_readOnly (ev : TimedEvent) (hhandle : w.handle = .readOnly) :
    (ev.step w).2.disk.live = w.disk.live := by
  cases hsync : ev.sync? w with
  | none =>
    rw [ev.step_unflushed w hsync]
    rfl
  | some sync =>
    have hfails : ∀ n, (w.push ev.frame).failsAfter ev.io = some n → n = 0 := by
      intro n hn
      obtain ⟨hroom, -⟩ := Option.filter_eq_some_iff.mp hn
      simp only [AofWriter.push, hhandle, Option.some.injEq] at hroom
      exact hroom.symm
    have hcase := ev.step_flushed w sync hsync
    generalize ev.step w = r at hcase
    obtain ⟨r, w'⟩ := r
    cases hcase with
    | written _ _ hlive _ hwrite =>
      have hnil : (w.push ev.frame).buffer = [] := by
        by_contra hne
        have hpos := List.length_pos_of_ne_nil hne
        have hzero : (w.push ev.frame).failsAfter ev.io = some 0 := by
          unfold AofWriter.failsAfter
          simpa [AofWriter.push, hhandle] using hpos
        rw [hzero] at hwrite
        cases hwrite
      rw [hlive, hnil, List.append_nil]
      rfl
    | kept n e _ hlive _ hwrite _ =>
      rw [hlive, hfails n hwrite, List.take_zero, List.append_nil]
      rfl
    | lost n e _ hlive _ hwrite _ =>
      rw [hlive, hfails n hwrite, List.take_zero, List.append_nil]
      rfl

theorem run_readOnly (hhandle : w.handle = .readOnly) : (w.run evs).disk.live = w.disk.live := by
  induction evs generalizing w with
  | nil => rfl
  | cons ev evs ih =>
    have hrun := ih (ev.step w).2 ((ev.step_keeps w).1.trans hhandle)
    rw [step_readOnly w ev hhandle] at hrun
    exact hrun

end

/-- The frames that were recorded. -/
def recordedFrames (evs : List TimedEvent) : List Bytes :=
  evs.filterMap fun ev =>
    match ev.event with
    | .record frame => some frame
    | _ => none

theorem flatten_recordedFrames (evs : List TimedEvent) :
    (recordedFrames evs).flatten = recorded evs := by
  induction evs with
  | nil => rfl
  | cons ev evs ih =>
    rw [recorded, List.flatMap_cons, ← recorded, ← ih, recordedFrames, List.filterMap_cons,
      TimedEvent.frame]
    cases ev.event with
    | record frame => rfl
    | flush => rfl
    | tick => rfl

/-! What a run leaves in the file after each failure of a rewrite. -/

theorem openTemp_run_live (w : AofWriter) (hhandle : w.handle = .append) (temp : Bytes)
    (htemp : w.disk.temp = some temp) (now : Int) (evs : List TimedEvent)
    (hio : ∀ ev ∈ evs, ev.io.writeFails = none)
    (hbuffer : ((w.failedRewrite now .openTemp).run evs).buffer = []) :
    ((w.failedRewrite now .openTemp).run evs).disk.live = w.disk.live ++ recorded evs := by
  have hw : w.failedRewrite now .openTemp =
      { w with buffer := [], disk := { w.disk with temp := none } } := by
    simp [AofWriter.failedRewrite, AofWriter.swapFile, htemp]
  have hrun := run_appending evs (w.failedRewrite now .openTemp) (by rw [hw]; exact hhandle) hio
  rw [hbuffer, List.append_nil, hw] at hrun
  rw [hw, hrun]
  simp

theorem rename_run_live (w : AofWriter) (temp : Bytes) (htemp : w.disk.temp = some temp) (now : Int)
    (evs : List TimedEvent) : ((w.failedRewrite now .rename).run evs).disk.live = w.disk.live := by
  have hw : (w.failedRewrite now .rename).handle = .readOnly ∧
      (w.failedRewrite now .rename).disk.live = w.disk.live := by
    simp [AofWriter.failedRewrite, AofWriter.swapFile, htemp]
  rw [run_readOnly evs _ hw.1, hw.2]

theorem reopen_run_live (w : AofWriter) (temp : Bytes) (htemp : w.disk.temp = some temp) (now : Int)
    (evs : List TimedEvent) : ((w.failedRewrite now .reopen).run evs).disk.live = temp := by
  have hw : (w.failedRewrite now .reopen).handle = .readOnly ∧
      (w.failedRewrite now .reopen).disk.live = temp := by
    simp [AofWriter.failedRewrite, AofWriter.swapFile, htemp]
  rw [run_readOnly evs _ hw.1, hw.2]

/--
After a rewrite that failed, the frames recorded before it and after it are all in the file once a
flush succeeds, if and only if the failure was harmless.
-/
theorem failed_rewrite_iff_harmless (w : AofWriter) (hhandle : w.handle = .append) (temp : Bytes)
    (htemp : w.disk.temp = some temp) (before : List Bytes)
    (hbefore : before.flatten = w.disk.live ++ w.buffer) (now : Int) (fault : SwapFault)
    (evs : List TimedEvent) (last : TimedEvent)
    (hio : ∀ ev ∈ evs ++ [last], ev.io.writeFails = none)
    (hframes : ∀ frame ∈ recordedFrames (evs ++ [last]), frame ≠ [])
    (hflushed : last.Flushed ((w.failedRewrite now fault).run evs)) :
    Present (before ++ recordedFrames (evs ++ [last]))
      ((w.failedRewrite now fault).run (evs ++ [last])).disk.live ↔
      fault.Harmless w temp before (recordedFrames (evs ++ [last])) := by
  have hbuffer : ((w.failedRewrite now fault).run (evs ++ [last])).buffer = [] := by
    rw [AofWriter.run_append]
    exact hflushed.buffer_eq
  generalize hall : evs ++ [last] = all at *
  have hlength := congrArg List.length hbefore
  have hrecorded := congrArg List.length (flatten_recordedFrames all)
  rw [List.length_append] at hlength
  cases fault with
  | openTemp =>
    rw [openTemp_run_live w hhandle temp htemp now all hio hbuffer]
    constructor
    · intro hpresent
      have hle := hpresent.length_le
      simp only [List.flatten_append, List.length_append] at hle
      exact List.eq_nil_of_length_eq_zero (by omega)
    · intro hnil
      have hfile : w.disk.live ++ recorded all = (before ++ recordedFrames all).flatten ++ [] := by
        rw [List.flatten_append, hbefore, flatten_recordedFrames, show w.buffer = [] from hnil]
        simp
      rw [hfile]
      exact present_flatten _ []
  | rename =>
    rw [rename_run_live w temp htemp now all]
    constructor
    · intro hpresent
      have hle := hpresent.length_le
      simp only [List.flatten_append, List.length_append] at hle
      refine ⟨List.eq_nil_of_length_eq_zero (by omega), ?_⟩
      have hnone : (recordedFrames all).flatten = [] := List.eq_nil_of_length_eq_zero (by omega)
      refine List.eq_nil_iff_forall_not_mem.mpr fun frame hmem => hframes frame hmem ?_
      exact List.flatten_eq_nil_iff.mp hnone frame hmem
    · rintro ⟨hnil, hafter⟩
      have hfile : w.disk.live = (before ++ recordedFrames all).flatten ++ [] := by
        rw [hafter, List.append_nil, List.append_nil, hbefore, show w.buffer = [] from hnil,
          List.append_nil]
      rw [hfile]
      exact present_flatten _ []
  | reopen =>
    rw [reopen_run_live w temp htemp now all]
    rfl

/-- A writer with this in the file, this in the buffer, and an empty rewrite waiting. -/
def writerWith (live buffer : Bytes) : AofWriter where
  disk := ⟨live, live, some []⟩
  handle := .append
  buffer := buffer
  fsyncPolicy := .everySecond
  lastFlush := 0

theorem failed_rewrite_with_empty_buffer :
    Present [utf8 "*1\r\n$7\r\nFLUSHDB\r\n", utf8 "*2\r\n$4\r\nINCR\r\n$1\r\nn\r\n"]
      (((writerWith (utf8 "*1\r\n$7\r\nFLUSHDB\r\n") []).failedRewrite 1 .openTemp).run
        [⟨.record (utf8 "*2\r\n$4\r\nINCR\r\n$1\r\nn\r\n"), 2, .ok⟩, ⟨.flush, 3, .ok⟩]).disk.live :=
  (failed_rewrite_iff_harmless (writerWith (utf8 "*1\r\n$7\r\nFLUSHDB\r\n") []) rfl [] rfl
    [utf8 "*1\r\n$7\r\nFLUSHDB\r\n"] (by decide) 1 .openTemp
    [⟨.record (utf8 "*2\r\n$4\r\nINCR\r\n$1\r\nn\r\n"), 2, .ok⟩] ⟨.flush, 3, .ok⟩
    (by decide) (by decide) (by decide)).mpr rfl

/-- A frame that waits in the buffer when a rewrite cannot open its file is gone. -/
theorem failed_rewrite_drops_pending :
    let w := writerWith [] (utf8 "*2\r\n$4\r\nINCR\r\n$1\r\nn\r\n")
    (w.swapFile 1 (some .openTemp)).1 ≠ .ok () ∧
      TimedEvent.Flushed ⟨.flush, 2, .ok⟩ (w.failedRewrite 1 .openTemp) ∧
      ¬ Present [utf8 "*2\r\n$4\r\nINCR\r\n$1\r\nn\r\n"]
        ((w.failedRewrite 1 .openTemp).run [⟨.flush, 2, .ok⟩]).disk.live := by
  refine ⟨by decide, by decide, fun h => ?_⟩
  exact absurd h.length_le (by decide)

end RustyPotato
