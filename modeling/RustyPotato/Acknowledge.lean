import RustyPotato.System

/-!
# What a reply says about the file

`log_command` waits for a place in the channel, not for the writer. So with `FsyncPolicy::Always`
the reply to a command comes after the `fsync` of its frame exactly if the writer has got that far
by then.
-/

namespace RustyPotato

open Lib.Machine

def WriterCmd.frame? : WriterCmd → Option Bytes
  | record frame => some frame
  | swapFile _ => none

namespace AofWriter

theorem record_always (now : Int) (frame : Bytes) (w : AofWriter) (hhandle : w.handle = .append)
    (hpolicy : w.fsyncPolicy = .always) :
    (w.record now .ok frame).2 = { w with
      disk := { w.disk with
        live := w.disk.live ++ (w.buffer ++ frame)
        synced := w.disk.live ++ (w.buffer ++ frame) }
      buffer := []
      lastFlush := now } := by
  have hsync : (w.push frame).recordSync now = some true := by simp [recordSync, push, hpolicy]
  rw [record, hsync, flushWhen, flushToDisk_ok now true (w.push frame) hhandle]
  rfl

theorem periodicFlush_always (now : Int) (w : AofWriter) (hpolicy : w.fsyncPolicy = .always) :
    (w.periodicFlush now .ok).2 = w := by
  simp [periodicFlush, periodicSync, hpolicy, flushWhen]

end AofWriter

namespace Server

/-- The records that wait for the writer. -/
def waiting (s : Server) : List Bytes := s.queue.filterMap WriterCmd.frame?

/-- How many records the writer has dealt with. -/
def handled (s : Server) : Nat := s.sent.length - s.waiting.length

/-- The record is in the channel, or in the writer's hand. -/
def Waits (n : Nat) (s : Server) : Prop := s.sent.length ≤ n + s.waiting.length

instance (n : Nat) (s : Server) : Decidable (s.Waits n) := inferInstanceAs (Decidable (_ ≤ _))

/-- On the way the writer has taken the record and left a file that ends with it, synced. -/
def Synced (u : CaseMap) (s₀ : Server) (acts : List Action) (n : Nat) : Prop :=
  ∃ pre now post t t' frame, acts = pre ++ .work now :: post ∧ run u pre s₀ = some t ∧
    step u (.work now) t = some t' ∧ t.handled = n ∧ t.sent[n]? = some frame ∧
    t.hand = some (.record frame) ∧
    t'.writer.disk.live = t.writer.disk.live ++ t.writer.buffer ++ frame ∧
    t'.writer.disk.synced = t'.writer.disk.live

/-- The policy at work: nothing stays in the buffer, and nothing in the file unsynced. -/
structure Always (s : Server) : Prop where
  handle : s.writer.handle = .append
  policy : s.writer.fsyncPolicy = .always
  buffer : s.writer.buffer = []
  synced : s.writer.disk.synced = s.writer.disk.live
  fifo : ∃ done, s.sent = done ++ s.waiting

theorem always_start (now : Int) : Always (start .always now) := ⟨rfl, rfl, rfl, rfl, [], rfl⟩

variable {u : CaseMap} {s : Server}

/-- What an action means for the records. -/
inductive RecordMoves (u : CaseMap) (s : Server) : Action → Server → Prop
  | others (a : Action) (s' : Server) (temp : Option Bytes)
    (hwriter : s'.writer = { s.writer with disk := { s.writer.disk with temp } })
    (frames : List Bytes) (hsent : s'.sent = s.sent ++ frames)
    (hwaiting : s'.waiting = s.waiting ++ frames) : RecordMoves u s a s'
  | record (now : Int) (frame : Bytes) (s' : Server) (hhand : s.hand = some (.record frame))
    (hwriter : s'.writer = (s.writer.record now .ok frame).2) (hsent : s'.sent = s.sent)
    (hwaiting : s.waiting = frame :: s'.waiting) : RecordMoves u s (.work now) s'
  | swap (now : Int) (s' : Server) (hwriter : s'.writer = (s.writer.swapFile now none).2)
    (hsent : s'.sent = s.sent)
    (hwaiting : s'.waiting = s.waiting) : RecordMoves u s (.work now) s'
  | tick (now : Int) (s' : Server) (hwriter : s'.writer = (s.writer.periodicFlush now .ok).2)
    (hsent : s'.sent = s.sent) (hwaiting : s'.waiting = s.waiting) : RecordMoves u s (.tick now) s'

theorem Moves.records (a : Action) (s' : Server) (h : Moves u s a s') : RecordMoves u s a s' := by
  have hsame : ∀ (a : Action) (s' : Server), s'.writer = s.writer → s'.sent = s.sent →
      s'.queue = s.queue → RecordMoves u s a s' := fun a s' hwriter hsent hqueue =>
    .others a s' s.writer.disk.temp hwriter [] (by rw [hsent, List.append_nil])
      (by rw [waiting, hqueue, List.append_nil]; rfl)
  cases h with
  | acquire | execute | release | skip | read | reply | lock | snapshot | refuse | finish =>
    exact hsame _ _ rfl rfl rfl
  | send i r v hphase =>
    refine .others _ _ s.writer.disk.temp rfl [r.frame] rfl ?_
    simp [waiting, queue, goto, WriterCmd.frame?]
  | writeTemp i frames hphase =>
    refine .others _ _ (some frames.flatten) rfl [] (by simp [goto]) ?_
    simp [waiting, queue, goto]
  | sendSwap i hphase =>
    refine .others _ _ s.writer.disk.temp rfl [] (by simp [goto]) ?_
    simp [waiting, queue, goto, WriterCmd.frame?]
  | recv m rest hhand hchannel => exact hsame _ _ rfl rfl (by simp [queue, hhand, hchannel])
  | record now frame hhand =>
    exact .record now frame _ hhand rfl rfl (by simp [waiting, queue, hhand, WriterCmd.frame?])
  | swap now i hhand =>
    exact .swap now _ rfl rfl
      (by simp [waiting, queue, goto, hhand, List.filterMap_cons, WriterCmd.frame?])
  | tick now hhand => exact .tick now _ rfl rfl rfl

theorem Always.step (h : Always s) (a : Action) (s' : Server) (hm : RecordMoves u s a s') :
    Always s' := by
  obtain ⟨done, hdone⟩ := h.fifo
  cases hm with
  | others _ _ temp hwriter frames hsent hwaiting =>
    refine ⟨by rw [hwriter, h.handle], by rw [hwriter, h.policy], by rw [hwriter, h.buffer], ?_,
      done, ?_⟩
    · rw [hwriter]
      exact h.synced
    · rw [hsent, hwaiting, hdone, List.append_assoc]
  | record now frame _ hhand hwriter hsent hwaiting =>
    rw [AofWriter.record_always now frame s.writer h.handle h.policy] at hwriter
    refine ⟨by rw [hwriter, h.handle], by rw [hwriter, h.policy], by rw [hwriter], by rw [hwriter],
      done ++ [frame], ?_⟩
    rw [hsent, hdone, hwaiting, List.append_assoc]
    rfl
  | swap now _ hwriter hsent hwaiting =>
    have hswap : ∃ disk last, s'.writer = { s.writer with disk, lastFlush := last } ∧
        disk.synced = disk.live := by
      rw [hwriter]
      unfold AofWriter.swapFile
      cases htemp : s.writer.disk.temp with
      | none => exact ⟨s.writer.disk, s.writer.lastFlush, by simp [htemp, h.buffer], h.synced⟩
      | some contents =>
        exact ⟨⟨contents, contents, none⟩, now, by simp [htemp, h.handle, h.buffer], rfl⟩
    obtain ⟨disk, last, hwriter', hsynced⟩ := hswap
    refine ⟨by rw [hwriter', h.handle], by rw [hwriter', h.policy], by rw [hwriter', h.buffer], ?_,
      done, ?_⟩
    · rw [hwriter', hsynced]
    · rw [hsent, hwaiting, hdone]
  | tick now _ hwriter hsent hwaiting =>
    rw [AofWriter.periodicFlush_always now s.writer h.policy] at hwriter
    exact ⟨by rw [hwriter, h.handle], by rw [hwriter, h.policy], by rw [hwriter, h.buffer],
      by rw [hwriter, h.synced], done, by rw [hsent, hwaiting, hdone]⟩

theorem Always.handled_add (h : Always s) : s.handled + s.waiting.length = s.sent.length := by
  obtain ⟨done, hdone⟩ := h.fifo
  have := congrArg List.length hdone
  rw [List.length_append] at this
  unfold handled
  omega

theorem RecordMoves.handled_le (h : Always s) (a : Action) (s' : Server)
    (hm : RecordMoves u s a s') : s.handled ≤ s'.handled := by
  have hadd := h.handled_add
  have hadd' := (h.step a s' hm).handled_add
  cases hm with
  | others _ _ temp hwriter frames hsent hwaiting =>
    rw [hsent, hwaiting, List.length_append, List.length_append] at hadd'
    omega
  | record now frame _ hhand hwriter hsent hwaiting =>
    rw [hwaiting, List.length_cons] at hadd
    rw [hsent] at hadd'
    omega
  | swap now _ hwriter hsent hwaiting =>
    rw [hsent, hwaiting] at hadd'
    omega
  | tick now _ hwriter hsent hwaiting =>
    rw [hsent, hwaiting] at hadd'
    omega

theorem run_always (acts : List Action) (t : Server) (hs : Always s)
    (hrun : run u acts s = some t) : Always t ∧ s.handled ≤ t.handled := by
  refine run_induction (step u) s (fun _ t => Always t ∧ s.handled ≤ t.handled)
    ⟨hs, le_rfl⟩ ?_ acts t hrun
  rintro as t a t' - ⟨ht, hle⟩ hstep
  have hm := (step_moves a t' hstep).records
  exact ⟨ht.step a t' hm, hle.trans (hm.handled_le ht)⟩

/-- Whatever the writer has dealt with was synced at that moment. -/
theorem run_synced (acts : List Action) (t : Server) (hs : Always s) (hnone : s.handled = 0)
    (hrun : run u acts s = some t) : ∀ n < t.handled, Synced u s acts n := by
  refine run_induction (step u) s (fun acts t => ∀ n < t.handled, Synced u s acts n) ?_ ?_ acts t
    hrun
  · intro n hn
    omega
  · intro as t a t' hrun ih hstep n hn
    obtain ⟨ht, -⟩ := run_always as t hs hrun
    have hm := (step_moves a t' hstep).records
    by_cases hn' : n < t.handled
    · obtain ⟨pre, now, post, m, m', frame, rfl, hsynced⟩ := ih n hn'
      exact ⟨pre, now, post ++ [a], m, m', frame, by simp, hsynced⟩
    · -- The count has grown, so a record was in the writer's hand.
      have hadd := ht.handled_add
      have hadd' := (ht.step a t' hm).handled_add
      cases hm with
      | others _ _ temp hwriter frames hsent hwaiting =>
        rw [hsent, hwaiting, List.length_append, List.length_append] at hadd'
        omega
      | swap now _ hwriter hsent hwaiting =>
        rw [hsent, hwaiting] at hadd'
        omega
      | tick now _ hwriter hsent hwaiting =>
        rw [hsent, hwaiting] at hadd'
        omega
      | record now frame _ hhand hwriter hsent hwaiting =>
        obtain ⟨done, hdone⟩ := ht.fifo
        rw [AofWriter.record_always now frame t.writer ht.handle ht.policy] at hwriter
        have hlen := congrArg List.length hdone
        rw [hsent] at hadd'
        rw [hwaiting, List.length_cons] at hadd
        rw [hwaiting, List.length_append, List.length_cons] at hlen
        obtain rfl : n = t.handled := by omega
        refine ⟨as, now, [], t, t', frame, rfl, hrun, hstep, rfl, ?_, hhand, ?_, by rw [hwriter]⟩
        · rw [hdone, hwaiting, List.getElem?_append_right (by omega),
            show t.handled - done.length = 0 by omega]
          rfl
        · rw [hwriter, List.append_assoc]

/--
With the policy `Always`, at the moment when a connection replies to a command that was logged, the
frame has been written and synced if and only if its record no longer waits in the channel or in the
writer's hand.
-/
theorem acknowledged_synced_iff (u : CaseMap) (now : Int) (acts : List Action) (s : Server)
    (hrun : run u acts (start .always now) = some s) (i n : Nat) :
    (s.phase i).record? = some n → (Synced u (start .always now) acts n ↔ ¬ s.Waits n) := by
  intro _
  obtain ⟨hs, -⟩ := run_always acts s (always_start now) hrun
  have hadd := hs.handled_add
  have hwaits : ¬ s.Waits n ↔ n < s.handled := by
    unfold Waits
    omega
  rw [hwaits]
  constructor
  · rintro ⟨pre, now', post, t, t', frame, rfl, hpre, hstep, rfl, -, hhand, -, -⟩
    have hrest : (run u pre (start .always now)).bind (run u (.work now' :: post)) = some s :=
      (run_append ..).symm.trans hrun
    rw [hpre, Option.bind_some] at hrest
    obtain ⟨t₁, ht₁, hpost⟩ := (run_cons_eq_some ..).mp hrest
    obtain rfl : t' = t₁ := Option.some.inj (hstep.symm.trans ht₁)
    obtain ⟨ht, -⟩ := run_always pre t (always_start now) hpre
    have ht' := ht.step _ _ (step_moves _ _ hstep).records
    have hadd := ht.handled_add
    have hadd' := ht'.handled_add
    have hle := (run_always post s ht' hpost).2
    cases step_moves _ _ hstep with
    | swap _ j hhand' =>
      rw [hhand'] at hhand
      cases hhand
    | record _ frame' hhand' =>
      simp only [waiting, queue, hhand', Option.toList_some, List.filterMap_append,
        List.length_append] at hadd hadd'
      simp only [Option.toList_none, List.filterMap_cons, WriterCmd.frame?, List.filterMap_nil,
        List.length_cons, List.length_nil] at hadd hadd'
      omega
  · intro hn
    exact run_synced acts s (always_start now) rfl hrun n hn

/-- A connection sets a key and sends its record. -/
def setAndSend : List Action :=
  [.acquire 0 (.of "SET" [utf8 "k", utf8 "v"]), .execute 0 .sample, .release 0, .send 0]

theorem synced_before_reply :
    Synced asciiCaseMap (start .always 0) (setAndSend ++ [.recv, .work 1]) 0 := by
  obtain ⟨s, hs⟩ := Option.isSome_iff_exists.mp
    (show (run asciiCaseMap (setAndSend ++ [.recv, .work 1]) (start .always 0)).isSome =
      true by decide +kernel)
  have hstate : (run asciiCaseMap (setAndSend ++ [.recv, .work 1]) (start .always 0)).map
      (fun s => ((s.phase 0).record?, decide (s.Waits 0))) = some (some 0, false) := by
        decide +kernel
  rw [hs, Option.map_some, Option.some.injEq, Prod.mk.injEq] at hstate
  exact (acknowledged_synced_iff asciiCaseMap 0 _ s hs 0 0 hstate.1).mpr
    (of_decide_eq_false hstate.2)

/-- The reply is written before the writer has run. -/
theorem reply_before_write :
    (run asciiCaseMap (setAndSend ++ [.reply 0]) (start .always 0)).map
      (fun s => (s.sent, s.writer.disk.live, s.writer.disk.synced)) =
        some ([encodeCommand [utf8 "SET", utf8 "k", utf8 "v"]], [], []) := by
  decide +kernel

end Server

end RustyPotato
