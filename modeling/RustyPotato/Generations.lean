import RustyPotato.CleanRestarts
import RustyPotato.ReadOnly
import RustyPotato.Restart
import RustyPotato.RewriteDeadlines

/-!
# Deadlines over many generations of the log

A rewrite writes a deadline down as a Unix time in whole milliseconds, and the next process counts
from its own reading of the clock. So every rewrite can cost a deadline up to a millisecond, and the
loss adds up. It is never more than that, and no deadline comes out later than the millisecond it
was in, however often the server is restarted.
-/

namespace RustyPotato

open Lib.Machine

/-- A server that nobody writes to, with its log and the last reading of its clock. -/
structure Resting where
  store : MemoryStore
  file : Bytes
  clock : Clock

inductive RestEvent where
  | read (env : Env) (cmd : ParsedCommand)
  /-- The clock of the snapshot, and that of the rendering. -/
  | rewrite (taken : Clock) (env : Env)
  /--
  The reads of the file, what each command of the replay meets, and the clock when the server is up.
  -/
  | restart (chunks : List Bytes) (renvs : Nat → Env) (ready : Clock)

def RestEvent.isRewrite : RestEvent → Bool
  | .rewrite _ _ => true
  | _ => false

namespace Resting

variable (u : CaseMap)

def step (a : RestEvent) (n : Resting) : Option Resting :=
  match a with
  | .read env cmd => some ⟨(respond u env cmd n.store).2, n.file, env.clock⟩
  | .rewrite taken env =>
    match snapshotToFrames env.clock env.hashOrder (n.store.snapshot taken env.keyOrder) with
    | .ok frames => some ⟨n.store, frames.flatten, env.clock⟩
    | .error _ => some ⟨n.store, n.file, env.clock⟩
  | .restart chunks renvs ready =>
    (recover u renvs (replayFile u .new chunks) .new).map fun store => ⟨store, n.file, ready⟩

/-- The clock has gone on, within one process. -/
structure Ticks (c c' : Clock) : Prop where
  le : c.le c'
  inStep : c.inStep c'

/--
The rewrite can be replayed, and what is in the snapshot has not come to its deadline when it is
rendered.
-/
structure Rewritable (taken : Clock) (env : Env) (s : MemoryStore) : Prop where
  le : taken.le env.clock
  fits : ∀ frames, snapshotToFrames env.clock env.hashOrder (s.snapshot taken env.keyOrder) =
    .ok frames → fitsReplay env s frames = true
  ahead : ∀ p ∈ s.snapshot taken env.keyOrder, ∀ d, p.2.expiresAt = some d → env.clock.now < d

/-- The clocks of a replay, of which the wall clock goes on from the process before. -/
structure Replaying (wall : Int) (renvs : Nat → Env) (ready : Clock) : Prop where
  clocks : ReplayClocks renvs ready
  inStep : ∀ i, (renvs i).clock.inStep ready
  later : ∀ i, wall ≤ (renvs i).clock.wall

def Admits (a : RestEvent) (n : Resting) : Prop :=
  match a with
  | .read env cmd => serverRegistry.isMutation u cmd.name = false ∧ Ticks n.clock env.clock
  | .rewrite taken env => n.clock.le taken ∧ Ticks n.clock env.clock ∧ Rewritable taken env n.store
  | .restart chunks renvs ready =>
    chunks.flatten = n.file ∧ (∀ chunk ∈ chunks, chunk.length ≤ chunkSize) ∧
      Replaying n.clock.wall renvs ready

theorem Ticks.wall_le {c c' : Clock} (h : Ticks c c') : c.wall ≤ c'.wall := by
  obtain ⟨hle, hstep⟩ := h
  simp only [Clock.le, Clock.inStep, Clock.now] at hle hstep
  omega

theorem Ticks.wallOf_eq {c c' : Clock} (h : Ticks c c') (d : Int) : c'.wallOf d = c.wallOf d := by
  have := h.inStep
  simp only [Clock.wallOf, Clock.inStep] at *
  omega

theorem Replaying.ticks {wall : Int} {renvs : Nat → Env} {ready : Clock}
    (h : Replaying wall renvs ready) (i : Nat) :
    Ticks (renvs i).clock ready := ⟨h.clocks.last i, h.inStep i⟩

end Resting

/-! ## How far a deadline drifts -/

/--
The deadline is in a millisecond that is not after the first deadline, and at most `n` before it.
-/
def Drifted (n : Nat) : Option Int → Option Int → Prop
  | none, none => True
  | some w, some w' =>
    ∃ millis : Nat, InMilli millis w' ∧ millis * nanosPerMilli ≤ w ∧
      w < (millis + n + 1) * nanosPerMilli
  | _, _ => False

theorem Drifted.more {n n' : Nat} (h : n ≤ n') {w w' : Option Int} (hw : Drifted n w w') :
    Drifted n' w w' := by
  obtain _ | w := w <;> obtain _ | w' := w'
  · trivial
  · exact hw
  · exact hw
  · obtain ⟨millis, hin, hle, hlt⟩ := hw
    refine ⟨millis, hin, hle, ?_⟩
    simp only [nanosPerMilli] at *
    omega

theorem drifted_refl (w : Option Int) (hw : ∀ x, w = some x → 0 ≤ x) : Drifted 0 w w := by
  obtain _ | w := w
  · trivial
  · have hpos := hw w rfl
    refine ⟨(w / nanosPerMilli).toNat, ?_⟩
    simp only [InMilli, nanosPerMilli] at *
    omega

/-- A rewrite goes back by a millisecond at most. -/
theorem Drifted.target {n : Nat} {w : Int} (c : Clock) (d : Int) (hd : c.now < d)
    (hwall : 0 ≤ c.wall) (hfits : w + nanosPerMilli < 2 ^ 64 * nanosPerMilli)
    (h : Drifted n (some w) (some (c.wallOf d))) :
    Drifted (n + 1) (some w) (some (targetMillis c d * nanosPerMilli)) := by
  obtain ⟨millis, ⟨hge, hlt⟩, hle, hnear⟩ := h
  have htarget := targetMillis_eq c d hd hwall (by simp only [nanosPerMilli] at *; omega)
  refine ⟨targetMillis c d, ?_⟩
  simp only [InMilli, Clock.wallOf, nanosPerMilli] at *
  omega

/-- A restart leaves the millisecond, as long as it has not passed. -/
theorem Drifted.resolved {n : Nat} {w : Int} {millis : Nat} (t ready : Clock)
    (ht : Resting.Ticks t ready) (halive : ready.now ≤ unixDeadline t millis)
    (h : Drifted n (some w) (some (millis * nanosPerMilli))) :
    Drifted n (some w) (some (ready.wallOf (unixDeadline t millis))) := by
  obtain ⟨millis', ⟨hge, hlt⟩, hle, hnear⟩ := h
  have hsame : millis' = millis := by
    simp only [nanosPerMilli] at *
    omega
  subst hsame
  rw [ht.wallOf_eq]
  rcases unixDeadline_cases t millis' with ⟨-, hpast⟩ | ⟨-, hin⟩
  · have := ht.le
    simp only [Clock.le, Clock.now, nanosPerMilli] at *
    omega
  · exact ⟨millis', hin, hle, hnear⟩

/-! ## One key -/

/-- A value and its deadline on the wall clock, whatever process it is in. -/
def Entry.onWall (c : Clock) (e : Entry) : ValueType × Option Int :=
  ⟨e.value, e.deadline.map c.wallOf⟩

/-- A value and its deadline as a rewrite writes them. -/
def writtenOnWall (x : ValueType × Option Nat) : ValueType × Option Int :=
  ⟨x.1, x.2.map fun millis => millis * nanosPerMilli⟩

def Entry.written (c : Clock) (e : Entry) : ValueType × Option Nat :=
  ⟨printed e.value, e.deadline.map (targetMillis c)⟩

/-- What is left at `ready` of what a rewrite has written, if its deadline was resolved at `t`. -/
def aliveAfter (t ready : Clock) (x : ValueType × Option Nat) : Option Entry :=
  Entry.alive ready ⟨x.1, x.2.map (unixDeadline t)⟩

/-- What was under a key at first, and what is left of it after `n` rewrites, at the time `now`. -/
structure Kept (n : Nat) (now : Int) (before after : Option (ValueType × Option Int)) : Prop where
  found : ∀ x', after = some x' → ∃ x, before = some x ∧ printed x'.1 = printed x.1 ∧
    Drifted n x.2 x'.2
  kept : ∀ x, before = some x → (∀ w, x.2 = some w → now + (n + 1) * nanosPerMilli ≤ w) →
    after.isSome

namespace Kept

variable {n : Nat} {now : Int} {before : Option (ValueType × Option Int)}

theorem more {n' : Nat} {now' : Int} (hn : n ≤ n') (hnow : now ≤ now')
    {after : Option (ValueType × Option Int)} (h : Kept n now before after) :
    Kept n' now' before after := by
  refine ⟨fun x' hx' => ?_, fun x hx hfar => h.kept x hx fun w hw => ?_⟩
  · obtain ⟨x, hx, hvalue, hdrift⟩ := h.found x' hx'
    exact ⟨x, hx, hvalue, hdrift.more hn⟩
  · have := hfar w hw
    simp only [nanosPerMilli] at *
    omega

/--
A function from entry to entry keeps what is known of a key, if it prints the same value and drifts
no further than `n'`, and if what it drops is too close to its deadline.
-/
theorem bind {α β : Type} {n' : Nat} {now' : Int} (hnow : now ≤ now') (hn : n ≤ n')
    (p : α → ValueType × Option Int) (q : β → ValueType × Option Int) (f : α → Option β)
    {after : Option α} (h : Kept n now before (after.map p))
    (hf : ∀ x y z, before = some x → after = some y → Drifted n x.2 (p y).2 → f y = some z →
      printed (q z).1 = printed (p y).1 ∧ Drifted n' x.2 (q z).2)
    (hdrop : ∀ x y, before = some x → after = some y → Drifted n x.2 (p y).2 → f y = none →
      ∃ w, x.2 = some w ∧ w < now' + (n' + 1) * nanosPerMilli) :
    Kept n' now' before ((after.bind f).map q) := by
  constructor
  · intro z' hz'
    obtain ⟨z, hz, rfl⟩ := Option.map_eq_some_iff.mp hz'
    obtain ⟨y, hy, hyz⟩ := Option.bind_eq_some_iff.mp hz
    obtain ⟨x, hx, hvalue, hdrift⟩ := h.found (p y) (by rw [hy]; rfl)
    obtain ⟨hprinted, hdrift'⟩ := hf x y z hx hy hdrift hyz
    exact ⟨x, hx, hprinted.trans hvalue, hdrift'⟩
  · intro x hx hfar
    have hsome := h.kept x hx fun w hw => by
      have := hfar w hw
      simp only [nanosPerMilli] at *
      omega
    rw [Option.isSome_map] at hsome
    obtain ⟨y, hy⟩ := Option.isSome_iff_exists.mp hsome
    obtain ⟨x', hx', -, hdrift⟩ := h.found (p y) (by rw [hy]; rfl)
    rw [hx, Option.some.injEq] at hx'
    subst hx'
    rw [Option.isSome_map, hy, Option.bind_some]
    by_contra hnone
    obtain ⟨w, hw, hlt⟩ := hdrop x y hx hy hdrift (by simpa using hnone)
    have := hfar w hw
    omega

/-- Time passes. -/
theorem later {c c' : Clock} (htick : Resting.Ticks c c') {e : Option Entry}
    (h : Kept n c.wall before (e.map (Entry.onWall c))) :
    Kept n c'.wall before ((e.bind (Entry.alive c')).map (Entry.onWall c')) := by
  refine h.bind htick.wall_le le_rfl _ _ _ ?_ ?_
  · intro x y z hx hy hdrift hz
    obtain ⟨-, rfl⟩ := (Entry.alive_eq_some ..).mp hz
    refine ⟨rfl, ?_⟩
    have hsame : c'.wallOf = c.wallOf := funext htick.wallOf_eq
    simpa only [Entry.onWall, hsame] using hdrift
  · intro x y hx hy hdrift hnone
    obtain ⟨v, _ | d⟩ := y
    · cases hnone
    · have hexpired : d < c'.now := by simpa [Entry.alive, Entry.isExpired] using hnone
      obtain ⟨_, _ | w⟩ := x
      · exact hdrift.elim
      · obtain ⟨millis, ⟨hge, hlt⟩, hle, hnear⟩ := hdrift
        refine ⟨w, rfl, ?_⟩
        have := htick.wallOf_eq d
        simp only [Clock.wallOf, nanosPerMilli] at *
        omega

/-- The key is written down by a rewrite. -/
theorem written {c : Clock} {e : Option Entry}
    (hahead : ∀ y d, e = some y → y.deadline = some d → c.now < d ∧ 0 ≤ c.wall)
    (hfits : ∀ x w, before = some x → x.2 = some w → w + nanosPerMilli < 2 ^ 64 * nanosPerMilli)
    (h : Kept n c.wall before (e.map (Entry.onWall c))) :
    Kept (n + 1) c.wall before ((e.map (Entry.written c)).map writtenOnWall) := by
  have hbind : e.map (Entry.written c) = e.bind (some ∘ Entry.written c) := Option.map_eq_bind
  rw [hbind]
  refine h.bind le_rfl (Nat.le_succ n) _ _ _ ?_ ?_
  · rintro ⟨v, dx⟩ ⟨v', dy⟩ _ hx hy hdrift ⟨⟩
    refine ⟨Server.printed_printed v', ?_⟩
    obtain _ | d := dy
    · exact hdrift.more (Nat.le_succ n)
    · obtain _ | w := dx
      · exact hdrift.elim
      · obtain ⟨hlt, hwall⟩ := hahead _ d hy rfl
        exact Drifted.target c d hlt hwall (hfits _ w hx rfl) hdrift
  · rintro x y - - - ⟨⟩

/-- The key is brought back by a replay. -/
theorem replayed {t ready : Clock} (htick : Resting.Ticks t ready) (hnow : now ≤ t.wall)
    {x : Option (ValueType × Option Nat)} (h : Kept n now before (x.map writtenOnWall)) :
    Kept n ready.wall before ((x.bind (aliveAfter t ready)).map (Entry.onWall ready)) := by
  refine h.bind (hnow.trans htick.wall_le) le_rfl _ _ _ ?_ ?_
  · rintro ⟨v, dx⟩ ⟨v', _ | millis⟩ z - - hdrift hz
    · cases hz
      exact ⟨rfl, hdrift⟩
    · obtain ⟨halive, rfl⟩ := (Entry.alive_eq_some ..).mp hz
      refine ⟨rfl, ?_⟩
      obtain _ | w := dx
      · exact hdrift.elim
      · exact hdrift.resolved t ready htick (by simpa [Entry.isExpired] using halive)
  · rintro ⟨v, dx⟩ ⟨v', _ | millis⟩ - - hdrift hnone
    · cases hnone
    · have hexpired : unixDeadline t millis < ready.now := by
        simpa [aliveAfter, Entry.alive, Entry.isExpired] using hnone
      obtain _ | w := dx
      · exact hdrift.elim
      · obtain ⟨millis', ⟨hge, hlt⟩, hle, hnear⟩ := hdrift
        refine ⟨w, rfl, ?_⟩
        have hwall := htick.wall_le
        have hsame := htick.wallOf_eq (unixDeadline t millis)
        rcases unixDeadline_cases t millis with ⟨hpast, -⟩ | ⟨-, hin, -⟩
        · simp only [nanosPerMilli] at *
          omega
        · simp only [Clock.wallOf, nanosPerMilli] at *
          omega

end Kept

/-! ## The log -/

theorem recover_storable (u : CaseMap) (envs : Nat → Env) (cmds : List ParsedCommand)
    (s s' : MemoryStore) (hs : s.Storable) (h : recover u envs cmds s = some s') : s'.Storable := by
  induction cmds generalizing envs s with
  | nil =>
    cases h
    exact hs
  | cons cmd cmds ih =>
    obtain ⟨⟨r, m⟩, hrun, hrest⟩ := Option.bind_eq_some_iff.mp h
    obtain ⟨steps, hplan, rfl⟩ := CommandRegistry.exists_plan u _ (envs 0) cmd s m r hrun
    refine ih _ _ ?_ hrest
    exact Step.runAll_storable (envs 0).clock steps
      (CommandRegistry.plan_storable u _ (envs 0) cmd steps hplan) s hs

/--
Any later replay of the file brings back just these values, with their deadlines at these Unix
times.
-/
def Written (u : CaseMap) (since : Int) (file : Bytes)
    (m : String → Option (ValueType × Option Nat)) : Prop :=
  ∀ chunks renvs ready, chunks.flatten = file → (∀ chunk ∈ chunks, chunk.length ≤ chunkSize) →
    Resting.Replaying since renvs ready →
      ∃ s', recover u renvs (replayFile u .new chunks) .new = some s' ∧
        ∀ k, ∃ i, s'.live ready k = (m k).bind (aliveAfter (renvs i).clock ready)

theorem mem_snapshot_of_live (c : Clock) (keyOrder : IterOrder StoredValue) (s : MemoryStore)
    (k : String) (e : Entry) (h : s.live c k = some e) : ∃ x, (k, x) ∈ s.snapshot c keyOrder ∧
      x.toEntry = e := by
  unfold MemoryStore.live at h
  rcases hslot : s.slot k with ⟨_ | x, i⟩
  · rw [hslot] at h
    cases h
  · rw [hslot, Slot.live_some] at h
    obtain ⟨hexpired, rfl⟩ := (Entry.alive_eq_some ..).mp h
    exact ⟨x, (mem_snapshot c keyOrder s k x).mpr ⟨by rw [hslot], hexpired⟩, rfl⟩

theorem live_of_mem_snapshot (c : Clock) (keyOrder : IterOrder StoredValue) (s : MemoryStore)
    (k : String) (x : StoredValue) (h : (k, x) ∈ s.snapshot c keyOrder) :
    s.live c k = some x.toEntry := by
  obtain ⟨hentry, hexpired⟩ := (mem_snapshot c keyOrder s k x).mp h
  rw [MemoryStore.live, ← Slot.live_alive c x (s.slot k).index hexpired, ← hentry]

/-- The snapshot that is rendered is the one of the time of the rendering. -/
theorem Resting.Rewritable.snapshot_eq {taken : Clock} {env : Env} {s : MemoryStore}
    (hs : Resting.Rewritable taken env s) :
    s.snapshot taken env.keyOrder = s.snapshot env.clock env.keyOrder := by
  refine List.filter_congr fun p hp => ?_
  have hmem : (p.1, p.2) ∈ s.snapshot taken env.keyOrder ↔ p.2.isExpired taken = false := by
    rw [mem_snapshot]
    exact and_iff_right ((env.keyOrder.mem_iff s.data p.1 p.2).mp hp)
  cases hexpired : p.2.isExpired taken with
  | true =>
    have := Entry.isExpired_mono taken env.clock hs.le p.2.toEntry hexpired
    rw [StoredValue.toEntry_isExpired] at this
    rw [this]
  | false =>
    have hahead := hs.ahead p (hmem.mpr hexpired)
    cases hd : p.2.expiresAt with
    | none => rw [StoredValue.isExpired_of_none env.clock p.2 hd]
    | some d =>
      have := hahead d hd
      simp only [StoredValue.isExpired, hd]
      rw [decide_eq_false (by omega)]

section
variable (u : CaseMap) (taken : Clock) (env : Env) (s : MemoryStore) (frames : List Bytes)
  (hframes : snapshotToFrames env.clock env.hashOrder (s.snapshot taken env.keyOrder) = .ok frames)
include hframes

/-- The deadlines of what is rewritten are ahead, and a Unix time is known for them. -/
theorem rewritten_ahead (hs : Resting.Rewritable taken env s) :
    ∀ p ∈ s.snapshot env.clock env.keyOrder, p.2.Renders env.clock := by
  rw [← hs.snapshot_eq]
  exact renders_of_ok env.clock env.hashOrder _ frames hframes hs.ahead

theorem replayFile_rewritten (hs : Resting.Rewritable taken env s) (chunks : List Bytes)
    (hfile : chunks.flatten = frames.flatten)
    (hchunks : ∀ chunk ∈ chunks, chunk.length ≤ chunkSize) :
    replayFile u .new chunks =
      (s.snapshot env.clock env.keyOrder).flatMap
        fun p => entryCommands env.clock env.hashOrder p.1 p.2 := by
  have hfits := hs.fits frames hframes
  rw [hs.snapshot_eq] at hframes
  rw [fitsReplay, Bool.and_eq_true, List.all_eq_true, List.all_eq_true] at hfits
  have hsizes : ∀ frame ∈ frames, frame.length + chunkSize ≤ CodecLimits.default.maxBufferSize :=
    fun frame hframe => of_decide_eq_true (hfits.2 frame hframe)
  have hcmds := snapshotToFrames_eq env.clock env.hashOrder _ frames hframes
  refine replayFile_log u chunks hchunks frames _ ?_ hsizes hfile
  rw [hcmds]
  refine List.forall₂_map_left_iff.mpr (List.forall₂_same.mpr fun cmd hcmd => ?_)
  obtain ⟨p, hp, hmem⟩ := List.mem_flatMap.mp hcmd
  have hfields : ∀ h, p.2.value = .hash h →
      2 + 2 * h.entries.card ≤ CodecLimits.default.maxArrayLength := by
    intro h hh
    have := hfits.1 p hp
    rw [hh] at this
    exact of_decide_eq_true this
  have hsize := hsizes (encodeParsed cmd) (hcmds ▸ List.mem_map_of_mem hcmd)
  exact (entryCommands_isFrame u env.clock env.hashOrder p.1 p.2 hfields cmd hmem (by omega)).2

theorem written_rewrite (hstorable : s.Storable) (hs : Resting.Rewritable taken env s) :
    Written u env.clock.wall frames.flatten fun k => (s.live env.clock k).map
      (Entry.written env.clock) := by
  intro chunks renvs ready hfile hchunks hreplay
  obtain ⟨tl, htl, hunder, hact⟩ :=
    entries_restored u env.clock env.hashOrder (s.snapshot env.clock env.keyOrder)
      (nodup_snapshot env.clock env.keyOrder s)
    (fun p hp => hstorable p.1 p.2 ((mem_snapshot env.clock env.keyOrder s p.1 p.2).mp hp).1)
    (rewritten_ahead taken env s frames hframes hs) renvs hreplay.later
  have hbetween := replayTimeline_between u renvs _ tl htl (renvs 0).clock ready
    (fun i => hreplay.clocks.mono 0 i (by omega)) hreplay.clocks.mono hreplay.clocks.last
  refine ⟨tl.run .new, ?_, fun k => ?_⟩
  · rw [replayFile_rewritten u taken env s frames hframes hs chunks hfile hchunks, recover_eq, htl,
      Option.map_some]
  · beta_reduce
    rw [Timeline.live_run k _ ready tl .new hbetween, MemoryStore.live_new]
    cases hlive : s.live env.clock k with
    | some e =>
      obtain ⟨x, hx, rfl⟩ := mem_snapshot_of_live env.clock env.keyOrder s k e hlive
      obtain ⟨i, -, hi⟩ := hact _ ready hbetween (k, x) hx
      refine ⟨i, hi.trans ?_⟩
      simp [aliveAfter, Entry.written, restoredEntry, StoredValue.toEntry, Function.comp_def]
    | none =>
      refine ⟨0, ?_⟩
      rw [Timeline.act_none_untouched]
      · rfl
      · intro x hx step hstep htouch
        obtain ⟨key, hkey, h⟩ := hunder x hx step hstep
        obtain ⟨p, hp, rfl⟩ := List.mem_map.mp hkey
        obtain rfl := h k htouch
        rw [live_of_mem_snapshot env.clock env.keyOrder s p.1 p.2 hp] at hlive
        cases hlive

end

/-! ## Any number of generations -/

namespace Resting

variable {u : CaseMap} {origin : String → Option (ValueType × Option Int)}

/-- After `r` rewrites both the store and the log have what was there at first. -/
structure Aged (u : CaseMap) (origin : String → Option (ValueType × Option Int)) (r : Nat)
    (n : Resting) : Prop where
  storable : n.store.Storable
  store : ∀ k, Kept r n.clock.wall (origin k) ((n.store.live n.clock k).map (Entry.onWall n.clock))
  file : ∃ since m, Written u since n.file m ∧ since ≤ n.clock.wall ∧
    ∀ k, Kept r n.clock.wall (origin k) ((m k).map writtenOnWall)

variable {r : Nat}

/-- A command that is no mutation only lets time pass. -/
theorem live_read (env : Env) (cmd : ParsedCommand)
    (hread : serverRegistry.isMutation u cmd.name = false) (s : MemoryStore) (k : String) :
    (respond u env cmd s).2.live env.clock k = s.live env.clock k := by
  unfold MemoryStore.live
  rcases respond_onlyPurged u env cmd hread s k with hsame | ⟨hgone, e, he, hexpired⟩
  · rw [hsame]
  · rw [hgone, Slot.live_empty]
    rcases hslot : s.slot k with ⟨x, i⟩
    rw [hslot] at he
    obtain rfl : x = some e := he
    rw [Slot.live_expired env.clock e i hexpired]

theorem Aged.read (n : Resting) (h : Aged u origin r n) (env : Env) (cmd : ParsedCommand)
    (hread : serverRegistry.isMutation u cmd.name = false) (htick : Ticks n.clock env.clock) :
    Aged u origin r ⟨(respond u env cmd n.store).2, n.file, env.clock⟩ := by
  obtain ⟨since, m, hwritten, hsince, hfile⟩ := h.file
  refine ⟨Node.respond_storable env cmd n.store h.storable, fun k => ?_, since, m, hwritten,
    hsince.trans htick.wall_le, fun k => (hfile k).more le_rfl htick.wall_le⟩
  simp only [live_read env cmd hread]
  rw [MemoryStore.live_later n.clock env.clock htick.le]
  exact (h.store k).later htick

theorem Aged.rewrite (hfits : ∀ k x w, origin k = some x → x.2 = some w →
    w + nanosPerMilli < 2 ^ 64 * nanosPerMilli)
    (n : Resting) (h : Aged u origin r n) (taken : Clock) (env : Env)
    (htick : Ticks n.clock env.clock) (hrewritable : Rewritable taken env n.store) :
    ∃ n', step u (.rewrite taken env) n = some n' ∧ Aged u origin (r + 1) n' := by
  have hstore : ∀ k, Kept r env.clock.wall (origin k)
      ((n.store.live env.clock k).map (Entry.onWall env.clock)) := by
    intro k
    rw [MemoryStore.live_later n.clock env.clock htick.le]
    exact (h.store k).later htick
  have hmore := fun k => (hstore k).more (Nat.le_succ r) le_rfl
  simp only [step]
  cases hframes : snapshotToFrames env.clock env.hashOrder
    (n.store.snapshot taken env.keyOrder) with
  | error err =>
    obtain ⟨since, m, hwritten, hsince, hfile⟩ := h.file
    exact ⟨_, rfl, h.storable, hmore, since, m, hwritten, hsince.trans htick.wall_le,
      fun k => (hfile k).more (Nat.le_succ r) htick.wall_le⟩
  | ok frames =>
    refine ⟨_, rfl, h.storable, hmore, env.clock.wall, _,
      written_rewrite u taken env n.store frames hframes h.storable hrewritable, le_rfl,
      fun k => ?_⟩
    refine (hstore k).written (fun y d hy hd => ?_) (hfits k)
    obtain ⟨x, hx, rfl⟩ := mem_snapshot_of_live env.clock env.keyOrder n.store k y hy
    exact rewritten_ahead taken env n.store frames hframes hrewritable (k, x) hx d hd

theorem Aged.restart (n : Resting) (h : Aged u origin r n) (chunks : List Bytes) (renvs : Nat → Env)
    (ready : Clock) (hfile : chunks.flatten = n.file)
    (hchunks : ∀ chunk ∈ chunks, chunk.length ≤ chunkSize)
    (hreplay : Replaying n.clock.wall renvs ready) :
    ∃ n', step u (.restart chunks renvs ready) n = some n' ∧ Aged u origin r n' := by
  obtain ⟨since, m, hwritten, hsince, hkept⟩ := h.file
  obtain ⟨s', hs', hlive⟩ := hwritten chunks renvs ready hfile hchunks
    ⟨hreplay.clocks, hreplay.inStep, fun i => hsince.trans (hreplay.later i)⟩
  have hwall : n.clock.wall ≤ ready.wall := (hreplay.later 0).trans (hreplay.ticks 0).wall_le
  refine ⟨⟨s', n.file, ready⟩, by rw [step, hs', Option.map_some],
    recover_storable u renvs _ .new s' (fun _ => Slot.storable_empty) hs', fun k => ?_,
    since, m, hwritten, hsince.trans hwall, fun k => (hkept k).more le_rfl hwall⟩
  obtain ⟨i, hi⟩ := hlive k
  simp only [hi]
  exact (hkept k).replayed (hreplay.ticks i) (hreplay.later i)

theorem Aged.step (hfits : ∀ k x w, origin k = some x → x.2 = some w →
    w + nanosPerMilli < 2 ^ 64 * nanosPerMilli)
    (a : RestEvent) (n : Resting) (h : Aged u origin r n) (hadmits : Admits u a n) :
    ∃ n', Resting.step u a n = some n' ∧ Aged u origin (r + if a.isRewrite then 1 else 0) n' := by
  cases a with
  | read env cmd => exact ⟨_, rfl, h.read n env cmd hadmits.1 hadmits.2⟩
  | rewrite taken env => exact h.rewrite hfits n taken env hadmits.2.1 hadmits.2.2
  | restart chunks renvs ready =>
    exact h.restart n chunks renvs ready hadmits.1 hadmits.2.1 hadmits.2.2

/-- What is live, as the wall clock has it. -/
def view (n : Resting) (k : String) : Option (ValueType × Option Int) :=
  (n.store.live n.clock k).map (Entry.onWall n.clock)

theorem aged_start (taken : Clock) (env : Env) (s : MemoryStore) (hs : s.Storable)
    (hrewritable : Rewritable taken env s) (frames : List Bytes)
    (hframes : snapshotToFrames env.clock env.hashOrder (s.snapshot taken env.keyOrder) =
      .ok frames)
    (hfits : ∀ k x w, view ⟨s, frames.flatten, env.clock⟩ k = some x → x.2 = some w →
      w + nanosPerMilli < 2 ^ 64 * nanosPerMilli) :
    Aged u (view ⟨s, frames.flatten, env.clock⟩) 1 ⟨s, frames.flatten, env.clock⟩ := by
  have hahead : ∀ k y d, s.live env.clock k = some y → y.deadline = some d → env.clock.now < d ∧
      0 ≤ env.clock.wall := by
    intro k y d hy hd
    obtain ⟨x, hx, rfl⟩ := mem_snapshot_of_live env.clock env.keyOrder s k y hy
    exact rewritten_ahead taken env s frames hframes hrewritable (k, x) hx d hd
  have hkept : ∀ k, Kept 0 env.clock.wall (view ⟨s, frames.flatten, env.clock⟩ k)
      ((s.live env.clock k).map (Entry.onWall env.clock)) := by
    intro k
    refine ⟨fun x hx => ⟨x, hx, rfl, drifted_refl x.2 fun w hw => ?_⟩,
      fun x hx _ => Option.isSome_of_eq_some hx⟩
    obtain ⟨y, hy, rfl⟩ := Option.map_eq_some_iff.mp hx
    obtain ⟨d, hd, rfl⟩ := Option.map_eq_some_iff.mp hw
    have := hahead k y d hy hd
    unfold Clock.wallOf
    omega
  refine ⟨hs, fun k => (hkept k).more (Nat.zero_le 1) le_rfl, env.clock.wall, _,
    written_rewrite u taken env s frames hframes hs hrewritable, le_rfl, fun k => ?_⟩
  exact (hkept k).written (hahead k) (hfits k)

/--
However often the log is rewritten and the server restarted, with reads in between, the server comes
up. It has no other keys than before, with the values as they print. A deadline is never in a later
millisecond and has lost at most one millisecond for each rewrite, and only a key that is that close
to its deadline can be missing.
-/
theorem deadlines_drift (taken : Clock) (env : Env) (s : MemoryStore) (hs : Reachable u s)
    (hrewritable : Rewritable taken env s) (frames : List Bytes)
    (hframes : snapshotToFrames env.clock env.hashOrder (s.snapshot taken env.keyOrder) =
      .ok frames)
    (hfits : ∀ k x w, view ⟨s, frames.flatten, env.clock⟩ k = some x → x.2 = some w →
      w + nanosPerMilli < 2 ^ 64 * nanosPerMilli) (events : List RestEvent)
    (hadmits : Along (step u) (Admits u) events ⟨s, frames.flatten, env.clock⟩) :
    ∃ n, run (step u) events ⟨s, frames.flatten, env.clock⟩ = some n ∧
      ∀ k, Kept (events.countP RestEvent.isRewrite + 1) n.clock.wall
        (view ⟨s, frames.flatten, env.clock⟩ k) (view n k) := by
  have hstep : ∀ as a n, Aged u (view ⟨s, frames.flatten, env.clock⟩)
      (as.countP RestEvent.isRewrite + 1) n → Admits u a n → ∃ n', step u a n = some n' ∧
        Aged u (view ⟨s, frames.flatten, env.clock⟩) ((as ++ [a]).countP RestEvent.isRewrite + 1)
          n' := by
    intro as a n h hok
    rw [List.countP_append, List.countP_singleton, Nat.add_right_comm]
    exact h.step hfits a n hok
  have hstart := aged_start (u := u) taken env s (hs.storable u s) hrewritable frames hframes hfits
  obtain ⟨n, hrun, hn⟩ := exists_run (step u) (Admits u) _ hstep [] events _ hadmits hstart
  exact ⟨n, hrun, hn.store⟩

/-! ## A key that loses two milliseconds -/

instance (c c' : Clock) : Decidable (Ticks c c') :=
  decidable_of_iff (c.le c' ∧ c.inStep c') ⟨fun h => ⟨h.1, h.2⟩, fun h => ⟨h.le, h.inStep⟩⟩

def rewritable (taken : Clock) (env : Env) (s : MemoryStore) : Bool :=
  decide (taken.mono ≤ env.clock.mono) &&
    (snapshotToFrames env.clock env.hashOrder (s.snapshot taken env.keyOrder)).toOption.all
      (fitsReplay env s) &&
    (s.snapshot taken env.keyOrder).all fun p =>
      p.2.expiresAt.all fun d => decide (env.clock.now < d)

theorem rewritable_of_check (taken : Clock) (env : Env) (s : MemoryStore)
    (h : rewritable taken env s = true) : Rewritable taken env s := by
  rw [rewritable, Bool.and_eq_true, Bool.and_eq_true, List.all_eq_true] at h
  refine ⟨of_decide_eq_true h.1.1, fun frames hframes => ?_, fun p hp d hd => ?_⟩
  · have := h.1.2
    rwa [hframes] at this
  · have := h.2 p hp
    rw [hd] at this
    exact of_decide_eq_true this

/-- The conditions, for replays in which no time passes. -/
def accepts (u : CaseMap) (a : RestEvent) (n : Resting) : Bool :=
  match a with
  | .read env cmd => !serverRegistry.isMutation u cmd.name && decide (Ticks n.clock env.clock)
  | .rewrite taken env =>
    decide (n.clock.mono ≤ taken.mono) && decide (Ticks n.clock env.clock) &&
      rewritable taken env n.store
  | .restart chunks renvs ready =>
    decide (chunks.flatten = n.file) &&
      chunks.all (fun chunk => decide (chunk.length ≤ chunkSize)) &&
      decide (n.clock.wall ≤ (renvs 0).clock.wall ∧ Ticks (renvs 0).clock ready)

/-- All commands of the replay meet the same. -/
def Steady (a : RestEvent) : Prop :=
  ∀ chunks renvs ready, a = .restart chunks renvs ready → ∀ i, renvs i = renvs 0

theorem admits_of_accepts (a : RestEvent) (n : Resting) (h : Steady a ∧ accepts u a n = true) :
    Admits u a n := by
  obtain ⟨hsteady, h⟩ := h
  cases a with
  | read env cmd => simpa [accepts, Admits] using h
  | rewrite taken env =>
    simp only [accepts, Bool.and_eq_true, decide_eq_true_eq] at h
    exact ⟨h.1.1, h.1.2, rewritable_of_check taken env n.store h.2⟩
  | restart chunks renvs ready =>
    simp only [accepts, Bool.and_eq_true, decide_eq_true_eq, List.all_eq_true] at h
    obtain ⟨⟨hfile, hchunks⟩, hwall, htick⟩ := h
    have hsame := hsteady chunks renvs ready rfl
    refine ⟨hfile, hchunks, ⟨fun i j _ => ?_, fun i => ?_⟩, fun i => ?_, fun i => ?_⟩
    · rw [hsame i, hsame j]
      exact Nat.le_refl _
    · rw [hsame i]
      exact htick.le
    · rw [hsame i]
      exact htick.inStep
    · rw [hsame i]
      exact hwall

/-- `SET k v PX 10`, half a millisecond after the epoch. -/
def shortLived : MemoryStore :=
  (handleConnection asciiCaseMap .default (fun _ => .atClock (.ofNanos 500000 (by decide)))
    [encodeCommand [utf8 "SET", utf8 "k", utf8 "v", utf8 "PX", utf8 "10"]] .new).store

def firstRewrite : Env := .atClock (.ofNanos 600000 (by decide))

/-- The log after each of two rewrites. -/
def shortLogs : Bytes × Bytes :=
  (encodeCommand [utf8 "SET", utf8 "k", utf8 "v"] ++
    encodeCommand [utf8 "PEXPIREAT", utf8 "k", utf8 "9"],
   encodeCommand [utf8 "SET", utf8 "k", utf8 "v"] ++
    encodeCommand [utf8 "PEXPIREAT", utf8 "k", utf8 "8"])

def shortStory : List RestEvent :=
  [.restart [shortLogs.1] (fun _ => .atClock (.ofNanos 1200000 (by decide)))
    (.ofNanos 1200000 (by decide)),
   .read (.atClock (.ofNanos 1250000 (by decide))) ⟨"GET", [utf8 "k"]⟩,
   .rewrite (.ofNanos 1280000 (by decide)) (.atClock (.ofNanos 1300000 (by decide))),
   .restart [shortLogs.2] (fun _ => .atClock (.ofNanos 2200000 (by decide)))
    (.ofNanos 2200000 (by decide))]

theorem shortStory_steady (a : RestEvent) (ha : a ∈ shortStory) : Steady a := by
  rintro chunks renvs ready rfl i
  simp only [shortStory, List.mem_cons, RestEvent.restart.injEq, reduceCtorEq, List.not_mem_nil,
    or_false, false_or] at ha
  rcases ha with ⟨-, rfl, -⟩ | ⟨-, rfl, -⟩
  · rfl
  · rfl

/--
The deadline of the key was at 10.5 milliseconds, and is at 8.2 after two rewrites and restarts.
-/
theorem shortStory_drifts :
    ∃ n, run (step asciiCaseMap) shortStory ⟨shortLived, shortLogs.1, firstRewrite.clock⟩ = some n ∧
      view n "k" = some (.string (utf8 "v"), some 8200000) ∧
      ∀ k, Kept 2 n.clock.wall (view ⟨shortLived, shortLogs.1, firstRewrite.clock⟩ k)
        (view n k) := by
  have hentries : ∀ p ∈ shortLived.snapshot firstRewrite.clock firstRewrite.keyOrder,
      p.2.expiresAt = some 10500000 := by decide +kernel
  have hframes : (snapshotToFrames firstRewrite.clock firstRewrite.hashOrder
      (shortLived.snapshot firstRewrite.clock firstRewrite.keyOrder)).toOption.map List.flatten =
        some shortLogs.1 := by
    decide +kernel
  obtain ⟨frames, hok, hflat⟩ := Option.map_eq_some_iff.mp hframes
  replace hok : snapshotToFrames firstRewrite.clock firstRewrite.hashOrder
      (shortLived.snapshot firstRewrite.clock firstRewrite.keyOrder) = .ok frames := by
    cases hresult : snapshotToFrames firstRewrite.clock firstRewrite.hashOrder
      (shortLived.snapshot firstRewrite.clock firstRewrite.keyOrder) with
    | error err =>
      rw [hresult] at hok
      cases hok
    | ok frames' =>
      rw [hresult] at hok
      cases hok
      rfl
  have hadmits : Along (step asciiCaseMap) (Admits asciiCaseMap) shortStory
      ⟨shortLived, frames.flatten, firstRewrite.clock⟩ := by
    rw [hflat]
    refine ((along_of_mem _ (fun a _ => Steady a) shortStory (fun a ha _ => shortStory_steady a ha)
      _).and _ _ _ _ _ (along_of_check _ (accepts asciiCaseMap) _ _ (by decide +kernel))).imp _ _ _
      admits_of_accepts _ _
  have hfits : ∀ k x w, view ⟨shortLived, frames.flatten, firstRewrite.clock⟩ k = some x →
      x.2 = some w → w + nanosPerMilli < 2 ^ 64 * nanosPerMilli := by
    intro k x w hx hw
    obtain ⟨e, he, rfl⟩ := Option.map_eq_some_iff.mp hx
    obtain ⟨y, hy, rfl⟩ :=
      mem_snapshot_of_live firstRewrite.clock firstRewrite.keyOrder shortLived k e he
    have hd := hentries (k, y) hy
    simp only [Entry.onWall, StoredValue.toEntry] at hw
    rw [hd] at hw
    cases hw
    decide
  obtain ⟨n, hrun, hkept⟩ := deadlines_drift firstRewrite.clock firstRewrite shortLived
    (handleConnection_reachable ..) (rewritable_of_check _ _ _ (by decide +kernel)) frames hok hfits
    shortStory hadmits
  rw [hflat] at hrun hkept
  refine ⟨n, hrun, ?_, hkept⟩
  have hview : (run (step asciiCaseMap) shortStory
      ⟨shortLived, shortLogs.1, firstRewrite.clock⟩).map (view · "k") =
        some (some (.string (utf8 "v"), some 8200000)) := by decide +kernel
  rw [hrun] at hview
  exact Option.some.inj hview

end Resting

end RustyPotato
