import RustyPotato.Snapshot

/-!
# What a log stands for

A log without deadlines stands for a value under each key, whenever it is replayed: the steps of its
commands, one after the other, from nothing. A rewrite gives a log of the values in the store.
-/

namespace RustyPotato

open Lib.Stream

/-! ## Steps on values -/

namespace Step

/-- What a step does to the value under `k`, where nothing has a deadline. -/
def value (k : String) : Step → Option ValueType → Option ValueType
  | on key op, v => if k = key then op.untimed v else v
  | flush, _ => none

def valueAll (k : String) (steps : List Step) (v : Option ValueType) : Option ValueType :=
  steps.foldl (fun v step => step.value k v) v

variable (k : String)

@[simp] theorem valueAll_nil (v : Option ValueType) : valueAll k [] v = v := rfl

@[simp] theorem valueAll_cons (step : Step) (steps : List Step) (v : Option ValueType) :
    valueAll k (step :: steps) v = valueAll k steps (step.value k v) := rfl

theorem valueAll_append (as bs : List Step) (v : Option ValueType) :
    valueAll k (as ++ bs) v = valueAll k bs (valueAll k as v) := List.foldl_append ..

theorem value_untouched (step : Step) (v : Option ValueType) (h : ¬ step.touches k) :
    step.value k v = v := by
  cases step with
  | on key op => exact if_neg fun hk => h hk.symm
  | flush => exact absurd trivial h

theorem valueAll_untouched (steps : List Step) (v : Option ValueType)
    (h : ∀ step ∈ steps, ¬ step.touches k) : valueAll k steps v = v := by
  induction steps generalizing v with
  | nil => rfl
  | cons step steps ih =>
    rw [valueAll_cons, value_untouched k step v (h step List.mem_cons_self)]
    exact ih v fun st hst => h st (List.mem_cons_of_mem _ hst)

theorem valueAll_respects (f : ValueType → ValueType) (hf : Respects f) (steps : List Step)
    (v w : Option ValueType) (h : v.map f = w.map f) :
    (valueAll k steps v).map f = (valueAll k steps w).map f := by
  induction steps generalizing v w with
  | nil => exact h
  | cons step steps ih =>
    refine ih _ _ ?_
    cases step with
    | flush => rfl
    | on key op =>
      simp only [value]
      split_ifs
      · exact Op.untimed_respects f hf op v w h
      · exact h

theorem run_values (c : Clock) (step : Step) (h : ¬ step.Timed) (s : MemoryStore) (hs : s.Eternal) :
    (step.run c s).values k = step.value k (s.values k) := by
  cases step with
  | flush => rfl
  | on key op =>
    have hsets : op.sets (s.slot key).value? = false := by
      by_contra hcon
      rw [Bool.not_eq_false] at hcon
      exact h (op.sets_timed _ hcon)
    simp only [run, value, MemoryStore.values, MemoryStore.slot_put]
    split_ifs with hk
    · rw [hk]
      exact (Op.run_untimed c op (s.slot key) (hs key) hsets).2
    · rfl

theorem runAll_values (c : Clock) (steps : List Step) (h : ∀ step ∈ steps, ¬ step.Timed)
    (s : MemoryStore) (hs : s.Eternal) :
    (runAll c steps s).Eternal ∧ (runAll c steps s).values k = valueAll k steps (s.values k) := by
  induction steps generalizing s with
  | nil => exact ⟨hs, rfl⟩
  | cons step steps ih =>
    have hstep := h step List.mem_cons_self
    rw [runAll_cons, valueAll_cons, ← run_values k c step hstep s hs]
    exact ih (fun st hst => h st (List.mem_cons_of_mem _ hst)) _ (run_eternal c s step hstep hs)

end Step

theorem MemoryStore.Eternal.live_value (c : Clock) (k : String) (s : MemoryStore) (hs : s.Eternal) :
    (s.live c k).map Entry.value = s.values k := by
  unfold MemoryStore.live MemoryStore.values
  rcases hslot : s.slot k with ⟨_ | e, i⟩
  · rfl
  · have he := hs k e (by rw [hslot])
    rw [Slot.live_alive c e i (StoredValue.isExpired_of_none c e he)]
    rfl

/-! ## Logs -/

section
variable (u : CaseMap)

/-- The command takes these steps whenever it is replayed, and sets no deadline. -/
def Plans (cmd : ParsedCommand) (steps : List Step) : Prop :=
  (∀ env, replayRegistry.plan u env cmd = some steps) ∧ ∀ step ∈ steps, ¬ step.Timed

/-- The bytes are frames that a replay can read, of commands that take these steps. -/
def IsLog (bytes : Bytes) (steps : List Step) : Prop :=
  ∃ frames cmds plans, Frames (parseCommand u .default) frames cmds ∧
    List.Forall₂ (Plans u) cmds plans ∧
    (∀ frame ∈ frames, frame.length + chunkSize ≤ CodecLimits.default.maxBufferSize) ∧
    bytes = frames.flatten ∧ steps = plans.flatten

theorem isLog_nil : IsLog u [] [] := ⟨[], [], [], .nil, .nil, by simp, rfl, rfl⟩

theorem isLog_frame (frame : Bytes) (cmd : ParsedCommand) (steps : List Step)
    (hframe : IsFrame u .default frame cmd)
    (hsize : frame.length + chunkSize ≤ CodecLimits.default.maxBufferSize)
    (hplans : Plans u cmd steps) : IsLog u frame steps :=
  ⟨[frame], [cmd], [steps], .cons hframe .nil, .cons hplans .nil, by simpa using hsize, by simp,
    by simp⟩

theorem IsLog.append (b b' : Bytes) (steps steps' : List Step) (h : IsLog u b steps)
    (h' : IsLog u b' steps') : IsLog u (b ++ b') (steps ++ steps') := by
  obtain ⟨frames, cmds, plans, hframes, hplans, hsize, rfl, rfl⟩ := h
  obtain ⟨frames', cmds', plans', hframes', hplans', hsize', rfl, rfl⟩ := h'
  refine ⟨frames ++ frames', cmds ++ cmds', plans ++ plans', List.rel_append hframes hframes',
    List.rel_append hplans hplans', ?_, List.flatten_append.symm, List.flatten_append.symm⟩
  intro frame hframe
  rcases List.mem_append.mp hframe with hframe | hframe
  · exact hsize frame hframe
  · exact hsize' frame hframe

theorem recover_plans (cmds : List ParsedCommand) (plans : List (List Step))
    (h : List.Forall₂ (Plans u) cmds plans) (renvs : Nat → Env) (s : MemoryStore) (hs : s.Eternal) :
    ∃ t, recover u renvs cmds s = some t ∧ t.Eternal ∧
      ∀ k, t.values k = Step.valueAll k plans.flatten (s.values k) := by
  induction h generalizing renvs s with
  | nil => exact ⟨s, rfl, hs, fun _ => rfl⟩
  | @cons cmd steps cmds plans hcmd _ ih =>
    have hfollows := replayRegistry.execute_follows u (renvs 0) cmd
    rw [hcmd.1 (renvs 0)] at hfollows
    obtain ⟨r, hr⟩ := hfollows s
    have hrun := fun k => Step.runAll_values k (renvs 0).clock steps hcmd.2 s hs
    obtain ⟨t, ht, heternal, hvalues⟩ := ih (fun i => renvs (i + 1)) _ (hrun "").1
    refine ⟨t, by rw [recover, hr, Option.bind_some, ht], heternal, fun k => ?_⟩
    rw [hvalues k, (hrun k).2, List.flatten_cons, Step.valueAll_append]

/--
Replayed on an empty store at any time, however it is read, a log gives the values it stands for.
-/
theorem IsLog.recovers (bytes : Bytes) (steps : List Step) (h : IsLog u bytes steps)
    (chunks : List Bytes) (hchunks : ∀ chunk ∈ chunks, chunk.length ≤ chunkSize)
    (hfile : chunks.flatten = bytes) (renvs : Nat → Env) :
    ∃ t, recover u renvs (replayFile u .new chunks) .new = some t ∧ t.Eternal ∧
      ∀ k, t.values k = Step.valueAll k steps none := by
  obtain ⟨frames, cmds, plans, hframes, hplans, hsize, rfl, rfl⟩ := h
  rw [replayFile_log u chunks hchunks frames cmds hframes hsize hfile]
  exact recover_plans u cmds plans hplans renvs .new MemoryStore.eternal_new

end

/-! ## The log of a rewrite -/

section
variable (u : CaseMap) (c : Clock) (order : IterOrder String)

theorem entry_isLog (key : String) (e : StoredValue) (hv : e.value.Storable)
    (hd : e.expiresAt = none)
    (hfields : ∀ h, e.value = .hash h → 2 + 2 * h.entries.card ≤ CodecLimits.default.maxArrayLength)
    (hsize : ∀ cmd ∈ entryCommands c order key e,
      (encodeParsed cmd).length + chunkSize ≤ CodecLimits.default.maxBufferSize) :
    ∃ steps, IsLog u ((entryCommands c order key e).map encodeParsed).flatten steps ∧
      (∀ step ∈ steps, step.Under key) ∧ Step.valueAll key steps none = some (printed e.value) := by
  obtain ⟨cmd, steps, hcmd, hplan, hsteps, hact⟩ := value_restored u order key e.value hv
  have hcmds : entryCommands c order key e = [cmd] := by
    simp [entryCommands, hcmd, deadlineCommandOf, hd, Except.toOption]
  rw [hcmds] at hsize ⊢
  have huntimed : ∀ step ∈ steps, ¬ step.Timed := fun step hstep => (hsteps step hstep).2
  have hcsize := hsize cmd List.mem_cons_self
  refine ⟨steps, ?_, fun step hstep => (hsteps step hstep).1, ?_⟩
  · simp only [List.map_cons, List.map_nil, List.flatten_cons, List.flatten_nil, List.append_nil]
    refine isLog_frame u _ cmd steps ?_ hcsize ⟨hplan, huntimed⟩
    exact (entryCommands_isFrame u c order key e hfields cmd
      (by rw [hcmds]; exact List.mem_cons_self) (by omega)).2
  · obtain ⟨heternal, hvalue⟩ :=
      Step.runAll_values key c steps huntimed .new MemoryStore.eternal_new
    have hlive := Step.live_runAll c key steps .new
    rw [MemoryStore.live_new, hact c] at hlive
    have hnone : MemoryStore.new.values key = none := rfl
    rw [← hnone, ← hvalue, ← heternal.live_value c key, hlive]
    rfl

theorem entries_isLog (entries : List (String × StoredValue))
    (hnodup : (entries.map Prod.fst).Nodup) (hv : ∀ p ∈ entries, p.2.value.Storable)
    (hd : ∀ p ∈ entries, p.2.expiresAt = none) (hfields : ∀ p ∈ entries, ∀ h, p.2.value = .hash h →
      2 + 2 * h.entries.card ≤ CodecLimits.default.maxArrayLength)
    (hsize : ∀ p ∈ entries, ∀ cmd ∈ entryCommands c order p.1 p.2,
      (encodeParsed cmd).length + chunkSize ≤ CodecLimits.default.maxBufferSize) :
    ∃ steps, IsLog u ((entries.flatMap fun p => entryCommands c order p.1 p.2).map
      encodeParsed).flatten steps ∧
      (∀ step ∈ steps, ∃ key ∈ entries.map Prod.fst, step.Under key) ∧
      ∀ p ∈ entries, Step.valueAll p.1 steps none = some (printed p.2.value) := by
  induction entries with
  | nil => exact ⟨[], isLog_nil u, by simp, by simp⟩
  | cons p entries ih =>
    rw [List.map_cons, List.nodup_cons] at hnodup
    obtain ⟨steps, hlog, hunder, hvalue⟩ := entry_isLog u c order p.1 p.2 (hv p List.mem_cons_self)
      (hd p List.mem_cons_self) (hfields p List.mem_cons_self) (hsize p List.mem_cons_self)
    obtain ⟨steps', hlog', hunder', hvalue'⟩ :=
      ih hnodup.2 (fun q hq => hv q (List.mem_cons_of_mem _ hq))
        (fun q hq => hd q (List.mem_cons_of_mem _ hq))
        (fun q hq => hfields q (List.mem_cons_of_mem _ hq))
      (fun q hq => hsize q (List.mem_cons_of_mem _ hq))
    refine ⟨steps ++ steps', ?_, ?_, ?_⟩
    · rw [List.flatMap_cons, List.map_append, List.flatten_append]
      exact hlog.append u _ _ _ _ hlog'
    · intro step hstep
      rcases List.mem_append.mp hstep with hstep | hstep
      · exact ⟨p.1, List.mem_cons_self, hunder step hstep⟩
      · obtain ⟨key, hkey, h⟩ := hunder' step hstep
        exact ⟨key, List.mem_cons_of_mem _ hkey, h⟩
    · intro q hq
      rw [Step.valueAll_append]
      rcases List.mem_cons.mp hq with rfl | hq
      · -- The keys that follow are others.
        rw [hvalue, Step.valueAll_untouched]
        intro step hstep htouch
        obtain ⟨key, hkey, h⟩ := hunder' step hstep
        exact hnodup.1 (h q.1 htouch ▸ hkey)
      · -- The first key is another.
        rw [Step.valueAll_untouched q.1 steps, hvalue' q hq]
        intro step hstep htouch
        exact hnodup.1 (hunder step hstep q.1 htouch ▸ List.mem_map_of_mem hq)

/-- The `HSET` that brings a hash back is within the array limit of the replay. -/
def ValueType.fieldsFit : ValueType → Bool
  | .hash h => decide (2 + 2 * h.entries.card ≤ CodecLimits.default.maxArrayLength)
  | _ => true

/-- The frames of a rewrite can all be read back by the replay. -/
def fitsReplay (env : Env) (s : MemoryStore) (frames : List Bytes) : Bool :=
  (s.snapshot env.clock env.keyOrder).all (fun p => p.2.value.fieldsFit) &&
    frames.all fun frame => decide (frame.length + chunkSize ≤ CodecLimits.default.maxBufferSize)

/-- The rewrite of a store without deadlines is a log of its values, with numbers as text. -/
theorem snapshot_isLog (env : Env) (s : MemoryStore) (hs : s.Eternal) (hstorable : s.Storable)
    (frames : List Bytes)
    (hframes : snapshotToFrames env.clock env.hashOrder (s.snapshot env.clock env.keyOrder) =
      .ok frames) (hfits : fitsReplay env s frames = true) :
    ∃ steps, IsLog u frames.flatten steps ∧ ∀ k,
      Step.valueAll k steps none = (s.values k).map printed := by
  have hmem := mem_snapshot env.clock env.keyOrder s
  rw [fitsReplay, Bool.and_eq_true, List.all_eq_true, List.all_eq_true] at hfits
  have hfields : ∀ p ∈ s.snapshot env.clock env.keyOrder, ∀ h, p.2.value = .hash h →
      2 + 2 * h.entries.card ≤ CodecLimits.default.maxArrayLength := by
    intro p hp h hh
    have := hfits.1 p hp
    rw [hh] at this
    exact of_decide_eq_true this
  have hcmds := snapshotToFrames_eq env.clock env.hashOrder _ frames hframes
  obtain ⟨steps, hlog, hunder, hvalue⟩ := entries_isLog u env.clock env.hashOrder
    (s.snapshot env.clock env.keyOrder) (nodup_snapshot env.clock env.keyOrder s)
    (fun p hp => hstorable p.1 p.2 ((hmem p.1 p.2).mp hp).1)
    (fun p hp => hs p.1 p.2 ((hmem p.1 p.2).mp hp).1) hfields
    (fun p hp cmd hcmd => of_decide_eq_true
      (hfits.2 _ (hcmds ▸ List.mem_map_of_mem (List.mem_flatMap.mpr ⟨p, hp, hcmd⟩))))
  refine ⟨steps, hcmds ▸ hlog, fun k => ?_⟩
  cases hentry : (s.slot k).entry with
  | some e =>
    have hlive := StoredValue.isExpired_of_none env.clock e (hs k e hentry)
    rw [hvalue (k, e) ((hmem k e).mpr ⟨hentry, hlive⟩), MemoryStore.values, Slot.value?, hentry]
    rfl
  | none =>
    rw [MemoryStore.values, Slot.value?, hentry, Step.valueAll_untouched]
    · rfl
    · intro step hstep htouch
      obtain ⟨key, hkey, h⟩ := hunder step hstep
      obtain rfl := h k htouch
      obtain ⟨⟨_, e⟩, hp, rfl⟩ := List.mem_map.mp hkey
      have := ((hmem _ e).mp hp).1
      rw [hentry] at this
      cases this

end

end RustyPotato
