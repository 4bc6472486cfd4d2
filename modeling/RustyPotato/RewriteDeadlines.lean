import RustyPotato.RewriteFrames

/-!
# Deadlines across a rewrite

The value of a key is always written, its deadline only if it has not passed when the entry is
rendered. Between the snapshot and that moment it may.
-/

namespace RustyPotato

/--
What is found expires at most two milliseconds after `d`. The clocks are those of the rewrite and of
the replay.
-/
def ExpiresBy (c t : Clock) (d : Int) (found : Option Entry) : Prop :=
  ∀ e, found = some e → ∃ d', e.deadline = some d' ∧ t.wallOf d' ≤ c.wallOf d + 2 * nanosPerMilli

/-- The deadline is written down, read back, and set. -/
structure DeadlineKept (c t : Clock) (key : String) (d : Int) : Prop where
  before : c.now < d
  size : frameSize [9, (utf8 key).length, digitCount (targetMillis c d)] ≤
    CodecLimits.default.maxBufferSize
  epoch : 0 ≤ t.wall

section
variable (u : CaseMap) (c : Clock) (order : IterOrder String) (key : String) (e : StoredValue)

theorem encodeSnapshotEntry_eq (frames : List Bytes)
    (h : encodeSnapshotEntry c order key e = .ok frames) :
    ∃ deadline, deadlineCommandOf c key e = .ok deadline ∧
      frames = ((valueCommand order key e.value).toList ++ deadline.toList).map encodeParsed := by
  unfold encodeSnapshotEntry at h
  cases hdeadline : deadlineCommandOf c key e with
  | error err =>
    rw [hdeadline] at h
    cases h
  | ok deadline =>
    rw [hdeadline] at h
    cases h
    exact ⟨deadline, rfl, rfl⟩

theorem targetMillis_le (d : Int) (hd : c.now < d) (hwall : 0 ≤ c.wall) :
    targetMillis c d * nanosPerMilli ≤ c.wallOf d := by
  obtain ⟨ms, hms, heq, -⟩ := unixMillis_eq c hwall
  have hmod : ((d - c.now) / nanosPerMilli).toNat % 2 ^ 64 ≤ ((d - c.now) / nanosPerMilli).toNat :=
    Nat.mod_le ..
  rw [targetMillis, hms, Option.getD_some, saturatingAdd, millisBetween]
  simp only [Clock.wallOf, nanosPerMilli] at *
  omega

/-- A deadline that is still ahead when it is set is the one that was written down. -/
theorem unixDeadline_le (t : Clock) (d : Int) (hd : c.now < d) (hwall : 0 ≤ c.wall)
    (halive : t.now ≤ unixDeadline t (targetMillis c d)) :
    t.wallOf (unixDeadline t (targetMillis c d)) ≤ c.wallOf d + 2 * nanosPerMilli := by
  have htarget := targetMillis_le c d hd hwall
  unfold unixDeadline at halive ⊢
  simp only [Clock.wallOf, nanosPerMilli] at *
  split_ifs at halive ⊢
  · omega
  · omega

end

/-! ## The replay -/

section
variable (u : CaseMap) (c : Clock) (order : IterOrder String) (key : String)

theorem expiresBy_none (t : Clock) (d : Int) : ExpiresBy c t d none := by
  rintro e ⟨⟩

theorem not_expiresBy_permanent (t : Clock) (d : Int) (v : ValueType) :
    ¬ ExpiresBy c t d (some ⟨v, none⟩) := by
  intro h
  obtain ⟨d', hd', -⟩ := h _ rfl
  cases hd'

variable (envs : Nat → Env) (t : Clock)

/-- The clocks of a replay that ends at `t`. -/
structure ReplayClocks : Prop where
  mono : ∀ i j, i ≤ j → (envs i).clock.le (envs j).clock
  last : ∀ i, (envs i).clock.le t

variable (hclocks : ReplayClocks envs t)
include hclocks

theorem recover_live (cmds : List ParsedCommand) (tl : Timeline)
    (htl : replayTimeline u envs cmds = some tl) (P : Option Entry → Prop) :
    (∃ s', recover u envs cmds .new = some s' ∧ P (s'.live t key)) ↔
      P ((Timeline.act key tl none).bind (Entry.alive t)) := by
  have hbetween := replayTimeline_between u envs cmds tl htl (envs 0).clock t
    (fun i => hclocks.mono 0 i (by omega)) hclocks.mono hclocks.last
  have hlive := Timeline.live_run key _ t tl .new hbetween
  rw [MemoryStore.live_new] at hlive
  rw [recover_eq, htl, Option.map_some, ← hlive]
  simp

theorem recover_deadline_alone (d : Int) (cmds : List ParsedCommand)
    (hcmds : ∀ cmd ∈ cmds, ∃ millis < 2 ^ 64,
      cmd = ⟨"PEXPIREAT", [utf8 key, utf8 (toString millis)]⟩) :
    ∃ s', recover u envs cmds .new = some s' ∧ ExpiresBy c (envs 1).clock d (s'.live t key) := by
  have hplans : ∀ (envs : Nat → Env) (cmds : List ParsedCommand),
      (∀ cmd ∈ cmds, ∃ millis < 2 ^ 64, cmd = ⟨"PEXPIREAT", [utf8 key, utf8 (toString millis)]⟩) →
      ∃ tl, replayTimeline u envs cmds = some tl ∧ Timeline.act key tl none = none := by
    intro envs cmds hcmds
    induction cmds generalizing envs with
    | nil => exact ⟨[], rfl, rfl⟩
    | cons cmd cmds ih =>
      obtain ⟨tl, htl, hact⟩ := ih (fun i => envs (i + 1)) fun cmd hcmd =>
        hcmds cmd (List.mem_cons_of_mem _ hcmd)
      obtain ⟨millis, hmillis, rfl⟩ := hcmds cmd List.mem_cons_self
      by_cases hwall : 0 ≤ (envs 0).clock.wall
      · have hplan := plan_pexpireat u (envs 0) key millis hwall hmillis
        refine ⟨_ :: tl, by rw [replayTimeline, hplan, htl]; rfl, ?_⟩
        simpa [Step.act, Op.apply] using hact
      · have hplan := plan_pexpireat_early u (envs 0) key millis (by omega) hmillis
        refine ⟨_ :: tl, by rw [replayTimeline, hplan, htl]; rfl, ?_⟩
        simpa using hact
  obtain ⟨tl, htl, hact⟩ := hplans envs cmds hcmds
  rw [recover_live u key envs t hclocks cmds tl htl, hact]
  exact expiresBy_none c _ d

/-- The value alone, or with a deadline that the clock of the replay does not allow. -/
theorem recover_permanent (d : Int) (v : ValueType) (hv : v.Storable) (cmd : ParsedCommand)
    (hcmd : valueCommand order key v = some cmd) (rest : List ParsedCommand)
    (hrest : rest = [] ∨
      ∃ millis < 2 ^ 64, rest = [⟨"PEXPIREAT", [utf8 key, utf8 (toString millis)]⟩] ∧
      (envs 1).clock.wall < 0) :
    ¬ ∃ s', recover u envs (cmd :: rest) .new = some s' ∧
      ExpiresBy c (envs 1).clock d (s'.live t key) := by
  obtain ⟨cmd', steps, hcmd', hplan, -, hact⟩ := value_restored u order key v hv
  rw [hcmd] at hcmd'
  cases hcmd'
  obtain ⟨tl, htl, hafter⟩ : ∃ tl, replayTimeline u (fun i => envs (i + 1)) rest = some tl ∧
      ∀ e, Timeline.act key tl (some ⟨e, none⟩) = some ⟨e, none⟩ := by
    rcases hrest with rfl | ⟨millis, hmillis, rfl, hwall⟩
    · exact ⟨[], rfl, fun _ => rfl⟩
    · refine ⟨[((envs 1).clock, [])], ?_, fun _ => rfl⟩
      rw [replayTimeline, plan_pexpireat_early u _ key millis hwall hmillis]
      rfl
  rw [recover_live u key envs t hclocks _ (((envs 0).clock, steps) :: tl)
    (by rw [replayTimeline, hplan, htl]; rfl), Timeline.act_cons, Option.bind_none, hact, hafter]
  exact not_expiresBy_permanent c _ d _

theorem recover_expiring (d : Int) (hd : c.now < d) (hwall : 0 ≤ c.wall) (v : ValueType)
    (hv : v.Storable) (cmd : ParsedCommand) (hcmd : valueCommand order key v = some cmd)
    (hepoch : 0 ≤ (envs 1).clock.wall) :
    ∃ s', recover u envs [cmd, ⟨"PEXPIREAT", [utf8 key, utf8 (toString (targetMillis c d))]⟩] .new =
      some s' ∧
      ExpiresBy c (envs 1).clock d (s'.live t key) := by
  obtain ⟨cmd', steps, hcmd', hplan, -, hact⟩ := value_restored u order key v hv
  rw [hcmd] at hcmd'
  cases hcmd'
  have hplan' := plan_pexpireat u (envs 1) key (targetMillis c d) hepoch (targetMillis_lt c d)
  rw [recover_live u key envs t hclocks _ [((envs 0).clock, steps),
    ((envs 1).clock, [.on key (.expireAt (unixDeadline (envs 1).clock (targetMillis c d)) .none)])]
    (by rw [replayTimeline, hplan, replayTimeline, hplan']; rfl)]
  intro e he
  simp only [Timeline.act_cons, Timeline.act_nil, Option.bind_none, hact, Option.bind_some,
    Entry.alive_forever, Step.actAll_cons, Step.actAll_nil, Step.act, if_true, Op.apply,
    Slot.shouldApply] at he
  obtain ⟨e', he', halive⟩ := Option.bind_eq_some_iff.mp he
  obtain ⟨hset, rfl⟩ := (Entry.alive_eq_some ..).mp he'
  obtain ⟨-, rfl⟩ := (Entry.alive_eq_some ..).mp halive
  exact ⟨_, rfl, unixDeadline_le c (envs 1).clock d hd hwall
    (by simpa [Entry.isExpired] using hset)⟩

end

/-! ## The rewrite and the replay -/

theorem valueCommand_storable (order : IterOrder String) (key : String) (v : ValueType)
    (cmd : ParsedCommand) (h : valueCommand order key v = some cmd) : v.Storable := by
  cases v with
  | string b => trivial
  | integer i => trivial
  | hash g =>
    rw [valueCommand] at h
    split_ifs at h with hcard
    exact hcard
  | list l => cases h

/--
An entry with a deadline, rendered and replayed at any later time, is gone or expires when it should
have, just when its value is not read back at all or its deadline comes with it.
-/
theorem rewrite_keeps_deadline_iff (u : CaseMap) (c : Clock) (order : IterOrder String)
    (key : String) (e : StoredValue) (d : Int) (hd : e.expiresAt = some d) (frames : List Bytes)
    (hframes : encodeSnapshotEntry c order key e = .ok frames) (envs : Nat → Env) (t : Clock)
    (hclocks : ReplayClocks envs t) :
    (∃ s', recover u envs (decodeEach u frames) .new = some s' ∧
      ExpiresBy c (envs 1).clock d (s'.live t key)) ↔
      (e.value.Storable → ValueFits key e.value → DeadlineKept c (envs 1).clock key d) := by
  obtain ⟨deadline, hdeadline, rfl⟩ := encodeSnapshotEntry_eq c order key e frames hframes
  have hentry : (valueCommand order key e.value).toList ++ deadline.toList =
      entryCommands c order key e := by
    rw [entryCommands, hdeadline]
    rfl
  have hcases := deadlineCommandOf_cases c key e deadline hdeadline
  rw [decodeEach_encodeParsed u _ fun cmd hcmd => entryCommands_upper u c order key e cmd
    (hentry ▸ hcmd), List.filter_append]
  by_cases hvalue : e.value.Storable ∧ ValueFits key e.value
  · obtain ⟨cmd, -, hcmd, -⟩ := value_restored u order key e.value hvalue.1
    have hfits := (valueCommand_fits order key e.value cmd hcmd).mpr hvalue.2
    have hfirst : ((valueCommand order key e.value).toList.filter
      fun cmd => decide cmd.Fits) = [cmd] := by
      simp [hcmd, hfits]
    have hpermanent := recover_permanent u c order key envs t hclocks d e.value hvalue.1 cmd hcmd
    rw [hfirst, List.singleton_append, imp_iff_right hvalue.1, imp_iff_right hvalue.2]
    rcases hcases with ⟨rfl, hpast⟩ | ⟨d', hd', hlt, hwall, rfl⟩
    · -- The deadline had passed.
      refine iff_of_false (hpermanent [] (.inl rfl)) fun hkept => ?_
      have := hpast d hd
      have := hkept.before
      omega
    · obtain rfl : d = d' := Option.some.inj (hd.symm.trans hd')
      have hpexpireat := pexpireat_fits key (targetMillis c d)
      by_cases hsize : ParsedCommand.Fits ⟨"PEXPIREAT",
        [utf8 key, utf8 (toString (targetMillis c d))]⟩
      · simp only [Option.toList_some, List.filter_cons, hsize, decide_true, if_true,
          List.filter_nil]
        by_cases hepoch : 0 ≤ (envs 1).clock.wall
        · exact iff_of_true
            (recover_expiring u c order key envs t hclocks d hlt hwall e.value hvalue.1 cmd hcmd
              hepoch) ⟨hlt, hpexpireat.mp hsize, hepoch⟩
        · refine iff_of_false (hpermanent _ (.inr ⟨_, targetMillis_lt c d, rfl, by omega⟩))
            fun hkept => ?_
          exact hepoch hkept.epoch
      · simp only [Option.toList_some, List.filter_cons, hsize, decide_false, Bool.false_eq_true,
          if_false, List.filter_nil]
        exact iff_of_false (hpermanent [] (.inl rfl)) fun hkept => hsize (hpexpireat.mpr hkept.size)
  · -- Only a deadline can be left.
    have hfirst : ((valueCommand order key e.value).toList.filter
      fun cmd => decide cmd.Fits) = [] := by
      rw [List.filter_eq_nil_iff]
      intro cmd hcmd hfits
      rw [Option.mem_toList] at hcmd
      exact hvalue ⟨valueCommand_storable order key e.value cmd hcmd,
        (valueCommand_fits order key e.value cmd hcmd).mp (of_decide_eq_true hfits)⟩
    rw [hfirst, List.nil_append]
    refine iff_of_true (recover_deadline_alone u c key envs t hclocks d _
      fun cmd hcmd => ?_) fun hs hf =>
      absurd ⟨hs, hf⟩ hvalue
    rcases hcases with ⟨rfl, -⟩ | ⟨d', -, -, -, rfl⟩
    · cases hcmd
    · rw [Option.toList_some, List.mem_filter, List.mem_singleton] at hcmd
      exact ⟨_, targetMillis_lt c d', hcmd.1⟩

/-- The counter of `sampleStore` expires at second 200. -/
def sampleCounter : StoredValue :=
  { StoredValue.new Env.sample.clock (.integer incrAmount) with expiresAt := some 200000000000 }

theorem sampleCounter_keeps_deadline :
    ∃ frames s',
      encodeSnapshotEntry (.ofSecs 110 (by decide)) (.sorted _) "n" sampleCounter = .ok frames ∧
      recover asciiCaseMap (fun _ => .atClock (.ofSecs 120 (by decide)))
        (decodeEach asciiCaseMap frames) .new =
        some s' ∧
      ExpiresBy (.ofSecs 110 (by decide)) (.ofSecs 120 (by decide)) 200000000000
        (s'.live (.ofSecs 120 (by decide)) "n") := by
  have hframes : encodeSnapshotEntry (.ofSecs 110 (by decide)) (.sorted _) "n" sampleCounter =
      .ok [encodeCommand [utf8 "SET", utf8 "n", utf8 "1"],
        encodeCommand [utf8 "PEXPIREAT", utf8 "n", utf8 "200000"]] := by decide +kernel
  obtain ⟨s', hs', hexpires⟩ :=
    (rewrite_keeps_deadline_iff asciiCaseMap (.ofSecs 110 (by decide))
      (.sorted _) "n" sampleCounter 200000000000 rfl _ hframes
      (fun _ => .atClock (.ofSecs 120 (by decide))) (.ofSecs 120 (by decide))
    ⟨fun _ _ _ => Nat.le_refl _, fun _ => Nat.le_refl _⟩).mpr fun _ _ =>
      ⟨by decide, by decide +kernel, by decide⟩
  exact ⟨_, s', hframes, hs', hexpires⟩

/--
The snapshot finds the counter a second before its deadline. It is rendered a second after it.
-/
theorem rewrite_makes_permanent : Reachable asciiCaseMap sampleStore ∧
    ∃ e frames s', ("n", e) ∈ sampleStore.snapshot (.ofSecs 199 (by decide)) (.sorted _) ∧
      e.expiresAt = some 200000000000 ∧
      encodeSnapshotEntry (.ofSecs 201 (by decide)) (.sorted _) "n" e = .ok frames ∧
      recover asciiCaseMap (fun _ => .atClock (.ofSecs 202 (by decide)))
        (decodeEach asciiCaseMap frames) .new =
        some s' ∧
      ¬ ExpiresBy (.ofSecs 201 (by decide)) (.ofSecs 202 (by decide)) 200000000000
        (s'.live (.ofSecs 202 (by decide)) "n") := by
  have hmem : ("n", sampleCounter) ∈ sampleStore.snapshot (.ofSecs 199 (by decide))
      (.sorted _) := by decide +kernel
  have hframes : encodeSnapshotEntry (.ofSecs 201 (by decide)) (.sorted _) "n" sampleCounter =
      .ok [encodeCommand [utf8 "SET", utf8 "n", utf8 "1"]] := by decide +kernel
  have hlive : (recover asciiCaseMap (fun _ => .atClock (.ofSecs 202 (by decide)))
      (decodeEach asciiCaseMap [encodeCommand [utf8 "SET", utf8 "n", utf8 "1"]]) .new).map
        (fun s' => s'.live (.ofSecs 202 (by decide)) "n") =
          some (some ⟨.string (utf8 "1"), none⟩) := by decide +kernel
  obtain ⟨s', hs', hfound⟩ := Option.map_eq_some_iff.mp hlive
  refine ⟨handleConnection_reachable .., sampleCounter, _, s', hmem, rfl, hframes, hs', ?_⟩
  rw [hfound]
  exact not_expiresBy_permanent _ _ _ _

end RustyPotato
