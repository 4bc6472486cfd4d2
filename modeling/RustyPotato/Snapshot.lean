import RustyPotato.Reachable
import RustyPotato.Replay
import RustyPotato.Untimed

/-!
# The rewrite of the log (`encode_snapshot_entry`, `snapshot_to_frames`)

A rewrite takes a snapshot and makes for each key the commands that bring it back: a `SET` or an
`HSET`, and a `PEXPIREAT` if the key has a deadline.
-/

namespace RustyPotato

open Cmd Parse Lib.Stream

/-- `u64::saturating_add`. -/
def saturatingAdd (a b : Nat) : Nat := min (a + b) (2 ^ 64 - 1)

/-- `as_millis() as u64` of the time between two instants. -/
def millisBetween (now later : Int) : Nat := ((later - now) / nanosPerMilli).toNat % 2 ^ 64

def encodeParsed (cmd : ParsedCommand) : Bytes := encodeCommand (utf8 cmd.name :: cmd.args)

/-- The fields of a hash, each followed by its value. -/
def pairArgs (ps : List (String × String)) : List Bytes := ps.flatMap fun p => [utf8 p.1, utf8 p.2]

/-- The command that brings the value back. An empty hash and a list have none. -/
def valueCommand (order : IterOrder String) (key : String) : ValueType → Option ParsedCommand
  | .string b => some ⟨"SET", [utf8 key, b]⟩
  | .integer i => some ⟨"SET", [utf8 key, utf8 (toString i.val)]⟩
  | .hash h =>
    if h.entries.card = 0 then none
    else some ⟨"HSET", utf8 key :: pairArgs (order.toList h)⟩
  | .list _ => none

/-- The command that brings the deadline back. -/
def deadlineCommandOf (c : Clock) (key : String) (e : StoredValue) :
    Except RustyPotatoError (Option ParsedCommand) :=
  match e.expiresAt with
  | none => .ok none
  | some expiresAt =>
    if c.now < expiresAt then
      match c.unixMillis with
      | none => .error (.persistenceError "system clock before UNIX epoch" false)
      | some nowMs =>
        let targetMs := saturatingAdd nowMs (millisBetween c.now expiresAt)
        .ok (some ⟨"PEXPIREAT", [utf8 key, utf8 (toString targetMs)]⟩)
    else .ok none

def encodeSnapshotEntry (c : Clock) (order : IterOrder String) (key : String) (e : StoredValue) :
    Except RustyPotatoError (List Bytes) := do
  let deadline ← deadlineCommandOf c key e
  return ((valueCommand order key e.value).toList ++ deadline.toList).map encodeParsed

def snapshotToFrames (c : Clock) (order : IterOrder String) :
    List (String × StoredValue) → Except RustyPotatoError (List Bytes)
  | [] => .ok []
  | (key, e) :: rest => do
    let frames ← encodeSnapshotEntry c order key e
    let more ← snapshotToFrames c order rest
    return frames ++ more

/-! ## The commands behind the frames -/

/-- What an entry comes back with, where the clock allows it. -/
def entryCommands (c : Clock) (order : IterOrder String) (key : String) (e : StoredValue) :
    List ParsedCommand :=
  (valueCommand order key e.value).toList ++ (deadlineCommandOf c key e).toOption.join.toList

theorem snapshotToFrames_eq (c : Clock) (order : IterOrder String)
    (entries : List (String × StoredValue)) (frames : List Bytes)
    (h : snapshotToFrames c order entries = .ok frames) :
    frames = (entries.flatMap fun p => entryCommands c order p.1 p.2).map encodeParsed := by
  induction entries generalizing frames with
  | nil =>
    cases h
    rfl
  | cons p entries ih =>
    obtain ⟨key, e⟩ := p
    rw [snapshotToFrames, encodeSnapshotEntry] at h
    cases hd : deadlineCommandOf c key e with
    | error err =>
      rw [hd] at h
      cases h
    | ok deadline =>
      rw [hd] at h
      cases hrest : snapshotToFrames c order entries with
      | error err =>
        rw [hrest] at h
        cases h
      | ok more =>
        rw [hrest] at h
        cases h
        simp only [ih more hrest, List.flatMap_cons, List.map_append, entryCommands, hd]
        rfl

theorem length_le_encodeValues (parts : List Bytes) (b : Bytes) (h : b ∈ parts) :
    b.length ≤ (encodeValues (parts.map .bulk)).length := by
  induction parts with
  | nil => cases h
  | cons p parts ih =>
    rw [List.map_cons, encodeValues, List.length_append]
    rcases List.mem_cons.mp h with rfl | h
    · simp only [ResponseValue.bulk, encodeValue, List.length_append, List.length_cons]
      omega
    · have := ih h
      omega

theorem length_le_encodeCommand (parts : List Bytes) (b : Bytes) (h : b ∈ parts) :
    b.length ≤ (encodeCommand parts).length := by
  have := length_le_encodeValues parts b h
  simp only [encodeCommand, encodeValue, List.length_append, List.length_cons]
  omega

/-- A frame that the rewrite has made is read back as the command it was made of. -/
theorem isFrame_encodeParsed (u : CaseMap) (cmd : ParsedCommand)
    (hname : u.toUppercase cmd.name = cmd.name)
    (hcount : cmd.totalArgs ≤ CodecLimits.default.maxArrayLength)
    (hsize : (encodeParsed cmd).length ≤ CodecLimits.default.maxBufferSize) :
    IsFrame u .default (encodeParsed cmd) cmd := by
  have hframe := isFrame_encodeCommand u .default cmd.name cmd.args ?_
  · rwa [hname] at hframe
  · have hlimits : CodecLimits.default.maxArrayLength < 2 ^ 31 ∧
        CodecLimits.default.maxBufferSize ≤ CodecLimits.default.maxBulkSize ∧
        CodecLimits.default.maxBulkSize < 2 ^ 31 := by decide
    refine ⟨⟨hcount, lt_of_le_of_lt hcount hlimits.1⟩, fun b hb => ?_⟩
    have hle := (length_le_encodeCommand _ b hb).trans (hsize.trans hlimits.2.1)
    exact ⟨hle, lt_of_le_of_lt hle hlimits.2.2⟩

/-! ## What the commands do -/

section
variable (u : CaseMap) (env : Env) (key : String)

theorem plan_set (b : Bytes) :
    replayRegistry.plan u env ⟨"SET", [utf8 key, b]⟩ =
      some [.on key (.setWithOptions (.string b) .none .always)] := by
  have hname : u.toUppercase "SET" = "SET" := toUppercase_eq u "SET" (by decide) (by decide)
  have hargs : setArgs [utf8 key, b] = some (.ok ⟨key, b, {}⟩) := by
    unfold setArgs
    rw [if_neg (by simp), argStr_key]
    rfl
  have hplan : setPlan env [utf8 key, b] =
      some [.on key (.setWithOptions (.string b) .none .always)] := by
    rw [setPlan, setRequest, hargs]
    rfl
  rw [CommandRegistry.plan, CommandRegistry.find, hname]
  exact hplan

theorem length_pairArgs (ps : List (String × String)) : (pairArgs ps).length = 2 * ps.length := by
  induction ps with
  | nil => rfl
  | cons p ps ih =>
    rw [pairArgs, List.flatMap_cons, List.length_append, ← pairArgs, ih]
    simp only [List.length_cons, List.length_nil]
    omega

theorem fieldValues_pairArgs (ps : List (String × String)) :
    fieldValues (pairs (pairArgs ps)) = ps := by
  induction ps with
  | nil => rfl
  | cons p ps ih =>
    rw [pairArgs, List.flatMap_cons, ← pairArgs]
    simp only [List.cons_append, List.nil_append, pairs, fieldValues, fromUtf8_utf8, ih]

theorem plan_hset (reg : CommandRegistry)
    (hfind : reg.commands.find? (fun cmd => cmd.name == "HSET") = some .hset)
    (ps : List (String × String)) (hne : ps ≠ []) :
    reg.plan u env ⟨"HSET", utf8 key :: pairArgs ps⟩ =
      some (ps.map fun p => .on key (.hset p.1 p.2)) := by
  have hname : u.toUppercase "HSET" = "HSET" := toUppercase_eq u "HSET" (by decide) (by decide)
  have hpos := List.length_pos_of_ne_nil hne
  have hlen := length_pairArgs ps
  have hreq : hsetRequest (utf8 key :: pairArgs ps) = some (.ok ⟨key, pairs (pairArgs ps)⟩) := by
    unfold hsetRequest
    rw [if_neg (by simp only [List.length_cons, hlen]; omega), argStr_key]
    rfl
  have hplan : hsetPlan (utf8 key :: pairArgs ps) =
      some (ps.map fun p => .on key (.hset p.1 p.2)) := by
    rw [hsetPlan, hreq, planOf, hsetSteps_eq, fieldValues_pairArgs]
  have harity : ParsedCommand.validateArity ⟨"HSET", utf8 key :: pairArgs ps⟩
      (Command.arity .hset) = .ok () := by
    refine if_neg ?_
    simp only [ParsedCommand.totalArgs, List.length_cons, hlen]
    omega
  rw [CommandRegistry.plan, CommandRegistry.find, hname, hfind]
  simp only [harity]
  exact hplan

theorem plan_pexpireat_eq (millis : Nat) (hmillis : millis < 2 ^ 64) :
    replayRegistry.plan u env ⟨"PEXPIREAT", [utf8 key, utf8 (toString millis)]⟩ =
      planOf (resolveUnixTarget env.clock millis) fun d => [.on key (.expireAt d .none)] := by
  have hname : u.toUppercase "PEXPIREAT" = "PEXPIREAT" :=
    toUppercase_eq u "PEXPIREAT" (by decide) (by decide)
  have hreq : expireRequest "PEXPIREAT" [utf8 key, utf8 (toString millis)] =
      some (.ok ⟨key, millis, .none⟩) := by
    have harg : arg [utf8 key, utf8 (toString millis)] 1 = some (.ok (utf8 (toString millis))) :=
      rfl
    have hn : (fromUtf8 (utf8 (toString millis))).bind parseU64 = some millis := by
      rw [fromUtf8_utf8, Option.bind_some, parseU64_toString millis hmillis]
    unfold expireRequest
    rw [if_neg (by simp), argStr_key, harg]
    change (match (fromUtf8 (utf8 (toString millis))).bind parseU64 with
      | none => (throw notInteger : Parse ExpireRequest)
      | some amount => _) = _
    rw [hn]
    rfl
  have hplan : deadlinePlan env [utf8 key, utf8 (toString millis)] "PEXPIREAT" resolveUnixTarget =
      planOf (resolveUnixTarget env.clock millis) fun d => [.on key (.expireAt d .none)] := by
    rw [deadlinePlan, deadlineRequest, hreq]
    change planOf (resolveUnixTarget env.clock millis >>= _) _ = _
    generalize resolveUnixTarget env.clock millis = deadline
    obtain _ | _ | _ := deadline
    · rfl
    · rfl
    · rfl
  rw [CommandRegistry.plan, CommandRegistry.find, hname]
  exact hplan

theorem plan_pexpireat (millis : Nat) (hwall : 0 ≤ env.clock.wall) (hmillis : millis < 2 ^ 64) :
    replayRegistry.plan u env ⟨"PEXPIREAT", [utf8 key, utf8 (toString millis)]⟩ =
      some [.on key (.expireAt (unixDeadline env.clock millis) .none)] := by
  rw [plan_pexpireat_eq u env key millis hmillis,
    resolveUnixTarget_eq env.clock millis hwall hmillis]
  rfl

/-- Before the epoch the command only replies with an error. -/
theorem plan_pexpireat_early (millis : Nat) (hwall : env.clock.wall < 0)
    (hmillis : millis < 2 ^ 64) :
    replayRegistry.plan u env ⟨"PEXPIREAT", [utf8 key, utf8 (toString millis)]⟩ = some [] := by
  have hms : env.clock.unixMillis = none := if_pos hwall
  rw [plan_pexpireat_eq u env key millis hmillis, resolveUnixTarget, hms]
  rfl

end

/-! ## One key -/

section
variable (u : CaseMap) (c : Clock) (order : IterOrder String) (key : String)

/-- The steps stay under the key. -/
def Step.Under (key : String) (step : Step) : Prop := ∀ k, step.touches k → k = key

theorem Step.under_on (op : Op) : (Step.on key op).Under key := fun _ h => h.symm

theorem toList_ne_nil (h : Hash) (hcard : h.entries.card ≠ 0) : order.toList h ≠ [] := by
  intro hnil
  obtain ⟨p, hp⟩ := Multiset.card_pos_iff_exists_mem.mp (Nat.pos_of_ne_zero hcard)
  have hmem := (order.mem_iff h p.1 p.2).mpr (Finmap.lookup_eq_some_iff.mpr hp)
  rw [hnil] at hmem
  cases hmem

theorem value_restored (v : ValueType) (hv : v.Storable) :
    ∃ cmd steps, valueCommand order key v = some cmd ∧
      (∀ env, replayRegistry.plan u env cmd = some steps) ∧
      (∀ step ∈ steps, step.Under key ∧ ¬ step.Timed) ∧
      ∀ t, Step.actAll t key steps none = some ⟨printed v, none⟩ := by
  have hset : ∀ b, ∀ t,
      Step.actAll t key [.on key (.setWithOptions (.string b) .none .always)] none =
        some ⟨.string b, none⟩ := by
    intro b t
    simp [Step.act, Op.apply, Slot.allows, Op.newDeadline]
  cases v with
  | string b =>
    exact ⟨_, _, rfl, fun env => plan_set u env key b,
      by simp [Step.under_on, Step.Timed, Op.Timed], hset b⟩
  | integer i =>
    exact ⟨_, _, rfl, fun env => plan_set u env key _,
      by simp [Step.under_on, Step.Timed, Op.Timed], hset _⟩
  | hash h =>
    refine ⟨_, _, if_neg hv, fun env => plan_hset u env key _ rfl _ (toList_ne_nil order h hv), ?_,
      fun t => ?_⟩
    · intro step hstep
      obtain ⟨p, -, rfl⟩ := List.mem_map.mp hstep
      exact ⟨Step.under_on key _, id⟩
    · obtain ⟨p, ps, hps⟩ := List.exists_cons_of_ne_nil (toList_ne_nil order h hv)
      have hback := hashWith_toList order h
      rw [hps] at hback ⊢
      rw [actAll_hset_missing, hback]
      rfl
  | list l => exact hv.elim

/-- The Unix time that a rewrite writes down for a deadline. -/
def targetMillis (d : Int) : Nat := saturatingAdd (c.unixMillis.getD 0) (millisBetween c.now d)

theorem targetMillis_lt (d : Int) : targetMillis c d < 2 ^ 64 := by
  unfold targetMillis saturatingAdd
  omega

/-- The rewrite happens before the deadline, with a clock after the epoch. -/
def StoredValue.Renders (e : StoredValue) : Prop :=
  ∀ d, e.expiresAt = some d → c.now < d ∧ 0 ≤ c.wall

theorem deadlineCommandOf_some (e : StoredValue) (d : Int) (hd : e.expiresAt = some d)
    (h : e.Renders c) :
    deadlineCommandOf c key e =
      .ok (some ⟨"PEXPIREAT", [utf8 key, utf8 (toString (targetMillis c d))]⟩) := by
  obtain ⟨hlt, hwall⟩ := h d hd
  obtain ⟨ms, hms, -⟩ := unixMillis_eq c hwall
  simp only [deadlineCommandOf, hd, if_pos hlt, hms, targetMillis, Option.getD_some]

theorem deadlineCommandOf_cases (e : StoredValue) (deadline : Option ParsedCommand)
    (h : deadlineCommandOf c key e = .ok deadline) :
    (deadline = none ∧ ∀ d, e.expiresAt = some d → d ≤ c.now) ∨
      ∃ d, e.expiresAt = some d ∧ c.now < d ∧ 0 ≤ c.wall ∧
        deadline = some ⟨"PEXPIREAT", [utf8 key, utf8 (toString (targetMillis c d))]⟩ := by
  unfold deadlineCommandOf at h
  cases hd : e.expiresAt with
  | none =>
    rw [hd] at h
    cases h
    exact .inl ⟨rfl, by simp⟩
  | some d =>
    simp only [hd] at h
    split_ifs at h with hlt
    · cases hms : c.unixMillis with
      | none =>
        rw [hms] at h
        cases h
      | some ms =>
        rw [hms] at h
        cases h
        refine .inr ⟨d, rfl, hlt, (unixMillis_eq_some c ms hms).1, ?_⟩
        rw [targetMillis, hms, Option.getD_some]
    · cases h
      refine .inl ⟨rfl, ?_⟩
      rintro _ ⟨⟩
      omega

/-- What is found of an entry after the replay. The deadline was resolved at the clock `t`. -/
def restoredEntry (t : Clock) (e : StoredValue) : Entry :=
  ⟨printed e.value, e.expiresAt.map fun d => unixDeadline t (targetMillis c d)⟩

theorem entry_restored (e : StoredValue) (hv : e.value.Storable) (he : e.Renders c)
    (envs : Nat → Env) (hwall : ∀ i, c.wall ≤ (envs i).clock.wall) :
    ∃ tl, replayTimeline u envs (entryCommands c order key e) = some tl ∧
      (∀ x ∈ tl, ∀ step ∈ x.2, step.Under key) ∧
      ∀ a b, Timeline.Between a b tl → ∃ i, (envs i).clock.le b ∧
        (Timeline.act key tl none).bind (Entry.alive b) =
          (restoredEntry c (envs i).clock e).alive b := by
  obtain ⟨cmd, steps, hcmd, hplan, hsteps, hact⟩ := value_restored u order key e.value hv
  replace hplan := hplan (envs 0)
  have hunder : ∀ step ∈ steps, step.Under key := fun step hstep => (hsteps step hstep).1
  cases hd : e.expiresAt with
  | none =>
    have hnone : deadlineCommandOf c key e = .ok none := by simp [deadlineCommandOf, hd]
    refine ⟨[((envs 0).clock, steps)], ?_, by simpa using hunder, ?_⟩
    · simp [entryCommands, hcmd, hnone, replayTimeline, hplan, Except.toOption]
    · intro a b hab
      refine ⟨0, hab.2, ?_⟩
      simp only [Timeline.act_cons, Timeline.act_nil, Option.bind_none, hact, restoredEntry, hd]
      rfl
  | some d =>
    have hsome := deadlineCommandOf_some c key e d hd he
    have hplan' := plan_pexpireat u (envs 1) key (targetMillis c d) ((he d hd).2.trans (hwall 1))
      (targetMillis_lt c d)
    refine ⟨[((envs 0).clock, steps), ((envs 1).clock,
      [.on key (.expireAt (unixDeadline (envs 1).clock (targetMillis c d)) .none)])], ?_, ?_, ?_⟩
    · have hcmds : entryCommands c order key e =
          [cmd, ⟨"PEXPIREAT", [utf8 key, utf8 (toString (targetMillis c d))]⟩] := by
        rw [entryCommands, hcmd, hsome]
        rfl
      rw [hcmds, replayTimeline, hplan, Option.bind_some, replayTimeline, hplan']
      rfl
    · simpa [Step.under_on] using hunder
    · intro a b hab
      refine ⟨1, hab.2.2, ?_⟩
      simp only [Timeline.act_cons, Timeline.act_nil, Option.bind_none, hact, Option.bind_some,
        Entry.alive_forever, Step.actAll_cons, Step.actAll_nil, Step.act, if_true, Op.apply,
        Slot.shouldApply]
      have := Entry.alive_alive (envs 1).clock b hab.2.2 (some (restoredEntry c (envs 1).clock e))
      simpa [restoredEntry, hd] using this

end

/-! ## The whole snapshot -/

section
variable (u : CaseMap) (c : Clock) (order : IterOrder String)

theorem entries_restored (entries : List (String × StoredValue))
    (hnodup : (entries.map Prod.fst).Nodup) (hv : ∀ p ∈ entries, p.2.value.Storable)
    (hr : ∀ p ∈ entries, p.2.Renders c) (envs : Nat → Env)
    (hwall : ∀ i, c.wall ≤ (envs i).clock.wall) :
    ∃ tl, replayTimeline u envs (entries.flatMap fun p => entryCommands c order p.1 p.2) = some tl ∧
      (∀ x ∈ tl, ∀ step ∈ x.2, ∃ key ∈ entries.map Prod.fst, step.Under key) ∧
      ∀ a b, Timeline.Between a b tl → ∀ p ∈ entries, ∃ i, (envs i).clock.le b ∧
        (Timeline.act p.1 tl none).bind (Entry.alive b) =
          (restoredEntry c (envs i).clock p.2).alive b := by
  induction entries generalizing envs with
  | nil => exact ⟨[], rfl, by simp, by simp⟩
  | cons p entries ih =>
    rw [List.map_cons, List.nodup_cons] at hnodup
    obtain ⟨tl, htl, hunder, hact⟩ := entry_restored u c order p.1 p.2 (hv p List.mem_cons_self)
      (hr p List.mem_cons_self) envs hwall
    obtain ⟨tl', htl', hunder', hact'⟩ := ih hnodup.2 (fun q hq => hv q (List.mem_cons_of_mem _ hq))
      (fun q hq => hr q (List.mem_cons_of_mem _ hq))
      (fun i => envs (i + (entryCommands c order p.1 p.2).length)) fun i => hwall _
    refine ⟨tl ++ tl', ?_, ?_, ?_⟩
    · rw [List.flatMap_cons, replayTimeline_append, htl, Option.bind_some, htl', Option.map_some]
    · intro x hx step hstep
      rcases List.mem_append.mp hx with hx | hx
      · exact ⟨p.1, List.mem_cons_self, hunder x hx step hstep⟩
      · obtain ⟨key, hkey, h⟩ := hunder' x hx step hstep
        exact ⟨key, List.mem_cons_of_mem _ hkey, h⟩
    · intro a b hab q hq
      obtain ⟨m, ham, hmb⟩ := Timeline.between_append a b tl tl' hab
      rw [Timeline.act_append]
      rcases List.mem_cons.mp hq with rfl | hq
      · -- The keys that follow are others.
        have hothers : ∀ x ∈ tl', ∀ step ∈ x.2, ¬ step.touches q.1 := by
          intro x hx step hstep htouch
          obtain ⟨key, hkey, h⟩ := hunder' x hx step hstep
          exact hnodup.1 (h q.1 htouch ▸ hkey)
        obtain ⟨i, hi, hq'⟩ := hact a m ham
        refine ⟨i, Nat.le_trans hi hmb.le, ?_⟩
        rw [Timeline.act_untouched q.1 m b tl' hmb hothers, ← Entry.alive_alive m b hmb.le, hq']
        exact Entry.alive_alive m b hmb.le (some (restoredEntry c (envs i).clock q.2))
      · -- The first key is another.
        have hother : ∀ x ∈ tl, ∀ step ∈ x.2, ¬ step.touches q.1 := by
          intro x hx step hstep htouch
          have hkey := hunder x hx step hstep q.1 htouch
          exact hnodup.1 (hkey ▸ List.mem_map_of_mem hq)
        obtain ⟨i, hi, hq'⟩ := hact' m b hmb q hq
        rw [Timeline.act_none_untouched q.1 tl hother]
        exact ⟨_, hi, hq'⟩

theorem mem_snapshot (keyOrder : IterOrder StoredValue) (s : MemoryStore) (key : String)
    (e : StoredValue) :
    (key, e) ∈ s.snapshot c keyOrder ↔ (s.slot key).entry = some e ∧ e.isExpired c = false := by
  simp [MemoryStore.snapshot, MemoryStore.slot, keyOrder.mem_iff]

theorem nodup_snapshot (keyOrder : IterOrder StoredValue) (s : MemoryStore) :
    ((s.snapshot c keyOrder).map Prod.fst).Nodup :=
  (keyOrder.nodup s.data).sublist (List.filter_sublist.map _)

theorem deadlines_of_ok (entries : List (String × StoredValue)) (frames : List Bytes)
    (h : snapshotToFrames c order entries = .ok frames) (p : String × StoredValue)
    (hp : p ∈ entries) : ∃ deadline, deadlineCommandOf c p.1 p.2 = .ok deadline := by
  induction entries generalizing frames with
  | nil => cases hp
  | cons q entries ih =>
    obtain ⟨key, e⟩ := q
    rw [snapshotToFrames, encodeSnapshotEntry] at h
    cases hdeadline : deadlineCommandOf c key e with
    | error err =>
      rw [hdeadline] at h
      cases h
    | ok deadline =>
      rw [hdeadline] at h
      cases hrest : snapshotToFrames c order entries with
      | error err =>
        rw [hrest] at h
        cases h
      | ok more =>
        rcases List.mem_cons.mp hp with rfl | hp
        · exact ⟨deadline, hdeadline⟩
        · exact ih more hrest hp

/-- The rewrite could be rendered, so its clock is after the epoch if there is a deadline. -/
theorem renders_of_ok (entries : List (String × StoredValue)) (frames : List Bytes)
    (h : snapshotToFrames c order entries = .ok frames)
    (hbefore : ∀ p ∈ entries, ∀ d, p.2.expiresAt = some d → c.now < d) :
    ∀ p ∈ entries, p.2.Renders c := by
  intro p hp d hd
  have hlt := hbefore p hp d hd
  obtain ⟨deadline, hdeadline⟩ := deadlines_of_ok c order entries frames h p hp
  rcases deadlineCommandOf_cases c p.1 p.2 deadline hdeadline with ⟨-, hpast⟩ | ⟨d', -, -, hwall, -⟩
  · have := hpast d hd
    omega
  · exact ⟨hlt, hwall⟩

end

/-! ## Deadlines to the millisecond -/

/-- The wall-clock deadlines before and after lie less than two milliseconds apart. -/
def NearDeadline (c t : Clock) : Option Int → Option Int → Prop
  | none, none => True
  | some d, some d' =>
    c.wallOf d - 2 * nanosPerMilli < t.wallOf d' ∧ t.wallOf d' < c.wallOf d + nanosPerMilli
  | _, _ => False

section
variable (c t t₁ : Clock)

theorem targetMillis_eq (d : Int) (hd : c.now < d) (hwall : 0 ≤ c.wall)
    (hfits : c.wallOf d < 2 ^ 64 * nanosPerMilli) :
    (targetMillis c d : Int) = c.wall / nanosPerMilli + (d - c.now) / nanosPerMilli := by
  obtain ⟨ms, hms, heq, -⟩ := unixMillis_eq c hwall
  rw [targetMillis, hms, Option.getD_some, saturatingAdd, millisBetween]
  simp only [Clock.wallOf, nanosPerMilli] at *
  omega

/-- A deadline that has not passed after the replay is near the one that was written down. -/
theorem unixDeadline_near (d : Int) (hd : c.now < d) (hwall : 0 ≤ c.wall)
    (hfits : c.wallOf d < 2 ^ 64 * nanosPerMilli) (hstep : t₁.inStep t) (hle : t₁.le t)
    (halive : t.now ≤ unixDeadline t₁ (targetMillis c d)) :
    NearDeadline c t (some d) (some (unixDeadline t₁ (targetMillis c d))) := by
  have htarget := targetMillis_eq c d hd hwall hfits
  unfold unixDeadline at halive ⊢
  simp only [Clock.le, Clock.inStep, Clock.now, Clock.wallOf, nanosPerMilli, NearDeadline] at *
  split_ifs at halive ⊢
  · omega
  · omega

/-- A deadline two milliseconds off has not passed after the replay. -/
theorem unixDeadline_alive (d : Int) (hd : c.now < d) (hwall : 0 ≤ c.wall)
    (hfits : c.wallOf d < 2 ^ 64 * nanosPerMilli) (hstep : t₁.inStep t) (hle : t₁.le t)
    (hfar : t.wall + 2 * nanosPerMilli ≤ c.wallOf d) :
    t.now ≤ unixDeadline t₁ (targetMillis c d) := by
  have htarget := targetMillis_eq c d hd hwall hfits
  unfold unixDeadline
  simp only [Clock.le, Clock.inStep, Clock.now, Clock.wallOf, nanosPerMilli] at *
  split_ifs
  · omega
  · omega

end

/-- What was live under a key when the log was rewritten, and what is live after the replay. -/
structure Restored (c t : Clock) (before after : Option Entry) : Prop where
  found : ∀ e', after = some e' →
    ∃ e, before = some e ∧ e'.value = printed e.value ∧ NearDeadline c t e.deadline e'.deadline
  kept : ∀ e, before = some e →
    (∀ d, e.deadline = some d → t.wall + 2 * nanosPerMilli ≤ c.wallOf d) → after.isSome

/-- The restored entry is all that is left of an entry, up to the milliseconds. -/
theorem restored_alive (c t t₁ : Clock) (e : StoredValue) (hr : e.Renders c)
    (hfits : ∀ d, e.expiresAt = some d → c.wallOf d < 2 ^ 64 * nanosPerMilli) (hstep : t₁.inStep t)
    (hle : t₁.le t) : Restored c t (some e.toEntry) ((restoredEntry c t₁ e).alive t) := by
  cases hd : e.expiresAt with
  | none =>
    have hentry : restoredEntry c t₁ e = ⟨printed e.value, none⟩ := by rw [restoredEntry, hd]; rfl
    rw [hentry, Entry.alive_forever]
    refine ⟨?_, fun _ _ _ => rfl⟩
    rintro e' ⟨⟩
    exact ⟨_, rfl, rfl, by simp [StoredValue.toEntry, hd, NearDeadline]⟩
  | some d =>
    obtain ⟨hlt, hwall⟩ := hr d hd
    have hentry : restoredEntry c t₁ e =
        ⟨printed e.value, some (unixDeadline t₁ (targetMillis c d))⟩ := by
      rw [restoredEntry, hd]
      rfl
    rw [hentry]
    constructor
    · intro e' he'
      obtain ⟨halive, rfl⟩ := (Entry.alive_eq_some ..).mp he'
      have hnear := unixDeadline_near c t t₁ d hlt hwall (hfits d hd) hstep hle
        (by simpa [Entry.isExpired] using halive)
      exact ⟨_, rfl, rfl, by simpa [StoredValue.toEntry, hd] using hnear⟩
    · rintro _ ⟨⟩ hfar
      have halive := unixDeadline_alive c t t₁ d hlt hwall (hfits d hd) hstep hle (hfar d hd)
      rw [Entry.alive, if_neg (by simpa [Entry.isExpired] using halive)]
      rfl

/-! ## The frames are read back -/

section
variable (u : CaseMap) (c : Clock) (order : IterOrder String)

theorem mem_entryCommands (key : String) (e : StoredValue) (cmd : ParsedCommand)
    (h : cmd ∈ entryCommands c order key e) :
    (∃ b, cmd = ⟨"SET", [utf8 key, b]⟩) ∨
      (∃ g, e.value = .hash g ∧ cmd = ⟨"HSET", utf8 key :: pairArgs (order.toList g)⟩) ∨
      ∃ b, cmd = ⟨"PEXPIREAT", [utf8 key, b]⟩ := by
  rcases List.mem_append.mp h with h | h
  · rw [Option.mem_toList] at h
    cases hv : e.value with
    | string b =>
      rw [hv] at h
      exact .inl ⟨b, (Option.some.inj h).symm⟩
    | integer i =>
      rw [hv] at h
      exact .inl ⟨_, (Option.some.inj h).symm⟩
    | hash g =>
      rw [hv, valueCommand] at h
      split_ifs at h
      exact .inr (.inl ⟨g, rfl, (Option.some.inj h).symm⟩)
    | list l =>
      rw [hv] at h
      cases h
  · rw [Option.mem_toList] at h
    cases hdeadline : deadlineCommandOf c key e with
    | error err =>
      rw [hdeadline] at h
      cases h
    | ok deadline =>
      rw [hdeadline] at h
      obtain rfl : deadline = some cmd := h
      rcases deadlineCommandOf_cases c key e _ hdeadline with ⟨hnone, -⟩ | ⟨d, -, -, -, hsome⟩
      · cases hnone
      · exact .inr (.inr ⟨_, Option.some.inj hsome⟩)

theorem entryCommands_upper (key : String) (e : StoredValue) (cmd : ParsedCommand)
    (hmem : cmd ∈ entryCommands c order key e) : u.toUppercase cmd.name = cmd.name := by
  rcases mem_entryCommands c order key e cmd hmem with ⟨b, rfl⟩ | ⟨g, hg, rfl⟩ | ⟨b, rfl⟩
  · exact toUppercase_eq u "SET" (by decide) (by decide)
  · exact toUppercase_eq u "HSET" (by decide) (by decide)
  · exact toUppercase_eq u "PEXPIREAT" (by decide) (by decide)

theorem entryCommands_isFrame (key : String) (e : StoredValue)
    (hfields : ∀ h, e.value = .hash h → 2 + 2 * h.entries.card ≤ CodecLimits.default.maxArrayLength)
    (cmd : ParsedCommand) (hmem : cmd ∈ entryCommands c order key e)
    (hsize : (encodeParsed cmd).length ≤ CodecLimits.default.maxBufferSize) :
    cmd.totalArgs ≤ CodecLimits.default.maxArrayLength ∧
      IsFrame u .default (encodeParsed cmd) cmd := by
  have hthree : 3 ≤ CodecLimits.default.maxArrayLength := by decide
  have hcount : cmd.totalArgs ≤ CodecLimits.default.maxArrayLength := by
    rcases mem_entryCommands c order key e cmd hmem with ⟨b, rfl⟩ | ⟨g, hg, rfl⟩ | ⟨b, rfl⟩
    · exact hthree
    · have := hfields g hg
      simp only [ParsedCommand.totalArgs, List.length_cons, length_pairArgs, order.length_toList,
        ← card_entries]
      omega
    · exact hthree
  exact ⟨hcount, isFrame_encodeParsed u cmd (entryCommands_upper u c order key e cmd hmem) hcount
    hsize⟩

theorem live_eq_none (c₀ : Clock) (hc : c₀.le c) (keyOrder : IterOrder StoredValue)
    (s : MemoryStore) (k : String) (h : ∀ e, (k, e) ∉ s.snapshot c₀ keyOrder) :
    s.live c k = none := by
  rw [MemoryStore.live_later c₀ c hc, MemoryStore.live]
  rcases hslot : s.slot k with ⟨_ | e, i⟩
  · rfl
  · have hexpired : e.isExpired c₀ = true := by
      by_contra hcon
      exact h e ((mem_snapshot c₀ keyOrder s k e).mpr ⟨by rw [hslot], by simpa using hcon⟩)
    rw [Slot.live_expired c₀ e i hexpired]
    rfl

end

/--
The frames of a snapshot, decoded and executed on an empty store at any later time, bring every key
back. Only near its deadline can a key be live on one side and not on the other: the deadlines are
kept to the millisecond.
-/
theorem snapshot_recovers (u : CaseMap) (s : MemoryStore) (hs : Reachable u s)
    (keyOrder : IterOrder StoredValue) (hashOrder : IterOrder String) (c₀ c : Clock) (hc : c₀.le c)
    (hbefore : ∀ p ∈ s.snapshot c₀ keyOrder, ∀ d, p.2.expiresAt = some d →
      c.now < d ∧ c.wallOf d < 2 ^ 64 * nanosPerMilli)
    (hfields : ∀ p ∈ s.snapshot c₀ keyOrder, ∀ h, p.2.value = .hash h →
      2 + 2 * h.entries.card ≤ CodecLimits.default.maxArrayLength)
    (frames : List Bytes)
    (hframes : snapshotToFrames c hashOrder (s.snapshot c₀ keyOrder) = .ok frames)
    (hsizes : ∀ frame ∈ frames, frame.length ≤ CodecLimits.default.maxBufferSize) (envs : Nat → Env)
    (t : Clock) (hmono : ∀ i j, i ≤ j → (envs i).clock.le (envs j).clock)
    (hlast : ∀ i, (envs i).clock.le t) (hstep : ∀ i, (envs i).clock.inStep t)
    (hlater : ∀ i, c.wall ≤ (envs i).clock.wall) :
    ∃ s', recover u envs (decodeEach u frames) .new = some s' ∧
      ∀ k, Restored c t (s.live c k) (s'.live t k) := by
  have hstorable := hs.storable u s
  have hrenders := renders_of_ok c hashOrder _ frames hframes fun p hp d hd => (hbefore p hp d hd).1
  obtain ⟨tl, htl, hunder, hact⟩ := entries_restored u c hashOrder (s.snapshot c₀ keyOrder)
    (nodup_snapshot c₀ keyOrder s)
    (fun p hp => hstorable p.1 p.2 ((mem_snapshot c₀ keyOrder s p.1 p.2).mp hp).1) hrenders envs
    hlater
  have hcmds := snapshotToFrames_eq c hashOrder _ frames hframes
  have hdecode : decodeEach u frames =
      (s.snapshot c₀ keyOrder).flatMap fun p => entryCommands c hashOrder p.1 p.2 := by
    refine decodeEach_frames u _ _ ?_ hsizes
    rw [hcmds]
    refine List.forall₂_map_left_iff.mpr (List.forall₂_same.mpr fun cmd hcmd => ?_)
    obtain ⟨p, hp, hmem⟩ := List.mem_flatMap.mp hcmd
    exact (entryCommands_isFrame u c hashOrder p.1 p.2 (hfields p hp) cmd hmem
      (hsizes _ (hcmds ▸ List.mem_map_of_mem hcmd))).2
  have hbetween := replayTimeline_between u envs _ tl htl (envs 0).clock t
    (fun i => hmono 0 i (by omega)) hmono hlast
  refine ⟨tl.run .new, by rw [recover_eq, hdecode, htl, Option.map_some], fun k => ?_⟩
  rw [Timeline.live_run k _ t tl .new hbetween, MemoryStore.live_new]
  by_cases hmem : ∃ e, (k, e) ∈ s.snapshot c₀ keyOrder
  · obtain ⟨e, he⟩ := hmem
    obtain ⟨i, hi, hlive⟩ := hact _ t hbetween (k, e) he
    have hexpired : e.isExpired c = false := by
      cases hd : e.expiresAt with
      | none => exact StoredValue.isExpired_of_none c e hd
      | some d =>
        have := (hbefore (k, e) he d hd).1
        simp only [StoredValue.isExpired, hd, decide_eq_false_iff_not]
        omega
    have hbefore' : s.live c k = some e.toEntry := by
      obtain ⟨hentry, -⟩ := (mem_snapshot c₀ keyOrder s k e).mp he
      rw [MemoryStore.live, ← Slot.live_alive c e (s.slot k).index hexpired, ← hentry]
    rw [hbefore', hlive]
    exact restored_alive c t _ e (hrenders (k, e) he) (fun d hd =>
      (hbefore (k, e) he d hd).2) (hstep i) hi
  · rw [live_eq_none c c₀ hc keyOrder s k fun e he => hmem ⟨e, he⟩, Timeline.act_none_untouched]
    · exact ⟨by simp, by simp⟩
    · intro x hx step hstep htouch
      obtain ⟨key, hkey, h⟩ := hunder x hx step hstep
      obtain ⟨p, hp, rfl⟩ := List.mem_map.mp hkey
      exact hmem ⟨p.2, h k htouch ▸ hp⟩

/-- A counter with a deadline. -/
def sampleStore : MemoryStore :=
  (handleConnection asciiCaseMap .default (fun _ => .sample)
    [encodeCommand [utf8 "INCR", utf8 "n"], encodeCommand [utf8 "EXPIRE", utf8 "n", utf8 "100"]]
    .new).store

theorem sampleStore_recovers :
    ∃ frames s', snapshotToFrames (.ofSecs 110 (by decide)) (.sorted _)
        (sampleStore.snapshot (.ofSecs 110 (by decide)) (.sorted _)) = .ok frames ∧
      recover asciiCaseMap (fun _ => .atClock (.ofSecs 120 (by decide)))
        (decodeEach asciiCaseMap frames) .new =
        some s' ∧
      ∀ k, Restored (.ofSecs 110 (by decide)) (.ofSecs 120 (by decide))
        (sampleStore.live (.ofSecs 110 (by decide)) k) (s'.live (.ofSecs 120 (by decide)) k) := by
  have hentries : ∀ p ∈ sampleStore.snapshot (.ofSecs 110 (by decide)) (.sorted _),
      p.2.expiresAt = some 200000000000 ∧ p.2.value = .integer ⟨1, by decide⟩ := by decide +kernel
  have hsizes : (snapshotToFrames (.ofSecs 110 (by decide)) (.sorted _)
      (sampleStore.snapshot (.ofSecs 110 (by decide)) (.sorted _))).toOption.any fun frames =>
        frames.all fun frame => frame.length ≤ CodecLimits.default.maxBufferSize := by
          decide +kernel
  cases hframes : snapshotToFrames (.ofSecs 110 (by decide)) (.sorted _)
      (sampleStore.snapshot (.ofSecs 110 (by decide)) (.sorted _)) with
  | error e =>
    rw [hframes] at hsizes
    cases hsizes
  | ok frames =>
    rw [hframes] at hsizes
    refine ⟨frames, ?_⟩
    simp only [true_and]
    refine snapshot_recovers asciiCaseMap sampleStore (handleConnection_reachable ..) (.sorted _)
      (.sorted _) (.ofSecs 110 (by decide)) (.ofSecs 110 (by decide))
      (Nat.le_refl _) ?_ ?_ frames hframes (by simpa [Except.toOption] using hsizes)
      (fun _ => .atClock (.ofSecs 120 (by decide))) (.ofSecs 120 (by decide))
      (fun _ _ _ => Nat.le_refl _) (fun _ => Nat.le_refl _) (fun _ => rfl) (fun _ => by decide)
    · intro p hp d hd
      rw [(hentries p hp).1] at hd
      cases hd
      decide
    · intro p hp h hh
      rw [(hentries p hp).2] at hh
      cases hh

/--
A key with a millisecond to live is rewritten with a Unix time in whole milliseconds. A little later
it is still there, but the replay takes its deadline for a time in the past.
-/
theorem rewrite_loses_last_millisecond :
    ∃ s : MemoryStore, Reachable asciiCaseMap s ∧
      (s.live (.ofNanos 1200000 (by decide)) "k").isSome = true ∧
      ((snapshotToFrames (.ofNanos 600000 (by decide)) (.sorted _)
          (s.snapshot (.ofNanos 600000 (by decide)) (.sorted _))).toOption.bind fun frames =>
        recover asciiCaseMap (fun _ => .atClock (.ofNanos 1200000 (by decide)))
          (decodeEach asciiCaseMap frames) .new).map
          (fun s' => s'.live (.ofNanos 1200000 (by decide)) "k") = some none := by
  refine ⟨_, handleConnection_reachable asciiCaseMap .default
    (fun _ => .atClock (.ofNanos 500000 (by decide)))
    [encodeCommand [utf8 "SET", utf8 "k", utf8 "v", utf8 "PX", utf8 "1"]], ?_, ?_⟩ <;>
    decide +kernel

end RustyPotato
