import RustyPotato.LogReplay

/-!
# Which frames of a rewrite are read back

A client can bring only so much with one command, but a rewrite writes a hash of any size as one
`HSET`. Keys count too: a `SET` that just fits comes with a longer `PEXPIREAT`.
-/

namespace RustyPotato

open Lib.Stream

/-! ## Sizes that a store can be asked for -/

/-- The length of the `HSET` that brings a hash back. -/
def hashFrameSize (key : String) (h : Hash) : Nat :=
  digitCount (2 + 2 * h.entries.card) + 3 + bulkSize 4 + bulkSize (utf8 key).length +
    (h.entries.map fun p => bulkSize (utf8 p.1).length + bulkSize (utf8 p.2).length).sum

/-- The command that brings the value back is within the default limits. -/
def ValueFits (key : String) : ValueType → Prop
  | .string b => frameSize [3, (utf8 key).length, b.length] ≤ CodecLimits.default.maxBufferSize
  | .integer i =>
    frameSize [3, (utf8 key).length, (utf8 (toString i.val)).length] ≤
      CodecLimits.default.maxBufferSize
  | .hash h => 2 + 2 * h.entries.card ≤ CodecLimits.default.maxArrayLength ∧
    hashFrameSize key h ≤ CodecLimits.default.maxBufferSize
  | .list _ => True

/-- So is the command that brings a deadline back. -/
def DeadlineFits (c : Clock) (key : String) (e : StoredValue) : Prop :=
  ∀ d, e.expiresAt = some d → c.now < d →
    frameSize [9, (utf8 key).length, digitCount (targetMillis c d)] ≤
    CodecLimits.default.maxBufferSize

section
variable (order : IterOrder String) (key : String)

theorem toList_eq_entries (h : Hash) :
    (order.toList h : Multiset (String × String)) = h.entries.map fun p => (p.1, p.2) := by
  have hlist : (order.toList h : Multiset (String × String)).Nodup :=
    Multiset.coe_nodup.mpr (order.nodup h).of_map
  have hentries : (h.entries.map fun p => (p.1, p.2)).Nodup :=
    (Finmap.nodup_entries h).map fun p q hpq => by
      cases p
      cases q
      cases hpq
      rfl
  refine (Multiset.Nodup.ext hlist hentries).mpr ?_
  rintro ⟨field, value⟩
  rw [Multiset.mem_coe, order.mem_iff, Finmap.lookup_eq_some_iff]
  simp

theorem sum_pairArgs (ps : List (String × String)) :
    (((pairArgs ps).map List.length).map bulkSize).sum =
      (ps.map fun p => bulkSize (utf8 p.1).length + bulkSize (utf8 p.2).length).sum := by
  induction ps with
  | nil => rfl
  | cons p ps ih =>
    rw [pairArgs, List.flatMap_cons, ← pairArgs]
    simp only [List.cons_append, List.nil_append, List.map_cons, List.sum_cons, ih]
    omega

theorem frameSize_hash (h : Hash) :
    frameSize ((utf8 "HSET" :: utf8 key :: pairArgs (order.toList h)).map List.length) =
      hashFrameSize key h := by
  have hcard : (pairArgs (order.toList h)).length = 2 * h.entries.card := by
    rw [length_pairArgs, order.length_toList, card_entries]
  have hsum := congrArg (fun m => (m.map fun p : String × String =>
    bulkSize (utf8 p.1).length + bulkSize (utf8 p.2).length).sum) (toList_eq_entries order h)
  simp only [Multiset.map_coe, Multiset.sum_coe, Multiset.map_map, Function.comp_def] at hsum
  have hfour : (utf8 "HSET").length = 4 := by decide
  rw [frameSize, hashFrameSize, ← hsum, ← sum_pairArgs]
  simp only [List.map_cons, List.length_cons, List.length_map, List.sum_cons, hcard, hfour]
  rw [show 2 * h.entries.card + 1 + 1 = 2 + 2 * h.entries.card by omega]
  omega

theorem valueCommand_fits (v : ValueType) (cmd : ParsedCommand)
    (h : valueCommand order key v = some cmd) : cmd.Fits ↔ ValueFits key v := by
  have hset : ∀ b, ParsedCommand.Fits ⟨"SET", [utf8 key, b]⟩ ↔
      frameSize [3, (utf8 key).length, b.length] ≤ CodecLimits.default.maxBufferSize := by
    intro b
    exact ⟨fun h => h.size, fun h => ⟨(by decide : 3 ≤ CodecLimits.default.maxArrayLength), h⟩⟩
  cases v with
  | string b =>
    cases h
    exact hset b
  | integer i =>
    cases h
    exact hset _
  | hash g =>
    rw [valueCommand] at h
    split_ifs at h
    cases h
    have hcount : ParsedCommand.totalArgs ⟨"HSET", utf8 key :: pairArgs (order.toList g)⟩ =
        2 + 2 * g.entries.card := by
      simp only [ParsedCommand.totalArgs, List.length_cons, length_pairArgs, order.length_toList,
        card_entries]
      omega
    have hsize := frameSize_hash order key g
    constructor
    · intro hfits
      exact ⟨hcount ▸ hfits.count, hsize ▸ hfits.size⟩
    · intro hfits
      exact ⟨hcount ▸ hfits.1, hsize ▸ hfits.2⟩
  | list l => cases h

variable (c : Clock)

theorem pexpireat_fits (millis : Nat) :
    ParsedCommand.Fits ⟨"PEXPIREAT", [utf8 key, utf8 (toString millis)]⟩ ↔
    frameSize [9, (utf8 key).length, digitCount millis] ≤ CodecLimits.default.maxBufferSize :=
  ⟨fun h => h.size, fun h => ⟨(by decide : 3 ≤ CodecLimits.default.maxArrayLength), h⟩⟩

/-- All commands of an entry are read back just when its key and value are within the sizes. -/
theorem entryCommands_fit (e : StoredValue) (hv : e.value.Storable)
    (deadline : Option ParsedCommand) (h : deadlineCommandOf c key e = .ok deadline) :
    (∀ cmd ∈ entryCommands c order key e, cmd.Fits) ↔ ValueFits key e.value ∧
      DeadlineFits c key e := by
  obtain ⟨cmd, -, hcmd, -⟩ := value_restored asciiCaseMap order key e.value hv
  have hentry : entryCommands c order key e = cmd :: deadline.toList := by
    rw [entryCommands, hcmd, h]
    rfl
  rw [hentry, List.forall_mem_cons, valueCommand_fits order key e.value cmd hcmd]
  refine and_congr_right fun _ => ?_
  rcases deadlineCommandOf_cases c key e deadline h with ⟨rfl, hpast⟩ | ⟨d, hd, hlt, -, rfl⟩
  · refine iff_of_true (by simp) fun d hd hlt => ?_
    have := hpast d hd
    omega
  · simp only [Option.toList_some, List.mem_singleton, forall_eq, pexpireat_fits]
    constructor
    · intro hfits d' hd' _
      rw [hd] at hd'
      cases hd'
      exact hfits
    · intro hfits
      exact hfits d hd hlt

end

/-! ## A whole rewrite -/

section
variable (u : CaseMap) (c : Clock) (order : IterOrder String)

theorem snapshot_fits (s : MemoryStore) (hs : Reachable u s) (keyOrder : IterOrder StoredValue)
    (c₀ : Clock) (frames : List Bytes)
    (hframes : snapshotToFrames c order (s.snapshot c₀ keyOrder) = .ok frames)
    (p : String × StoredValue) (hp : p ∈ s.snapshot c₀ keyOrder) :
    (∀ cmd ∈ entryCommands c order p.1 p.2, cmd.Fits) ↔ ValueFits p.1 p.2.value ∧
      DeadlineFits c p.1 p.2 := by
  obtain ⟨deadline, hdeadline⟩ := deadlines_of_ok c order _ frames hframes p hp
  have hv := hs.storable u s p.1 p.2 ((mem_snapshot c₀ keyOrder s p.1 p.2).mp hp).1
  exact entryCommands_fit order p.1 c p.2 hv deadline hdeadline

theorem rewrite_decodes (s : MemoryStore) (hs : Reachable u s) (keyOrder : IterOrder StoredValue)
    (c₀ : Clock) (frames : List Bytes)
    (hframes : snapshotToFrames c order (s.snapshot c₀ keyOrder) = .ok frames) :
    (∀ frame ∈ frames, ∃ cmd,
      RespCodec.new.decodeWithFrame u frame = (.ok (some (cmd, frame)), .new)) ↔
      ∀ p ∈ s.snapshot c₀ keyOrder, ValueFits p.1 p.2.value ∧ DeadlineFits c p.1 p.2 := by
  have hfits := snapshot_fits u c order s hs keyOrder c₀ frames hframes
  rw [snapshotToFrames_eq c order _ frames hframes, List.forall_mem_map]
  simp only [List.mem_flatMap]
  constructor
  · intro h p hp
    refine (hfits p hp).mp fun cmd hcmd => ?_
    exact (decodeWithFrame_encodeParsed u cmd
      (entryCommands_upper u c order p.1 p.2 cmd hcmd)).mp (h cmd ⟨p, hp, hcmd⟩)
  · rintro h cmd ⟨p, hp, hcmd⟩
    exact (decodeWithFrame_encodeParsed u cmd (entryCommands_upper u c order p.1 p.2 cmd hcmd)).mpr
      ((hfits p hp).mpr (h p hp) cmd hcmd)

theorem rewrite_frames (s : MemoryStore) (hs : Reachable u s) (keyOrder : IterOrder StoredValue)
    (c₀ : Clock) (frames : List Bytes)
    (hframes : snapshotToFrames c order (s.snapshot c₀ keyOrder) = .ok frames)
    (hfits : ∀ p ∈ s.snapshot c₀ keyOrder, ValueFits p.1 p.2.value ∧ DeadlineFits c p.1 p.2) :
    Frames (parseCommand u .default) frames
      ((s.snapshot c₀ keyOrder).flatMap fun p => entryCommands c order p.1 p.2) := by
  rw [snapshotToFrames_eq c order _ frames hframes]
  refine List.forall₂_map_left_iff.mpr (List.forall₂_same.mpr fun cmd hcmd => ?_)
  obtain ⟨p, hp, hmem⟩ := List.mem_flatMap.mp hcmd
  have hcmdFits := (snapshot_fits u c order s hs keyOrder c₀ frames hframes p hp).mpr
    (hfits p hp) cmd hmem
  exact hcmdFits.isFrame u cmd (entryCommands_upper u c order p.1 p.2 cmd hmem)

/--
Every frame of a rewrite is decoded as a command and the replay of the file gives them all, just
when no key, value or hash is too large for one frame and no read of the file runs into the limit of
the buffer.
-/
theorem rewrite_replays_iff (s : MemoryStore) (hs : ReachableWithin u .default s)
    (keyOrder : IterOrder StoredValue) (c₀ : Clock) (frames : List Bytes)
    (hframes : snapshotToFrames c order (s.snapshot c₀ keyOrder) = .ok frames) (chunks : List Bytes)
    (hfile : chunks.flatten = frames.flatten) :
    ((∀ frame ∈ frames, ∃ cmd,
      RespCodec.new.decodeWithFrame u frame = (.ok (some (cmd, frame)), .new)) ∧
        replayFile u .new chunks =
          (s.snapshot c₀ keyOrder).flatMap fun p => entryCommands c order p.1 p.2) ↔
      (∀ p ∈ s.snapshot c₀ keyOrder, ValueFits p.1 p.2.value ∧ DeadlineFits c p.1 p.2) ∧
        ReadsHaveRoom CodecLimits.default.maxBufferSize 0 frames chunks := by
  have hreachable := hs.reachable u .default s
  rw [rewrite_decodes u c order s hreachable keyOrder c₀ frames hframes]
  refine and_congr_right fun hfits => ?_
  exact replayFile_eq_iff u .default chunks [] (stuck_nil u .default) frames _
    (rewrite_frames u c order s hreachable keyOrder c₀ frames hframes hfits) hfile

end

/-- A client sets one key, for a hundred seconds. -/
def oneKeySet : ParsedCommand := ⟨"SET", [utf8 "k", utf8 "v", utf8 "EX", utf8 "100"]⟩

def oneKeyStore : MemoryStore :=
  (((serverRegistry.execute asciiCaseMap .sample oneKeySet).run .new).map Prod.snd).getD .new

theorem oneKeyStore_reachable : ReachableWithin asciiCaseMap .default oneKeyStore := by
  obtain ⟨⟨r, s⟩, hrun⟩ := Option.isSome_iff_exists.mp
    (show ((serverRegistry.execute asciiCaseMap .sample oneKeySet).run .new).isSome =
      true by decide +kernel)
  have hstore : oneKeyStore = s := by
    unfold oneKeyStore
    rw [hrun]
    rfl
  rw [hstore]
  refine .command .sample (encodeParsed oneKeySet) oneKeySet .new s r .new ?_ hrun
  rw [accepted_iff]
  decide +kernel

/--
The value and its deadline, read back in two reads of which the first ends within the first frame.
-/
theorem oneKeyStore_replays : ∃ frames,
    snapshotToFrames Env.sample.clock (.sorted _)
      (oneKeyStore.snapshot Env.sample.clock (.sorted _)) = .ok frames ∧
      (∀ frame ∈ frames, ∃ cmd,
        RespCodec.new.decodeWithFrame asciiCaseMap frame = (.ok (some (cmd, frame)), .new)) ∧
      replayFile asciiCaseMap .new [frames.flatten.take 10, frames.flatten.drop 10] =
        [⟨"SET", [utf8 "k", utf8 "v"]⟩, ⟨"PEXPIREAT", [utf8 "k", utf8 "200000"]⟩] := by
  have hframes : snapshotToFrames Env.sample.clock (.sorted _)
      (oneKeyStore.snapshot Env.sample.clock (.sorted _)) =
        .ok [encodeCommand [utf8 "SET", utf8 "k", utf8 "v"],
          encodeCommand [utf8 "PEXPIREAT", utf8 "k", utf8 "200000"]] := by decide +kernel
  have hentries : ∀ p ∈ oneKeyStore.snapshot Env.sample.clock (.sorted _),
      p.1 = "k" ∧ p.2.value = .string (utf8 "v") ∧ p.2.expiresAt = some (200 * nanosPerSec) := by
        decide +kernel
  refine ⟨_, hframes, ?_⟩
  have hcmds : ((oneKeyStore.snapshot Env.sample.clock (.sorted _)).flatMap fun p =>
      entryCommands Env.sample.clock (.sorted _) p.1 p.2) =
        [⟨"SET", [utf8 "k", utf8 "v"]⟩, ⟨"PEXPIREAT", [utf8 "k", utf8 "200000"]⟩] := by
          decide +kernel
  rw [← hcmds]
  refine (rewrite_replays_iff asciiCaseMap Env.sample.clock
    (.sorted _) oneKeyStore oneKeyStore_reachable (.sorted _) Env.sample.clock _ hframes _
    (by simp)).mpr ⟨fun p hp => ?_, ?_⟩
  · obtain ⟨hkey, hvalue, hdeadline⟩ := hentries p hp
    rw [hkey, hvalue]
    refine ⟨?_, fun d hd _ => ?_⟩
    · simp only [ValueFits]
      decide +kernel
    · rw [hdeadline] at hd
      cases hd
      decide +kernel
  · refine (readsHaveRoom_cons ..).mpr
      ⟨by decide +kernel, (readsHaveRoom_cons ..).mpr ⟨by decide +kernel, ?_⟩⟩
    simp [ReadsHaveRoom]

/-! ## A hash that grows -/

theorem digitCount_le (n : Nat) (h : n < 2 ^ 63) : digitCount n ≤ 84 :=
  length_toString ⟨n, by omega, by omega⟩

/-- One more field, as a client with the default limits can set it. -/
theorem ReachableWithin.hset (s : MemoryStore) (hs : ReachableWithin asciiCaseMap .default s)
    (field : String) (hfield : (utf8 field).length ≤ 84) :
    ReachableWithin asciiCaseMap .default
      (Step.runAll Env.sample.clock [.on "h" (.hset field "v")] s) := by
  have hplan := plan_hset asciiCaseMap .sample "h" serverRegistry rfl [(field, "v")] (by simp)
  have hfollows := serverRegistry.execute_follows asciiCaseMap .sample
    ⟨"HSET", utf8 "h" :: pairArgs [(field, "v")]⟩
  rw [hplan] at hfollows
  obtain ⟨r, hrun⟩ := hfollows s
  have hlengths : (utf8 "HSET" :: utf8 "h" :: pairArgs [(field, "v")]).map List.length =
      [4, 1, (utf8 field).length, 1] := rfl
  have hparts : PartsFit .default (utf8 "HSET" :: utf8 "h" :: pairArgs [(field, "v")]) := by
    refine ⟨(by decide : 4 ≤ 1048576 ∧ 4 < 2 ^ 31), fun b hb => ?_⟩
    have hb : b.length ∈ [4, 1, (utf8 field).length, 1] := hlengths ▸ List.mem_map_of_mem hb
    have hle : b.length ≤ 84 := by
      simp only [List.mem_cons, List.not_mem_nil, or_false] at hb
      omega
    exact ⟨hle.trans (by decide), by omega⟩
  have hsize : (encodeCommand (utf8 "HSET" :: utf8 "h" :: pairArgs [(field, "v")])).length ≤
      1000 := by
    have hdigits := digitCount_le (utf8 field).length (by omega)
    have hconst : digitCount 4 = 1 ∧ digitCount 1 = 1 := by decide
    rw [length_encodeCommand, hlengths]
    simp only [frameSize, bulkSize, List.length_cons, List.length_nil, List.map_cons, List.map_nil,
      List.sum_cons, List.sum_nil, hconst]
    omega
  have hframe := isFrame_encodeCommand asciiCaseMap .default "HSET" _ hparts
  exact .command .sample _ _ s _ r hs ((accepted_iff ..).mpr ⟨hframe, hsize.trans (by decide)⟩) hrun

/-- The store has one key, a hash whose fields are the first numbers. -/
structure Counting (n : Nat) (s : MemoryStore) (h : Hash) : Prop where
  reachable : ReachableWithin asciiCaseMap .default s
  fields : ∀ field, field ∈ h ↔ ∃ i < n, field = toString i
  others : ∀ k, k ≠ "h" → s.live Env.sample.clock k = none
  live : s.live Env.sample.clock "h" = some ⟨.hash h, none⟩

theorem counting_step (n : Nat) (hn : n < 2 ^ 63) (s : MemoryStore) (h : Hash)
    (hs : ReachableWithin asciiCaseMap .default s)
    (hfields : ∀ field, field ∈ h ↔ ∃ i < n, field = toString i)
    (hothers : ∀ k, k ≠ "h" → s.live Env.sample.clock k = none)
    (hlive : Op.apply Env.sample.clock (.hset (toString n) "v") (s.live Env.sample.clock "h") =
      some ⟨.hash (h.insert (toString n) "v"), none⟩) :
    Counting (n + 1) (Step.runAll Env.sample.clock [.on "h" (.hset (toString n) "v")] s)
      (h.insert (toString n) "v") where
  reachable := hs.hset s (toString n) (digitCount_le n hn)
  fields field := by
    rw [Finmap.mem_insert, hfields]
    constructor
    · rintro (rfl | ⟨i, hi, rfl⟩)
      · exact ⟨n, by omega, rfl⟩
      · exact ⟨i, by omega, rfl⟩
    · rintro ⟨i, hi, rfl⟩
      rcases Nat.lt_succ_iff_lt_or_eq.mp hi with hi | rfl
      · exact .inr ⟨i, hi, rfl⟩
      · exact .inl rfl
  others k hk := by
    rw [Step.live_runAll, Step.actAll_untouched _ _ _ _ (by simpa [Step.touches] using hk.symm)]
    exact hothers k hk
  live := by
    rw [Step.live_runAll, Step.actAll_cons, Step.actAll_nil, ← hlive, Step.act, if_pos rfl]

theorem exists_counting (n : Nat) (hn : n < 2 ^ 63) : ∃ s h, Counting (n + 1) s h := by
  induction n with
  | zero =>
    exact ⟨_, _, counting_step 0 hn .new ∅ .new (by simp [Finmap.notMem_empty])
      (fun _ _ => rfl) rfl⟩
  | succ n ih =>
    obtain ⟨s, h, hcount⟩ := ih (by omega)
    refine ⟨_, _, counting_step (n + 1) hn s h hcount.reachable hcount.fields hcount.others ?_⟩
    rw [hcount.live]
    rfl

theorem toString_injective (i j : Nat) (h : toString i = toString j) : i = j := by
  have hi := Lib.Decimal.unsigned_toString i
  have hj := Lib.Decimal.unsigned_toString j
  rw [h, hj] at hi
  exact (Option.some.inj hi).symm

theorem Counting.card (n : Nat) (s : MemoryStore) (h : Hash) (hcount : Counting n s h) :
    h.entries.card = n := by
  have hkeys : h.keys = (Finset.range n).image fun i : Nat => toString i := by
    ext field
    rw [Finmap.mem_keys, hcount.fields, Finset.mem_image]
    constructor
    · rintro ⟨i, hi, rfl⟩
      exact ⟨i, Finset.mem_range.mpr hi, rfl⟩
    · rintro ⟨i, hi, rfl⟩
      exact ⟨i, Finset.mem_range.mp hi, rfl⟩
  rw [card_entries, hkeys, Finset.card_image_of_injective _ fun i j => toString_injective i j,
    Finset.card_range]

theorem snapshotToFrames_permanent (c : Clock) (order : IterOrder String)
    (entries : List (String × StoredValue)) (h : ∀ p ∈ entries, p.2.expiresAt = none) :
    ∃ frames, snapshotToFrames c order entries = .ok frames := by
  induction entries with
  | nil => exact ⟨[], rfl⟩
  | cons p entries ih =>
    obtain ⟨more, hmore⟩ := ih fun q hq => h q (List.mem_cons_of_mem _ hq)
    have hnone : deadlineCommandOf c p.1 p.2 = .ok none := by
      simp only [deadlineCommandOf, h p List.mem_cons_self]
    rw [snapshotToFrames, encodeSnapshotEntry, hnone, hmore]
    exact ⟨_, rfl⟩

theorem Counting.snapshot (n : Nat) (s : MemoryStore) (h : Hash) (hcount : Counting n s h)
    (p : String × StoredValue) (hp : p ∈ s.snapshot Env.sample.clock (.sorted _)) :
    p.1 = "h" ∧ p.2.toEntry = ⟨.hash h, none⟩ := by
  obtain ⟨hentry, halive⟩ := (mem_snapshot _ _ s p.1 p.2).mp hp
  have hlive : s.live Env.sample.clock p.1 = some p.2.toEntry := by
    rw [MemoryStore.live, ← Slot.live_alive _ p.2 (s.slot p.1).index halive, ← hentry]
  by_cases hkey : p.1 = "h"
  · rw [hkey, hcount.live] at hlive
    exact ⟨hkey, (Option.some.inj hlive).symm⟩
  · rw [hcount.others p.1 hkey] at hlive
    cases hlive

theorem Counting.exists_snapshot (n : Nat) (s : MemoryStore) (h : Hash) (hcount : Counting n s h) :
    ∃ e, ("h", e) ∈ s.snapshot Env.sample.clock (.sorted _) := by
  obtain ⟨e, hunexpired, -⟩ := Option.map_eq_some_iff.mp hcount.live
  obtain ⟨hentry, halive⟩ := Option.filter_eq_some_iff.mp hunexpired
  exact ⟨e, (mem_snapshot _ _ s "h" e).mpr ⟨hentry, by simpa using halive⟩⟩

/--
With half a million fields, set one by one, the rewrite writes more parts than its reader takes.
-/
theorem wide_hash_not_decoded : ∃ s frames, ReachableWithin asciiCaseMap .default s ∧
    snapshotToFrames Env.sample.clock (.sorted _) (s.snapshot Env.sample.clock (.sorted _)) =
      .ok frames ∧
      ∃ frame ∈ frames, ∀ cmd codec,
        RespCodec.new.decodeWithFrame asciiCaseMap frame ≠ (.ok (some (cmd, frame)), codec) := by
  obtain ⟨s, h, hcount⟩ := exists_counting 524287 (by decide)
  have hcard := hcount.card
  obtain ⟨e, hmem⟩ := hcount.exists_snapshot
  have hvalue : e.value = .hash h := congrArg Entry.value (hcount.snapshot _ s h _ hmem).2
  obtain ⟨cmd, hcmd⟩ : ∃ cmd, valueCommand (.sorted _) "h" e.value = some cmd := by
    rw [hvalue]
    exact ⟨_, if_neg (by omega)⟩
  obtain ⟨frames, hframes⟩ := snapshotToFrames_permanent Env.sample.clock (.sorted _) _ fun p hp =>
    congrArg Entry.deadline (hcount.snapshot _ s h p hp).2
  refine ⟨s, frames, hcount.reachable, hframes, encodeParsed cmd, ?_, fun cmd' codec hdecode => ?_⟩
  · rw [snapshotToFrames_eq _ _ _ frames hframes]
    refine List.mem_map_of_mem (List.mem_flatMap.mpr ⟨_, hmem, ?_⟩)
    rw [entryCommands, hcmd]
    exact List.mem_append_left _ List.mem_cons_self
  · have hfits := (valueCommand_fits _ "h" e.value cmd hcmd).mp
      (fits_of_decoded asciiCaseMap cmd _ codec hdecode)
    rw [hvalue] at hfits
    have hmax : CodecLimits.default.maxArrayLength = 1048576 := rfl
    have := hfits.1
    omega

end RustyPotato
