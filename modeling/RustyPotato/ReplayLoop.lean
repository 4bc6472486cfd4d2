import RustyPotato.Replay

/-!
# The two loops of `replay_aof_file`

The outer loop reads a chunk and decodes it, the inner one drains the buffer of the codec. Both hand
each command to the callback and count it, whatever the callback says of it. An error of the decoder
ends the outer loop. It only ends the inner one, and then comes back with the next read.
-/

namespace RustyPotato

open Lib.Stream

/-- What the file system says of the log. After the last of the reads there are no more bytes. -/
inductive AofFile where
  | missing
  | refused (error : String)
  | opened (reads : List (Except String Bytes))

section
variable {σ : Type} (u : CaseMap) (replayFn : ParsedCommand → σ → Except RustyPotatoError Unit × σ)

/-- One call of the callback. An error is logged and no more. -/
def replayOne (s : σ) (cmd : ParsedCommand) : σ := (replayFn cmd s).2

/-- `while let Ok(Some(more)) = codec.decode(&[])`. Without fuel there is no result. -/
def drainLoop : Nat → RespCodec → Nat → σ → Option (RespCodec × Nat × σ)
  | 0, _, _, _ => none
  | fuel + 1, codec, replayed, s =>
    match codec.decode u [] with
    | (.ok (some more), codec) => drainLoop fuel codec (replayed + 1) (replayOne replayFn s more)
    | (_, codec) => some (codec, replayed, s)

/-- `file.read(&mut chunk)`. -/
def nextRead : List (Except String Bytes) →
    Except RustyPotatoError (Bytes × List (Except String Bytes))
  | [] => .ok ([], [])
  | .ok data :: reads => .ok (data, reads)
  | .error e :: _ => .error (.persistenceError ("AOF read failed: " ++ e) true)

/-- The outer loop. -/
def replayLoop : Nat → RespCodec → List (Except String Bytes) → Nat → σ →
    Option (Except RustyPotatoError Nat × σ)
  | 0, _, _, _, _ => none
  | fuel + 1, codec, reads, replayed, s =>
    match nextRead reads with
    | .error e => some (.error e, s)
    | .ok (data, reads) =>
      match codec.decode u data with
      | (.ok (some cmd), codec) =>
        (drainLoop u replayFn fuel codec (replayed + 1) (replayOne replayFn s cmd)).bind fun r =>
          replayLoop fuel r.1 reads r.2.1 r.2.2
      | (.ok none, codec) =>
        if data.length = 0 then some (.ok replayed, s) else replayLoop fuel codec reads replayed s
      | (.error _, _) => some (.ok replayed, s)

def replayAofFile (path : String) (fuel : Nat) (file : AofFile) (s : σ) :
    Option (Except RustyPotatoError Nat × σ) :=
  match file with
  | .missing => some (.ok 0, s)
  | .refused e =>
    some (.error (.persistenceError ("Cannot open AOF " ++ path ++ ": " ++ e) false), s)
  | .opened reads => replayLoop u replayFn fuel .new reads 0 s

/-! ## The inner loop -/

variable (limits : CodecLimits)

/-- It ends, and has handed over what `drainCodec` lists. -/
theorem drainLoop_eq (rounds fuel : Nat) (buffer : Bytes)
    (hcap : buffer.length ≤ limits.maxBufferSize) (hrounds : buffer.length ≤ rounds)
    (hfuel : rounds < fuel) (replayed : Nat) (s : σ) :
    drainLoop u replayFn fuel ⟨buffer, limits⟩ replayed s =
      some ((drainCodec u rounds ⟨buffer, limits⟩).2,
        replayed + (drainCodec u rounds ⟨buffer, limits⟩).1.length,
        (drainCodec u rounds ⟨buffer, limits⟩).1.foldl (replayOne replayFn) s) := by
  have hp := streaming_parseCommand u limits
  have h0 := stuck_nil u limits
  induction rounds generalizing buffer fuel replayed s with
  | zero =>
    obtain ⟨fuel, rfl⟩ : ∃ m, fuel = m + 1 := ⟨fuel - 1, by omega⟩
    obtain rfl := List.eq_nil_of_length_eq_zero (Nat.le_zero.mp hrounds)
    rw [drainLoop, drainCodec, decode_eq u limits [] [] (by simp), List.append_nil]
    cases hparse : parseCommand u limits [] with
    | fail e => rfl
    | more => rfl
    | done cmd rest => exact absurd hparse (h0 cmd rest)
  | succ rounds ih =>
    obtain ⟨fuel, rfl⟩ : ∃ m, fuel = m + 1 := ⟨fuel - 1, by omega⟩
    rw [drainLoop, drainCodec, decode_eq u limits buffer [] (by simpa using hcap), List.append_nil]
    cases hparse : parseCommand u limits buffer with
    | fail e => rfl
    | more => rfl
    | done cmd rest =>
      have hlt := hp.length_lt _ h0 _ _ _ hparse
      simp only
      rw [ih fuel rest (by omega) (by omega) (by omega), List.length_cons, List.foldl_cons]
      congr 3
      omega

/-! ## The outer loop -/

/-- It ends at the end of the file or at an error, and has handed over what `replayFile` lists. -/
theorem replayLoop_eq (chunks : List Bytes) (hchunks : ∀ chunk ∈ chunks, chunk ≠ []) (fuel : Nat)
    (buffer : Bytes) (hstuck : Stuck (parseCommand u limits) buffer)
    (hcap : NoOverflow u ⟨buffer, limits⟩ chunks)
    (hfuel : buffer.length + chunks.flatten.length + chunks.length < fuel) (replayed : Nat)
    (s : σ) :
    replayLoop u replayFn fuel ⟨buffer, limits⟩ (chunks.map .ok) replayed s =
      some (.ok (replayed + (replayFile u ⟨buffer, limits⟩ chunks).length),
        (replayFile u ⟨buffer, limits⟩ chunks).foldl (replayOne replayFn) s) := by
  have hp := streaming_parseCommand u limits
  have h0 := stuck_nil u limits
  induction chunks generalizing buffer fuel replayed s with
  | nil =>
    obtain ⟨fuel, rfl⟩ : ∃ m, fuel = m + 1 := ⟨fuel - 1, by omega⟩
    have hnone := decode_stuck u ⟨buffer, limits⟩ hstuck
    rw [replayFile, replayLoop, List.map_nil, nextRead]
    simp only
    generalize RespCodec.decode u ⟨buffer, limits⟩ [] = r at hnone
    obtain ⟨_ | _ | cmd, codec⟩ := r
    · rfl
    · rfl
    · exact absurd rfl (hnone cmd)
  | cons chunk chunks ih =>
    obtain ⟨fuel, rfl⟩ : ∃ m, fuel = m + 1 := ⟨fuel - 1, by omega⟩
    obtain ⟨hlen, hnext⟩ := hcap
    change buffer.length + chunk.length ≤ limits.maxBufferSize at hlen
    have hchunk : chunk.length ≠ 0 := by simpa using hchunks chunk List.mem_cons_self
    have hothers : ∀ c ∈ chunks, c ≠ [] := fun c hc => hchunks c (List.mem_cons_of_mem _ hc)
    rw [List.flatten_cons, List.length_append, List.length_cons] at hfuel
    rw [decode_eq u limits buffer chunk hlen] at hnext
    rw [replayFile, List.map_cons, replayLoop, nextRead]
    simp only
    rw [decode_eq u limits buffer chunk hlen]
    cases hparse : parseCommand u limits (buffer ++ chunk) with
    | fail e => rfl
    | more =>
      rw [hparse] at hnext
      simp only [if_neg hchunk]
      refine ih hothers fuel _ (by simp [Stuck, hparse]) hnext ?_ replayed s
      rw [List.length_append]
      omega
    | done cmd rest =>
      have hlt := hp.length_lt _ h0 _ _ _ hparse
      rw [List.length_append] at hlt
      obtain ⟨fs, vs, t, hsplit, -, ht, hdrain⟩ := drain_enough _ hp h0 rest
      have hdrained := drainCodec_eq u limits rest.length rest (by omega)
      rw [hdrain _ le_rfl] at hdrained
      simp only [hparse, hdrained] at hnext
      simp only [drainLoop_eq u replayFn limits rest.length fuel rest (by omega) le_rfl (by omega),
        hdrained, Option.bind_some]
      have htail : t.length ≤ rest.length := by rw [hsplit, List.length_append]; omega
      rw [ih hothers fuel t ht hnext (by omega)]
      simp only [List.length_cons, List.length_append, List.foldl_cons, List.foldl_append,
        List.cons_append]
      congr 3
      omega

end

/-! ## A file with a broken tail -/

/-- Nothing, the beginning of a frame, or bytes that start with some that the decoder rejects. -/
def BrokenTail (u : CaseMap) (tail : Bytes) : Prop :=
  tail = [] ∨ (∃ rest cmd, rest ≠ [] ∧ IsFrame u .default (tail ++ rest) cmd) ∨
    ∃ bad rest e, tail = bad ++ rest ∧ parseCommand u .default bad = .fail e

theorem BrokenTail.stuck (u : CaseMap) (tail : Bytes) (h : BrokenTail u tail) :
    Stuck (parseCommand u .default) tail := by
  have hp := streaming_parseCommand u .default
  rcases h with rfl | ⟨rest, cmd, hne, hframe⟩ | ⟨bad, rest, e, rfl, hfail⟩
  · exact stuck_nil u .default
  · exact stuck_of_prefix _ hp tail rest cmd hframe hne
  · intro cmd left hdone
    rw [hp.fail_append _ _ rest hfail] at hdone
    cases hdone

/--
The replay of a file ends. It has called the callback on the command of each complete frame, once
and in order, and on nothing else, and returns their number. It is all the same whether the callback
fails, and how much each read gives as long as the buffer has room for it.
-/
theorem replay_aof_file_valid_prefix {σ : Type} (u : CaseMap)
    (replayFn : ParsedCommand → σ → Except RustyPotatoError Unit × σ) (path : String)
    (frames : List Bytes) (cmds : List ParsedCommand)
    (hframes : List.Forall₂ (IsFrame u .default) frames cmds) (tail : Bytes)
    (htail : BrokenTail u tail) (chunks : List Bytes) (hchunks : ∀ chunk ∈ chunks, chunk ≠ [])
    (hfile : chunks.flatten = frames.flatten ++ tail) (hcap : NoOverflow u .new chunks) (s : σ) :
    ∃ enough, ∀ fuel ≥ enough, replayAofFile u replayFn path fuel (.opened (chunks.map .ok)) s =
      some (.ok frames.length, cmds.foldl (fun s cmd => (replayFn cmd s).2) s) := by
  have h0 := stuck_nil u .default
  have hcmds : replayFile u .new chunks = cmds := by
    rw [RespCodec.new, RespCodec.withLimits, replayFile_eq_feed u .default chunks [] h0 hcap]
    exact feed_eq _ (streaming_parseCommand u .default) h0 chunks
      [] h0 frames cmds tail hframes htail.stuck hfile
  refine ⟨chunks.flatten.length + chunks.length + 1, fun fuel hfuel => ?_⟩
  have hloop := replayLoop_eq u replayFn .default chunks hchunks fuel [] h0 hcap
    (by simp only [List.length_nil]; omega) 0 s
  change replayFile u ⟨[], .default⟩ chunks = cmds at hcmds
  rw [hcmds, ← hframes.length_eq, Nat.zero_add] at hloop
  exact hloop

/--
A callback that fails and keeps what it was called with, on a frame and the first byte of another.
-/
theorem replay_failing_callback :
    ∃ enough, ∀ fuel ≥ enough,
      replayAofFile asciiCaseMap (fun cmd seen => (.error .integerOverflow, seen ++ [cmd])) "aof"
        fuel
          (.opened [.ok (encodeCommand [utf8 "INCR", utf8 "k"] ++ [ch '*'])])
            ([] : List ParsedCommand) =
        some (.ok 1, [⟨"INCR", [utf8 "k"]⟩]) := by
  refine replay_aof_file_valid_prefix asciiCaseMap _ "aof" [encodeCommand [utf8 "INCR", utf8 "k"]]
    [⟨"INCR", [utf8 "k"]⟩] (.cons (by decide +kernel) .nil) [ch '*']
    (.inr (.inl ⟨(encodeCommand [utf8 "PING"]).tail, ⟨"PING", []⟩, ?_, ?_⟩))
    [encodeCommand [utf8 "INCR", utf8 "k"] ++ [ch '*']] ?_ (by simp) ?_ []
  · decide
  · decide +kernel
  · decide
  · refine ⟨by decide, ?_⟩
    split <;> trivial

end RustyPotato
