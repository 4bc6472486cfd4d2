import RustyPotato.Decoding
import RustyPotato.Panic

/-!
# What a client gets for its bytes

The commands of a stream are executed in its order up to the first `QUIT`, each with one reply,
whatever reads it arrives in. Bytes that are no command end the connection with one more reply.
-/

namespace RustyPotato

open Lib.Stream

/-- The commands in the stream, and what is left behind the last of them. -/
def streamCommands (u : CaseMap) (limits : CodecLimits) (bytes : Bytes) :
    List ParsedCommand × Bytes :=
  drain (parseCommand u limits) bytes.length bytes

def ParsedCommand.isQuit (u : CaseMap) (cmd : ParsedCommand) : Bool :=
  u.toUppercase cmd.name == "QUIT"

/-- The commands up to the first `QUIT`, and this one. -/
def upToQuit (u : CaseMap) : List ParsedCommand → List ParsedCommand
  | [] => []
  | cmd :: cmds => if cmd.isQuit u then [cmd] else cmd :: upToQuit u cmds

theorem isTerminal_eq (u : CaseMap) (cmd : ParsedCommand) :
    serverRegistry.isTerminal u cmd.name = cmd.isQuit u := by
  unfold CommandRegistry.isTerminal ParsedCommand.isQuit
  have hfind := CommandRegistry.find_eq_some u serverRegistry (by decide) cmd.name
  cases h : serverRegistry.find u cmd.name with
  | none =>
    have hne : u.toUppercase cmd.name ≠ "QUIT" := by
      intro hquit
      rw [(hfind .quit).mpr ⟨by decide, hquit.symm⟩] at h
      cases h
    simp [hne]
  | some command =>
    obtain ⟨-, hname⟩ := (hfind command).mp h
    rw [← hname]
    cases command <;> rfl

namespace Session

variable (u : CaseMap) (envs : Nat → Env)

/-- Commands one after the other, until one of them ends the session. -/
def executeAll : List (ParsedCommand × Bytes) → Session → Session
  | [], s => s
  | x :: xs, s =>
    let s := execute u envs s x.1 x.2
    if s.status = .running then executeAll xs s else s

/-- No read runs into the limit of the buffer, as long as there are reads. -/
def readsFit : List Bytes → Session → Bool
  | [], _ => true
  | data :: reads, s =>
    decide (s.codec.buffer.length + data.length ≤ s.codec.limits.maxBufferSize) &&
      (decide ((processBuffer u envs data s).finish.status ≠ .running) ||
        readsFit reads (processBuffer u envs data s).finish)

def withCodec (codec : RespCodec) (s : Session) : Session := { s with codec }

/-- The end of the loop, where no command is left. -/
def settle (ending : Except RustyPotatoError Bytes) (s : Session) : Session :=
  match s.status, ending with
  | .running, .error e => { s with status := .failed e }
  | _, _ => s

variable {u envs}

/-! ## The loop and the codec -/

@[simp] theorem withCodec_status (codec : RespCodec) (s : Session) :
    (s.withCodec codec).status = s.status := rfl

@[simp] theorem withCodec_codec (codec : RespCodec) (s : Session) :
    (s.withCodec codec).codec = codec := rfl

@[simp] theorem withCodec_served (codec : RespCodec) (s : Session) :
    (s.withCodec codec).served = s.served := rfl

@[simp] theorem withCodec_out (codec : RespCodec) (s : Session) : (s.withCodec codec).out = s.out :=
  rfl

@[simp] theorem withCodec_withCodec (codec codec' : RespCodec) (s : Session) :
    (s.withCodec codec).withCodec codec' = s.withCodec codec' := rfl

@[simp] theorem execute_withCodec (codec : RespCodec) (s : Session) (cmd : ParsedCommand)
    (frame : Bytes) :
    execute u envs (s.withCodec codec) cmd frame =
      (execute u envs s cmd frame).withCodec codec := by
  unfold execute withCodec
  simp only
  split <;> rfl

theorem executeAll_withCodec (codec : RespCodec) (xs : List (ParsedCommand × Bytes)) (s : Session) :
    executeAll u envs xs (s.withCodec codec) = (executeAll u envs xs s).withCodec codec := by
  induction xs generalizing s with
  | nil => rfl
  | cons x xs ih =>
    simp only [executeAll, execute_withCodec, withCodec_status, ih]
    split_ifs <;> rfl

theorem executeAll_append (xs ys : List (ParsedCommand × Bytes)) (s : Session)
    (hs : s.status = .running) :
    executeAll u envs (xs ++ ys) s =
      if (executeAll u envs xs s).status = .running then executeAll u envs ys
        (executeAll u envs xs s)
      else executeAll u envs xs s := by
  induction xs generalizing s with
  | nil => simp [executeAll, hs]
  | cons x xs ih =>
    rw [List.cons_append, executeAll, executeAll]
    by_cases hx : (execute u envs s x.1 x.2).status = .running
    · simp only [hx, if_true]
      exact ih _ hx
    · simp only [hx, if_false]

theorem serve_found (rounds : Nat) (data frame : Bytes) (s : Session) (cmd : ParsedCommand)
    (codec : RespCodec) (h : s.codec.decodeWithFrame u data = (.ok (some (cmd, frame)), codec)) :
    serve u envs (rounds + 1) data s =
      if (execute u envs s cmd frame).status = .running then
        serve u envs rounds [] ((execute u envs s cmd frame).withCodec codec)
      else (execute u envs s cmd frame).withCodec codec := by
  rw [serve, h]
  change (if (execute u envs (s.withCodec codec) cmd frame).status = .running then
    serve u envs rounds [] (execute u envs (s.withCodec codec) cmd frame)
    else execute u envs (s.withCodec codec) cmd frame) = _
  simp only [execute_withCodec, withCodec_status]

theorem settle_withCodec (ending : Except RustyPotatoError Bytes) (codec : RespCodec)
    (s : Session) : (s.withCodec codec).settle ending = (s.settle ending).withCodec codec := by
  unfold settle withCodec
  simp only
  split <;> rfl

theorem finish_withCodec (codec : RespCodec) (s : Session) :
    (s.withCodec codec).finish = s.finish.withCodec codec := by
  unfold finish withCodec
  simp only
  split <;> rfl

theorem finish_status (s : Session) : s.finish.status = s.status := by
  unfold finish
  split
  · simp [*]
  · rfl

theorem finish_served (s : Session) : s.finish.served = s.served := by
  unfold finish
  split <;> rfl

theorem settle_served (ending : Except RustyPotatoError Bytes) (s : Session) :
    (s.settle ending).served = s.served := by
  unfold settle
  split <;> rfl

theorem finish_running (s : Session) (h : s.status = .running) : s.finish = s := by
  unfold finish
  rw [h]

theorem settle_ok (tail : Bytes) (s : Session) : s.settle (.ok tail) = s := by
  unfold settle
  split
  · simp_all
  · rfl

theorem settle_stopped (ending : Except RustyPotatoError Bytes) (s : Session)
    (h : s.status ≠ .running) : s.settle ending = s := by
  unfold settle
  split
  · exact absurd (by assumption) h
  · rfl

/-- The loop executes the commands that are complete, as long as it runs. -/
theorem serve_eq (limits : CodecLimits) (frames : List Bytes) (cmds : List ParsedCommand)
    (tail : Bytes) (hframes : Frames (parseCommand u limits) frames cmds)
    (htail : Stuck (parseCommand u limits) tail) (s : Session) (buffer data : Bytes)
    (hs : s.status = .running) (hcodec : s.codec = ⟨buffer, limits⟩)
    (hcap : buffer.length + data.length ≤ limits.maxBufferSize)
    (h : buffer ++ data = frames.flatten ++ tail) (rounds : Nat)
    (hrounds : frames.length < rounds) :
    ∃ codec, serve u envs rounds data s =
        ((executeAll u envs (cmds.zip frames) s).settle (RespCodec.ending u limits tail)).withCodec
          codec ∧
      ((executeAll u envs (cmds.zip frames) s).status = .running → codec = ⟨tail, limits⟩) := by
  induction hframes generalizing s buffer data rounds with
  | nil =>
    obtain ⟨rounds, rfl⟩ : ∃ n, rounds = n + 1 := ⟨rounds - 1, by omega⟩
    rw [List.flatten_nil, List.nil_append] at h
    refine ⟨⟨tail, limits⟩, ?_, fun _ => rfl⟩
    rw [serve, hcodec, RespCodec.decodeWithFrame_eq limits buffer data hcap, h, RespCodec.ending]
    cases hparse : parseCommand u limits tail with
    | done cmd rest => exact absurd hparse (htail cmd rest)
    | more => simp [executeAll, settle, withCodec, hs]
    | fail e => simp [executeAll, settle, withCodec, hs]
  | @cons frame cmd frames cmds hframe _ ih =>
    obtain ⟨rounds, rfl⟩ : ∃ n, rounds = n + 1 := ⟨rounds - 1, by omega⟩
    have hlen := congrArg List.length h
    rw [List.flatten_cons, List.append_assoc] at h
    simp only [List.flatten_cons, List.length_append] at hlen
    have hdecode : s.codec.decodeWithFrame u data =
        (.ok (some (cmd, frame)), ⟨frames.flatten ++ tail, limits⟩) := by
      rw [hcodec]
      exact RespCodec.decodeWithFrame_whole limits frame _ cmd hframe buffer data hcap h
    rw [serve_found rounds data frame s cmd _ hdecode, List.zip_cons_cons, executeAll]
    by_cases hx : (execute u envs s cmd frame).status = .running
    · simp only [hx, if_true]
      obtain ⟨codec, hserve, hend⟩ := ih ((execute u envs s cmd frame).withCodec
        ⟨frames.flatten ++ tail, limits⟩) (frames.flatten ++ tail) [] hx rfl (by
          rw [List.length_append, List.length_nil]; omega) (by simp) rounds
        (by simpa using hrounds)
      rw [executeAll_withCodec, settle_withCodec] at hserve
      rw [executeAll_withCodec] at hend
      exact ⟨codec, hserve, hend⟩
    · simp only [hx, if_false]
      refine ⟨⟨frames.flatten ++ tail, limits⟩, ?_, fun hr => hr.elim⟩
      rw [settle_stopped _ _ hx]

/-! ## The reads -/

theorem handle_stopped (reads : List Bytes) (s : Session) (h : s.status ≠ .running) :
    handle u envs reads s = s := by
  induction reads with
  | nil => rfl
  | cons data reads ih =>
    rw [handle, List.foldl_cons, if_neg h]
    exact ih

theorem handle_cons (data : Bytes) (reads : List Bytes) (s : Session) (h : s.status = .running) :
    handle u envs (data :: reads) s = handle u envs reads (processBuffer u envs data s).finish := by
  rw [handle, List.foldl_cons, if_pos h]
  rfl

theorem executeAll_stopped (xs ys : List (ParsedCommand × Bytes)) (s : Session)
    (hs : s.status = .running) (h : (executeAll u envs xs s).status ≠ .running) :
    executeAll u envs (xs ++ ys) s = executeAll u envs xs s := by
  rw [executeAll_append xs ys s hs, if_neg h]

theorem processBuffer_eq (limits : CodecLimits) (s : Session) (buffer data : Bytes)
    (hs : s.status = .running) (hcodec : s.codec = ⟨buffer, limits⟩)
    (hcap : buffer.length + data.length ≤ limits.maxBufferSize) :
    ∃ fs cs t codec, buffer ++ data = fs.flatten ++ t ∧ Frames (parseCommand u limits) fs cs ∧
      Stuck (parseCommand u limits) t ∧
      processBuffer u envs data s =
        ((executeAll u envs (cs.zip fs) s).settle (RespCodec.ending u limits t)).withCodec codec ∧
      ((executeAll u envs (cs.zip fs) s).status = .running → codec = ⟨t, limits⟩) := by
  have h0 := stuck_nil u limits
  obtain ⟨fs, cs, t, hsplit, hfs, ht⟩ := exists_frames _ (streaming_parseCommand u limits) h0
    (buffer ++ data)
  have hrounds : fs.length < s.codec.buffer.length + data.length + 1 := by
    have hle := length_le_flatten fs (frames_ne_nil _ h0 fs cs hfs)
    have hlen := congrArg List.length hsplit
    simp only [List.length_append] at hlen
    rw [hcodec]
    simp only
    omega
  obtain ⟨codec, hserve, hend⟩ :=
    @serve_eq u envs limits fs cs t hfs ht s buffer data hs hcodec hcap hsplit _ hrounds
  exact ⟨fs, cs, t, codec, hsplit, hfs, ht, hserve, hend⟩

/-- Whatever the reads are, the session is that of the commands in the stream. -/
theorem handle_eq (limits : CodecLimits) (reads : List Bytes) (s : Session) (buffer : Bytes)
    (hs : s.status = .running) (hcodec : s.codec = ⟨buffer, limits⟩)
    (hbuffer : parseCommand u limits buffer = .more) (hfit : readsFit u envs reads s = true)
    (frames : List Bytes) (cmds : List ParsedCommand) (tail : Bytes)
    (hframes : Frames (parseCommand u limits) frames cmds)
    (htail : Stuck (parseCommand u limits) tail)
    (h : buffer ++ reads.flatten = frames.flatten ++ tail) :
    ∃ codec, handle u envs reads s =
      ((executeAll u envs (cmds.zip frames) s).settle
        (RespCodec.ending u limits tail)).finish.withCodec codec := by
  have hp := streaming_parseCommand u limits
  have h0 := stuck_nil u limits
  induction reads generalizing s buffer frames cmds with
  | nil =>
    have hstuck : Stuck (parseCommand u limits) buffer := by simp [Stuck, hbuffer]
    rw [List.flatten_nil, List.append_nil] at h
    obtain ⟨rfl, rfl, rfl⟩ := frames_of_stuck _ hp buffer hstuck frames cmds tail hframes htail h
    refine ⟨s.codec, ?_⟩
    simp only [RespCodec.ending, hbuffer, settle_ok, List.zip_nil_left, executeAll]
    rw [finish_running _ hs]
    rfl
  | cons data reads ih =>
    rw [readsFit, Bool.and_eq_true, hcodec] at hfit
    obtain ⟨hcap, hnext⟩ := hfit
    have hcap : buffer.length + data.length ≤ limits.maxBufferSize := of_decide_eq_true hcap
    obtain ⟨fs, cs, t, codec, hsplit, hfs, ht, hserve, hend⟩ :=
      @processBuffer_eq u envs limits s buffer data hs hcodec hcap
    have hwhole : fs.flatten ++ (t ++ reads.flatten) = frames.flatten ++ tail := by
      rw [← h, List.flatten_cons, ← List.append_assoc buffer, hsplit, List.append_assoc]
    rw [handle_cons data reads s hs]
    rw [hserve, finish_withCodec] at hnext ⊢
    obtain ⟨gs, ds, rfl, rfl, hds, hgs⟩ :=
      frames_split _ hp h0 frames fs cmds cs tail _ hframes htail hfs hwhole
    rw [RespCodec.zip_append fs gs cs ds limits hfs]
    by_cases hrun : (executeAll u envs (cs.zip fs) s).status = .running
    · cases hparse : parseCommand u limits t with
      | done cmd rest => exact absurd hparse (ht cmd rest)
      | more =>
        simp only [RespCodec.ending, hparse, settle_ok, finish_running _ hrun] at hnext ⊢
        obtain rfl := hend hrun
        have hrest : readsFit u envs reads
            ((executeAll u envs (cs.zip fs) s).withCodec ⟨t, limits⟩) = true := by
          simpa [hrun] using hnext
        obtain ⟨codec', hhandle⟩ :=
          ih ((executeAll u envs (cs.zip fs) s).withCodec ⟨t, limits⟩) t hrun rfl hparse hrest gs ds
            hds hgs
        refine ⟨codec', ?_⟩
        rw [hhandle, executeAll_append _ _ s hs, if_pos hrun, executeAll_withCodec,
          settle_withCodec, finish_withCodec, withCodec_withCodec]
        rfl
      | fail e =>
        -- The reads that follow are not made, and would not help.
        have hfail := hp.fail_append _ _ reads.flatten hparse
        have hstuck : Stuck (parseCommand u limits) (t ++ reads.flatten) := by simp [Stuck, hfail]
        obtain ⟨rfl, rfl, rfl⟩ := frames_of_stuck _ hp _ hstuck gs ds tail hds htail hgs
        simp only [RespCodec.ending, hparse, hfail, List.zip_nil_left, List.append_nil]
        refine ⟨codec, handle_stopped reads _ ?_⟩
        rw [withCodec_status, finish_status]
        simp [settle, hrun]
    · -- After `QUIT` the rest is not looked at.
      rw [executeAll_stopped _ _ s hs hrun, settle_stopped _ _ hrun, settle_stopped _ _ hrun]
      refine ⟨codec, handle_stopped reads _ ?_⟩
      rw [withCodec_status, finish_status]
      exact hrun

/-! ## One reply for each command -/

/-- The commands have room for their deadlines at the clocks they are executed at. -/
def HasRoom (u : CaseMap) (envs : Nat → Env) (start : Nat) (cmds : List ParsedCommand) : Prop :=
  ∀ i cmd, cmds[i]? = some cmd → ∀ n, cmd.seconds u = some n → (envs (start + i)).clock.HasRoom n

theorem HasRoom.tail (start : Nat) (cmd : ParsedCommand) (cmds : List ParsedCommand)
    (h : HasRoom u envs start (cmd :: cmds)) : HasRoom u envs (start + 1) cmds := by
  intro i c hc
  have := h (i + 1) c hc
  rwa [← Nat.add_assoc, Nat.add_right_comm] at this

theorem HasRoom.of_untimed (start : Nat) (cmds : List ParsedCommand)
    (h : cmds.all (fun cmd => (cmd.seconds u).isNone) = true) : HasRoom u envs start cmds := by
  intro i cmd hcmd n hn
  have hnone := List.all_eq_true.mp h cmd (List.mem_of_getElem? hcmd)
  simp [hn] at hnone

theorem execute_some (s : Session) (cmd : ParsedCommand) (frame : Bytes)
    (hroom : ∀ n, cmd.seconds u = some n → (envs s.served.length).clock.HasRoom n) :
    ∃ x : Served, x.cmd = cmd ∧ x.frame = frame ∧
      (execute u envs s cmd frame).served = s.served ++ [x] ∧
      (execute u envs s cmd frame).out = s.out ++ [sendResponse x.result] ∧
      (execute u envs s cmd frame).status = if cmd.isQuit u then .closed else .running := by
  obtain ⟨steps, hsteps⟩ :=
    Option.ne_none_iff_exists'.mp (serverRegistry_plan_ne_none u _ cmd hroom)
  have hfollows := serverRegistry.execute_follows u (envs s.served.length) cmd
  rw [hsteps] at hfollows
  obtain ⟨result, hrun⟩ := hfollows s.store
  unfold execute
  simp only [hrun]
  exact ⟨⟨_, cmd, frame, result, _⟩, rfl, rfl, rfl, rfl, by rw [isTerminal_eq]⟩

theorem executeAll_served (xs : List (ParsedCommand × Bytes)) (s : Session)
    (hs : s.status = .running)
    (hroom : HasRoom u envs s.served.length (upToQuit u (xs.map Prod.fst))) :
    ∃ ys, (executeAll u envs xs s).served = s.served ++ ys ∧
      ys.map Served.cmd = upToQuit u (xs.map Prod.fst) ∧
      (executeAll u envs xs s).out = s.out ++ ys.map (fun y => sendResponse y.result) ∧
      (executeAll u envs xs s).status =
        if xs.any (fun x => x.1.isQuit u) then .closed else .running := by
  induction xs generalizing s with
  | nil => exact ⟨[], by simp [executeAll], rfl, by simp [executeAll], by simp [executeAll, hs]⟩
  | cons x xs ih =>
    have hfirst : ∀ n, x.1.seconds u = some n → (envs s.served.length).clock.HasRoom n := by
      refine hroom 0 x.1 ?_
      rw [List.map_cons, upToQuit]
      split_ifs <;> rfl
    obtain ⟨y, hcmd, -, hserved, hout, hstatus⟩ := execute_some s x.1 x.2 hfirst
    rw [List.map_cons, upToQuit] at hroom ⊢
    by_cases hquit : x.1.isQuit u = true
    · rw [if_pos hquit] at hstatus ⊢
      have hlast : executeAll u envs (x :: xs) s = execute u envs s x.1 x.2 := by
        simp [executeAll, hstatus]
      rw [hlast]
      exact ⟨[y], hserved, by simp [hcmd], by simp [hout], by simp [hstatus, hquit]⟩
    · rw [if_neg hquit] at hstatus hroom ⊢
      have hnext : executeAll u envs (x :: xs) s = executeAll u envs xs (execute u envs s x.1
        x.2) := by
        simp [executeAll, hstatus]
      obtain ⟨ys, hys, hcmds, houts, hend⟩ := ih (execute u envs s x.1 x.2) hstatus (by
        rw [hserved, List.length_append]
        exact hroom.tail _ _ _)
      rw [hnext]
      refine ⟨y :: ys, by simp [hys, hserved], by simp [hcmd, hcmds], by simp [houts, hout], ?_⟩
      rw [hend, List.any_cons, eq_false_of_ne_true hquit, Bool.false_or]

end Session

/--
A connection executes the commands of its stream in order up to the first `QUIT` and writes one
reply for each, whatever reads the stream comes in. If it comes to bytes that are no command, it
writes one reply more.
-/
theorem handleConnection_pipelines (u : CaseMap) (limits : CodecLimits) (envs : Nat → Env)
    (reads : List Bytes) (store : MemoryStore)
    (hfit : Session.readsFit u envs reads (.start limits store) = true)
    (hroom : Session.HasRoom u envs 0 (upToQuit u (streamCommands u limits reads.flatten).1))
    (s : Session) (hs : s = handleConnection u limits envs reads store) :
    s.served.map Served.cmd = upToQuit u (streamCommands u limits reads.flatten).1 ∧
      Session.Chain u store s.served s.store ∧
      if (streamCommands u limits reads.flatten).1.any (ParsedCommand.isQuit u) then
        s.status = .closed ∧ s.out = s.served.map fun x => sendResponse x.result
      else
        match parseCommand u limits (streamCommands u limits reads.flatten).2 with
        | .fail e =>
          s.status = .failed e ∧
            s.out = (s.served.map fun x => sendResponse x.result) ++
            [encodeError "ERR internal server error"]
        | _ => s.status = .running ∧ s.out = s.served.map fun x => sendResponse x.result := by
  have hp := streaming_parseCommand u limits
  have h0 := stuck_nil u limits
  have hchain := (handleConnection_follows u limits envs reads store).chain
  obtain ⟨frames, cmds, tail, hsplit, hframes, htail, hdrain⟩ := drain_enough _ hp h0 reads.flatten
  have hstream : streamCommands u limits reads.flatten = (cmds, tail) := hdrain _ le_rfl
  rw [hstream] at hroom ⊢
  obtain ⟨codec, hhandle⟩ := Session.handle_eq limits reads (.start limits store) [] rfl rfl
    (parseCommand_nil u limits) hfit frames cmds tail hframes htail hsplit
  have hcmds : (cmds.zip frames).map Prod.fst = cmds := List.map_fst_zip hframes.length_eq.ge
  obtain ⟨ys, hserved, hys, hout, hstatus⟩ :=
    Session.executeAll_served (cmds.zip frames) (.start limits store) rfl
      (by rw [hcmds]; exact hroom)
  rw [hcmds] at hys
  have hany : (cmds.zip frames).any (fun x => x.1.isQuit u) =
      cmds.any (ParsedCommand.isQuit u) := by
    conv_rhs => rw [← hcmds, List.any_map]
    rfl
  rw [hany] at hstatus
  rw [hs]
  generalize Session.executeAll u envs (cmds.zip frames) (.start limits store) = last at *
  have hserved : last.served = ys := hserved
  have hout : last.out = ys.map fun y => sendResponse y.result := hout
  have hall : (handleConnection u limits envs reads store).served = ys := by
    rw [handleConnection, hhandle, Session.withCodec_served, Session.finish_served,
      Session.settle_served, hserved]
  refine ⟨by rw [hall, hys], hchain, ?_⟩
  rw [hall, handleConnection, hhandle]
  simp only [Session.withCodec_status, Session.withCodec_out]
  by_cases hquit : cmds.any (ParsedCommand.isQuit u) = true
  · rw [if_pos hquit] at hstatus ⊢
    rw [Session.settle_stopped _ _ (by simp [hstatus]), Session.finish]
    simp only [hstatus]
    exact ⟨trivial, hout⟩
  · rw [if_neg hquit] at hstatus ⊢
    unfold RespCodec.ending
    cases hparse : parseCommand u limits tail with
    | done cmd rest => exact absurd hparse (htail cmd rest)
    | more =>
      simp only [Session.settle_ok, Session.finish_running _ hstatus]
      exact ⟨hstatus, hout⟩
    | fail e =>
      simp only [Session.settle, hstatus, Session.finish, hout]
      exact ⟨trivial, rfl⟩

/-- Three commands in one read, with `QUIT` in the middle. -/
def quitBetween : Bytes :=
  encodeCommand [utf8 "PING"] ++ encodeCommand [utf8 "quit"] ++ encodeCommand [utf8 "PING"]

theorem quitBetween_pipelines :
    ((handleConnection asciiCaseMap .default (fun _ => .sample) [quitBetween] .new).served.map
      Served.cmd).length = 2 := by
  rw [(handleConnection_pipelines asciiCaseMap .default (fun _ => .sample) [quitBetween] .new
    (by decide +kernel) (.of_untimed _ _ (by decide +kernel)) _ rfl).1]
  decide +kernel

/--
A deadline behind the end of the monotonic clock stops the task: neither command gets a reply.
-/
theorem handleConnection_panics :
    ∃ reads, Session.readsFit asciiCaseMap (fun _ => .sample) reads (.start .default .new) = true ∧
      (streamCommands asciiCaseMap .default reads.flatten).1.length = 2 ∧
      (handleConnection asciiCaseMap .default (fun _ => .sample) reads .new).status = .panicked ∧
      (handleConnection asciiCaseMap .default (fun _ => .sample) reads .new).out = [] :=
  ⟨[encodeCommand [utf8 "EXPIRE", utf8 "k", utf8 "9223372036854775807"] ++ encodeCommand
    [utf8 "PING"]], by decide +kernel, by decide +kernel, by decide +kernel, by decide +kernel⟩

end RustyPotato
