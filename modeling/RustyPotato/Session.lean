import RustyPotato.Frame

/-!
# One connection (`network/server.rs`)

`process_buffer` takes every complete command out of what has arrived, executes it, logs its frame
if the command is a mutation and was accepted, and writes its reply. What has been served is kept
here as a trace. The writes to the socket do not fail here: a reply that cannot be sent ends the
connection after the command was logged.
-/

namespace RustyPotato

/-- A command that was executed, with the store it left. -/
structure Served where
  env : Env
  cmd : ParsedCommand
  frame : Bytes
  result : Except String ResponseValue
  after : MemoryStore

def Served.isOk (x : Served) : Prop := x.result.toOption.isSome = true

instance (x : Served) : Decidable x.isOk := inferInstanceAs (Decidable (_ = true))

theorem Served.isOk.exists_ok (x : Served) (h : x.isOk) : ∃ v, x.result = .ok v := by
  unfold isOk at h
  cases hr : x.result with
  | ok v => exact ⟨v, rfl⟩
  | error e =>
    rw [hr] at h
    cases h

/-- `is_ok && command_registry.is_mutation(..)`. -/
def Served.isLogged (u : CaseMap) (x : Served) : Bool :=
  match x.result with
  | .ok _ => serverRegistry.isMutation u x.cmd.name
  | .error _ => false

inductive SessionStatus where
  | running
  | closed
  | failed (e : RustyPotatoError)
  | panicked
deriving DecidableEq

structure Session where
  codec : RespCodec
  store : MemoryStore
  served : List Served
  log : List Bytes
  /-- What was written to the socket, write by write. -/
  out : List Bytes
  status : SessionStatus

/-- The bytes that `send_response` writes. -/
def sendResponse : Except String ResponseValue → Bytes
  | .ok value => (RespCodec.new.encode value).1
  | .error message => encodeError message

namespace Session

variable (u : CaseMap) (envs : Nat → Env)

def start (limits : CodecLimits) (store : MemoryStore) : Session where
  codec := .withLimits limits
  store := store
  served := []
  log := []
  out := []
  status := .running

def execute (s : Session) (cmd : ParsedCommand) (frame : Bytes) : Session :=
  let env := envs s.served.length
  match (serverRegistry.execute u env cmd).run s.store with
  | none => { s with status := .panicked }
  | some (result, after) =>
    let x : Served := { env, cmd, frame, result, after }
    { s with
      store := after
      served := s.served ++ [x]
      log := if x.isLogged u then s.log ++ [frame] else s.log
      out := s.out ++ [sendResponse result]
      status := if serverRegistry.isTerminal u cmd.name then .closed else .running }

/-- The loop of `process_buffer`. Only its first round has data to feed. -/
def serve : Nat → Bytes → Session → Session
  | 0, _, s => s
  | rounds + 1, data, s =>
    match s.codec.decodeWithFrame u data with
    | (.ok (some (cmd, frame)), codec) =>
      let s := execute u envs { s with codec } cmd frame
      if s.status = .running then serve rounds [] s else s
    | (.ok none, codec) => { s with codec }
    | (.error e, codec) => { s with codec, status := .failed e }

/-- A command takes at least one byte, so the rounds are enough: see `serve_rounds`. -/
def processBuffer (data : Bytes) (s : Session) : Session :=
  serve u envs (s.codec.buffer.length + data.length + 1) data s

/-- What the client is told about an error of `process_buffer`, which has wrapped it. -/
def errorReply (e : RustyPotatoError) : Bytes :=
  let wrapped : RustyPotatoError := .protocolError e.display
  if wrapped.isClientError then
    encodeError wrapped.toClientError
  else encodeError "ERR internal server error"

/-- After an error the connection is closed with a last reply. -/
def finish (s : Session) : Session :=
  match s.status with
  | .failed e => { s with out := s.out ++ [errorReply e] }
  | _ => s

/-- The reads of one connection, until it is closed. -/
def handle (reads : List Bytes) (s : Session) : Session :=
  reads.foldl (fun s data =>
    if s.status = .running then (processBuffer u envs data s).finish else s) s

end Session

def handleConnection (u : CaseMap) (limits : CodecLimits) (envs : Nat → Env) (reads : List Bytes)
    (store : MemoryStore) : Session := Session.handle u envs reads (.start limits store)

/-! ## What a codec hands over is a frame -/

theorem RespCodec.decodeWithFrame_some (u : CaseMap) (codec codec' : RespCodec) (data frame : Bytes)
    (cmd : ParsedCommand) (h : codec.decodeWithFrame u data = (.ok (some (cmd, frame)), codec')) :
    IsFrame u codec.limits frame cmd ∧ codec'.limits = codec.limits ∧
      codec.buffer ++ data = frame ++ codec'.buffer := by
  unfold decodeWithFrame at h
  split_ifs at h
  · cases h
  · simp only at h
    split at h
    · rename_i c rest hparse
      cases h
      obtain ⟨used, hsplit, hused⟩ :=
        (streaming_parseCommand u codec.limits).done_split _ _ _ hparse
      have htake : (codec.buffer ++
        data).take ((codec.buffer ++ data).length - rest.length) = used := by
        rw [hsplit]
        simp
      exact ⟨by rw [htake]; exact hused, rfl, by rw [htake]; exact hsplit⟩
    · cases h
    · cases h

theorem RespCodec.decodeWithFrame_limits (u : CaseMap) (codec : RespCodec) (data : Bytes) :
    (codec.decodeWithFrame u data).2.limits = codec.limits := by
  unfold decodeWithFrame
  simp only
  split_ifs
  · rfl
  · split <;> rfl

theorem frame_ne_nil (u : CaseMap) (limits : CodecLimits) (frame : Bytes) (cmd : ParsedCommand)
    (h : IsFrame u limits frame cmd) : frame ≠ [] := by
  rintro rfl
  exact stuck_nil u limits cmd [] h

namespace Session

variable (u : CaseMap) (envs : Nat → Env)

@[simp] theorem execute_codec (s : Session) (cmd : ParsedCommand) (frame : Bytes) :
    (execute u envs s cmd frame).codec = s.codec := by
  unfold execute
  simp only
  split <;> rfl

/-- The loop has stopped by itself when the rounds are over. -/
theorem serve_rounds (rounds : Nat) (data : Bytes) (s : Session)
    (h : s.codec.buffer.length + data.length < rounds) :
    serve u envs (rounds + 1) data s = serve u envs rounds data s := by
  induction rounds generalizing data s with
  | zero => omega
  | succ rounds ih =>
    rw [serve, serve]
    split
    · rename_i cmd frame codec hdecode
      obtain ⟨hframe, -, hsplit⟩ := RespCodec.decodeWithFrame_some u _ _ _ _ _ hdecode
      have hpos := List.length_pos_of_ne_nil (frame_ne_nil u _ frame cmd hframe)
      have hlen := congrArg List.length hsplit
      simp only [List.length_append] at hlen
      simp only
      rw [ih [] _ (by rw [execute_codec, List.length_nil]; simp only; omega)]
    · rfl
    · rfl

/-! ## The trace -/

/-- The commands were executed one after the other. -/
def Chain : MemoryStore → List Served → MemoryStore → Prop
  | s, [], s' => s' = s
  | s, x :: xs, s' =>
    (serverRegistry.execute u x.env x.cmd).run s = some (x.result, x.after) ∧ Chain x.after xs s'

theorem Chain.append (s s' : MemoryStore) (xs : List Served) (x : Served) (h : Chain u s xs s')
    (hx : (serverRegistry.execute u x.env x.cmd).run s' = some (x.result, x.after)) :
    Chain u s (xs ++ [x]) x.after := by
  induction xs generalizing s with
  | nil =>
    obtain rfl : s' = s := h
    exact ⟨hx, rfl⟩
  | cons y ys ih => exact ⟨h.1, ih y.after h.2⟩

/-- What a session has done so far, from the store it found. -/
structure Follows (limits : CodecLimits) (store : MemoryStore) (s : Session) : Prop where
  limits_eq : s.codec.limits = limits
  chain : Chain u store s.served s.store
  log_eq : s.log = (s.served.filter (Served.isLogged u)).map Served.frame
  frames : ∀ x ∈ s.served, IsFrame u limits x.frame x.cmd

section
variable (limits : CodecLimits) (store : MemoryStore)

theorem follows_start : Follows u limits store (.start limits store) where
  limits_eq := rfl
  chain := rfl
  log_eq := rfl
  frames := by simp [start]

theorem Follows.execute (s : Session) (h : Follows u limits store s) (cmd : ParsedCommand)
    (frame : Bytes) (hframe : IsFrame u limits frame cmd) :
    Follows u limits store (execute u envs s cmd frame) := by
  unfold Session.execute
  simp only
  split
  · exact ⟨h.limits_eq, h.chain, h.log_eq, h.frames⟩
  · rename_i result after hrun
    refine ⟨h.limits_eq, h.chain.append u _ _ _ ⟨_, cmd, frame, result, after⟩ hrun, ?_, ?_⟩
    · simp only [h.log_eq, List.filter_append, List.map_append]
      split_ifs with hlogged <;> simp [hlogged]
    · intro x hx
      rcases List.mem_append.mp hx with hx | hx
      · exact h.frames x hx
      · rw [List.mem_singleton.mp hx]
        exact hframe

theorem Follows.serve (rounds : Nat) (data : Bytes) (s : Session) (h : Follows u limits store s) :
    Follows u limits store (serve u envs rounds data s) := by
  induction rounds generalizing data s with
  | zero => exact h
  | succ rounds ih =>
    have hcodec : ∀ codec : RespCodec, codec.limits = limits → ∀ status,
        Follows u limits store { s with codec, status } :=
      fun codec hl status => ⟨hl, h.chain, h.log_eq, h.frames⟩
    have hlimits : (s.codec.decodeWithFrame u data).2.limits = limits := by
      rw [s.codec.decodeWithFrame_limits u data, h.limits_eq]
    rw [Session.serve]
    split
    · rename_i cmd frame codec hdecode
      obtain ⟨hframe, hl, -⟩ := RespCodec.decodeWithFrame_some u _ _ _ _ _ hdecode
      rw [h.limits_eq] at hframe hl
      have hnext := Follows.execute u envs limits store _ (hcodec codec hl
        s.status) cmd frame hframe
      simp only
      split_ifs
      · exact ih [] _ hnext
      · exact hnext
    · rename_i codec hdecode
      rw [hdecode] at hlimits
      exact hcodec codec hlimits s.status
    · rename_i e codec hdecode
      rw [hdecode] at hlimits
      exact hcodec codec hlimits (.failed e)

theorem Follows.finish (s : Session) (h : Follows u limits store s) :
    Follows u limits store s.finish := by
  unfold Session.finish
  split
  · exact ⟨h.limits_eq, h.chain, h.log_eq, h.frames⟩
  · exact h

theorem Follows.handle (reads : List Bytes) (s : Session) (h : Follows u limits store s) :
    Follows u limits store (handle u envs reads s) := by
  induction reads generalizing s with
  | nil => exact h
  | cons data reads ih =>
    refine ih _ ?_
    simp only
    split_ifs
    · exact (h.serve u envs limits store _ data s).finish u limits store
    · exact h

end

end Session

theorem handleConnection_follows (u : CaseMap) (limits : CodecLimits) (envs : Nat → Env)
    (reads : List Bytes) (store : MemoryStore) :
    Session.Follows u limits store (handleConnection u limits envs reads store) :=
  (Session.follows_start u limits store).handle u envs limits store reads _

end RustyPotato
