import RustyPotato.Lib.Machine
import RustyPotato.Pipelining

/-!
# The client on the other end (`cli/client.rs`)

`execute_command` sends a command and reads until it has one value. Client and server share a
connection that cuts both streams as it likes and may break. A call that returns a value returns the
reply to its own command, and while the connection holds every call returns one.
-/

namespace RustyPotato

open Lib.Machine Lib.Stream

/-! ## What the client makes of a reply -/

mutual

/-- `convert_resp_to_response`. -/
def convertRespToResponse : RespValue → ResponseValue
  | .simpleString s => .simpleString s
  | .bulkString b => .bulkString b
  | .integer i => .integer i.val
  | .array elements => .array (convertAll elements)
  | .error message => .simpleString ("ERR " ++ message)

def convertAll : List RespValue → List ResponseValue
  | [] => []
  | w :: ws => convertRespToResponse w :: convertAll ws

end

mutual

/-- `format_response`. -/
def formatResponse : ResponseValue → String
  | .simpleString s => s
  | .bulkString (some b) => fromUtf8Lossy b
  | .bulkString none => "(nil)"
  | .nil => "(nil)"
  | .integer i => "(integer) " ++ toString i
  | .array [] => "(empty array)"
  | .array (v :: vs) => "\n".intercalate (formatItems 1 (v :: vs))

def formatItems : Nat → List ResponseValue → List String
  | _, [] => []
  | n, v :: vs => (toString n ++ ") " ++ formatResponse v) :: formatItems (n + 1) vs

end

mutual

/--
The value that the client has in the end. The two ways to say that there is none are one on the
wire.
-/
def ResponseValue.received : ResponseValue → ResponseValue
  | .nil => .bulkString none
  | .array elements => .array (receivedAll elements)
  | v => v

def ResponseValue.receivedAll : List ResponseValue → List ResponseValue
  | [] => []
  | v :: vs => v.received :: receivedAll vs

end

mutual

theorem convert_decoded (v : ResponseValue) (w : RespValue) (h : v.decoded = some w) :
    convertRespToResponse w = v.received := by
  match v with
  | .simpleString _ | .bulkString (some _) | .bulkString none | .nil =>
    cases h
    rfl
  | .integer i =>
    obtain ⟨n, hn, rfl⟩ := Option.map_eq_some_iff.mp h
    unfold I64.ofInt? at hn
    split_ifs at hn
    cases hn
    rfl
  | .array vs =>
    obtain ⟨ws, hws, rfl⟩ := Option.map_eq_some_iff.mp h
    simp only [convertRespToResponse, ResponseValue.received, convertAll_decoded vs ws hws]

theorem convertAll_decoded (vs : List ResponseValue) (ws : List RespValue)
    (h : ResponseValue.decodedAll vs = some ws) : convertAll ws = ResponseValue.receivedAll vs := by
  match vs with
  | [] =>
    cases h
    rfl
  | v :: vs =>
    obtain ⟨w, hw, hrest⟩ := Option.bind_eq_some_iff.mp h
    obtain ⟨ws, hws, rfl⟩ := Option.map_eq_some_iff.mp hrest
    simp only [convertAll, ResponseValue.receivedAll, convert_decoded v w hw,
      convertAll_decoded vs ws hws]

end

mutual

theorem formatResponse_received (v : ResponseValue) :
    formatResponse v.received = formatResponse v := by
  match v with
  | .simpleString _ | .bulkString (some _) | .bulkString none | .nil | .integer _ | .array [] => rfl
  | .array (v :: vs) =>
    have := formatItems_received 1 (v :: vs)
    simp only [ResponseValue.receivedAll] at this
    simp only [ResponseValue.received, ResponseValue.receivedAll, formatResponse, this]

theorem formatItems_received (n : Nat) (vs : List ResponseValue) :
    formatItems n (ResponseValue.receivedAll vs) = formatItems n vs := by
  match vs with
  | [] => rfl
  | v :: vs =>
    simp only [ResponseValue.receivedAll, formatItems, formatResponse_received v,
      formatItems_received (n + 1) vs]

end

/-- The codec of a client reads the reply as one value. -/
def Legible (result : Except String ResponseValue) : Prop :=
  (sendResponse result).length ≤ CodecLimits.default.maxBufferSize ∧
    match result with
    | .ok v => v.fits .default = true
    | .error message => ¬ crlf <:+: utf8 message

instance (result : Except String ResponseValue) : Decidable (Legible result) :=
  match result with
  | .ok _ => inferInstanceAs (Decidable (_ ∧ _))
  | .error _ => inferInstanceAs (Decidable (_ ∧ _))

/--
What a call returns for the reply: an error is a text like any other, with a second `ERR` in front.
-/
def answer : Except String ResponseValue → ResponseValue
  | .ok v => v.received
  | .error message => .simpleString ("ERR " ++ message)

/-- What the user is shown. -/
def shown : Except String ResponseValue → String
  | .ok v => formatResponse v
  | .error message => "ERR " ++ message

theorem formatResponse_answer (result : Except String ResponseValue) :
    formatResponse (answer result) = shown result := by
  cases result with
  | ok v => exact formatResponse_received v
  | error message => rfl

theorem Legible.parse (result : Except String ResponseValue) (h : Legible result) :
    ∃ w, parseRespValue .default (sendResponse result) = .done w [] ∧
      convertRespToResponse w = answer result := by
  obtain ⟨-, hresult⟩ := h
  cases result with
  | ok v =>
    obtain ⟨w, hw, hparse⟩ := parseRespValue_encodeValue .default v hresult []
    rw [List.append_nil] at hparse
    exact ⟨w, hparse, convert_decoded v w hw⟩
  | error message =>
    have hline := readLine_line message [] hresult
    rw [List.append_nil] at hline
    refine ⟨.error message, ?_, rfl⟩
    exact andThen_done _ _ _ _ _ hline

/-! ## The connection -/

/-- A command and its arguments, as `execute_command` is given them. -/
structure Call where
  command : String
  args : List String
deriving DecidableEq

namespace Call

/-- `encode_command_array`. The codec is the one that reads the replies. -/
def encodeCommandArray (c : Call) (codec : RespCodec) : Bytes × RespCodec :=
  codec.encode (.array ((c.command :: c.args).map fun part => .bulk (utf8 part)))

def frame (c : Call) : Bytes := encodeCommand (utf8 c.command :: c.args.map utf8)

theorem encodeCommandArray_eq (c : Call) (codec : RespCodec) :
    c.encodeCommandArray codec = (c.frame, ⟨[], codec.limits⟩) := by
  unfold encodeCommandArray frame encodeCommand RespCodec.encode
  rw [← List.map_cons, List.map_map]
  rfl

/-- The server reads the name in upper case. -/
def parsed (u : CaseMap) (c : Call) : ParsedCommand := ⟨u.toUppercase c.command, c.args.map utf8⟩

/-- The server takes the frame. -/
structure Fits (limits : CodecLimits) (c : Call) : Prop where
  parts : PartsFit limits (utf8 c.command :: c.args.map utf8)
  size : c.frame.length ≤ limits.maxBufferSize

instance (limits : CodecLimits) (c : Call) : Decidable (c.Fits limits) :=
  let parts := utf8 c.command :: c.args.map utf8
  decidable_of_iff
    (((parts.length ≤ limits.maxArrayLength ∧ parts.length < 2 ^ 31) ∧
      ∀ b ∈ parts, b.length ≤ limits.maxBulkSize ∧ b.length < 2 ^ 31) ∧
      c.frame.length ≤ limits.maxBufferSize)
    ⟨fun h => ⟨⟨h.1.1, h.1.2⟩, h.2⟩, fun h => ⟨⟨h.parts.count, h.parts.size⟩, h.size⟩⟩

theorem Fits.isFrame (u : CaseMap) (limits : CodecLimits) (c : Call) (h : c.Fits limits) :
    IsFrame u limits c.frame (c.parsed u) :=
  isFrame_encodeCommand u limits c.command (c.args.map utf8) h.parts

end Call

/-- Why a call returned no value. -/
inductive ClientError where
  /-- Connection closed by server. -/
  | closed
  /-- Failed to send command, or to read the response. -/
  | network
  | protocol (e : RustyPotatoError)
deriving DecidableEq

/-- Where the client is in `execute_command`. -/
inductive CallPhase where
  | idle
  /-- Before the values that are in the buffer already are looked for. -/
  | draining
  /-- In the read of the socket. -/
  | reading
deriving DecidableEq

/-- Both ends, and what is on the way between them. -/
structure Link where
  codec : RespCodec
  phase : CallPhase
  /-- The socket of the client has not failed. -/
  connected : Bool
  toServer : Bytes
  toClient : Bytes
  server : Session
  calls : List Call
  results : List (Except ClientError ResponseValue)

inductive LinkEvent where
  | call (c : Call)
  /-- The write of the command fails after some bytes. -/
  | callFails (c : Call) (sent : Nat)
  | drain
  | receive (n : Nat)
  | closed
  | readFails
  /-- A read of the server. -/
  | deliver (n : Nat)
  /-- The server has waited too long or is told to stop. -/
  | hangUp

/-- `read_buf` of the server and `chunk` of the client. -/
def serverReadSize : Nat := 4096

def clientReadSize : Nat := 1024

namespace Link

variable (u : CaseMap) (envs : Nat → Env)

def start (limits : CodecLimits) (store : MemoryStore) : Link where
  codec := .new
  phase := .idle
  connected := true
  toServer := []
  toClient := []
  server := .start limits store
  calls := []
  results := []

def finish (l : Link) (result : Except ClientError ResponseValue) : Link :=
  { l with phase := .idle, results := l.results ++ [result] }

/-- What a round of `read_response` does with the bytes it has got. -/
def decode (l : Link) (chunk : Bytes) (more : CallPhase) : Link :=
  match l.codec.decodeRespValue chunk with
  | (.ok (some value), codec) => { l with codec }.finish (.ok (convertRespToResponse value))
  | (.ok none, codec) => { l with codec, phase := more }
  | (.error e, codec) => { l with codec }.finish (.error (.protocol e))

/-- The bytes that the server has written after those of `s`. -/
def written (s s' : Session) : Bytes := (s'.out.drop s.out.length).flatten

def step (a : LinkEvent) (l : Link) : Option Link :=
  match a with
  | .call c =>
    if l.phase = .idle ∧ l.connected = true then
      let encoded := c.encodeCommandArray l.codec
      some { l with
        codec := encoded.2
        phase := .draining
        toServer := l.toServer ++ encoded.1
        calls := l.calls ++ [c] }
    else none
  | .callFails c sent =>
    if l.phase = .idle ∧ (l.connected = true ∨ sent = 0) then
      let encoded := c.encodeCommandArray l.codec
      some ({ l with
        codec := encoded.2
        connected := false
        toServer := l.toServer ++ encoded.1.take sent
        calls := l.calls ++ [c] }.finish (.error .network))
    else none
  | .drain => if l.phase = .draining then some (l.decode [] .reading) else none
  | .receive n =>
    if l.phase = .reading ∧ 0 < n ∧ n ≤ l.toClient.length ∧ n ≤ clientReadSize then
      some ({ l with toClient := l.toClient.drop n }.decode (l.toClient.take n) .draining)
    else none
  | .closed =>
    if l.phase = .reading ∧ l.toClient = [] ∧ l.server.status ≠ .running then
      some (l.finish (.error .closed))
    else none
  | .readFails =>
    if l.phase = .reading then
      some ({ l with connected := false }.finish (.error .network))
    else none
  | .deliver n =>
    if l.server.status = .running ∧ 0 < n ∧ n ≤ l.toServer.length ∧ n ≤ serverReadSize then
      let server := (l.server.processBuffer u envs (l.toServer.take n)).finish
      some { l with
        toServer := l.toServer.drop n
        toClient := l.toClient ++ written l.server server
        server }
    else none
  | .hangUp =>
    if l.server.status = .running then
      some { l with server := { l.server with status := .closed } }
    else none

end Link

/-! ## One read of the server -/

namespace Session

variable (u : CaseMap) (envs : Nat → Env)

theorem execute_served (s : Session) (cmd : ParsedCommand) (frame : Bytes) :
    s.served <+: (execute u envs s cmd frame).served := by
  unfold execute
  simp only
  split
  · exact List.prefix_rfl
  · exact List.prefix_append _ _

theorem serve_served (rounds : Nat) (data : Bytes) (s : Session) :
    s.served <+: (serve u envs rounds data s).served := by
  induction rounds generalizing data s with
  | zero => exact List.prefix_rfl
  | succ rounds ih =>
    rw [serve]
    split
    · rename_i cmd frame codec hdecode
      have hfirst := execute_served u envs { s with codec } cmd frame
      simp only
      split_ifs
      · exact hfirst.trans (ih [] _)
      · exact hfirst
    · exact List.prefix_rfl
    · exact List.prefix_rfl

section
variable (limits : CodecLimits) (s : Session) (buffer data : Bytes)
  (hcodec : s.codec = ⟨buffer, limits⟩) (hcap : buffer.length + data.length ≤ limits.maxBufferSize)
include hcodec hcap

/-- The command is not complete yet. -/
theorem processBuffer_more (hmore : parseCommand u limits (buffer ++ data) = .more) :
    processBuffer u envs data s = { s with codec := ⟨buffer ++ data, limits⟩ } := by
  unfold processBuffer
  rw [serve, hcodec, RespCodec.decodeWithFrame_eq limits buffer data hcap, hmore]

/-- The read completes a command and brings nothing else. -/
theorem processBuffer_frame (cmd : ParsedCommand) (hframe : IsFrame u limits (buffer ++ data) cmd)
    (hdata : data ≠ []) :
    processBuffer u envs data s =
      execute u envs { s with codec := ⟨[], limits⟩ } cmd (buffer ++ data) := by
  have hdecode := RespCodec.decodeWithFrame_whole limits (buffer ++ data)
    [] cmd hframe buffer data hcap (by simp)
  obtain ⟨rounds, hrounds⟩ : ∃ n, s.codec.buffer.length + data.length = n + 1 :=
    ⟨s.codec.buffer.length + data.length - 1, by have := List.length_pos_of_ne_nil hdata; omega⟩
  unfold processBuffer
  rw [hrounds, serve, hcodec, hdecode]
  simp only
  split_ifs
  · have hempty := execute_codec u envs { s with codec := ⟨[], limits⟩ } cmd (buffer ++ data)
    rw [serve, hempty, RespCodec.decodeWithFrame_eq limits [] [] (Nat.zero_le _)]
    simp only [List.append_nil, parseCommand_nil]
    exact congrArg (fun codec =>
      { execute u envs { s with codec := ⟨[], limits⟩ } cmd (buffer ++ data) with codec })
        hempty.symm
  · rfl

end

/-- A command is executed and has its reply written, or the task stops with neither. -/
theorem execute_cases (s : Session) (cmd : ParsedCommand) (frame : Bytes) :
    ((execute u envs s cmd frame).finish = execute u envs s cmd frame) ∧
      ((execute u envs s cmd frame).served = s.served ∧ (execute u envs s cmd frame).out = s.out ∧
          (execute u envs s cmd frame).status = .panicked ∨
        ∃ x : Served, x.cmd = cmd ∧ (execute u envs s cmd frame).served = s.served ++ [x] ∧
          (execute u envs s cmd frame).out = s.out ++ [sendResponse x.result]) := by
  unfold execute
  simp only
  split
  · exact ⟨rfl, .inl ⟨rfl, rfl, rfl⟩⟩
  · rename_i result after hrun
    refine ⟨?_, .inr ⟨⟨_, cmd, frame, result, after⟩, rfl, rfl, rfl⟩⟩
    unfold finish
    cases serverRegistry.isTerminal u cmd.name <;> rfl

end Session

/-! ## One read of the client -/

section
variable (codec : RespCodec) (data : Bytes)
  (hcap : codec.buffer.length + data.length ≤ codec.limits.maxBufferSize)
include hcap

theorem RespCodec.decodeRespValue_more
    (hmore : parseRespValue codec.limits (codec.buffer ++ data) = .more) :
    codec.decodeRespValue data = (.ok none, ⟨codec.buffer ++ data, codec.limits⟩) := by
  unfold decodeRespValue
  rw [if_neg (Nat.not_lt.mpr hcap)]
  simp only [hmore, ite_self]

theorem RespCodec.decodeRespValue_value (w : RespValue) (rest : Bytes)
    (hdone : parseRespValue codec.limits (codec.buffer ++ data) = .done w rest) :
    codec.decodeRespValue data = (.ok (some w), ⟨rest, codec.limits⟩) := by
  have hne : (codec.buffer ++ data).isEmpty = false := by
    cases hbytes : codec.buffer ++ data with
    | nil =>
      rw [hbytes] at hdone
      cases hdone
    | cons b bytes => rfl
  unfold decodeRespValue
  rw [if_neg (Nat.not_lt.mpr hcap)]
  simp only [hne, hdone, Bool.false_eq_true, if_false]

end

/-! ## Whose turn it is -/

namespace Link

variable (u : CaseMap) (envs : Nat → Env) (limits : CodecLimits) (store : MemoryStore)

/-- The server has some of the next frame, and the rest of it is on the way or was never sent. -/
def Asked (l : Link) : Prop :=
  match l.calls[l.server.served.length]? with
  | none => l.server.codec.buffer ++ l.toServer = []
  | some c =>
    ∃ lost, (l.connected = true → lost = []) ∧ l.server.codec.buffer ++ l.toServer ++ lost = c.frame

/-- A call that returned a value returned the answer to the command in its place. -/
def Returned (results : List (Except ClientError ResponseValue)) (served : List Served) : Prop :=
  ∀ (i : Nat) (r : ResponseValue), results[i]? = some (.ok r) → ∃ x, served[i]? = some x ∧
    r = answer x.result

theorem Returned.mono (results : List (Except ClientError ResponseValue))
    (served served' : List Served) (h : Returned results served) (hgrows : served <+: served') :
    Returned results served' := by
  intro i r hr
  obtain ⟨x, hx, hanswer⟩ := h i r hr
  obtain ⟨rest, rfl⟩ := hgrows
  exact ⟨x, by rw [List.getElem?_append_left (List.getElem?_eq_some_iff.mp hx).1, hx], hanswer⟩

theorem Returned.concat (results : List (Except ClientError ResponseValue)) (served : List Served)
    (h : Returned results served) (result : Except ClientError ResponseValue)
    (hresult : ∀ r, result = .ok r → ∃ x, served[results.length]? = some x ∧ r = answer x.result) :
    Returned (results ++ [result]) served := by
  intro i r hr
  rcases Nat.lt_trichotomy i results.length with hlt | rfl | hgt
  · rw [List.getElem?_append_left hlt] at hr
    exact h i r hr
  · rw [List.getElem?_concat_length, Option.some.injEq] at hr
    exact hresult r hr
  · rw [List.getElem?_eq_none (by simp; omega)] at hr
    cases hr

structure InTurn (l : Link) : Prop where
  codec_limits : l.codec.limits = .default
  follows : Session.Follows u limits store l.server
  served : l.server.served.map Served.cmd <+: l.calls.map (Call.parsed u)
  turn : l.calls.length = l.results.length + if l.phase = .idle then 0 else 1
  offline : l.connected = false → l.phase = .idle
  asked : l.server.status = .running → l.Asked ∧ parseCommand u limits l.server.codec.buffer = .more
  answered : l.connected = true → l.codec.buffer ++ l.toClient =
    ((l.server.served.drop l.results.length).map fun x => sendResponse x.result).flatten
  partly : l.phase ≠ .idle → parseRespValue .default l.codec.buffer = .more
  results : Returned l.results l.server.served
  errors : ∀ e : ClientError, .error e ∈ l.results →
    (∀ p, e ≠ .protocol p) ∧ (l.connected = false ∨ l.server.status ≠ .running)

/-- What is asked of the commands and of their replies. -/
def Plain (l : Link) : Prop :=
  (∀ c ∈ l.calls, c.Fits limits) ∧ ∀ x ∈ l.server.served, Legible x.result

theorem inTurn_start : InTurn u limits store (.start limits store) where
  codec_limits := rfl
  follows := Session.follows_start u limits store
  served := List.prefix_rfl
  turn := rfl
  offline := by simp [start]
  asked _ := ⟨rfl, parseCommand_nil u limits⟩
  answered _ := rfl
  partly := by simp [start]
  results := by simp [start, Returned]
  errors := by simp [start]

section
variable {u limits store} (l : Link) (h : InTurn u limits store l)
include h

theorem InTurn.served_le : l.server.served.length ≤ l.calls.length := by
  simpa using h.served.length_le

/-- While the connection holds, the calls that have returned have been executed. -/
theorem InTurn.results_le (hc : l.connected = true) (hs : l.server.status = .running) :
    l.results.length ≤ l.server.served.length := by
  cases hlast : l.results.getLast? with
  | none => simp [List.getLast?_eq_none_iff.mp hlast]
  | some res =>
    have hmem : res ∈ l.results := List.mem_of_getLast? hlast
    rw [List.getLast?_eq_getElem?] at hlast
    cases res with
    | error e => rcases (h.errors e hmem).2 with hoff | hoff <;> simp_all
    | ok r =>
      obtain ⟨x, hx, -⟩ := h.results _ r hlast
      have := (List.getElem?_eq_some_iff.mp hx).1
      omega

/-- A client that waits has the next reply before it, whole, or has got nothing of it. -/
theorem InTurn.next_reply (hp : l.phase ≠ .idle) :
    l.codec.buffer ++ l.toClient = [] ∧ l.server.served.length ≤ l.results.length ∨
      ∃ x, l.server.served[l.results.length]? = some x ∧ l.server.served.length =
        l.results.length + 1 ∧
        l.codec.buffer ++ l.toClient = sendResponse x.result := by
  have hc : l.connected = true := by
    by_contra hc
    exact hp (h.offline (by simpa using hc))
  have hle := h.served_le
  have hturn := h.turn
  rw [if_neg hp] at hturn
  rw [h.answered hc]
  by_cases hlen : l.server.served.length ≤ l.results.length
  · exact .inl ⟨by rw [List.drop_eq_nil_of_le hlen]; rfl, hlen⟩
  · have hlt : l.results.length < l.server.served.length := by omega
    refine .inr ⟨l.server.served[l.results.length], List.getElem?_eq_getElem hlt, by omega, ?_⟩
    rw [List.drop_eq_getElem_cons hlt, List.drop_eq_nil_of_le (by omega)]
    simp

/-! ## The events -/

theorem InTurn.call (c : Call) (l' : Link) (hstep : step u envs (.call c) l = some l') :
    InTurn u limits store l' := by
  simp only [step, Call.encodeCommandArray_eq, Option.ite_none_right_eq_some, Option.some.injEq]
    at hstep
  obtain ⟨⟨hp, hc⟩, rfl⟩ := hstep
  have hturn := h.turn
  rw [if_pos hp] at hturn
  have hle := h.served_le
  have hempty := h.answered hc
  rw [List.drop_eq_nil_of_le (by omega)] at hempty
  have hclient : l.toClient = [] := (List.append_eq_nil_iff.mp hempty).2
  refine ⟨h.codec_limits, h.follows, h.served.trans (by simp), by simp [hturn], by simp [hc],
    fun hs => ?_, fun _ => ?_, fun _ => rfl, h.results, h.errors⟩
  · have hexec := h.results_le l hc hs
    obtain ⟨hasked, hmore⟩ := h.asked hs
    have hlen : l.server.served.length = l.calls.length := by omega
    refine ⟨?_, hmore⟩
    unfold Asked at hasked ⊢
    rw [hlen, List.getElem?_eq_none le_rfl] at hasked
    simp only [hlen, List.getElem?_concat_length]
    refine ⟨[], fun _ => rfl, ?_⟩
    rw [← List.append_assoc, hasked]
    simp
  · simp only [hclient]
    rw [List.drop_eq_nil_of_le (by omega)]
    rfl

theorem InTurn.callFails (c : Call) (sent : Nat) (l' : Link)
    (hstep : step u envs (.callFails c sent) l = some l') : InTurn u limits store l' := by
  simp only [step, Call.encodeCommandArray_eq, Option.ite_none_right_eq_some, Option.some.injEq]
    at hstep
  obtain ⟨⟨hp, hsent⟩, rfl⟩ := hstep
  have hturn := h.turn
  rw [if_pos hp] at hturn
  have hle := h.served_le
  refine ⟨h.codec_limits, h.follows, h.served.trans (by simp [finish]), by simp [finish, hturn],
    fun _ => rfl, fun hs => ?_, (Bool.noConfusion ·), fun hp' => absurd rfl hp',
    h.results.concat _ _ _ (by simp), ?_⟩
  · obtain ⟨hasked, hmore⟩ := h.asked hs
    refine ⟨?_, hmore⟩
    unfold Asked at hasked ⊢
    simp only [finish]
    by_cases hlen : l.server.served.length = l.calls.length
    · rw [hlen, List.getElem?_eq_none le_rfl] at hasked
      rw [hlen, List.getElem?_concat_length]
      refine ⟨c.frame.drop sent, (Bool.noConfusion ·), ?_⟩
      rw [← List.append_assoc, hasked]
      simp
    · -- The server is behind, so this call is not the first that fails.
      have hlt : l.server.served.length < l.calls.length := by omega
      rw [List.getElem?_append_left hlt]
      rw [List.getElem?_eq_getElem hlt] at hasked ⊢
      obtain ⟨lost, -, hframe⟩ := hasked
      have hzero : sent = 0 := by
        refine hsent.resolve_left fun hc => hlen ?_
        have := h.results_le l hc hs
        omega
      refine ⟨lost, (Bool.noConfusion ·), ?_⟩
      rw [hzero, List.take_zero, List.append_nil]
      exact hframe
  · simp only [finish, List.mem_append, List.mem_singleton]
    rintro e (he | he)
    · exact ⟨(h.errors e he).1, .inl trivial⟩
    · cases he
      exact ⟨nofun, .inl trivial⟩

section
variable (hplain : l.Plain limits) (hp : l.phase ≠ .idle)
include hplain hp

theorem InTurn.length_le :
    (l.codec.buffer ++ l.toClient).length ≤ CodecLimits.default.maxBufferSize := by
  rcases h.next_reply l hp with ⟨hnil, -⟩ | ⟨x, hx, -, hreply⟩
  · rw [hnil]
    exact Nat.zero_le _
  · rw [hreply]
    exact (hplain.2 x (List.mem_of_getElem? hx)).1

end

theorem InTurn.drain (hplain : l.Plain limits) (l' : Link)
    (hstep : step u envs .drain l = some l') : InTurn u limits store l' := by
  simp only [step, Option.ite_none_right_eq_some, Option.some.injEq] at hstep
  obtain ⟨hp, rfl⟩ := hstep
  have hbusy : l.phase ≠ .idle := by simp [hp]
  have hlen := h.length_le l hplain hbusy
  have hsame : l.decode [] .reading = { l with phase := .reading } := by
    have hmore := l.codec.decodeRespValue_more [] (by rw [h.codec_limits]; simp at hlen ⊢; omega)
      (by rw [List.append_nil, h.codec_limits]; exact h.partly hbusy)
    unfold decode
    rw [hmore, List.append_nil]
  have hturn := h.turn
  rw [if_neg hbusy] at hturn
  rw [hsame]
  exact ⟨h.codec_limits, h.follows, h.served, by simpa using hturn,
    fun hc => absurd (h.offline hc) hbusy, h.asked, h.answered, fun _ => h.partly hbusy, h.results,
    h.errors⟩

theorem InTurn.receive (hplain : l.Plain limits) (n : Nat) (l' : Link)
    (hstep : step u envs (.receive n) l = some l') : InTurn u limits store l' := by
  simp only [step, Option.ite_none_right_eq_some, Option.some.injEq] at hstep
  obtain ⟨⟨hp, hpos, hn, -⟩, rfl⟩ := hstep
  have hbusy : l.phase ≠ .idle := by simp [hp]
  have hlen := h.length_le l hplain hbusy
  have hcap : l.codec.buffer.length + (l.toClient.take n).length ≤
      l.codec.limits.maxBufferSize := by
    rw [h.codec_limits]
    simp only [List.length_append, List.length_take] at hlen ⊢
    omega
  have hturn := h.turn
  rw [if_neg hbusy] at hturn
  obtain ⟨x, hx, hserved, hreply⟩ : ∃ x, l.server.served[l.results.length]? = some x ∧
      l.server.served.length = l.results.length + 1 ∧
      l.codec.buffer ++ l.toClient = sendResponse x.result := by
    refine (h.next_reply l hbusy).resolve_left fun hnil => ?_
    rw [(List.append_eq_nil_iff.mp hnil.1).2, List.length_nil] at hn
    omega
  obtain ⟨w, hparse, hanswer⟩ := (hplain.2 x (List.mem_of_getElem? hx)).parse
  rw [← hreply, ← List.take_append_drop n l.toClient, ← List.append_assoc] at hparse
  have hoffline : l.connected = true := by
    by_contra hc
    exact hbusy (h.offline (by simpa using hc))
  by_cases hrest : l.toClient.drop n = []
  · -- The chunk ends the reply.
    rw [hrest, List.append_nil] at hparse
    have hvalue := l.codec.decodeRespValue_value _ hcap w [] (by rw [h.codec_limits]; exact hparse)
    simp only [decode, hvalue, finish, hrest]
    refine ⟨h.codec_limits, h.follows, h.served, by simpa using hturn, fun _ => rfl, h.asked,
      fun _ => ?_, fun hp' => absurd rfl hp', h.results.concat _ _ _ ?_, ?_⟩
    · rw [List.drop_eq_nil_of_le (by simp [hserved])]
      rfl
    · intro r hr
      cases hr
      exact ⟨x, hx, hanswer⟩
    · intro e he
      refine h.errors e ?_
      simpa using he
  · have hpartly := more_of_prefix _ (streaming_parseRespValue .default) _ _ _ hparse hrest
    have hmore := l.codec.decodeRespValue_more _ hcap (by rw [h.codec_limits]; exact hpartly)
    simp only [decode, hmore]
    refine ⟨h.codec_limits, h.follows, h.served, by simpa using hturn, fun hc => ?_, h.asked,
      fun hc => ?_, fun _ => hpartly, h.results, h.errors⟩
    · rw [hoffline] at hc
      cases hc
    · rw [List.append_assoc, List.take_append_drop]
      exact h.answered hc

theorem InTurn.closed (hplain : l.Plain limits) (l' : Link)
    (hstep : step u envs .closed l = some l') : InTurn u limits store l' := by
  simp only [step, Option.ite_none_right_eq_some, Option.some.injEq] at hstep
  obtain ⟨⟨hp, hnil, hs⟩, rfl⟩ := hstep
  have hbusy : l.phase ≠ .idle := by simp [hp]
  have hturn := h.turn
  rw [if_neg hbusy] at hturn
  -- A whole reply would have been read.
  obtain ⟨hbuffer, hserved⟩ : l.codec.buffer ++ l.toClient = [] ∧
      l.server.served.length ≤ l.results.length := by
    refine (h.next_reply l hbusy).resolve_right ?_
    rintro ⟨x, hx, -, hreply⟩
    obtain ⟨w, hparse, -⟩ := (hplain.2 x (List.mem_of_getElem? hx)).parse
    rw [← hreply, hnil, List.append_nil, h.partly hbusy] at hparse
    cases hparse
  refine ⟨h.codec_limits, h.follows, h.served, by simpa [finish] using hturn, fun _ => rfl,
    fun hr => absurd hr hs, fun _ => ?_, fun hp' => absurd rfl hp',
    h.results.concat _ _ _ (by simp), ?_⟩
  · simp only [finish]
    rw [hbuffer, List.drop_eq_nil_of_le (by simp; omega)]
    rfl
  · simp only [finish, List.mem_append, List.mem_singleton]
    rintro e (he | he)
    · exact h.errors e he
    · cases he
      exact ⟨nofun, .inr hs⟩

theorem InTurn.readFails (l' : Link) (hstep : step u envs .readFails l = some l') :
    InTurn u limits store l' := by
  simp only [step, Option.ite_none_right_eq_some, Option.some.injEq] at hstep
  obtain ⟨hp, rfl⟩ := hstep
  have hturn := h.turn
  rw [if_neg (by simp [hp])] at hturn
  refine ⟨h.codec_limits, h.follows, h.served, by simpa [finish] using hturn, fun _ => rfl,
    fun hs => ?_, (Bool.noConfusion ·), fun hp' => absurd rfl hp', h.results.concat _ _ _ (by simp),
    ?_⟩
  · obtain ⟨hasked, hmore⟩ := h.asked hs
    refine ⟨?_, hmore⟩
    unfold Asked at hasked ⊢
    simp only [finish]
    cases hc : l.calls[l.server.served.length]? with
    | none => simpa [hc] using hasked
    | some c =>
      simp only [hc] at hasked
      obtain ⟨lost, -, hframe⟩ := hasked
      exact ⟨lost, (Bool.noConfusion ·), hframe⟩
  · simp only [finish, List.mem_append, List.mem_singleton]
    rintro e (he | he)
    · exact ⟨(h.errors e he).1, .inl trivial⟩
    · cases he
      exact ⟨nofun, .inl trivial⟩

theorem InTurn.hangUp (l' : Link) (hstep : step u envs .hangUp l = some l') :
    InTurn u limits store l' := by
  simp only [step, Option.ite_none_right_eq_some, Option.some.injEq] at hstep
  obtain ⟨hs, rfl⟩ := hstep
  exact ⟨h.codec_limits, ⟨h.follows.limits_eq, h.follows.chain, h.follows.log_eq, h.follows.frames⟩,
    h.served, h.turn, h.offline, nofun, h.answered, h.partly, h.results,
    fun e he => ⟨(h.errors e he).1, .inr nofun⟩⟩

/-- The server has read a whole frame and nothing else. -/
theorem InTurn.executed (c : Call) (hc : l.calls[l.server.served.length]? = some c)
    (hs : l.server.status = .running) (s : Session) (hfollows : Session.Follows u limits store s)
    (hbuffer : s.codec.buffer = [])
    (hcases : (s.served = l.server.served ∧ s.out = l.server.out ∧ s.status = .panicked) ∨
      ∃ x : Served, x.cmd = c.parsed u ∧ s.served = l.server.served ++ [x] ∧
        s.out = l.server.out ++ [sendResponse x.result]) :
    InTurn u limits store
      { l with toServer := [], toClient := l.toClient ++ written l.server s, server := s } := by
  have herrors : ∀ e : ClientError, .error e ∈ l.results →
      (∀ p, e ≠ .protocol p) ∧ (l.connected = false ∨ s.status ≠ .running) := by
    intro e he
    obtain ⟨hkind, hoff⟩ := h.errors e he
    exact ⟨hkind, .inl (hoff.resolve_right (absurd hs))⟩
  rcases hcases with ⟨hserved, hout, hstatus⟩ | ⟨x, hx, hserved, hout⟩
  · have hwritten : written l.server s = [] := by simp [written, hout]
    refine ⟨h.codec_limits, hfollows, hserved ▸ h.served, h.turn, h.offline, fun hr => ?_,
      fun hconn => ?_, h.partly, hserved ▸ h.results, herrors⟩
    · rw [hstatus] at hr
      cases hr
    · rw [hwritten, List.append_nil, hserved]
      exact h.answered hconn
  · have hwritten : written l.server s = sendResponse x.result := by simp [written, hout]
    have hlen : s.served.length = l.server.served.length + 1 := by simp [hserved]
    refine ⟨h.codec_limits, hfollows, ?_, h.turn, h.offline, fun hr => ⟨?_, ?_⟩, fun hconn => ?_,
      h.partly, h.results.mono _ _ _ (hserved ▸ List.prefix_append _ _), herrors⟩
    · obtain ⟨later, hlater⟩ := h.served
      rw [hserved, List.map_append, List.map_cons, List.map_nil, hx]
      refine ⟨later.tail, ?_⟩
      have hnext : later.head? = some (c.parsed u) := by
        have := congrArg (·[l.server.served.length]?) hlater
        simpa [List.getElem?_append, hc, List.head?_eq_getElem?] using this
      obtain ⟨later, rfl⟩ := List.head?_eq_some_iff.mp hnext
      rw [← hlater]
      simp
    · unfold Asked
      simp only [hlen, hbuffer, List.append_nil, List.nil_append]
      split
      · trivial
      · -- A call behind this one was never sent.
        rename_i c' hc'
        refine ⟨c'.frame, fun hconn => ?_, rfl⟩
        have hturn := h.turn
        have hexec := h.results_le l hconn hs
        have := (List.getElem?_eq_some_iff.mp hc').1
        split at hturn <;> omega
    · rw [hbuffer]
      exact parseCommand_nil u limits
    · have hle := h.results_le l hconn hs
      rw [hserved, List.drop_append_of_le_length hle, List.map_append, List.flatten_append,
        ← h.answered hconn, hwritten]
      simp

theorem InTurn.deliver (hplain : l.Plain limits) (n : Nat) (l' : Link)
    (hstep : step u envs (.deliver n) l = some l') : InTurn u limits store l' := by
  simp only [step, Option.ite_none_right_eq_some, Option.some.injEq] at hstep
  obtain ⟨⟨hs, hpos, hn, -⟩, rfl⟩ := hstep
  obtain ⟨hasked, -⟩ := h.asked hs
  have hdata : l.toServer.take n ≠ [] := by
    intro hnil
    have := congrArg List.length hnil
    rw [List.length_take, List.length_nil] at this
    omega
  have hfollows : Session.Follows u limits store
      (Session.processBuffer u envs (l.toServer.take n) l.server).finish :=
    (h.follows.serve u envs limits store _ _ _).finish u limits store
  have hcodec : l.server.codec = ⟨l.server.codec.buffer, limits⟩ := by rw [← h.follows.limits_eq]
  unfold Asked at hasked
  cases hc : l.calls[l.server.served.length]? with
  | none =>
    simp only [hc] at hasked
    rw [(List.append_eq_nil_iff.mp hasked).2, List.take_nil] at hdata
    exact absurd rfl hdata
  | some c =>
    simp only [hc] at hasked
    obtain ⟨lost, hlost, hframe⟩ := hasked
    have hfits := hplain.1 c (List.mem_of_getElem? hc)
    have hcap : l.server.codec.buffer.length + (l.toServer.take n).length ≤
        limits.maxBufferSize := by
      have hsize := hfits.size
      rw [← hframe] at hsize
      simp only [List.length_append, List.length_take] at hsize ⊢
      omega
    have hsplit : l.server.codec.buffer ++ l.toServer.take n ++ (l.toServer.drop n ++ lost) =
        c.frame := by
      rw [← hframe, List.append_assoc, ← List.append_assoc (l.toServer.take n),
        List.take_append_drop, List.append_assoc]
    by_cases hrest : l.toServer.drop n ++ lost = []
    · rw [hrest, List.append_nil] at hsplit
      have hserve := Session.processBuffer_frame u envs limits l.server _ _ hcodec hcap (c.parsed u)
        (hsplit ▸ hfits.isFrame u limits c) hdata
      obtain ⟨hfinish, hcases⟩ := Session.execute_cases u envs
        { l.server with codec := ⟨[], limits⟩ } (c.parsed u)
        (l.server.codec.buffer ++ l.toServer.take n)
      rw [hserve, hfinish] at hfollows ⊢
      rw [(List.append_eq_nil_iff.mp hrest).1]
      exact h.executed l c hc hs _ hfollows (by rw [Session.execute_codec]) hcases
    · -- The server waits for the rest of the frame.
      have hpartly := more_of_prefix _ (streaming_parseCommand u limits) _ _ _ (hsplit ▸
        hfits.isFrame u limits c) hrest
      have hserve := Session.processBuffer_more u envs limits l.server _ _ hcodec hcap hpartly
      rw [hserve, Session.finish_running _ (by exact hs)] at hfollows ⊢
      refine ⟨h.codec_limits, hfollows, h.served, h.turn, h.offline, fun _ => ⟨?_, hpartly⟩,
        fun hconn => ?_, h.partly, h.results, h.errors⟩
      · unfold Asked
        simp only [hc]
        exact ⟨lost, hlost, by rw [List.append_assoc]; exact hsplit⟩
      · simp only [written, List.drop_length, List.flatten_nil, List.append_nil]
        exact h.answered hconn

theorem InTurn.step (hplain : l.Plain limits) (a : LinkEvent) (l' : Link)
    (hstep : step u envs a l = some l') : InTurn u limits store l' := by
  cases a with
  | call c => exact h.call envs l c l' hstep
  | callFails c sent => exact h.callFails envs l c sent l' hstep
  | drain => exact h.drain envs l hplain l' hstep
  | receive n => exact h.receive envs l hplain n l' hstep
  | closed => exact h.closed envs l hplain l' hstep
  | readFails => exact h.readFails envs l l' hstep
  | deliver n => exact h.deliver envs l hplain n l' hstep
  | hangUp => exact h.hangUp envs l l' hstep

end

/-- Calls and executed commands are never taken back. -/
theorem Plain.before (a : LinkEvent) (l l' : Link) (hstep : step u envs a l = some l')
    (h : l'.Plain limits) : l.Plain limits := by
  have hgrows : l.calls ⊆ l'.calls ∧ l.server.served ⊆ l'.server.served := by
    cases a <;> simp only [step, Option.ite_none_right_eq_some, Option.some.injEq] at hstep <;>
      obtain ⟨-, rfl⟩ := hstep
    case call | callFails => exact ⟨List.subset_append_left _ _, List.Subset.refl _⟩
    case drain | receive =>
      unfold decode
      split <;> exact ⟨List.Subset.refl _, List.Subset.refl _⟩
    case deliver n =>
      refine ⟨List.Subset.refl _, ?_⟩
      rw [Session.finish_served]
      exact (Session.serve_served u envs _ _ _).subset
    all_goals exact ⟨List.Subset.refl _, List.Subset.refl _⟩
  exact ⟨fun c hc => h.1 c (hgrows.1 hc), fun x hx => h.2 x (hgrows.2 hx)⟩

/--
The server executes the commands of the calls in their order, none twice, and a call that returns a
value returns the answer to its own command. While the connection holds no call fails, and one that
waits has bytes on the way.
-/
theorem calls_answered (as : List LinkEvent) (l : Link)
    (hrun : run (step u envs) as (start limits store) = some l)
    (hcalls : ∀ c ∈ l.calls, c.Fits limits) (hserved : ∀ x ∈ l.server.served, Legible x.result) :
    l.server.served.map Served.cmd <+: l.calls.map (Call.parsed u) ∧
      Session.Chain u store l.server.served l.server.store ∧
      (∀ (i : Nat) (r : ResponseValue), l.results[i]? = some (.ok r) →
        ∃ x, l.server.served[i]? = some x ∧ r = answer x.result ∧
          formatResponse r = shown x.result) ∧
      (l.connected = true → l.server.status = .running →
        (∀ result ∈ l.results, ∃ r, result = .ok r) ∧
          (l.phase = .idle → l.server.served.length = l.calls.length ∧
            l.results.length = l.calls.length) ∧
          (l.phase = .reading → l.toServer ≠ [] ∨ l.toClient ≠ [])) := by
  have h : InTurn u limits store l := by
    refine run_induction (step u envs) (start limits store) (fun _ l => l.Plain limits →
      InTurn u limits store l) (fun _ => inTurn_start u limits store) ?_ as l hrun ⟨hcalls, hserved⟩
    intro _ l a l' _ ih hstep hplain
    have hbefore := hplain.before u envs limits a l l' hstep
    exact (ih hbefore).step envs l hbefore a l' hstep
  refine ⟨h.served, h.follows.chain, ?_, fun hconn hs => ⟨?_, fun hidle => ?_, fun hreading => ?_⟩⟩
  · intro i r hr
    obtain ⟨x, hx, rfl⟩ := h.results i r hr
    exact ⟨x, hx, rfl, formatResponse_answer x.result⟩
  · intro result hresult
    cases result with
    | ok r => exact ⟨r, rfl⟩
    | error e => rcases (h.errors e hresult).2 with hoff | hoff <;> simp_all
  · have hturn := h.turn
    rw [if_pos hidle] at hturn
    have := h.results_le l hconn hs
    have := h.served_le
    omega
  · by_contra hnil
    push Not at hnil
    have hbusy : l.phase ≠ .idle := by simp [hreading]
    have hturn := h.turn
    rw [if_neg hbusy] at hturn
    rcases h.next_reply l hbusy with ⟨-, hle⟩ | ⟨x, hx, -, hreply⟩
    · -- The request has arrived whole and would have been executed.
      obtain ⟨hasked, hmore⟩ := h.asked hs
      have hexec := h.results_le l hconn hs
      have hlt : l.server.served.length < l.calls.length := by omega
      unfold Asked at hasked
      rw [List.getElem?_eq_getElem hlt] at hasked
      obtain ⟨lost, hlost, hframe⟩ := hasked
      rw [hlost hconn, hnil.1, List.append_nil, List.append_nil] at hframe
      have hparse := (hcalls _ (List.getElem_mem hlt)).isFrame u limits
      unfold IsFrame at hparse
      rw [← hframe, hmore] at hparse
      cases hparse
    · obtain ⟨w, hparse, -⟩ := (hserved x (List.mem_of_getElem? hx)).parse
      rw [← hreply, hnil.2, List.append_nil, h.partly hbusy] at hparse
      cases hparse

/-- Three calls, with the streams cut in odd places; the last comes after the server has closed. -/
def threeCalls : List LinkEvent :=
  [.call ⟨"set", ["k", "v"]⟩, .drain, .deliver 7, .deliver 20, .receive 2, .drain, .receive 3,
    .call ⟨"GET", ["k"]⟩, .deliver 20, .drain, .receive 7, .hangUp, .call ⟨"GET", ["k"]⟩, .drain,
    .closed]

theorem threeCalls_answered :
    ∃ l, run (step asciiCaseMap fun _ => .sample) threeCalls (start .default .new) = some l ∧
      l.server.served.map Served.cmd <+: l.calls.map (Call.parsed asciiCaseMap) ∧
      ∀ (i : Nat) (r : ResponseValue), l.results[i]? = some (.ok r) →
        ∃ x, l.server.served[i]? = some x ∧ r = answer x.result ∧
          formatResponse r = shown x.result := by
  have hcheck : (run (step asciiCaseMap fun _ => .sample) threeCalls (start .default .new)).any
      (fun l =>
      decide (∀ c ∈ l.calls, c.Fits .default) && decide (∀ x ∈ l.server.served, Legible x.result)) =
        true := by
    decide +kernel
  obtain ⟨l, hrun, hplain⟩ := (Option.any_eq_true ..).mp hcheck
  rw [Bool.and_eq_true, decide_eq_true_eq, decide_eq_true_eq] at hplain
  obtain ⟨hserved, -, hresults, -⟩ :=
    calls_answered asciiCaseMap (fun _ => .sample) .default .new threeCalls l hrun hplain.1 hplain.2
  exact ⟨l, hrun, hserved, hresults⟩

end Link

end RustyPotato
