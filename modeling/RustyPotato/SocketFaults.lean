import RustyPotato.Client

/-!
# Replies that do not get out

`write_response` fails or times out, maybe in the middle of a reply. The command has been executed
and logged by then. `handle_connection` tries to write one more error behind what has got out, and
closes.
-/

namespace RustyPotato

open Lib.Stream

/-- How the writes go: `none` where one succeeds, or how many bytes get out before it fails. -/
structure SocketFaults where
  reply : Nat → Option Nat
  farewell : Option Nat

/-- The bytes that get out. -/
def delivered (fault : Option Nat) (bytes : Bytes) : Bytes :=
  match fault with
  | none => bytes
  | some sent => bytes.take sent

/-- What `handle_connection` says about an error that is none of the client's. -/
def internalError : Bytes := encodeError "ERR internal server error"

/-- A session, and whether a reply of it could not be written. -/
structure Wire where
  session : Session
  broken : Bool

namespace Wire

variable (u : CaseMap) (envs : Nat → Env) (f : SocketFaults)

def execute (s : Session) (cmd : ParsedCommand) (frame : Bytes) : Wire :=
  let env := envs s.served.length
  match (serverRegistry.execute u env cmd).run s.store with
  | none => ⟨{ s with status := .panicked }, false⟩
  | some (result, after) =>
    let x : Served := { env, cmd, frame, result, after }
    let fault := f.reply s.served.length
    ⟨{ s with
        store := after
        served := s.served ++ [x]
        log := if x.isLogged u then s.log ++ [frame] else s.log
        out := s.out ++ [delivered fault (sendResponse result)]
        -- Whether to close is only looked at after the reply.
        status :=
          if fault.isNone ∧ serverRegistry.isTerminal u cmd.name then .closed else .running },
      fault.isSome⟩

def serve : Nat → Bytes → Session → Wire
  | 0, _, s => ⟨s, false⟩
  | rounds + 1, data, s =>
    match s.codec.decodeWithFrame u data with
    | (.ok (some (cmd, frame)), codec) =>
      let w := execute u envs f { s with codec } cmd frame
      if w.broken = false ∧ w.session.status = .running then serve rounds [] w.session else w
    | (.ok none, codec) => ⟨{ s with codec }, false⟩
    | (.error e, codec) => ⟨{ s with codec, status := .failed e }, false⟩

def processBuffer (data : Bytes) (s : Session) : Wire :=
  serve u envs f (s.codec.buffer.length + data.length + 1) data s

/-- The last write, which may fail as well. -/
def finish (w : Wire) : Wire :=
  if w.broken then
    { w with session := { w.session with
        out := w.session.out ++ [delivered f.farewell internalError] } }
  else
    match w.session.status with
    | .failed e =>
      { w with session := { w.session with
          out := w.session.out ++ [delivered f.farewell (Session.errorReply e)] } }
    | _ => w

def handle (reads : List Bytes) (w : Wire) : Wire :=
  reads.foldl (fun w data =>
    if w.broken = false ∧ w.session.status = .running then
      (processBuffer u envs f data w.session).finish f
    else w) w

end Wire

/-! ## Up to the first fault -/

namespace Wire

variable (u : CaseMap) (envs : Nat → Env) (f : SocketFaults) (limits : CodecLimits)
  (store : MemoryStore)

/-- Every reply has got out. -/
structure Sound (s : Session) : Prop where
  follows : Session.Follows u limits store s
  out : s.out = s.served.map fun x => sendResponse x.result
  faultless : ∀ i < s.served.length, f.reply i = none

/-- All commands but the last have their replies out. The session `t` is the one without faults. -/
def Cut (w t : Session) : Prop :=
  Session.Follows u limits store w ∧ w.served <+: t.served ∧
    ∃ ys x sent, w.served = ys ++ [x] ∧ (∀ i < ys.length, f.reply i = none) ∧
      f.reply ys.length = some sent ∧
      w.out = (ys.map fun y => sendResponse y.result) ++ [(sendResponse x.result).take sent]

theorem execute_cases (s : Session) (hs : Sound u f limits store s) (cmd : ParsedCommand)
    (frame : Bytes) (hframe : IsFrame u limits frame cmd) :
    (execute u envs f s cmd frame = ⟨Session.execute u envs s cmd frame, false⟩ ∧
        Sound u f limits store (Session.execute u envs s cmd frame)) ∨
      ((execute u envs f s cmd frame).broken = true ∧
        Cut u f limits store (execute u envs f s cmd frame).session
          (Session.execute u envs s cmd frame)) := by
  have hfollows := hs.follows.execute u envs limits store s cmd frame hframe
  unfold execute
  unfold Session.execute at hfollows ⊢
  simp only at hfollows ⊢
  cases hrun : (serverRegistry.execute u (envs s.served.length) cmd).run s.store with
  | none =>
    rw [hrun] at hfollows
    exact .inl ⟨rfl, hfollows, hs.out, hs.faultless⟩
  | some r =>
    obtain ⟨result, after⟩ := r
    rw [hrun] at hfollows
    simp only at hfollows ⊢
    cases hfault : f.reply s.served.length with
    | none =>
      refine .inl ⟨by simp [delivered], hfollows, by simp [hs.out], fun i hi => ?_⟩
      simp only [List.length_append, List.length_singleton] at hi
      rcases Nat.lt_succ_iff_lt_or_eq.mp hi with hlt | rfl
      · exact hs.faultless i hlt
      · exact hfault
    | some sent =>
      refine .inr ⟨rfl, ⟨hfollows.limits_eq, hfollows.chain, hfollows.log_eq, hfollows.frames⟩,
        List.prefix_rfl, ?_⟩
      exact ⟨s.served, _, sent, rfl, hs.faultless, hfault, by simp [hs.out, delivered]⟩

theorem Cut.later (w t t' : Session) (h : Cut u f limits store w t)
    (hgrows : t.served <+: t'.served) :
    Cut u f limits store w t' := ⟨h.1, h.2.1.trans hgrows, h.2.2⟩

theorem serve_cases (rounds : Nat) (data : Bytes) (s : Session) (hs : Sound u f limits store s) :
    (serve u envs f rounds data s = ⟨Session.serve u envs rounds data s, false⟩ ∧
        Sound u f limits store (Session.serve u envs rounds data s)) ∨
      ((serve u envs f rounds data s).broken = true ∧
        Cut u f limits store (serve u envs f rounds data s).session
          (Session.serve u envs rounds data s)) := by
  induction rounds generalizing data s with
  | zero => exact .inl ⟨rfl, hs⟩
  | succ rounds ih =>
    have hcodec : ∀ codec : RespCodec, codec.limits = limits → ∀ status,
        Sound u f limits store { s with codec, status } :=
      fun codec hl status => ⟨⟨hl, hs.follows.chain, hs.follows.log_eq, hs.follows.frames⟩, hs.out,
        hs.faultless⟩
    have hlimits : (s.codec.decodeWithFrame u data).2.limits = limits := by
      rw [s.codec.decodeWithFrame_limits u data, hs.follows.limits_eq]
    rcases hdecode : s.codec.decodeWithFrame u data with ⟨e | _ | ⟨cmd, frame⟩, codec⟩
    · rw [hdecode] at hlimits
      simp only [serve, Session.serve, hdecode]
      exact .inl ⟨trivial, hcodec codec hlimits _⟩
    · rw [hdecode] at hlimits
      simp only [serve, Session.serve, hdecode]
      exact .inl ⟨trivial, hcodec codec hlimits _⟩
    · obtain ⟨hframe, hl, -⟩ := RespCodec.decodeWithFrame_some u _ _ _ _ _ hdecode
      rw [hs.follows.limits_eq] at hframe hl
      simp only [serve, Session.serve, hdecode]
      rcases execute_cases u envs f limits store _ (hcodec codec hl s.status) cmd frame hframe with
          ⟨hsame, hsound⟩ | ⟨hbroken, hcut⟩
      · simp only [hsame, true_and]
        split_ifs
        · exact ih [] _ hsound
        · exact .inl ⟨rfl, hsound⟩
      · rw [if_neg (by simp [hbroken])]
        refine .inr ⟨hbroken, hcut.later u f limits store _ _ _ ?_⟩
        split_ifs
        · exact Session.serve_served u envs rounds [] _
        · exact List.prefix_rfl

/-! ## Read by read -/

/--
The two sessions are the same, or have ended on the same commands, or the first was cut short.
-/
inductive Beside : Wire → Session → Prop
  | running (s : Session) (hs : Sound u f limits store s) : Beside ⟨s, false⟩ s
  | ended (s t : Session) (hs : s.status ≠ .running) (hstatus : t.status ≠ .running)
    (hfollows : Session.Follows u limits store s) (hserved : s.served = t.served)
    (hstore : s.store = t.store) (hfaultless : ∀ i < t.served.length, f.reply i = none)
    (last : Bytes) (hplain : t.out = (t.served.map fun x => sendResponse x.result) ++ [last])
    (hout : s.out = (t.served.map fun x => sendResponse x.result) ++ [delivered f.farewell last]) :
    Beside ⟨s, false⟩ t
  | cut (s t : Session) (ys : List Served) (x : Served) (sent : Nat)
    (hfollows : Session.Follows u limits store s)
    (hgrows : s.served <+: t.served) (hserved : s.served = ys ++ [x])
    (hfaultless : ∀ i < ys.length, f.reply i = none) (hfault : f.reply ys.length = some sent)
    (hout : s.out = (ys.map fun y => sendResponse y.result) ++
      [(sendResponse x.result).take sent, delivered f.farewell internalError]) : Beside ⟨s, true⟩ t

theorem beside_finish (w : Wire) (t : Session)
    (h : (w = ⟨t, false⟩ ∧ Sound u f limits store t) ∨
      (w.broken = true ∧ Cut u f limits store w.session t)) :
    Beside u f limits store (w.finish f) t.finish := by
  rcases h with ⟨rfl, hs⟩ |
      ⟨hbroken, hfollows, hgrows, ys, x, sent, hserved, hfaultless, hfault, hout⟩
  · unfold finish Session.finish
    cases hstatus : t.status with
    | failed e =>
      simp only [hstatus, Bool.false_eq_true, if_false]
      refine .ended _ _ nofun nofun ?_ rfl rfl hs.faultless (Session.errorReply e) (by rw [hs.out])
        (by rw [hs.out])
      exact ⟨hs.follows.limits_eq, hs.follows.chain, hs.follows.log_eq, hs.follows.frames⟩
    | running | closed | panicked =>
      simp only [hstatus, Bool.false_eq_true, if_false]
      exact .running t hs
  · obtain ⟨session, broken⟩ := w
    obtain rfl : broken = true := hbroken
    unfold finish
    simp only [if_true]
    refine .cut _ _ ys x sent ?_ ?_ hserved hfaultless hfault ?_
    · exact ⟨hfollows.limits_eq, hfollows.chain, hfollows.log_eq, hfollows.frames⟩
    · rw [Session.finish_served]
      exact hgrows
    · simp only at hout
      simp [hout]

theorem beside_read (data : Bytes) (w : Wire) (t : Session) (h : Beside u f limits store w t) :
    Beside u f limits store
      (if w.broken = false ∧
        w.session.status = .running then (processBuffer u envs f data w.session).finish f else w)
      (if t.status = .running then (Session.processBuffer u envs data t).finish else t) := by
  cases h with
  | running _ hs =>
    simp only [true_and]
    split_ifs
    · exact beside_finish u f limits store _ _ (serve_cases u envs f limits store _ data t hs)
    · exact .running t hs
  | ended s _ hs hstatus hfollows hserved hstore hfaultless last hplain hout =>
    rw [if_neg (fun h => hs h.2), if_neg hstatus]
    exact .ended s t hs hstatus hfollows hserved hstore hfaultless last hplain hout
  | cut s _ ys x sent hfollows hgrows hserved hfaultless hfault hout =>
    rw [if_neg (by simp)]
    refine .cut s _ ys x sent hfollows (hgrows.trans ?_) hserved hfaultless hfault hout
    split_ifs
    · rw [Session.finish_served]
      exact Session.serve_served u envs _ data t
    · exact List.prefix_rfl

theorem beside_handle (reads : List Bytes) (w : Wire) (t : Session)
    (h : Beside u f limits store w t) :
    Beside u f limits store (handle u envs f reads w) (Session.handle u envs reads t) := by
  induction reads generalizing w t with
  | nil => exact h
  | cons data reads ih => exact ih _ _ (beside_read u envs f limits store data w t h)

/--
Whatever faults there are, the commands are executed up to the first reply that does not get out,
with that one, and all of them are logged as without faults. The client has the other replies, a
part of this one, and then a part of an error. If every reply gets out, only the error at the end of
the session may be cut.
-/
theorem replies_lost (reads : List Bytes) :
    let w := handle u envs f reads ⟨.start limits store, false⟩
    let t := handleConnection u limits envs reads store
    Session.Chain u store w.session.served w.session.store ∧
      w.session.log = (w.session.served.filter (Served.isLogged u)).map Served.frame ∧
      if w.broken then
        ∃ ys x sent, w.session.served = ys ++ [x] ∧ ys ++ [x] <+: t.served ∧
          (∀ i < ys.length, f.reply i = none) ∧ f.reply ys.length = some sent ∧
          w.session.out = (ys.map fun y => sendResponse y.result) ++
            [(sendResponse x.result).take sent, delivered f.farewell internalError]
      else w.session.served = t.served ∧ w.session.store = t.store ∧
        (∀ i < t.served.length, f.reply i = none) ∧
        ∃ last : Option Bytes,
          t.out = (t.served.map fun x => sendResponse x.result) ++ last.toList ∧
          w.session.out = (t.served.map fun x => sendResponse x.result) ++
            (last.map (delivered f.farewell)).toList := by
  intro w t
  have hstart : Beside u f limits store ⟨.start limits store, false⟩ (.start limits store) :=
    .running _ ⟨Session.follows_start u limits store, rfl, by simp [Session.start]⟩
  have hbeside : Beside u f limits store w t := beside_handle u envs f limits store reads _ _ hstart
  clear_value w t
  cases hbeside with
  | running _ hs =>
    have hout := hs.out.trans (List.append_nil _).symm
    exact ⟨hs.follows.chain, hs.follows.log_eq, rfl, rfl, hs.faultless, none, hout, hout⟩
  | ended s _ hs hstatus hfollows hserved hstore hfaultless last hplain hout =>
    exact ⟨hfollows.chain, hfollows.log_eq, hserved, hstore, hfaultless, some last, hplain, hout⟩
  | cut s _ ys x sent hfollows hgrows hserved hfaultless hfault hout =>
    refine ⟨hfollows.chain, hfollows.log_eq, ys, x, sent, hserved, ?_, hfaultless, hfault, hout⟩
    rwa [← hserved]

end Wire

/-! ## What a reader makes of it -/

theorem parseI32_chars (s : String) (i : Int) (h : parseI32 s = some i) : ch 'E' ∉ utf8 s := by
  obtain ⟨-, hsigned⟩ : _ ∧ Lib.Decimal.signed s.toList = some i := by
    rw [parseI32, Lib.Decimal.within, Option.filter_eq_some_iff] at h
    exact h.symm
  have hchar : ∀ c ∈ s.toList, c.toNat ≤ 57 := by
    intro c hc
    rcases Lib.Decimal.mem_signed _ i hsigned c hc with rfl | rfl | hdigit
    · decide
    · decide
    · exact (isDigit_toNat c hdigit).2
  rw [utf8_of_ascii s fun c hc => Nat.lt_of_le_of_lt (hchar c hc) (by decide), List.mem_map]
  rintro ⟨c, hc, heq⟩
  have hc := hchar c hc
  have := congrArg UInt8.toNat heq
  simp [ch] at this
  omega

/-- The last error without its line end. -/
def internalText : Bytes := utf8 "-ERR internal server error"

theorem internalError_eq : internalError = internalText ++ crlf := by decide +kernel

theorem length_internalText : internalText.length = 26 := by decide +kernel

/-- Only at its very end is there a line end in the error. -/
theorem internalError_lineEnd : ∀ k < 26, ((internalText ++ crlf).drop k).take 2 ≠ crlf := by
  decide +kernel

/-- The beginning of a length with the error behind it is no length. -/
theorem parse_broken_header (limits : CodecLimits) (digits : Bytes)
    (hdigits : (10 : UInt8) ∉ digits) (b' : Option Bytes) (rest : Bytes) :
    parseRespValue limits (ch '$' :: (digits ++ internalError)) ≠ .done (.bulkString b') rest := by
  intro h
  replace h : parseBulkString limits (digits ++ internalError) = .done (.bulkString b') rest := h
  obtain ⟨line, mid, hline, hlength⟩ := (parseLength_eq_done ..).mp h
  have hplain : ¬ crlf <:+: digits ++ internalText := by
    intro hin
    have hmem : (10 : UInt8) ∈ digits ++ internalText := hin.subset (by decide)
    rcases List.mem_append.mp hmem with hmem | hmem
    · exact hdigits hmem
    · revert hmem
      decide +kernel
  have hsplit := splitLine_line (digits ++ internalText) [] hplain
  rw [List.append_nil, List.append_assoc, ← internalError_eq, (readLine_eq_done ..).mp hline,
    Option.some.injEq, Prod.mk.injEq] at hsplit
  have hletter : ch 'E' ∈ utf8 line := by
    rw [hsplit.1]
    exact List.mem_append_right _ (by decide +kernel)
  rcases hlength with ⟨hnull, -, -⟩ | ⟨n, hn, -, -⟩
  · exact parseI32_chars line _ hnull hletter
  · exact parseI32_chars line _ hn hletter

/--
Some bytes of a bulk string with the error behind them are a bulk string if the error ends just
where it should.
-/
theorem payload_broken (b : Bytes) (m : Nat) (hm : m < b.length + 2) (b' : Option Bytes)
    (rest : Bytes) :
    payload b.length ((b ++ crlf).take m ++ internalError) = .done (.bulkString b') rest ↔
      m + 26 = b.length ∧ b' = some (b.take m ++ internalText) ∧ rest = [] := by
  have hcrlf : crlf.length = 2 := rfl
  have htext := length_internalText
  unfold payload
  rw [internalError_eq]
  by_cases hle : m ≤ b.length
  · have htake : (b ++ crlf).take m = b.take m := List.take_append_of_le_length hle
    have hdrop : (b.take m ++ (internalText ++ crlf)).drop b.length = (internalText ++
      crlf).drop (b.length - m) := by
      rw [List.drop_append, List.drop_eq_nil_of_le (by simp), List.nil_append, List.length_take,
        Nat.min_eq_left hle]
    rw [htake, hdrop]
    simp only [List.length_append, List.length_take, htext, hcrlf, Nat.min_eq_left hle]
    by_cases hshort : m + (26 + 2) < b.length + 2
    · rw [if_pos hshort]
      exact iff_of_false nofun fun h => by omega
    · rw [if_neg hshort]
      by_cases hend : m + 26 = b.length
      · have hk : b.length - m = 26 := by omega
        have hlast : (internalText ++ crlf).drop 26 = crlf := by decide +kernel
        rw [hk, hlast, if_pos (show crlf.take 2 = crlf from rfl)]
        have htext' : (b.take m ++
          (internalText ++ crlf)).take b.length = b.take m ++ internalText := by
          rw [← List.append_assoc]
          exact List.take_left' (by simp [htext, Nat.min_eq_left hle, hend])
        have hrest : (b.take m ++ (internalText ++ crlf)).drop (b.length + 2) = [] :=
          List.drop_eq_nil_of_le (by simp [htext, hcrlf, Nat.min_eq_left hle]; omega)
        rw [htext', hrest]
        simp only [Parsed.done.injEq, RespValue.bulkString.injEq, hend, true_and]
        exact and_congr eq_comm eq_comm
      · rw [if_neg (internalError_lineEnd _ (by omega))]
        exact iff_of_false nofun fun h => hend h.1
  · -- The reply was cut within its line end.
    have hm' : m = b.length + 1 := by omega
    have hbreak : ((b ++ crlf).take m ++
      (internalText ++ crlf)).drop b.length = 13 :: (internalText ++ crlf) := by
      rw [hm', List.take_append, List.take_of_length_le (by omega), Nat.add_sub_cancel_left,
        List.append_assoc, List.drop_left]
      rfl
    have hno : (13 :: (internalText ++ crlf)).take 2 ≠ crlf := by decide +kernel
    rw [hbreak, if_neg hno]
    refine iff_of_false ?_ fun h => by omega
    split_ifs <;> nofun

/--
A bulk reply is cut and the error gets out whole. A reader takes the two for a value if the error is
just as long as what is missing, and then for a wrong one: the end of the value is the text of the
error.
-/
theorem cut_reply_misread (limits : CodecLimits) (b : Bytes)
    (hb : b.length ≤ limits.maxBulkSize ∧ b.length < 2 ^ 31) (sent : Nat)
    (hsent : sent < (sendResponse (.ok (.bulk b))).length) (b' : Option Bytes) (rest : Bytes) :
    parseRespValue limits ((sendResponse (.ok (.bulk b))).take sent ++ internalError) =
      .done (.bulkString b') rest ↔
      26 ≤ b.length ∧ sent + internalError.length = (sendResponse (.ok (.bulk b))).length ∧
        b' = some (b.take (b.length - 26) ++ internalText) ∧ rest = [] := by
  have hreply : sendResponse (.ok (.bulk b)) =
      ch '$' :: (utf8 (toString b.length) ++ crlf ++ (b ++ crlf)) := by
    simp [sendResponse, RespCodec.encode, ResponseValue.bulk, encodeValue]
  have hcrlf : crlf.length = 2 := rfl
  have herror : internalError.length = 28 := by decide +kernel
  rw [hreply] at hsent ⊢
  simp only [List.length_cons, List.length_append, hcrlf, herror] at hsent ⊢
  by_cases hheader : sent < (utf8 (toString b.length)).length + 3
  · -- The length itself was cut.
    refine iff_of_false ?_ fun h => by omega
    cases sent with
    | zero =>
      intro h
      replace h : parseError (internalText.tail ++ crlf) = .done (.bulkString b') rest := h
      obtain ⟨line, mid, -, hret⟩ := (andThen_eq_done ..).mp h
      cases hret
    | succ j =>
      rw [List.take_succ_cons, List.cons_append]
      refine parse_broken_header limits _ ?_ b' rest
      rw [List.take_append_of_le_length (by simp only [List.length_append, hcrlf]; omega),
        List.take_append]
      intro hmem
      rcases List.mem_append.mp hmem with hmem | hmem
      · rcases utf8_toString_bytes b.length 10 (List.mem_of_mem_take hmem) with h | ⟨h, -⟩ <;>
            revert h <;> decide
      · have hpart : crlf.take (j - (utf8 (toString b.length)).length) <+: crlf.take 1 :=
          List.take_prefix_take_left (by omega)
        revert hmem
        exact fun hmem => absurd (hpart.subset hmem) (by decide)
  · obtain ⟨m, rfl⟩ : ∃ m, sent = (utf8 (toString b.length)).length + 3 + m :=
      ⟨sent - ((utf8 (toString b.length)).length + 3), by omega⟩
    have htake : (ch '$' :: (utf8 (toString b.length) ++ crlf ++ (b ++ crlf))).take
        ((utf8 (toString b.length)).length + 3 + m) =
        ch '$' :: (utf8 (toString b.length) ++ crlf ++ (b ++ crlf).take m) := by
      rw [show (utf8 (toString b.length)).length + 3 + m =
        (utf8 (toString b.length) ++ crlf).length + m + 1 by
        rw [List.length_append, hcrlf]; omega, List.take_succ_cons, List.take_length_add_append]
    rw [htake, List.cons_append, List.append_assoc]
    have hparse : parseRespValue limits (ch '$' ::
      (utf8 (toString b.length) ++ crlf ++ ((b ++ crlf).take m ++ internalError))) =
        payload b.length ((b ++ crlf).take m ++ internalError) :=
      parseLength_line "bulk string" limits.maxBulkSize (.bulkString none) payload b.length _ hb.1
      hb.2
    rw [hparse, payload_broken b m (by omega)]
    constructor
    · rintro ⟨hend, hb', hrest⟩
      refine ⟨by omega, by omega, ?_, hrest⟩
      rw [hb', ← hend, Nat.add_sub_cancel]
    · rintro ⟨hlong, hend, hb', hrest⟩
      have hm : m + 26 = b.length := by omega
      refine ⟨hm, ?_, hrest⟩
      rw [hb', ← hm, Nat.add_sub_cancel]

def longValue : Bytes := utf8 "abcdefghijklmnopqrstuvwxyz0123"

theorem longValue_misread :
    parseRespValue .default ((sendResponse (.ok (.bulk longValue))).take 9 ++ internalError) =
      .done (.bulkString (some (utf8 "abcd-ERR internal server error"))) [] :=
  (cut_reply_misread .default longValue (by decide +kernel) 9 (by decide +kernel) _ []).mpr
    ⟨by decide +kernel, by decide +kernel, by decide +kernel, rfl⟩

end RustyPotato
