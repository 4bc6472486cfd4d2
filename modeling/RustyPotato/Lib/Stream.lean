import Mathlib.Data.List.Forall2
import Mathlib.Tactic

/-!
# Parsers of a byte stream

A parser looks at what has arrived so far. It waits for more, fails, or finishes with a value and
leaves the rest. One that keeps its answer when more arrives gives the same values however the
stream is cut.
-/

namespace Lib.Stream

variable {ε β α γ : Type}

inductive Parsed (ε β α : Type) where
  | fail (e : ε)
  | more
  | done (a : α) (rest : List β)
deriving DecidableEq

/-- A function from the input so far. -/
abbrev Parser (ε β α : Type) := List β → Parsed ε β α

def Parsed.andThen : Parsed ε β α → (α → Parser ε β γ) → Parsed ε β γ
  | .fail e, _ => .fail e
  | .more, _ => .more
  | .done a rest, f => f a rest

def ret (a : α) : Parser ε β α := fun input => .done a input

def failWith (e : ε) : Parser ε β α := fun _ => .fail e

def wait : Parser ε β α := fun _ => .more

def andThen (p : Parser ε β α) (f : α → Parser ε β γ) : Parser ε β γ :=
  fun input => (p input).andThen f

/-- The next element of the stream. -/
def next : Parser ε β β
  | [] => .more
  | b :: rest => .done b rest

/-- The parser `n` times over. -/
def times (p : Parser ε β α) : Nat → Parser ε β (List α)
  | 0 => ret []
  | n + 1 => andThen p fun a => andThen (times p n) fun as => ret (a :: as)

/-! ## Parsers that keep their answer -/

/-- The parser keeps its answer when more arrives, and has read no further than where it stopped. -/
structure Streaming (p : Parser ε β α) : Prop where
  done_append : ∀ input a rest tail, p input = .done a rest →
    p (input ++ tail) = .done a (rest ++ tail)
  fail_append : ∀ input e tail, p input = .fail e → p (input ++ tail) = .fail e
  done_split : ∀ input a rest, p input = .done a rest → ∃ used, input = used ++ rest ∧
    p used = .done a []

theorem streaming_ret (a : α) : Streaming (ret a : Parser ε β α) where
  done_append := by
    intro input a' rest tail h
    cases h
    rfl
  fail_append := by
    intro input e tail h
    cases h
  done_split := by
    intro input a' rest h
    cases h
    exact ⟨[], rfl, rfl⟩

theorem streaming_failWith (e : ε) : Streaming (failWith e : Parser ε β α) where
  done_append := by
    intro input a rest tail h
    cases h
  fail_append := by
    intro input e' tail h
    exact h
  done_split := by
    intro input a rest h
    cases h

theorem streaming_wait : Streaming (wait : Parser ε β α) where
  done_append := by
    intro input a rest tail h
    cases h
  fail_append := by
    intro input e tail h
    cases h
  done_split := by
    intro input a rest h
    cases h

theorem streaming_next : Streaming (next : Parser ε β β) where
  done_append := by
    rintro (_ | ⟨b, input⟩) a rest tail h <;> cases h
    rfl
  fail_append := by
    rintro (_ | ⟨b, input⟩) e tail h <;> cases h
  done_split := by
    rintro (_ | ⟨b, input⟩) a rest h <;> cases h
    exact ⟨[b], rfl, rfl⟩

theorem andThen_eq_done (p : Parser ε β α) (f : α → Parser ε β γ) (input : List β) (c : γ)
    (rest : List β) :
    andThen p f input = .done c rest ↔ ∃ a mid, p input = .done a mid ∧ f a mid = .done c rest := by
  unfold andThen
  cases p input <;> simp [Parsed.andThen]

theorem andThen_done (p : Parser ε β α) (f : α → Parser ε β γ) (input : List β) (a : α)
    (rest : List β) (h : p input = .done a rest) : andThen p f input = f a rest := by
  unfold andThen
  rw [h]
  rfl

theorem andThen_eq_fail (p : Parser ε β α) (f : α → Parser ε β γ) (input : List β) (e : ε) :
    andThen p f input = .fail e ↔ p input = .fail e ∨ ∃ a mid, p input = .done a mid ∧
      f a mid = .fail e := by
  unfold andThen
  cases p input <;> simp [Parsed.andThen]

theorem streaming_andThen (p : Parser ε β α) (f : α → Parser ε β γ) (hp : Streaming p)
    (hf : ∀ a, Streaming (f a)) : Streaming (andThen p f) where
  done_append := by
    intro input c rest tail h
    obtain ⟨a, mid, ha, hc⟩ := (andThen_eq_done ..).mp h
    exact (andThen_eq_done ..).mpr
      ⟨a, mid ++ tail, hp.done_append _ _ _ tail ha, (hf a).done_append _ _ _ tail hc⟩
  fail_append := by
    intro input e tail h
    rcases (andThen_eq_fail ..).mp h with h | ⟨a, mid, ha, he⟩
    · exact (andThen_eq_fail ..).mpr (.inl (hp.fail_append _ _ tail h))
    · exact (andThen_eq_fail ..).mpr
        (.inr ⟨a, mid ++ tail, hp.done_append _ _ _ tail ha, (hf a).fail_append _ _ tail he⟩)
  done_split := by
    intro input c rest h
    obtain ⟨a, mid, ha, hc⟩ := (andThen_eq_done ..).mp h
    obtain ⟨first, rfl, hfirst⟩ := hp.done_split _ _ _ ha
    obtain ⟨second, rfl, hsecond⟩ := (hf a).done_split _ _ _ hc
    refine ⟨first ++ second, (List.append_assoc ..).symm,
      (andThen_eq_done ..).mpr ⟨a, second, ?_, hsecond⟩⟩
    simpa using hp.done_append _ _ _ second hfirst

theorem times_succ_eq_done (p : Parser ε β α) (n : Nat) (input : List β) (as : List α)
    (rest : List β) :
    times p (n + 1) input = .done as rest ↔
      ∃ a mid bs, p input = .done a mid ∧ times p n mid = .done bs rest ∧ as = a :: bs := by
  rw [times, andThen_eq_done]
  constructor
  · rintro ⟨a, mid, ha, h⟩
    obtain ⟨bs, mid', hbs, hret⟩ := (andThen_eq_done ..).mp h
    cases hret
    exact ⟨a, mid, bs, ha, hbs, rfl⟩
  · rintro ⟨a, mid, bs, ha, hbs, rfl⟩
    exact ⟨a, mid, ha, (andThen_eq_done ..).mpr ⟨bs, rest, hbs, rfl⟩⟩

theorem times_length (p : Parser ε β α) (n : Nat) (input rest : List β) (as : List α)
    (h : times p n input = .done as rest) : as.length = n := by
  induction n generalizing input as with
  | zero =>
    cases h
    rfl
  | succ n ih =>
    obtain ⟨a, mid, bs, -, hbs, rfl⟩ := (times_succ_eq_done ..).mp h
    simp [ih mid bs hbs]

theorem streaming_times (p : Parser ε β α) (hp : Streaming p) (n : Nat) :
    Streaming (times p n) := by
  induction n with
  | zero => exact streaming_ret _
  | succ n ih =>
    exact streaming_andThen _ _ hp fun a => streaming_andThen _ _ ih fun as => streaming_ret _

theorem Streaming.length_le (p : Parser ε β α) (hp : Streaming p) (input : List β) (a : α)
    (rest : List β) (h : p input = .done a rest) : rest.length ≤ input.length := by
  obtain ⟨used, rfl, -⟩ := hp.done_split _ _ _ h
  simp

theorem times_congr (p q : Parser ε β α) (hp : Streaming p) (n : Nat) (len : Nat)
    (hpq : ∀ input, input.length ≤ len → p input = q input) (input : List β)
    (hlen : input.length ≤ len) : times p n input = times q n input := by
  induction n generalizing input with
  | zero => rfl
  | succ n ih =>
    simp only [times, andThen, ← hpq input hlen]
    cases h : p input with
    | fail e => rfl
    | more => rfl
    | done a rest =>
      simp only [Parsed.andThen, andThen]
      rw [ih rest (le_trans (hp.length_le p input a rest h) hlen)]

/-! ## One value after the other -/

/--
Values as long as there are any, and what is left. Each takes some input, so the input bounds them.
-/
def drain (p : Parser ε β α) : Nat → List β → List α × List β
  | 0, buffer => ([], buffer)
  | n + 1, buffer =>
    match p buffer with
    | .done a rest => (a :: (drain p n rest).1, (drain p n rest).2)
    | _ => ([], buffer)

/-- Each of the inputs is one value, no more and no less. -/
def Frames (p : Parser ε β α) : List (List β) → List α → Prop :=
  List.Forall₂ fun frame a => p frame = .done a []

/-- The parser has something to wait for or to reject. -/
def Stuck (p : Parser ε β α) (buffer : List β) : Prop := ∀ a rest, p buffer ≠ .done a rest

variable (p : Parser ε β α)

theorem Streaming.length_lt (hp : Streaming p) (h0 : Stuck p []) (input : List β) (a : α)
    (rest : List β) (h : p input = .done a rest) : rest.length < input.length := by
  obtain ⟨used, rfl, hused⟩ := hp.done_split _ _ _ h
  have hpos : 0 < used.length := List.length_pos_of_ne_nil fun hnil => h0 a [] (hnil ▸ hused)
  rw [List.length_append]
  omega

theorem drain_stuck (buffer : List β) (h : Stuck p buffer) (n : Nat) :
    drain p n buffer = ([], buffer) := by
  cases n with
  | zero => rfl
  | succ n =>
    rw [drain]
    split
    · rename_i a rest ha
      exact absurd ha (h a rest)
    · rfl

theorem drain_frames (hp : Streaming p) (frames : List (List β)) (values : List α) (tail : List β)
    (hframes : Frames p frames values) (htail : Stuck p tail) (n : Nat) (hn : frames.length ≤ n) :
    drain p n (frames.flatten ++ tail) = (values, tail) := by
  induction hframes generalizing n with
  | nil => exact drain_stuck p tail htail n
  | @cons frame a frames values hframe _ ih =>
    obtain ⟨m, rfl⟩ : ∃ m, n = m + 1 := ⟨n - 1, by simp at hn; omega⟩
    have hdone := hp.done_append _ _ _ (frames.flatten ++ tail) hframe
    simp only [List.flatten_cons, List.append_assoc, drain, hdone, List.nil_append]
    rw [ih m (by simpa using hn)]

/-- Every buffer is a row of frames with a tail that gives no further value. -/
theorem exists_frames (hp : Streaming p) (h0 : Stuck p []) (buffer : List β) :
    ∃ frames values tail, buffer = frames.flatten ++ tail ∧ Frames p frames values ∧
      Stuck p tail := by
  induction hlen : buffer.length using Nat.strong_induction_on generalizing buffer with
  | _ len ih =>
    cases h : p buffer with
    | fail e => exact ⟨[], [], buffer, rfl, .nil, by simp [Stuck, h]⟩
    | more => exact ⟨[], [], buffer, rfl, .nil, by simp [Stuck, h]⟩
    | done a rest =>
      have hlt := hp.length_lt p h0 buffer a rest h
      obtain ⟨used, rfl, hused⟩ := hp.done_split _ _ _ h
      obtain ⟨frames, values, tail, rfl, hframes, htail⟩ := ih rest.length (by omega) rest rfl
      exact ⟨used :: frames, a :: values, tail, by simp, .cons hused hframes, htail⟩

theorem frames_ne_nil (h0 : Stuck p []) (frames : List (List β)) (values : List α)
    (h : Frames p frames values) : ∀ frame ∈ frames, frame ≠ [] := by
  induction h with
  | nil => simp
  | @cons frame a frames values hframe _ ih =>
    intro f hf
    rcases List.mem_cons.mp hf with rfl | hf
    · exact fun hnil => h0 a [] (hnil ▸ hframe)
    · exact ih f hf

theorem length_le_flatten (frames : List (List β)) (h : ∀ frame ∈ frames, frame ≠ []) :
    frames.length ≤ frames.flatten.length := by
  induction frames with
  | nil => simp
  | cons f frames ih =>
    have h1 := List.length_pos_of_ne_nil (h f List.mem_cons_self)
    have h2 := ih fun g hg => h g (List.mem_cons_of_mem _ hg)
    simp only [List.length_cons, List.flatten_cons, List.length_append]
    omega

/-- There is only one way to cut a stream into frames. -/
theorem frames_unique (hp : Streaming p) (fs gs : List (List β)) (as bs : List α)
    (t u : List β) (hf : Frames p fs as) (ht : Stuck p t) (hg : Frames p gs bs) (hu : Stuck p u)
    (h : fs.flatten ++ t = gs.flatten ++ u) : fs = gs ∧ as = bs ∧ t = u := by
  induction hf generalizing gs bs with
  | nil =>
    cases hg with
    | nil => exact ⟨rfl, rfl, h⟩
    | @cons g b gs bs hgb _ =>
      rw [List.flatten_cons, List.append_assoc, List.flatten_nil, List.nil_append] at h
      exact absurd (hp.done_append _ _ _ _ hgb) (h ▸ ht b _)
  | @cons f a fs as hfa _ ih =>
    have hdone := hp.done_append _ _ _ (fs.flatten ++ t) hfa
    rw [List.flatten_cons, List.append_assoc] at h
    cases hg with
    | nil =>
      rw [List.flatten_nil, List.nil_append] at h
      exact absurd hdone (h ▸ hu a _)
    | @cons g b gs bs hgb hgs =>
      rw [List.flatten_cons, List.append_assoc] at h
      have hdone' := hp.done_append _ _ _ (gs.flatten ++ u) hgb
      rw [← h, hdone, Parsed.done.injEq, List.nil_append, List.nil_append] at hdone'
      obtain ⟨rfl, hrest⟩ := hdone'
      rw [hrest] at h
      obtain ⟨rfl, rfl, rfl⟩ := ih gs bs hgs hrest
      exact ⟨by rw [List.append_cancel_right h], rfl, rfl⟩

/-- The beginning of a value is none. -/
theorem stuck_of_prefix (hp : Streaming p) (a b : List β) (v : α) (h : p (a ++ b) = .done v [])
    (hb : b ≠ []) : Stuck p a := by
  intro w rest hw
  have hdone := hp.done_append _ _ _ b hw
  rw [h, Parsed.done.injEq] at hdone
  exact hb (List.append_eq_nil_iff.mp hdone.2.symm).2

theorem more_of_prefix (hp : Streaming p) (a b : List β) (v : α) (h : p (a ++ b) = .done v [])
    (hb : b ≠ []) : p a = .more := by
  have hstuck := stuck_of_prefix p hp a b v h hb
  cases ha : p a with
  | fail e =>
    rw [hp.fail_append _ _ b ha] at h
    cases h
  | more => rfl
  | done w rest => exact absurd ha (hstuck w rest)

/-- As many rounds as the buffer is long are enough. -/
theorem drain_enough (hp : Streaming p) (h0 : Stuck p []) (buffer : List β) :
    ∃ frames values tail, buffer = frames.flatten ++ tail ∧ Frames p frames values ∧ Stuck p tail ∧
      ∀ n, buffer.length ≤ n → drain p n buffer = (values, tail) := by
  obtain ⟨fs, vs, t, rfl, hvs, ht⟩ := exists_frames p hp h0 buffer
  refine ⟨fs, vs, t, rfl, hvs, ht, fun n hn => drain_frames p hp fs vs t hvs ht n ?_⟩
  have := length_le_flatten fs (frames_ne_nil p h0 fs vs hvs)
  rw [List.length_append] at hn
  omega

theorem drain_done (hp : Streaming p) (h0 : Stuck p []) (buffer : List β) (a : α) (rest : List β)
    (h : p buffer = .done a rest) :
    drain p buffer.length buffer =
      (a :: (drain p rest.length rest).1, (drain p rest.length rest).2) := by
  have hlt := hp.length_lt p h0 buffer a rest h
  obtain ⟨n, hn⟩ : ∃ n, buffer.length = n + 1 := ⟨buffer.length - 1, by omega⟩
  obtain ⟨-, vs, t, -, -, -, hdrain⟩ := drain_enough p hp h0 rest
  rw [hn, drain, h]
  simp only
  rw [hdrain n (by omega), hdrain _ le_rfl]

/-- A buffer that gives no value holds less than the next frame, or no more than the tail. -/
theorem stuck_length_le (hp : Streaming p) (buffer rest : List β) (hbuffer : Stuck p buffer)
    (frames : List (List β)) (values : List α) (tail : List β) (hframes : Frames p frames values)
    (h : buffer ++ rest = frames.flatten ++ tail) :
    ∃ piece ∈ tail :: frames, buffer.length ≤ piece.length := by
  cases hframes with
  | nil =>
    refine ⟨tail, List.mem_cons_self, ?_⟩
    have := congrArg List.length h
    simp at this
    omega
  | @cons frame a frames values hframe _ =>
    refine ⟨frame, by simp, ?_⟩
    by_contra hlt
    rw [List.flatten_cons, List.append_assoc] at h
    obtain ⟨extra, rfl⟩ : ∃ extra, buffer = frame ++ extra := by
      have hpre : frame <+: buffer ++ rest := ⟨_, h.symm⟩
      obtain ⟨extra, hextra⟩ :=
        List.prefix_of_prefix_length_le hpre (List.prefix_append buffer rest) (by omega)
      exact ⟨extra, hextra.symm⟩
    exact hbuffer a ([] ++ extra) (hp.done_append _ _ _ extra hframe)

/-! ## A stream in chunks -/

/-- How much of `n` elements is no whole frame. -/
def leftOver : Nat → List (List β) → Nat
  | n, [] => n
  | n, frame :: frames => if frame.length ≤ n then leftOver (n - frame.length) frames else n

theorem leftOver_append (fs gs : List (List β)) (n : Nat) :
    leftOver (fs.flatten.length + n) (fs ++ gs) = leftOver n gs := by
  induction fs with
  | nil => simp
  | cons f fs ih =>
    rw [List.cons_append, leftOver, List.flatten_cons, List.length_append, if_pos (by omega), ← ih]
    congr 1
    omega

theorem leftOver_stuck (hp : Streaming p) (buffer rest : List β) (hbuffer : Stuck p buffer)
    (frames : List (List β)) (values : List α) (hframes : Frames p frames values)
    (h : buffer ++ rest = frames.flatten) : leftOver buffer.length frames = buffer.length := by
  cases hframes with
  | nil => rfl
  | @cons frame a frames values hframe _ =>
    refine if_neg fun hle => ?_
    rw [List.flatten_cons] at h
    obtain ⟨extra, rfl⟩ :=
      List.prefix_of_prefix_length_le ⟨_, h.symm⟩ (List.prefix_append buffer rest) hle
    exact hbuffer a _ (hp.done_append _ _ _ extra hframe)

/-- Up to the end of a frame, what is left over reaches back to its start. -/
theorem le_leftOver (fs gs : List (List β)) (frame : List β) (n : Nat)
    (hn : n < fs.flatten.length + frame.length) :
    n ≤ fs.flatten.length + leftOver n (fs ++ frame :: gs) := by
  by_cases hle : fs.flatten.length ≤ n
  · obtain ⟨m, rfl⟩ := Nat.exists_eq_add_of_le hle
    rw [leftOver_append, leftOver, if_neg (by omega)]
  · omega

/-- Takes every value out of the buffer after each chunk, and stops at the first failure. -/
def feed : List β → List (List β) → List α
  | _, [] => []
  | buffer, chunk :: chunks =>
    match p (buffer ++ chunk) with
    | .done _ _ =>
      let r := drain p (buffer ++ chunk).length (buffer ++ chunk)
      r.1 ++ feed r.2 chunks
    | .more => feed (buffer ++ chunk) chunks
    | .fail _ => []

theorem frames_of_stuck (hp : Streaming p) (buffer : List β) (hbuffer : Stuck p buffer)
    (frames : List (List β)) (values : List α) (tail : List β) (hframes : Frames p frames values)
    (htail : Stuck p tail) (h : buffer = frames.flatten ++ tail) : frames = [] ∧ values = [] ∧
      tail = buffer := by
  refine frames_unique p hp frames [] values [] tail buffer hframes htail .nil hbuffer ?_
  rw [List.flatten_nil, List.nil_append, h]

/-- Frames at the start of a stream are the first of all its frames. -/
theorem frames_split (hp : Streaming p) (h0 : Stuck p []) (frames fs : List (List β))
    (values vs : List α) (tail rest : List β) (hframes : Frames p frames values)
    (htail : Stuck p tail) (hfs : Frames p fs vs)
    (h : fs.flatten ++ rest = frames.flatten ++ tail) :
    ∃ gs ws, frames = fs ++ gs ∧ values = vs ++ ws ∧ Frames p gs ws ∧
      rest = gs.flatten ++ tail := by
  obtain ⟨gs, ws, u, hgs, hws, hu⟩ := exists_frames p hp h0 rest
  obtain ⟨hframes', hvalues, rfl⟩ :=
    frames_unique p hp frames (fs ++ gs) values (vs ++ ws) tail u hframes htail
      (List.rel_append hfs hws) hu (by rw [← h, hgs, List.flatten_append, List.append_assoc])
  exact ⟨gs, ws, hframes', hvalues, hws, hgs⟩

/-- The values do not depend on where the stream is cut. -/
theorem feed_eq (hp : Streaming p) (h0 : Stuck p []) (chunks : List (List β)) (buffer : List β)
    (hbuffer : Stuck p buffer) (frames : List (List β)) (values : List α) (tail : List β)
    (hframes : Frames p frames values) (htail : Stuck p tail)
    (h : buffer ++ chunks.flatten = frames.flatten ++ tail) : feed p buffer chunks = values := by
  induction chunks generalizing buffer frames values with
  | nil =>
    rw [List.flatten_nil, List.append_nil] at h
    exact (frames_of_stuck p hp buffer hbuffer frames values tail hframes htail h).2.1.symm
  | cons chunk chunks ih =>
    rw [List.flatten_cons, ← List.append_assoc] at h
    rw [feed]
    cases hc : p (buffer ++ chunk) with
    | fail e =>
      have hstuck : Stuck p (buffer ++ chunk ++ chunks.flatten) := by
        intro a rest
        rw [hp.fail_append _ _ _ hc]
        exact fun h => by cases h
      exact (frames_of_stuck p hp _ hstuck frames values tail hframes htail h).2.1.symm
    | more => exact ih _ (by simp [Stuck, hc]) frames values hframes h
    | done a rest =>
      obtain ⟨fs, vs, t, hfs, hvs, ht, hdrain⟩ := drain_enough p hp h0 (buffer ++ chunk)
      rw [hfs, List.append_assoc] at h
      obtain ⟨gs, ws, -, rfl, hws, hgs⟩ :=
        frames_split p hp h0 frames fs values vs tail _ hframes htail hvs h
      simp only [hdrain _ le_rfl]
      rw [ih t ht gs ws hws hgs]

end Lib.Stream
