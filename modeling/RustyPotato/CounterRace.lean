import RustyPotato.Commands.Strings
import RustyPotato.Concurrent
import RustyPotato.Lib.Race

/-!
# Counters under concurrent clients

`incr_by` reads and writes under one lock, unless it meets an expired entry. Then it removes the
entry, lets go of the lock and inserts its own amount, whatever others have counted in between.
-/

namespace RustyPotato

open Lib.Threads Lib.Machine

inductive CounterCall where
  | incr
  | decr
deriving DecidableEq

namespace CounterCall

def amount : CounterCall → I64
  | incr => incrAmount
  | decr => decrAmount

def body (key : String) (call : CounterCall) : StoreProg (Except RustyPotatoError I64) :=
  Concurrent.incrBy key call.amount

/-- What a call is to do to the value under the key, if there is one. -/
def spec (call : CounterCall) : Option ValueType → Except RustyPotatoError I64 × Option ValueType
  | none => (.ok call.amount, some (.integer call.amount))
  | some v =>
    match v.toInteger with
    | .error err => (.error err, some v)
    | .ok n =>
      match n.checkedAdd call.amount with
      | none => (.error .integerOverflow, some v)
      | some m => (.ok m, some (.integer m))

end CounterCall

/-- The call changes what is under its key. -/
def StoreStep.counts (l : StoreStep) : Bool := l.call = .entry ∨ l.call = .insert

/-- The client has removed an expired entry and has yet to insert its own. -/
def StoreStep.recreates (l : StoreStep) : Bool := l.call = .removeIndex ∨ l.call = .insert

/-- The value under the key, unless it has expired by then. -/
def MemoryStore.valueAt (c : Clock) (key : String) (s : MemoryStore) : Option ValueType :=
  ((s.slot key).unexpired c).map StoredValue.value

/--
A key does not expire during the race: what has expired by the end had expired before the start.
-/
def Slot.Settled (first last : Clock) (t : Slot) : Prop :=
  ∀ e, t.entry = some e → e.isExpired last = true → e.isExpired first = true

/-- Between the first and the last reading all clocks agree on what has expired. -/
theorem Slot.Settled.isExpired_eq (first last : Clock) (t : Slot) (h : t.Settled first last)
    (c : Clock) (hc : first.le c ∧ c.le last) (e : StoredValue) (he : t.entry = some e) :
    e.isExpired c = e.isExpired last := by
  cases hlast : e.isExpired last with
  | true => exact Entry.isExpired_mono first c hc.1 e.toEntry (h e he hlast)
  | false => exact e.isExpired_before c last hc.2 hlast

section
variable (first last : Clock) (key : String)

theorem valueAt_put (s : MemoryStore) (t : Slot) :
    (s.put key t).valueAt last key = (t.unexpired last).map StoredValue.value := by
  rw [MemoryStore.valueAt, MemoryStore.slot_put_self]

/-- Under the lock: the whole effect, or an expired entry removed. -/
theorem incrEntry_cases (call : CounterCall) (c : Clock) (t : Slot)
    (hsame : ∀ e, t.entry = some e → e.isExpired c = e.isExpired last) :
    ((t.incrEntry c call.amount).1 = some (call.spec ((t.unexpired last).map StoredValue.value)).1 ∧
        (((t.incrEntry c call.amount).2.unexpired last).map StoredValue.value) =
          (call.spec ((t.unexpired last).map StoredValue.value)).2) ∨
      ((t.incrEntry c call.amount).1 = none ∧ (∃ e, t.entry = some e ∧ e.isExpired last = true) ∧
        t.unexpired last = none ∧ (t.incrEntry c call.amount).2 = { t with entry := none }) := by
  obtain ⟨_ | e, i⟩ := t
  · exact .inl ⟨rfl, rfl⟩
  · have hc := hsame e rfl
    cases hexp : e.isExpired last with
    | true =>
      refine .inr ⟨?_, ⟨e, rfl, hexp⟩, Slot.unexpired_expired last e i hexp, ?_⟩
      · simp [Slot.incrEntry, hc, hexp]
      · simp [Slot.incrEntry, hc, hexp]
    | false =>
      left
      rw [Slot.unexpired_alive last e i hexp, Option.map_some]
      unfold Slot.incrEntry CounterCall.spec
      simp only [hc, hexp, Bool.false_eq_true, if_false]
      cases e.value.toInteger with
      | error err => simp [Slot.unexpired_alive last e i hexp]
      | ok n =>
        simp only
        cases n.checkedAdd call.amount with
        | none => simp [Slot.unexpired_alive last e i hexp]
        | some m =>
          have hnew : ({ e with value := .integer m }.touch c).isExpired last = false := hexp
          simp [Slot.unexpired_alive last _ i hnew]

theorem settled_incrEntry (c : Clock) (increment : I64) (t : Slot) (h : t.Settled first last) :
    (t.incrEntry c increment).2.Settled first last := by
  intro e' he' hexp
  rcases Slot.inherits_incrEntry c increment t e' he' with hnone | ⟨e, he, hsame⟩
  · rw [e'.isExpired_of_none last hnone] at hexp
    cases hexp
  · rw [StoredValue.isExpired_congr _ e e' hsame] at hexp ⊢
    exact h e he hexp

/-- Counters as an object: a client that recreates the key relies on nobody counting in between. -/
def counter : Object StoreStep Clock MemoryStore CounterCall (Except RustyPotatoError I64)
    (Option ValueType) where
  body := CounterCall.body key
  spec := CounterCall.spec
  view := MemoryStore.valueAt last key
  inv s := (s.slot key).Settled first last
  env c := first.le c ∧ c.le last
  changes := StoreStep.counts
  guarded := StoreStep.recreates

/-- A client that has removed an expired entry, while nobody counts. -/
theorem recreate_pending (call : CounterCall) :
    (counter first last key).Pending call none (do
      Concurrent.removeIndex false key
      Concurrent.insert key (.integer call.amount)
      return .ok call.amount) := by
  refine Object.pending_atomic _ _ _ _ _ _ fun c s hc hs hguard => ?_
  have hnone : s.valueAt last key = none := hguard rfl
  have hview : (counter first last key).view (s.put key { s.slot key with index := none }) =
      s.valueAt last key :=
    valueAt_put last key s _
  refine ⟨?_, fun _ => hview, .inl ⟨hview, ?_⟩⟩
  · intro e he
    rw [MemoryStore.slot_atKey, if_pos rfl] at he
    exact hs e he
  · refine Object.pending_atomic _ _ _ _ _ _ fun c s' hc hs' hguard' => ?_
    have hnone' : s'.valueAt last key = none := (hguard' rfl).trans hnone
    refine ⟨?_, nofun, .inr ⟨?_, ?_⟩⟩
    · intro e he hexp
      rw [MemoryStore.slot_atKey, if_pos rfl] at he
      cases he
      cases hexp
    · have hspec : (counter first last key).view s' = none := hnone'
      rw [hspec]
      exact valueAt_put last key s' _
    · have hspec : (counter first last key).view s' = none := hnone'
      rw [hspec]
      rfl

theorem counter_pending (call : CounterCall) (t : Option ValueType) :
    (counter first last key).Pending call t (call.body key) := by
  refine Object.pending_atomic _ _ _ _ _ _ fun c s hc hs _ => ?_
  have hinv : (s.atKey key (Slot.incrEntry c call.amount)).2.slot key |>.Settled first last := by
    rw [MemoryStore.slot_atKey, if_pos rfl]
    exact settled_incrEntry first last c call.amount _ hs
  have hput : (s.atKey key (Slot.incrEntry c call.amount)).2.valueAt last key =
      (((s.slot key).incrEntry c call.amount).2.unexpired last).map StoredValue.value :=
      valueAt_put last key s _
  refine ⟨hinv, nofun, ?_⟩
  rcases incrEntry_cases last call c (s.slot key)
      (fun e he => hs.isExpired_eq first last _ c hc e he) with
    ⟨hresult, hview⟩ | ⟨hresult, -, hnone, hslot⟩
  · refine .inr ⟨hput.trans hview, ?_⟩
    rw [MemoryStore.atKey_fst, hresult]
    rfl
  · have hbefore : s.valueAt last key = none := by rw [MemoryStore.valueAt, hnone]; rfl
    refine .inl ⟨?_, ?_⟩
    · refine hput.trans ?_
      rw [hslot]
      exact hbefore.symm
    · have hview : (counter first last key).view s = none := hbefore
      rw [MemoryStore.atKey_fst, hresult, hview]
      exact recreate_pending first last key call

/-! ## A key that has not expired -/

/-- The same calls while the key is missing or live: nothing is guarded. -/
def liveCounter : Object StoreStep Clock MemoryStore CounterCall (Except RustyPotatoError I64)
    (Option ValueType) where
  body := CounterCall.body key
  spec := CounterCall.spec
  view := MemoryStore.valueAt last key
  inv s := ∀ e, (s.slot key).entry = some e → e.isExpired last = false
  env c := c.le last
  changes := StoreStep.counts
  guarded _ := false

theorem liveCounter_pending (call : CounterCall) (t : Option ValueType) :
    (liveCounter last key).Pending call t (call.body key) := by
  refine Object.pending_atomic _ _ _ _ _ _ fun c s hc hs _ => ?_
  have hsame : ∀ e, (s.slot key).entry = some e → e.isExpired c = e.isExpired last := by
    intro e he
    rw [hs e he]
    exact e.isExpired_before c last hc (hs e he)
  have hput : (s.atKey key (Slot.incrEntry c call.amount)).2.valueAt last key =
      (((s.slot key).incrEntry c call.amount).2.unexpired last).map StoredValue.value :=
      valueAt_put last key s _
  refine ⟨?_, nofun, ?_⟩
  · show ((s.atKey key _).2.slot key).Lasts last
    rw [MemoryStore.slot_atKey, if_pos rfl]
    exact Slot.Lasts.inherit last _ _ hs (Slot.inherits_incrEntry c call.amount (s.slot key))
  · rcases incrEntry_cases last call c (s.slot key) hsame with
        ⟨hresult, hview⟩ | ⟨-, ⟨e, he, hexp⟩, -⟩
    · refine .inr ⟨hput.trans hview, ?_⟩
      rw [MemoryStore.atKey_fst, hresult]
      rfl
    · rw [hs e he] at hexp
      cases hexp

end

/-! ## The sum -/

/-- The number that a missing key or an integer counts for. -/
def countOf : Option ValueType → Option Int
  | none => some 0
  | some v => v.toInteger.toOption.map I64.val

theorem I64.checkedAdd_val (a b n : I64) (h : a.checkedAdd b = some n) : n.val = a.val + b.val := by
  unfold checkedAdd ofInt? at h
  split_ifs at h
  cases h
  rfl

theorem CounterCall.spec_count (call : CounterCall) (t : Option ValueType) (n : Int)
    (ht : countOf t = some n) (h : (call.spec t).1 ≠ .error .integerOverflow) :
    countOf (call.spec t).2 = some (n + call.amount.val) := by
  cases t with
  | none =>
    cases ht
    rw [Int.zero_add]
    rfl
  | some v =>
    unfold spec at h ⊢
    unfold countOf at ht
    simp only at h ht ⊢
    cases hv : v.toInteger with
    | error err =>
      rw [hv] at ht
      cases ht
    | ok m =>
      rw [hv] at ht
      cases ht
      simp only [hv] at h ⊢
      cases hadd : m.checkedAdd call.amount with
      | none => simp [hadd] at h
      | some k =>
        simp only
        rw [← I64.checkedAdd_val _ _ _ hadd]
        rfl

theorem sequential_count (h : List (CounterCall × Except RustyPotatoError I64))
    (t t' : Option ValueType) (n : Int) (ht : countOf t = some n)
    (hseq : Sequential CounterCall.spec t h t') (hok : ∀ x ∈ h, x.2 ≠ .error .integerOverflow) :
    countOf t' = some (n + (h.map fun x => x.1.amount.val).sum) := by
  induction h generalizing t n with
  | nil =>
    obtain rfl : t = t' := hseq
    simpa using ht
  | cons x h ih =>
    obtain ⟨hresult, hrest⟩ := hseq
    have hstep := x.1.spec_count t n ht (by rw [hresult]; exact hok x List.mem_cons_self)
    rw [ih _ _ hstep hrest fun y hy => hok y (List.mem_cons_of_mem _ hy), List.map_cons,
      List.sum_cons, Int.add_assoc]

theorem sum_amounts (calls : List CounterCall) :
    (calls.map fun call => call.amount.val).sum =
      (calls.count .incr : Int) - calls.count .decr := by
  induction calls with
  | nil => rfl
  | cons call calls ih =>
    rw [List.map_cons, List.sum_cons, ih]
    cases call with
    | incr =>
      have hamount : CounterCall.incr.amount.val = 1 := rfl
      simp only [hamount, List.count_cons_self,
        List.count_cons_of_ne (by decide : CounterCall.incr ≠ .decr)]
      omega
    | decr =>
      have hamount : CounterCall.decr.amount.val = -1 := rfl
      simp only [hamount, List.count_cons_self,
        List.count_cons_of_ne (by decide : CounterCall.decr ≠ .incr)]
      omega

theorem linearizable_count (calls : List CounterCall) (rs : List (Except RustyPotatoError I64))
    (t t' : Option ValueType) (n : Int) (ht : countOf t = some n)
    (h : Linearizable CounterCall.spec t calls rs t')
    (hok : ∀ r ∈ rs, r ≠ .error .integerOverflow) :
    countOf t' = some (n + (calls.count .incr - calls.count .decr)) := by
  obtain ⟨hlength, h, hperm, hseq⟩ := h
  have hsum : (h.map fun x => x.1.amount.val).sum =
      (calls.map fun call => call.amount.val).sum := by
    have hcalls : calls = (calls.zip rs).map Prod.fst := (List.map_fst_zip (by omega)).symm
    conv => rhs; rw [hcalls, List.map_map]
    exact (hperm.map _).sum_eq
  rw [sequential_count h t t' n ht hseq fun x hx => ?_, hsum, sum_amounts]
  exact hok x.2 (List.of_mem_zip (hperm.subset hx)).2

/-- How the key can be at the start, and the number it counts for. -/
inductive CounterState (c : Clock) : Option StoredValue → Int → Prop
  | missing : CounterState c none 0
  | expired (e : StoredValue) (h : e.isExpired c = true) : CounterState c (some e) 0
  | live (e : StoredValue) (n : I64) (h : e.isExpired c = false)
    (hvalue : e.value.toInteger = .ok n) :
    CounterState c (some e) n.val

theorem CounterState.count (first last : Clock) (t : Slot) (n : Int)
    (h : CounterState first t.entry n)
    (hsame : ∀ e, t.entry = some e → e.isExpired first = e.isExpired last) :
    countOf ((t.unexpired last).map StoredValue.value) = some n := by
  obtain ⟨entry, i⟩ := t
  cases h with
  | missing => rfl
  | expired e he =>
    rw [Slot.unexpired_expired last e i ((hsame e rfl).symm.trans he)]
    rfl
  | live e m he hvalue =>
    rw [Slot.unexpired_alive last e i ((hsame e rfl).symm.trans he)]
    simp [countOf, hvalue, Except.toOption]

/--
No increment is lost on a key that does not expire, and none on an expired one as long as nobody
counts while a client recreates it.
-/
theorem no_increment_lost (key : String) (first last : Clock) (hle : first.le last)
    (s s' : MemoryStore) (n : Int) (hstart : CounterState first (s.slot key).entry n)
    (calls : List CounterCall) (as : List (Nat × Clock))
    (hclocks : ∀ a ∈ as, first.le a.2 ∧ a.2.le last) (rs : List (Except RustyPotatoError I64))
    (hrun : run Race.step as ⟨s, calls.map (CounterCall.body key)⟩ = some ⟨s', rs.map .ret⟩)
    (hfree : (∀ e, (s.slot key).entry = some e → e.isExpired last = false) ∨
      (∀ e, (s.slot key).entry = some e → e.isExpired first = true) ∧
        Along Race.step (fun a r => r.undisturbed StoreStep.counts StoreStep.recreates a = true) as
          ⟨s, calls.map (CounterCall.body key)⟩) :
    Linearizable CounterCall.spec (s.valueAt last key) calls rs (s'.valueAt last key) ∧
      ((∀ r ∈ rs, r ≠ .error .integerOverflow) →
        countOf (s'.valueAt last key) = some (n + (calls.count .incr - calls.count .decr))) := by
  have hlinear : Linearizable CounterCall.spec (s.valueAt last key) calls rs
      (s'.valueAt last key) := by
    rcases hfree with hlive | ⟨hstale, hfree⟩
    · exact (liveCounter last key).linearizable (liveCounter_pending last key) calls s s' hlive as
        (fun a ha => (hclocks a ha).2) (Race.undisturbed_of_unguarded _ as _) rs hrun
    · have hsettled : (s.slot key).Settled first last := fun e he _ => hstale e he
      exact (counter first last key).linearizable (counter_pending first last
        key) calls s s' hsettled as hclocks hfree rs hrun
  have hsame : ∀ e, (s.slot key).entry = some e → e.isExpired first = e.isExpired last := by
    intro e he
    rcases hfree with hlive | ⟨hstale, -⟩
    · rw [hlive e he]
      exact e.isExpired_before first last hle (hlive e he)
    · exact (hstale e he).trans (Entry.isExpired_mono first last hle e.toEntry (hstale e he)).symm
  have hcount := hstart.count first last (s.slot key) n hsame
  exact ⟨hlinear, linearizable_count calls rs _ _ n hcount hlinear⟩

/-! ## Two clients on an expired counter -/

/-- A counter whose deadline has passed a hundred seconds ago. -/
def staleHits : MemoryStore :=
  MemoryStore.new.put "hits" ⟨some (.newWithExpiration Env.sample.clock (.string (utf8 "41")) 0),
    some 0⟩

/-- Two clients count, in these turns. -/
def hitsTurns (turns : List Nat) :
    Option (Race StoreStep Clock MemoryStore (Except RustyPotatoError I64)) :=
  run Race.step (turns.map fun i => (i, Env.sample.clock))
    ⟨staleHits, [CounterCall.incr, .incr].map (CounterCall.body "hits")⟩

/-- The first client recreates the counter before the second one comes. -/
theorem stale_hits_counted :
    ∃ (s' : MemoryStore) (rs : List (Except RustyPotatoError I64)),
      hitsTurns [0, 0, 0, 1] = some ⟨s', rs.map .ret⟩ ∧
        countOf (s'.valueAt Env.sample.clock "hits") = some 2 := by
  obtain ⟨s', rs, hrun, hok⟩ : ∃ (s' : MemoryStore) (rs : List (Except RustyPotatoError I64)),
      hitsTurns [0, 0, 0, 1] = some ⟨s', rs.map .ret⟩ ∧ ∀ r ∈ rs, r ≠ .error .integerOverflow :=
    ⟨_, [.ok _, .ok _], rfl, by simp⟩
  refine ⟨s', rs, hrun,
    (no_increment_lost "hits" Env.sample.clock Env.sample.clock (by decide) staleHits s' 0 ?_
      [.incr, .incr] _ ?_ rs hrun (.inr ⟨?_, ?_⟩)).2 hok⟩
  · exact .expired _ rfl
  · simp [Clock.le]
  · rintro e ⟨⟩
    rfl
  · exact along_of_check _ _ _ _ rfl

/-- The second client counts between the removal and the insert of the first. -/
theorem increment_lost :
    ∃ s', hitsTurns [0, 1, 0, 0] = some ⟨s', [.ok incrAmount, .ok incrAmount].map .ret⟩ ∧
      countOf (s'.valueAt Env.sample.clock "hits") = some 1 := ⟨_, rfl, rfl⟩

end RustyPotato
