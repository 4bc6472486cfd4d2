import RustyPotato.Answers
import RustyPotato.CounterRace
import RustyPotato.ExpiredAsMissing

/-!
# Counter arithmetic

A run of `INCR` and `DECR` on one key. Each moves the number by one or, at an end of the range of an
`i64`, reports an overflow and leaves it.
-/

namespace RustyPotato

open Cmd Parse

namespace CounterCall

def name : CounterCall → String
  | incr => "INCR"
  | decr => "DECR"

def command (key : String) (call : CounterCall) : ParsedCommand := ⟨call.name, [utf8 key]⟩

end CounterCall

def overflowReply : Except String ResponseValue :=
  .error "ERR increment or decrement would overflow"

/-- The answer to `incr_by`. -/
def countReply : Except RustyPotatoError I64 → Except String ResponseValue
  | .ok n => .ok (.integer n.val)
  | .error e => .error e.toClientError

theorem run_incrByCommand (name : String) (increment : I64) (env : Env) (key : String)
    (s : MemoryStore) :
    (incrByCommand name increment env [utf8 key]).run s =
      some (countReply ((s.slot key).incrBy env.clock increment).1,
        s.put key ((s.slot key).incrBy env.clock increment).2) := by
  have hkey : incrKey name [utf8 key] = some (.ok key) := argStr_key key []
  unfold incrByCommand
  rw [hkey, lift_ok_bind, run_bind]
  simp only [tryAtKey, MemoryStore.atKey]
  cases ((s.slot key).incrBy env.clock increment).1 <;> rfl

theorem respond_counter (u : CaseMap) (env : Env) (key : String) (call : CounterCall)
    (s : MemoryStore) :
    respond u env (call.command key) s =
      (some (countReply ((s.slot key).incrBy env.clock call.amount).1),
        s.put key ((s.slot key).incrBy env.clock call.amount).2) := by
  cases call with
  | incr =>
    exact respond_registered u env .incr (by decide) _ (arity_fixed _ _ _ rfl) s _ _
      (run_incrByCommand ..)
  | decr =>
    exact respond_registered u env .decr (by decide) _ (arity_fixed _ _ _ rfl) s _ _
      (run_incrByCommand ..)

/-! ## One command -/

/-- The key holds the number `n`, with the deadline `d` in its entry and `i` in the index. -/
def MemoryStore.Counts (key : String) (d i : Option Int) (n : I64) (s : MemoryStore) : Prop :=
  ∃ e, s.slot key = ⟨some e, i⟩ ∧ e.expiresAt = d ∧ e.value.toInteger = .ok n

/-- The next number is in range. -/
def CounterCall.Fits (call : CounterCall) (n : I64) : Prop :=
  -(2 ^ 63 : Int) ≤ n.val + call.amount.val ∧ n.val + call.amount.val < 2 ^ 63

theorem I64.checkedAdd_fits (call : CounterCall) (n : I64) (h : call.Fits n) :
    ∃ m : I64, n.checkedAdd call.amount = some m ∧ m.val = n.val + call.amount.val :=
  ⟨⟨n.val + call.amount.val, h⟩, dif_pos h, rfl⟩

theorem I64.checkedAdd_overflow (call : CounterCall) (n : I64) (h : ¬ call.Fits n) :
    n.checkedAdd call.amount = none := dif_neg h

section
variable (u : CaseMap) (env : Env) (key : String) (call : CounterCall) (s : MemoryStore)
  (d i : Option Int) (n : I64) (hs : s.Counts key d i n)
  (hlive : ∀ e : StoredValue, e.expiresAt = d → e.isExpired env.clock = false)

include hs hlive

theorem respond_fits (h : call.Fits n) :
    ∃ m : I64, m.val = n.val + call.amount.val ∧
      (respond u env (call.command key) s).1 = some (.ok (.integer m.val)) ∧
      (respond u env (call.command key) s).2.Counts key d i m := by
  obtain ⟨e, hslot, hd, hn⟩ := hs
  obtain ⟨m, hadd, hm⟩ := I64.checkedAdd_fits call n h
  have hincr : (s.slot key).incrBy env.clock call.amount =
      (.ok m, ⟨some ({ e with value := .integer m }.touch env.clock), i⟩) := by
    simp only [hslot, Slot.incrBy, hlive e hd, hn, hadd, Bool.false_eq_true, if_false]
  rw [respond_counter, hincr]
  exact ⟨m, hm, rfl, _, MemoryStore.slot_put_self .., hd, rfl⟩

theorem respond_overflow (h : ¬ call.Fits n) :
    respond u env (call.command key) s = (some overflowReply, s) := by
  obtain ⟨e, hslot, hd, hn⟩ := hs
  have hincr : (s.slot key).incrBy env.clock call.amount =
      (.error .integerOverflow, s.slot key) := by
    simp only [hslot, Slot.incrBy, hlive e hd, hn, I64.checkedAdd_overflow call n h,
      Bool.false_eq_true, if_false]
  rw [respond_counter, hincr, MemoryStore.put_slot]
  rfl

end

/-! ## Runs -/

def CounterCall.commands (key : String) (calls : List (Env × CounterCall)) :
    List (Env × ParsedCommand) :=
  calls.map fun x => (x.1, x.2.command key)

def succeeded : Option (Except String ResponseValue) → Bool
  | some (.ok _) => true
  | _ => false

/-- How many of the calls of this kind were answered with a number. -/
def CounterCall.successes (call : CounterCall) (calls : List (Env × CounterCall))
    (replies : List (Option (Except String ResponseValue))) : Nat :=
  (calls.zip replies).countP fun p => decide (p.1.2 = call) && succeeded p.2

theorem successes_cons (x : Env × CounterCall) (calls : List (Env × CounterCall))
    (reply : Option (Except String ResponseValue))
    (replies : List (Option (Except String ResponseValue))) :
    (CounterCall.incr.successes (x :: calls) (reply :: replies) : Int) -
        CounterCall.decr.successes (x :: calls) (reply :: replies) =
      (if succeeded reply then x.2.amount.val else 0) +
        (CounterCall.incr.successes calls replies - CounterCall.decr.successes calls replies) := by
  obtain ⟨env, call⟩ := x
  unfold CounterCall.successes
  rw [List.zip_cons_cons, List.countP_cons, List.countP_cons]
  cases call <;> cases succeeded reply <;> simp [CounterCall.amount, incrAmount, decrAmount] <;>
    omega

theorem respondAll_counter_other (u : CaseMap) (key k : String) (hk : k ≠ key)
    (calls : List (Env × CounterCall)) (s : MemoryStore) :
    (respondAll u (CounterCall.commands key calls) s).2.slot k = s.slot k := by
  induction calls generalizing s with
  | nil => rfl
  | cons x calls ih =>
    refine (ih _).trans ?_
    rw [respond_counter, MemoryStore.slot_put, if_neg hk]

theorem respondAll_counts (u : CaseMap) (key : String) (d i : Option Int)
    (calls : List (Env × CounterCall)) (hlive : ∀ x ∈ calls, ∀ e : StoredValue, e.expiresAt = d →
      e.isExpired x.1.clock = false)
    (s : MemoryStore) (n : I64) (hs : s.Counts key d i n) :
    ∃ m : I64, (respondAll u (CounterCall.commands key calls) s).2.Counts key d i m ∧
      m.val = n.val + (CounterCall.incr.successes calls
        (respondAll u (CounterCall.commands key calls) s).1 -
        CounterCall.decr.successes calls (respondAll u (CounterCall.commands key calls) s).1) := by
  induction calls generalizing s n with
  | nil => exact ⟨n, hs, by simp [CounterCall.successes]⟩
  | cons x calls ih =>
    have hfirst := hlive x List.mem_cons_self
    have hrest := fun y hy => hlive y (List.mem_cons_of_mem x hy)
    have hcommands : CounterCall.commands key (x :: calls) =
        (x.1, x.2.command key) :: CounterCall.commands key calls := rfl
    simp only [hcommands, respondAll, successes_cons]
    by_cases hfits : x.2.Fits n
    · obtain ⟨m₁, hm₁, hreply, hcounts⟩ := respond_fits u x.1 key x.2 s d i n hs hfirst hfits
      obtain ⟨m, hm, hval⟩ := ih hrest _ m₁ hcounts
      refine ⟨m, hm, ?_⟩
      rw [hval, hm₁, hreply]
      simp only [succeeded, if_true]
      omega
    · have hover := respond_overflow u x.1 key x.2 s d i n hs hfirst hfits
      obtain ⟨m, hm, hval⟩ := ih hrest s n hs
      rw [hover]
      refine ⟨m, hm, ?_⟩
      rw [hval]
      simp [overflowReply, succeeded]

/--
From a key that holds the number `n`, as long as it does not expire: every command adds its amount
to the number that it finds or, out of range, reports the overflow and changes nothing. In the end
the number has moved by the commands that succeeded; the deadline and the other keys are as they
were.
-/
theorem counter_arithmetic (u : CaseMap) (key : String) (s : MemoryStore) (e : StoredValue)
    (n : I64) (he : (s.slot key).entry = some e) (hn : e.value.toInteger = .ok n)
    (calls : List (Env × CounterCall)) (hlive : ∀ x ∈ calls, e.isExpired x.1.clock = false) :
    (∀ before x after, calls = before ++ x :: after →
      ∃ (s₁ : MemoryStore) (m : I64), s₁ = (respondAll u (CounterCall.commands key before) s).2 ∧
        s₁.Counts key e.expiresAt (s.slot key).index m ∧
        (x.2.Fits m → ∃ m' : I64, m'.val = m.val + x.2.amount.val ∧
          (respond u x.1 (x.2.command key) s₁).1 = some (.ok (.integer m'.val)) ∧
          (respond u x.1 (x.2.command key) s₁).2.Counts key e.expiresAt (s.slot key).index m') ∧
        (¬ x.2.Fits m → respond u x.1 (x.2.command key) s₁ = (some overflowReply, s₁))) ∧
    (∃ m : I64, (respondAll u (CounterCall.commands key calls) s).2.Counts key e.expiresAt
      (s.slot key).index m ∧
      m.val = n.val + (CounterCall.incr.successes calls
        (respondAll u (CounterCall.commands key calls) s).1 -
        CounterCall.decr.successes calls (respondAll u (CounterCall.commands key calls) s).1)) ∧
    ∀ k ≠ key, (respondAll u (CounterCall.commands key calls) s).2.slot k = s.slot k := by
  have hstart : s.Counts key e.expiresAt (s.slot key).index n := ⟨e, Slot.ext he rfl, rfl, hn⟩
  have hunexpired : ∀ x ∈ calls, ∀ e' : StoredValue, e'.expiresAt = e.expiresAt →
      e'.isExpired x.1.clock = false := by
    intro x hx e' he'
    rw [StoredValue.isExpired_congr x.1.clock e e' he', hlive x hx]
  refine ⟨?_, respondAll_counts u key _ _ calls hunexpired s n hstart,
    fun k hk => respondAll_counter_other u key k hk calls s⟩
  rintro before x after rfl
  obtain ⟨m, hm, -⟩ := respondAll_counts u key _ _ before
    (fun y hy => hunexpired y (List.mem_append_left _ hy)) s n hstart
  have hx := hunexpired x (List.mem_append_right _ List.mem_cons_self)
  exact ⟨_, m, rfl, hm, respond_fits u x.1 key x.2 _ _ _ m hm hx,
    respond_overflow u x.1 key x.2 _ _ _ m hm hx⟩

/--
A string one below the largest number: the first `INCR` succeeds, the second overflows, `DECR` goes
back.
-/
theorem counter_at_the_top :
    ∃ m : I64, (respondAll asciiCaseMap
      (CounterCall.commands "n" [(.sample, .incr), (.sample, .incr), (.sample, .decr)])
        (MemoryStore.new.put "n"
          ⟨some (.new Env.sample.clock (.string (utf8 "9223372036854775806"))), none⟩)).2.Counts
          "n" none none m ∧ m.val = 9223372036854775806 := by
  obtain ⟨-, ⟨m, hm, hval⟩, -⟩ := counter_arithmetic asciiCaseMap "n"
    (MemoryStore.new.put "n" ⟨some (.new Env.sample.clock (.string (utf8 "9223372036854775806"))),
      none⟩)
    (.new Env.sample.clock (.string (utf8 "9223372036854775806"))) ⟨9223372036854775806, by decide⟩
    (by rw [MemoryStore.slot_put_self]) (by decide +kernel) [(.sample, .incr), (.sample, .incr),
      (.sample, .decr)]
    (fun _ _ => rfl)
  rw [MemoryStore.slot_put_self] at hm
  refine ⟨m, hm, hval.trans ?_⟩
  decide +kernel

end RustyPotato
