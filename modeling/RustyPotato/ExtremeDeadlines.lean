import Mathlib.Order.WithBot
import RustyPotato.Answers
import RustyPotato.ExpiredAsMissing

/-!
# `GT` and `LT`

With `GT` a deadline only moves later, with `LT` only earlier, and no deadline counts as one that
never comes. So a sequence of such commands leaves the latest or the earliest of the deadlines it
names, in whatever order.
-/

namespace RustyPotato

open Cmd Parse

/-- The four commands that set a deadline. -/
inductive DeadlineKind where
  | expire | pexpire | expireat | pexpireat
deriving DecidableEq

namespace DeadlineKind

def command : DeadlineKind → Command
  | expire => .expire
  | pexpire => .pexpire
  | expireat => .expireat
  | pexpireat => .pexpireat

def resolve : DeadlineKind → Clock → Nat → Parse Int
  | expire => resolveSecs
  | pexpire => resolveMillis
  | expireat => resolveUnixSecs
  | pexpireat => resolveUnixTarget

theorem registered (kind : DeadlineKind) : kind.command ∈ serverRegistry.commands := by
  cases kind <;> decide

theorem execute_eq (kind : DeadlineKind) :
    kind.command.execute = deadlineCommand kind.command.name kind.resolve := by
  cases kind <;> rfl

theorem arity_eq (kind : DeadlineKind) : kind.command.arity = .range 3 4 := by
  cases kind <;> rfl

end DeadlineKind

/--
A command with this flag on this key, and the deadline that it resolves to at the reading of the
clock.
-/
structure FlaggedCall (c : Clock) (key : String) (flag : ExpireFlag) where
  kind : DeadlineKind
  args : List Bytes
  deadline : Int
  resolves : deadlineRequest kind.command.name (kind.resolve c) args =
    some (.ok (key, deadline, flag))
  not_before : c.now ≤ deadline

theorem deadlineRequest_arity (name command : String) (resolve : Nat → Parse Int)
    (args : List Bytes) (r : String × Int × ExpireFlag)
    (h : deadlineRequest name resolve args = some (.ok r)) :
    ParsedCommand.validateArity ⟨command, args⟩ (.range 3 4) = .ok () := by
  obtain ⟨request, hrequest, -⟩ := (bind_eq_ok _ _ _).mp h
  have hlow : ¬ args.length < 2 := by
    intro hlt
    unfold expireRequest at hrequest
    rw [if_pos hlt] at hrequest
    cases hrequest
  obtain ⟨key, -, hrequest⟩ := (bind_eq_ok _ _ _).mp (guard_eq_ok _ _ _ _ hrequest)
  obtain ⟨text, -, hrequest⟩ := (bind_eq_ok _ _ _).mp hrequest
  have hhigh : (args.drop 2).length ≤ 1 := by
    split at hrequest
    · cases hrequest
    · obtain ⟨flag, hflag, -⟩ := (bind_eq_ok _ _ _).mp hrequest
      rcases hdrop : args.drop 2 with _ | ⟨_, _ | ⟨_, _⟩⟩
      · simp
      · simp
      · rw [hdrop] at hflag
        cases hflag
  rw [List.length_drop] at hhigh
  refine if_neg ?_
  simp only [ParsedCommand.totalArgs]
  omega

namespace FlaggedCall

variable {c : Clock} {key : String} {flag : ExpireFlag}

def command (call : FlaggedCall c key flag) : ParsedCommand := ⟨call.kind.command.name, call.args⟩

theorem respond_eq (u : CaseMap) (env : Env) (call : FlaggedCall env.clock key flag)
    (s : MemoryStore) :
    respond u env call.command s =
      (some (.ok (.integer
        (if ((s.slot key).expireAtWithOptions env.clock call.deadline flag).1 then 1 else 0))),
        s.put key ((s.slot key).expireAtWithOptions env.clock call.deadline flag).2) := by
  have harity : ParsedCommand.validateArity call.command call.kind.command.arity = .ok () := by
    rw [DeadlineKind.arity_eq]
    exact deadlineRequest_arity _ _ _ _ _ call.resolves
  refine respond_registered u env call.kind.command call.kind.registered call.args harity s _ _ ?_
  rw [DeadlineKind.execute_eq, deadlineCommand, call.resolves, lift_ok_bind]
  exact run_bind_ok _ _ s _ _ (run_atKey key _ s)

end FlaggedCall

/-! ## One command -/

/-- A deadline among all instants, where none stands for one that never comes. -/
def asTop : Option Int → WithTop Int
  | some d => d
  | none => ⊤

theorem asTop_injective : Function.Injective asTop := by
  intro a b h
  cases a <;> cases b <;> simp_all [asTop]

/-- The later one for `GT`, the earlier one for `LT`. -/
def ExpireFlag.pick (flag : ExpireFlag) (a b : WithTop Int) : WithTop Int :=
  match flag with
  | .gt => max a b
  | .lt => min a b
  | _ => a

/-- The key is there with this deadline in both maps, and has not expired. -/
def MemoryStore.EndsAt (c : Clock) (key : String) (d : Option Int) (s : MemoryStore) : Prop :=
  ∃ e, s.slot key = ⟨some e, d⟩ ∧ e.expiresAt = d ∧ e.isExpired c = false

section
variable (u : CaseMap) (env : Env) (key : String) (flag : ExpireFlag)
  (hflag : flag = .gt ∨ flag = .lt)

include hflag

theorem shouldApply_pick (deadline : Int) (d : Option Int) :
    asTop (if Slot.shouldApply flag deadline d then some deadline else d) =
      flag.pick (asTop d) deadline ∧
      (Slot.shouldApply flag deadline d = true ↔
        (if Slot.shouldApply flag deadline d then some deadline else d) ≠ d) := by
  obtain rfl | rfl := hflag
  · cases d with
    | none => simp [Slot.shouldApply, asTop, ExpireFlag.pick]
    | some d =>
      by_cases hlt : d < deadline
      · simp [Slot.shouldApply, asTop, ExpireFlag.pick, hlt, le_of_lt hlt, ne_of_gt hlt]
      · simp [Slot.shouldApply, asTop, ExpireFlag.pick, hlt, not_lt.mp hlt]
  · cases d with
    | none => simp [Slot.shouldApply, asTop, ExpireFlag.pick]
    | some d =>
      by_cases hlt : deadline < d
      · simp [Slot.shouldApply, asTop, ExpireFlag.pick, hlt, le_of_lt hlt, ne_of_lt hlt]
      · simp [Slot.shouldApply, asTop, ExpireFlag.pick, hlt, not_lt.mp hlt]

/-- One command picks between the deadline and its own, and says whether it moved it. -/
theorem respond_flagged (call : FlaggedCall env.clock key flag) (s : MemoryStore) (d : Option Int)
    (hs : s.EndsAt env.clock key d) :
    ∃ d', asTop d' = flag.pick (asTop d) call.deadline ∧
      (respond u env call.command s).2.EndsAt env.clock key d' ∧
      (respond u env call.command s).1 = some (.ok (.integer (if d' ≠ d then 1 else 0))) := by
  obtain ⟨e, hslot, hd, hx⟩ := hs
  obtain ⟨hpick, hmoved⟩ := shouldApply_pick flag hflag call.deadline d
  rw [FlaggedCall.respond_eq, hslot]
  simp only [Slot.expireAtWithOptions, hx, Bool.false_eq_true, if_false, hd]
  by_cases happly : Slot.shouldApply flag call.deadline d = true
  · rw [if_pos happly] at hpick hmoved ⊢
    refine ⟨some call.deadline, hpick,
      ⟨e.setExpiration call.deadline, MemoryStore.slot_put_self .., rfl, ?_⟩, ?_⟩
    · have hnow := call.not_before
      simp only [StoredValue.isExpired, StoredValue.setExpiration_expiresAt,
        decide_eq_false_iff_not]
      omega
    · rw [if_pos (hmoved.mp happly)]
      rfl
  · rw [if_neg happly] at hpick ⊢
    refine ⟨d, hpick, ⟨e, MemoryStore.slot_put_self .., hd, hx⟩, ?_⟩
    simp

end

/-! ## Runs -/

/-- The greatest of them for `GT`, the least for `LT`. -/
def ExpireFlag.IsExtreme (flag : ExpireFlag) (deadlines : Set (WithTop Int)) (d : WithTop Int) :
    Prop :=
  match flag with
  | .gt => IsGreatest deadlines d
  | .lt => IsLeast deadlines d
  | _ => False

theorem ExpireFlag.IsExtreme.unique (flag : ExpireFlag) (deadlines : Set (WithTop Int))
    (a b : WithTop Int) (ha : flag.IsExtreme deadlines a) (hb : flag.IsExtreme deadlines b) :
    a = b := by
  cases flag with
  | gt => exact IsGreatest.unique ha hb
  | lt => exact IsLeast.unique ha hb
  | none | nx | xx => cases ha

theorem ExpireFlag.isExtreme_foldl (flag : ExpireFlag) (hflag : flag = .gt ∨ flag = .lt)
    (ds : List (WithTop Int)) (d : WithTop Int) :
    flag.IsExtreme (insert d {x | x ∈ ds}) (ds.foldl flag.pick d) := by
  induction ds using List.reverseRecOn with
  | nil => obtain rfl | rfl := hflag <;> simp [IsExtreme]
  | append_singleton ds x ih =>
    have hset : insert d {y | y ∈ ds ++ [x]} = insert x (insert d {y | y ∈ ds}) := by
      ext y
      simp only [List.mem_append, List.mem_singleton, Set.mem_insert_iff, Set.mem_ofPred_eq]
      tauto
    rw [List.foldl_append, hset]
    obtain rfl | rfl := hflag
    · have hmax := IsGreatest.insert x ih
      rwa [max_comm] at hmax
    · have hmin := IsLeast.insert x ih
      rwa [min_comm] at hmin

section
variable (u : CaseMap) (env : Env) (key : String) (flag : ExpireFlag)
  (hflag : flag = .gt ∨ flag = .lt)

/-- The commands as a client sends them, all at one reading of the clock. -/
def FlaggedCall.commands (calls : List (FlaggedCall env.clock key flag)) :
    List (Env × ParsedCommand) :=
  calls.map fun call => (env, call.command)

/-- The deadline at the start and those of the calls. -/
def FlaggedCall.named (c : Clock) (d : Option Int) (calls : List (FlaggedCall c key flag)) :
    Set (WithTop Int) :=
  insert (asTop d) {x | x ∈ calls.map fun call => (call.deadline : WithTop Int)}

include hflag

theorem respondAll_flagged (calls : List (FlaggedCall env.clock key flag)) (s : MemoryStore)
    (d : Option Int) (hs : s.EndsAt env.clock key d) :
    ∃ d', asTop d' =
      (calls.map fun call => (call.deadline : WithTop Int)).foldl flag.pick (asTop d) ∧
      (respondAll u (FlaggedCall.commands env key flag calls) s).2.EndsAt env.clock key d' := by
  induction calls generalizing s d with
  | nil => exact ⟨d, rfl, hs⟩
  | cons call calls ih =>
    obtain ⟨d₁, hd₁, hs₁, -⟩ := respond_flagged u env key flag hflag call s d hs
    obtain ⟨d', hd', hs'⟩ := ih _ d₁ hs₁
    refine ⟨d', ?_, hs'⟩
    rw [hd', hd₁]
    rfl

theorem respondAll_extreme (calls : List (FlaggedCall env.clock key flag)) (s : MemoryStore)
    (d : Option Int) (hs : s.EndsAt env.clock key d) :
    ∃ d', flag.IsExtreme (FlaggedCall.named key flag env.clock d calls) (asTop d') ∧
      (respondAll u (FlaggedCall.commands env key flag calls) s).2.EndsAt env.clock key d' := by
  obtain ⟨d', hd', hs'⟩ := respondAll_flagged u env key flag hflag calls s d hs
  exact ⟨d', hd' ▸ flag.isExtreme_foldl hflag _ _, hs'⟩

/--
A live key ends with the extreme of its deadline and those of the calls, in both maps and in
whatever order the calls come. Each call replies 1 exactly when it moved the deadline.
-/
theorem flagged_deadlines_extreme (s : MemoryStore) (e : StoredValue)
    (he : (s.slot key).entry = some e) (hx : e.isExpired env.clock = false)
    (hindexed : (s.slot key).Indexed) (calls : List (FlaggedCall env.clock key flag)) :
    ∃ d, flag.IsExtreme (FlaggedCall.named key flag env.clock e.expiresAt calls) (asTop d) ∧
      (∀ calls', calls'.Perm calls →
        (respondAll u (FlaggedCall.commands env key flag calls') s).2.EndsAt env.clock key d) ∧
      ∀ before call after, calls = before ++ call :: after →
        ∃ s₁ d₁ d₂, s₁ = (respondAll u (FlaggedCall.commands env key flag before) s).2 ∧
          s₁.EndsAt env.clock key d₁ ∧ (respond u env call.command s₁).2.EndsAt env.clock key d₂ ∧
          (respond u env call.command s₁).1 = some (.ok (.integer (if d₂ ≠ d₁ then 1 else 0))) := by
  have hstart : s.EndsAt env.clock key e.expiresAt := by
    refine ⟨e, Slot.ext he ?_, rfl, hx⟩
    rw [Slot.Indexed, he] at hindexed
    exact hindexed
  obtain ⟨d, hd, -⟩ := respondAll_extreme u env key flag hflag calls s e.expiresAt hstart
  refine ⟨d, hd, fun calls' hperm => ?_, ?_⟩
  · obtain ⟨d', hd', hs'⟩ := respondAll_extreme u env key flag hflag calls' s e.expiresAt hstart
    have hnamed : FlaggedCall.named key flag env.clock e.expiresAt calls' =
        FlaggedCall.named key flag env.clock e.expiresAt calls := by
      unfold FlaggedCall.named
      simp only [(hperm.map _).mem_iff]
    rw [hnamed] at hd'
    rwa [asTop_injective (ExpireFlag.IsExtreme.unique flag _ _ _ hd' hd)] at hs'
  · rintro before call after rfl
    obtain ⟨d₁, -, hs₁⟩ := respondAll_extreme u env key flag hflag before s e.expiresAt hstart
    obtain ⟨d₂, -, hs₂, hreply⟩ := respond_flagged u env key flag hflag call _ d₁ hs₁
    exact ⟨_, d₁, d₂, rfl, hs₁, hs₂, hreply⟩

end

theorem expireRequest_ok (name key : String) (amount : Bytes) (rest : List Bytes) (n : Nat)
    (flag : ExpireFlag) (hn : (fromUtf8 amount).bind parseU64 = some n)
    (hflag : parseExpireFlag rest = .ok flag) :
    expireRequest name (utf8 key :: amount :: rest) = some (.ok ⟨key, n, flag⟩) := by
  have hrest : List.drop 2 (utf8 key :: amount :: rest) = rest := rfl
  unfold expireRequest
  rw [if_neg (by simp)]
  refine (bind_eq_ok _ _ _).mpr ⟨key, argStr_key key _, (bind_eq_ok _ _ _).mpr ⟨amount, rfl, ?_⟩⟩
  simp only [hn, hrest, hflag]
  rfl

theorem parseExpireFlag_lt : parseExpireFlag [utf8 "LT"] = .ok .lt := by
  have htext : (fromUtf8 (utf8 "LT")).map toAsciiUppercase = some "LT" := by decide +kernel
  simp only [parseExpireFlag, htext]

theorem pexpire_five :
    deadlineRequest "PEXPIRE" (resolveMillis Env.sample.clock) [utf8 "k", utf8 "5", utf8 "LT"] =
      some (.ok ("k", 100005000000, .lt)) := by
  have hrequest := expireRequest_ok "PEXPIRE" "k" (utf8 "5") [utf8 "LT"] 5 .lt (by decide +kernel)
    parseExpireFlag_lt
  have hresolve : resolveMillis Env.sample.clock 5 = some (.ok 100005000000) := by
    rw [resolveMillis, addDuration_millis _ _ (by decide)]
    rfl
  exact (bind_eq_ok _ _ _).mpr ⟨_, hrequest, (bind_eq_ok _ _ _).mpr ⟨_, hresolve, rfl⟩⟩

/-- `PEXPIRE k 5 LT` a hundred seconds after the start. -/
def fiveMillis : FlaggedCall Env.sample.clock "k" .lt where
  kind := .pexpire
  args := [utf8 "k", utf8 "5", utf8 "LT"]
  deadline := 100005000000
  resolves := pexpire_five
  not_before := of_decide_eq_true rfl

theorem expireat_second :
    deadlineRequest "EXPIREAT" (resolveUnixSecs Env.sample.clock)
      [utf8 "k", utf8 "101", utf8 "LT"] =
      some (.ok ("k", 101000000000, .lt)) := by
  have hrequest := expireRequest_ok "EXPIREAT" "k" (utf8 "101") [utf8 "LT"] 101 .lt
    (by decide +kernel) parseExpireFlag_lt
  have hresolve : resolveUnixSecs Env.sample.clock 101 = some (.ok 101000000000) := by
    have hnow : Env.sample.clock.unixMillis = some 100000 := rfl
    rw [resolveUnixSecs, resolveUnixTarget, hnow]
    simp only
    rw [if_neg (by decide), addDuration_millis _ _ (by decide)]
    rfl
  exact (bind_eq_ok _ _ _).mpr ⟨_, hrequest, (bind_eq_ok _ _ _).mpr ⟨_, hresolve, rfl⟩⟩

/-- `EXPIREAT k 101 LT` at the same time. -/
def nextSecond : FlaggedCall Env.sample.clock "k" .lt where
  kind := .expireat
  args := [utf8 "k", utf8 "101", utf8 "LT"]
  deadline := 101000000000
  resolves := expireat_second
  not_before := of_decide_eq_true rfl

/-- A key that ends after two hundred seconds. -/
def timedStore : MemoryStore :=
  MemoryStore.new.put "k"
    ⟨some (.newWithExpiration Env.sample.clock (.string (utf8 "v")) 200000000000),
      some 200000000000⟩

/-- The earliest of three deadlines is left, whichever of the two calls comes first. -/
theorem earliest_of_two_calls :
    (respondAll asciiCaseMap (FlaggedCall.commands .sample "k" .lt [nextSecond, fiveMillis])
      timedStore).2.EndsAt
        Env.sample.clock "k" (some 100005000000) ∧
      (respondAll asciiCaseMap (FlaggedCall.commands .sample "k" .lt [fiveMillis, nextSecond])
        timedStore).2.EndsAt
        Env.sample.clock "k" (some 100005000000) := by
  obtain ⟨d, hleast, hends, -⟩ := flagged_deadlines_extreme asciiCaseMap .sample "k" .lt
    (.inr rfl) timedStore (.newWithExpiration Env.sample.clock (.string (utf8 "v")) 200000000000)
    (by rw [timedStore, MemoryStore.slot_put_self]) rfl
    (by rw [timedStore, MemoryStore.slot_put_self]; rfl) [nextSecond, fiveMillis]
  have hfive : ExpireFlag.lt.IsExtreme
      (FlaggedCall.named "k" .lt Env.sample.clock (some 200000000000) [nextSecond, fiveMillis])
        (asTop (some 100005000000)) :=
    ExpireFlag.lt.isExtreme_foldl (.inr rfl) _ (asTop (some 200000000000))
  obtain rfl := asTop_injective (hleast.unique _ _ _ _ hfive)
  exact ⟨hends _ (.refl _), hends _ (.swap ..)⟩

end RustyPotato
