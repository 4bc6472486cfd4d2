import RustyPotato.ExtremeDeadlines
import RustyPotato.SetGrammar
import RustyPotato.SetSemantics

/-!
# `SET` with a deadline

`SET k v EX n` is `SET k v` and then `EXPIRE k n`, and so for the other three units. The two roads
resolve the number in code of their own and go through different functions of the store. For a time
in the past the one stores an entry that has expired, the other lets a live one expire.
-/

namespace RustyPotato

open Cmd Parse SetGroup

namespace DeadlineKind

/-- The option of `SET` with the same unit. -/
def option : DeadlineKind → String
  | expire => "EX"
  | pexpire => "PX"
  | expireat => "EXAT"
  | pexpireat => "PXAT"

def choice : DeadlineKind → Nat → SetTtlChoice
  | expire => .seconds
  | pexpire => .milliseconds
  | expireat => .unixSeconds
  | pexpireat => .unixMilliseconds

/-- `parse_set_options` refuses zero seconds and zero milliseconds from now. -/
def Accepts (kind : DeadlineKind) (n : Nat) : Prop := (kind = .expire ∨ kind = .pexpire) → n ≠ 0

theorem spells (kind : DeadlineKind) (word number : Bytes) (n : Nat)
    (hword : Keyword kind.option word) (hnumber : Number n number) (hn : kind.Accepts n) :
    Spells (.ttl (kind.choice n)) [word, number] := by
  cases kind with
  | expire => exact .ex word number n hword hnumber (hn (.inl rfl))
  | pexpire => exact .px word number n hword hnumber (hn (.inr rfl))
  | expireat => exact .exat word number n hword hnumber
  | pexpireat => exact .pxat word number n hword hnumber

/-- `resolve_ttl` and the commands on deadlines resolve the number alike. -/
theorem resolveTtl_choice (kind : DeadlineKind) (c : Clock) (n : Nat) :
    resolveTtl c (kind.choice n) = SetTtlOption.at <$> kind.resolve c n := by
  cases kind <;> rfl

end DeadlineKind

theorem setRequest_ok (c : Clock) (key : String) (value : Bytes) (options : List Bytes)
    (opts : SetOptions) (ttl : SetTtlOption) (hopts : parseSetOptions options = .ok opts)
    (httl : resolveTtl c opts.ttl = some (.ok ttl)) :
    setRequest c (utf8 key :: value :: options) = some (.ok ⟨⟨key, value, opts⟩, ttl⟩) := by
  have hargs : setArgs (utf8 key :: value :: options) = some (.ok ⟨key, value, opts⟩) := by
    unfold setArgs
    rw [if_neg (by simp)]
    refine (bind_eq_ok _ _ _).mpr ⟨key, argStr_key key _, (bind_eq_ok _ _ _).mpr ⟨value, rfl, ?_⟩⟩
    refine (bind_eq_ok _ _ _).mpr ⟨opts, ?_, rfl⟩
    exact congrArg some hopts
  exact (bind_eq_ok _ _ _).mpr ⟨_, hargs, (bind_eq_ok _ _ _).mpr ⟨ttl, httl, rfl⟩⟩

theorem run_setCommand (env : Env) (key : String) (value : Bytes) (options : List Bytes)
    (opts : SetOptions) (ttl : SetTtlOption) (hopts : parseSetOptions options = .ok opts)
    (httl : resolveTtl env.clock opts.ttl = some (.ok ttl)) (s : MemoryStore) :
    (setCommand env (utf8 key :: value :: options)).run s =
      (let outcome := (s.slot key).setWithOptions env.clock (.string value) ttl opts.existence
        if opts.get then previousReply outcome.1.previous
        else if outcome.1.applied then pure (.simpleString "OK")
        else pure .nilBulk : Cmd ResponseValue).run
          (s.put key ((s.slot key).setWithOptions env.clock
            (.string value) ttl opts.existence).2) := by
  unfold setCommand
  rw [setRequest_ok env.clock key value options opts ttl hopts httl, lift_ok_bind]
  exact run_bind_ok _ _ s _ _ (run_atKey key _ s)

theorem respond_set (u : CaseMap) (env : Env) (key : String) (value : Bytes) (options : List Bytes)
    (choice : SetTtlChoice) (ttl : SetTtlOption)
    (hopts : parseSetOptions options = .ok { ttl := choice })
    (httl : resolveTtl env.clock choice = some (.ok ttl)) (s : MemoryStore) :
    respond u env ⟨"SET", utf8 key :: value :: options⟩ s =
      (some (.ok (.simpleString "OK")),
        s.put key ((s.slot key).setWithOptions env.clock (.string value) ttl .always).2) := by
  refine respond_registered u env .set (by decide) _ (arity_atLeast _ _ _ (by simp)) s _ _ ?_
  refine (run_setCommand env key value options _ ttl hopts httl s).trans ?_
  have happlied := Slot.setWithOptions_applied env.clock (.string value) ttl .always (s.slot key)
  simp only [Bool.false_eq_true, if_false, happlied, Slot.allows, if_true]
  rfl

theorem respond_deadline (u : CaseMap) (env : Env) (kind : DeadlineKind) (key : String)
    (number : Bytes) (n : Nat) (d : Int) (hnumber : Number n number)
    (hd : kind.resolve env.clock n = some (.ok d)) (s : MemoryStore) :
    respond u env ⟨kind.command.name, [utf8 key, number]⟩ s =
      (some (.ok (.integer
        (if ((s.slot key).expireAtWithOptions env.clock d .none).1 then 1 else 0))),
        s.put key ((s.slot key).expireAtWithOptions env.clock d .none).2) := by
  have hrequest : deadlineRequest kind.command.name (kind.resolve env.clock) [utf8 key, number] =
      some (.ok (key, d, .none)) :=
    (bind_eq_ok _ _ _).mpr ⟨_, expireRequest_ok _ key number [] n .none hnumber rfl,
      (bind_eq_ok _ _ _).mpr ⟨d, hd, rfl⟩⟩
  refine respond_registered u env kind.command kind.registered _ ?_ s _ _ ?_
  · rw [DeadlineKind.arity_eq]
    exact deadlineRequest_arity _ _ _ _ _ hrequest
  · rw [DeadlineKind.execute_eq, deadlineCommand, hrequest, lift_ok_bind]
    exact run_bind_ok _ _ s _ _ (run_atKey key _ s)

/-- The slot is the same on both roads, whatever it held before. -/
theorem Slot.set_then_expire (c : Clock) (value : ValueType) (d : Int) (t : Slot) :
    (((t.setWithOptions c value .none .always).2).expireAtWithOptions c d .none).2 =
      (t.setWithOptions c value (.at d) .always).2 := by
  have hlive : (StoredValue.new c value).isExpired c = false := rfl
  have hexpires : (StoredValue.new c value).setExpiration d = .newWithExpiration c value d := rfl
  obtain ⟨_ | e, i⟩ := t <;>
    simp [setWithOptions, resolveTtl, allows, storedWith, expireAtWithOptions, hlive, shouldApply,
      hexpires]

/--
`SET k v` with `EX`, `PX`, `EXAT` or `PXAT` and a number leaves what `SET k v` and then `EXPIRE`,
`PEXPIRE`, `EXPIREAT` or `PEXPIREAT` with that number leaves: the same live view at the reading of
the clock, and at every other one.
-/
theorem set_ttl_eq_set_then_expire (u : CaseMap) (env : Env) (kind : DeadlineKind) (key : String)
    (value word number : Bytes) (n : Nat) (d : Int) (hword : Keyword kind.option word)
    (hnumber : Number n number) (hn : kind.Accepts n) (hd : kind.resolve env.clock n = some (.ok d))
    (s : MemoryStore) (c : Clock) (k : String) :
    (respond u env ⟨"SET", [utf8 key, value, word, number]⟩ s).2.live c k =
      (respond u env ⟨kind.command.name, [utf8 key, number]⟩
        (respond u env ⟨"SET", [utf8 key, value]⟩ s).2).2.live c k := by
  have hopts : parseSetOptions [word, number] = .ok { ttl := kind.choice n } :=
    parse_group _ [word, number] [] {} false false (kind.spells word number n hword hnumber hn)
  have httl : resolveTtl env.clock (kind.choice n) = some (.ok (.at d)) := by
    rw [DeadlineKind.resolveTtl_choice, hd]
    rfl
  rw [respond_set u env key value [word, number] (kind.choice n) (.at d) hopts httl,
    respond_set u env key value [] .default .none rfl rfl,
    respond_deadline u env kind key number n d hnumber hd]
  simp only [MemoryStore.live, MemoryStore.slot_put, if_true]
  split_ifs with hk
  · rw [Slot.set_then_expire]
  · rfl

/-- `exat 50` at second 100: the key is gone on both roads. -/
theorem set_exat_past_eq_expireat :
    (respond asciiCaseMap .sample ⟨"SET", [utf8 "k", utf8 "v", utf8 "exat", utf8 "50"]⟩ .new).2.live
      Env.sample.clock "k" =
      (respond asciiCaseMap .sample ⟨"EXPIREAT", [utf8 "k", utf8 "50"]⟩
        (respond asciiCaseMap .sample ⟨"SET", [utf8 "k", utf8 "v"]⟩ .new).2).2.live Env.sample.clock
          "k" := by
  have hmillis : Env.sample.clock.unixMillis = some 100000 := by decide +kernel
  have hpast : DeadlineKind.expireat.resolve Env.sample.clock 50 = some (.ok 99999000000) := by
    change resolveUnixTarget Env.sample.clock 50000 = _
    rw [resolveUnixTarget, hmillis]
    rfl
  exact set_ttl_eq_set_then_expire asciiCaseMap .sample .expireat "k" (utf8 "v") (utf8 "exat")
    (utf8 "50") 50 99999000000 ⟨"exat", fromUtf8_utf8 _, by decide⟩
    (by unfold Number; decide +kernel) (by rintro (h | h) <;> cases h) hpast .new Env.sample.clock
    "k"

end RustyPotato
