import RustyPotato.ExpiredAsMissing
import RustyPotato.Lib.Machine
import RustyPotato.Reachable

/-!
# The sizes in the metadata

An entry carries the size and the number of elements of its value. `SET` and `MSET` write a whole
entry, `HSET` and `HDEL` compute both anew. `INCR` and `DECR` change the value in place and leave
them, so a string that has become a number keeps the size of its text.
-/

namespace RustyPotato

open Lib Cmd Parse

/-- The sizes are those that `for_value` computes for the value. -/
def StoredValue.Current (e : StoredValue) : Prop :=
  e.metadata.sizeBytes = e.value.sizeAndCount.1 ∧ e.metadata.elementCount = e.value.sizeAndCount.2

instance (e : StoredValue) : Decidable e.Current := inferInstanceAs (Decidable (_ ∧ _))

def Slot.Current (t : Slot) : Prop := ∀ e, t.entry = some e → e.Current

def MemoryStore.Current (s : MemoryStore) : Prop := ∀ k e, s.data.lookup k = some e → e.Current

/-! ## One operation -/

namespace Slot

theorem current_empty : Current .empty := by
  rintro e ⟨⟩

@[simp] theorem current_some (e : StoredValue) (i : Option Int) : Current ⟨some e, i⟩ ↔
    e.Current := by
  simp [Current]

end Slot

/-- The operation is not the one that changes a number in place. -/
def Op.Recounts : Op → Prop
  | incrBy _ => False
  | _ => True

theorem Slot.Current.run (c : Clock) (op : Op) (hop : op.Recounts) (t : Slot) (h : t.Current) :
    (op.run c t).Current := by
  have hleaves := op.run_leaves c t
  generalize op.run c t = t' at hleaves
  cases hleaves with
  | same => exact h
  | emptied => exact current_empty
  | begun _ value d i _ _ =>
    rw [current_some]
    cases d <;> exact ⟨rfl, rfl⟩
  | retimed _ _ e he => exact (current_some _ _).mpr (h e he)
  | counted => exact hop.elim
  | filled _ e g _ _ => exact (current_some _ _).mpr ⟨rfl, rfl⟩

/-- What an increment makes of a live entry: another value, and the metadata as they were. -/
theorem Slot.incrBy_alive (c : Clock) (n : I64) (e : StoredValue) (i : Option Int)
    (hx : e.isExpired c = false) :
    (∀ m, Op.incremented n e.value = some m →
      (Slot.incrBy c n ⟨some e, i⟩).2 = ⟨some ({ e with value := .integer m }.touch c), i⟩) ∧
      (Op.incremented n e.value = none → (Slot.incrBy c n ⟨some e, i⟩).2 = ⟨some e, i⟩) := by
  simp only [Slot.incrBy, hx, Bool.false_eq_true, if_false, Op.incremented]
  cases e.value.toInteger with
  | error err => simp [Except.toOption]
  | ok k =>
    simp only [Except.toOption, Option.bind_some]
    cases k.checkedAdd n with
    | none => simp
    | some m => simp

/-- The increment turns a live string that is not eight bytes long into a number. -/
def Slot.Shrinks (c : Clock) (n : I64) (t : Slot) : Prop :=
  ∃ e b, t.unexpired c = some e ∧ e.value = .string b ∧
    (Op.incremented n (.string b)).isSome = true ∧ b.length ≠ 8

theorem Slot.current_incrBy_alive (c : Clock) (n m : I64) (e : StoredValue) (i : Option Int)
    (hx : e.isExpired c = false) (h : e.Current) (hm : Op.incremented n e.value = some m) :
    (Slot.incrBy c n ⟨some e, i⟩).2.Current ↔ ∀ b, e.value = .string b → b.length = 8 := by
  obtain ⟨hsize, hcount⟩ := h
  rw [(incrBy_alive c n e i hx).1 m hm, current_some]
  change e.metadata.sizeBytes = 8 ∧ e.metadata.elementCount = 1 ↔ _
  rw [hsize, hcount]
  cases hv : e.value with
  | string b => simp [ValueType.sizeAndCount]
  | integer k => simp [ValueType.sizeAndCount]
  | hash g => simp [hv, Op.incremented, ValueType.toInteger, Except.toOption] at hm
  | list l => simp [hv, Op.incremented, ValueType.toInteger, Except.toOption] at hm

theorem Slot.current_incrBy_iff (c : Clock) (n : I64) (t : Slot) (h : t.Current) :
    (t.incrBy c n).2.Current ↔ ¬ t.Shrinks c n := by
  unfold Shrinks
  obtain ⟨_ | e, i⟩ := t
  · exact iff_of_true ((current_some _ _).mpr ⟨rfl, rfl⟩) (by simp)
  · cases hx : e.isExpired c with
    | true =>
      refine iff_of_true ?_ (by simp [unexpired_expired c e i hx])
      simp only [incrBy, hx, if_true]
      exact (current_some _ _).mpr ⟨rfl, rfl⟩
    | false =>
      rw [unexpired_alive c e i hx]
      cases hm : Op.incremented n e.value with
      | none =>
        rw [(incrBy_alive c n e i hx).2 hm]
        refine iff_of_true h ?_
        rintro ⟨_, b, ⟨⟩, hv, hsome, -⟩
        rw [← hv, hm] at hsome
        cases hsome
      | some m =>
        rw [current_incrBy_alive c n m e i hx ((current_some e i).mp h) hm]
        constructor
        · rintro hlength ⟨_, b, ⟨⟩, hv, -, hne⟩
          exact hne (hlength b hv)
        · intro hnot b hv
          by_contra hne
          refine hnot ⟨e, b, rfl, hv, ?_, hne⟩
          rw [← hv, hm]
          rfl

/-! ## One command -/

/-- By how much `INCR` and `DECR` change a number. -/
def Command.amount : Command → Option I64
  | incr => some incrAmount
  | decr => some decrAmount
  | _ => none

/-- An increment with this key, on a live string that is not eight bytes long. -/
def ParsedCommand.Shrinks (u : CaseMap) (env : Env) (cmd : ParsedCommand) (s : MemoryStore) :
    Prop :=
  ∃ command n key, serverRegistry.find u cmd.name = some command ∧ command.amount = some n ∧
    cmd.args = [utf8 key] ∧ (s.slot key).Shrinks env.clock n

theorem Command.plan_recounts (cmd : Command) (h : cmd.amount = none) (env : Env)
    (args : List Bytes) (steps : List Step) (hp : cmd.plan env args = some steps) (key : String)
    (op : Op) (hmem : Step.on key op ∈ steps) : op.Recounts := by
  cases plan_makes cmd env args steps hp _ hmem with
  | incr | decr => cases h
  | _ => trivial

theorem Command.arity_amount (cmd : Command) (n : I64) (h : cmd.amount = some n) :
    cmd.arity = .fixed 2 := by
  cases cmd with
  | incr | decr => rfl
  | _ => cases h

theorem Command.plan_amount (cmd : Command) (n : I64) (h : cmd.amount = some n) (env : Env)
    (key : String) : cmd.plan env [utf8 key] = some [.on key (.incrBy n)] := by
  have hkey : ∀ name, incrKey name [utf8 key] = some (.ok key) := fun _ => argStr_key key []
  cases cmd with
  | incr | decr =>
    obtain rfl := Option.some.inj h
    simp only [plan, incrPlan, hkey, planOf]
  | _ => cases h

theorem Command.plan_amount_bytes (cmd : Command) (n : I64) (h : cmd.amount = some n) (env : Env)
    (b : Bytes) (hb : fromUtf8 b = none) : cmd.plan env [b] = some [] := by
  have hkey : ∀ name, incrKey name [b] = some (.error notUtf8) := fun _ => argText_error b hb
  cases cmd with
  | incr | decr => simp only [plan, incrPlan, hkey, planOf]
  | _ => cases h

section
variable (u : CaseMap) (env : Env) (cmd : ParsedCommand)

/-- An increment as the registry runs it: the one step, or none because of its arguments. -/
theorem plan_increment (command : Command) (n : I64)
    (hfind : serverRegistry.find u cmd.name = some command) (hn : command.amount = some n) :
    (∃ key, cmd.args = [utf8 key] ∧ serverRegistry.plan u env cmd = some [.on key (.incrBy n)]) ∨
      (∀ key, cmd.args ≠ [utf8 key]) ∧ serverRegistry.plan u env cmd = some [] := by
  obtain ⟨name, args⟩ := cmd
  unfold CommandRegistry.plan
  simp only [hfind, command.arity_amount n hn, ParsedCommand.validateArity, ParsedCommand.totalArgs]
  by_cases hlength : args.length + 1 = 2
  · obtain ⟨b, rfl⟩ := List.length_eq_one_iff.mp (Nat.succ.inj hlength)
    simp only [hlength, ne_eq, not_true_eq_false, if_false]
    cases hb : fromUtf8 b with
    | none =>
      refine .inr ⟨fun key hkey => ?_, command.plan_amount_bytes n hn env b hb⟩
      rw [List.singleton_inj.mp hkey, fromUtf8_utf8] at hb
      cases hb
    | some key =>
      obtain rfl := (fromUtf8_eq_some b key).mp hb
      exact .inl ⟨key, rfl, command.plan_amount n hn env key⟩
  · refine .inr ⟨fun key hkey => hlength (by rw [hkey]; rfl), ?_⟩
    simp only [hlength, ne_eq, not_false_eq_true, if_true]

theorem plan_recounts (h : ∀ command n, serverRegistry.find u cmd.name = some command →
    command.amount ≠ some n)
    (steps : List Step) (hp : serverRegistry.plan u env cmd = some steps) (key : String) (op : Op)
    (hmem : Step.on key op ∈ steps) : op.Recounts := by
  unfold CommandRegistry.plan at hp
  split at hp
  · rename_i command hfind
    split at hp
    · cases hp
      cases hmem
    · have hnone : command.amount = none := Option.eq_none_iff_forall_ne_some.mpr
        fun n => h command n hfind
      exact command.plan_recounts hnone env cmd.args steps hp key op hmem
  · cases hp
    cases hmem

theorem current_put_iff (s : MemoryStore) (hs : s.Current) (key : String) (t : Slot) :
    (s.put key t).Current ↔ t.Current := by
  constructor
  · intro h
    have hslot : Slot.Current ((s.put key t).slot key) := h key
    rwa [MemoryStore.slot_put_self] at hslot
  · intro h k
    change Slot.Current ((s.put key t).slot k)
    rw [MemoryStore.slot_put]
    split_ifs
    · exact h
    · exact hs k

theorem respond_current_iff (s : MemoryStore) (hs : s.Current) :
    (respond u env cmd s).2.Current ↔ ¬ cmd.Shrinks u env s := by
  by_cases hincrement : ∃ command n, serverRegistry.find u cmd.name = some command ∧
    command.amount = some n
  · obtain ⟨command, n, hfind, hn⟩ := hincrement
    rw [respond_store]
    rcases plan_increment u env cmd command n hfind hn with ⟨key, hargs, hplan⟩ | ⟨hargs, hplan⟩
    · have hshrinks : cmd.Shrinks u env s ↔ (s.slot key).Shrinks env.clock n := by
        constructor
        · rintro ⟨command', n', key', hfind', hn', hargs', h⟩
          rw [hfind, Option.some.injEq] at hfind'
          rw [← hfind', hn, Option.some.injEq] at hn'
          rw [hargs, List.singleton_inj] at hargs'
          rwa [hn', utf8_injective _ _ hargs']
        · exact fun h => ⟨command, n, key, hfind, hn, hargs, h⟩
      have hslot : (s.slot key).Current := hs key
      rw [hshrinks, hplan, ← Slot.current_incrBy_iff env.clock n _ hslot]
      exact current_put_iff s hs key _
    · rw [hplan]
      refine iff_of_true hs ?_
      rintro ⟨_, _, key, -, -, hkey, -⟩
      exact hargs key hkey
  · refine iff_of_true ?_ ?_
    · refine respond_induction u env cmd s MemoryStore.Current hs fun steps hplan => ?_
      refine Step.runAll_slots Slot.Current env.clock Slot.current_empty Op.Recounts
        (Slot.Current.run env.clock) steps (plan_recounts u env cmd ?_ steps hplan) s hs
      exact fun command n hfind hn => hincrement ⟨command, n, hfind, hn⟩
    · rintro ⟨command, n, key, hfind, hn, -⟩
      exact hincrement ⟨command, n, hfind, hn⟩

end

/-! ## A run -/

/-- One command after the other, each at its own reading of the clock. -/
def serve (u : CaseMap) (x : Env × ParsedCommand) (s : MemoryStore) : Option MemoryStore :=
  some (respond u x.1 x.2 s).2

/--
The sizes are current all along exactly when no increment meets a live string that is not eight
bytes long.
-/
theorem metadata_current_iff (u : CaseMap) (xs : List (Env × ParsedCommand)) :
    (∀ ys s, ys <+: xs → Machine.run (serve u) ys .new = some s → s.Current) ↔
      Machine.Along (serve u) (fun x s => ¬ x.2.Shrinks u x.1 s) xs .new := by
  refine Machine.good_iff_along (serve u) _ MemoryStore.Current MemoryStore.Current
    (fun _ hs => hs) ?_ ?_ xs .new ?_
  · rintro ⟨env, cmd⟩ s s' hs hok hstep
    obtain rfl := Option.some.inj hstep
    exact (respond_current_iff u env cmd s hs).mpr hok
  · rintro ⟨env, cmd⟩ s hs hnot
    exact ⟨_, rfl, fun hcurrent => hnot ((respond_current_iff u env cmd s hs).mp hcurrent)⟩
  · rintro k e ⟨⟩

/-- `SET k 5` and `INCR k`: the number 6 has the size of the text `5`. -/
theorem incr_leaves_old_size :
    ((Machine.run (serve asciiCaseMap) [(.sample, ⟨"SET", [utf8 "k", utf8 "5"]⟩),
      (.sample, ⟨"INCR", [utf8 "k"]⟩)]
        .new).bind fun s => s.data.lookup "k").map
      (fun e => (e.value.typeName, e.value.asString, e.metadata.sizeBytes,
        (ValueMetadata.forValue Env.sample.clock e.value).sizeBytes)) = some ("integer", "6", 1,
          8) := by
  decide +kernel

end RustyPotato
