import RustyPotato.Replies
import RustyPotato.SetGrammar

/-!
# What a command ensures of its reply

Rules for the parts a command is made of: a result with some property, or an error of one line.
Lengths on the wire are `i32` for the reader, so the sizes are those of a store in which no key,
value, field or argument is longer than 512 MiB and no more than 2^29 of them are in one place.
-/

namespace RustyPotato

open Cmd Parse

/-! ## Errors of the arguments -/

namespace Parse

variable {α β : Type}

/-- Every error is one line. -/
def OneLine (p : Parse α) : Prop := ∀ e, p = some (.error e) → ¬ HasLineEnd e.toList

theorem oneLine_pure (a : α) : OneLine (pure a) := by
  intro e h
  cases h

theorem oneLine_throw (message : String) (h : ¬ HasLineEnd message.toList) :
    OneLine (throw message : Parse α) := by
  intro e he
  cases he
  exact h

theorem oneLine_orAbort (o : Option α) : OneLine (orAbort o) := by
  intro e h
  cases o <;> cases h

theorem oneLine_bind (p : Parse α) (f : α → Parse β) (hp : OneLine p) (hf : ∀ a, OneLine (f a)) :
    OneLine (p >>= f) := by
  intro e h
  match p with
  | some (.ok a) => exact hf a e h
  | some (.error e') =>
    cases h
    exact hp e rfl
  | none => cases h

theorem oneLine_mk (r : Except String α) (h : ∀ e, r = .error e → ¬ HasLineEnd e.toList) :
    OneLine (ExceptT.mk (some r) : Parse α) := by
  intro e he
  exact h e (Option.some.inj he)

theorem oneLine_guard (c : Prop) [Decidable c] (message : String) (h : ¬ HasLineEnd message.toList)
    (p : Parse α) (hp : OneLine p) : OneLine (if c then throw message else p) := by
  split_ifs
  · exact oneLine_throw message h
  · exact hp

theorem oneLine_argText (b : Bytes) : OneLine (argText b) := by
  unfold argText
  split
  · exact oneLine_pure _
  · exact oneLine_throw _ (by decide)

theorem oneLine_argStr (args : List Bytes) (i : Nat) : OneLine (argStr args i) :=
  oneLine_bind _ _ (oneLine_orAbort _) oneLine_argText

end Parse

theorem wrongNumber_oneLine (name : String) (h : plain name = true) :
    ¬ HasLineEnd (wrongNumber name).toList := by
  unfold wrongNumber
  rw [hasLineEnd_before _ (by decide), hasLineEnd_after _ (by decide)]
  exact not_hasLineEnd_plain name h

section Arguments

variable (args : List Bytes) (name : String) (hname : plain name = true)

include hname

theorem oneKey_oneLine : OneLine (oneKey name args) :=
  oneLine_guard _ _ (wrongNumber_oneLine name hname) _ (oneLine_argStr args 0)

theorem someArgs_oneLine : OneLine (someArgs name args) := by
  unfold someArgs
  split
  · exact oneLine_throw _ (wrongNumber_oneLine name hname)
  · exact oneLine_pure ()

theorem keyField_oneLine : OneLine (keyField name args) :=
  oneLine_guard _ _ (wrongNumber_oneLine name hname) _
    (oneLine_bind _ _ (oneLine_argStr args 0) fun _ => oneLine_bind _ _ (oneLine_argStr args 1)
      fun _ => oneLine_pure _)

theorem keyFields_oneLine : OneLine (keyFields name args) :=
  oneLine_guard _ _ (wrongNumber_oneLine name hname) _ (oneLine_argStr args 0)

theorem expireRequest_oneLine : OneLine (expireRequest name args) := by
  have hflag : ∀ opts e, parseExpireFlag opts = .error e → ¬ HasLineEnd e.toList := by
    intro opts e h
    unfold parseExpireFlag at h
    split at h
    · cases h
    · split at h <;> cases h
      decide
    · cases h
      decide
  refine oneLine_guard _ _ (wrongNumber_oneLine name hname) _ ?_
  refine oneLine_bind _ _ (oneLine_argStr args 0) fun _ => ?_
  refine oneLine_bind _ _ (oneLine_orAbort _) fun _ => ?_
  split
  · exact oneLine_throw _ (by decide)
  · exact oneLine_bind _ _ (oneLine_mk _ (hflag _)) fun _ => oneLine_pure _

theorem deadlineRequest_oneLine (resolve : Nat → Parse Int) (hresolve : ∀ n, OneLine (resolve n)) :
    OneLine (deadlineRequest name resolve args) :=
  oneLine_bind _ _ (expireRequest_oneLine args name hname) fun _ =>
    oneLine_bind _ _ (hresolve _) fun _ => oneLine_pure _

end Arguments

theorem resolveUnixTarget_oneLine (c : Clock) (n : Nat) : OneLine (resolveUnixTarget c n) := by
  unfold resolveUnixTarget
  split
  · exact oneLine_throw _ (by decide)
  · split
    · exact oneLine_pure _
    · exact oneLine_orAbort _

theorem resolveTtl_oneLine (c : Clock) (choice : SetTtlChoice) : OneLine (resolveTtl c choice) := by
  have hmap : ∀ p : Parse Int, OneLine p → OneLine (SetTtlOption.at <$> p) := by
    intro p hp e h
    match p with
    | some (.ok a) => cases h
    | some (.error e') =>
      cases h
      exact hp e rfl
    | none => cases h
  cases choice with
  | default | keepTtl => exact oneLine_pure _
  | seconds n | milliseconds n => exact hmap _ (oneLine_orAbort _)
  | unixSeconds n | unixMilliseconds n => exact hmap _ (resolveUnixTarget_oneLine c _)

theorem parseSetOptions_oneLine (args : List Bytes) (e : String)
    (h : parseSetOptions args = .error e) : ¬ HasLineEnd e.toList := by
  have hreads := parseSetOptionsFrom_reads (fun _ => True) (fun e => ¬ HasLineEnd e.toList)
    (by decide) (by decide) (by decide) (fun _ _ h => h) (fun _ h => h)
    (fun _ _ _ _ _ _ _ => trivial) (fun _ h => h) args {} false false trivial
  unfold parseSetOptions at h
  rw [h] at hreads
  exact hreads

theorem setRequest_oneLine (c : Clock) (args : List Bytes) : OneLine (setRequest c args) := by
  refine oneLine_bind _ _ ?_ fun _ => oneLine_bind _ _ (resolveTtl_oneLine c _)
    fun _ => oneLine_pure _
  refine oneLine_guard _ _ (wrongNumber_oneLine _ (by decide)) _ ?_
  refine oneLine_bind _ _ (oneLine_argStr args 0) fun _ => oneLine_bind _ _ (oneLine_orAbort _)
    fun _ => ?_
  exact oneLine_bind _ _ (oneLine_mk _ (parseSetOptions_oneLine _)) fun _ => oneLine_pure _

/-! ## What a command ensures -/

namespace Cmd

variable {α β γ : Type}

/-- From every store of which `P` holds: a result with `Q`, or an error of one line. -/
def Ensures (P : MemoryStore → Prop) (m : Cmd α) (Q : α → MemoryStore → Prop) : Prop :=
  ∀ s r s', P s → m.run s = some (r, s') →
    match r with
    | .ok a => Q a s'
    | .error e => ¬ HasLineEnd e.toList

variable {P : MemoryStore → Prop} {Q : α → MemoryStore → Prop}

theorem ensures_pure (a : α) (h : ∀ s, P s → Q a s) : Ensures P (pure a) Q := by
  intro s r s' hs hrun
  cases hrun
  exact h s hs

theorem ensures_fail (e : String) (h : ¬ HasLineEnd e.toList) : Ensures P (fail e) Q := by
  intro s r s' _ hrun
  cases hrun
  exact h

theorem ensures_read (f : MemoryStore → α) (h : ∀ s, P s → Q (f s) s) : Ensures P (read f) Q := by
  intro s r s' hs hrun
  cases hrun
  exact h s hs

theorem ensures_atKey (key : String) (f : Slot → α × Slot)
    (h : ∀ s, P s → Q (f (s.slot key)).1 (s.put key (f (s.slot key)).2)) :
    Ensures P (atKey key f) Q := by
  intro s r s' hs hrun
  cases hrun
  exact h s hs

theorem ensures_tryAtKey (key : String) (f : Slot → Except RustyPotatoError α × Slot)
    (hok : ∀ s a, P s → (f (s.slot key)).1 = .ok a → Q a (s.put key (f (s.slot key)).2))
    (herr : ∀ s e, P s → (f (s.slot key)).1 = .error e → ¬ HasLineEnd e.toClientError.toList) :
    Ensures P (tryAtKey key f) Q := by
  intro s r s' hs hrun
  simp only [tryAtKey, MemoryStore.atKey, Option.some.injEq, Prod.mk.injEq] at hrun
  obtain ⟨rfl, rfl⟩ := hrun
  cases hf : (f (s.slot key)).1 with
  | ok a => exact hok s a hs hf
  | error e => exact herr s e hs hf

theorem ensures_bind (m : Cmd α) (f : α → Cmd β) (R : β → MemoryStore → Prop) (hm : Ensures P m Q)
    (hf : ∀ a, Ensures (Q a) (f a) R) : Ensures P (m >>= f) R := by
  intro s r s' hs hrun
  rw [run_bind] at hrun
  split at hrun
  · rename_i a s₁ hfirst
    exact hf a s₁ r s' (hm s _ s₁ hs hfirst) hrun
  · rename_i e s₁ hfirst
    cases hrun
    exact hm s _ s' hs hfirst
  · cases hrun

/-- The arguments are read before the store is touched. -/
theorem ensures_lift_bind (p : Parse α) (f : α → Cmd β) (hp : OneLine p)
    {R : β → MemoryStore → Prop} (hf : ∀ a, p = some (.ok a) → Ensures P (f a) R) :
    Ensures P (lift p >>= f) R := by
  intro s r s' hs hrun
  match p with
  | some (.ok a) => exact hf a rfl s r s' hs hrun
  | some (.error e) =>
    cases hrun
    exact hp e rfl
  | none => cases hrun

/-- The invariant of a loop says how many items it has passed. -/
theorem ensures_foldlM (body : γ → β → Cmd γ) (I : Nat → γ → MemoryStore → Prop)
    (hbody : ∀ k acc b, Ensures (I k acc) (body acc b) (I (k + 1))) (items : List β) (k : Nat)
    (acc : γ) : Ensures (I k acc) (items.foldlM body acc) (I (k + items.length)) := by
  induction items generalizing k acc with
  | nil => exact ensures_pure acc fun _ hs => hs
  | cons b items ih =>
    rw [List.foldlM_cons]
    refine ensures_bind _ _ _ (hbody k acc b) fun acc' => ?_
    have := ih (k + 1) acc'
    rwa [Nat.add_assoc, Nat.add_comm 1] at this

theorem ensures_eachText (m : String → Cmd α) (g : γ → α → γ) (I : Nat → γ → MemoryStore → Prop)
    (hm : ∀ k acc text, Ensures (I k acc) (m text) fun r s => I (k + 1) (g acc r) s)
    (args : List Bytes) (acc : γ) : Ensures (I 0 acc) (eachText m g args acc) (I args.length) := by
  have := ensures_foldlM (fun acc b => do
    let text ← lift (argText b)
    let r ← m text
    pure (g acc r)) I (fun k acc b => ?_) args 0 acc
  · rwa [Nat.zero_add] at this
  · refine ensures_lift_bind _ _ (oneLine_argText b) fun text _ => ?_
    exact ensures_bind _ _ _ (hm k acc text) fun r => ensures_pure _ fun _ hs => hs

end Cmd

/-! ## Sizes -/

theorem sized_simpleString (s : String) (h : ¬ HasLineEnd s.toList) :
    (ResponseValue.simpleString s).Sized := by
  rw [← crlf_utf8] at h
  exact decide_eq_true h

theorem sized_nilBulk : ResponseValue.nilBulk.Sized := rfl

theorem sized_bulk (b : Bytes) (h : b.length < 2 ^ 31) : (ResponseValue.bulk b).Sized :=
  decide_eq_true ⟨h.le, h⟩

theorem sized_integer (i : Int) (h : -(2 ^ 63) ≤ i ∧ i < 2 ^ 63) :
    (ResponseValue.integer i).Sized :=
  decide_eq_true h

theorem sized_array (vs : List ResponseValue) (hcount : vs.length < 2 ^ 31)
    (h : ∀ v ∈ vs, v.Sized) : (ResponseValue.array vs).Sized := by
  have hall : ResponseValue.fitsAll ⟨2 ^ 31, 2 ^ 31, 0⟩ vs = true := by
    induction vs with
    | nil => rfl
    | cons v vs ih =>
      rw [ResponseValue.fitsAll, h v List.mem_cons_self, Bool.true_and]
      exact ih (Nat.lt_of_succ_lt hcount) fun w hw => h w (List.mem_cons_of_mem _ hw)
  rw [ResponseValue.Sized, ResponseValue.fits, hall, Bool.and_true]
  exact decide_eq_true ⟨hcount.le, hcount⟩

/--
Nothing that a reply repeats is longer than 512 MiB, and no deadline is behind the last `Instant`.
The text of a string that is not UTF-8 can be three times as long as its bytes.
-/
def ValueType.Small : ValueType → Prop
  | .string b => b.length ≤ 2 ^ 29
  | .integer _ | .list _ => True
  | .hash h => h.keys.card ≤ 2 ^ 29 ∧
    ∀ field value, h.lookup field = some value → (utf8 field).length ≤ 2 ^ 29 ∧
      (utf8 value).length ≤ 2 ^ 29

structure StoredValue.Small (e : StoredValue) : Prop where
  value : e.value.Small
  deadline : ∀ d, e.expiresAt = some d → d < 2 ^ 63 * nanosPerSec

def Slot.Small (t : Slot) : Prop := ∀ e, t.entry = some e → e.Small

structure MemoryStore.Small (s : MemoryStore) : Prop where
  slot : ∀ key, (s.slot key).Small
  key : ∀ key, (s.slot key).entry ≠ none → (utf8 key).length ≤ 2 ^ 29
  len : s.len ≤ 2 ^ 29

/-- The arguments of a command, and what `INFO` says of the machine. -/
structure SmallInput (env : Env) (args : List Bytes) : Prop where
  count : args.length ≤ 2 ^ 29
  arg : ∀ a ∈ args, a.length ≤ 2 ^ 29
  host : (utf8 (infoServer env.host)).length ≤ 2 ^ 29

theorem Slot.Small.unexpired (c : Clock) (t : Slot) (ht : t.Small) (e : StoredValue)
    (h : t.unexpired c = some e) : e.Small :=
  ht e (Option.filter_eq_some_iff.mp h).1

theorem Slot.Small.purge (c : Clock) (t : Slot) (ht : t.Small) : (t.purge c).Small := by
  unfold Slot.purge
  split
  · split_ifs
    · rintro e ⟨⟩
    · exact ht
  · exact ht

theorem small_put (s : MemoryStore) (key : String) (t : Slot) (hs : ∀ k, (s.slot k).Small)
    (ht : t.Small) (k : String) : ((s.put key t).slot k).Small := by
  rw [MemoryStore.slot_put]
  split_ifs
  · exact ht
  · exact hs k

theorem sized_asString (v : ValueType) (hv : v.Small) : (ResponseValue.text v.asString).Sized := by
  refine sized_bulk _ ?_
  cases v with
  | string b =>
    have := length_lossy b
    have hb : b.length ≤ 2 ^ 29 := hv
    rw [ValueType.asString]
    omega
  | integer i =>
    have := length_toString i
    rw [ValueType.asString]
    omega
  | hash h => exact (by decide : (utf8 "(hash)").length < 2 ^ 31)
  | list l => exact (by decide : (utf8 "(list)").length < 2 ^ 31)

theorem sized_text (s : String) (h : (utf8 s).length ≤ 2 ^ 29) : (ResponseValue.text s).Sized :=
  sized_bulk _ (by omega)

end RustyPotato
