import RustyPotato.Retime

/-!
# Stores without deadlines

Where no key has a deadline the clock does not matter: an operation that sets none is a function of
the value under its key. A rewrite of the log turns numbers into text, so values are compared
through a map that the operations cannot see through: the identity, or the one that prints numbers.
-/

namespace RustyPotato

open Cmd

/-- The value under the key, expired or not. -/
def Slot.value? (s : Slot) : Option ValueType := s.entry.map StoredValue.value

/-- No deadline. -/
def Slot.Eternal (s : Slot) : Prop := ∀ e, s.entry = some e → e.expiresAt = none

def MemoryStore.values (s : MemoryStore) (key : String) : Option ValueType := (s.slot key).value?

def MemoryStore.Eternal (s : MemoryStore) : Prop := ∀ key, (s.slot key).Eternal

theorem MemoryStore.eternal_new : MemoryStore.new.Eternal := by
  intro key e h
  cases h

theorem MemoryStore.eternal_iff (s : MemoryStore) :
    s.Eternal ↔ ∀ p ∈ s.data.entries, p.2.expiresAt = none := by
  constructor
  · intro h p hp
    exact h p.1 p.2 (Finmap.lookup_eq_some_iff.mpr hp)
  · intro h key e he
    exact h ⟨key, e⟩ (Finmap.lookup_eq_some_iff.mp he)

instance (s : MemoryStore) : Decidable s.Eternal := decidable_of_iff _ s.eternal_iff.symm

/-- The deadline that the option itself names. -/
def SetTtlOption.deadline? : SetTtlOption → Option Int
  | .at d => some d
  | _ => Option.none

/-- On a key without a deadline `KEEPTTL` has nothing to keep. -/
theorem Slot.setWithOptions_eternal (c : Clock) (value : ValueType) (ttl : SetTtlOption)
    (existence : SetExistence) (s : Slot) (hs : s.Eternal) :
    ∃ i, (s.setWithOptions c value ttl existence).2 =
      if allows existence s.value?.isSome then
        ⟨some (storedWith c value ttl.deadline?), i⟩
      else s := by
  obtain ⟨_ | e, i⟩ := s
  · refine ⟨ttl.deadline?.or i, ?_⟩
    cases ttl <;> cases existence <;> rfl
  · have he := hs e rfl
    have hx := StoredValue.isExpired_of_none c e he
    refine ⟨ttl.deadline?, ?_⟩
    cases ttl <;> cases existence <;>
      simp [setWithOptions, resolveTtl, allows, value?, SetTtlOption.deadline?, hx, he]

namespace Op

/-- The operation sets a deadline on a key that holds this value and has none. -/
def sets : Op → Option ValueType → Bool
  | setWithOptions _ (.at _) existence, v => Slot.allows existence v.isSome
  | expireAt deadline flag, some _ => Slot.shouldApply flag deadline none
  | _, _ => false

/-- What the operation does to the value. -/
def untimed : Op → Option ValueType → Option ValueType
  | purge, v => v
  | set value, _ => some value
  | setWithOptions value _ existence, v => if Slot.allows existence v.isSome then some value else v
  | delete, _ => none
  | expireAt _ _, v => v
  | incrBy increment, none => some (.integer increment)
  | incrBy increment, some v =>
    match incremented increment v with
    | some n => some (.integer n)
    | none => some v
  | hset field value, none => some (.hash ((∅ : Hash).insert field value))
  | hset field value, some v =>
    match v with
    | .hash h => some (.hash (h.insert field value))
    | _ => some v
  | hdel _, none => none
  | hdel field, some v =>
    match v with
    | .hash h =>
      if (h.lookup field).isNone then some v
      else if h.entries.card = 1 then none
      else some (.hash (h.erase field))
    | _ => some v

theorem sets_timed (op : Op) (v : Option ValueType) (h : op.sets v = true) : op.Timed := by
  unfold sets at h
  split at h
  · trivial
  · trivial
  · cases h

theorem setWithOptions_untimed (c : Clock) (value : ValueType) (ttl : SetTtlOption)
    (existence : SetExistence) (s : Slot) (hs : s.Eternal)
    (h : (setWithOptions value ttl existence).sets s.value? = false) :
    ((setWithOptions value ttl existence).run c s).Eternal ∧
      ((setWithOptions value ttl existence).run c s).value? =
        (setWithOptions value ttl existence).untimed s.value? := by
  obtain ⟨i, hi⟩ := Slot.setWithOptions_eternal c value ttl existence s hs
  simp only [run, untimed, hi]
  split_ifs with hallow
  · cases ttl with
    | «at» d => simp [sets, hallow] at h
    | none => exact ⟨by rintro e ⟨⟩; rfl, rfl⟩
    | keepTtl => exact ⟨by rintro e ⟨⟩; rfl, rfl⟩
  · exact ⟨hs, rfl⟩

theorem run_vacant (c : Clock) (op : Op) (i : Option Int) (h : op.sets none = false) :
    (op.run c ⟨none, i⟩).Eternal ∧ (op.run c ⟨none, i⟩).value? = op.untimed none := by
  cases op with
  | setWithOptions value ttl existence =>
    exact setWithOptions_untimed c value ttl existence ⟨none, i⟩ (by rintro e ⟨⟩) h
  | set value => exact ⟨by rintro e ⟨⟩; rfl, rfl⟩
  | incrBy increment => exact ⟨by rintro e ⟨⟩; rfl, rfl⟩
  | hset field value => exact ⟨by rintro e ⟨⟩; rfl, rfl⟩
  | _ => exact ⟨by rintro e ⟨⟩, rfl⟩

theorem run_occupied (c : Clock) (op : Op) (e : StoredValue) (i : Option Int)
    (he : e.expiresAt = none) (h : op.sets (some e.value) = false) :
    (op.run c ⟨some e, i⟩).Eternal ∧ (op.run c ⟨some e, i⟩).value? = op.untimed (some e.value) := by
  have hx := StoredValue.isExpired_of_none c e he
  have hself : Slot.Eternal ⟨some e, i⟩ := by
    rintro e' ⟨⟩
    exact he
  cases op with
  | purge =>
    have : (Op.purge).run c ⟨some e, i⟩ = ⟨some e, i⟩ := by simp [run, Slot.purge, hx]
    rw [this]
    exact ⟨hself, rfl⟩
  | set value => exact ⟨by rintro e' ⟨⟩; rfl, rfl⟩
  | setWithOptions value ttl existence =>
    exact setWithOptions_untimed c value ttl existence _ hself h
  | delete => exact ⟨by rintro e' ⟨⟩, rfl⟩
  | expireAt deadline flag =>
    have hflag : ¬ Slot.shouldApply flag deadline e.expiresAt = true := by
      rw [he]
      simpa [sets] using h
    have : (Op.expireAt deadline flag).run c ⟨some e, i⟩ = ⟨some e, i⟩ := by
      simp [run, Slot.expireAtWithOptions, hx, hflag]
    rw [this]
    exact ⟨hself, rfl⟩
  | incrBy increment =>
    simp only [run, untimed, incremented, Slot.incrBy, hx, Bool.false_eq_true, if_false]
    cases e.value.toInteger with
    | error err => exact ⟨hself, rfl⟩
    | ok n =>
      simp only [Except.toOption, Option.bind_some]
      cases n.checkedAdd increment with
      | none => exact ⟨hself, rfl⟩
      | some m => exact ⟨by rintro e' ⟨⟩; exact he, rfl⟩
  | hset field value =>
    simp only [run, untimed, Slot.hset, Slot.purge, hx, Bool.false_eq_true, if_false]
    cases hv : e.value with
    | hash g => exact ⟨by rintro e' ⟨⟩; exact he, rfl⟩
    | _ => exact ⟨hself, congrArg some hv⟩
  | hdel field =>
    simp only [run, untimed, Slot.hdel, hx, Bool.false_eq_true, if_false]
    cases hv : e.value with
    | hash g =>
      simp only
      split_ifs
      · exact ⟨hself, congrArg some hv⟩
      · exact ⟨by rintro e' ⟨⟩, rfl⟩
      · exact ⟨by rintro e' ⟨⟩; exact he, rfl⟩
    | _ => exact ⟨hself, congrArg some hv⟩

/-- Without a new deadline, only the value under the key matters. -/
theorem run_untimed (c : Clock) (op : Op) (s : Slot) (hs : s.Eternal)
    (h : op.sets s.value? = false) :
    (op.run c s).Eternal ∧ (op.run c s).value? = op.untimed s.value? := by
  obtain ⟨_ | e, i⟩ := s
  · exact run_vacant c op i h
  · exact run_occupied c op e i (hs e rfl) h

/-- The deadline that an operation sets stays behind. -/
theorem not_eternal_of_sets (c : Clock) (op : Op) (s : Slot) (hs : s.Eternal)
    (h : op.sets s.value? = true) : ¬ (op.run c s).Eternal := by
  intro heternal
  cases op with
  | setWithOptions value ttl existence =>
    cases ttl with
    | «at» d =>
      obtain ⟨i, hi⟩ := Slot.setWithOptions_eternal c value (.at d) existence s hs
      have hallow : Slot.allows existence s.value?.isSome = true := h
      rw [run, hi, if_pos hallow] at heternal
      cases heternal _ rfl
    | _ => cases h
  | expireAt deadline flag =>
    obtain ⟨_ | e, i⟩ := s
    · cases h
    · have he := hs e rfl
      have hflag : Slot.shouldApply flag deadline e.expiresAt = true := by rw [he]; exact h
      have hrun : (Op.expireAt deadline flag).run c ⟨some e, i⟩ = ⟨some (e.setExpiration deadline),
        some deadline⟩ := by
        simp [run, Slot.expireAtWithOptions, StoredValue.isExpired_of_none c e he, hflag]
      rw [hrun] at heternal
      cases heternal _ rfl
  | _ => cases h

theorem sets_eq_false (c : Clock) (op : Op) (s : Slot) (hs : s.Eternal) (h : (op.run c s).Eternal) :
    op.sets s.value? = false := by
  by_contra hcon
  rw [Bool.not_eq_false] at hcon
  exact not_eternal_of_sets c op s hs hcon h

/-- An operation that could have set a deadline and did not has not written the value either. -/
theorem untimed_of_timed (op : Op) (htimed : op.Timed) (v : Option ValueType)
    (h : op.sets v = false) : op.untimed v = v := by
  unfold Timed at htimed
  split at htimed
  · simp only [sets] at h
    simp [untimed, h]
  · rfl
  · exact htimed.elim

end Op

/-! ## Values that the operations cannot tell apart -/

/-- The operations see no more of a value than the map keeps of it. -/
structure Respects (f : ValueType → ValueType) : Prop where
  integer : ∀ v w, f v = f w → v.toInteger.toOption = w.toInteger.toOption
  hash : ∀ h w, f (.hash h) = f w → w = .hash h

theorem respects_id : Respects id where
  integer := by
    rintro v w rfl
    rfl
  hash := by
    rintro h w rfl
    rfl

theorem respects_printed : Respects printed where
  integer := by
    have hprinted : ∀ v, (printed v).toInteger.toOption = v.toInteger.toOption := by
      intro v
      cases v with
      | integer i => rw [printed, toInteger_printed]; rfl
      | _ => rfl
    intro v w h
    rw [← hprinted v, h, hprinted w]
  hash := by
    intro h w hw
    cases w with
    | hash g => exact hw.symm
    | _ => cases hw

namespace Op

variable (f : ValueType → ValueType) (hf : Respects f)

include hf in
theorem untimed_hash (v w : ValueType) (h : f v = f w) :
    v = w ∨ ((∀ g, v ≠ .hash g) ∧ ∀ g, w ≠ .hash g) := by
  by_cases hv : ∃ g, v = .hash g
  · obtain ⟨g, rfl⟩ := hv
    exact .inl (hf.hash g w h).symm
  · by_cases hw : ∃ g, w = .hash g
    · obtain ⟨g, rfl⟩ := hw
      exact .inl (hf.hash g v h.symm)
    · exact .inr ⟨fun g hg => hv ⟨g, hg⟩, fun g hg => hw ⟨g, hg⟩⟩

include hf in
theorem untimed_respects (op : Op) (v w : Option ValueType) (h : v.map f = w.map f) :
    (op.untimed v).map f = (op.untimed w).map f := by
  obtain _ | v := v
  · obtain rfl : w = none := by simpa using h.symm
    rfl
  · obtain ⟨w, rfl, hw⟩ : ∃ w', w = some w' ∧ f w' = f v := by simpa using h.symm
    have hvw : (some v).map f = (some w).map f := by simp [hw]
    cases op with
    | setWithOptions value ttl existence =>
      simp only [untimed, Option.isSome_some]
      split_ifs
      · rfl
      · exact hvw
    | incrBy increment =>
      have hinc : incremented increment v = incremented increment w := by
        rw [incremented, incremented, hf.integer v w hw.symm]
      simp only [untimed, hinc]
      cases incremented increment w with
      | some n => rfl
      | none => exact hvw
    | hset field value =>
      rcases untimed_hash f hf v w hw.symm with rfl | ⟨hv', hw'⟩
      · rfl
      · cases v with
        | hash g => exact absurd rfl (hv' g)
        | _ => cases w with
          | hash g => exact absurd rfl (hw' g)
          | _ => exact hvw
    | hdel field =>
      rcases untimed_hash f hf v w hw.symm with rfl | ⟨hv', hw'⟩
      · rfl
      · cases v with
        | hash g => exact absurd rfl (hv' g)
        | _ => cases w with
          | hash g => exact absurd rfl (hw' g)
          | _ => exact hvw
    | purge => exact hvw
    | expireAt deadline flag => exact hvw
    | set value => rfl
    | delete => rfl

theorem sets_respects (op : Op) (v w : Option ValueType) (h : v.map f = w.map f) :
    op.sets v = op.sets w := by
  have hsome : v.isSome = w.isSome := by
    have := congrArg Option.isSome h
    simpa using this
  cases op with
  | setWithOptions value ttl existence => cases ttl <;> simp [sets, hsome]
  | expireAt deadline flag => cases v <;> cases w <;> simp_all [sets]
  | _ => rfl

end Op

theorem TimedOp.untimed_eq (t : TimedOp) (d d' : Int) (v : Option ValueType) :
    (t.op d').untimed v = (t.op d).untimed v := by
  cases t <;> rfl

theorem TimedOp.sets_eq (t : TimedOp) (d d' : Int) (v : Option ValueType) :
    (t.op d').sets v = (t.op d).sets v := by
  cases t with
  | set value existence => rfl
  | expire flag => cases v <;> cases flag <;> rfl

/-! ## Steps and commands -/

/-- Neither store has a deadline, and the values are the same up to the map. -/
structure Agree (f : ValueType → ValueType) (s s' : MemoryStore) : Prop where
  left : s.Eternal
  right : s'.Eternal
  values : ∀ key, (s.values key).map f = (s'.values key).map f

namespace Agree

variable (f : ValueType → ValueType) (hf : Respects f) (c c' : Clock) (s s' : MemoryStore)

theorem refl (hs : s.Eternal) : Agree f s s := ⟨hs, hs, fun _ => rfl⟩

theorem flush : Agree f (Step.flush.run c s) (Step.flush.run c' s') where
  left := MemoryStore.eternal_new
  right := MemoryStore.eternal_new
  values _ := rfl

/--
An operation that leaves no deadline in one store leaves none in the other, and the same values.
-/
theorem on (hf : Respects f) (h : Agree f s s') (key : String) (op op' : Op)
    (huntimed : ∀ v, op'.untimed v = op.untimed v) (hsets : ∀ v, op'.sets v = op.sets v)
    (hr : ((Step.on key op).run c s).Eternal) :
    Agree f ((Step.on key op).run c s) ((Step.on key op').run c' s') := by
  have hset := Op.sets_eq_false c op (s.slot key) (h.left key) (by
    have := hr key
    rwa [Step.run, MemoryStore.slot_put_self] at this)
  have hset' : op'.sets (s'.slot key).value? = false := by
    rw [hsets]
    exact (Op.sets_respects f op _ _ (h.values key)).symm.trans hset
  obtain ⟨-, hlv⟩ := Op.run_untimed c op (s.slot key) (h.left key) hset
  obtain ⟨hr', hrv⟩ := Op.run_untimed c' op' (s'.slot key) (h.right key) hset'
  refine ⟨hr, ?_, ?_⟩
  · intro k
    rw [Step.run, MemoryStore.slot_put]
    split_ifs
    · exact hr'
    · exact h.right k
  · intro k
    simp only [MemoryStore.values, Step.run, MemoryStore.slot_put]
    split_ifs
    · rw [hlv, hrv, huntimed]
      exact Op.untimed_respects f hf op _ _ (h.values key)
    · exact h.values k

end Agree

theorem Step.run_eternal (c : Clock) (s : MemoryStore) (a : Step) (ha : ¬ a.Timed)
    (hs : s.Eternal) : (a.run c s).Eternal := by
  cases a with
  | flush => exact MemoryStore.eternal_new
  | on key op =>
    have hsets : op.sets (s.slot key).value? = false := by
      by_contra hcon
      rw [Bool.not_eq_false] at hcon
      exact ha (op.sets_timed _ hcon)
    intro k
    rw [Step.run, MemoryStore.slot_put]
    split_ifs
    · exact (Op.run_untimed c op (s.slot key) (hs key) hsets).1
    · exact hs k

namespace Agree

variable (f : ValueType → ValueType) (c c' : Clock) (s s' : MemoryStore)

theorem runAll_untimed (hf : Respects f) (h : Agree f s s') (steps : List Step)
    (htimed : ∀ a ∈ steps, ¬ a.Timed) :
    Agree f (Step.runAll c steps s) (Step.runAll c' steps s') := by
  induction steps generalizing s s' with
  | nil => exact h
  | cons a steps ih =>
    refine ih _ _ ?_ fun x hx => htimed x (List.mem_cons_of_mem _ hx)
    have ha := Step.run_eternal c s a (htimed a List.mem_cons_self) h.left
    cases a with
    | flush => exact flush f c c' s s'
    | on key op => exact h.on f c c' s s' hf key op op (fun _ => rfl) (fun _ => rfl) ha

/-- Where nothing can expire a purge finds nothing. -/
theorem purges (h : Agree f s s') (steps : List Step)
    (hsteps : ∀ a ∈ steps, ∃ key, a = .on key .purge) : Step.runAll c steps s = s := by
  induction steps with
  | nil => rfl
  | cons a steps ih =>
    obtain ⟨key, rfl⟩ := hsteps a List.mem_cons_self
    have hpurge : (Step.on key .purge).run c s = s := by
      have hslot : Op.run c .purge (s.slot key) = s.slot key := by
        rcases hs : s.slot key with ⟨_ | e, i⟩
        · rfl
        · have he := h.left key e (by rw [hs])
          simp [Op.run, Slot.purge, StoredValue.isExpired_of_none c e he]
      rw [Step.run, hslot, MemoryStore.put_slot]
    rw [Step.runAll_cons, hpurge]
    exact ih fun b hb => hsteps b (List.mem_cons_of_mem _ hb)

/-- The replay of a command that left no deadline does to the values what the command did. -/
theorem plan (hf : Respects f) (h : Agree f s s') (relative : Bool) (as bs : List Step)
    (hab : SamePlan relative c c' as bs)
    (hr : (Step.runAll c as s).Eternal) : Agree f (Step.runAll c as s) (Step.runAll c' bs s') := by
  cases hab with
  | untimed steps htimed => exact h.runAll_untimed f c c' s s' hf as htimed
  | timed key t target d d' _ _ _ =>
    exact h.on f c c' s s' hf key (t.op d) (t.op d') (t.untimed_eq d d') (t.sets_eq d d') hr
  | dropped key t target d e _ _ =>
    have hsets := Op.sets_eq_false c (t.op d) (s.slot key) (h.left key) (by
      have := hr key
      rwa [Step.runAll_cons, Step.runAll_nil, Step.run, MemoryStore.slot_put_self] at this)
    obtain ⟨-, hv⟩ := Op.run_untimed c (t.op d) (s.slot key) (h.left key) hsets
    refine ⟨hr, h.right, fun k => ?_⟩
    rw [Step.runAll_nil, ← h.values k]
    simp only [MemoryStore.values, Step.runAll_cons, Step.runAll_nil, Step.run,
      MemoryStore.slot_put]
    split_ifs with hk
    · rw [hk, hv, Op.untimed_of_timed _ (t.timed_op d) _ hsets]
    · rfl

end Agree

end RustyPotato
