import RustyPotato.Replay
import RustyPotato.Untimed

/-!
# Lifetimes across a restart

A replay at the time `T` resolves every deadline again and takes every decision again. A deadline
that was named by its Unix time comes back in the same millisecond. One that was named by the time
from then on starts anew, and a command that looks at what is under its key may find nothing there,
where the run found a key that was about to end.
-/

namespace RustyPotato

open Session

/-! ## What keeps the lifetimes -/

namespace Op

/-- What the operation leaves depends on what was under the key. -/
def usesPrior : Op → Bool
  | setWithOptions _ .keepTtl _ => true
  | setWithOptions _ _ existence => decide (existence ≠ .always)
  | expireAt _ _ | incrBy _ | hset _ _ => true
  | purge | set _ | delete | hdel _ => false

/-- The operation is refused, whatever deadline it names. -/
def refused (e : Option Entry) : Op → Bool
  | setWithOptions _ _ existence => !Slot.allows existence e.isSome
  | expireAt _ .nx => e.all fun e => e.deadline.isSome
  | expireAt _ .xx | expireAt _ .gt => e.all fun e => e.deadline.isNone
  | expireAt _ _ => e.isNone
  | _ => false

end Op

/-- A deadline, if there is one, does not end within a millisecond after `T`. -/
def lasts (T : Clock) (e : Option Entry) : Bool :=
  (e.bind Entry.deadline).all fun d => decide (T.wall + nanosPerMilli ≤ T.wallOf d)

/-- What is under a key has to last where it is used, and a relative deadline has to be refused. -/
def Step.keepsLifetime (T c : Clock) (relative : Bool) (s : MemoryStore) : Step → Bool
  | on key op =>
    (!op.usesPrior || lasts T (s.live c key)) && (!relative || op.refused (s.live c key))
  | flush => true

/-- A time within the millisecond. -/
def InMilli (millis : Nat) (wall : Int) : Prop :=
  millis * nanosPerMilli ≤ wall ∧ wall < (millis + 1) * nanosPerMilli

section
variable (T r : Clock)

/--
What is under a key in the run and in the replay. Either the replay has nothing and the run nothing
that lasts, or both have the same value, and no deadline or one in the same millisecond after `T`.
-/
inductive Survives : Option Entry → Option Entry → Prop
  | ended (e : Option Entry)
    (h : ∀ x, e = some x → ∃ d, x.deadline = some d ∧ T.wallOf d < T.wall + nanosPerMilli) :
    Survives e none
  | eternal (v : ValueType) : Survives (some ⟨v, none⟩) (some ⟨v, none⟩)
  | window (v : ValueType) (millis : Nat) (d d' : Int) (hafter : T.wall < millis * nanosPerMilli)
    (hd : InMilli millis (T.wallOf d)) (hd' : InMilli millis (r.wallOf d')) :
    Survives (some ⟨v, some d⟩) (some ⟨v, some d'⟩)

/-- The deadlines that one Unix time gives in the run and in the replay. -/
inductive SameTarget : Int → Int → Prop
  | ahead (millis : Nat) (d d' : Int) (hafter : T.wall < millis * nanosPerMilli)
    (hd : InMilli millis (T.wallOf d)) (hd' : InMilli millis (r.wallOf d')) : SameTarget d d'
  | past (d d' : Int) (hd : T.wallOf d < (T.wall / nanosPerMilli + 1) * nanosPerMilli)
    (hd' : d' < r.now) :
    SameTarget d d'

theorem unixDeadline_cases (c : Clock) (millis : Nat) :
    (millis * nanosPerMilli ≤ c.wall ∧ unixDeadline c millis = c.now - nanosPerMilli) ∨
      (c.wall < millis * nanosPerMilli ∧ InMilli millis (c.wallOf (unixDeadline c millis))) := by
  unfold InMilli Clock.wallOf
  by_cases h : (millis : Int) ≤ c.wall / nanosPerMilli
  · rw [unixDeadline, if_pos h]
    refine .inl ⟨?_, rfl⟩
    simp only [nanosPerMilli] at *
    omega
  · rw [unixDeadline, if_neg h]
    simp only [nanosPerMilli] at *
    exact .inr ⟨by omega, by omega, by omega⟩

variable (c : Clock)

theorem sameTarget_of_resolve (hwall : r.wall = T.wall) (hle : c.le T) (hstep : c.inStep T)
    (millis : Nat) (d d' : Int) (hd : resolveUnixTarget c millis = some (.ok d))
    (hd' : resolveUnixTarget r millis = some (.ok d')) : SameTarget T r d d' := by
  obtain ⟨-, rfl⟩ := resolveUnixTarget_eq_ok c millis d hd
  obtain ⟨-, rfl⟩ := resolveUnixTarget_eq_ok r millis d' hd'
  have hof := hstep.wallOf_eq c T (unixDeadline c millis)
  have hcT : c.wall ≤ T.wall := by
    unfold Clock.inStep Clock.now at hstep
    unfold Clock.le at hle
    omega
  rcases unixDeadline_cases r millis with ⟨hbefore, heq⟩ | ⟨hafter, hr⟩
  · rw [hwall] at hbefore
    refine .past _ _ ?_ ?_
    · rw [← hof]
      rcases unixDeadline_cases c millis with ⟨-, heq'⟩ | ⟨-, hc⟩
      · rw [heq', Clock.wallOf]
        simp only [nanosPerMilli] at *
        omega
      · have := hc.2
        simp only [nanosPerMilli] at *
        omega
    · rw [heq]
      simp only [nanosPerMilli]
      omega
  · rw [hwall] at hafter
    rcases unixDeadline_cases c millis with ⟨hc, -⟩ | ⟨-, hc⟩
    · omega
    · exact .ahead millis _ _ hafter (hof ▸ hc) hr

theorem isExpired_window (hle : c.le T) (v : ValueType) (millis : Nat) (d : Int)
    (hafter : T.wall < millis * nanosPerMilli)
    (hd : InMilli millis (T.wallOf d)) : Entry.isExpired c ⟨v, some d⟩ = false := by
  refine decide_eq_false ?_
  have hd := hd.1
  unfold Clock.wallOf Clock.now at *
  unfold Clock.le at hle
  omega

theorem isExpired_replayed (hwall : r.wall = T.wall) (v : ValueType) (millis : Nat) (d : Int)
    (hafter : T.wall < millis * nanosPerMilli) (hd : InMilli millis (r.wallOf d)) :
    Entry.isExpired r ⟨v, some d⟩ = false := by
  refine decide_eq_false ?_
  have hd := hd.1
  unfold Clock.wallOf Clock.now at *
  omega

theorem survives_alive (hwall : r.wall = T.wall) (hle : c.le T) (v : ValueType) (d d' : Int)
    (h : SameTarget T r d d') :
    Survives T r (Entry.alive c ⟨v, some d⟩) (Entry.alive r ⟨v, some d'⟩) := by
  cases h with
  | ahead millis _ _ hafter hd hd' =>
    rw [Entry.alive, if_neg (by simp [isExpired_window T c hle v millis d hafter hd]),
      Entry.alive, if_neg (by simp [isExpired_replayed T r hwall v millis d' hafter hd'])]
    exact .window v millis d d' hafter hd hd'
  | past _ _ hd hd' =>
    have hexpired : Entry.isExpired r ⟨v, some d'⟩ = true := decide_eq_true hd'
    rw [Entry.alive.eq_1 r, if_pos hexpired]
    refine .ended _ fun x hx => ?_
    obtain ⟨-, rfl⟩ := (Entry.alive_eq_some c _ x).mp hx
    refine ⟨d, rfl, ?_⟩
    simp only [nanosPerMilli] at *
    omega

/-- Time takes from the run what it will have lost at `T`. -/
theorem Survives.later (hle : c.le T) (e e' : Option Entry) (h : Survives T r e e') :
    Survives T r (e.bind (Entry.alive c)) e' := by
  cases h with
  | ended _ h =>
    refine .ended _ fun x hx => ?_
    obtain ⟨y, hy, hx⟩ := Option.bind_eq_some_iff.mp hx
    obtain ⟨-, rfl⟩ := (Entry.alive_eq_some c y x).mp hx
    exact h y hy
  | eternal v => exact .eternal v
  | window v millis d d' hafter hd hd' =>
    rw [Option.bind_some, Entry.alive,
      if_neg (by simp [isExpired_window T c hle v millis d hafter hd])]
    exact .window v millis d d' hafter hd hd'

/-! ## One operation -/

/-- Nothing that lasts is lost. -/
inductive Lasting : Option Entry → Option Entry → Prop
  | missing : Lasting none none
  | eternal (v : ValueType) : Lasting (some ⟨v, none⟩) (some ⟨v, none⟩)
  | window (v : ValueType) (millis : Nat) (d d' : Int) (hafter : T.wall < millis * nanosPerMilli)
    (hd : InMilli millis (T.wallOf d)) (hd' : InMilli millis (r.wallOf d')) :
    Lasting (some ⟨v, some d⟩) (some ⟨v, some d'⟩)

theorem survives_none : Survives T r none none := .ended none fun x hx => by cases hx

theorem Lasting.survives (e e' : Option Entry) (h : Lasting T r e e') : Survives T r e e' := by
  cases h with
  | missing => exact survives_none T r
  | eternal v => exact .eternal v
  | window v millis d d' hafter hd hd' => exact .window v millis d d' hafter hd hd'

theorem Survives.lasting (e e' : Option Entry) (h : Survives T r e e') (hlasts : lasts T e = true) :
    Lasting T r e e' := by
  cases h with
  | ended _ h =>
    cases e with
    | none => exact .missing
    | some x =>
      obtain ⟨d, hd, hlt⟩ := h x rfl
      rw [lasts, Option.bind_some, hd] at hlasts
      have := of_decide_eq_true hlasts
      omega
  | eternal v => exact .eternal v
  | window v millis d d' hafter hd hd' => exact .window v millis d d' hafter hd hd'

end

namespace Op

/-- Whether an operation that names no deadline leaves the one there is. -/
def keepsDeadline : Op → Bool
  | set _ => false
  | setWithOptions _ ttl existence => decide (ttl = .keepTtl) || !Slot.allows existence true
  | _ => true

theorem apply_none (c : Clock) (op : Op) (h : ¬ op.Timed) :
    op.apply c none = (op.untimed none).map (⟨·, none⟩) := by
  cases op with
  | setWithOptions value ttl existence =>
    cases ttl with
    | «at» d => exact absurd trivial h
    | none => cases existence <;> rfl
    | keepTtl => cases existence <;> rfl
  | expireAt => exact absurd trivial h
  | _ => rfl

theorem apply_some (c : Clock) (op : Op) (h : ¬ op.Timed) (v : ValueType) (d : Option Int)
    (hlive : Entry.isExpired c ⟨v, d⟩ = false) :
    op.apply c (some ⟨v, d⟩) =
      (op.untimed (some v)).map (⟨·, if op.keepsDeadline then d else none⟩) := by
  cases op with
  | setWithOptions value ttl existence =>
    have hlive' : Entry.alive c ⟨value, d⟩ = some ⟨value, d⟩ :=
      (Entry.alive_eq_some c _ _).mpr ⟨hlive, rfl⟩
    cases ttl with
    | «at» d => exact absurd trivial h
    | none => cases existence <;> rfl
    | keepTtl =>
      cases existence <;> simp [apply, untimed, keepsDeadline, Slot.allows, newDeadline, hlive']
  | expireAt => exact absurd trivial h
  | incrBy increment =>
    simp only [apply, untimed, keepsDeadline]
    cases incremented increment v <;> rfl
  | hset field value => cases v <;> rfl
  | hdel field =>
    cases v with
    | hash g =>
      simp only [apply, untimed, keepsDeadline]
      split_ifs <;> rfl
    | _ => rfl
  | _ => rfl

end Op

section
variable (T r c : Clock)

/-- An operation without a deadline does the same to both. -/
theorem Lasting.untimed (hwall : r.wall = T.wall) (hle : c.le T) (op : Op) (hop : ¬ op.Timed)
    (e e' : Option Entry) (h : Lasting T r e e') : Lasting T r (op.apply c e) (op.apply r e') := by
  cases h with
  | missing =>
    rw [op.apply_none c hop, op.apply_none r hop]
    cases op.untimed none with
    | none => exact .missing
    | some v => exact .eternal v
  | eternal v =>
    rw [op.apply_some c hop v none rfl, op.apply_some r hop v none rfl, ite_self]
    cases op.untimed (some v) with
    | none => exact .missing
    | some w => exact .eternal w
  | window v millis d d' hafter hd hd' =>
    rw [op.apply_some c hop v _ (isExpired_window T c hle v millis d hafter hd),
      op.apply_some r hop v _ (isExpired_replayed T r hwall v millis d' hafter hd')]
    cases op.untimed (some v) with
    | none => exact .missing
    | some w =>
      cases op.keepsDeadline with
      | true => exact .window w millis d d' hafter hd hd'
      | false => exact .eternal w

/-- An operation that does not look at what is there brings both to the same. -/
theorem Survives.fresh (op : Op) (hop : ¬ op.Timed) (hprior : op.usesPrior = false)
    (e : Option Entry)
    (h : ∀ x, e = some x → ∃ d, x.deadline = some d ∧ T.wallOf d < T.wall + nanosPerMilli) :
    Survives T r (op.apply c e) (op.apply r none) := by
  cases op with
  | purge => exact .ended e h
  | set value => exact .eternal value
  | setWithOptions value ttl existence =>
    cases ttl with
    | «at» d => exact absurd trivial hop
    | keepTtl => cases hprior
    | none =>
      obtain rfl : existence = .always := by simpa [Op.usesPrior] using hprior
      exact .eternal value
  | delete => exact survives_none T r
  | hdel field =>
    refine .ended _ fun x hx => ?_
    obtain _ | ⟨v, d⟩ := e
    · cases hx
    · have hdeadline : x.deadline = d := by
        cases v with
        | hash g =>
          simp only [Op.apply] at hx
          split_ifs at hx <;> cases hx <;> rfl
        | _ =>
          cases hx
          rfl
      obtain ⟨d', hd', hlt⟩ := h _ rfl
      exact ⟨d', hdeadline.trans hd', hlt⟩
  | expireAt | incrBy | hset => cases hprior

theorem Survives.untimed (hwall : r.wall = T.wall) (hle : c.le T) (op : Op) (hop : ¬ op.Timed)
    (e e' : Option Entry) (h : Survives T r e e')
    (hprior : op.usesPrior = true → Lasting T r e e') :
    Survives T r (op.apply c e) (op.apply r e') := by
  have hlasting : Lasting T r e e' → Survives T r (op.apply c e) (op.apply r e') :=
    fun hl => (hl.untimed T r c hwall hle op hop).survives
  cases h with
  | ended _ h =>
    cases huses : op.usesPrior with
    | true => exact hlasting (hprior huses)
    | false => exact .fresh T r c op hop huses e h
  | eternal v => exact hlasting (.eternal v)
  | window v millis d d' hafter hd hd' => exact hlasting (.window v millis d d' hafter hd hd')

/-- A flag decides alike in both, or it is between two deadlines in the same millisecond. -/
theorem shouldApply_same (hwall : r.wall = T.wall) (flag : ExpireFlag) (millis : Nat)
    (d₀ d₀' d d' : Int) (hafter : T.wall < millis * nanosPerMilli)
    (hd₀ : InMilli millis (T.wallOf d₀)) (hd₀' : InMilli millis (r.wallOf d₀'))
    (h : SameTarget T r d d') :
    Slot.shouldApply flag d (some d₀) = Slot.shouldApply flag d' (some d₀') ∨
      InMilli millis (T.wallOf d) ∧ InMilli millis (r.wallOf d') := by
  have hcompare : ((d₀ < d ↔ d₀' < d') ∧ (d < d₀ ↔ d' < d₀')) ∨
      InMilli millis (T.wallOf d) ∧ InMilli millis (r.wallOf d') := by
    cases h with
    | ahead m _ _ _ hd hd' =>
      by_cases hm : m = millis
      · exact .inr (hm ▸ ⟨hd, hd'⟩)
      · refine .inl ?_
        unfold InMilli Clock.wallOf at *
        simp only [nanosPerMilli] at *
        omega
    | past _ _ hd hd' =>
      refine .inl ?_
      unfold InMilli Clock.wallOf at *
      simp only [nanosPerMilli] at *
      omega
  refine hcompare.imp_left fun ⟨hgt, hlt⟩ => ?_
  cases flag with
  | gt => exact decide_eq_decide.mpr hgt
  | lt => exact decide_eq_decide.mpr hlt
  | _ => rfl

theorem Survives.expireAt (hwall : r.wall = T.wall) (hle : c.le T) (flag : ExpireFlag) (d d' : Int)
    (hd : SameTarget T r d d') (e e' : Option Entry) (h : Lasting T r e e') :
    Survives T r ((Op.expireAt d flag).apply c e) ((Op.expireAt d' flag).apply r e') := by
  cases h with
  | missing => exact survives_none T r
  | eternal v =>
    have hsame : Slot.shouldApply flag d' none = Slot.shouldApply flag d none := by
      cases flag <;> rfl
    simp only [Op.apply, hsame]
    split_ifs
    · exact survives_alive T r c hwall hle v d d' hd
    · exact .eternal v
  | window v millis d₀ d₀' hafter hd₀ hd₀' =>
    simp only [Op.apply]
    rcases shouldApply_same T r hwall flag millis d₀ d₀' d d' hafter hd₀ hd₀' hd with
        hsame | ⟨hin, hin'⟩
    · rw [hsame]
      split_ifs
      · exact survives_alive T r c hwall hle v d d' hd
      · exact .window v millis d₀ d₀' hafter hd₀ hd₀'
    · -- Whichever of the deadlines is taken on either side, they are in the same millisecond.
      have hlive : ∀ b : Bool, ∃ x, InMilli millis (T.wallOf x) ∧
          (if b = true then Entry.alive c ⟨v, some d⟩ else some ⟨v, some d₀⟩) =
          some ⟨v, some x⟩ := by
        intro b
        cases b with
        | false => exact ⟨d₀, hd₀, rfl⟩
        | true =>
          exact ⟨d, hin, (Entry.alive_eq_some c _ _).mpr
            ⟨isExpired_window T c hle v millis d hafter hin, rfl⟩⟩
      have hlive' : ∀ b : Bool, ∃ x, InMilli millis (r.wallOf x) ∧
          (if b = true then Entry.alive r ⟨v, some d'⟩ else some ⟨v, some d₀'⟩) = some ⟨v,
            some x⟩ := by
        intro b
        cases b with
        | false => exact ⟨d₀', hd₀', rfl⟩
        | true =>
          exact ⟨d', hin', (Entry.alive_eq_some r _ _).mpr
            ⟨isExpired_replayed T r hwall v millis d' hafter hin', rfl⟩⟩
      obtain ⟨x, hx, heq⟩ := hlive (Slot.shouldApply flag d (some d₀))
      obtain ⟨x', hx', heq'⟩ := hlive' (Slot.shouldApply flag d' (some d₀'))
      rw [heq, heq']
      exact .window v millis x x' hafter hx hx'

theorem Lasting.isSome_eq (e e' : Option Entry) (h : Lasting T r e e') : e'.isSome = e.isSome := by
  cases h <;> rfl

/-- A deadline that names the same Unix time in both. -/
theorem Survives.timed (hwall : r.wall = T.wall) (hle : c.le T) (t : TimedOp) (d d' : Int)
    (hd : SameTarget T r d d') (e e' : Option Entry) (h : Survives T r e e')
    (hprior : (t.op d).usesPrior = true → Lasting T r e e') :
    Survives T r ((t.op d).apply c e) ((t.op d').apply r e') := by
  cases t with
  | expire flag => exact .expireAt T r c hwall hle flag d d' hd e e' (hprior rfl)
  | set value existence =>
    simp only [TimedOp.op, Op.apply, Op.newDeadline]
    by_cases hexistence : existence = .always
    · subst hexistence
      exact survives_alive T r c hwall hle value d d' hd
    · rw [(hprior (decide_eq_true hexistence)).isSome_eq T r e e']
      split_ifs
      · exact survives_alive T r c hwall hle value d d' hd
      · exact h

/-- A deadline that is refused in the run is refused in the replay. -/
theorem Survives.refused (t : TimedOp) (d d' : Int) (e e' : Option Entry) (h : Survives T r e e')
    (hprior : (t.op d).usesPrior = true → Lasting T r e e') (hrefused : (t.op d).refused e = true) :
    Survives T r ((t.op d).apply c e) ((t.op d').apply r e') := by
  cases t with
  | set value existence =>
    have hallows : Slot.allows existence e.isSome = false := by
      simpa [TimedOp.op, Op.refused] using hrefused
    have hexistence : existence ≠ .always := by
      rintro rfl
      cases hallows
    have hlasting := hprior (decide_eq_true hexistence)
    simp only [TimedOp.op, Op.apply, hlasting.isSome_eq, hallows, Bool.false_eq_true, if_false]
    exact h
  | expire flag =>
    cases hprior rfl with
    | missing => exact survives_none T r
    | eternal v =>
      cases flag with
      | xx | gt => exact .eternal v
      | none | nx | lt => cases hrefused
    | window v millis d₀ d₀' hafter hd₀ hd₀' =>
      cases flag with
      | nx => exact .window v millis d₀ d₀' hafter hd₀ hd₀'
      | none | xx | gt | lt => cases hrefused

/-! ## One command -/

omit T c in
theorem resolve_ne_error (target : Target) (e : String)
    (h : ∀ millis, target = .unix millis → 0 ≤ r.wall) : target.resolve r ≠ some (.error e) := by
  intro herror
  cases target with
  | after nanos =>
    rw [Target.resolve] at herror
    cases hadd : addDuration r.now nanos <;> rw [hadd] at herror <;> cases herror
  | unix millis =>
    obtain ⟨nowMs, hnow, -⟩ := unixMillis_eq r (h millis rfl)
    rw [Target.resolve, resolveUnixTarget, hnow] at herror
    simp only at herror
    split_ifs at herror
    · cases herror
    · cases hadd : addDuration r.now (fromMillis (millis - nowMs)) <;> rw [hadd] at herror <;>
        cases herror

section
variable (hwall : r.wall = T.wall) (hle : c.le T) (relative : Bool) (k : String)
include hwall hle

omit hwall hle in
theorem Step.keepsLifetime_on (s : MemoryStore) (op : Op)
    (h : (Step.on k op).keepsLifetime T c relative s = true) :
    (op.usesPrior = true → lasts T (s.live c k) = true) ∧
      (relative = true → op.refused (s.live c k) = true) := by
  simp only [Step.keepsLifetime, Bool.and_eq_true, Bool.or_eq_true, Bool.not_eq_true'] at h
  exact ⟨fun hp => h.1.resolve_left (by simp [hp]), fun hr => h.2.resolve_left (by simp [hr])⟩

theorem Survives.actAll (steps : List Step) (htimed : ∀ step ∈ steps, ¬ step.Timed)
    (e e' : Option Entry) (h : Survives T r e e')
    (hprior : ∀ op, Step.on k op ∈ steps → op.usesPrior = true → Lasting T r e e') :
    Survives T r (Step.actAll c k steps e) (Step.actAll r k steps e') := by
  induction steps generalizing e e' with
  | nil => exact h
  | cons step steps ih =>
    have htimed' : ∀ step ∈ steps, ¬ step.Timed :=
      fun st hst => htimed st (List.mem_cons_of_mem _ hst)
    have hprior' : ∀ op, Step.on k op ∈ steps → op.usesPrior = true → Lasting T r e e' :=
      fun op hop => hprior op (List.mem_cons_of_mem _ hop)
    rw [Step.actAll_cons, Step.actAll_cons]
    cases step with
    | flush => exact ih htimed' none none (survives_none T r) fun _ _ _ => .missing
    | on key op =>
      simp only [Step.act]
      split_ifs with hk
      · subst hk
        have hop : ¬ op.Timed := htimed _ List.mem_cons_self
        exact ih htimed' _ _ (h.untimed T r c hwall hle op hop e e' (hprior op List.mem_cons_self))
          fun op' hop' huses => (hprior' op' hop' huses).untimed T r c hwall hle op hop
      · exact ih htimed' e e' h hprior'

theorem Survives.plan (hstep : c.inStep T) (as bs : List Step) (hsame : SamePlan relative c r as bs)
    (s s' : MemoryStore) (hkeeps : ∀ step ∈ as, step.keepsLifetime T c relative s = true)
    (h : Survives T r (s.live c k) (s'.live r k)) :
    Survives T r ((Step.runAll c as s).live c k) ((Step.runAll r bs s').live r k) := by
  rw [Step.live_runAll, Step.live_runAll]
  have hprior : ∀ op, Step.on k op ∈ as → op.usesPrior = true →
      Lasting T r (s.live c k) (s'.live r k) := by
    intro op hop huses
    exact h.lasting T r _ _ ((Step.keepsLifetime_on T c relative k s op (hkeeps _ hop)).1 huses)
  cases hsame with
  | untimed steps htimed => exact h.actAll T r c hwall hle k as htimed _ _ hprior
  | timed key t target d d' hrelative hd hd' =>
    simp only [Step.actAll_cons, Step.actAll_nil, Step.act]
    split_ifs with hk
    · subst hk
      have hprior := hprior (t.op d) List.mem_cons_self
      cases target with
      | after nanos =>
        have hrefused := (Step.keepsLifetime_on T c relative k s _ (hkeeps _ List.mem_cons_self)).2
          hrelative.symm
        exact h.refused T r c t d d' _ _ hprior hrefused
      | unix millis =>
        exact h.timed T r c hwall hle t d d'
          (sameTarget_of_resolve T r c hwall hle hstep millis d d' hd hd') _ _ hprior
    · exact h
  | dropped key t target d e hd hd' =>
    refine absurd hd' (resolve_ne_error r target e ?_)
    -- The clock of the run was past the epoch when it resolved a Unix time, so that of the replay
    -- is too.
    rintro millis rfl
    obtain ⟨hpos, -⟩ := resolveUnixTarget_eq_ok c millis d hd
    unfold Clock.inStep Clock.now at hstep
    unfold Clock.le at hle
    omega

end

/-! ## A run -/

end

end RustyPotato
