import Mathlib.Tactic

/-!
# Patterns with stars

A pattern starts with a piece that takes one symbol, or with a star that takes any number of them. A
matcher goes through pattern and text side by side and keeps the last star as its only way back.
That is enough: what an earlier star could take, the last one can take as well.
-/

namespace Lib.Wildcard

/-- How a pattern starts, and what follows. A dead one matches nothing. -/
inductive Head (π α : Type) where
  | done
  | dead
  | one (accepts : α → Bool) (rest : π)
  | star (rest : π)

section

variable {π α : Type} (head : π → Head π α)

inductive Matches : π → List α → Prop
  | done (p : π) (hp : head p = .done) : Matches p []
  | one (p : π) (accepts : α → Bool) (rest : π) (a : α) (t : List α)
    (hp : head p = .one accepts rest)
    (ha : accepts a = true) (h : Matches rest t) : Matches p (a :: t)
  | star (p rest : π) (skipped t : List α) (hp : head p = .star rest) (h : Matches rest t) :
    Matches p (skipped ++ t)

variable {head}

/-- What the start of a pattern asks of the text. -/
def Head.Takes (M : π → List α → Prop) : Head π α → List α → Prop
  | done, t => t = []
  | dead, _ => False
  | one accepts rest, t => ∃ a t', t = a :: t' ∧ accepts a = true ∧ M rest t'
  | star rest, t => ∃ k, M rest (t.drop k)

theorem matches_iff (p : π) (t : List α) : Matches head p t ↔ (head p).Takes (Matches head) t := by
  constructor
  · intro h
    cases h with
    | done _ hp =>
      rw [hp]
      rfl
    | one _ accepts rest a t' hp ha h =>
      rw [hp]
      exact ⟨a, t', rfl, ha, h⟩
    | star _ rest skipped t' hp h =>
      rw [hp]
      exact ⟨skipped.length, by rwa [List.drop_left]⟩
  · intro h
    cases hp : head p with
    | done =>
      rw [hp] at h
      obtain rfl : t = [] := h
      exact .done p hp
    | dead =>
      rw [hp] at h
      exact h.elim
    | one accepts rest =>
      rw [hp] at h
      obtain ⟨a, t', rfl, ha, h⟩ := h
      exact .one p accepts rest a t' hp ha h
    | star rest =>
      rw [hp] at h
      obtain ⟨k, h⟩ := h
      rw [← List.take_append_drop k t]
      exact .star p rest _ _ hp h

theorem matches_one (p : π) (accepts : α → Bool) (rest : π) (hp : head p = .one accepts rest)
    (a : α) (t : List α) : Matches head p (a :: t) ↔ accepts a = true ∧ Matches head rest t := by
  rw [matches_iff, hp]
  simp [Head.Takes]

theorem not_matches_one_nil (p : π) (accepts : α → Bool) (rest : π)
    (hp : head p = .one accepts rest) : ¬ Matches head p [] := by
  rw [matches_iff, hp]
  simp [Head.Takes]

theorem matches_star (p rest : π) (hp : head p = .star rest) (t : List α) :
    Matches head p t ↔ ∃ k, Matches head rest (t.drop k) := by
  rw [matches_iff, hp]
  rfl

theorem not_matches_done (p : π) (hp : head p = .done) (a : α) (t : List α) :
    ¬ Matches head p (a :: t) := by
  rw [matches_iff, hp]
  simp [Head.Takes]

theorem not_matches_dead (p : π) (hp : head p = .dead) (t : List α) : ¬ Matches head p t := by
  rw [matches_iff, hp]
  exact id

variable (head)

/-- From one pattern to another by pieces that take these symbols, one each. -/
inductive Segment : π → π → List α → Prop
  | refl (p : π) : Segment p p []
  | snoc (p q rest : π) (v : List α) (accepts : α → Bool) (a : α) (h : Segment p q v)
    (hq : head q = .one accepts rest)
    (ha : accepts a = true) : Segment p rest (v ++ [a])

variable {head}

/-- Whatever the pieces in between take, they take as many symbols. -/
theorem Segment.matches_drop (p q : π) (v : List α) (h : Segment head p q v) (u : List α)
    (hu : Matches head p u) : v.length ≤ u.length ∧ Matches head q (u.drop v.length) := by
  induction h with
  | refl => exact ⟨Nat.zero_le _, hu⟩
  | snoc q rest v accepts a _ hq _ ih =>
    obtain ⟨hlen, hmatch⟩ := ih
    cases hrest : u.drop v.length with
    | nil =>
      rw [hrest] at hmatch
      exact absurd hmatch (not_matches_one_nil q accepts rest hq)
    | cons b t =>
      rw [hrest, matches_one q accepts rest hq] at hmatch
      have hlength := congrArg List.length hrest
      rw [List.length_drop, List.length_cons] at hlength
      rw [List.length_append, List.length_singleton, ← List.drop_drop, hrest]
      exact ⟨by omega, hmatch.2⟩

end

/--
A kind of pattern. The size bounds the pieces; what may be left at the end of the text is a list of
stars.
-/
structure Patterns (π α : Type) where
  head : π → Head π α
  size : π → Nat
  size_one : ∀ p accepts rest, head p = .one accepts rest → size rest < size p
  size_star : ∀ p rest, head p = .star rest → size rest < size p
  ends : π → Bool
  ends_iff : ∀ p, ends p = true ↔ Matches head p []

/-! ## The matcher -/

structure State (π α : Type) where
  pattern : π
  text : List α
  /-- What follows the last star, and the text from where that has stopped. -/
  back : Option (π × List α)

variable {π α : Type}

/-- The last star takes one symbol more. -/
def State.backtrack (s : State π α) : Option (State π α) :=
  s.back.map fun b => ⟨b.1, b.2.tail, some (b.1, b.2.tail)⟩

namespace Patterns

variable (P : Patterns π α)

def next (s : State π α) : Option (State π α) :=
  match s.text with
  | [] => none
  | a :: t =>
    match P.head s.pattern with
    | .star rest => some ⟨rest, a :: t, some (rest, a :: t)⟩
    | .one accepts rest => if accepts a then some ⟨rest, t, s.back⟩ else s.backtrack
    | .done | .dead => s.backtrack

/-- The answer after at most so many turns. -/
def run : Nat → State π α → Option Bool
  | 0, _ => none
  | n + 1, s =>
    match s.text with
    | [] => some (P.ends s.pattern)
    | _ :: _ =>
      match P.next s with
      | some s' => run n s'
      | none => some false

/-! ## What a state can still match -/

/-- The text matches from here, or with the last star at a later place. -/
def Wins (s : State π α) : Prop :=
  Matches P.head s.pattern s.text ∨ ∃ p u, s.back = some (p, u) ∧
    ∃ k, Matches P.head p (u.tail.drop k)

/-- The matcher has come from the last star piece by piece. -/
def Sound (s : State π α) : Prop :=
  ∀ p u, s.back = some (p, u) → ∃ v, u = v ++ s.text ∧ Segment P.head p s.pattern v

variable {P}

/-- At a star the ways back behind it are of no use: it can take what they would. -/
theorem wins_star (s : State π α) (hs : P.Sound s) (rest : π) (hp : P.head s.pattern = .star rest) :
    P.Wins s ↔ P.Wins ⟨rest, s.text, some (rest, s.text)⟩ := by
  have hnew : P.Wins ⟨rest, s.text, some (rest, s.text)⟩ ↔ Matches P.head s.pattern s.text := by
    rw [matches_star s.pattern rest hp]
    constructor
    · rintro (h | ⟨p, u, hback, k, h⟩)
      · exact ⟨0, h⟩
      · cases hback
        exact ⟨k + 1, by rwa [List.drop_tail] at h⟩
    · rintro ⟨k, h⟩
      cases k with
      | zero => exact .inl h
      | succ k => exact .inr ⟨rest, s.text, rfl, k, by rwa [List.drop_tail]⟩
  rw [hnew]
  refine ⟨fun h => ?_, .inl⟩
  rcases h with h | ⟨p, u, hback, k, h⟩
  · exact h
  · obtain ⟨v, rfl, hsegment⟩ := hs p u hback
    rw [List.drop_tail] at h
    obtain ⟨-, hstar⟩ := hsegment.matches_drop p _ v _ h
    rw [matches_star s.pattern rest hp] at hstar ⊢
    obtain ⟨j, hj⟩ := hstar
    refine ⟨k + 1 + j, ?_⟩
    have hdrop : (((v ++ s.text).drop (k + 1)).drop v.length).drop j = s.text.drop (k + 1 + j) := by
      rw [List.drop_drop, List.drop_drop,
        show k + 1 + (v.length + j) = v.length + (k + 1 + j) by omega,
        ← List.drop_drop, List.drop_left]
    rwa [hdrop] at hj

theorem wins_one (s : State π α) (accepts : α → Bool) (rest : π) (a : α) (t : List α)
    (htext : s.text = a :: t) (hp : P.head s.pattern = .one accepts rest) (ha : accepts a = true) :
    P.Wins s ↔ P.Wins ⟨rest, t, s.back⟩ := by
  unfold Wins
  rw [htext, matches_one s.pattern accepts rest hp]
  simp [ha]

theorem wins_backtrack (s s' : State π α) (hs : ¬ Matches P.head s.pattern s.text)
    (h : s.backtrack = some s') : P.Wins s ↔ P.Wins s' := by
  obtain ⟨⟨p, u⟩, hback, rfl⟩ := Option.map_eq_some_iff.mp h
  constructor
  · rintro (hmatch | ⟨p', u', hback', k, hk⟩)
    · exact absurd hmatch hs
    · cases hback.symm.trans hback'
      cases k with
      | zero => exact .inl hk
      | succ k => exact .inr ⟨p, u.tail, rfl, k, by rwa [List.drop_tail]⟩
  · rintro (hmatch | ⟨p', u', hback', k, hk⟩)
    · exact .inr ⟨p, u, hback, 0, hmatch⟩
    · cases hback'
      exact .inr ⟨p, u, hback, k + 1, by rwa [List.drop_tail] at hk⟩

/-- At the end of the text there is nothing to gain from the last star. -/
theorem wins_end (s : State π α) (hs : P.Sound s) (htext : s.text = []) :
    P.Wins s ↔ Matches P.head s.pattern [] := by
  unfold Wins
  rw [htext]
  refine or_iff_left_of_imp ?_
  rintro ⟨p, u, hback, k, h⟩
  obtain ⟨v, hu, hsegment⟩ := hs p u hback
  rw [htext, List.append_nil] at hu
  obtain ⟨-, hmatch⟩ := hsegment.matches_drop p _ v _ h
  have hnil : ((u.tail.drop k).drop v.length) = [] := by
    rw [hu]
    refine List.drop_eq_nil_of_le ?_
    rw [List.length_drop, List.length_tail]
    omega
  rwa [hnil] at hmatch

theorem wins_stuck (s : State π α) (hs : ¬ Matches P.head s.pattern s.text)
    (h : s.backtrack = none) : ¬ P.Wins s := by
  rintro (hmatch | ⟨p, u, hback, -⟩)
  · exact hs hmatch
  · simp [State.backtrack, hback] at h

theorem sound_backtrack (s s' : State π α) (h : s.backtrack = some s') : P.Sound s' := by
  obtain ⟨⟨p, u⟩, -, rfl⟩ := Option.map_eq_some_iff.mp h
  rintro p' u' ⟨⟩
  exact ⟨[], rfl, .refl p⟩

theorem sound_one (s : State π α) (hs : P.Sound s) (accepts : α → Bool) (rest : π) (a : α)
    (t : List α) (htext : s.text = a :: t) (hp : P.head s.pattern = .one accepts rest)
    (ha : accepts a = true) : P.Sound ⟨rest, t, s.back⟩ := by
  intro p u hback
  obtain ⟨v, rfl, hsegment⟩ := hs p u hback
  exact ⟨v ++ [a], by simp [htext], .snoc p s.pattern rest v accepts a hsegment hp ha⟩

/-- What a turn can do. -/
inductive Turn (P : Patterns π α) (s : State π α) (a : α) (t : List α) : Option (State π α) → Prop
  | star (rest : π) (hp : P.head s.pattern = .star rest) :
    Turn P s a t (some ⟨rest, s.text, some (rest, s.text)⟩)
  | one (accepts : α → Bool) (rest : π) (hp : P.head s.pattern = .one accepts rest)
    (ha : accepts a = true) :
    Turn P s a t (some ⟨rest, t, s.back⟩)
  | back (hs : ¬ Matches P.head s.pattern s.text) : Turn P s a t s.backtrack

theorem next_turn (s : State π α) (a : α) (t : List α) (htext : s.text = a :: t) :
    Turn P s a t (P.next s) := by
  unfold next
  simp only [htext]
  cases hp : P.head s.pattern with
  | done => exact .back (htext ▸ not_matches_done _ hp a t)
  | dead => exact .back (not_matches_dead _ hp _)
  | star rest =>
    simp only
    rw [← htext]
    exact .star rest hp
  | one accepts rest =>
    simp only
    split_ifs with ha
    · exact .one accepts rest hp ha
    · refine .back ?_
      rw [htext, matches_one s.pattern accepts rest hp]
      exact fun h => ha h.1

theorem next_wins (s s' : State π α) (hs : P.Sound s) (h : P.next s = some s') :
    P.Sound s' ∧ (P.Wins s ↔ P.Wins s') := by
  cases htext : s.text with
  | nil => simp [next, htext] at h
  | cons a t =>
    have hturn := next_turn s a t htext (P := P)
    rw [h] at hturn
    generalize hs' : some s' = o at hturn
    cases hturn with
    | star rest hp =>
      cases hs'
      refine ⟨?_, wins_star s hs rest hp⟩
      rintro p u ⟨⟩
      exact ⟨[], rfl, .refl rest⟩
    | one accepts rest hp ha =>
      cases hs'
      exact ⟨sound_one s hs accepts rest a t htext hp ha, wins_one s accepts rest a t htext hp ha⟩
    | back hnot => exact ⟨sound_backtrack s s' hs'.symm, wins_backtrack s s' hnot hs'.symm⟩

theorem next_none (s : State π α) (a : α) (t : List α) (htext : s.text = a :: t)
    (h : P.next s = none) : ¬ P.Wins s := by
  have hturn := next_turn s a t htext (P := P)
  rw [h] at hturn
  generalize hs' : (none : Option (State π α)) = o at hturn
  cases hturn with
  | star => cases hs'
  | one => cases hs'
  | back hnot => exact wins_stuck s hnot hs'.symm

/-! ## How long it takes -/

variable (P)

/-- The text from the last star on, or from here on if there is none. -/
def reach (s : State π α) : Nat := (s.back.map fun b => b.2.length).getD (s.text.length + 1)

/--
A star reaches no further back than the one before, and a way back is shorter each time it is taken.
-/
structure Bounded (bound : Nat) (s : State π α) : Prop where
  pattern : P.size s.pattern ≤ bound
  back : ∀ p u, s.back = some (p, u) → P.size p ≤ bound
  text : ∀ p u, s.back = some (p, u) → s.text.length ≤ u.length

/-- The turns that are left. -/
def work (bound : Nat) (s : State π α) : Nat := reach s * (bound + 1) + P.size s.pattern

variable {P}

theorem work_backtrack (bound : Nat) (s s' : State π α) (hs : P.Bounded bound s)
    (hpos : 0 < s.text.length) (h : s.backtrack = some s') : P.Bounded bound s' ∧
      P.work bound s' < P.work bound s := by
  obtain ⟨⟨p, u⟩, hback, rfl⟩ := Option.map_eq_some_iff.mp h
  have hsize := hs.back p u hback
  have hu := hs.text p u hback
  refine ⟨⟨hsize, ?_, ?_⟩, ?_⟩
  · rintro p' u' ⟨⟩
    exact hsize
  · rintro p' u' ⟨⟩
    exact le_rfl
  · have hreach : reach s = (u.length - 1) + 1 := by
      simp only [reach, hback, Option.map_some, Option.getD_some]
      omega
    simp only [work, hreach]
    simp only [reach, Option.map_some, Option.getD_some, List.length_tail, Nat.add_mul, Nat.one_mul]
    omega

theorem work_next (bound : Nat) (s s' : State π α) (hs : P.Bounded bound s)
    (h : P.next s = some s') : P.Bounded bound s' ∧ P.work bound s' < P.work bound s := by
  cases htext : s.text with
  | nil => simp [next, htext] at h
  | cons a t =>
    have hpattern := hs.pattern
    have hlength : s.text.length = t.length + 1 := by rw [htext, List.length_cons]
    have hturn := next_turn s a t htext (P := P)
    rw [h] at hturn
    generalize hs' : some s' = o at hturn
    cases hturn with
    | star rest hp =>
      cases hs'
      have hsize := P.size_star _ rest hp
      have hreach : s.text.length ≤ reach s := by
        unfold reach
        cases hback : s.back with
        | none => exact Nat.le_succ _
        | some b => exact hs.text b.1 b.2 hback
      refine ⟨⟨hsize.le.trans hpattern, ?_, ?_⟩, ?_⟩
      · rintro p u ⟨⟩
        exact hsize.le.trans hpattern
      · rintro p u ⟨⟩
        exact le_rfl
      · have hmul := Nat.mul_le_mul_right (bound + 1) hreach
        simp only [work]
        simp only [reach, Option.map_some, Option.getD_some] at hmul ⊢
        omega
    | one accepts rest hp ha =>
      cases hs'
      have hsize := P.size_one _ accepts rest hp
      refine ⟨⟨hsize.le.trans hpattern, hs.back, fun p u hback => ?_⟩, ?_⟩
      · have := hs.text p u hback
        simp only
        omega
      · have hreach : reach ⟨rest, t, s.back⟩ ≤ reach s := by
          unfold reach
          cases s.back with
          | none => simp only [Option.map_none, Option.getD_none]; omega
          | some b => exact le_rfl
        have hmul := Nat.mul_le_mul_right (bound + 1) hreach
        simp only [work]
        omega
    | back hnot => exact work_backtrack bound s s' hs (by omega) hs'.symm

/-- The matcher answers in time, and the answer is right. -/
theorem run_eq_some (bound n : Nat) (s : State π α) (hsound : P.Sound s)
    (hbounded : P.Bounded bound s) (hn : P.work bound s < n) : ∃ b, P.run n s = some b ∧
      (b = true ↔ P.Wins s) := by
  induction n generalizing s with
  | zero => omega
  | succ n ih =>
    rw [run]
    cases htext : s.text with
    | nil => exact ⟨P.ends s.pattern, rfl, by rw [P.ends_iff, wins_end s hsound htext]⟩
    | cons a t =>
      simp only
      cases hnext : P.next s with
      | none => exact ⟨false, rfl, by simpa using next_none s a t htext hnext⟩
      | some s' =>
        obtain ⟨hsound', hwins⟩ := next_wins s s' hsound hnext
        obtain ⟨hbounded', hwork⟩ := work_next bound s s' hbounded hnext
        obtain ⟨b, hrun, hb⟩ := ih s' hsound' hbounded' (by omega)
        exact ⟨b, hrun, hb.trans hwins.symm⟩

theorem run_start (p : π) (t : List α) (n : Nat)
    (hn : (t.length + 1) * (P.size p + 1) + P.size p < n) :
    ∃ b, P.run n ⟨p, t, none⟩ = some b ∧ (b = true ↔ Matches P.head p t) := by
  have hsound : P.Sound ⟨p, t, none⟩ := by
    rintro p' u ⟨⟩
  have hbounded : P.Bounded (P.size p) ⟨p, t, none⟩ := by
    refine ⟨le_rfl, ?_, ?_⟩
    · rintro p' u ⟨⟩
    · rintro p' u ⟨⟩
  obtain ⟨b, hrun, hb⟩ := run_eq_some (P.size p) n _ hsound hbounded hn
  refine ⟨b, hrun, hb.trans ?_⟩
  unfold Wins
  simp

end Patterns

end Lib.Wildcard
