import Mathlib.Data.List.TakeWhile
import RustyPotato.Lib.Wildcard
import RustyPotato.Commands.Server

/-!
# The patterns of `KEYS`

What a pattern means, and that `glob_match_bytes` finds a match where there is one, although it
keeps no star but the last to come back to.
-/

namespace RustyPotato

open Lib.Wildcard

/-! ## What a pattern means -/

/--
The ranges that a list between brackets names. A dash without a byte on each side stands for itself.
-/
def classRanges : Bytes → List (UInt8 × UInt8)
  | lo :: dash :: hi :: rest =>
    if dash = ch '-' then (lo, hi) :: classRanges rest
    else (lo, lo) :: classRanges (dash :: hi :: rest)
  | a :: rest => (a, a) :: classRanges rest
  | [] => []

def listed (l : Bytes) (b : UInt8) : Bool :=
  (classRanges l).any fun r => decide (r.1 ≤ b) && decide (b ≤ r.2)

/-- A caret at the start of the list turns it around. -/
def inClass : Bytes → UInt8 → Bool
  | [], _ => false
  | a :: l, b => if a = ch '^' then !listed l b else listed (a :: l) b

/-- A trailing backslash and a bracket that is not closed have no rule. -/
inductive GlobMatches : Bytes → Bytes → Prop
  | nil : GlobMatches [] []
  | escape (x : UInt8) (p t : Bytes) (h : GlobMatches p t) : GlobMatches (ch '\\' :: x :: p)
    (x :: t)
  | any (b : UInt8) (p t : Bytes) (h : GlobMatches p t) : GlobMatches (ch '?' :: p) (b :: t)
  | star (skipped p t : Bytes) (h : GlobMatches p t) : GlobMatches (ch '*' :: p) (skipped ++ t)
  | class (content : Bytes) (b : UInt8) (p t : Bytes) (hclosed : ch ']' ∉ content)
      (hb : inClass content b = true)
    (h : GlobMatches p t) : GlobMatches (ch '[' :: (content ++ ch ']' :: p)) (b :: t)
  | byte (a : UInt8) (p t : Bytes) (ha : a ∉ [ch '\\', ch '?', ch '*', ch '['])
      (h : GlobMatches p t) :
    GlobMatches (a :: p) (a :: t)

/-! ## The pieces of a pattern -/

/-- What stands before the first closing bracket. -/
def classContent (rest : Bytes) : Bytes := rest.takeWhile fun a => a != ch ']'

theorem classContent_append (content rest : Bytes) (h : ch ']' ∉ content) :
    classContent (content ++ ch ']' :: rest) = content := by
  unfold classContent
  rw [List.takeWhile_append_of_pos]
  · simp
  · intro a ha
    exact bne_iff_ne.mpr fun hne => h (hne ▸ ha)

theorem not_mem_classContent (rest : Bytes) : ch ']' ∉ classContent rest := by
  intro h
  have := List.mem_takeWhile_imp h
  simp at this

theorem classContent_split (rest : Bytes) (h : ch ']' ∈ rest) :
    rest = classContent rest ++ ch ']' :: rest.drop ((classContent rest).length + 1) := by
  induction rest with
  | nil => cases h
  | cons a rest ih =>
    unfold classContent at ih ⊢
    by_cases ha : a = ch ']'
    · simp [ha]
    · have hrest := ih ((List.mem_cons.mp h).resolve_left fun heq => ha heq.symm)
      have htake : (a :: rest).takeWhile (fun a => a !=
        ch ']') = a :: rest.takeWhile fun a => a != ch ']' :=
        List.takeWhile_cons_of_pos (bne_iff_ne.mpr ha)
      rw [htake, List.cons_append, List.length_cons, List.drop_succ_cons, ← hrest]

def globHead : Bytes → Head Bytes UInt8
  | [] => .done
  | a :: rest =>
    if a = ch '\\' then
      match rest with
      | x :: rest => .one (fun b => x == b) rest
      | [] => .dead
    else if a = ch '?' then .one (fun _ => true) rest
    else if a = ch '*' then .star rest
    else if a = ch '[' then
      if ch ']' ∈ rest then
        .one (inClass (classContent rest)) (rest.drop ((classContent rest).length + 1))
      else .dead
    else .one (fun b => a == b) rest

theorem globHead_star (rest : Bytes) : globHead (ch '*' :: rest) = .star rest := rfl

theorem globHead_class (content rest : Bytes) (h : ch ']' ∉ content) :
    globHead (ch '[' :: (content ++ ch ']' :: rest)) = .one (inClass content) rest := by
  have hhead : globHead (ch '[' :: (content ++ ch ']' :: rest)) =
      if ch ']' ∈ content ++ ch ']' :: rest then
        .one (inClass (classContent (content ++ ch ']' :: rest)))
          ((content ++ ch ']' :: rest).drop ((classContent (content ++ ch ']' :: rest)).length + 1))
      else .dead := rfl
  rw [hhead, if_pos (by simp), classContent_append content rest h]
  congr 1
  simp [List.drop_append]

theorem globHead_byte (a : UInt8) (rest : Bytes) (ha : a ∉ [ch '\\', ch '?', ch '*', ch '[']) :
    globHead (a :: rest) = .one (fun b => a == b) rest := by
  simp only [List.mem_cons, List.not_mem_nil, or_false, not_or] at ha
  obtain ⟨hescape, hany, hstar, hclass⟩ := ha
  simp only [globHead, hescape, hany, hstar, hclass, if_false]

theorem matches_of_globMatches (p t : Bytes) (h : GlobMatches p t) : Matches globHead p t := by
  induction h with
  | nil => exact .done [] rfl
  | escape x p t _ ih => exact .one _ (fun b => x == b) p x t rfl (beq_self_eq_true x) ih
  | any b p t _ ih => exact .one _ (fun _ => true) p b t rfl rfl ih
  | star skipped p t _ ih => exact .star _ p skipped t rfl ih
  | «class» content b p t hclosed hb _ ih =>
    exact .one _ _ p b t (globHead_class content p hclosed) hb ih
  | byte a p t ha _ ih => exact .one _ _ p a t (globHead_byte a p ha) (beq_self_eq_true a) ih

theorem globMatches_one (p rest : Bytes) (accepts : UInt8 → Bool)
    (hp : globHead p = .one accepts rest) (b : UInt8) (t : Bytes) (hb : accepts b = true)
    (h : GlobMatches rest t) : GlobMatches p (b :: t) := by
  cases p with
  | nil => cases hp
  | cons a p =>
    simp only [globHead] at hp
    split_ifs at hp with hescape hany hstar hclass hclosed
    · cases p with
      | nil => cases hp
      | cons x p =>
        cases hp
        obtain rfl := beq_iff_eq.mp hb
        exact hescape ▸ .escape x _ t h
    · cases hp
      exact hany ▸ .any b _ t h
    · cases hp
      rw [hclass, classContent_split p hclosed]
      exact .class _ b _ t (not_mem_classContent p) hb h
    · cases hp
      obtain rfl := beq_iff_eq.mp hb
      exact .byte a _ t (by simp [hescape, hany, hstar, hclass]) h

theorem globHead_eq_star (p rest : Bytes) (hp : globHead p = .star rest) : p = ch '*' :: rest := by
  cases p with
  | nil => cases hp
  | cons a p =>
    simp only [globHead] at hp
    split_ifs at hp with hescape hany hstar
    · cases p <;> cases hp
    · cases hp
      rw [hstar]

theorem globHead_eq_done (p : Bytes) (hp : globHead p = .done) : p = [] := by
  cases p with
  | nil => rfl
  | cons a p =>
    simp only [globHead] at hp
    split_ifs at hp
    cases p <;> cases hp

theorem globMatches_iff (p t : Bytes) : GlobMatches p t ↔ Matches globHead p t := by
  refine ⟨matches_of_globMatches p t, fun h => ?_⟩
  induction h with
  | done p hp =>
    rw [globHead_eq_done p hp]
    exact .nil
  | one p accepts rest b t hp hb _ ih => exact globMatches_one p rest accepts hp b t hb ih
  | star p rest skipped t hp _ ih =>
    rw [globHead_eq_star p rest hp]
    exact .star skipped rest t ih

/-! ## The bytes of a class -/

section

variable (b : UInt8) (i : Nat) (matched : Bool)

theorem classFrom_stop (rest : Bytes) :
    classFrom b (ch ']' :: rest) i matched = some (i + 1, matched) := by
  rw [classFrom.eq_def]
  simp

theorem classFrom_range (lo hi : UInt8) (rest : Bytes) (hlo : lo ≠ ch ']') (hhi : hi ≠ ch ']') :
    classFrom b (lo :: ch '-' :: hi :: rest) i matched =
      classFrom b rest (i + 3) (matched || (decide (lo ≤ b) && decide (b ≤ hi))) := by
  rw [classFrom.eq_def]
  simp [hlo, hhi]

theorem classFrom_single (lo : UInt8) (l : Bytes) (hlo : lo ≠ ch ']')
    (hl : ∀ dash hi rest, l = dash :: hi :: rest → ¬ (dash = ch '-' ∧ hi ≠ ch ']')) :
    classFrom b (lo :: l) i matched = classFrom b l (i + 1) (matched || lo == b) := by
  rw [classFrom.eq_def]
  simp only [hlo, if_false]
  match l with
  | [] => rfl
  | [a] => rfl
  | dash :: hi :: rest => exact if_neg (hl dash hi rest rfl)

theorem single_range (a : UInt8) : (decide (a ≤ b) && decide (b ≤ a)) = (a == b) := by
  rw [Bool.eq_iff_iff, Bool.and_eq_true, decide_eq_true_eq, decide_eq_true_eq, beq_iff_eq]
  exact ⟨fun h => UInt8.le_antisymm h.1 h.2, fun h => ⟨UInt8.le_of_eq h, UInt8.le_of_eq h.symm⟩⟩

/-- A range takes no closing bracket, so the loop ends at the first. -/
theorem classFrom_closed (content rest : Bytes) (h : ch ']' ∉ content) :
    classFrom b (content ++ ch ']' :: rest) i matched =
      some (i + content.length + 1, matched || listed content b) := by
  unfold listed
  fun_induction classRanges content generalizing i matched with
  | case1 lo hi l ih =>
    simp only [List.mem_cons, not_or] at h
    obtain ⟨hlo, -, hhi, hl⟩ := h
    rw [List.cons_append, List.cons_append, List.cons_append,
      classFrom_range b i matched lo hi _ (Ne.symm hlo) (Ne.symm hhi), ih _ _ hl, List.any_cons,
      Bool.or_assoc]
    simp only [List.length_cons, Option.some.injEq, Prod.mk.injEq, and_true]
    omega
  | case2 lo dash hi l hdash ih =>
    have hlo : lo ≠ ch ']' := fun heq => h (heq ▸ List.mem_cons_self)
    rw [List.cons_append, classFrom_single b i matched lo _ hlo,
      ih _ _ fun hmem => h (List.mem_cons_of_mem _ hmem), List.any_cons, single_range,
      Bool.or_assoc]
    · simp only [List.length_cons, Option.some.injEq, Prod.mk.injEq, and_true]
      omega
    · rintro dash' hi' rest' heq ⟨hdash', -⟩
      cases heq
      exact hdash hdash'
  | case3 a l hl ih =>
    have ha : a ≠ ch ']' := fun heq => h (heq ▸ List.mem_cons_self)
    rw [List.cons_append, classFrom_single b i matched a _ ha,
      ih _ _ fun hmem => h (List.mem_cons_of_mem _ hmem), List.any_cons, single_range,
      Bool.or_assoc]
    · simp only [List.length_cons, Option.some.injEq, Prod.mk.injEq, and_true]
      omega
    · -- Fewer than two bytes are left: what follows is the bracket.
      rintro dash hi rest' heq ⟨hdash, hhi⟩
      match l with
      | [] =>
        cases heq
        exact absurd hdash (by decide)
      | [x] =>
        cases heq
        exact hhi rfl
      | x :: y :: l => exact hl x y l rfl
  | case4 =>
    rw [List.nil_append, classFrom_stop, List.any_nil, Bool.or_false, List.length_nil, Nat.add_zero]

theorem classFrom_open (l : Bytes) (h : ch ']' ∉ l) : classFrom b l i matched = none := by
  fun_induction classFrom b l i matched with
  | case1 => rfl
  | case2 => simp at h
  | case3 i matched lo hlo dash hi rest hrange ih => exact ih (by simp_all)
  | case4 i matched lo hlo dash hi rest hrange ih =>
    exact ih fun hmem => h (List.mem_cons_of_mem _ hmem)
  | case5 i matched lo rest hlo hrest ih => exact ih fun hmem => h (List.mem_cons_of_mem _ hmem)

end

theorem matchClass_eq (rest : Bytes) (b : UInt8) :
    matchClass (ch '[' :: rest) b =
      if ch ']' ∈ rest then
        some ((classContent rest).length + 2, inClass (classContent rest) b)
      else none := by
  split_ifs with hclosed
  · have hsplit := classContent_split rest hclosed
    have hcontent := not_mem_classContent rest
    generalize classContent rest = content at hsplit hcontent
    rw [hsplit]
    unfold matchClass
    cases content with
    | nil => simp [inClass, classFrom_stop, show ch ']' ≠ ch '^' by decide]
    | cons a l =>
      have hl : ch ']' ∉ l := fun hmem => hcontent (List.mem_cons_of_mem _ hmem)
      simp only [List.drop_succ_cons, List.drop_zero, List.cons_append, inClass]
      split_ifs with hcaret
      · rw [classFrom_closed b 2 false l _ hl]
        simp only [Option.map_some, Bool.false_or, List.length_cons, Option.some.injEq,
          Prod.mk.injEq, and_true]
        omega
      · rw [← List.cons_append, classFrom_closed b 1 false (a :: l) _ hcontent]
        simp only [Bool.false_or, List.length_cons, Option.some.injEq, Prod.mk.injEq, and_true]
        omega
  · unfold matchClass
    cases rest with
    | nil => rfl
    | cons a l =>
      have hl : ch ']' ∉ l := fun hmem => hclosed (List.mem_cons_of_mem _ hmem)
      simp only [List.drop_succ_cons, List.drop_zero]
      split_ifs with hcaret
      · rw [classFrom_open b 2 false l hl]
        rfl
      · exact classFrom_open b 1 false (a :: l) hclosed

/-! ## The loop -/

theorem globHead_size (a : UInt8) (rest : Bytes) :
    (∀ accepts rest', globHead (a :: rest) = .one accepts rest' →
      rest'.length < (a :: rest).length) ∧
      ∀ rest', globHead (a :: rest) = .star rest' → rest'.length < (a :: rest).length := by
  simp only [globHead]
  split_ifs
  · cases rest with
    | nil => simp
    | cons x rest =>
      simp only [Head.one.injEq, List.length_cons, reduceCtorEq, false_implies, implies_true,
        and_true]
      rintro _ _ ⟨-, rfl⟩
      omega
  all_goals
    simp only [Head.one.injEq, Head.star.injEq, List.length_cons, false_implies, implies_true,
      and_true, true_and]
  · rintro _ _ ⟨-, rfl⟩
    omega
  · rintro _ rfl
    omega
  · rintro _ _ ⟨-, rfl⟩
    rw [List.length_drop]
    omega
  · rintro _ _ ⟨-, rfl⟩
    omega

theorem onlyStars_iff (p : Bytes) : (p.dropWhile (· == ch '*')).isEmpty = true ↔
    Matches globHead p [] := by
  induction p with
  | nil => exact iff_of_true rfl (.done [] rfl)
  | cons a p ih =>
    by_cases ha : a = ch '*'
    · subst ha
      rw [List.dropWhile_cons_of_pos (by simp), ih, matches_star _ p (globHead_star p)]
      simp
    · rw [List.dropWhile_cons_of_neg (by simpa using ha)]
      refine iff_of_false (by simp) fun h => ?_
      cases hp : globHead (a :: p) with
      | done => cases globHead_eq_done _ hp
      | dead => exact not_matches_dead _ hp _ h
      | one accepts rest => exact not_matches_one_nil _ accepts rest hp h
      | star rest =>
        cases globHead_eq_star _ rest hp
        exact ha rfl

def globPatterns : Patterns Bytes UInt8 where
  head := globHead
  size := List.length
  size_one p accepts rest hp := by
    cases p with
    | nil => cases hp
    | cons a p => exact (globHead_size a p).1 accepts rest hp
  size_star p rest hp := by
    cases p with
    | nil => cases hp
    | cons a p => exact (globHead_size a p).2 rest hp
  ends p := (p.dropWhile (· == ch '*')).isEmpty
  ends_iff := onlyStars_iff

/-- `globLoop`, where running out of turns is no answer. -/
def globRun (p t : Bytes) : Nat → GlobState → Option Bool
  | 0, _ => none
  | fuel + 1, g =>
    if g.ti < t.length then
      match (g.advance p t).or g.backtrack with
      | some g => globRun p t fuel g
      | none => some false
    else some ((p.drop g.pi).dropWhile (· == ch '*')).isEmpty

theorem globLoop_eq (p t : Bytes) (fuel : Nat) (g : GlobState) :
    globLoop p t fuel g = (globRun p t fuel g).getD false := by
  induction fuel generalizing g with
  | zero => rfl
  | succ fuel ih =>
    rw [globLoop, globRun]
    split_ifs
    · cases (g.advance p t).or g.backtrack with
      | none => rfl
      | some g => exact ih g
    · rfl

/-- The indices stand for what is left of pattern and text. -/
def GlobState.left (p t : Bytes) (g : GlobState) : State Bytes UInt8 where
  pattern := p.drop g.pi
  text := t.drop g.ti
  back := g.starP.map fun sp => (p.drop (sp + 1), t.drop g.starT)

theorem backtrack_left (p t : Bytes) (g : GlobState) :
    g.backtrack.map (GlobState.left p t) = (g.left p t).backtrack := by
  unfold GlobState.backtrack State.backtrack GlobState.left
  cases g.starP with
  | none => rfl
  | some sp => simp

theorem or_backtrack_left (p t : Bytes) (g g' : GlobState) (c : Prop) [Decidable c] :
    ((if c then some g' else none).or g.backtrack).map (GlobState.left p t) =
      if c then some (g'.left p t) else (g.left p t).backtrack := by
  split_ifs
  · rfl
  · exact backtrack_left p t g

theorem turn_left (p t : Bytes) (g : GlobState) (b : UInt8) (hb : t[g.ti]? = some b) :
    ((g.advance p t).or g.backtrack).map (GlobState.left p t) = globPatterns.next (g.left p t) := by
  obtain ⟨hlt, rfl⟩ := List.getElem?_eq_some_iff.mp hb
  have htext : (g.left p t).text = t[g.ti] :: t.drop (g.ti + 1) := List.drop_eq_getElem_cons hlt
  have hback := backtrack_left p t g
  unfold GlobState.advance Patterns.next
  rw [hb, htext]
  cases hp : p.drop g.pi with
  | nil =>
    have ha : p[g.pi]? = none := by rw [← List.head?_drop, hp]; rfl
    have hhead : globPatterns.head (g.left p t).pattern = .done := by rw [GlobState.left, hp]; rfl
    simp only [ha, hhead, Option.none_or]
    exact hback
  | cons a rest =>
    have ha : p[g.pi]? = some a := by rw [← List.head?_drop, hp]; rfl
    have hrest : ∀ n, p.drop (g.pi + (n + 1)) = rest.drop n := by
      intro n
      rw [← List.drop_drop, hp, List.drop_succ_cons]
    have hhead : globPatterns.head (g.left p t).pattern = globHead (a :: rest) := by
      rw [GlobState.left, hp]; rfl
    have hnext : p[g.pi + 1]? = rest.head? := by rw [← List.head?_drop, hrest 0]; rfl
    simp only [ha, hhead, globHead]
    by_cases hescape : a = ch '\\'
    · rw [if_pos hescape, if_pos hescape, or_backtrack_left, hnext]
      cases rest with
      | nil => rfl
      | cons x rest => simp [GlobState.left, hrest 1]
    rw [if_neg hescape, if_neg hescape]
    by_cases hany : a = ch '?'
    · rw [if_pos hany, if_pos hany]
      simp [GlobState.left, hrest 0]
    rw [if_neg hany, if_neg hany]
    by_cases hstar : a = ch '*'
    · rw [if_pos hstar, if_pos hstar]
      simp [GlobState.left, hrest 0]
    rw [if_neg hstar, if_neg hstar]
    by_cases hclass : a = ch '['
    · rw [if_pos hclass, if_pos hclass]
      subst hclass
      rw [matchClass_eq]
      split_ifs with hclosed
      · have hdrop : p.drop (g.pi + ((classContent rest).length + 2)) =
            rest.drop ((classContent rest).length + 1) :=
          hrest _
        cases hin : inClass (classContent rest) t[g.ti] with
        | true => simp [hin, GlobState.left, hdrop]
        | false => simpa [hin] using hback
      · exact hback
    rw [if_neg hclass, if_neg hclass, or_backtrack_left]
    simp [GlobState.left, hrest 0]

theorem globRun_eq (p t : Bytes) (fuel : Nat) (g : GlobState) :
    globRun p t fuel g = globPatterns.run fuel (g.left p t) := by
  induction fuel generalizing g with
  | zero => rfl
  | succ fuel ih =>
    rw [globRun, Patterns.run]
    split_ifs with hlt
    · have htext : (g.left p t).text = t[g.ti] :: t.drop (g.ti + 1) := List.drop_eq_getElem_cons hlt
      rw [htext]
      simp only
      rw [← turn_left p t g _ (List.getElem?_eq_getElem hlt)]
      cases (g.advance p t).or g.backtrack with
      | none => rfl
      | some g' => exact ih g'
    · have htext : (g.left p t).text = [] := List.drop_eq_nil_of_le (Nat.le_of_not_lt hlt)
      rw [htext]
      rfl

/-- The fuel of the model is enough, and the answer is the declared one. -/
theorem globRun_start (p t : Bytes) :
    ∃ answer, globRun p t ((t.length + 2) * (p.length + 2)) ⟨0, 0, none, 0⟩ = some answer ∧
      (answer = true ↔ GlobMatches p t) := by
  have hturns : (t.length + 1) * (globPatterns.size p + 1) + globPatterns.size p <
      (t.length + 2) * (p.length + 2) := by
    change (t.length + 1) * (p.length + 1) + p.length < _
    ring_nf
    omega
  obtain ⟨answer, hrun, hanswer⟩ := Patterns.run_start (P := globPatterns) p t _ hturns
  refine ⟨answer, (globRun_eq p t _ _).trans hrun, ?_⟩
  rw [globMatches_iff]
  exact hanswer

theorem globMatchBytes_iff (p t : Bytes) : globMatchBytes p t = true ↔ GlobMatches p t := by
  obtain ⟨answer, hrun, hanswer⟩ := globRun_start p t
  rw [globMatchBytes, globLoop_eq, hrun]
  exact hanswer

/-- `glob_match_bytes` comes to an end, and says whether the text matches the pattern. -/
theorem globMatchBytes_decides (p t : Bytes) :
    globRun p t ((t.length + 2) * (p.length + 2)) ⟨0, 0, none, 0⟩ = some (globMatchBytes p t) ∧
      (globMatchBytes p t = true ↔ GlobMatches p t) := by
  obtain ⟨answer, hrun, -⟩ := globRun_start p t
  refine ⟨?_, globMatchBytes_iff p t⟩
  rw [globMatchBytes, globLoop_eq, hrun]
  rfl

end RustyPotato
