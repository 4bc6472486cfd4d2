import Mathlib.Data.List.DropRight
import Mathlib.Tactic

/-!
# Words

A text is cut at the elements that separate, and the pieces that are not empty are its words.
-/

namespace Lib.Words

variable {α : Type} (sep : α → Bool)

def words (text : List α) : List (List α) := (text.splitOnP sep).filter fun piece => !piece.isEmpty

/-- The text without the separators at its two ends. -/
def trim (text : List α) : List α := (text.dropWhile sep).rdropWhile sep

/-- Not empty, and without a separator. -/
def IsWord (w : List α) : Prop := w ≠ [] ∧ ∀ x ∈ w, sep x = false

variable {sep}

theorem words_append_sep (x y : List α) (b : α) (hb : sep b = true) :
    words sep (x ++ b :: y) = words sep x ++ words sep y := by
  unfold words
  rw [List.splitOnP_append_cons x y hb, List.filter_append]

theorem words_word (w : List α) (h : IsWord sep w) : words sep w = [w] := by
  unfold words
  rw [List.splitOnP_eq_singleton h.2]
  simp [h.1]

/-- Up to its first separator a text is all one word, or nothing. -/
theorem words_cases (sep : α → Bool) (text : List α) :
    (∀ x ∈ text, sep x = false) ∨ ∃ first b rest, text = first ++ b :: rest ∧
      (∀ x ∈ first, sep x = false) ∧ sep b = true := by
  induction text with
  | nil => exact .inl (by simp)
  | cons a text ih =>
    cases ha : sep a with
    | true => exact .inr ⟨[], a, text, rfl, by simp, ha⟩
    | false =>
      rcases ih with h | ⟨first, b, rest, rfl, hfirst, hb⟩
      · exact .inl (by simpa [ha] using h)
      · exact .inr ⟨a :: first, b, rest, rfl, by simpa [ha] using hfirst, hb⟩

theorem isWord_of_mem_words (text w : List α) (h : w ∈ words sep text) : IsWord sep w := by
  induction hlen : text.length using Nat.strong_induction_on generalizing text with
  | _ n ih =>
    rcases words_cases sep text with hall | ⟨first, b, rest, rfl, hfirst, hb⟩
    · by_cases hnil : text = []
      · subst hnil
        cases h
      · rw [words_word text ⟨hnil, hall⟩, List.mem_singleton] at h
        exact h ▸ ⟨hnil, hall⟩
    · rw [words_append_sep first rest b hb, List.mem_append] at h
      simp only [List.length_append, List.length_cons] at hlen
      rcases h with h | h
      · exact ih _ (by omega) first h rfl
      · exact ih _ (by omega) rest h rfl

theorem words_ne_nil (text : List α) (x : α) (hx : x ∈ text) (hsep : sep x = false) :
    words sep text ≠ [] := by
  induction hlen : text.length using Nat.strong_induction_on generalizing text with
  | _ n ih =>
    rcases words_cases sep text with hall | ⟨first, b, rest, rfl, hfirst, hb⟩
    · rw [words_word text ⟨List.ne_nil_of_mem hx, hall⟩]
      simp
    · simp only [List.length_append, List.length_cons] at hlen
      rw [words_append_sep first rest b hb]
      rcases List.mem_append.mp hx with hx | hx
      · simp [ih _ (by omega) first hx rfl]
      · rcases List.mem_cons.mp hx with rfl | hx
        · rw [hb] at hsep
          cases hsep
        · simp [ih _ (by omega) rest hx rfl]

/-- A text that begins and ends with other elements and has one word is this word. -/
theorem eq_of_words (text w : List α) (hne : text ≠ []) (hfirst : sep (text.head hne) = false)
    (hlast : sep (text.getLast hne) = false) (h : words sep text = [w]) : text = w := by
  rcases words_cases sep text with hall | ⟨first, b, rest, rfl, -, hb⟩
  · rw [words_word text ⟨hne, hall⟩] at h
    exact (List.cons.inj h).1
  · exfalso
    rw [words_append_sep first rest b hb] at h
    have hbegin : first ≠ [] := by
      rintro rfl
      simp [hb] at hfirst
    have hend : rest ≠ [] := by
      rintro rfl
      simp [hb] at hlast
    have hbefore : words sep first ≠ [] := by
      refine words_ne_nil first (first.head hbegin) (List.head_mem _) ?_
      rwa [List.head_append_of_ne_nil] at hfirst
    have hbehind : words sep rest ≠ [] := by
      refine words_ne_nil rest (rest.getLast hend) (List.getLast_mem _) ?_
      rwa [List.getLast_append_of_right_ne_nil _ _ (List.cons_ne_nil _ _), List.getLast_cons hend]
        at hlast
    have hlen := congrArg List.length h
    have := List.length_pos_of_ne_nil hbefore
    have := List.length_pos_of_ne_nil hbehind
    simp at hlen
    omega

theorem trim_ends (text : List α) (hne : trim sep text ≠ []) :
    sep ((trim sep text).head hne) = false ∧ sep ((trim sep text).getLast hne) = false := by
  constructor
  · have hpre : trim sep text <+: text.dropWhile sep := List.rdropWhile_prefix _ _
    have hdrop : text.dropWhile sep ≠ [] := fun hnil => hne (List.prefix_nil.mp (hnil ▸ hpre))
    rw [hpre.head hne]
    simpa using List.head_dropWhile_not sep hdrop
  · exact Bool.eq_false_of_not_eq_true (List.rdropWhile_last_not sep _ hne)

/-- Nothing to trim. -/
theorem trim_eq_self (text : List α) (hne : text ≠ []) (hfirst : sep (text.head hne) = false)
    (hlast : sep (text.getLast hne) = false) : trim sep text = text := by
  have hdrop : text.dropWhile sep = text := by
    obtain ⟨a, rest, rfl⟩ := List.exists_cons_of_ne_nil hne
    rw [List.head_cons] at hfirst
    simp [hfirst]
  unfold trim
  rw [hdrop, List.rdropWhile_eq_self_iff]
  intro _
  simpa using hlast

/-- Words with one separator between each two. -/
def joined (b : α) : List α → List (List α) → List α
  | w, [] => w
  | w, v :: ws => w ++ b :: joined b v ws

theorem words_joined (b : α) (hb : sep b = true) (w : List α) (ws : List (List α))
    (h : ∀ v ∈ w :: ws, IsWord sep v) : words sep (joined b w ws) = w :: ws := by
  induction ws generalizing w with
  | nil => exact words_word w (h w List.mem_cons_self)
  | cons v ws ih =>
    rw [joined, words_append_sep _ _ b hb, words_word w (h w List.mem_cons_self),
      ih v fun x hx => h x (List.mem_cons_of_mem _ hx)]
    rfl

theorem trim_joined (b : α) (w : List α) (ws : List (List α)) (h : ∀ v ∈ w :: ws, IsWord sep v) :
    trim sep (joined b w ws) = joined b w ws := by
  have hends : ∃ hne : joined b w ws ≠ [], (∀ hw : w ≠ [], (joined b w ws).head hne = w.head hw) ∧
      sep ((joined b w ws).getLast hne) = false := by
    induction ws generalizing w with
    | nil =>
      obtain ⟨hne, hw⟩ := h w List.mem_cons_self
      exact ⟨hne, fun _ => rfl, hw _ (List.getLast_mem hne)⟩
    | cons v ws ih =>
      obtain ⟨hne, -, hlast⟩ := ih v fun x hx => h x (List.mem_cons_of_mem _ hx)
      refine ⟨by simp [joined], fun hw => List.head_append_of_ne_nil hw, ?_⟩
      simp only [joined]
      rwa [List.getLast_append_of_right_ne_nil _ _ (List.cons_ne_nil _ _), List.getLast_cons hne]
  obtain ⟨hne, hhead, hlast⟩ := hends
  obtain ⟨hw, hall⟩ := h w List.mem_cons_self
  exact trim_eq_self _ hne (by rw [hhead hw]; exact hall _ (List.head_mem hw)) hlast

end Lib.Words
