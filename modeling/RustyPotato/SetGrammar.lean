import RustyPotato.Commands.Strings

/-!
# The options of `SET`

`parse_set_options` is a loop with flags and a look at the next argument. What it accepts are the
lists of option groups in any order, with at most one group of each kind.
-/

namespace RustyPotato

/-- One option, with its number if it has one. -/
inductive SetGroup where
  | existence (e : SetExistence)
  | ttl (choice : SetTtlChoice)
  | get
deriving DecidableEq

inductive SetGroupKind where
  | existence | ttl | get
deriving DecidableEq

namespace SetGroup

def kind : SetGroup → SetGroupKind
  | existence _ => .existence
  | ttl _ => .ttl
  | get => .get

/-- The option as it enters the options read so far. -/
def apply (opts : SetOptions) : SetGroup → SetOptions
  | existence e => { opts with existence := e }
  | ttl choice => { opts with ttl := choice }
  | get => { opts with get := true }

/-- The argument is this keyword, in whatever ASCII case. -/
def Keyword (word : String) (b : Bytes) : Prop :=
  ∃ text, fromUtf8 b = some text ∧ toAsciiUppercase text = word

/-- The argument is text that Rust reads as this `u64`. -/
def Number (n : Nat) (b : Bytes) : Prop := (fromUtf8 b).bind parseU64 = some n

/-- How a client writes each option. -/
inductive Spells : SetGroup → List Bytes → Prop
  | nx (b : Bytes) (h : Keyword "NX" b) : Spells (.existence .onlyIfNotExists) [b]
  | xx (b : Bytes) (h : Keyword "XX" b) : Spells (.existence .onlyIfExists) [b]
  | keepTtl (b : Bytes) (h : Keyword "KEEPTTL" b) : Spells (.ttl .keepTtl) [b]
  | ex (b number : Bytes) (n : Nat) (h : Keyword "EX" b) (hn : Number n number) (hpos : n ≠ 0) :
    Spells (.ttl (.seconds n)) [b, number]
  | px (b number : Bytes) (n : Nat) (h : Keyword "PX" b) (hn : Number n number) (hpos : n ≠ 0) :
    Spells (.ttl (.milliseconds n)) [b, number]
  | exat (b number : Bytes) (n : Nat) (h : Keyword "EXAT" b) (hn : Number n number) :
    Spells (.ttl (.unixSeconds n)) [b, number]
  | pxat (b number : Bytes) (n : Nat) (h : Keyword "PXAT" b) (hn : Number n number) :
    Spells (.ttl (.unixMilliseconds n)) [b, number]
  | get (b : Bytes) (h : Keyword "GET" b) : Spells .get [b]

/-- The arguments are the groups, one after the other. -/
inductive Spelling : List SetGroup → List Bytes → Prop
  | nil : Spelling [] []
  | cons (g : SetGroup) (gs : List SetGroup) (part args : List Bytes) (h : Spells g part)
    (hrest : Spelling gs args) :
    Spelling (g :: gs) (part ++ args)

def AtMostOneOfEachKind (gs : List SetGroup) : Prop := (gs.map kind).Nodup

/-- An option of this kind has been read. -/
def blocked (opts : SetOptions) (ttlSet existenceSet : Bool) : SetGroupKind → Bool
  | .existence => existenceSet
  | .ttl => ttlSet
  | .get => opts.get

/-- The loop reads a group and goes on, unless it has met one of that kind. -/
theorem parse_group (g : SetGroup) (part rest : List Bytes) (opts : SetOptions)
    (ttlSet existenceSet : Bool) (h : Spells g part) :
    parseSetOptionsFrom (part ++ rest) opts ttlSet existenceSet =
      if blocked opts ttlSet existenceSet g.kind then .error syntaxError
      else parseSetOptionsFrom rest (g.apply opts) (ttlSet || g.kind = .ttl)
        (existenceSet || g.kind = .existence) := by
  cases h with
  | nx b h | xx b h | keepTtl b h | get b h =>
    obtain ⟨text, htext, htoken⟩ := h
    rw [List.singleton_append, parseSetOptionsFrom]
    simp [htext, htoken, blocked, kind, apply, ttlToken]
  | ex b number n h hn hpos | px b number n h hn hpos =>
    obtain ⟨text, htext, htoken⟩ := h
    have hn : (fromUtf8 number).bind parseU64 = some n := hn
    rw [List.cons_append, List.singleton_append, parseSetOptionsFrom]
    simp [htext, htoken, blocked, kind, apply, ttlToken, hn, hpos]
  | exat b number n h hn | pxat b number n h hn =>
    obtain ⟨text, htext, htoken⟩ := h
    have hn : (fromUtf8 number).bind parseU64 = some n := hn
    rw [List.cons_append, List.singleton_append, parseSetOptionsFrom]
    simp [htext, htoken, blocked, kind, apply, ttlToken, hn]

theorem spells_ttlToken (token : String) (choice : Nat → SetTtlChoice) (b number : Bytes) (n : Nat)
    (htoken : ttlToken token = some choice) (h : Keyword token b) (hn : Number n number)
    (hpos : ¬ ((token = "EX" ∨ token = "PX") ∧ n = 0)) : Spells (.ttl (choice n)) [b, number] := by
  unfold ttlToken at htoken
  split_ifs at htoken with hex hpx hexat hpxat
  · cases htoken
    subst hex
    exact .ex b number n h hn fun hzero => hpos ⟨.inl rfl, hzero⟩
  · cases htoken
    subst hpx
    exact .px b number n h hn fun hzero => hpos ⟨.inr rfl, hzero⟩
  · cases htoken
    subst hexat
    exact .exat b number n h hn
  · cases htoken
    subst hpxat
    exact .pxat b number n h hn

/-- The texts of the errors. -/
def OptionError (e : String) : Prop :=
  e = syntaxError ∨ e = notInteger ∨ e = "ERR invalid expire time in 'set' command"

/-- What a turn of the loop can do: it fails, or the arguments start with a group. -/
theorem parse_turn (arg : Bytes) (rest : List Bytes) (opts : SetOptions)
    (ttlSet existenceSet : Bool) :
    (∃ e, parseSetOptionsFrom (arg :: rest) opts ttlSet existenceSet = .error e ∧ OptionError e) ∨
      ∃ g part rest', arg :: rest = part ++ rest' ∧ Spells g part := by
  have hsyntax : OptionError syntaxError := .inl rfl
  rw [parseSetOptionsFrom]
  cases htext : fromUtf8 arg with
  | none => exact .inl ⟨_, rfl, hsyntax⟩
  | some text =>
    have hword : Keyword (toAsciiUppercase text) arg := ⟨text, htext, rfl⟩
    simp only
    generalize toAsciiUppercase text = token at hword
    by_cases hnx : token = "NX" ∨ token = "XX"
    · obtain rfl | rfl := hnx
      · exact .inr ⟨_, [arg], rest, rfl, .nx arg hword⟩
      · exact .inr ⟨_, [arg], rest, rfl, .xx arg hword⟩
    rw [if_neg hnx]
    by_cases hkeep : token = "KEEPTTL"
    · subst hkeep
      exact .inr ⟨_, [arg], rest, rfl, .keepTtl arg hword⟩
    rw [if_neg hkeep]
    cases htoken : ttlToken token with
    | none =>
      by_cases hget : token = "GET"
      · subst hget
        exact .inr ⟨_, [arg], rest, rfl, .get arg hword⟩
      · simp only [if_neg hget]
        exact .inl ⟨_, rfl, hsyntax⟩
    | some choice =>
      cases ttlSet with
      | true => exact .inl ⟨_, rfl, hsyntax⟩
      | false =>
        simp only [Bool.false_eq_true, if_false]
        cases rest with
        | nil => exact .inl ⟨_, rfl, hsyntax⟩
        | cons number rest =>
          simp only
          cases hnumber : (fromUtf8 number).bind parseU64 with
          | none => exact .inl ⟨_, rfl, .inr (.inl rfl)⟩
          | some n =>
            simp only
            split_ifs with hzero
            · exact .inl ⟨_, rfl, .inr (.inr rfl)⟩
            · exact .inr ⟨_, [arg, number], rest, rfl,
                spells_ttlToken token choice arg number n htoken hword hnumber hzero⟩

theorem Spells.ne_nil (g : SetGroup) (part : List Bytes) (h : Spells g part) : part ≠ [] := by
  cases h <;> simp

/-- By induction on the length: a group is one argument or two. -/
theorem parse_induction (P : List Bytes → SetOptions → Bool → Bool → Prop)
    (hnil : ∀ opts ttlSet existenceSet, P [] opts ttlSet existenceSet)
    (herror : ∀ args opts ttlSet existenceSet e,
      parseSetOptionsFrom args opts ttlSet existenceSet = .error e →
      OptionError e → P args opts ttlSet existenceSet)
    (hgroup : ∀ g part rest opts ttlSet existenceSet, Spells g part →
      blocked opts ttlSet existenceSet g.kind = false →
      P rest (g.apply opts) (ttlSet || g.kind = .ttl) (existenceSet || g.kind = .existence) →
      P (part ++ rest) opts ttlSet existenceSet)
    (args : List Bytes) (opts : SetOptions) (ttlSet existenceSet : Bool) :
    P args opts ttlSet existenceSet := by
  induction hn : args.length using Nat.strong_induction_on
    generalizing args opts ttlSet existenceSet with
  | _ n ih =>
    subst hn
    cases args with
    | nil => exact hnil opts ttlSet existenceSet
    | cons arg rest =>
      rcases parse_turn arg rest opts ttlSet existenceSet with
          ⟨e, hparse, he⟩ | ⟨g, part, rest', hargs, hspells⟩
      · exact herror _ opts ttlSet existenceSet e hparse he
      rw [hargs] at ih ⊢
      by_cases hblocked : blocked opts ttlSet existenceSet g.kind = true
      · refine herror _ opts ttlSet existenceSet syntaxError ?_ (.inl rfl)
        rw [parse_group g part rest' opts ttlSet existenceSet hspells, if_pos hblocked]
      · refine hgroup g part rest' opts ttlSet existenceSet hspells
          (eq_false_of_ne_true hblocked) ?_
        refine ih rest'.length ?_ rest' _ _ _ rfl
        have := List.length_pos_of_ne_nil (hspells.ne_nil g part)
        rw [List.length_append]
        omega

/-! ## All of the options -/

/-- None of the groups is of a kind that has been read. -/
def Free (opts : SetOptions) (ttlSet existenceSet : Bool) (gs : List SetGroup) : Prop :=
  ∀ g ∈ gs, blocked opts ttlSet existenceSet g.kind = false

theorem blocked_apply (opts : SetOptions) (ttlSet existenceSet : Bool) (g : SetGroup)
    (k : SetGroupKind) :
    blocked (g.apply opts) (ttlSet || g.kind = .ttl) (existenceSet || g.kind = .existence) k =
      (blocked opts ttlSet existenceSet k || decide (k = g.kind)) := by
  cases g <;> cases k <;> simp [blocked, kind, apply]

theorem free_cons (opts : SetOptions) (ttlSet existenceSet : Bool) (g : SetGroup)
    (gs : List SetGroup) :
    (AtMostOneOfEachKind (g :: gs) ∧ Free opts ttlSet existenceSet (g :: gs)) ↔
      blocked opts ttlSet existenceSet g.kind = false ∧ AtMostOneOfEachKind gs ∧
        Free (g.apply opts) (ttlSet || g.kind = .ttl) (existenceSet || g.kind = .existence) gs := by
  simp only [AtMostOneOfEachKind, Free, List.map_cons, List.nodup_cons, List.mem_map,
    List.forall_mem_cons, blocked_apply, Bool.or_eq_false_iff, decide_eq_false_iff_not, not_exists,
    not_and]
  constructor
  · rintro ⟨⟨hkind, hnodup⟩, hg, hfree⟩
    exact ⟨hg, hnodup, fun x hx => ⟨hfree x hx, hkind x hx⟩⟩
  · rintro ⟨hg, hnodup, hfree⟩
    exact ⟨⟨fun x hx => (hfree x hx).2, hnodup⟩, hg, fun x hx => (hfree x hx).1⟩

/--
What is spelled as groups is accepted exactly when they are of different kinds, and means what they
mean.
-/
theorem Spelling.parse_eq_ok (gs : List SetGroup) (args : List Bytes) (h : Spelling gs args)
    (opts o : SetOptions) (ttlSet existenceSet : Bool) :
    parseSetOptionsFrom args opts ttlSet existenceSet = .ok o ↔
      (AtMostOneOfEachKind gs ∧ Free opts ttlSet existenceSet gs) ∧ gs.foldl apply opts = o := by
  induction h generalizing opts ttlSet existenceSet with
  | nil => simp [parseSetOptionsFrom, AtMostOneOfEachKind, Free]
  | cons g gs part args h hrest ih =>
    rw [parse_group g part args opts ttlSet existenceSet h, free_cons, List.foldl_cons]
    cases blocked opts ttlSet existenceSet g.kind with
    | true => simp
    | false =>
      rw [if_neg Bool.false_ne_true, ih]
      simp

theorem exists_spelling (args : List Bytes) (opts o : SetOptions) (ttlSet existenceSet : Bool)
    (h : parseSetOptionsFrom args opts ttlSet existenceSet = .ok o) : ∃ gs, Spelling gs args := by
  refine parse_induction (fun args opts ttlSet existenceSet =>
    parseSetOptionsFrom args opts ttlSet existenceSet = .ok o →
      ∃ gs, Spelling gs args) ?_ ?_ ?_ args opts ttlSet
    existenceSet h
  · intro opts ttlSet existenceSet _
    exact ⟨[], .nil⟩
  · intro args opts ttlSet existenceSet e herror _ h
    rw [herror] at h
    cases h
  · intro g part rest opts ttlSet existenceSet hspells hfree ih h
    rw [parse_group g part rest opts ttlSet existenceSet hspells, hfree,
      if_neg Bool.false_ne_true] at h
    obtain ⟨gs, hgs⟩ := ih h
    exact ⟨g :: gs, .cons g gs part rest hspells hgs⟩

theorem foldl_apply_perm (gs gs' : List SetGroup) (hperm : gs.Perm gs')
    (hkinds : AtMostOneOfEachKind gs) (opts : SetOptions) :
    gs.foldl apply opts = gs'.foldl apply opts := by
  refine hperm.foldl_eq' (fun x hx y hy opts => ?_) opts
  by_cases hkind : x.kind = y.kind
  · rw [List.inj_on_of_nodup_map hkinds hx hy hkind]
  · cases x <;> cases y <;> first | rfl | exact absurd rfl hkind

end SetGroup

open SetGroup

/-- What is read meets one condition, and the text of an error another. -/
def Reads {α : Type} (P : α → Prop) (Q : String → Prop) : Except String α → Prop
  | .ok a => P a
  | .error e => Q e

theorem parseSetOptionsFrom_reads (P : SetOptions → Prop) (Q : String → Prop) (hbad : Q syntaxError)
    (hinteger : Q notInteger) (hexpire : Q "ERR invalid expire time in 'set' command")
    (hexistence : ∀ opts existence, P opts → P { opts with existence })
    (hkeepTtl : ∀ opts, P opts → P { opts with ttl := .keepTtl })
    (httl : ∀ (opts : SetOptions) token choice text n, ttlToken token = some choice →
      parseU64 text = some n →
      P { opts with ttl := choice n })
    (hget : ∀ opts, P opts → P { opts with get := true }) (args : List Bytes) (opts : SetOptions)
    (ttlSet existenceSet : Bool) (h : P opts) :
    Reads P Q (parseSetOptionsFrom args opts ttlSet existenceSet) := by
  have hnumber : ∀ (opts : SetOptions) token choice b n, ttlToken token = some choice → Number n b →
      P { opts with ttl := choice n } := by
    intro opts token choice b n htoken hn
    obtain ⟨text, -, hparse⟩ := Option.bind_eq_some_iff.mp hn
    exact httl opts token choice text n htoken hparse
  refine parse_induction (fun args opts ttlSet existenceSet =>
    P opts → Reads P Q (parseSetOptionsFrom args opts ttlSet existenceSet)) ?_ ?_ ?_ args opts
      ttlSet existenceSet h
  · intro opts ttlSet existenceSet h
    exact h
  · intro args opts ttlSet existenceSet e herror he _
    rw [herror]
    obtain rfl | rfl | rfl := he
    · exact hbad
    · exact hinteger
    · exact hexpire
  · intro g part rest opts ttlSet existenceSet hspells hfree ih h
    rw [parse_group g part rest opts ttlSet existenceSet hspells, hfree, if_neg Bool.false_ne_true]
    refine ih ?_
    cases hspells with
    | nx | xx => exact hexistence _ _ h
    | keepTtl => exact hkeepTtl _ h
    | get => exact hget _ h
    | ex b number n _ hn _ => exact hnumber opts "EX" _ number n rfl hn
    | px b number n _ hn _ => exact hnumber opts "PX" _ number n rfl hn
    | exat b number n _ hn => exact hnumber opts "EXAT" _ number n rfl hn
    | pxat b number n _ hn => exact hnumber opts "PXAT" _ number n rfl hn

/--
The argument lists that `parse_set_options` accepts are the groups in any order, at most one of each
kind. Two of them that are the same groups in another order give the same options.
-/
theorem set_option_grammar :
    (∀ args, (∃ o, parseSetOptions args = .ok o) ↔ ∃ gs, Spelling gs args ∧
      AtMostOneOfEachKind gs) ∧
      ∀ gs gs' args args' o o', Spelling gs args → Spelling gs' args' → gs.Perm gs' →
        parseSetOptions args = .ok o → parseSetOptions args' = .ok o' → o = o' := by
  have hfree : ∀ gs, Free {} false false gs := by
    intro gs g _
    cases g <;> rfl
  refine ⟨fun args => ⟨?_, ?_⟩, ?_⟩
  · rintro ⟨o, ho⟩
    obtain ⟨gs, hgs⟩ := exists_spelling args {} o false false ho
    exact ⟨gs, hgs, ((hgs.parse_eq_ok gs args {} o false false).mp ho).1.1⟩
  · rintro ⟨gs, hgs, hkinds⟩
    exact ⟨_, (hgs.parse_eq_ok gs args {} _ false false).mpr ⟨⟨hkinds, hfree gs⟩, rfl⟩⟩
  · intro gs gs' args args' o o' hgs hgs' hperm ho ho'
    obtain ⟨⟨hkinds, -⟩, rfl⟩ := (hgs.parse_eq_ok gs args {} o false false).mp ho
    obtain ⟨-, rfl⟩ := (hgs'.parse_eq_ok gs' args' {} o' false false).mp ho'
    exact foldl_apply_perm gs gs' hperm hkinds {}

theorem nx_get_in_any_order :
    ∃ o, parseSetOptions [utf8 "nx", utf8 "GET"] = .ok o ∧
      parseSetOptions [utf8 "get", utf8 "NX"] = .ok o := by
  have hfirst : Spelling [.existence .onlyIfNotExists, .get] [utf8 "nx", utf8 "GET"] :=
    .cons _ _ [_] [_] (.nx _ ⟨"nx", fromUtf8_utf8 _, by decide⟩)
      (.cons _ _ [_] [] (.get _ ⟨"GET", fromUtf8_utf8 _, by decide⟩) .nil)
  have hsecond : Spelling [.get, .existence .onlyIfNotExists] [utf8 "get", utf8 "NX"] :=
    .cons _ _ [_] [_] (.get _ ⟨"get", fromUtf8_utf8 _, by decide⟩)
      (.cons _ _ [_] [] (.nx _ ⟨"NX", fromUtf8_utf8 _, by decide⟩) .nil)
  obtain ⟨o, ho⟩ := (set_option_grammar.1 _).mpr ⟨_, hfirst, by unfold AtMostOneOfEachKind; decide⟩
  obtain ⟨o', ho'⟩ :=
    (set_option_grammar.1 _).mpr ⟨_, hsecond, by unfold AtMostOneOfEachKind; decide⟩
  obtain rfl := set_option_grammar.2 _ _ _ _ o o' hfirst hsecond (List.Perm.swap _ _ _) ho ho'
  exact ⟨o, ho, ho'⟩

end RustyPotato
