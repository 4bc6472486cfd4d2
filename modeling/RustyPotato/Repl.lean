import RustyPotato.Client
import RustyPotato.Lib.Words

/-!
# The prompt of the client (`cli/interactive.rs`)

A line is trimmed, looked up among the words that the client keeps for itself, and otherwise cut at
white space and sent. There is no quoting: what can be sent are words.
-/

namespace RustyPotato

open Lib.Words

/-- `char::is_whitespace`. -/
def isWhitespace (c : Char) : Bool :=
  let n := c.toNat
  (9 ≤ n && n ≤ 13) || n == 0x20 || n == 0x85 || n == 0xA0 || n == 0x1680 ||
    (0x2000 ≤ n && n ≤ 0x200A) || n == 0x2028 || n == 0x2029 || n == 0x202F || n == 0x205F ||
    n == 0x3000

/--
`str::to_lowercase`, of which only the ASCII part is fixed. Each character is taken by itself; the
other form that Rust gives a sigma at the end of a word is left out. No word that the prompt
compares with has a sigma of either form.
-/
structure LowerMap where
  lower : Char → List Char
  ascii : ∀ c : Char, c.toNat < 128 → lower c = [c.toLower]

def LowerMap.toLowercase (d : LowerMap) (s : String) : String :=
  String.ofList (s.toList.flatMap d.lower)

def asciiLowerMap : LowerMap := ⟨fun c => [c.toLower], fun _ _ => rfl⟩

/-- What the prompt does with a line. -/
inductive ReplAction where
  | skip
  | leave
  | showHelp
  | clear
  | send (c : Call)
  | invalidCommand
deriving DecidableEq

namespace Repl

variable (u : CaseMap) (d : LowerMap)

/-- `str::trim`. -/
def trimmed (s : String) : String := String.ofList (trim isWhitespace s.toList)

def splitWhitespace (s : String) : List String := (words isWhitespace s.toList).map String.ofList

/-- `parse_and_execute`, up to the call. -/
def parseAndExecute (input : String) : ReplAction :=
  match splitWhitespace input with
  | [] => .invalidCommand
  | command :: args => .send ⟨u.toUppercase command, args⟩

/-- One round of the loop in `start`. -/
def readLine (line : String) : ReplAction :=
  let input := trimmed line
  if input = "" then .skip
  else
    let lowered := d.toLowercase input
    if lowered = "quit" ∨ lowered = "exit" then .leave
    else if lowered = "help" then .showHelp
    else if lowered = "clear" then .clear
    else parseAndExecute u input

/-- The calls of the loop in `start`, as the lines come. -/
def calls : List String → List Call
  | [] => []
  | line :: lines =>
    match readLine u d line with
    | .leave => []
    | .send c => c :: calls lines
    | _ => calls lines

/-- The words that are not sent when they stand alone. -/
def isLocal (word : String) : Prop := d.toLowercase word ∈ ["quit", "exit", "help", "clear"]

/-- A call that a line can bring about: words, of which the first is sent in upper case. -/
def Typeable (c : Call) : Prop :=
  ∃ word, c.command = u.toUppercase word ∧ (∀ w ∈ word :: c.args, IsWord isWhitespace w.toList) ∧
    (c.args = [] → ¬ isLocal d word)

theorem readLine_send (line : String) (c : Call) (h : readLine u d line = .send c) :
    trimmed line ≠ "" ∧ ¬ isLocal d (trimmed line) ∧
      ∃ word, splitWhitespace (trimmed line) = word :: c.args ∧ c.command = u.toUppercase word := by
  unfold readLine at h
  simp only at h
  split_ifs at h with hempty hleave hhelp hclear
  refine ⟨hempty, by simp_all [isLocal], ?_⟩
  unfold parseAndExecute at h
  split at h
  · cases h
  · rename_i word args hsplit
    cases h
    exact ⟨word, hsplit, rfl⟩

theorem readLine_of_words (line word : String) (args : List String) (hempty : trimmed line ≠ "")
    (hlocal : ¬ isLocal d (trimmed line)) (hsplit : splitWhitespace (trimmed line) = word :: args) :
    readLine u d line = .send ⟨u.toUppercase word, args⟩ := by
  unfold isLocal at hlocal
  simp only [List.mem_cons, List.not_mem_nil, or_false, not_or] at hlocal
  unfold readLine parseAndExecute
  simp [hempty, hlocal, hsplit]

theorem toList_ne_nil (s : String) (h : s ≠ "") : s.toList ≠ [] := by
  simpa using h

theorem isWord_of_split (input w : String) (h : w ∈ splitWhitespace input) :
    IsWord isWhitespace w.toList := by
  obtain ⟨cs, hcs, rfl⟩ := List.mem_map.mp h
  rw [String.toList_ofList]
  exact isWord_of_mem_words _ cs hcs

theorem typeable_of_line (line : String) (c : Call) (h : readLine u d line = .send c) :
    Typeable u d c := by
  obtain ⟨hempty, hlocal, word, hsplit, hcommand⟩ := readLine_send u d line c h
  refine ⟨word, hcommand, fun w hw => isWord_of_split (trimmed line) w (hsplit ▸ hw),
    fun hargs => ?_⟩
  have hone : trimmed line = word := by
    have hne := toList_ne_nil _ hempty
    unfold trimmed splitWhitespace at *
    rw [String.toList_ofList] at hne hsplit
    rw [hargs, List.map_eq_cons_iff] at hsplit
    obtain ⟨cs, rest, hwords, rfl, hrest⟩ := hsplit
    rw [List.map_eq_nil_iff.mp hrest] at hwords
    obtain ⟨hfirst, hlast⟩ := trim_ends _ hne
    rw [eq_of_words _ cs hne hfirst hlast hwords]
  rwa [← hone]

/-- The words with a space between each two. -/
def typed (word : String) (args : List String) : String :=
  String.ofList (joined ' ' word.toList (args.map String.toList))

theorem lower_space (d : LowerMap) (s : String) (h : ' ' ∈ s.toList) :
    ' ' ∈ (d.toLowercase s).toList := by
  rw [LowerMap.toLowercase, String.toList_ofList, List.mem_flatMap]
  refine ⟨' ', h, ?_⟩
  rw [d.ascii ' ' (by decide)]
  decide

theorem typed_not_local (word a : String) (args : List String) :
    ¬ isLocal d (typed word (a :: args)) := by
  have hspace : ' ' ∈ (d.toLowercase (typed word (a :: args))).toList :=
    lower_space d _ (by simp [typed, joined])
  have hplain : ∀ s ∈ ["quit", "exit", "help", "clear"], ' ' ∉ s.toList := by decide
  exact fun hlocal => hplain _ hlocal hspace

theorem readLine_typed (word : String) (args : List String)
    (hwords : ∀ w ∈ word :: args, IsWord isWhitespace w.toList)
    (hlocal : args = [] → ¬ isLocal d word) :
    readLine u d (typed word args) = .send ⟨u.toUppercase word, args⟩ := by
  have hlists : ∀ v ∈ word.toList :: args.map String.toList, IsWord isWhitespace v := by
    rw [← List.map_cons]
    intro v hv
    obtain ⟨w, hw, rfl⟩ := List.mem_map.mp hv
    exact hwords w hw
  have htrim : trimmed (typed word args) = typed word args := by
    unfold trimmed typed
    rw [String.toList_ofList, trim_joined ' ' _ _ hlists]
  have hsplit : splitWhitespace (typed word args) = word :: args := by
    unfold splitWhitespace typed
    rw [String.toList_ofList, words_joined ' ' (by decide) _ _ hlists, ← List.map_cons,
      List.map_map]
    simp [Function.comp_def]
  refine readLine_of_words u d _ word args ?_ ?_ (by rw [htrim]; exact hsplit)
  · rw [htrim]
    intro hempty
    have hnone : splitWhitespace "" = [] := rfl
    rw [hempty, hnone] at hsplit
    cases hsplit
  · rw [htrim]
    cases args with
    | nil =>
      have hword : typed word [] = word := String.ofList_toList
      rw [hword]
      exact hlocal rfl
    | cons a args => exact typed_not_local d word a args

example : readLine asciiCaseMap asciiLowerMap " set k  v\t" = .send ⟨"SET", ["k", "v"]⟩ := by
  decide +kernel

/--
The prompt never comes to an empty command, and sends exactly the calls whose texts are words: no
text that is empty or has white space in it, and none of `quit`, `exit`, `help` and `clear` by
itself.
-/
theorem calls_iff (cs : List Call) :
    (∀ line, readLine u d line ≠ .invalidCommand) ∧
      ((∃ lines, calls u d lines = cs) ↔ ∀ c ∈ cs, Typeable u d c) := by
  refine ⟨fun line h => ?_, ?_, fun h => ?_⟩
  · unfold readLine at h
    simp only at h
    split_ifs at h with hempty
    unfold parseAndExecute at h
    split at h
    · rename_i hsplit
      have hne := toList_ne_nil _ hempty
      unfold trimmed splitWhitespace at *
      rw [String.toList_ofList] at hne hsplit
      exact words_ne_nil _ _ (List.head_mem hne) (trim_ends _ hne).1 (List.map_eq_nil_iff.mp hsplit)
    · cases h
  · rintro ⟨lines, rfl⟩
    induction lines with
    | nil => simp [calls]
    | cons line lines ih =>
      rw [calls]
      split
      · simp
      · rename_i c hline
        rw [List.forall_mem_cons]
        exact ⟨typeable_of_line u d line c hline, ih⟩
      · exact ih
  · induction cs with
    | nil => exact ⟨[], rfl⟩
    | cons c cs ih =>
      obtain ⟨lines, hlines⟩ := ih fun c' hc' => h c' (List.mem_cons_of_mem _ hc')
      obtain ⟨word, hcommand, hwords, hlocal⟩ := h c List.mem_cons_self
      refine ⟨typed word c.args :: lines, ?_⟩
      rw [calls, readLine_typed u d word c.args hwords hlocal, ← hcommand]
      exact congrArg (c :: ·) hlines

end Repl

end RustyPotato
