import Bsd.Util.FilePath

/-!
# Shell words

`shellSplitString` is a scanner with quotes as its modes: a word that
`escapeShellArgAlways` has quoted is read back whole, whatever its bytes are.
-/

namespace Bsd.Util.Strings

open List Lib.Occurrences Util.FilePath

structure Words where
  result : List Bytes
  current : Bytes
  startedCurrent : Bool

def Words.pushCurrent (words : Words) : Words :=
  if words.startedCurrent then ⟨words.result ++ [words.current], [], false⟩ else words

def Words.pushChar (words : Words) (c : Byte) : Words :=
  { words with current := words.current ++ [c], startedCurrent := true }

inductive Quotes where
  | outside
  | double
  | single

/-- The loops of `shellSplitString`: the main one is left for that of the quotes and gone on
with behind them. -/
def splitWords : Quotes → (escaping : Bool) → Words → Bytes → Except Failure (List Bytes)
  | .outside, _, words, [] => .ok words.pushCurrent.result
  | .double, _, _, [] => .error (.error (ascii "unterminated double quote"))
  | .single, _, _, [] => .error (.error (ascii "unterminated single quote"))
  | .outside, escaping, words, c :: s =>
    if escaping then splitWords .outside false (words.pushChar c) s
    else if c = 92 then splitWords .outside true words s
    else if c = 32 ∨ c = 9 then splitWords .outside false words.pushCurrent s
    else if c = 34 then splitWords .double false { words with startedCurrent := true } s
    else if c = 39 then splitWords .single false { words with startedCurrent := true } s
    else splitWords .outside false (words.pushChar c) s
  | .double, escaping, words, c :: s =>
    if escaping then
      splitWords .double false
        (if c ∈ ascii "$`\"\\" then words.pushChar c else (words.pushChar 92).pushChar c) s
    else if c = 92 then splitWords .double true words s
    else if c = 34 then splitWords .outside false words s
    else splitWords .double false (words.pushChar c) s
  | .single, escaping, words, c :: s =>
    if c = 39 then splitWords .outside escaping words s
    else splitWords .single escaping (words.pushChar c) s

def shellSplitString (s : Bytes) : Except Failure (List Bytes) :=
  splitWords .outside false ⟨[], [], false⟩ s

def escapeBody (s : Bytes) : Bytes := s.flatMap fun i => if i = 39 then ascii "'\\''" else [i]

def escapeShellArgAlways (s : Bytes) : Bytes := 39 :: escapeBody s ++ [39]

structure Gap where
  blanks : Bytes
  nonempty : blanks ≠ []
  blank : ∀ byte ∈ blanks, byte = 32 ∨ byte = 9

def joinEscaped (word : Bytes) : List (Gap × Bytes) → Bytes
  | [] => escapeShellArgAlways word
  | (gap, next) :: more => escapeShellArgAlways word ++ (gap.blanks ++ joinEscaped next more)

theorem split_words_body (result : List Bytes) (current word rest : Bytes) :
    splitWords .single false ⟨result, current, true⟩ (escapeBody word ++ 39 :: rest) =
      splitWords .outside false ⟨result, current ++ word, true⟩ rest := by
  induction word generalizing current with
  | nil =>
    rw [append_nil]
    rfl
  | cons first word ih =>
    rw [append_cons current, ← ih, escapeBody, flatMap_cons, ← escapeBody]
    by_cases isQuote : first = 39
    · -- The quotes are left for an escaped quote and entered again.
      rw [isQuote, if_pos rfl]
      rfl
    · rw [if_neg isQuote, append_assoc, singleton_append, splitWords, if_neg isQuote]
      rfl

theorem split_words_escaped (result : List Bytes) (word rest : Bytes) :
    splitWords .outside false ⟨result, [], false⟩ (escapeShellArgAlways word ++ rest) =
      splitWords .outside false ⟨result, word, true⟩ rest := by
  rw [escapeShellArgAlways, append_assoc]
  exact split_words_body result [] word rest

theorem split_words_blank {byte : Byte} (blank : byte = 32 ∨ byte = 9) (words : Words)
    (rest : Bytes) : splitWords .outside false words (byte :: rest) =
      splitWords .outside false words.pushCurrent rest := by
  rcases blank with rfl | rfl
  · rfl
  · rfl

theorem split_words_blanks {blanks : Bytes} (blank : ∀ byte ∈ blanks, byte = 32 ∨ byte = 9)
    (result : List Bytes) (rest : Bytes) :
    splitWords .outside false ⟨result, [], false⟩ (blanks ++ rest) =
      splitWords .outside false ⟨result, [], false⟩ rest := by
  induction blanks with
  | nil => rfl
  | cons first more ih =>
    rw [forall_mem_cons] at blank
    rw [cons_append, split_words_blank blank.1]
    exact ih blank.2

theorem split_words_gap (gap : Gap) (result : List Bytes) (word rest : Bytes) :
    splitWords .outside false ⟨result, word, true⟩ (gap.blanks ++ rest) =
      splitWords .outside false ⟨result ++ [word], [], false⟩ rest := by
  obtain ⟨blanks, nonempty, blank⟩ := gap
  obtain ⟨first, more, rfl⟩ := exists_cons_of_ne_nil nonempty
  rw [forall_mem_cons] at blank
  rw [cons_append, split_words_blank blank.1]
  exact split_words_blanks blank.2 _ rest

theorem split_words_joined (result : List Bytes) (word : Bytes) (more : List (Gap × Bytes)) :
    splitWords .outside false ⟨result, [], false⟩ (joinEscaped word more) =
      .ok (result ++ word :: more.map Prod.snd) := by
  induction more generalizing result word with
  | nil =>
    rw [joinEscaped, ← append_nil (escapeShellArgAlways word), split_words_escaped]
    rfl
  | cons step more ih =>
    rw [joinEscaped, split_words_escaped, split_words_gap, ih, append_assoc]
    rfl

/-- Splitting words that were escaped for the shell and joined with blanks gives the words
back, the empty ones and those with quotes included. -/
theorem shell_split_escaped : shellSplitString [] = .ok [] ∧
    ∀ word more, shellSplitString (joinEscaped word more) = .ok (word :: more.map Prod.snd) :=
  ⟨rfl, split_words_joined []⟩

end Bsd.Util.Strings
