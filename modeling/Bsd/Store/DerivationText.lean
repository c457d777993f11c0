import Bsd.Lib.PrefixCodes
import Bsd.Store.Derivations

/-!
# Strings and lists in the text of a derivation

What `parseString` makes of the two ways in which strings are printed, and what
the list loops make of printed lists.
-/

namespace Bsd.Store.DerivationText

open List Lib.Occurrences Lib.PrefixCodes Lib.Readers Store.Derivations

/-- Text without quotes and backslashes, which parses as it is printed. -/
def Clean (text : Bytes) : Prop := (34 : Byte) ∉ text ∧ (92 : Byte) ∉ text

instance (text : Bytes) : Decidable (Clean text) := inferInstanceAs (Decidable (_ ∧ _))

theorem clean_nil : Clean [] := ⟨not_mem_nil, not_mem_nil⟩

variable {character : Byte} {rest : Bytes}

theorem clean_cons : Clean (character :: rest) ↔ character ≠ 34 ∧ character ≠ 92 ∧ Clean rest := by
  simp only [Clean, mem_cons, not_or]
  constructor
  · intro both
    exact ⟨Ne.symm both.1.1, Ne.symm both.2.1, both.1.2, both.2.2⟩
  · intro parts
    exact ⟨⟨Ne.symm parts.1, parts.2.2.1⟩, Ne.symm parts.2.1, parts.2.2.2⟩

theorem clean_append {left right : Bytes} : Clean (left ++ right) ↔ Clean left ∧ Clean right := by
  simp only [Clean, mem_append, not_or]
  exact and_and_and_comm

variable {text : Bytes}

theorem clean_of_forall {good : Byte → Bool} (all : ∀ byte ∈ text, good byte = true)
    (noQuote : good 34 = false) (noBackslash : good 92 = false) : Clean text := by
  constructor
  · intro member
    have isGood := all 34 member
    rw [noQuote] at isGood
    cases isGood
  · intro member
    have isGood := all 92 member
    rw [noBackslash] at isGood
    cases isGood

theorem scan_quote (rest : Bytes) : scanString (34 :: rest) = .ok ([], rest) := by
  rw [scanString.eq_def]
  exact if_pos rfl

theorem scan_plain (rest : Bytes) (noQuote : character ≠ 34) (noBackslash : character ≠ 92) :
    scanString (character :: rest) =
      (scanString rest >>= fun scanned => pure (character :: scanned.1, scanned.2)) := by
  rw [scanString.eq_def]
  exact (if_neg noQuote).trans (if_neg noBackslash)

theorem scan_escape (escaped : Byte) (rest : Bytes) : scanString (92 :: escaped :: rest) =
      (scanString rest >>= fun scanned => pure (92 :: escaped :: scanned.1, scanned.2)) := by
  rw [scanString, if_neg (by decide), if_pos rfl]

variable {content after : Bytes}

theorem scan_append (clean : Clean text) (scanned : scanString rest = .ok (content, after)) :
    scanString (text ++ rest) = .ok (text ++ content, after) := by
  induction text with
  | nil => exact scanned
  | cons character text ih =>
    obtain ⟨noQuote, noBackslash, restClean⟩ := clean_cons.mp clean
    rw [cons_append, scan_plain _ noQuote noBackslash, ih restClean]
    rfl

theorem unescape_plain (rest : Bytes) (noBackslash : character ≠ 92) :
    unescape (character :: rest) = character :: unescape rest := by
  rw [unescape.eq_def]
  exact if_neg noBackslash

theorem unescape_escape (escaped : Byte) (rest : Bytes) :
    unescape (92 :: escaped :: rest) = escapes escaped :: unescape rest := by
  rw [unescape, if_pos rfl]

theorem unescape_append (clean : Clean text) (rest : Bytes) :
    unescape (text ++ rest) = text ++ unescape rest := by
  induction text with
  | nil => rfl
  | cons character text ih =>
    obtain ⟨_, noBackslash, restClean⟩ := clean_cons.mp clean
    rw [cons_append, unescape_plain _ noBackslash, ih restClean, cons_append]

theorem unescape_of_absent (absent : (92 : Byte) ∉ text) : unescape text = text := by
  induction text with
  | nil => rfl
  | cons character text ih =>
    rw [mem_cons, not_or] at absent
    rw [unescape_plain _ (Ne.symm absent.1), ih absent.2]

theorem unescaped_content (content : Bytes) :
    (if 92 ∈ content then unescape content else content) = unescape content := by
  by_cases escaped : (92 : Byte) ∈ content
  · rw [if_pos escaped]
  · rw [if_neg escaped, unescape_of_absent escaped]

theorem expect_reads (text : Bytes) : Reads id (expect text) text () := by
  intro remaining rest input
  have begins : text <+: remaining := ⟨rest, input.symm⟩
  refine ⟨rest, ?_, rfl⟩
  rw [expect, if_pos begins]
  have dropped : remaining.drop text.length = rest := by
    have shape : remaining = text ++ rest := input
    rw [shape, drop_left]
  rw [dropped]

theorem reads_expect {Value : Type} {text more : Bytes} {next : Unit → Parse Value}
    {result : Value} (continued : Reads id (next ()) more result) :
    Reads id (expect text >>= next) (text ++ more) result :=
  reads_bind (expect_reads text) continued

theorem parse_string_eq {remaining : Bytes} (scanned : scanString remaining = .ok (content, after)) :
    parseString (34 :: remaining) = .ok (unescape content, after) := by
  obtain ⟨final, ran, rest⟩ := expect_reads (ascii "\"") (34 :: remaining) remaining rfl
  rw [parseString, bind_eq, ran]
  change final = remaining at rest
  rw [rest]
  change (scanString remaining >>= fun pair => _) = _
  rw [scanned, ← unescaped_content content]
  rfl

theorem parse_string_ok {remaining value final : Bytes}
    (ran : parseString (34 :: remaining) = .ok (value, final)) :
    ∃ content, scanString remaining = .ok (content, final) ∧ value = unescape content := by
  have scans : ∃ pair, scanString remaining = .ok pair := by
    obtain ⟨middle, expected, rest⟩ := expect_reads (ascii "\"") (34 :: remaining) remaining rfl
    rw [parseString, bind_eq, expected] at ran
    change middle = remaining at rest
    rw [rest] at ran
    obtain ⟨pair, scanned, _⟩ := except_bind_ok ran
    exact ⟨pair, scanned⟩
  obtain ⟨pair, scanned⟩ := scans
  rw [parse_string_eq scanned] at ran
  obtain ⟨sameValue, sameFinal⟩ := Prod.mk.inj (Except.ok.inj ran)
  exact ⟨pair.1, by rw [← sameFinal, scanned], sameValue.symm⟩

theorem parse_unquoted_reads (clean : Clean text) :
    Reads id parseString (printUnquotedString text) text := by
  intro remaining rest input
  change remaining = [34] ++ text ++ [34] ++ rest at input
  rw [append_assoc] at input
  have scanned := scan_append clean (scan_quote rest)
  rw [append_nil] at scanned
  refine ⟨rest, ?_, rfl⟩
  rw [input]
  change parseString (34 :: (text ++ 34 :: rest)) = _
  rw [parse_string_eq scanned, unescape_of_absent clean.2]

theorem scan_escaped (text rest : Bytes) :
    ∃ content, scanString (text.flatMap escape ++ 34 :: rest) = .ok (content, rest) ∧
      unescape content = text := by
  induction text with
  | nil => exact ⟨[], scan_quote rest, rfl⟩
  | cons character text ih =>
    obtain ⟨content, scanned, same⟩ := ih
    rw [flatMap_cons]
    by_cases special : character = 34 ∨ character = 92 ∨ character = 10 ∨ character = 13 ∨
        character = 9
    · obtain ⟨escaped, shape, back⟩ : ∃ escaped, escape character = [92, escaped] ∧
          escapes escaped = character := by
        rcases special with same | same | same | same | same <;> rw [same] <;>
          exact ⟨_, rfl, rfl⟩
      refine ⟨92 :: escaped :: content, ?_, ?_⟩
      · rw [shape]
        change scanString (92 :: escaped :: (text.flatMap escape ++ 34 :: rest)) = _
        rw [scan_escape, scanned]
        rfl
      · rw [unescape_escape, back, same]
    · simp only [not_or] at special
      obtain ⟨noQuote, noBackslash, noNewline, noReturn, noTab⟩ := special
      have shape : escape character = [character] := by
        rw [escape, if_neg (not_or.mpr ⟨noQuote, noBackslash⟩), if_neg noNewline,
          if_neg noReturn, if_neg noTab]
      refine ⟨character :: content, ?_, ?_⟩
      · rw [shape]
        change scanString (character :: (text.flatMap escape ++ 34 :: rest)) = _
        rw [scan_plain _ noQuote noBackslash, scanned]
        rfl
      · rw [unescape_plain _ noBackslash, same]

theorem parse_string_reads (text : Bytes) : Reads id parseString (printString text) text := by
  intro remaining rest input
  change remaining = [34] ++ text.flatMap escape ++ [34] ++ rest at input
  rw [append_assoc] at input
  obtain ⟨content, scanned, same⟩ := scan_escaped text rest
  refine ⟨rest, ?_, rfl⟩
  rw [input]
  change parseString (34 :: (text.flatMap escape ++ 34 :: rest)) = _
  rw [parse_string_eq scanned, same]

theorem escapes_backslash (same : escapes character = 92) : character = 92 := by
  rw [escapes] at same
  split at same
  · exact absurd same (by decide)
  split at same
  · exact absurd same (by decide)
  · split at same
    · exact absurd same (by decide)
    · exact same

/-- A string printed as it is comes back changed if it contains a quote or a
backslash. The copies of the backslash in front carry the induction: an escaped
backslash shifts the value against the text by one more of them. -/
theorem unquoted_value_ne (extra : Nat) (special : 0 < extra ∨ ¬ Clean text)
    (scanned : scanString (text ++ 34 :: rest) = .ok (content, after)) :
    unescape content ≠ List.replicate extra 92 ++ text := by
  induction size : text.length using Nat.strongRecOn generalizing text content after extra with
  | _ size ih =>
    subst size
    intro same
    cases text with
    | nil =>
      rw [nil_append, scan_quote] at scanned
      rw [← (Prod.mk.inj (Except.ok.inj scanned)).1] at same
      rcases special with positive | unclean
      · obtain ⟨fewer, rfl⟩ := Nat.exists_eq_add_one_of_ne_zero (Nat.ne_of_gt positive)
        cases same
      · exact unclean clean_nil
    | cons character tail =>
      by_cases isQuote : character = 34
      · rw [isQuote, cons_append, scan_quote] at scanned
        rw [← (Prod.mk.inj (Except.ok.inj scanned)).1] at same
        have sizes := congrArg length same
        rw [length_append, length_cons] at sizes
        change 0 = _ at sizes
        omega
      · by_cases isBackslash : character = 92
        · have shape : replicate extra 92 ++ character :: tail =
              92 :: (replicate extra 92 ++ tail) := by
            rw [isBackslash, ← cons_append, ← replicate_succ, replicate_succ',
              append_assoc, singleton_append]
          rw [shape] at same
          rw [isBackslash] at scanned
          cases tail with
          | nil =>
            obtain ⟨pair, _, final⟩ := except_bind_ok scanned
            rw [← (Prod.mk.inj (Except.ok.inj final)).1] at same
            exact absurd (cons.inj same).1 (by decide)
          | cons escaped further =>
            obtain ⟨pair, inner, final⟩ := except_bind_ok scanned
            rw [← (Prod.mk.inj (Except.ok.inj final)).1] at same
            obtain ⟨head, tails⟩ := cons.inj same
            rw [escapes_backslash head] at tails
            have shifted : replicate extra 92 ++ 92 :: further =
                replicate (extra + 1) 92 ++ further := by
              rw [replicate_succ', append_assoc, singleton_append]
            rw [shifted] at tails
            exact ih further.length (by simp only [length_cons]; omega) (extra + 1)
              (.inl (Nat.succ_pos extra)) inner rfl tails
        · rw [cons_append, scan_plain _ isQuote isBackslash] at scanned
          obtain ⟨pair, inner, final⟩ := except_bind_ok scanned
          rw [← (Prod.mk.inj (Except.ok.inj final)).1, unescape_plain _ isBackslash] at same
          cases extra with
          | zero =>
            have unclean : ¬ Clean tail := by
              rcases special with positive | unclean
              · exact absurd positive (Nat.lt_irrefl 0)
              · intro clean
                exact unclean (clean_cons.mpr ⟨isQuote, isBackslash, clean⟩)
            exact ih tail.length (by simp only [length_cons]; omega) 0
              (.inr unclean) inner rfl (cons.inj same).2
          | succ fewer =>
            exact isBackslash (cons.inj same).1

theorem unquoted_value_clean {final : Bytes}
    (ran : parseString (printUnquotedString text ++ rest) = .ok (text, final)) : Clean text := by
  have shape : printUnquotedString text ++ rest = 34 :: (text ++ 34 :: rest) := by
    change [34] ++ text ++ [34] ++ rest = _
    rw [append_assoc]
    rfl
  rw [shape] at ran
  obtain ⟨content, scanned, same⟩ := parse_string_ok ran
  by_contra unclean
  exact unquoted_value_ne 0 (.inr unclean) scanned same.symm

theorem length_le_intercalate {texts : List Bytes} (member : text ∈ texts) :
    text.length ≤ ([44].intercalate texts).length := by
  cases texts with
  | nil => cases member
  | cons first rest =>
    rw [intercalate_cons_eq, length_append]
    rcases mem_cons.mp member with same | inRest
    · rw [same]
      exact Nat.le_add_right _ _
    · have part : ([44] ++ text).length ≤ (rest.flatMap fun text => [44] ++ text).length :=
        (sublist_flatten_of_mem (mem_map_of_mem inRest)).length_le
      exact le_trans (le_trans (Nat.le_succ _) part) (Nat.le_add_left _ _)

theorem end_of_list_comma : Reads id endOfList [44] false := by
  intro remaining rest input
  change remaining = 44 :: rest at input
  rw [input]
  exact ⟨rest, rfl, rfl⟩

theorem end_of_list_bracket : Reads id endOfList [93] true := by
  intro remaining rest input
  change remaining = 93 :: rest at input
  rw [input]
  exact ⟨rest, rfl, rfl⟩

theorem end_of_list_other (rest : Bytes) (noComma : character ≠ 44) (noBracket : character ≠ 93) :
    endOfList (character :: rest) = .ok (false, character :: rest) := by
  exact (if_neg noComma).trans (if_neg noBracket)

section Lists

variable {Origin Item : Type} {item : Parse Item} {print : Origin → Bytes} {value : Origin → Item}

abbrev parseRound (item : Parse Item) (rounds : Nat) : Parse (List Item) :=
  item >>= fun first => parseItems item rounds >>= fun rest => pure (first :: rest)

theorem parse_more_reads (origins : List Origin)
    (each : ∀ origin ∈ origins, Reads id item (print origin) (value origin)) (rounds : Nat)
    (enough : origins.length < rounds) :
    Reads id (parseItems item rounds) ((origins.flatMap fun origin => [44] ++ print origin) ++ [93])
      (origins.map value) := by
  induction origins generalizing rounds with
  | nil =>
    obtain ⟨fewer, rfl⟩ := Nat.exists_eq_add_one_of_ne_zero (Nat.ne_of_gt enough)
    exact reads_map end_of_list_bracket (reads_pure [])
  | cons origin origins ih =>
    obtain ⟨fewer, rfl⟩ := Nat.exists_eq_add_one_of_ne_zero (Nat.ne_of_gt
      (lt_of_le_of_lt (Nat.zero_le _) enough))
    have rest := ih (fun other member => each other (mem_cons_of_mem _ member)) fewer
      (Nat.lt_of_succ_lt_succ enough)
    rw [flatMap_cons, append_assoc, append_assoc]
    exact reads_bind end_of_list_comma
      (reads_bind (each origin mem_cons_self) (reads_map rest (reads_pure _)))

/-- A printed item that `endOfList` leaves alone. -/
def StartsPlain (text : Bytes) : Prop :=
  ∃ character tail, text = character :: tail ∧ character ≠ 44 ∧ character ≠ 93

theorem parse_list_reads (origins : List Origin)
    (each : ∀ origin ∈ origins, Reads id item (print origin) (value origin))
    (plain : ∀ origin ∈ origins, StartsPlain (print origin)) :
    Reads id (parseList item) ([44].intercalate (origins.map print) ++ [93])
      (origins.map value) := by
  cases origins with
  | nil =>
    intro remaining rest input
    exact parse_more_reads [] (fun _ member => each _ member) (remaining.length + 1)
      (Nat.succ_pos _) remaining rest input
  | cons origin origins =>
    intro remaining rest input
    obtain ⟨character, tail, shape, noComma, noBracket⟩ := plain origin mem_cons_self
    have counted : origins.length ≤ (origins.flatMap fun other => [44] ++ print other).length := by
      clear each plain input
      induction origins with
      | nil => exact Nat.zero_le _
      | cons other origins ih =>
        simp only [flatMap_cons, length_append, length_cons] at ih ⊢
        omega
    rw [map_cons, intercalate_cons_eq, flatMap_map] at input
    have size : remaining.length = _ := congrArg length input
    simp only [length_append, length_cons] at size
    have more := parse_more_reads origins
      (fun other member => each other (mem_cons_of_mem _ member)) remaining.length
      (by omega)
    have whole : Reads id (parseRound item remaining.length) _ (value origin :: origins.map value) :=
      reads_bind (each origin mem_cons_self) (reads_map more (reads_pure _))
    obtain ⟨final, ran, remains⟩ := whole remaining rest
      (by rw [input]; simp)
    have starts : endOfList remaining = .ok (false, remaining) := by
      have begins : remaining = _ := input
      rw [begins, shape]
      exact end_of_list_other _ noComma noBracket
    refine ⟨final, ?_, remains⟩
    rw [parseList, parseItems, bind_eq, starts]
    exact ran

theorem parse_list_back {print : Item → Bytes} {items : List Item}
    (each : ∀ value ∈ items, Reads id item (print value) value)
    (plain : ∀ value ∈ items, StartsPlain (print value)) :
    Reads id (parseList item) ([44].intercalate (items.map print) ++ [93]) items := by
  have reads : Reads id (parseList item) _ (items.map id) := parse_list_reads items each plain
  rw [map_id] at reads
  exact reads

theorem end_of_list_plain (plain : StartsPlain text) : endOfList text = .ok (false, text) := by
  obtain ⟨character, tail, shape, noComma, noBracket⟩ := plain
  rw [shape]
  exact end_of_list_other tail noComma noBracket

section Runs

variable {stuck : Bytes → Prop} {described : Origin → Item → Prop}

theorem items_reject (plainStuck : ∀ text, stuck text → StartsPlain text)
    (rejects : Rejects stuck item) (rounds : Nat) : Rejects stuck (parseItems item rounds) := by
  intro text values final isStuck ran
  cases rounds with
  | zero => exact throw_not_ok ran
  | succ rounds =>
    rw [parseItems, bind_eq, end_of_list_plain (plainStuck text isStuck)] at ran
    exact rejects.bind text values final isStuck ran

theorem parse_round_only {origin : Origin} {origins : List Origin} {more : Bytes}
    (plainStuck : ∀ text, stuck text → StartsPlain text) (rejects : Rejects stuck item)
    {rounds : Nat} (first : OnlyReads id stuck item (print origin) (described origin))
    (others : OnlyReads id (fun _ => False) (parseItems item rounds) more
      (List.Forall₂ described origins)) :
    OnlyReads id (fun _ => False) (parseRound item rounds) (print origin ++ more)
      (List.Forall₂ described (origin :: origins)) := by
  apply only_reads_bind first
  · intro first
    exact (items_reject plainStuck rejects rounds).bind
  intro first isFirst
  rw [← append_nil more]
  apply only_reads_bind others (fun _ => rejects_nothing _)
  intro rest areRest
  exact only_reads_pure (List.Forall₂.cons isFirst areRest)

section

variable (origins : List Origin)
  (each : ∀ origin ∈ origins, OnlyReads id stuck item (print origin) (described origin))

include origins each

theorem parse_more_only (plainStuck : ∀ text, stuck text → StartsPlain text)
    (rejects : Rejects stuck item) (rounds : Nat) :
    OnlyReads id (fun _ => False) (parseItems item rounds)
      ((origins.flatMap fun origin => [44] ++ print origin) ++ [93])
      (fun values => List.Forall₂ described origins values) := by
  induction origins generalizing rounds with
  | nil =>
    cases rounds with
    | zero =>
      intro text rest values final _ ran
      exact absurd ran throw_not_ok
    | succ rounds =>
      apply end_of_list_bracket.only_bind
      exact only_reads_pure List.Forall₂.nil
  | cons origin origins ih =>
    cases rounds with
    | zero =>
      intro text rest values final _ ran
      exact absurd ran throw_not_ok
    | succ rounds =>
      rw [flatMap_cons, append_assoc]
      apply end_of_list_comma.only_bind
      exact parse_round_only plainStuck rejects (each origin mem_cons_self)
        (ih (fun other member => each other (mem_cons_of_mem _ member)) rounds)

/-- The successful runs of a list loop on a printed list. An item may end in a
stuck state, since the loop fails there. -/
theorem parse_list_only (plain : ∀ origin ∈ origins, StartsPlain (print origin))
    (plainStuck : ∀ text, stuck text → StartsPlain text) (rejects : Rejects stuck item) :
    OnlyReads id (fun _ => False) (parseList item) ([44].intercalate (origins.map print) ++ [93])
      (fun values => List.Forall₂ described origins values) := by
  cases origins with
  | nil =>
    intro text rest values final input ran
    exact parse_more_only [] each plainStuck rejects (text.length + 1) text rest values final
      input ran
  | cons origin origins =>
    intro text rest values final input ran
    rw [map_cons, intercalate_cons_eq, flatMap_map] at input
    have starts : StartsPlain text := by
      obtain ⟨character, tail, shape, noComma, noBracket⟩ := plain origin mem_cons_self
      have begins : text = _ := input
      rw [begins, shape]
      exact ⟨character, _, rfl, noComma, noBracket⟩
    rw [parseList, parseItems, bind_eq, end_of_list_plain starts] at ran
    have whole := parse_round_only plainStuck rejects (each origin mem_cons_self)
      (parse_more_only origins (fun other member => each other (mem_cons_of_mem _ member))
        plainStuck rejects text.length)
    exact whole text rest values final (by rw [input]; simp) ran

end

end Runs

end Lists

end Bsd.Store.DerivationText
