import Bsd.Lib.Occurrences

/-!
# Tokens of strings

The rules of the lexer in quoted and in indented strings, and `printLiteralString`. A rule
matches as much as it can.
-/

namespace Bsd.Expr.StringLexing

open Lib.Occurrences

inductive Token where
  | str (text : Bytes)
  | indStr (text : Bytes) (hasIndentation : Bool)
  | dollarCurly
  | quote
  | indStringClose
  | eof

/-- The error `input string … cannot be represented as Bsd string because it contains null
bytes`. -/
structure NullByte where
  text : Bytes

def forceNoNullByte (text : Bytes) : Except NullByte Bytes :=
  if 0 ∈ text then .error ⟨text⟩ else .ok text

/-- The loop of `unescapeStr`, with whether a character that it looked at was a NUL. A token does
not end in a backslash that escapes nothing, nor in a CR before a LF. -/
def unescape : Bytes → Bytes × Bool
  | 92 :: byte :: rest =>
    let unescaped := unescape rest
    ((if byte = 110 then 10 else if byte = 114 then 13 else if byte = 116 then 9 else byte)
      :: unescaped.1, unescaped.2)
  | 13 :: 10 :: rest => (10 :: (unescape rest).1, (unescape rest).2)
  | 13 :: rest => (10 :: (unescape rest).1, (unescape rest).2)
  | byte :: rest => (byte :: (unescape rest).1, byte ≠ 0 && (unescape rest).2)
  | [] => ([], true)

def unescapeStr (text : Bytes) : Except NullByte Bytes :=
  if (unescape text).2 then .ok (unescape text).1 else forceNoNullByte (unescape text).1

/-- The most that `([^\$\"\\]|\$[^\{\"\\]|\\{ANY}|\$\\{ANY})*` matches, and the rest. -/
def stringPieces : Bytes → Bytes × Bytes
  | 36 :: 92 :: byte :: rest =>
    (36 :: 92 :: byte :: (stringPieces rest).1, (stringPieces rest).2)
  | 36 :: byte :: rest =>
    if byte = 123 ∨ byte = 34 ∨ byte = 92 then ([], 36 :: byte :: rest)
    else (36 :: byte :: (stringPieces rest).1, (stringPieces rest).2)
  | 92 :: byte :: rest => (92 :: byte :: (stringPieces rest).1, (stringPieces rest).2)
  | byte :: rest =>
    if byte = 36 ∨ byte = 34 ∨ byte = 92 then ([], byte :: rest)
    else (byte :: (stringPieces rest).1, (stringPieces rest).2)
  | [] => ([], [])

/-- The most that `([^\$\']|\$[^\{\']|\'[^\'\$])*` matches, and the rest. -/
def indPieces : Bytes → Bytes × Bytes
  | 36 :: byte :: rest =>
    if byte = 123 ∨ byte = 39 then ([], 36 :: byte :: rest)
    else (36 :: byte :: (indPieces rest).1, (indPieces rest).2)
  | 39 :: byte :: rest =>
    if byte = 39 ∨ byte = 36 then ([], 39 :: byte :: rest)
    else (39 :: byte :: (indPieces rest).1, (indPieces rest).2)
  | byte :: rest =>
    if byte = 36 ∨ byte = 39 then ([], byte :: rest)
    else (byte :: (indPieces rest).1, (indPieces rest).2)
  | [] => ([], [])

inductive StringState where
  | string
  | indString

inductive Action where
  | escaped (state : StringState) (text : Bytes)
  | literal (text : Bytes)
  | fixed (token : Token)

def Action.run : Action → Except NullByte Token
  | .escaped .string text => .str <$> unescapeStr text
  | .escaped .indString text => (.indStr · false) <$> unescapeStr text
  | .literal text => (.indStr · true) <$> forceNoNullByte text
  | .fixed token => .ok token

def stringRule (input : Bytes) : Action × Bytes :=
  match stringPieces input with
  | (text, 36 :: 34 :: rest) => (.escaped .string (text ++ [36]), 34 :: rest)
  | ([], 36 :: 123 :: rest) => (.fixed .dollarCurly, rest)
  | ([], 34 :: rest) => (.fixed .quote, rest)
  | ([], rest) => (.fixed .eof, rest)
  | (text, rest) => (.escaped .string text, rest)

def indStringRule (input : Bytes) : Action × Bytes :=
  match indPieces input with
  | ([], 39 :: 39 :: 36 :: rest) => (.fixed (.indStr (ascii "$") false), rest)
  | ([], 39 :: 39 :: 39 :: rest) => (.fixed (.indStr (ascii "''") false), rest)
  | ([], 39 :: 39 :: 92 :: byte :: rest) => (.escaped .indString [92, byte], rest)
  | ([], 39 :: 39 :: rest) => (.fixed .indStringClose, rest)
  | ([], 39 :: rest) => (.fixed (.indStr (ascii "'") false), rest)
  | ([], 36 :: 123 :: rest) => (.fixed .dollarCurly, rest)
  | ([], 36 :: rest) => (.fixed (.indStr (ascii "$") false), rest)
  | ([], rest) => (.fixed .eof, rest)
  | (text, rest) => (.literal text, rest)

def rule : StringState → Bytes → Action × Bytes
  | .string => stringRule
  | .indString => indStringRule

def Token.text : Token → Bytes
  | .str text => text
  | .indStr text _ => text
  | _ => []

def Action.source : Action → Bytes
  | .escaped _ text => text
  | .literal text => text
  | .fixed token => token.text

def escapedNul : Bytes → Bool
  | 92 :: byte :: rest => byte = 0 || escapedNul rest
  | _ :: rest => escapedNul rest
  | [] => false

def openNul : Bytes → Bool
  | 92 :: _ :: rest => openNul rest
  | byte :: rest => byte = 0 || openNul rest
  | [] => false

open StringLexing.Action

/-- The flag of the loop says that no NUL stands without a backslash in front. -/
theorem unescape_flag (text : Bytes) : (unescape text).2 = !openNul text := by
  fun_induction unescape text with
  | case1 byte rest unescaped ih => simp [openNul, ih, unescaped]
  | case2 rest ih | case3 rest _ ih => simp [openNul, ih]
  | case4 byte rest plain _ _ ih =>
    rw [openNul.eq_2 _ _ plain]
    by_cases zero : byte = 0 <;> simp [ih, zero]
  | case5 => rfl

theorem unescape_nul (text : Bytes) :
    (0 ∈ text ↔ escapedNul text = true ∨ openNul text = true) ∧
      (0 ∈ (unescape text).1 ↔ escapedNul text = true ∨ openNul text = true) := by
  fun_induction unescape text with
  | case1 byte rest unescaped ih =>
    have kept : (0 = if byte = 110 then 10 else if byte = 114 then 13 else
        if byte = 116 then 9 else byte) ↔ byte = 0 := by
      split_ifs <;> grind
    simp [escapedNul, openNul, kept, ih, unescaped, @eq_comm _ 0 byte, or_assoc]
  | case2 rest ih | case3 rest _ ih => simp [escapedNul, openNul, ih]
  | case4 byte rest plain _ _ ih =>
    rw [escapedNul.eq_2 _ _ plain, openNul.eq_2 _ _ plain]
    by_cases zero : byte = 0 <;> simp [ih, zero, @eq_comm _ 0 byte]
  | case5 => simp [escapedNul, openNul]

/-- All NULs are behind backslashes, and there is one. -/
def Action.hidesNul : Action → Bool
  | .escaped _ text => escapedNul text && !openNul text
  | _ => false

/-- The strings have no NUL, and a text with a NUL is refused. -/
def Action.NulFree (action : Action) : Prop :=
  (∀ token, action.run = .ok token → 0 ∉ token.text) ∧
    (0 ∈ action.source → ∃ error, action.run = .error error)

theorem fixed_plain {state : StringState} {input : Bytes} {token : Token}
    (fixed : (rule state input).1 = .fixed token) : 0 ∉ token.text := by
  cases state <;> simp only [rule, stringRule, indStringRule] at fixed
  all_goals
    split at fixed
    all_goals cases fixed <;> decide

/-- A rule keeps strings free of NULs exactly if it does not hide one behind a backslash. -/
theorem nul_free_iff (state : StringState) (input : Bytes) :
    (rule state input).1.NulFree ↔ (rule state input).1.hidesNul = false := by
  cases isAction : (rule state input).1 with
  | fixed token =>
    have plain := fixed_plain isAction
    simp [Action.NulFree, hidesNul, run, source, plain]
  | literal text =>
    by_cases nul : 0 ∈ text <;>
      simp [Action.NulFree, hidesNul, run, source, forceNoNullByte, nul, Token.text]
  | escaped state text =>
    obtain ⟨inText, inString⟩ := unescape_nul text
    by_cases seen : openNul text = true
    · have nul : 0 ∈ (unescape text).1 := inString.mpr (.inr seen)
      cases state <;>
        simp [Action.NulFree, hidesNul, run, unescapeStr, unescape_flag, seen, forceNoNullByte,
          nul]
    · cases state <;>
        simp [Action.NulFree, hidesNul, run, source, unescapeStr, unescape_flag, seen,
          inText, inString, Token.text]

/-- A backslash in front of a NUL. -/
theorem escaped_nul_kept : stringRule [92, 0, 34] = (.escaped .string [92, 0], [34]) ∧
    (escaped .string [92, 0]).run = .ok (.str [0]) :=
  ⟨rfl, rfl⟩

def literalByte (byte next : Byte) : Bytes :=
  if byte = 34 ∨ byte = 92 then [92, byte]
  else if byte = 10 then ascii "\\n"
  else if byte = 13 then ascii "\\r"
  else if byte = 9 then ascii "\\t"
  else if byte = 36 ∧ next = 123 then [92, byte]
  else [byte]

/-- The loop of `printLiteralString`, which also looks at the byte `beyond` the string. -/
def literalBytes (beyond : Byte) : Bytes → Bytes
  | [] => []
  | byte :: rest => literalByte byte (rest.headD beyond) ++ literalBytes beyond rest

/-- Without a limit and without colours. -/
def printLiteralString (beyond : Byte) (string : Bytes) : Bytes :=
  34 :: literalBytes beyond string ++ [34]

/-- The tokens of a quoted string up to its end or an antiquotation. -/
def lexString : Nat → Bytes → Except NullByte (List Token × Bytes)
  | 0, input => .ok ([], input)
  | fuel + 1, input => do
    let token ← (stringRule input).1.run
    match token with
    | .str text =>
      let (tokens, rest) ← lexString fuel (stringRule input).2
      .ok (.str text :: tokens, rest)
    | token => .ok ([token], (stringRule input).2)

def lexQuoted (fuel : Nat) : Bytes → Except NullByte (List Token × Bytes)
  | 34 :: rest => do
    let (tokens, rest) ← lexString fuel rest
    .ok (.quote :: tokens, rest)
  | input => .ok ([], input)

/-- A character is printed as itself or behind a backslash. -/
theorem literal_byte_cases (byte next : Byte) :
    (∃ code, literalByte byte next = [92, code] ∧ ∀ rest, (unescape (92 :: code :: rest)) =
      (byte :: (unescape rest).1, (unescape rest).2)) ∨
    (literalByte byte next = [byte] ∧ byte ≠ 34 ∧ byte ≠ 92 ∧ byte ≠ 13 ∧
      (byte = 36 → next ≠ 123)) := by
  unfold literalByte
  split_ifs with quoted newline return_ tab dollar
  · refine .inl ⟨byte, rfl, fun rest => ?_⟩
    obtain rfl | rfl := quoted <;> simp [unescape]
  · exact .inl ⟨110, rfl, fun rest => by simp [unescape, newline]⟩
  · exact .inl ⟨114, rfl, fun rest => by simp [unescape, return_]⟩
  · exact .inl ⟨116, rfl, fun rest => by simp [unescape, tab]⟩
  · exact .inl ⟨byte, rfl, fun rest => by simp [unescape, dollar.1]⟩
  · exact .inr ⟨rfl, by tauto, by tauto, return_, by tauto⟩

theorem unescape_literal (beyond : Byte) {string : Bytes} (plain : 0 ∉ string) :
    unescape (literalBytes beyond string) = (string, true) := by
  induction string with
  | nil => rfl
  | cons byte rest ih =>
    rw [List.mem_cons, not_or] at plain
    rw [literalBytes]
    obtain ⟨code, isCode, back⟩ | ⟨same, _, noEscape, noReturn, _⟩ :=
      literal_byte_cases byte (rest.headD beyond)
    · rw [isCode, List.cons_append, List.singleton_append, back, ih plain.2]
    · rw [same]
      simp [unescape, noEscape, noReturn, ih plain.2, Ne.symm plain.1]

/-- A part of a text that the rule for strings takes as a whole. -/
def IsPiece (piece : Bytes) : Prop :=
  ∀ rest, stringPieces (piece ++ rest) = (piece ++ (stringPieces rest).1, (stringPieces rest).2)

/-- In front of a quote the whole text is taken, but for a dollar sign at its end. -/
def Taken (text : Bytes) : Prop :=
  stringPieces (text ++ [34]) = (text, [34]) ∨
    ∃ front, text = front ++ [36] ∧ stringPieces (text ++ [34]) = (front, [36, 34])

theorem IsPiece.taken {piece text : Bytes} (isPiece : IsPiece piece) (taken : Taken text) :
    Taken (piece ++ text) := by
  rw [Taken, List.append_assoc, isPiece]
  obtain all | ⟨front, rfl, dollar⟩ := taken
  · exact .inl (by rw [all])
  · exact .inr ⟨piece ++ front, by simp, by rw [dollar]⟩

theorem taken_literal (beyond : Byte) : ∀ string, Taken (literalBytes beyond string)
  | [] => .inl rfl
  | byte :: rest => by
    rw [literalBytes]
    obtain ⟨code, isCode, _⟩ | ⟨same, noQuote, noEscape, _, noCurly⟩ :=
      literal_byte_cases byte (rest.headD beyond)
    · rw [isCode]
      exact IsPiece.taken (fun _ => rfl) (taken_literal beyond rest)
    rw [same]
    by_cases dollar : byte = 36
    · subst dollar
      cases rest with
      | nil => exact .inr ⟨[], rfl, rfl⟩
      | cons next rest =>
        rw [literalBytes]
        obtain ⟨code, isCode, _⟩ | ⟨same, noQuote, noEscape, _⟩ :=
          literal_byte_cases next (rest.headD beyond)
        · rw [isCode]
          exact @IsPiece.taken [36, 92, code] _ (fun _ => rfl) (taken_literal beyond rest)
        rw [same]
        refine @IsPiece.taken [36, next] _ (fun more => ?_) (taken_literal beyond rest)
        have noCurly : next ≠ 123 := noCurly rfl
        simp [stringPieces, noQuote, noEscape, noCurly]
    · refine IsPiece.taken (fun more => ?_) (taken_literal beyond rest)
      simp [stringPieces, noQuote, noEscape, dollar]

theorem Taken.rule {text : Bytes} (taken : Taken text) (some : text ≠ []) :
    stringRule (text ++ [34]) = (.escaped .string text, [34]) := by
  obtain all | ⟨front, rfl, dollar⟩ := taken
  · rw [stringRule, all]
    cases text with
    | nil => exact absurd rfl some
    | cons byte rest => rfl
  · rw [stringRule, dollar]
    cases front <;> rfl

/-- A printed string is read back as it was. -/
theorem printed_string_read_back (beyond : Byte) {string : Bytes} (plain : 0 ∉ string) :
    ∃ strings : List Bytes, strings.flatten = string ∧ ∀ fuel,
      lexQuoted (fuel + 2) (printLiteralString beyond string) =
        .ok (.quote :: strings.map .str ++ [.quote], []) := by
  cases string with
  | nil => exact ⟨[], rfl, fun _ => rfl⟩
  | cons byte rest =>
    refine ⟨[byte :: rest], by simp, fun fuel => ?_⟩
    have some : literalBytes beyond (byte :: rest) ≠ [] := by
      intro none
      cases none ▸ unescape_literal beyond plain
    have matched := (taken_literal beyond (byte :: rest)).rule some
    have run : (escaped .string (literalBytes beyond (byte :: rest))).run =
        .ok (.str (byte :: rest)) := by
      simp [run, unescapeStr, unescape_literal beyond plain]
    have closing : lexString (fuel + 1) [34] = .ok ([.quote], []) := rfl
    have body : lexString (fuel + 2) (literalBytes beyond (byte :: rest) ++ [34]) =
        .ok ([.str (byte :: rest), .quote], []) := by
      rw [lexString, matched]
      simp [run, bind, Except.bind, closing]
    simp only [printLiteralString, List.cons_append, lexQuoted, body]
    rfl

/-- `$${` -/
theorem printed_dollars_read_back :
    ∃ strings : List Bytes, strings.flatten = [36, 36, 123] ∧ ∀ fuel,
      lexQuoted (fuel + 2) (printLiteralString 0 [36, 36, 123]) =
        .ok (.quote :: strings.map .str ++ [.quote], []) :=
  printed_string_read_back 0 (by decide)

end Bsd.Expr.StringLexing
