import Mathlib.Algebra.Order.Ring.Int
import Bsd.Lib.Occurrences

/-!
# Texts of quoted strings and brackets

A scan of such a text knows whether it is in a string, how many brackets are open
and how many strings were begun outside of all brackets. It decides where an
arbitrary text ends that is followed by a quote and a rest of this form.
-/

namespace Bsd.Lib.QuotedText

open Lib.Occurrences List

inductive Mode where
  | outside
  | inside
  | escaped
  | broken
  deriving DecidableEq

/-- The state of a scan. `begun` counts the strings begun at depth zero. -/
structure Scan where
  mode : Mode
  depth : Int
  begun : Nat
  deriving DecidableEq

def scanByte (scan : Scan) (byte : Byte) : Scan :=
  match scan.mode with
  | .outside =>
    if byte = 34 then
      ⟨.inside, scan.depth, if scan.depth = 0 then scan.begun + 1 else scan.begun⟩
    else if byte = 40 ∨ byte = 91 then ⟨.outside, scan.depth + 1, scan.begun⟩
    else if byte = 41 ∨ byte = 93 then ⟨.outside, scan.depth - 1, scan.begun⟩
    else if byte = 44 then scan
    else ⟨.broken, scan.depth, scan.begun⟩
  | .inside =>
    if byte = 34 then ⟨.outside, scan.depth, scan.begun⟩
    else if byte = 92 then ⟨.escaped, scan.depth, scan.begun⟩
    else scan
  | .escaped => ⟨.inside, scan.depth, scan.begun⟩
  | .broken => scan

def scanText (scan : Scan) (text : Bytes) : Scan := text.foldl scanByte scan

theorem scan_text_append (scan : Scan) (left right : Bytes) :
    scanText scan (left ++ right) = scanText (scanText scan left) right :=
  foldl_append

section

variable {left right : Scan} {offset : Int}

section

variable (sameMode : left.mode = right.mode) (deeper : left.depth = right.depth + offset)

include sameMode deeper

theorem scan_byte_depth (byte : Byte) : (scanByte left byte).mode = (scanByte right byte).mode ∧
      (scanByte left byte).depth = (scanByte right byte).depth + offset := by
  rw [scanByte, scanByte, sameMode]
  cases isMode : right.mode with
  | outside | inside =>
    split_ifs <;> simp [sameMode] <;> omega
  | escaped => exact ⟨rfl, deeper⟩
  | broken => exact ⟨sameMode, deeper⟩

theorem scan_text_depth (text : Bytes) : (scanText left text).mode = (scanText right text).mode ∧
      (scanText left text).depth = (scanText right text).depth + offset := by
  induction text generalizing left right with
  | nil => exact ⟨sameMode, deeper⟩
  | cons byte rest ih =>
    obtain ⟨nextMode, nextDeeper⟩ := scan_byte_depth sameMode deeper byte
    exact ih nextMode nextDeeper

end

theorem scan_text_begun (mode : Mode) (depth : Int) (begun : Nat) (text : Bytes) :
    (scanText ⟨mode, depth, begun⟩ text).begun = (scanText ⟨mode, depth, 0⟩ text).begun + begun := by
  suffices step : ∀ left right : Scan, left.mode = right.mode → left.depth = right.depth →
      left.begun = right.begun + begun →
      (scanText left text).begun = (scanText right text).begun + begun by
    exact step _ _ rfl rfl (Nat.zero_add begun).symm
  induction text with
  | nil =>
    intro left right _ _ more
    exact more
  | cons byte rest ih =>
    intro left right sameMode sameDepth more
    obtain ⟨nextMode, nextDepth⟩ :=
      scan_byte_depth sameMode (sameDepth.trans (Int.add_zero _).symm) byte
    refine ih _ _ nextMode (nextDepth.trans (Int.add_zero _)) ?_
    rw [scanByte, scanByte, sameMode, sameDepth]
    cases right.mode with
    | outside =>
      split_ifs
      · simp only [more]
        omega
      all_goals exact more
    | inside =>
      split_ifs <;> exact more
    | escaped | broken => exact more

/-- One of the two scans sees a string where the other does not. -/
def Opposed (left right : Mode) : Prop :=
  left = .broken ∨ right = .broken ∨ (left = .outside ∧ right = .inside) ∨
    (left = .inside ∧ right = .outside)

theorem Opposed.symm {one two : Mode} (opposed : Opposed one two) : Opposed two one := by
  rcases opposed with broken | broken | both | both
  · exact .inr (.inl broken)
  · exact .inl broken
  · exact .inr (.inr (.inr both.symm))
  · exact .inr (.inr (.inl both.symm))

variable {scan : Scan}

theorem scan_byte_broken (broken : scan.mode = .broken) (byte : Byte) :
    (scanByte scan byte).mode = .broken := by
  rw [scanByte, broken]
  exact broken

theorem scan_byte_outside_inside (leftOutside : left.mode = .outside)
    (rightInside : right.mode = .inside) (byte : Byte) :
    Opposed (scanByte left byte).mode (scanByte right byte).mode := by
  rw [scanByte, scanByte]
  split_ifs with isQuote isOpening isClosing isComma isBackslash
  all_goals simp_all [Opposed]

theorem scan_byte_opposed (opposed : Opposed left.mode right.mode) (byte : Byte) :
    Opposed (scanByte left byte).mode (scanByte right byte).mode := by
  rcases opposed with broken | broken | both | both
  · exact .inl (scan_byte_broken broken byte)
  · exact .inr (.inl (scan_byte_broken broken byte))
  · exact scan_byte_outside_inside both.1 both.2 byte
  · exact (scan_byte_outside_inside both.2 both.1 byte).symm

theorem scan_text_opposed (opposed : Opposed left.mode right.mode) (text : Bytes) :
    Opposed (scanText left text).mode (scanText right text).mode := by
  induction text generalizing left right with
  | nil => exact opposed
  | cons byte rest ih => exact ih (scan_byte_opposed opposed byte)

def Counted (scan : Scan) : Prop :=
  scan.mode = .inside ∨ scan.mode = .escaped → scan.depth = 0 → 0 < scan.begun

theorem counted_of_mode (notInside : scan.mode ≠ .inside) (notEscaped : scan.mode ≠ .escaped) :
    Counted scan := by
  intro inString
  rcases inString with inside | escaped
  · exact absurd inside notInside
  · exact absurd escaped notEscaped

theorem scan_byte_counted (counted : Counted scan) (byte : Byte) :
    Counted (scanByte scan byte) := by
  rw [scanByte]
  cases isMode : scan.mode with
  | outside =>
    dsimp only
    split_ifs with isQuote atZero isOpening isClosing isComma
    · exact fun _ _ => Nat.succ_pos _
    · exact fun _ isZero => absurd isZero atZero
    · exact counted_of_mode nofun nofun
    · exact counted_of_mode nofun nofun
    · exact counted
    · exact counted_of_mode nofun nofun
  | inside =>
    dsimp only
    split_ifs
    · exact counted_of_mode nofun nofun
    · exact fun _ => counted (.inl isMode)
    · exact counted
  | escaped => exact fun _ => counted (.inr isMode)
  | broken => exact counted

theorem scan_text_counted (counted : Counted scan) (text : Bytes) :
    Counted (scanText scan text) := by
  induction text generalizing scan with
  | nil => exact counted
  | cons byte rest ih => exact ih (scan_byte_counted counted byte)

end

/-- The content of a string: a scan in a string is still in it afterwards. -/
def StringContent (text : Bytes) : Prop :=
  ∀ depth begun, scanText ⟨.inside, depth, begun⟩ text = ⟨.inside, depth, begun⟩

variable {content : Bytes}

theorem scan_string (isContent : StringContent content) (depth : Int) (begun : Nat) :
    scanText ⟨.outside, depth, begun⟩ ([34] ++ content ++ [34]) =
      ⟨.outside, depth, if depth = 0 then begun + 1 else begun⟩ := by
  rw [scan_text_append]
  change scanText (scanText ⟨.inside, depth, if depth = 0 then begun + 1 else begun⟩ content) [34] = _
  rw [isContent]
  rfl

def Balanced (depth : Int) (text : Bytes) : Prop :=
  ∀ begun, scanText ⟨.outside, depth, begun⟩ text = ⟨.outside, depth, begun⟩

variable {depth : Int}

theorem Balanced.append {left right : Bytes} (leftBalanced : Balanced depth left)
    (rightBalanced : Balanced depth right) : Balanced depth (left ++ right) := by
  intro begun
  rw [scan_text_append, leftBalanced, rightBalanced]

theorem balanced_comma (depth : Int) : Balanced depth [44] := fun _ => rfl

variable {text : Bytes}

theorem Balanced.round (balanced : Balanced (depth + 1) text) :
    Balanced depth ([40] ++ text ++ [41]) := by
  intro begun
  rw [scan_text_append]
  change scanText (scanText ⟨.outside, depth + 1, begun⟩ text) [41] = _
  rw [balanced]
  change (⟨.outside, depth + 1 - 1, begun⟩ : Scan) = _
  rw [Int.add_sub_cancel]

theorem Balanced.square (balanced : Balanced (depth + 1) text) :
    Balanced depth ([91] ++ text ++ [93]) := by
  intro begun
  rw [scan_text_append]
  change scanText (scanText ⟨.outside, depth + 1, begun⟩ text) [93] = _
  rw [balanced]
  change (⟨.outside, depth + 1 - 1, begun⟩ : Scan) = _
  rw [Int.add_sub_cancel]

theorem balanced_joined {texts : List Bytes} (each : ∀ text ∈ texts, Balanced depth text) :
    Balanced depth ([44].intercalate texts) := by
  induction texts with
  | nil => exact fun _ => rfl
  | cons first rest ih =>
    rw [forall_mem_cons] at each
    cases rest with
    | nil =>
      rw [intercalate_singleton]
      exact each.1
    | cons second rest =>
      rw [intercalate_cons_cons]
      exact (each.1.append (balanced_comma depth)).append (ih each.2)

def start : Scan := ⟨.outside, 0, 0⟩

/-- A text that closes one bracket and has one string outside of brackets. -/
def IsTail (text : Bytes) : Prop := scanText start text = ⟨.outside, -1, 1⟩

variable {rest : Bytes}

theorem tail_of_balanced (isContent : StringContent content) (balanced : Balanced 0 rest) :
    IsTail ([44] ++ ([34] ++ content ++ [34]) ++ rest ++ [41]) := by
  rw [IsTail, scan_text_append, scan_text_append]
  change scanText (scanText (scanText ⟨.outside, 0, 0⟩ ([34] ++ content ++ [34])) rest) [41] = _
  rw [scan_string isContent, balanced]
  rfl

theorem tail_of_tail {front : Bytes} (whole : IsTail (front ++ 34 :: rest)) : ¬ IsTail rest := by
  intro tail
  rw [IsTail, scan_text_append] at whole
  have counted : Counted (scanText start front) :=
    scan_text_counted (counted_of_mode (by decide) (by decide)) front
  -- a scan that begins the rest in a string ends it in one, or is broken
  have notInside : ∀ scan : Scan, scan.mode = .inside ∨ scan.mode = .broken →
      scanText scan rest ≠ ⟨.outside, -1, 1⟩ := by
    intro scan mode ends
    have opposed : Opposed (scanText scan rest).mode (scanText start rest).mode := by
      apply scan_text_opposed
      rcases mode with inside | broken
      · exact .inr (.inr (.inr ⟨inside, rfl⟩))
      · exact .inl broken
    rw [ends, tail] at opposed
    exact absurd opposed (by simp [Opposed])
  cases before : scanText start front with
  | mk mode depth begun =>
    rw [before] at whole counted
    cases mode with
    | outside | escaped => exact notInside _ (.inl rfl) whole
    | broken => exact notInside _ (.inr rfl) whole
    | inside =>
      change scanText ⟨.outside, depth, begun⟩ rest = _ at whole
      have deeper : (scanText ⟨.outside, depth, begun⟩ rest).depth =
          (scanText start rest).depth + depth := by
        apply (scan_text_depth _ _ rest).2
        · rfl
        · exact (Int.zero_add depth).symm
      rw [whole, tail] at deeper
      have atZero : depth = 0 := by
        omega
      rw [atZero] at whole counted
      have more := scan_text_begun .outside 0 begun rest
      rw [whole, show (⟨.outside, 0, 0⟩ : Scan) = start from rfl, tail] at more
      have some : 0 < begun := counted (.inl rfl) rfl
      omega

/-- An arbitrary text before a quote and such a tail can be told apart from them. -/
theorem tail_unique {left right leftTail rightTail : Bytes} (leftIs : IsTail leftTail)
    (rightIs : IsTail rightTail) (same : left ++ 34 :: leftTail = right ++ 34 :: rightTail) :
    left = right ∧ leftTail = rightTail := by
  rcases append_eq_append_iff.mp same with ⟨more, isRight, tails⟩ | ⟨more, isLeft, tails⟩
  · cases more with
    | nil =>
      rw [append_nil] at isRight
      exact ⟨isRight.symm, (cons.inj tails).2⟩
    | cons byte more =>
      rw [(cons.inj tails).2] at leftIs
      exact absurd rightIs (tail_of_tail leftIs)
  · cases more with
    | nil =>
      rw [append_nil] at isLeft
      exact ⟨isLeft, (cons.inj tails).2.symm⟩
    | cons byte more =>
      rw [(cons.inj tails).2] at rightIs
      exact absurd leftIs (tail_of_tail rightIs)

end Bsd.Lib.QuotedText
