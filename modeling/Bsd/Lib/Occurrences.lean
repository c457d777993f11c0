import Mathlib.Algebra.GroupWithZero.Nat
import Mathlib.Data.List.Infix
import Mathlib.Data.List.TakeWhile
import Mathlib.Order.Fin.Basic
import Mathlib.Data.List.Lex

/-!
# Byte strings and contiguous occurrences

Byte strings are lists of `Fin 256`, so that `<` on them is the unsigned
lexicographic order of `std::string`. An occurrence is a start position; a
stream that is cut in two keeps every short occurrence in the left part, in the
right part or in a window of bounded width around the cut.
-/

namespace Bsd.Lib.Occurrences

open List

abbrev Byte := Fin 256

instance (priority := high) byte_count_ne_zero : NeZero 256 := ⟨by decide⟩

abbrev Bytes := List Byte

instance (priority := high) byte_lawful_beq : LawfulBEq Byte := inferInstance

instance (priority := high) bytes_lawful_beq : LawfulBEq Bytes := inferInstance

-- What sorting a finite set needs, under one name in the definitions of every module.
scoped instance (priority := high) trans_le {T : Type*} [LinearOrder T] : IsTrans T (· ≤ ·) :=
  inferInstance

scoped instance (priority := high) antisymm_le {T : Type*} [LinearOrder T] :
    Std.Antisymm fun first second : T => first ≤ second :=
  inferInstance

/-- The bytes of a string literal whose characters are all below 256. -/
def ascii (text : String) : Bytes :=
  text.toList.map fun character => Fin.ofNat 256 character.toNat

def quoted (text : Bytes) : Bytes := ascii "'" ++ text ++ ascii "'"

/-- The text that is read from a pointer to it: a C string ends before the first zero byte. -/
def cString (text : Bytes) : Bytes := text.takeWhile (· ≠ 0)

theorem c_string_plain {text : Bytes} (plain : (0 : Byte) ∉ text) : cString text = text := by
  rw [cString, takeWhile_eq_self_iff]
  intro byte member
  apply decide_eq_true
  intro isZero
  rw [isZero] at member
  exact plain member

theorem zero_not_c_string (text : Bytes) : (0 : Byte) ∉ cString text := by
  intro member
  have tested := mem_takeWhile_imp member
  simp at tested

section Occurrences

variable {Item : Type*}

def OccursAt (pattern text : List Item) (start : Nat) : Prop :=
  pattern <+: text.drop start

instance [DecidableEq Item] (pattern text : List Item) (start : Nat) :
    Decidable (OccursAt pattern text start) :=
  inferInstanceAs (Decidable (pattern <+: text.drop start))

theorem occurs_at_zero (pattern text : List Item) : OccursAt pattern text 0 ↔ pattern <+: text := by
  simp [OccursAt]

theorem infix_iff_occurs_at (pattern text : List Item) :
    pattern <:+: text ↔ ∃ start, OccursAt pattern text start := by
  constructor
  · rintro ⟨before, after, rfl⟩
    refine ⟨before.length, ?_⟩
    simp [OccursAt]
  · rintro ⟨start, occurs⟩
    exact occurs.isInfix.trans (drop_suffix start text).isInfix

variable {pattern text : List Item} {start : Nat}

theorem occurs_at_bound (occurs : OccursAt pattern text start) (nonempty : pattern ≠ []) :
    start + pattern.length ≤ text.length := by
  have bound := occurs.length_le
  have positive := length_pos_iff.mpr nonempty
  rw [length_drop] at bound
  omega

theorem occurs_at_iff_take :
    OccursAt pattern text start ↔ (text.drop start).take pattern.length = pattern := by
  rw [OccursAt, prefix_iff_eq_take]
  exact eq_comm

theorem occurs_at_iff_places : OccursAt pattern text start ↔ ∀ place, start ≤ place →
    place < start + pattern.length → text[place]? = pattern[place - start]? := by
  rw [OccursAt, prefix_iff_getElem?]
  constructor
  · intro occurs place lower upper
    have inside : place - start < pattern.length := by omega
    have here := occurs (place - start) inside
    rw [getElem?_drop, Nat.add_sub_cancel' lower] at here
    rw [here, getElem?_eq_getElem inside]
  · intro occurs index inside
    have here := occurs (start + index) (Nat.le_add_right _ _) (by omega)
    rw [getElem?_drop, here, Nat.add_sub_cancel_left, getElem?_eq_getElem inside]

variable {more : List Item}

theorem occurs_at_append_left_iff (fits : start + pattern.length ≤ text.length) :
    OccursAt pattern (text ++ more) start ↔ OccursAt pattern text start := by
  rw [occurs_at_iff_take, occurs_at_iff_take, drop_append_of_le_length (by omega),
    take_append_of_le_length (by rw [length_drop]; omega)]

theorem occurs_at_append_right (pattern text more : List Item) (start : Nat) :
    OccursAt pattern (text ++ more) (text.length + start) ↔ OccursAt pattern more start := by
  simp [OccursAt]

def lastN (width : Nat) (items : List Item) : List Item :=
  items.drop (items.length - width)

theorem last_n_length (width : Nat) (items : List Item) :
    (lastN width items).length = min width items.length := by
  simp only [lastN, length_drop]
  omega

theorem last_n_append (width : Nat) (left right : List Item) : lastN width (left ++ right) =
      lastN (width - right.length) left ++ lastN width right := by
  have rightIndex : left.length + right.length - width - left.length = right.length - width := by
    omega
  simp only [lastN, drop_append, length_append, rightIndex]
  congr 1
  by_cases short : right.length ≤ width
  · congr 1
    omega
  · rw [drop_eq_nil_of_le (by omega), drop_eq_nil_of_le (by omega)]

theorem last_n_last_n (narrow wide : Nat) (items : List Item) (le : narrow ≤ wide) :
    lastN narrow (lastN wide items) = lastN narrow items := by
  simp only [lastN, drop_drop, length_drop]
  congr 1
  omega

theorem suffix_last_n {tail items : List Item} {width : Nat}
    (suffix : tail <:+ items) (short : tail.length ≤ width) : tail <:+ lastN width items := by
  obtain ⟨front, rfl⟩ := suffix
  rw [last_n_append]
  simp [lastN, Nat.sub_eq_zero_of_le short]

/-- Cutting a text in two loses no occurrence of a pattern of at most `width`
items: it lies left of the cut, right of it, or within `width` items around it. -/
theorem infix_append_window (pattern left right : List Item) (width : Nat)
    (short : pattern.length ≤ width) :
    pattern <:+: left ++ right ↔
      pattern <:+: left ∨ pattern <:+: lastN width left ++ right.take width ∨
        pattern <:+: right := by
  constructor
  · rintro ⟨before, after, split⟩
    rw [append_assoc, append_eq_append_iff] at split
    rcases split with ⟨middle, leftEq, rest⟩ | ⟨middle, beforeEq, rightEq⟩
    · rw [append_eq_append_iff] at rest
      rcases rest with ⟨tail, middleEq, afterEq⟩ | ⟨tail, patternEq, rightEq⟩
      · exact .inl ⟨before, tail, by rw [leftEq, middleEq, append_assoc]⟩
      -- the pattern straddles the cut: `middle` ends the left part, `tail` starts the right
      refine .inr (.inl ?_)
      have sizes : middle.length + tail.length ≤ width := by
        rw [patternEq, length_append] at short
        exact short
      have middleSuffix : middle <:+ left := ⟨before, leftEq.symm⟩
      have middleSize : middle.length ≤ width := by omega
      obtain ⟨front, frontEq⟩ := suffix_last_n middleSuffix middleSize
      refine ⟨front, after.take (width - tail.length), ?_⟩
      have tailTake : tail.take width = tail := take_of_length_le (by omega)
      rw [patternEq, rightEq, take_append, tailTake, ← frontEq]
      simp
    · exact .inr (.inr ⟨middle, after, by rw [rightEq, append_assoc]⟩)
  · rintro (inLeft | inWindow | inRight)
    · exact inLeft.trans (prefix_append _ _).isInfix
    · refine inWindow.trans ?_
      obtain ⟨front, frontEq⟩ : lastN width left <:+ left := drop_suffix _ _
      refine ⟨front, right.drop width, ?_⟩
      rw [← append_assoc front, frontEq, append_assoc, take_append_drop]
    · exact inRight.trans (suffix_append _ _).isInfix

end Occurrences

end Bsd.Lib.Occurrences
