import Mathlib
import Bsd.Lib.Decimals

/-!
# Comparing versions

`compareVersions` walks through two versions component by component; a version that has
come to its end goes on with empty components. The components have a rank in a linear
order: `pre`, then the words with the empty one first, then what fits into an `int`.
-/

namespace Bsd.Store.Versions

open List Ordering Lib.Occurrences Lib.Decimals

/-- `string2Int<int>`: `boost::lexical_cast` takes a sign and digits, all of the text. -/
def string2Int (text : Bytes) : Option Int :=
  let negative := text.take 1 = [45]
  let digits := if negative ∨ text.take 1 = [43] then text.drop 1 else text
  let number : Int := if negative then -digitsValue 10 digits else digitsValue 10 digits
  if digits ≠ [] ∧ digits.all isDigit ∧ -2147483648 ≤ number ∧ number ≤ 2147483647 then some number
  else none

def isSeparator (byte : Byte) : Bool := byte = 46 || byte = 45

def isWordByte (byte : Byte) : Bool := !isDigit byte && !isSeparator byte

def nextComponent (version : Bytes) : Bytes × Bytes :=
  match version.dropWhile isSeparator with
  | [] => ([], [])
  | first :: rest =>
    if isDigit first then
      ((first :: rest).takeWhile isDigit, (first :: rest).dropWhile isDigit)
    else ((first :: rest).takeWhile isWordByte, (first :: rest).dropWhile isWordByte)

def componentsLT (c1 c2 : Bytes) : Bool :=
  match string2Int c1, string2Int c2 with
  | some n1, some n2 => n1 < n2
  | n1, n2 =>
    if c1 = [] ∧ n2.isSome then true
    else if c1 = ascii "pre" ∧ c2 ≠ ascii "pre" then true
    else if c2 = ascii "pre" then false
    else if n2.isSome then true
    else if n1.isSome then false
    else c1 < c2

theorem next_component_length (version : Bytes) :
    (nextComponent version).2.length ≤ version.length - 1 := by
  have skipped := (dropWhile_suffix isSeparator (l := version)).length_le
  rw [nextComponent]
  cases start : version.dropWhile isSeparator with
  | nil => exact Nat.zero_le _
  | cons first rest =>
    rw [start, length_cons] at skipped
    have shorter (kind : Byte → Bool) (isFirst : kind first = true) :
        ((first :: rest).dropWhile kind).length ≤ version.length - 1 := by
      rw [dropWhile_cons_of_pos isFirst]
      have := (dropWhile_suffix kind (l := rest)).length_le
      omega
    have notSeparator : isSeparator first = false := by
      simpa [start] using head_dropWhile_not isSeparator (l := version)
    dsimp only
    split
    next digit => exact shorter isDigit digit
    next word => exact shorter isWordByte (by simp [isWordByte, word, notSeparator])

def compareVersions (v1 v2 : Bytes) : Ordering :=
  if v1 = [] ∧ v2 = [] then .eq
  else if componentsLT (nextComponent v1).1 (nextComponent v2).1 then .lt
  else if componentsLT (nextComponent v2).1 (nextComponent v1).1 then .gt
  else compareVersions (nextComponent v1).2 (nextComponent v2).2
termination_by v1.length + v2.length
decreasing_by
  have first := next_component_length v1
  have second := next_component_length v2
  rename_i more _ _
  rw [← length_eq_zero_iff, ← length_eq_zero_iff] at more
  omega

def kind (component : Bytes) : Bytes ⊕ₗ Int :=
  match string2Int component with
  | some number => Sum.inrₗ number
  | none => Sum.inlₗ component

def rank (component : Bytes) : WithBot (Bytes ⊕ₗ Int) :=
  if component = ascii "pre" then ⊥ else kind component

theorem components_lt_iff (c1 c2 : Bytes) : componentsLT c1 c2 = true ↔ rank c1 < rank c2 := by
  have noNumber : string2Int (ascii "pre") = none := by decide
  rw [componentsLT, rank, rank]
  by_cases first : c1 = ascii "pre"
  · rw [first, noNumber]
    by_cases second : c2 = ascii "pre"
    · simp [second, noNumber]
    · simp [second]
  rw [if_neg first]
  by_cases second : c2 = ascii "pre"
  · simp [second, noNumber]
  rw [if_neg second, kind, kind]
  cases number1 : string2Int c1 with
  | none =>
    cases number2 : string2Int c2 with
    | none => simp [first, second]
    | some n2 => simp [second]
  | some n1 =>
    cases number2 : string2Int c2 with
    | none => simp [first]
    | some n2 => simp

def ranks (version : Bytes) : Nat → WithBot (Bytes ⊕ₗ Int)
  | 0 => rank (nextComponent version).1
  | index + 1 => ranks (nextComponent version).2 index

theorem lex_tail {Rank : Type*} [LT Rank] {first second : Nat → Rank} (same : first 0 = second 0)
    (tail : toLex (fun index => first (index + 1)) < toLex fun index => second (index + 1)) :
    toLex first < toLex second := by
  obtain ⟨index, before, less⟩ := tail
  refine ⟨index + 1, ?_, less⟩
  intro earlier small
  cases earlier with
  | zero => exact same
  | succ earlier => exact before earlier (Nat.lt_of_succ_lt_succ small)

theorem compare_versions_compares (v1 v2 : Bytes) :
    (compareVersions v1 v2).Compares (toLex (ranks v1)) (toLex (ranks v2)) := by
  fun_induction compareVersions v1 v2 with
  | case1 v1 v2 ended => rw [ended.1, ended.2]; rfl
  | case2 v1 v2 more less =>
    exact ⟨0, nofun, (components_lt_iff _ _).mp less⟩
  | case3 v1 v2 more notLess greater =>
    exact ⟨0, nofun, (components_lt_iff _ _).mp greater⟩
  | case4 v1 v2 more notLess notGreater ih =>
    have same : ranks v1 0 = ranks v2 0 := by
      rw [components_lt_iff, not_lt] at notLess notGreater
      exact le_antisymm notGreater notLess
    cases result : compareVersions (nextComponent v1).2 (nextComponent v2).2 with
    | lt =>
      rw [result] at ih
      exact lex_tail same ih
    | gt =>
      rw [result] at ih
      exact lex_tail same.symm ih
    | eq =>
      rw [result] at ih
      funext index
      cases index with
      | zero => exact same
      | succ index => exact congrFun (toLex.injective ih) index

/-- Comparing versions is a total preorder: versions compare as the sequences of the ranks of
their components do. Distinct texts may compare as equal. -/
theorem compare_versions_preorder : (∀ v w, compareVersions w v = (compareVersions v w).swap) ∧
    Equivalence (fun v w => compareVersions v w = .eq) ∧
    (∀ u v w, compareVersions u v = .lt → compareVersions v w = .lt → compareVersions u w = .lt) ∧
    ∀ u v w, compareVersions u v = .eq → compareVersions u w = compareVersions v w := by
  have isLess (v w) : compareVersions v w = .lt ↔ toLex (ranks v) < toLex (ranks w) :=
    (compare_versions_compares v w).eq_lt
  have isEqual (v w) : compareVersions v w = .eq ↔ toLex (ranks v) = toLex (ranks w) :=
    (compare_versions_compares v w).eq_eq
  simp only [isLess, isEqual]
  refine ⟨?_, ?_, fun u v w => lt_trans, ?_⟩
  · intro v w
    exact (compare_versions_compares w v).inj (compares_swap.mpr (compare_versions_compares v w))
  · exact ⟨fun v => rfl, Eq.symm, Eq.trans⟩
  · intro u v w same
    apply (compare_versions_compares u w).inj
    rw [same]
    exact compare_versions_compares v w

structure Number where
  first : Byte
  rest : Bytes
  digits : ∀ byte ∈ first :: rest, isDigit byte = true

def Number.text (number : Number) : Bytes := number.first :: number.rest

def Number.value (number : Number) : Nat := digitsValue 10 number.text

def dotted (numbers : List Number) : Bytes := numbers.flatMap fun number => 46 :: number.text

def version (numbers : List Number) : Bytes := (dotted numbers).drop 1

theorem Number.first_plain (number : Number) : isSeparator number.first = false ∧
    number.first ≠ 43 ∧ number.first ≠ 45 ∧ number.first ≠ 112 := by
  have digit := number.digits number.first mem_cons_self
  simp [isDigit] at digit
  simp [isSeparator, Fin.ext_iff]
  omega

theorem next_component_number {number : Number} {numbers : List Number} {text : Bytes}
    (written : text = dotted (number :: numbers) ∨ text = version (number :: numbers)) :
    text ≠ [] ∧ nextComponent text = (number.text, dotted numbers) := by
  have ended : (dotted numbers).takeWhile isDigit = [] ∧
      (dotted numbers).dropWhile isDigit = dotted numbers := by
    cases numbers with
    | nil | cons number numbers => exact ⟨rfl, rfl⟩
  have skipped : text ≠ [] ∧ text.dropWhile isSeparator = number.text ++ dotted numbers := by
    rcases written with rfl | rfl <;>
      simp [version, dotted, Number.text, number.first_plain, show isSeparator 46 = true from rfl]
  refine ⟨skipped.1, ?_⟩
  rw [nextComponent, skipped.2]
  dsimp only [Number.text, cons_append]
  rw [if_pos (number.digits _ mem_cons_self), ← cons_append,
    takeWhile_append_of_pos number.digits, dropWhile_append_of_pos number.digits, ended.1, ended.2,
    append_nil]

theorem string2_int_number (number : Number) : string2Int number.text =
    if number.value < 2147483648 then some (number.value : Int) else none := by
  obtain ⟨_, notPlus, notMinus, _⟩ := number.first_plain
  have digits : number.text.all isDigit = true := all_eq_true.mpr number.digits
  have unsigned : number.text.take 1 ≠ [45] ∧ number.text.take 1 ≠ [43] := by
    simp [Number.text, notPlus, notMinus]
  simp only [string2Int, unsigned, or_self, if_false, digits, true_and]
  apply if_congr _ rfl rfl
  have nonempty : number.text ≠ [] := cons_ne_nil _ _
  rw [Number.value, and_iff_right nonempty]
  omega

theorem Number.text_ne_pre (number : Number) : number.text ≠ ascii "pre" := fun word =>
  number.first_plain.2.2.2 (cons.inj word).1

theorem components_lt_number (first second : Number) : componentsLT first.text second.text = true ↔
      if first.value < 2147483648 ∧ second.value < 2147483648 then first.value < second.value
      else second.value < 2147483648 ∨ 2147483648 ≤ first.value ∧ first.text < second.text := by
  rw [componentsLT, string2_int_number, string2_int_number]
  by_cases small1 : first.value < 2147483648 <;> by_cases small2 : second.value < 2147483648 <;>
    simp [small1, small2, Number.text_ne_pre, Nat.not_lt.mp]

theorem components_lt_empty (number : Number) :
    componentsLT [] number.text = true ∧ componentsLT number.text [] = false := by
  have noWord : [] ≠ ascii "pre" := by decide
  have less : [] < number.text := nil_lt_cons _ _
  rw [componentsLT, componentsLT, show string2Int [] = none from rfl]
  by_cases small : number.value < 2147483648 <;> simp [number.text_ne_pre, less]

def compareNumbers : List Number → List Number → Ordering
  | [], [] => .eq
  | [], _ :: _ => .lt
  | _ :: _, [] => .gt
  | first :: numbers1, second :: numbers2 =>
    (compare first.value second.value).then (compareNumbers numbers1 numbers2)

/-- The first components that differ are numbers below 2 ^ 31, or neither of them is and
their texts stand in the order of the versions. -/
def ToldApart : List Number → List Number → Prop
  | first :: numbers1, second :: numbers2 =>
    if first.value < 2147483648 ∧ second.value < 2147483648 ∨ first.text = second.text then
      first.value = second.value → ToldApart numbers1 numbers2
    else 2147483648 ≤ first.value ∧ 2147483648 ≤ second.value ∧
      (if first.text < second.text then .lt else .gt) =
        compareNumbers (first :: numbers1) (second :: numbers2)
  | _, _ => True

theorem compare_versions_numbers {numbers1 numbers2 : List Number} {v1 v2 : Bytes}
    (written1 : v1 = dotted numbers1 ∨ v1 = version numbers1)
    (written2 : v2 = dotted numbers2 ∨ v2 = version numbers2) :
    compareVersions v1 v2 = compareNumbers numbers1 numbers2 ↔ ToldApart numbers1 numbers2 := by
  induction numbers1 generalizing numbers2 v1 v2 with
  | nil =>
    have ended : v1 = [] := or_self_iff.mp written1
    cases numbers2 with
    | nil =>
      rw [ended, show v2 = [] from or_self_iff.mp written2, compareVersions]
      simp [compareNumbers, ToldApart]
    | cons second numbers2 =>
      obtain ⟨more, next⟩ := next_component_number written2
      rw [compareVersions, if_neg fun both => more both.2, next, ended]
      simp [show nextComponent [] = ([], []) from rfl, components_lt_empty, compareNumbers, ToldApart]
  | cons first numbers1 ih =>
    obtain ⟨more, next⟩ := next_component_number written1
    rw [compareVersions, if_neg fun both => more both.1, next]
    cases numbers2 with
    | nil =>
      rw [show v2 = [] from or_self_iff.mp written2]
      simp [show nextComponent [] = ([], []) from rfl, components_lt_empty, compareNumbers, ToldApart]
    | cons second numbers2 =>
      simp only [(next_component_number written2).2, components_lt_number, ToldApart, compareNumbers]
      by_cases same : first.text = second.text
      · simp [Number.value, same, ih]
      by_cases small1 : first.value < 2147483648 <;>
        by_cases small2 : second.value < 2147483648
      · rcases lt_trichotomy first.value second.value with less | equal | greater
        · simp [small1, small2, less, Nat.compare_eq_lt.mpr less, less.ne]
        · simp [small2, equal, ih]
        · simp [small1, small2, greater, Nat.compare_eq_gt.mpr greater, greater.ne', not_lt_of_gt greater]
      · have less : first.value < second.value := by omega
        simp [small1, small2, same, Nat.compare_eq_lt.mpr less]
      · have greater : second.value < first.value := by omega
        simp [small1, small2, same, Nat.compare_eq_gt.mpr greater]
      · have large1 := not_lt.mp small1
        have large2 := not_lt.mp small2
        rcases lt_trichotomy first.text second.text with less | equal | greater
        · simp [large1, large2, same, less]
        · exact absurd equal same
        · have notLess := lt_asymm greater
          simp [small2, large1, large2, same, greater]

/-- Versions made of numbers compare as the numbers do exactly if the numbers are told apart:
those that do not fit into an `int` are compared as texts. -/
theorem numeric_versions_iff (numbers1 numbers2 : List Number) :
    compareVersions (version numbers1) (version numbers2) = compareNumbers numbers1 numbers2 ↔
      ToldApart numbers1 numbers2 :=
  compare_versions_numbers (.inr rfl) (.inr rfl)

/-- A number that does not fit into an `int` comes before the numbers that do. -/
theorem large_number_below_one : compareVersions (ascii "2147483648") (ascii "1") = .lt := by
  rw [compareVersions, if_neg (by decide), if_pos (by decide)]

end Bsd.Store.Versions
