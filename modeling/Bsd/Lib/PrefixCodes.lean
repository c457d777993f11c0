import Mathlib.Data.List.Basic

/-!
# Prefix codes

In a prefix code, the code of a value can be told from whatever follows it. Lists
of such codes with a separator and an end mark form a prefix code again.
-/

namespace Bsd.Lib.PrefixCodes

open List

variable {Symbol Value : Type*}

/-- The codes of good values are told from what follows them. -/
def PrefixCode (good : Value → Prop) (code : Value → List Symbol) : Prop :=
  ∀ left right, good left → good right → ∀ moreLeft moreRight,
    code left ++ moreLeft = code right ++ moreRight → left = right ∧ moreLeft = moreRight

theorem intercalate_cons_eq (separator : Symbol) (first : List Symbol) (rest : List (List Symbol)) :
    [separator].intercalate (first :: rest) =
      first ++ rest.flatMap fun text => [separator] ++ text := by
  induction rest generalizing first with
  | nil => rw [intercalate_singleton, flatMap_nil, append_nil]
  | cons second rest ih =>
    rw [intercalate_cons_cons, ih, flatMap_cons, append_assoc, append_assoc]

theorem prefix_code_marked (mark : Symbol) :
    PrefixCode (fun text : List Symbol => mark ∉ text) fun text => text ++ [mark] := by
  intro left
  induction left with
  | nil =>
    intro right _ rightPlain moreLeft moreRight same
    cases right with
    | nil => exact ⟨rfl, (cons.inj same).2⟩
    | cons first right =>
      rw [(cons.inj same).1] at rightPlain
      exact absurd mem_cons_self rightPlain
  | cons first left ih =>
    intro right leftPlain rightPlain moreLeft moreRight same
    cases right with
    | nil =>
      rw [(cons.inj same).1] at leftPlain
      exact absurd mem_cons_self leftPlain
    | cons other right =>
      obtain ⟨sameFirst, later⟩ := cons.inj same
      obtain ⟨sameRest, sameMore⟩ := ih right
        (fun member => leftPlain (mem_cons_of_mem _ member))
        (fun member => rightPlain (mem_cons_of_mem _ member)) moreLeft moreRight later
      exact ⟨by rw [sameFirst, sameRest], sameMore⟩

theorem prefix_code_list {good : Value → Prop} {code : Value → List Symbol}
    (isCode : PrefixCode good code) (stops : List Symbol → Prop)
    (apart : ∀ value, good value → ∀ more, ¬stops (code value ++ more)) {left right : List Value}
    (leftGood : ∀ value ∈ left, good value) (rightGood : ∀ value ∈ right, good value)
    {leftTail rightTail : List Symbol} (leftStops : stops leftTail) (rightStops : stops rightTail)
    (same : left.flatMap code ++ leftTail = right.flatMap code ++ rightTail) :
    left = right ∧ leftTail = rightTail := by
  induction left generalizing right with
  | nil =>
    cases right with
    | nil => exact ⟨rfl, same⟩
    | cons value right =>
      rw [flatMap_nil, nil_append, flatMap_cons, append_assoc] at same
      rw [same] at leftStops
      exact absurd leftStops (apart value (rightGood value mem_cons_self) _)
  | cons first left ih =>
    rw [flatMap_cons, append_assoc] at same
    cases right with
    | nil =>
      rw [flatMap_nil, nil_append] at same
      rw [← same] at rightStops
      exact absurd rightStops (apart first (leftGood first mem_cons_self) _)
    | cons value right =>
      rw [forall_mem_cons] at leftGood rightGood
      rw [flatMap_cons, append_assoc] at same
      obtain ⟨sameFirst, later⟩ := isCode first value leftGood.1 rightGood.1 _ _ same
      obtain ⟨sameRest, sameTail⟩ := ih leftGood.2 rightGood.2 later
      exact ⟨by rw [sameFirst, sameRest], sameTail⟩

section

variable {good : Value → Prop} {code : Value → List Symbol} {separator last : Symbol}

theorem prefix_code_more (isCode : PrefixCode good code) (differ : separator ≠ last) :
    PrefixCode (fun values : List Value => ∀ value ∈ values, good value)
      (fun values => (values.flatMap fun value => [separator] ++ code value) ++ [last]) := by
  intro left right leftGood rightGood moreLeft moreRight same
  have separated : PrefixCode good fun value => [separator] ++ code value := by
    intro one other oneGood otherGood moreOne moreOther same
    simp only [append_assoc] at same
    exact isCode one other oneGood otherGood _ _ (append_cancel_left same)
  simp only [append_assoc] at same
  obtain ⟨sameValues, sameTail⟩ := prefix_code_list separated (fun text => text.head? = some last)
    (by simpa using fun _ _ => differ) leftGood rightGood rfl rfl same
  exact ⟨sameValues, (cons.inj sameTail).2⟩

theorem prefix_code_joined (isCode : PrefixCode good code) (differ : separator ≠ last)
    (starts : ∀ value, good value → ∃ first rest, code value = first :: rest ∧ first ≠ last) :
    PrefixCode (fun values : List Value => ∀ value ∈ values, good value)
      (fun values => [separator].intercalate (values.map code) ++ [last]) := by
  have notEnd : ∀ value, good value → ∀ more other, code value ++ more ≠ last :: other := by
    intro value isGood more other same
    obtain ⟨first, rest, shape, notLast⟩ := starts value isGood
    rw [shape] at same
    exact notLast (cons.inj same).1
  intro left right leftGood rightGood moreLeft moreRight same
  cases left with
  | nil =>
    cases right with
    | nil => exact ⟨rfl, (cons.inj same).2⟩
    | cons value right =>
      simp only [map_cons, intercalate_cons_eq, append_assoc] at same
      exact absurd same.symm (notEnd value (rightGood value mem_cons_self) _ _)
  | cons first left =>
    cases right with
    | nil =>
      simp only [map_cons, intercalate_cons_eq, append_assoc] at same
      exact absurd same (notEnd first (leftGood first mem_cons_self) _ _)
    | cons value right =>
      rw [forall_mem_cons] at leftGood rightGood
      simp only [map_cons, intercalate_cons_eq, flatMap_map, append_assoc] at same
      obtain ⟨sameFirst, later⟩ := isCode first value leftGood.1 rightGood.1 _ _ same
      obtain ⟨sameRest, sameMore⟩ := prefix_code_more isCode differ left right leftGood.2
        rightGood.2 moreLeft moreRight (by simpa using later)
      exact ⟨by rw [sameFirst, sameRest], sameMore⟩

end

end Bsd.Lib.PrefixCodes
