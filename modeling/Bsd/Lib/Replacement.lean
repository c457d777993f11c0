import Bsd.Lib.Occurrences

/-!
# Replacing texts in place

A rule replaces one text by another of the same size. Replacing everywhere is a list of steps,
each of which looks at one place. Steps at places that do not overlap commute, and so do steps
whose texts disagree wherever they overlap; a list of steps can then be cut in two, so that the
text before the cut is finished before the text behind it is known.
-/

namespace Bsd.Lib.Replacement

open List Lib.Occurrences

section Texts

variable {Item : Type*}

/-- At the offsets `start` and `other` the texts overlap, and they agree where they do. -/
def Meets (left : List Item) (start : Nat) (right : List Item) (other : Nat) : Prop :=
  start < other + right.length ∧ other < start + left.length ∧
    ∀ place, start ≤ place → place < start + left.length →
      other ≤ place → place < other + right.length → left[place - start]? = right[place - other]?

variable {left right text : List Item} {start other : Nat}

theorem meets_of_occurs (first : OccursAt left text start) (second : OccursAt right text other)
    (before : start < other + right.length) (behind : other < start + left.length) :
    Meets left start right other := by
  refine ⟨before, behind, ?_⟩
  intro place lower upper otherLower otherUpper
  rw [← occurs_at_iff_places.mp first place lower upper,
    occurs_at_iff_places.mp second place otherLower otherUpper]

theorem Meets.symm (meets : Meets left start right other) : Meets right other left start :=
  ⟨meets.2.1, meets.1, fun place lower upper otherLower otherUpper =>
    (meets.2.2 place otherLower otherUpper lower upper).symm⟩

theorem not_meets_of_disjoint (nonempty : left ≠ []) (otherNonempty : right ≠ [])
    (disjoint : ∀ item ∈ left, item ∉ right) (start other : Nat) :
    ¬Meets left start right other := by
  rintro ⟨before, behind, agree⟩
  have positive := length_pos_iff.mpr nonempty
  have otherPositive := length_pos_iff.mpr otherNonempty
  have inside : max start other - start < left.length := by omega
  have same := agree (max start other) (by omega) (by omega) (by omega) (by omega)
  rw [getElem?_eq_getElem inside] at same
  exact disjoint _ (getElem_mem inside) (mem_of_getElem? same.symm)

/-- A text that runs into another one of the same size stands before it in a text made of both. -/
theorem Meets.occurs {shift : Nat} (meets : Meets left start right (start + shift))
    (size : left.length = right.length) :
    OccursAt right (left ++ right.drop (left.length - shift)) shift := by
  obtain ⟨-, behind, agree⟩ := meets
  rw [occurs_at_iff_places]
  intro place lower upper
  by_cases inside : place < left.length
  · have same := agree (start + place) (by omega) (by omega) (by omega) (by omega)
    rw [Nat.add_sub_cancel_left, Nat.add_sub_add_left] at same
    rw [getElem?_append_left inside, same]
  · rw [getElem?_append_right (by omega), getElem?_drop]
    congr 1
    omega

abbrev Rule (Item : Type*) := List Item × List Item

variable [DecidableEq Item] {rule first second : Rule Item}

def replaceAt (rule : Rule Item) (start : Nat) (text : List Item) : List Item :=
  if OccursAt rule.1 text start then
    text.take start ++ rule.2 ++ text.drop (start + rule.1.length)
  else text

theorem replace_at_absent (absent : ¬OccursAt rule.1 text start) :
    replaceAt rule start text = text :=
  if_neg absent

section

variable (size : rule.1.length = rule.2.length)

include size

theorem replace_at_place (place : Nat) : (replaceAt rule start text)[place]? =
      if OccursAt rule.1 text start ∧ start ≤ place ∧ place < start + rule.1.length then
        rule.2[place - start]?
      else text[place]? := by
  by_cases occurs : OccursAt rule.1 text start
  · rw [replaceAt, if_pos occurs]
    by_cases empty : rule.1 = []
    · have nothing : rule.2 = [] := by
        rw [← length_eq_zero_iff, ← size, empty, length_nil]
      have outside : ¬(start ≤ place ∧ place < start + rule.1.length) := by
        rw [empty, length_nil]
        omega
      rw [if_neg fun both => outside both.2, nothing, empty, append_nil, length_nil, Nat.add_zero,
        take_append_drop]
    · have fits := occurs_at_bound occurs empty
      have front : (text.take start).length = start := length_take_of_le (by omega)
      simp only [getElem?_append, length_append, front, getElem?_take, getElem?_drop, occurs,
        true_and]
      grind
  · rw [replace_at_absent occurs, if_neg fun both => occurs both.1]

theorem replace_at_length : (replaceAt rule start text).length = text.length := by
  by_cases occurs : OccursAt rule.1 text start
  · have fits := occurs.length_le
    rw [replaceAt, if_pos occurs]
    simp only [length_append, length_take, length_drop] at fits ⊢
    omega
  · rw [replace_at_absent occurs]

theorem occurs_replaced (occurs : OccursAt rule.1 text start) :
    OccursAt rule.2 (replaceAt rule start text) start := by
  rw [occurs_at_iff_places]
  intro place lower upper
  rw [replace_at_place size, if_pos ⟨occurs, lower, by omega⟩]

theorem not_occurs_replaced (differ : rule.1 ≠ rule.2) :
    ¬OccursAt rule.1 (replaceAt rule start text) start := by
  by_cases occurs : OccursAt rule.1 text start
  · intro again
    have new := occurs_replaced size occurs
    rw [occurs_at_iff_take] at again new
    rw [← size, again] at new
    exact differ new
  · rwa [replace_at_absent occurs]

theorem occurs_disjoint_iff (disjoint : start + rule.1.length ≤ other ∨ other + left.length ≤ start) :
    OccursAt left (replaceAt rule start text) other ↔ OccursAt left text other := by
  rw [occurs_at_iff_places, occurs_at_iff_places]
  refine forall₃_congr fun place lower upper => ?_
  rw [replace_at_place size, if_neg (by omega)]

/-- A step makes no occurrence of a text that the new text of the rule does not agree with. -/
theorem occurs_of_replaced (unmet : ¬Meets left other rule.2 start)
    (occurs : OccursAt left (replaceAt rule start text) other) : OccursAt left text other := by
  by_cases fires : OccursAt rule.1 text start
  · by_cases disjoint : start + rule.1.length ≤ other ∨ other + left.length ≤ start
    · exact (occurs_disjoint_iff size disjoint).mp occurs
    · exact absurd (meets_of_occurs occurs (occurs_replaced size fires) (by omega) (by omega)) unmet
  · rwa [replace_at_absent fires] at occurs

end

/-- The second rule's texts, laid over the first rule's so that they end first, disagree with
them, unless both are new. -/
def Apart (first second : Rule Item) : Prop :=
  ∀ start other, other + second.1.length < start + first.1.length →
    ¬Meets second.1 other first.1 start ∧ ¬Meets second.1 other first.2 start ∧
      ¬Meets second.2 other first.1 start

section

variable (size : first.1.length = first.2.length) (otherSize : second.1.length = second.2.length)

include size otherSize

theorem replace_disjoint_comm
    (disjoint : start + first.1.length ≤ other ∨ other + second.1.length ≤ start) :
    replaceAt second other (replaceAt first start text) =
      replaceAt first start (replaceAt second other text) := by
  have firstSame : OccursAt first.1 (replaceAt second other text) start ↔ OccursAt first.1 text start :=
    occurs_disjoint_iff otherSize (by omega)
  have secondSame : OccursAt second.1 (replaceAt first start text) other ↔
      OccursAt second.1 text other :=
    occurs_disjoint_iff size disjoint
  apply ext_getElem?
  intro place
  rw [replace_at_place otherSize, replace_at_place size, replace_at_place size,
    replace_at_place otherSize]
  simp only [firstSame, secondSame]
  by_cases inFirst : OccursAt first.1 text start ∧ start ≤ place ∧ place < start + first.1.length
  · rw [if_pos inFirst, if_pos inFirst, if_neg (by omega)]
  · rw [if_neg inFirst, if_neg inFirst]

theorem replace_at_comm (apart : Apart first second)
    (endsFirst : other + second.1.length < start + first.1.length) :
    replaceAt second other (replaceAt first start text) =
      replaceAt first start (replaceAt second other text) := by
  obtain ⟨keys, newFirst, newSecond⟩ := apart start other endsFirst
  by_cases disjoint : start + first.1.length ≤ other ∨ other + second.1.length ≤ start
  · exact replace_disjoint_comm size otherSize disjoint
  by_cases fires : OccursAt first.1 text start
  · -- the second rule does not fire here, neither before the first one nor after it
    have absent : ¬OccursAt second.1 text other := fun occurs =>
      keys (meets_of_occurs occurs fires (by omega) (by omega))
    rw [replace_at_absent absent, replace_at_absent fun occurs =>
      absent (occurs_of_replaced size newFirst occurs)]
  · have still : ¬OccursAt first.1 (replaceAt second other text) start := by
      by_cases occurs : OccursAt second.1 text other
      · intro again
        exact newSecond (meets_of_occurs (occurs_replaced otherSize occurs) again (by omega) (by omega))
      · rwa [replace_at_absent occurs]
    rw [replace_at_absent fires, replace_at_absent still]

end

def run (steps : List (Rule Item × Nat)) (text : List Item) : List Item :=
  steps.foldl (fun text step => replaceAt step.1 step.2 text) text

variable {steps others : List (Rule Item × Nat)}

theorem run_cons (step : Rule Item × Nat) (steps : List (Rule Item × Nat)) (text : List Item) :
    run (step :: steps) text = run steps (replaceAt step.1 step.2 text) := rfl

theorem run_append (steps others : List (Rule Item × Nat)) (text : List Item) :
    run (steps ++ others) text = run others (run steps text) :=
  foldl_append

theorem run_idle (idle : ∀ step ∈ steps, ¬OccursAt step.1.1 text step.2) : run steps text = text := by
  induction steps with
  | nil => rfl
  | cons step steps ih =>
    rw [forall_mem_cons] at idle
    rw [run_cons, replace_at_absent idle.1, ih idle.2]

theorem run_length (sizes : ∀ step ∈ steps, step.1.1.length = step.1.2.length) :
    (run steps text).length = text.length := by
  induction steps generalizing text with
  | nil => rfl
  | cons step steps ih =>
    rw [forall_mem_cons] at sizes
    rw [run_cons, ih sizes.2, replace_at_length sizes.1]

theorem run_absent {pattern : List Item} (sizes : ∀ step ∈ steps, step.1.1.length = step.1.2.length)
    (unmet : ∀ step ∈ steps, ¬Meets pattern other step.1.2 step.2)
    (absent : ¬OccursAt pattern text other) : ¬OccursAt pattern (run steps text) other := by
  induction steps generalizing text with
  | nil => exact absent
  | cons step steps ih =>
    rw [forall_mem_cons] at sizes unmet
    exact ih sizes.2 unmet.2 fun occurs => absent (occurs_of_replaced sizes.1 unmet.1 occurs)

/-- Two lists of steps commute if each step of one commutes with each step of the other. -/
theorem run_comm (commute : ∀ step ∈ steps, ∀ later ∈ others, ∀ text,
      replaceAt later.1 later.2 (replaceAt step.1 step.2 text) =
        replaceAt step.1 step.2 (replaceAt later.1 later.2 text)) (text : List Item) :
    run others (run steps text) = run steps (run others text) := by
  have single : ∀ step ∈ steps, ∀ text, run others (replaceAt step.1 step.2 text) =
      replaceAt step.1 step.2 (run others text) := by
    intro step member
    have commutes := commute step member
    clear commute
    induction others with
    | nil => exact fun _ => rfl
    | cons later others ih =>
      intro text
      rw [forall_mem_cons] at commutes
      rw [run_cons, run_cons, commutes.1, ih commutes.2]
  clear commute
  induction steps generalizing text with
  | nil => rfl
  | cons step steps ih =>
    rw [forall_mem_cons] at single
    rw [run_cons, run_cons, ih _ single.2, single.1]

/-- Steps that fit into the left part leave the right part alone. -/
theorem run_append_left (sizes : ∀ step ∈ steps, step.1.1.length = step.1.2.length)
    (fit : ∀ step ∈ steps, step.2 + step.1.1.length ≤ text.length) (more : List Item) :
    run steps (text ++ more) = run steps text ++ more := by
  induction steps generalizing text with
  | nil => rfl
  | cons step steps ih =>
    rw [forall_mem_cons] at sizes fit
    have here : replaceAt step.1 step.2 (text ++ more) = replaceAt step.1 step.2 text ++ more := by
      rw [replaceAt, replaceAt]
      by_cases occurs : OccursAt step.1.1 text step.2
      · rw [if_pos ((occurs_at_append_left_iff fit.1).mpr occurs), if_pos occurs,
          take_append_of_le_length (by omega), drop_append_of_le_length fit.1, append_assoc]
        simp
      · rw [if_neg fun again => occurs ((occurs_at_append_left_iff fit.1).mp again), if_neg occurs]
    rw [run_cons, run_cons, here, ih sizes.2]
    rw [replace_at_length sizes.1]
    exact fit.2

def shifted (amount : Nat) (step : Rule Item × Nat) : Rule Item × Nat := (step.1, amount + step.2)

theorem run_append_right (front : List Item) (steps : List (Rule Item × Nat)) (text : List Item) :
    run (steps.map (shifted front.length)) (front ++ text) = front ++ run steps text := by
  induction steps generalizing text with
  | nil => rfl
  | cons step steps ih =>
    have here : replaceAt step.1 (front.length + step.2) (front ++ text) =
        front ++ replaceAt step.1 step.2 text := by
      rw [replaceAt, replaceAt]
      by_cases occurs : OccursAt step.1.1 text step.2
      · rw [if_pos ((occurs_at_append_right _ _ _ _).mpr occurs), if_pos occurs, Nat.add_assoc,
          take_length_add_append, drop_length_add_append, append_assoc, append_assoc, append_assoc]
      · rw [if_neg fun again => occurs ((occurs_at_append_right _ _ _ _).mp again), if_neg occurs]
    rw [map_cons, run_cons, run_cons, ← ih]
    exact congrArg (run _) here

end Texts

section Cuts

variable {Item : Type*}

def places (low size : Nat) (rule : Rule Item) : List (Rule Item × Nat) :=
  (range' low (size + 1 - rule.1.length - low)).map fun place => (rule, place)

def allPlaces (low size : Nat) (rules : List (Rule Item)) : List (Rule Item × Nat) :=
  rules.flatMap (places low size)

variable {low size : Nat} {rule : Rule Item} {rules : List (Rule Item)} {step : Rule Item × Nat}

theorem mem_places : step ∈ places low size rule ↔
      step.1 = rule ∧ low ≤ step.2 ∧ step.2 + rule.1.length < size + 1 := by
  obtain ⟨rule', place⟩ := step
  simp only [places, mem_map, mem_range'_1, Prod.mk.injEq]
  constructor
  · rintro ⟨found, bounds, rfl, rfl⟩
    exact ⟨rfl, by omega⟩
  · rintro ⟨rfl, lower, upper⟩
    exact ⟨place, by omega, rfl, rfl⟩

theorem mem_all_places : step ∈ allPlaces low size rules ↔
      step.1 ∈ rules ∧ low ≤ step.2 ∧ step.2 + step.1.1.length < size + 1 := by
  simp only [allPlaces, mem_flatMap, mem_places]
  constructor
  · rintro ⟨rule, member, rfl, bounds⟩
    exact ⟨member, bounds⟩
  · rintro ⟨member, bounds⟩
    exact ⟨step.1, member, rfl, bounds⟩

theorem places_split {middle : Nat} (lower : low ≤ middle)
    (upper : middle ≤ size + 1 - rule.1.length) :
    places low size rule = (range' low (middle - low)).map (fun place => (rule, place)) ++
      places middle size rule := by
  rw [places, places, ← map_append]
  congr 1
  have whole : size + 1 - rule.1.length - low =
      (middle - low) + (size + 1 - rule.1.length - middle) := by
    omega
  have behind : low + (middle - low) = middle := Nat.add_sub_cancel' lower
  rw [whole, ← range'_append_1, behind]

section

variable [DecidableEq Item] {text : List Item} (nonempty : rule.1 ≠ [])

include nonempty

theorem run_places_succ (low : Nat) : run (places low text.length rule) text =
      run (places (low + 1) text.length rule) (replaceAt rule low text) := by
  by_cases fits : low + rule.1.length ≤ text.length
  · rw [places_split (Nat.le_succ low) (by omega), Nat.succ_sub (Nat.le_refl low), Nat.sub_self]
    rfl
  · have absent : ¬OccursAt rule.1 text low := fun occurs => fits (occurs_at_bound occurs nonempty)
    have none : text.length + 1 - rule.1.length - low = 0 := by omega
    have noMore : text.length + 1 - rule.1.length - (low + 1) = 0 := by omega
    rw [replace_at_absent absent, places, places, none, noMore]
    rfl

theorem run_places_skip {low middle : Nat} (le : low ≤ middle)
    (absent : ∀ place, low ≤ place → place < middle → ¬OccursAt rule.1 text place) :
    run (places low text.length rule) text = run (places middle text.length rule) text := by
  induction middle, le using Nat.le_induction with
  | base => rfl
  | succ middle le ih =>
    rw [ih fun place lower upper => absent place lower (by omega), run_places_succ nonempty,
      replace_at_absent (absent middle le (Nat.lt_succ_self middle))]

end

/-- A rule that has been tried at all places does not occur at one of them any more, unless its
new text completes an occurrence that begins earlier. -/
theorem run_places_absent [DecidableEq Item] {text : List Item} {place : Nat}
    (sameSize : rule.1.length = rule.2.length) (differ : rule.1 ≠ rule.2)
    (fits : place + rule.1.length ≤ size) (unmet : ∀ other, place < other →
      other + rule.1.length ≤ size → ¬Meets rule.1 place rule.2 other) :
    ¬OccursAt rule.1 (run (places 0 size rule) text) place := by
  have upTo : places 0 size rule = (range' 0 place).map (fun place => (rule, place)) ++
      ((rule, place) :: places (place + 1) size rule) := by
    rw [places_split (Nat.zero_le place) (by omega), Nat.sub_zero,
      places_split (Nat.le_succ place) (by omega), Nat.succ_sub (Nat.le_refl place), Nat.sub_self]
    rfl
  rw [upTo, run_append, run_cons]
  refine run_absent ?_ ?_ (not_occurs_replaced sameSize differ)
  · intro step member
    rw [(mem_places.mp member).1]
    exact sameSize
  · intro step member
    obtain ⟨same, lower, upper⟩ := mem_places.mp member
    rw [same]
    exact unmet step.2 (by omega) (by omega)

/-- No rule undoes what another one needs, in the order of the list. A key shorter than
`width` is looked for again among the last `width - 1` items before a cut: no new text of its
own, further on, or of a later rule agrees with it there. -/
structure Undisturbed (rules : List (Rule Item)) (width : Nat) : Prop where
  apart : rules.Pairwise Apart
  own : ∀ rule ∈ rules, rule.1.length < width → ∀ start other, start < other →
    other + rule.1.length < start + width → ¬Meets rule.1 start rule.2 other
  later : rules.Pairwise fun rule later => rule.1.length < width → ∀ start other,
    other + later.1.length < start + width → ¬Meets rule.1 start later.2 other

/-- Once the places before the cut are done, it is enough to go on with the last `width - 1`
items before it: nothing is found there that has been looked for, and what is found behind
would have been replaced in the same way before the later rules came. -/
theorem run_resumed [DecidableEq Item] {width total : Nat} {text : List Item}
    (undisturbed : Undisturbed rules width)
    (sizes : ∀ rule ∈ rules, rule.1.length = rule.2.length) (differ : ∀ rule ∈ rules, rule.1 ≠ rule.2)
    (narrow : ∀ rule ∈ rules, rule.1.length ≤ width) (cut : size ≤ total) :
    run (allPlaces (size + 1 - width) total rules) (run (allPlaces 0 size rules) text) =
      run (allPlaces 0 total rules) text := by
  induction rules generalizing text with
  | nil => rfl
  | cons rule rules ih =>
    obtain ⟨apart, own, later⟩ := undisturbed
    rw [pairwise_cons] at apart later
    rw [forall_mem_cons] at sizes differ narrow own
    have isRule : ∀ {low : Nat} {size : Nat}, ∀ step ∈ places low size rule,
        step.1.1.length = step.1.2.length := by
      intro low size step member
      rw [(mem_places.mp member).1]
      exact sizes.1
    have isRest : ∀ {low : Nat} {size : Nat}, ∀ step ∈ allPlaces low size rules,
        step.1.1.length = step.1.2.length := fun step member =>
      sizes.2 _ (mem_all_places.mp member).1
    let new := places (size + 1 - rule.1.length) total rule
    let again := (range' (size + 1 - width) (size + 1 - rule.1.length - (size + 1 - width))).map
      fun place => (rule, place)
    have resumed : places (size + 1 - width) total rule = again ++ new :=
      places_split (by omega) (by omega)
    have whole : places 0 total rule = places 0 size rule ++ new :=
      places_split (Nat.zero_le _) (by omega)
    -- the places that are looked at again
    have nothing : ∀ text, run again (run (allPlaces 0 size rules) (run (places 0 size rule) text)) =
        run (allPlaces 0 size rules) (run (places 0 size rule) text) := by
      intro text
      apply run_idle
      intro step member
      obtain ⟨place, inside, rfl⟩ := mem_map.mp member
      rw [mem_range'_1] at inside
      have short : rule.1.length < width := by omega
      change ¬OccursAt rule.1 _ place
      refine run_absent isRest ?_ (run_places_absent sizes.1 differ.1 (by omega) ?_)
      · intro step member
        obtain ⟨isLater, -, upper⟩ := mem_all_places.mp member
        exact later.1 step.1 isLater short place step.2 (by omega)
      · intro other after fits
        exact own.1 short place other after (by omega)
    -- the places behind the cut come before the later rules
    have commute : ∀ text, run new (run (allPlaces 0 size rules) text) =
        run (allPlaces 0 size rules) (run new text) := by
      intro text
      refine (run_comm ?_ text).symm
      intro step member other otherMember text
      obtain ⟨same, lower, -⟩ := mem_places.mp member
      obtain ⟨isLater, -, upper⟩ := mem_all_places.mp otherMember
      have endsFirst : other.2 + other.1.1.length < step.2 + step.1.1.length := by
        rw [same]
        omega
      refine replace_at_comm (isRule step member) (isRest other otherMember) ?_ endsFirst
      rw [same]
      exact apart.1 other.1 isLater
    have rest : run (allPlaces (size + 1 - width) total rules)
        (run (allPlaces 0 size rules) (run new (run (places 0 size rule) text))) = _ :=
      ih ⟨apart.2, own.2, later.2⟩ sizes.2 differ.2 narrow.2
    simp only [allPlaces, flatMap_cons, run_append] at rest nothing commute ⊢
    rw [resumed, whole, run_append, run_append, nothing, commute, rest]

/-- Rules of one size whose old texts agree nowhere with a new one, and which change the first
item. -/
structure Plain (rules : List (Rule Item)) (width : Nat) : Prop where
  old : ∀ rule ∈ rules, rule.1.length = width
  new : ∀ rule ∈ rules, rule.2.length = width
  unmet : ∀ rule ∈ rules, ∀ other ∈ rules, ∀ start place, ¬Meets rule.1 start other.2 place
  head : ∀ rule ∈ rules, rule.1.head? ≠ rule.2.head?

variable {width : Nat} {text : List Item}

theorem Plain.undisturbed (plain : Plain rules width)
    (apart : rules.Pairwise fun first second => ∀ start other,
      other + second.1.length < start + first.1.length → ¬Meets second.1 other first.1 start) :
    Undisturbed rules width := by
  refine ⟨?_, ?_, ?_⟩
  · refine apart.imp_of_mem fun isFirst isSecond keys start other endsFirst => ?_
    refine ⟨keys start other endsFirst, plain.unmet _ isSecond _ isFirst _ _, ?_⟩
    intro meets
    exact plain.unmet _ isFirst _ isSecond _ _ meets.symm
  · intro rule member short
    exact absurd short (plain.old rule member).not_lt
  · refine Pairwise.imp_of_mem ?_ apart
    intro rule _ member _ _ short
    exact absurd short (plain.old rule member).not_lt

/-- In a short text, where any two places overlap, nothing is replaced twice. -/
theorem Plain.settled (plain : Plain rules width) (positive : 0 < width)
    (short : text.length < 2 * width) {replaced : Rule Item} (member : replaced ∈ rules) {place : Nat}
    (occurs : OccursAt replaced.2 text place) : ∀ rule ∈ rules, ∀ start, ¬OccursAt rule.1 text start := by
  intro rule isRule start again
  have size := plain.old rule isRule
  have otherSize := plain.new replaced member
  have fits := occurs_at_bound again (length_pos_iff.mp (by omega))
  have otherFits := occurs_at_bound occurs (length_pos_iff.mp (by omega))
  exact plain.unmet rule isRule replaced member start place
    (meets_of_occurs again occurs (by omega) (by omega))

variable [DecidableEq Item]

/-- Steps that do not fire at the beginning of a short text leave its first item, and if one
fires no other does any more. -/
theorem Plain.head_kept (plain : Plain rules width) (positive : 0 < width)
    (short : text.length < 2 * width) (steps : List (Rule Item × Nat))
    (among : ∀ step ∈ steps, step.1 ∈ rules)
    (notFirst : ∀ step ∈ steps, ¬OccursAt step.1.1 text 0) :
    (run steps text).head? = text.head? ∧ ((∀ step ∈ steps, ¬OccursAt step.1.1 text step.2) ∨
      ∀ rule ∈ rules, ∀ start, ¬OccursAt rule.1 (run steps text) start) := by
  induction steps with
  | nil => exact ⟨rfl, .inl nofun⟩
  | cons step steps ih =>
    rw [forall_mem_cons] at among notFirst
    rw [run_cons]
    by_cases fires : OccursAt step.1.1 text step.2
    · have later : step.2 ≠ 0 := fun first => notFirst.1 (first ▸ fires)
      have size := (plain.old _ among.1).trans (plain.new _ among.1).symm
      have settled := plain.settled positive (by rwa [replace_at_length size]) among.1
        (occurs_replaced size fires)
      rw [run_idle fun other member => settled _ (among.2 other member) _]
      refine ⟨?_, .inr settled⟩
      rw [head?_eq_getElem?, head?_eq_getElem?, replace_at_place size, if_neg (by omega)]
    · rw [replace_at_absent fires]
      obtain ⟨same, settled⟩ := ih among.2 notFirst.2
      exact ⟨same, settled.imp_left fun idle => forall_mem_cons.mpr ⟨fires, idle⟩⟩

variable {second : Rule Item} (plain : Plain rules width) (positive : 0 < width)
  (distinct : (rules.map Prod.fst).Nodup)

include plain positive distinct

/-- A text that is an old one becomes the new one. -/
theorem Plain.run_old (member : second ∈ rules) : run (allPlaces 0 width rules) second.1 = second.2 := by
  obtain ⟨front, behind, rfl⟩ := append_of_mem member
  have size := plain.old second member
  have others : ∀ rule ∈ front, ¬OccursAt rule.1 second.1 0 := by
    intro rule isRule occurs
    have whole : rule.1 = second.1 := ((occurs_at_zero _ _).mp occurs).eq_of_length (by
      rw [plain.old rule (mem_append_left _ isRule), size])
    rw [map_append, map_cons, nodup_append] at distinct
    exact distinct.2.2 _ (mem_map_of_mem isRule) _ mem_cons_self whole
  have only : places 0 width second = [(second, 0)] := by
    rw [places, size, Nat.sub_zero, Nat.add_sub_cancel_left]
    rfl
  have fires : OccursAt second.1 second.1 0 := (occurs_at_zero _ _).mpr prefix_rfl
  have replaced : replaceAt second 0 second.1 = second.2 := by
    rw [replaceAt, if_pos fires, Nat.zero_add, take_zero, nil_append, drop_length, append_nil]
  have isNew : OccursAt second.2 second.2 0 := (occurs_at_zero _ _).mpr prefix_rfl
  have settled := plain.settled positive (by rw [plain.new second member]; omega) member isNew
  rw [allPlaces, flatMap_append, flatMap_cons, run_append, run_append, only]
  have idle : run (front.flatMap (places 0 width)) second.1 = second.1 := by
    apply run_idle
    intro step isStep
    obtain ⟨isRule, -, upper⟩ := mem_all_places.mp isStep
    have first : step.2 = 0 := by
      rw [plain.old _ (mem_append_left _ isRule)] at upper
      omega
    rw [first]
    exact others _ isRule
  rw [idle, run_cons, replaced]
  apply run_idle
  intro step isStep
  exact settled _ (mem_append_right _ (mem_cons_of_mem _ (mem_all_places.mp isStep).1)) _

/-- Where the old text of a later rule runs into that of an earlier one, the earlier rule comes
first, and the beginning of the text is not replaced. -/
theorem Plain.overlap_head {first : Rule Item} {front behind : List (Rule Item)}
    (split : rules = front ++ first :: behind) (member : second ∈ behind) {more : List Item}
    {shift : Nat} (short : (second.1 ++ more).length < 2 * width)
    (overlaps : OccursAt first.1 (second.1 ++ more) shift) :
    (run (allPlaces 0 (second.1 ++ more).length rules) (second.1 ++ more)).head? =
      second.1.head? := by
  have isFirst : first ∈ rules := by rw [split]; simp
  have isSecond : second ∈ rules := by rw [split]; simp [member]
  have size := plain.old second isSecond
  have nonempty : first.1 ≠ [] := length_pos_iff.mp (by rw [plain.old first isFirst]; exact positive)
  have inRules : ∀ rule ∈ front ++ [first], rule ∈ rules := by
    intro rule isRule
    rw [split]
    simp only [mem_append, mem_cons] at isRule ⊢
    tauto
  have notFirst : ∀ rule ∈ front ++ [first], ¬OccursAt rule.1 (second.1 ++ more) 0 := by
    intro rule isRule occurs
    have sameSize : rule.1.length = second.1.length := by rw [plain.old rule (inRules rule isRule), size]
    have whole : rule.1 = second.1 := (prefix_of_prefix_length_le ((occurs_at_zero _ _).mp occurs)
      (prefix_append _ _) sameSize.le).eq_of_length sameSize
    rw [split, ← singleton_append, ← append_assoc, map_append, nodup_append] at distinct
    exact distinct.2.2 _ (mem_map_of_mem isRule) _ (mem_map_of_mem member) whole
  have fits := occurs_at_bound overlaps nonempty
  obtain ⟨kept, idle | settled⟩ := plain.head_kept positive short
    (allPlaces 0 (second.1 ++ more).length (front ++ [first]))
    (fun step isStep => inRules _ (mem_all_places.mp isStep).1)
    (fun step isStep => notFirst _ (mem_all_places.mp isStep).1)
  · exact absurd overlaps (idle (first, shift) (mem_all_places.mpr
      ⟨by simp, Nat.zero_le _, by simpa using Nat.lt_succ_of_le fits⟩))
  · have whole : allPlaces 0 (second.1 ++ more).length rules =
        allPlaces 0 (second.1 ++ more).length (front ++ [first]) ++
          allPlaces 0 (second.1 ++ more).length behind := by
      rw [split, allPlaces, allPlaces, allPlaces, ← flatMap_append]
      simp
    rw [whole, run_append, run_idle, kept, head?_append_of_ne_nil]
    · exact length_pos_iff.mp (by omega)
    · intro step isStep
      exact settled _ (by rw [split]; simp [(mem_all_places.mp isStep).1]) _

end Cuts

end Bsd.Lib.Replacement
