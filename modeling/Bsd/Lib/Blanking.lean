import Mathlib.Data.Nat.Find
import Bsd.Lib.Replacement

/-!
# Blanking a pattern

`blank` replaces the occurrences of a pattern, leftmost first and without
overlaps, by a run of a filler item of the same length. The filler must not
occur in the pattern: a blanked stretch then never takes part in a later
occurrence, and blanking is the replacement of the pattern at one place after another.
-/

namespace Bsd.Lib.Blanking

open List Lib.Occurrences Lib.Replacement

variable {Item : Type*}

def blankRule (filler : Item) (pattern : List Item) : Rule Item :=
  (pattern, List.replicate pattern.length filler)

variable {filler : Item} {pattern : List Item}

section

variable (nonempty : pattern ≠ []) (absent : filler ∉ pattern)

include nonempty absent

theorem blank_rule_differs : pattern ≠ (blankRule filler pattern).2 := by
  intro same
  apply absent
  rw [same, blankRule, mem_replicate]
  exact ⟨by simp [nonempty], rfl⟩

theorem not_meets_filler (start other : Nat) :
    ¬Meets pattern start (blankRule filler pattern).2 other := by
  refine not_meets_of_disjoint nonempty (by simpa [blankRule] using nonempty) ?_ start other
  intro item inPattern inRun
  rw [eq_of_mem_replicate inRun] at inPattern
  exact absent inPattern

end

variable [DecidableEq Item]

def blank (filler : Item) (pattern : List Item) : List Item → List Item
  | [] => []
  | head :: rest =>
    if pattern ≠ [] ∧ pattern <+: head :: rest then
      List.replicate pattern.length filler ++
        blank filler pattern ((head :: rest).drop pattern.length)
    else head :: blank filler pattern rest
termination_by text => text.length
decreasing_by
  next found =>
    have positive := List.length_pos_iff.mpr found.1
    simp only [List.length_drop, List.length_cons]
    omega
  · simp

variable {text : List Item}

theorem blank_here (nonempty : pattern ≠ []) (found : pattern <+: text) :
    blank filler pattern text =
      List.replicate pattern.length filler ++ blank filler pattern (text.drop pattern.length) := by
  cases text with
  | nil => exact absurd (prefix_nil.mp found) nonempty
  | cons head rest => rw [blank, if_pos ⟨nonempty, found⟩]

theorem blank_skip {head : Item} {rest : List Item} (absent : ¬ pattern <+: head :: rest) :
    blank filler pattern (head :: rest) = head :: blank filler pattern rest := by
  rw [blank, if_neg (fun found => absent found.2)]

/-- The three cases of blanking, as an induction rule. -/
theorem blank_induction (nonempty : pattern ≠ []) {motive : List Item → Prop} (nil : motive [])
    (found : ∀ text, pattern <+: text → motive (text.drop pattern.length) → motive text)
    (skip : ∀ head rest, ¬ pattern <+: head :: rest → motive rest → motive (head :: rest))
    (text : List Item) : motive text := by
  induction size : text.length using Nat.strongRecOn generalizing text with
  | _ size ih =>
    subst size
    cases text with
    | nil => exact nil
    | cons head rest =>
      by_cases here : pattern <+: head :: rest
      · have positive := length_pos_iff.mpr nonempty
        refine found _ here (ih _ ?_ _ rfl)
        simp only [length_drop, length_cons]
        omega
      · exact skip _ _ here (ih _ (by simp) _ rfl)

section

variable (nonempty : pattern ≠ []) (absent : filler ∉ pattern)

include nonempty absent

/-- Place after place, the pattern becomes a run of fillers, in which it does not begin. -/
theorem run_places_blank (text front : List Item) :
    run (places front.length (front ++ text).length (blankRule filler pattern)) (front ++ text) =
      front ++ blank filler pattern text := by
  induction text using blank_induction nonempty generalizing front with
  | nil =>
    rw [append_nil, run_idle, blank, append_nil]
    intro step member
    have fits := (mem_places.mp member).2
    have positive := length_pos_iff.mpr nonempty
    dsimp only [blankRule] at fits
    omega
  | found text here ih =>
    obtain ⟨rest, rfl⟩ := here
    have occurs : OccursAt pattern (front ++ (pattern ++ rest)) front.length := by
      rw [OccursAt, drop_left]
      exact prefix_append _ _
    have replaced : replaceAt (blankRule filler pattern) front.length (front ++ (pattern ++ rest)) =
        front ++ replicate pattern.length filler ++ rest := by
      rw [replaceAt, blankRule, if_pos occurs, take_left, drop_length_add_append, drop_left]
    have sameSize : (front ++ (pattern ++ rest)).length =
        (front ++ replicate pattern.length filler ++ rest).length := by
      simp
    have next := ih (front ++ replicate pattern.length filler)
    rw [drop_left, length_append, length_replicate] at next
    rw [run_places_succ nonempty, replaced, sameSize,
      run_places_skip nonempty (Nat.add_le_add_left (length_pos_iff.mpr nonempty) front.length), next,
      blank_here nonempty (prefix_append _ _), drop_left, append_assoc]
    intro place lower upper again
    have isRun : OccursAt (blankRule filler pattern).2
        (front ++ replicate pattern.length filler ++ rest) front.length := by
      rw [OccursAt, append_assoc, drop_left]
      exact prefix_append _ _
    refine not_meets_filler nonempty absent place front.length (meets_of_occurs again isRun ?_ ?_)
    · simpa [blankRule] using upper
    · omega
  | skip head rest notHere ih =>
    have missing : ¬OccursAt pattern (front ++ head :: rest) front.length := by
      rwa [OccursAt, drop_left]
    have next := ih (front ++ [head])
    rw [length_append, length_singleton, append_assoc, singleton_append] at next
    rw [run_places_succ nonempty, replace_at_absent missing, next, blank_skip notHere]
    simp

theorem blank_eq_run (text : List Item) : blank filler pattern text =
    run (places 0 text.length (blankRule filler pattern)) text :=
  (run_places_blank nonempty absent text []).symm

theorem blank_length (text : List Item) : (blank filler pattern text).length = text.length := by
  rw [blank_eq_run nonempty absent, run_length]
  intro step member
  rw [(mem_places.mp member).1]
  exact length_replicate.symm

theorem blank_absent (text : List Item) : ¬ pattern <:+: blank filler pattern text := by
  rw [infix_iff_occurs_at]
  rintro ⟨place, occurs⟩
  have fits := occurs_at_bound occurs nonempty
  rw [blank_length nonempty absent] at fits
  rw [blank_eq_run nonempty absent] at occurs
  change OccursAt (blankRule filler pattern).1 _ place at occurs
  refine run_places_absent length_replicate.symm (blank_rule_differs nonempty absent) fits ?_ occurs
  intro other _ _
  exact not_meets_filler nonempty absent place other

end

theorem blank_append_of_no_start (filler : Item) (front rest : List Item)
    (noStart : ∀ start < front.length, ¬ OccursAt pattern (front ++ rest) start) :
    blank filler pattern (front ++ rest) = front ++ blank filler pattern rest := by
  induction front with
  | nil => rfl
  | cons head front ih =>
    have notHere : ¬ pattern <+: head :: (front ++ rest) := by
      simpa [occurs_at_zero] using noStart 0 (by simp)
    rw [cons_append, blank_skip notHere, ih, cons_append]
    intro start bound occurs
    exact noStart (start + 1) (by simpa using bound) (by simpa [OccursAt] using occurs)

theorem blank_of_absent (text : List Item) (absent : ¬ pattern <:+: text) :
    blank filler pattern text = text := by
  have copied := blank_append_of_no_start filler text []
    (fun start _ occurs => absent
      ((infix_iff_occurs_at pattern text).mpr ⟨start, by simpa using occurs⟩))
  simpa [blank] using copied

section

variable (nonempty : pattern ≠ [])

include nonempty

theorem blank_at_first (front rest : List Item)
    (first : ∀ start < front.length, ¬ OccursAt pattern (front ++ (pattern ++ rest)) start) :
    blank filler pattern (front ++ (pattern ++ rest)) =
      front ++ (List.replicate pattern.length filler ++ blank filler pattern rest) := by
  rw [blank_append_of_no_start _ _ _ first,
    blank_here nonempty (prefix_append pattern rest), drop_left]

section

variable (absent : filler ∉ pattern)

include absent

end

end

/-- The texts with which no other text shares its blanked form: they contain
neither the pattern nor a run of fillers that an occurrence of the pattern would
leave behind. Putting the pattern into a run at `start` leaves it behind unless
the pattern then already occurs earlier. -/
def Unblankable (filler : Item) (pattern text : List Item) : Prop :=
  ¬ pattern <:+: text ∧ ∀ start, OccursAt (List.replicate pattern.length filler) text start →
      ∃ earlier < start, OccursAt pattern (text.take start ++ pattern) earlier

theorem first_occurrence (present : pattern <:+: text) :
    ∃ front rest, text = front ++ (pattern ++ rest) ∧
      ∀ start < front.length, ¬ OccursAt pattern text start := by
  have some := (infix_iff_occurs_at pattern text).mp present
  obtain ⟨rest, restEq⟩ := Nat.find_spec some
  refine ⟨text.take (Nat.find some), rest, ?_, ?_⟩
  · rw [restEq, take_append_drop]
  · intro start lower
    rw [length_take] at lower
    exact Nat.find_min some (by omega)

/-- Blanking forgets a text exactly when it is not `Unblankable`. -/
theorem blank_determines_iff (nonempty : pattern ≠ []) (absent : filler ∉ pattern)
    (text : List Item) :
    (∀ other, blank filler pattern text = blank filler pattern other → text = other) ↔
      Unblankable filler pattern text := by
  constructor
  · intro determined
    have clean : ¬ pattern <:+: text := by
      rw [determined _ (blank_of_absent _ (blank_absent nonempty absent text)).symm]
      exact blank_absent nonempty absent text
    refine ⟨clean, ?_⟩
    intro start ⟨rest, restEq⟩
    by_contra unshadowed
    push Not at unshadowed
    have bound : start ≤ text.length := by
      by_contra beyond
      rw [drop_eq_nil_of_le (by omega), append_eq_nil_iff] at restEq
      exact nonempty (by simpa using restEq.1)
    have frontSize : (text.take start).length = start := by
      rw [length_take]
      omega
    have textEq : text = text.take start ++ (replicate pattern.length filler ++ rest) := by
      rw [restEq, take_append_drop]
    have restClean : ¬ pattern <:+: rest := by
      intro present
      apply clean
      rw [textEq]
      exact (present.trans (suffix_append _ _).isInfix).trans
        (suffix_append _ _).isInfix
    have filled : blank filler pattern (text.take start ++ (pattern ++ rest)) = text := by
      rw [blank_at_first nonempty, blank_of_absent rest restClean, ← textEq]
      intro earlier lower occurs
      rw [frontSize] at lower
      rw [← append_assoc] at occurs
      refine unshadowed earlier lower ((occurs_at_append_left_iff ?_).mp occurs)
      rw [length_append]
      omega
    have collision := determined (text.take start ++ (pattern ++ rest))
      (by rw [filled, blank_of_absent text clean])
    apply clean
    rw [collision]
    exact ⟨text.take start, rest, by rw [append_assoc]⟩
  · rintro ⟨clean, shadowed⟩ other same
    rw [blank_of_absent text clean] at same
    by_cases present : pattern <:+: other
    · exfalso
      obtain ⟨front, rest, rfl, first⟩ := first_occurrence present
      rw [blank_at_first nonempty front rest first] at same
      obtain ⟨earlier, lower, occurs⟩ := shadowed front.length (by
        rw [same, OccursAt, drop_left]
        exact prefix_append _ _)
      rw [same, take_left] at occurs
      refine first earlier lower ?_
      rw [← append_assoc]
      unfold OccursAt at occurs ⊢
      rw [drop_append]
      exact occurs.trans (prefix_append _ _)
    · rw [same, blank_of_absent other present]

end Bsd.Lib.Blanking
