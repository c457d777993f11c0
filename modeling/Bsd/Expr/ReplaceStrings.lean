import Mathlib.Data.Finset.Basic
import Bsd.Util.FilePath

/-!
# `builtins.replaceStrings`

At each position the first pattern that occurs there is replaced; after an empty one the
character at the position is kept. The replacements are lazy: one is forced when its
pattern is first met, which is also when its context is added.
-/

namespace Bsd.Expr.ReplaceStrings

open List Lib.Occurrences Util.FilePath

variable {Elem : Type*}

/-- `cache` holds the replacements that have been forced. -/
structure Replaced (Elem : Type*) where
  res : Bytes
  cache : Nat → Option Bytes
  context : Finset Elem

def Replaced.append (state : Replaced Elem) (text : Bytes) : Replaced Elem :=
  { state with res := state.res ++ text }

section

variable [DecidableEq Elem] (fromStrings : List Bytes)
  (toStrings : List (Except Failure (Bytes × Finset Elem))) (s : Bytes)

def appendReplacement (index : Nat) (state : Replaced Elem) : Except Failure (Replaced Elem) :=
  match state.cache index with
  | some text => .ok (state.append text)
  | none =>
    match toStrings[index]? with
    | none => .error .undefinedBehaviour
    | some (.error failure) => .error failure
    | some (.ok (text, context)) =>
      .ok ⟨state.res ++ text, Function.update state.cache index (some text), state.context ∪ context⟩

/-- The loop over the positions, one past the last character included. -/
def replaceLoop (p : Nat) (state : Replaced Elem) : Except Failure (Replaced Elem) :=
  if p ≤ s.length then
    match fromStrings.zipIdx.find? fun entry => OccursAt entry.1 s p with
    | none => replaceLoop (p + 1) (state.append ((s.drop p).take 1))
    | some (pattern, index) =>
      match appendReplacement toStrings index state with
      | .error failure => .error failure
      | .ok state =>
        if pattern = [] then replaceLoop (p + 1) (state.append ((s.drop p).take 1))
        else replaceLoop (p + pattern.length) state
  else .ok state
termination_by s.length + 1 - p
decreasing_by
  · omega
  · omega
  · rename_i nonempty
    have := length_pos_iff.mpr nonempty
    omega

def primReplaceStrings (context : Finset Elem) : Except Failure (Bytes × Finset Elem) :=
  if fromStrings.length ≠ toStrings.length then
    .error (.error (ascii
      "'from' and 'to' arguments passed to builtins.replaceStrings have different lengths"))
  else do
    let state ← replaceLoop fromStrings toStrings s 0 ⟨[], fun _ => none, context⟩
    return (state.res, state.context)

end

variable {texts : List (Bytes × Finset Elem)} {s : Bytes}

/-- Up to `p` the result is the string itself, and so are the replacements in the cache. -/
structure Same (texts : List (Bytes × Finset Elem)) (s : Bytes) (p : Nat) (state : Replaced Elem) :
    Prop where
  res : state.res = s.take p
  cached : ∀ index text, state.cache index = some text → texts[index]?.map Prod.fst = some text

variable {state : Replaced Elem} {p : Nat}

theorem Same.advance (same : Same texts s p state) (count : Nat) :
    Same texts s (p + count) (state.append ((s.drop p).take count)) := by
  refine ⟨?_, same.cached⟩
  rw [Replaced.append, same.res, take_add]

variable [DecidableEq Elem]

theorem append_replacement_same (same : Same texts s p state) {pattern : Bytes} {index : Nat}
    (met : (texts.map Prod.fst).zipIdx.find? (fun entry => OccursAt entry.1 s p) =
      some (pattern, index)) :
    ∃ next, appendReplacement (texts.map .ok) index state = .ok next ∧
      Same texts s (p + pattern.length) next := by
  have occurs : OccursAt pattern s p := by simpa using find?_some met
  have found := mem_zipIdx_iff_getElem?.mp (mem_of_find?_eq_some met)
  have appended := same.advance pattern.length
  rw [← prefix_iff_eq_take.mp occurs] at appended
  rw [getElem?_map] at found
  rw [appendReplacement]
  cases held : state.cache index with
  | some text =>
    rw [same.cached index text held] at found
    exact ⟨_, rfl, Option.some.inj found ▸ appended⟩
  | none =>
    obtain ⟨entry, present, rfl⟩ := Option.map_eq_some_iff.mp found
    rw [getElem?_map, present]
    refine ⟨_, rfl, appended.res, ?_⟩
    rintro other text (cached : Function.update _ _ _ _ = _)
    by_cases here : other = index
    · rw [here, Function.update_self] at cached
      rw [here, ← cached]
      exact found
    · rw [Function.update_of_ne here] at cached
      exact same.cached other text cached

theorem replace_loop_same (same : Same texts s p state) :
    ∃ final, replaceLoop (texts.map Prod.fst) (texts.map .ok) s p state = .ok final ∧
      final.res = s := by
  fun_induction replaceLoop (texts.map Prod.fst) (texts.map .ok) s p state with
  | case1 p state bound absent ih => exact ih (same.advance 1)
  | case2 p state bound pattern index met failure failed =>
    obtain ⟨next, ran, _⟩ := append_replacement_same same met
    rw [ran] at failed
    cases failed
  | case3 p state bound index state' forced met ih =>
    obtain ⟨next, ran, after⟩ := append_replacement_same same met
    cases ran.symm.trans forced
    exact ih (after.advance 1)
  | case4 p state bound pattern index met state' forced nonempty ih =>
    obtain ⟨next, ran, after⟩ := append_replacement_same same met
    cases ran.symm.trans forced
    exact ih after
  | case5 p state bound => exact ⟨_, rfl, same.res.trans (take_of_length_le (by omega))⟩

/-- Replacing texts by themselves gives the string back, whatever the texts, their order and
their contexts are, the empty text included. -/
theorem replace_strings_self (texts : List (Bytes × Finset Elem)) (s : Bytes)
    (context : Finset Elem) : ∃ final,
      primReplaceStrings (texts.map Prod.fst) (texts.map .ok) s context = .ok (s, final) := by
  have start : Same texts s 0 ⟨[], fun _ => none, context⟩ := ⟨rfl, nofun⟩
  obtain ⟨final, ran, res⟩ := replace_loop_same start
  refine ⟨final.context, ?_⟩
  rw [primReplaceStrings, if_neg (by simp), ran, ← res]
  rfl

end Bsd.Expr.ReplaceStrings
