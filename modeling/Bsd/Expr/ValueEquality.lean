import Bsd.Lib.Occurrences

/-!
# Comparing values

`eqValues` and `assertEqValues` on values that are evaluated all the way down. Values with the
same address are equal without a look at them.
-/

namespace Bsd.Expr.ValueEquality

open Lib.Occurrences

variable {Symbol : Type}

/-- A value and its address. Bindings are in the order of their symbols. -/
inductive Value (Symbol : Type) where
  | int (address : Nat) (integer : BitVec 64)
  | bool (address : Nat) (boolean : Bool)
  | string (address : Nat) (text : Bytes)
  | path (address accessor : Nat) (path : Bytes)
  | null (address : Nat)
  | list (address : Nat) (elems : List (Value Symbol))
  | attrs (address : Nat) (bindings : List (Symbol × Value Symbol))

inductive Mismatch (Symbol : Type) where
  | types (left right : Value Symbol)
  | numbers (left right : Value Symbol)
  | booleans (left right : Bool)
  | strings (left right : Bytes)
  | accessors (left right : Bytes)
  | paths (left right : Bytes)
  | sizes (left right : Nat)
  | attributeNames (left right : Value Symbol)
  | contained (name : Symbol)
  | missing (name : Symbol)

inductive Trace (Symbol : Type) where
  | listElement (index : Nat)
  | outPath
  | attribute (name : Symbol)

inductive Failure (Symbol : Type) where
  | error (mismatch : Mismatch Symbol) (traces : List (Trace Symbol))
  | assertion

def traced {Result : Type} (trace : Trace Symbol) :
    Except (Failure Symbol) Result → Except (Failure Symbol) Result
  | .error (.error mismatch traces) => .error (.error mismatch (traces ++ [trace]))
  | run => run

def fail (mismatch : Mismatch Symbol) : Except (Failure Symbol) Unit := .error (.error mismatch [])

section Comparisons

variable [DecidableEq Symbol] (sType sOutPath : Symbol)

def get (name : Symbol) (bindings : List (Symbol × Value Symbol)) : Option (Value Symbol) :=
  (bindings.find? fun attr => attr.1 = name).map Prod.snd

def isDerivation (bindings : List (Symbol × Value Symbol)) : Bool :=
  match get sType bindings with
  | some (.string _ text) => text = ascii "derivation"
  | _ => false

mutual

def eqValues : Value Symbol → Value Symbol → Bool
  | .int left first, .int right second => left = right || first = second
  | .bool left first, .bool right second => left = right || first = second
  | .string left first, .string right second => left = right || first = second
  | .path left accessor first, .path right other second =>
    left = right || (accessor = other && first = second)
  | .null _, .null _ => true
  | .list left first, .list right second =>
    left = right || (first.length = second.length && eqElems first second)
  | .attrs left first, .attrs right second =>
    left = right ||
      match if isDerivation sType first && isDerivation sType second then
          eqOutPaths first (get sOutPath second) else none with
      | some equal => equal
      | none => first.length = second.length && eqBindings first second
  | _, _ => false

def eqElems : List (Value Symbol) → List (Value Symbol) → Bool
  | left :: lefts, right :: rights => eqValues left right && eqElems lefts rights
  | _, _ => true

/-- The comparison of the attributes `outPath`, if both sets have one. -/
def eqOutPaths : List (Symbol × Value Symbol) → Option (Value Symbol) → Option Bool
  | (name, left) :: lefts, right =>
    if name = sOutPath then right.map fun value => eqValues left value
    else eqOutPaths lefts right
  | [], _ => none

def eqBindings : List (Symbol × Value Symbol) → List (Symbol × Value Symbol) → Bool
  | (name, left) :: lefts, (other, right) :: rights =>
    name = other && eqValues left right && eqBindings lefts rights
  | _, _ => true

end

def assertSameName (first second : List (Symbol × Value Symbol)) (name other : Symbol) :
    Except (Failure Symbol) Unit :=
  if name = other then .ok ()
  else if (get name second).isNone then fail (.contained name)
  else if (get other first).isNone then fail (.missing other)
  else .error .assertion

mutual

def assertEqValues : Value Symbol → Value Symbol → Except (Failure Symbol) Unit
  | .int left first, .int right second =>
    if left = right || eqValues sType sOutPath (.int left first) (.int right second) then .ok ()
    else fail (.numbers (.int left first) (.int right second))
  | .bool left first, .bool right second =>
    if left = right || first = second then .ok () else fail (.booleans first second)
  | .string left first, .string right second =>
    if left = right || first = second then .ok () else fail (.strings first second)
  | .path left accessor first, .path right other second =>
    if left = right then .ok ()
    else if accessor ≠ other then fail (.accessors first second)
    else if first ≠ second then fail (.paths first second)
    else .ok ()
  | .null _, .null _ => .ok ()
  | .list left first, .list right second =>
    if left = right then .ok ()
    else if first.length ≠ second.length then fail (.sizes first.length second.length)
    else assertEqElems 0 first second
  | .attrs left first, .attrs right second =>
    if left = right then .ok ()
    else
      match if isDerivation sType first && isDerivation sType second then
          assertEqOutPaths first (get sOutPath second) else none with
      | some result => traced .outPath result
      | none =>
        if first.length ≠ second.length then
          fail (.attributeNames (.attrs left first) (.attrs right second))
        else assertEqBindings first second first second
  | left, right => fail (.types left right)

def assertEqElems : Nat → List (Value Symbol) → List (Value Symbol) → Except (Failure Symbol) Unit
  | index, left :: lefts, right :: rights => do
      traced (.listElement index) (assertEqValues left right)
      assertEqElems (index + 1) lefts rights
  | _, _, _ => .ok ()

def assertEqOutPaths : List (Symbol × Value Symbol) → Option (Value Symbol) →
    Option (Except (Failure Symbol) Unit)
  | (name, left) :: lefts, right =>
    if name = sOutPath then right.map fun value => assertEqValues left value
    else assertEqOutPaths lefts right
  | [], _ => none

def assertEqBindings (first second : List (Symbol × Value Symbol)) :
    List (Symbol × Value Symbol) → List (Symbol × Value Symbol) → Except (Failure Symbol) Unit
  | (name, left) :: lefts, (other, right) :: rights => do
      assertSameName first second name other
      traced (.attribute name) (assertEqValues left right)
      assertEqBindings first second lefts rights
  | _, _ => .ok ()

end

end Comparisons

section

variable {run : Except (Failure Symbol) Unit}

@[simp]
theorem fail_ok (mismatch : Mismatch Symbol) : fail mismatch = .ok () ↔ False :=
  iff_of_false nofun id

@[simp]
theorem traced_ok (trace : Trace Symbol) : traced trace run = .ok () ↔ run = .ok () := by
  unfold traced
  split <;> simp

@[simp]
theorem then_ok (first : Except (Failure Symbol) Unit) :
    (first >>= fun _ => run) = .ok () ↔ first = .ok () ∧ run = .ok () := by
  cases first <;> simp [bind, Except.bind]

@[simp]
theorem ite_fail {condition : Prop} [Decidable condition] (mismatch : Mismatch Symbol) :
    (if condition then run else fail mismatch) = .ok () ↔ condition ∧ run = .ok () := by
  by_cases holds : condition <;> simp [holds]

end

section Agreement

variable [DecidableEq Symbol] (sType sOutPath : Symbol)

@[simp]
theorem assert_same_name_ok (first second : List (Symbol × Value Symbol)) (name other : Symbol) :
    assertSameName first second name other = .ok () ↔ name = other := by
  unfold assertSameName
  repeat' split
  all_goals simp_all

mutual

theorem assert_values_ok (left right : Value Symbol) :
    assertEqValues sType sOutPath left right = .ok () ↔
      eqValues sType sOutPath left right = true := by
  cases left <;> cases right
  case list.list left first right second =>
    simp [assertEqValues, eqValues, assert_elems_ok 0 first second, or_iff_not_imp_left]
  case attrs.attrs left first right second =>
    have outPaths := assert_out_paths_ok first (get sOutPath second)
    have bindings := assert_bindings_ok first second first second
    simp only [assertEqValues, eqValues]
    generalize assertEqOutPaths sType sOutPath first (get sOutPath second) = run at outPaths
    generalize eqOutPaths sType sOutPath first (get sOutPath second) = equal at outPaths
    by_cases both : (isDerivation sType first && isDerivation sType second) = true
    · rw [if_pos both, if_pos both]
      cases outPaths with
      | some same => simp [same, or_iff_not_imp_left]
      | none => simp [bindings, or_iff_not_imp_left]
    · rw [if_neg both, if_neg both]
      simp [bindings, or_iff_not_imp_left]
  all_goals simp [assertEqValues, eqValues, or_iff_not_imp_left]

theorem assert_elems_ok (index : Nat) (lefts rights : List (Value Symbol)) :
    assertEqElems sType sOutPath index lefts rights = .ok () ↔
      eqElems sType sOutPath lefts rights = true := by
  match lefts, rights with
  | left :: lefts, right :: rights =>
    simp [assertEqElems, eqElems, assert_values_ok left right,
      assert_elems_ok (index + 1) lefts rights]
  | [], _ | _ :: _, [] => simp [assertEqElems, eqElems]

theorem assert_out_paths_ok (lefts : List (Symbol × Value Symbol)) (right : Option (Value Symbol)) :
    Option.Rel (fun run equal => run = .ok () ↔ equal = true)
      (assertEqOutPaths sType sOutPath lefts right) (eqOutPaths sType sOutPath lefts right) := by
  match lefts with
  | [] =>
    rw [assertEqOutPaths, eqOutPaths]
    exact .none
  | (name, left) :: lefts =>
    rw [assertEqOutPaths, eqOutPaths]
    split
    · cases right with
      | none => exact .none
      | some right => exact .some (assert_values_ok left right)
    · exact assert_out_paths_ok lefts right

theorem assert_bindings_ok (first second lefts rights : List (Symbol × Value Symbol)) :
    assertEqBindings sType sOutPath first second lefts rights = .ok () ↔
      eqBindings sType sOutPath lefts rights = true := by
  match lefts, rights with
  | (name, left) :: lefts, (other, right) :: rights =>
    simp [assertEqBindings, eqBindings, assert_values_ok left right,
      assert_bindings_ok first second lefts rights, and_assoc]
  | [], _ | _ :: _, [] => simp [assertEqBindings, eqBindings]

end

/-- `assertEqValues` returns exactly for the values that `eqValues` finds equal. -/
theorem assert_eq_values_iff (left right : Value Symbol) :
    assertEqValues sType sOutPath left right = .ok () ↔ eqValues sType sOutPath left right = true :=
  assert_values_ok sType sOutPath left right

end Agreement

end Bsd.Expr.ValueEquality
