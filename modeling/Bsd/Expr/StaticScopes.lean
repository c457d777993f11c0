import Mathlib.Data.List.Sort
import Bsd.Lib.Readers

/-!
# Variables resolved before evaluation

Expressions, static environments and `bindVars`. An expression holds something at every
variable occurrence: nothing before `bindVars`, level, displacement and the nearest `with`
afterwards. A static environment is the chain of its levels, the innermost first.
-/

namespace Bsd.Expr.StaticScopes

scoped instance (priority := high) symbol_lawful_beq {Symbol : Type} [LinearOrder Symbol] :
    LawfulBEq Symbol :=
  inferInstance

inductive WithNode where
  | mk (prevWith : Nat) (parentWith : Option WithNode)

structure VarRef where
  level : Nat
  displ : Nat
  fromWith : Option WithNode

set_option linter.dupNamespace false in
mutual

/-- Strings stand for the literals; a string is the symbol that its text makes. `inheritFrom`
is the pseudo-expression that inherited-from attributes select from. -/
inductive Expr (Symbol Ref : Type) where
  | string (s : Symbol)
  | var (name : Symbol) (ref : Ref)
  | inheritFrom (displ : Nat)
  | select (e : Expr Symbol Ref) (attrPath : List (AttrName Symbol Ref))
      (default : Option (Expr Symbol Ref))
  | attrs (recursive : Bool) (attrs : List (Symbol × AttrDef Symbol Ref))
      (inheritFromExprs : Option (List (Expr Symbol Ref)))
      (dynamicAttrs : List (Expr Symbol Ref × Expr Symbol Ref))
  | list (elems : List (Expr Symbol Ref))
  | lambda (arg : Option Symbol) (formals : Option (Formals Symbol Ref)) (body : Expr Symbol Ref)
  | call (function : Expr Symbol Ref) (args : List (Expr Symbol Ref))
  | letIn (attrs : List (Symbol × AttrDef Symbol Ref))
      (inheritFromExprs : Option (List (Expr Symbol Ref))) (body : Expr Symbol Ref)
  | withIn (attrs body : Expr Symbol Ref)
  | ifElse (cond whenTrue whenFalse : Expr Symbol Ref)
  | assertThen (cond body : Expr Symbol Ref)

inductive AttrName (Symbol Ref : Type) where
  | symbol (symbol : Symbol)
  | dynamic (expr : Expr Symbol Ref)

/-- The three kinds. The expression of an inherited attribute is the variable of its name,
that of an inherited-from attribute the selection of its name from `inheritFrom displ`. -/
inductive AttrDef (Symbol Ref : Type) where
  | plain (e : Expr Symbol Ref)
  | inherited (ref : Ref)
  | inheritedFrom (displ : Nat)

/-- The formal arguments with their defaults, in the order of their names. -/
inductive Formals (Symbol Ref : Type) where
  | mk (formals : List (Symbol × Option (Expr Symbol Ref))) (ellipsis : Bool)

end

structure StaticLevel (Symbol : Type) where
  isWith : Option WithNode
  vars : List (Symbol × Nat)

abbrev StaticEnv (Symbol : Type) := List (StaticLevel Symbol)

inductive UndefinedVarError (Symbol : Type) where
  | undefined (name : Symbol)

section Resolution

variable {Symbol : Type} [LinearOrder Symbol]

def StaticLevel.find (level : StaticLevel Symbol) (name : Symbol) : Option Nat :=
  match level.vars.dropWhile fun entry => entry.1 < name with
  | [] => none
  | entry :: _ => if entry.1 = name then some entry.2 else none

def searchVars (name : Symbol) (level : Nat) : StaticEnv Symbol → Option (Nat × Nat)
  | [] => none
  | curEnv :: up =>
    match curEnv.isWith with
    | some _ => searchVars name (level + 1) up
    | none =>
      match curEnv.find name with
      | some displ => some (level, displ)
      | none => searchVars name (level + 1) up

def nearestWith : StaticEnv Symbol → Option WithNode
  | [] => none
  | curEnv :: up =>
    match curEnv.isWith with
    | some node => some node
    | none => nearestWith up

def withLevel (level : Nat) : StaticEnv Symbol → Option Nat
  | [] => none
  | curEnv :: up =>
    match curEnv.isWith with
    | some _ => some level
    | none => withLevel (level + 1) up

def bindVar (env : StaticEnv Symbol) (name : Symbol) : Except (UndefinedVarError Symbol) VarRef :=
  match searchVars name 0 env with
  | some (level, displ) => .ok ⟨level, displ, none⟩
  | none =>
    match withLevel 0 env with
    | none => .error (.undefined name)
    | some level => .ok ⟨level, 0, nearestWith env⟩

def withNode (env : StaticEnv Symbol) : WithNode :=
  .mk ((withLevel 1 env).getD 0) (nearestWith env)

def attrsLevel {Def : Type} (attrs : List (Symbol × Def)) : StaticLevel Symbol :=
  ⟨none, (attrs.map Prod.fst).zipIdx⟩

def lambdaNames {Default : Type} (arg : Option Symbol) (formals : List (Symbol × Default)) :
    List Symbol :=
  arg.toList ++ formals.map Prod.fst

def lambdaLevel {Ref : Type} (arg : Option Symbol) : Option (Formals Symbol Ref) → StaticLevel Symbol
  | none => ⟨none, arg.toList.zipIdx⟩
  | some (.mk formals _) =>
    -- `newEnv->sort()`
    ⟨none, (lambdaNames arg formals).zipIdx.insertionSort fun left right => left.1 ≤ right.1⟩

mutual

def bindVars (env : StaticEnv Symbol) :
    Expr Symbol Unit → Except (UndefinedVarError Symbol) (Expr Symbol VarRef)
  | .string s => .ok (.string s)
  | .var name _ => do
      let ref ← bindVar env name
      .ok (.var name ref)
  | .inheritFrom displ => .ok (.inheritFrom displ)
  | .select e attrPath default => do
      let e ← bindVars env e
      let default ← bindOptional env default
      let attrPath ← bindPath env attrPath
      .ok (.select e attrPath default)
  | .attrs recursive attrs inheritFromExprs dynamicAttrs => do
      let newEnv := if recursive then attrsLevel attrs :: env else env
      let inheritFromExprs ← bindSources newEnv inheritFromExprs
      let attrs ← bindAttrs newEnv env attrs
      let dynamicAttrs ← bindDynamic newEnv dynamicAttrs
      .ok (.attrs recursive attrs inheritFromExprs dynamicAttrs)
  | .list elems => do
      let elems ← bindAll env elems
      .ok (.list elems)
  | .lambda arg formals body => do
      let newEnv := lambdaLevel arg formals :: env
      let formals ← bindFormals newEnv formals
      let body ← bindVars newEnv body
      .ok (.lambda arg formals body)
  | .call function args => do
      let function ← bindVars env function
      let args ← bindAll env args
      .ok (.call function args)
  | .letIn attrs inheritFromExprs body => do
      let newEnv := attrsLevel attrs :: env
      let inheritFromExprs ← bindSources newEnv inheritFromExprs
      let attrs ← bindAttrs newEnv env attrs
      let body ← bindVars newEnv body
      .ok (.letIn attrs inheritFromExprs body)
  | .withIn attrs body => do
      let attrs ← bindVars env attrs
      let body ← bindVars (⟨some (withNode env), []⟩ :: env) body
      .ok (.withIn attrs body)
  | .ifElse cond whenTrue whenFalse => do
      let cond ← bindVars env cond
      let whenTrue ← bindVars env whenTrue
      let whenFalse ← bindVars env whenFalse
      .ok (.ifElse cond whenTrue whenFalse)
  | .assertThen cond body => do
      let cond ← bindVars env cond
      let body ← bindVars env body
      .ok (.assertThen cond body)

def bindAll (env : StaticEnv Symbol) :
    List (Expr Symbol Unit) → Except (UndefinedVarError Symbol) (List (Expr Symbol VarRef))
  | [] => .ok []
  | e :: rest => do
      let e ← bindVars env e
      let rest ← bindAll env rest
      .ok (e :: rest)

def bindOptional (env : StaticEnv Symbol) :
    Option (Expr Symbol Unit) → Except (UndefinedVarError Symbol) (Option (Expr Symbol VarRef))
  | none => .ok none
  | some e => do
      let e ← bindVars env e
      .ok (some e)

def bindPath (env : StaticEnv Symbol) :
    List (AttrName Symbol Unit) → Except (UndefinedVarError Symbol) (List (AttrName Symbol VarRef))
  | [] => .ok []
  | .symbol symbol :: rest => do
      let rest ← bindPath env rest
      .ok (.symbol symbol :: rest)
  | .dynamic expr :: rest => do
      let expr ← bindVars env expr
      let rest ← bindPath env rest
      .ok (.dynamic expr :: rest)

def bindSources (env : StaticEnv Symbol) : Option (List (Expr Symbol Unit)) →
    Except (UndefinedVarError Symbol) (Option (List (Expr Symbol VarRef)))
  | none => .ok none
  | some exprs => do
      let exprs ← bindAll env exprs
      .ok (some exprs)

/-- `chooseByKind(plain, inherited, inheritFromEnv)` for each attribute. The environment of the
sources has no names, and the expression of an inherited-from attribute no variables. -/
def bindAttrs (plain inherited : StaticEnv Symbol) : List (Symbol × AttrDef Symbol Unit) →
    Except (UndefinedVarError Symbol) (List (Symbol × AttrDef Symbol VarRef))
  | [] => .ok []
  | (name, .plain e) :: rest => do
      let e ← bindVars plain e
      let rest ← bindAttrs plain inherited rest
      .ok ((name, .plain e) :: rest)
  | (name, .inherited _) :: rest => do
      let ref ← bindVar inherited name
      let rest ← bindAttrs plain inherited rest
      .ok ((name, .inherited ref) :: rest)
  | (name, .inheritedFrom displ) :: rest => do
      let rest ← bindAttrs plain inherited rest
      .ok ((name, .inheritedFrom displ) :: rest)

def bindDynamic (env : StaticEnv Symbol) : List (Expr Symbol Unit × Expr Symbol Unit) →
    Except (UndefinedVarError Symbol) (List (Expr Symbol VarRef × Expr Symbol VarRef))
  | [] => .ok []
  | (nameExpr, valueExpr) :: rest => do
      let nameExpr ← bindVars env nameExpr
      let valueExpr ← bindVars env valueExpr
      let rest ← bindDynamic env rest
      .ok ((nameExpr, valueExpr) :: rest)

def bindFormals (env : StaticEnv Symbol) : Option (Formals Symbol Unit) →
    Except (UndefinedVarError Symbol) (Option (Formals Symbol VarRef))
  | none => .ok none
  | some (.mk formals ellipsis) => do
      let formals ← bindDefaults env formals
      .ok (some (.mk formals ellipsis))

def bindDefaults (env : StaticEnv Symbol) : List (Symbol × Option (Expr Symbol Unit)) →
    Except (UndefinedVarError Symbol) (List (Symbol × Option (Expr Symbol VarRef)))
  | [] => .ok []
  | (name, none) :: rest => do
      let rest ← bindDefaults env rest
      .ok ((name, none) :: rest)
  | (name, some e) :: rest => do
      let e ← bindVars env e
      let rest ← bindDefaults env rest
      .ok ((name, some e) :: rest)

end

end Resolution

end Bsd.Expr.StaticScopes
