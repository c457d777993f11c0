import Bsd.Lib.OrdMap
import Bsd.Expr.StaticScopes

/-!
# Environments at run time

The lazy evaluator on bound expressions, with `lookupVar` and the frames that `let`, sets,
`with` and calls build. Values and frames live in a memory; an environment is the chain of
the addresses of its frames, the innermost first (`up` never changes). A frame also records
which names the construct binds there: the code does not have this, it is what a name-based
evaluator goes by. The evaluator takes the way variables are looked up as a parameter.
-/

namespace Bsd.Expr.Evaluation

open Lib.OrdMap Expr.StaticScopes

inductive Scope (Symbol : Type) where
  | names (names : List Symbol)
  | ofWith

/-- One `Env` without its `up`. A slot is null until it is set. -/
structure Frame (Symbol : Type) where
  scope : Scope Symbol
  values : List (Option Nat)

abbrev Env := List Nat

inductive Value (Symbol : Type) where
  | thunk (env : Env) (expr : Expr Symbol VarRef)
  | blackhole
  | attrs (bindings : List (Symbol × Nat))
  | list (elems : List Nat)
  | lambda (env : Env) (arg : Option Symbol) (formals : Option (Formals Symbol VarRef))
      (body : Expr Symbol VarRef)
  | string (s : Symbol)
  | bool (value : Bool)
  | null

/-- `found` has the slot that each evaluated variable occurrence has led to. -/
structure Memory (Symbol : Type) where
  envs : List (Frame Symbol)
  values : List (Value Symbol)
  found : List (Symbol × Option Nat)

/-- `outside` is a level or displacement that points outside the chain, `nullValue` a read of
a slot that is not set, `dangling` an address without a value. -/
inductive EvalError (Symbol : Type) where
  | undefinedVar (name : Symbol)
  | notASet
  | notAString
  | notABoolean
  | notAFunction
  | missingAttr (name : Symbol)
  | missingArgument (name : Symbol)
  | unexpectedArgument (name : Option Symbol)
  | dynamicAttrDefined (name : Symbol)
  | assertionFailed
  | infiniteRecursion
  | nullValue
  | dangling
  | outside
  | outOfFuel

/-- An exception leaves the memory as it is at that point. -/
abbrev M (Symbol Result : Type) := EStateM (EvalError Symbol) (Memory Symbol) Result

section

variable {Symbol : Type}

def allocEnv (scope : Scope Symbol) (size : Nat) : M Symbol Nat := fun memory =>
  .ok memory.envs.length { memory with envs := memory.envs ++ [⟨scope, List.replicate size none⟩] }

def allocValue (value : Value Symbol) : M Symbol Nat := fun memory =>
  .ok memory.values.length { memory with values := memory.values ++ [value] }

def Memory.write (memory : Memory Symbol) (address : Nat) (value : Value Symbol) : Memory Symbol :=
  { memory with values := memory.values.set address value }

def readSlot (env : Env) (displ : Nat) : M Symbol (Option Nat) := fun memory =>
  match env with
  | [] => .error .outside memory
  | address :: _ =>
    match memory.envs[address]? with
    | none => .error .outside memory
    | some frame =>
      match frame.values[displ]? with
      | none => .error .outside memory
      | some slot => .ok slot memory

def writeSlot (address displ value : Nat) : M Symbol Unit := fun memory =>
  match memory.envs[address]? with
  | none => .error .outside memory
  | some frame =>
    if displ < frame.values.length then
      .ok () { memory with
        envs := memory.envs.set address { frame with values := frame.values.set displ (some value) } }
    else .error .outside memory

def derefSlot : Option Nat → M Symbol Nat
  | none => throw .nullValue
  | some address => pure address

end

section Lookup

variable {Symbol : Type} [LinearOrder Symbol]

/-- How a variable is found: with `noEval` no set of a `with` may be forced. -/
abbrev Resolver (Symbol : Type) :=
  (Nat → M Symbol (List (Symbol × Nat))) → Env → Symbol → VarRef → Bool → M Symbol (Option Nat)

def searchWith (forceAttrs : Nat → M Symbol (List (Symbol × Nat))) (name : Symbol) :
    WithNode → Env → M Symbol Nat
  | .mk prevWith parentWith, env => do
      let slot ← readSlot env 0
      let address ← derefSlot slot
      let bindings ← forceAttrs address
      match find name bindings with
      | some value => pure value
      | none =>
        match parentWith with
        | none => throw (.undefinedVar name)
        | some parent => searchWith forceAttrs name parent (env.drop prevWith)

def lookupVar : Resolver Symbol := fun forceAttrs env name ref noEval =>
  match ref.fromWith with
  | none => readSlot (env.drop ref.level) ref.displ
  | some fromWith =>
    if noEval then pure none
    else do
      let value ← searchWith forceAttrs name fromWith (env.drop ref.level)
      pure (some value)

def lexicalBinding (envs : List (Frame Symbol)) (name : Symbol) : Env → Option (Env × Nat)
  | [] => none
  | address :: up =>
    match envs[address]? with
    | some ⟨.names names, _⟩ =>
      if name ∈ names then some (address :: up, names.idxOf name)
      else lexicalBinding envs name up
    | _ => lexicalBinding envs name up

def searchSets (forceAttrs : Nat → M Symbol (List (Symbol × Nat))) (name : Symbol) :
    Env → M Symbol Nat
  | [] => throw (.undefinedVar name)
  | address :: up => do
      let memory ← get
      match memory.envs[address]? with
      | some ⟨.ofWith, _⟩ =>
        let slot ← readSlot (address :: up) 0
        let set ← derefSlot slot
        let bindings ← forceAttrs set
        match find name bindings with
        | some value => pure value
        | none => searchSets forceAttrs name up
      | _ => searchSets forceAttrs name up

/-- What a name-based evaluator finds: the innermost enclosing binding of the name, and
otherwise the attribute of the innermost enclosing `with` set that has it. -/
def lookupName : Resolver Symbol := fun forceAttrs env name _ noEval => do
  let memory ← get
  match lexicalBinding memory.envs name env with
  | some (binder, displ) => readSlot binder displ
  | none =>
    if noEval then pure none
    else do
      let value ← searchSets forceAttrs name env
      pure (some value)

end Lookup

section Evaluator

variable {Symbol : Type} [LinearOrder Symbol] (resolve : Resolver Symbol)
  (self : Env → Expr Symbol VarRef → M Symbol (Value Symbol)) (sFunctor : Symbol)

def evalInto (address : Nat) (env : Env) (expr : Expr Symbol VarRef) : M Symbol (Value Symbol) :=
  fun memory =>
    match self env expr (memory.write address .blackhole) with
    | .ok value after => .ok value (after.write address value)
    | .error failure after => .error failure (after.write address (.thunk env expr))

def forceValue (address : Nat) : M Symbol (Value Symbol) := do
  let memory ← get
  match memory.values[address]? with
  | none => throw .dangling
  | some (.thunk env expr) => evalInto self address env expr
  | some .blackhole => throw .infiniteRecursion
  | some value => pure value

def forceAttrs (address : Nat) : M Symbol (List (Symbol × Nat)) := do
  let value ← forceValue self address
  match value with
  | .attrs bindings => pure bindings
  | _ => throw .notASet

def resolveVar (env : Env) (name : Symbol) (ref : VarRef) (noEval : Bool) :
    M Symbol (Option Nat) := do
  let slot ← resolve (forceAttrs self) env name ref noEval
  modify fun memory => { memory with found := memory.found ++ [(name, slot)] }
  pure slot

def maybeThunk (env : Env) : Expr Symbol VarRef → M Symbol Nat
  | .string s => allocValue (.string s)
  | .list [] => allocValue (.list [])
  | .var name ref => do
      let slot ← resolveVar resolve self env name ref true
      match slot with
      | some address => pure address
      | none => allocValue (.thunk env (.var name ref))
  | .inheritFrom displ => do
      let slot ← readSlot env displ
      match slot with
      | some address => pure address
      | none => allocValue (.thunk env (.inheritFrom displ))
  | e => allocValue (.thunk env e)

def maybeThunks (env : Env) : List (Expr Symbol VarRef) → M Symbol (List Nat)
  | [] => pure []
  | e :: rest => do
      let address ← maybeThunk resolve self env e
      let addresses ← maybeThunks env rest
      pure (address :: addresses)

def fillSources (frame : Nat) (up : Env) (displ : Nat) : List (Expr Symbol VarRef) → M Symbol Unit
  | [] => pure ()
  | source :: rest => do
      let address ← maybeThunk resolve self up source
      writeSlot frame displ address
      fillSources frame up (displ + 1) rest

def buildInheritFromEnv (up : Env) : Option (List (Expr Symbol VarRef)) → M Symbol Env
  | none => pure []
  | some exprs => do
      let frame ← allocEnv (.names []) exprs.length
      fillSources resolve self frame up 0 exprs
      pure (frame :: up)

def AttrDef.expr (name : Symbol) : AttrDef Symbol VarRef → Expr Symbol VarRef
  | .plain e => e
  | .inherited ref => .var name ref
  | .inheritedFrom displ => .select (.inheritFrom displ) [.symbol name] none

def AttrDef.chooseByKind {Choice : Type} (plain inherited inheritedFrom : Choice) :
    AttrDef Symbol VarRef → Choice
  | .plain _ => plain
  | .inherited _ => inherited
  | .inheritedFrom _ => inheritedFrom

def buildAttrs (store : Nat → Nat → M Symbol Unit) (plain inherited inheritedFrom : Env)
    (displ : Nat) : List (Symbol × AttrDef Symbol VarRef) → M Symbol (List (Symbol × Nat))
  | [] => pure []
  | (name, attr) :: rest => do
      let address ← maybeThunk resolve self (AttrDef.chooseByKind plain inherited inheritedFrom attr)
        (AttrDef.expr name attr)
      store displ address
      let bindings ← buildAttrs store plain inherited inheritedFrom (displ + 1) rest
      pure ((name, address) :: bindings)

def buildRecursive (env : Env) (attrs : List (Symbol × AttrDef Symbol VarRef))
    (inheritFromExprs : Option (List (Expr Symbol VarRef))) :
    M Symbol (Env × List (Symbol × Nat)) := do
  let frame ← allocEnv (.names (attrs.map Prod.fst)) attrs.length
  let env2 := frame :: env
  let inheritEnv ← buildInheritFromEnv resolve self env2 inheritFromExprs
  let bindings ← buildAttrs resolve self (writeSlot frame) env2 env inheritEnv 0 attrs
  pure (env2, bindings)

def addDynamic (env : Env) : List (Expr Symbol VarRef × Expr Symbol VarRef) →
    List (Symbol × Nat) → M Symbol (List (Symbol × Nat))
  | [], bindings => pure bindings
  | (nameExpr, valueExpr) :: rest, bindings => do
      let nameVal ← self env nameExpr
      match nameVal with
      | .null => addDynamic env rest bindings
      | .string name =>
        match find name bindings with
        | some _ => throw (.dynamicAttrDefined name)
        | none =>
          let address ← maybeThunk resolve self env valueExpr
          addDynamic env rest (emplace name address bindings)
      | _ => throw .notAString

def getName (env : Env) : AttrName Symbol VarRef → M Symbol Symbol
  | .symbol symbol => pure symbol
  | .dynamic expr => do
      let nameValue ← self env expr
      match nameValue with
      | .string name => pure name
      | _ => throw .notAString

/-- The loop of `ExprSelect::eval` over the attribute path; without a result the default is
to be evaluated. -/
def selectPath (env : Env) (hasDefault : Bool) :
    List (AttrName Symbol VarRef) → Nat → M Symbol (Option (Value Symbol))
  | [], address => do
      let value ← forceValue self address
      pure (some value)
  | attr :: rest, address => do
      let name ← getName self env attr
      if hasDefault then
        let value ← forceValue self address
        match value with
        | .attrs bindings =>
          match find name bindings with
          | some next => selectPath env hasDefault rest next
          | none => pure none
        | _ => pure none
      else
        let bindings ← forceAttrs self address
        match find name bindings with
        | some next => selectPath env hasDefault rest next
        | none => throw (.missingAttr name)

/-- The loop of `callFunction` over the formal arguments; the result is `attrsUsed`. -/
def buildFormals (bindings : List (Symbol × Nat)) (frame : Nat) (env2 : Env) (displ : Nat) :
    List (Symbol × Option (Expr Symbol VarRef)) → M Symbol Nat
  | [] => pure 0
  | (name, default) :: rest =>
    match find name bindings with
    | some value => do
        writeSlot frame displ value
        let used ← buildFormals bindings frame env2 (displ + 1) rest
        pure (used + 1)
    | none =>
      match default with
      | none => throw (.missingArgument name)
      | some e => do
          let value ← maybeThunk resolve self env2 e
          writeSlot frame displ value
          buildFormals bindings frame env2 (displ + 1) rest

def storeArg (frame value : Nat) : Option Symbol → M Symbol Unit
  | some _ => writeSlot frame 0 value
  | none => pure ()

def buildCall (env : Env) (arg : Option Symbol) (value : Nat) :
    Option (Formals Symbol VarRef) → M Symbol Env
  | none => do
      let frame ← allocEnv (.names arg.toList) arg.toList.length
      writeSlot frame 0 value
      pure (frame :: env)
  | some (.mk formals ellipsis) => do
      let frame ← allocEnv (.names (lambdaNames arg formals)) (lambdaNames arg formals).length
      let env2 := frame :: env
      let bindings ← forceAttrs self value
      storeArg frame value arg
      let attrsUsed ← buildFormals resolve self bindings frame env2 arg.toList.length formals
      if !ellipsis && attrsUsed != bindings.length then
        throw (.unexpectedArgument ((bindings.map Prod.fst).find? fun name =>
          !(formals.map Prod.fst).contains name))
      else pure env2

/-- The loop of `callFunction`, without primops. A set with the attribute `__functor` is called
by passing a copy of it to the functor. -/
def callArgs (callFunction : Value Symbol → List Nat → M Symbol (Value Symbol)) :
    Value Symbol → List Nat → M Symbol (Value Symbol)
  | current, [] => pure current
  | .lambda env arg formals body, value :: rest => do
      let env2 ← buildCall resolve self env arg value formals
      let next ← self env2 body
      callArgs callFunction next rest
  | .attrs bindings, value :: rest =>
    match find sFunctor bindings with
    | none => throw .notAFunction
    | some functor => do
        let copy ← allocValue (.attrs bindings)
        let current ← forceValue self functor
        let next ← callFunction current [copy, value]
        callArgs callFunction next rest
  | _, _ :: _ => throw .notAFunction

/-- `callFunction` on a value that has been forced. The first argument bounds how deep functors
are nested. -/
def callFunction : Nat → Value Symbol → List Nat → M Symbol (Value Symbol)
  | 0 => fun _ _ => throw .outOfFuel
  | depth + 1 => callArgs resolve self sFunctor (callFunction depth)

def evalBool (env : Env) (e : Expr Symbol VarRef) : M Symbol Bool := do
  let value ← self env e
  match value with
  | .bool value => pure value
  | _ => throw .notABoolean

def evalExpr (depth : Nat) (env : Env) : Expr Symbol VarRef → M Symbol (Value Symbol)
  | .string s => pure (.string s)
  | .var name ref => do
      let slot ← resolveVar resolve self env name ref false
      let address ← derefSlot slot
      forceValue self address
  | .inheritFrom displ => do
      let slot ← readSlot env displ
      let address ← derefSlot slot
      forceValue self address
  | .select e attrPath default => do
      let value ← self env e
      let temporary ← allocValue value
      let selected ← selectPath self env default.isSome attrPath temporary
      match selected, default with
      | some value, _ => pure value
      | none, some e => self env e
      | none, none => throw .notASet
  | .attrs true attrs inheritFromExprs dynamicAttrs => do
      let (env2, bindings) ← buildRecursive resolve self env attrs inheritFromExprs
      let bindings ← addDynamic resolve self env2 dynamicAttrs bindings
      pure (.attrs bindings)
  | .attrs false attrs inheritFromExprs dynamicAttrs => do
      let inheritEnv ← buildInheritFromEnv resolve self env inheritFromExprs
      let bindings ← buildAttrs resolve self (fun _ _ => pure ()) env env inheritEnv 0 attrs
      let bindings ← addDynamic resolve self env dynamicAttrs bindings
      pure (.attrs bindings)
  | .list elems => do
      let addresses ← maybeThunks resolve self env elems
      pure (.list addresses)
  | .lambda arg formals body => pure (.lambda env arg formals body)
  | .call function args => do
      let value ← self env function
      let addresses ← maybeThunks resolve self env args
      callFunction resolve self sFunctor depth value addresses
  | .letIn attrs inheritFromExprs body => do
      let (env2, _) ← buildRecursive resolve self env attrs inheritFromExprs
      self env2 body
  | .withIn attrs body => do
      let frame ← allocEnv .ofWith 1
      let address ← maybeThunk resolve self env attrs
      writeSlot frame 0 address
      self (frame :: env) body
  | .ifElse cond whenTrue whenFalse => do
      let value ← evalBool self env cond
      if value then self env whenTrue else self env whenFalse
  | .assertThen cond body => do
      let value ← evalBool self env cond
      if value then self env body else throw .assertionFailed

end Evaluator

def eval {Symbol : Type} [LinearOrder Symbol] (resolve : Resolver Symbol) (sFunctor : Symbol) :
    Nat → Env → Expr Symbol VarRef → M Symbol (Value Symbol)
  | 0, _, _ => throw .outOfFuel
  | fuel + 1, env, e => evalExpr resolve (eval resolve sFunctor fuel) sFunctor fuel env e

end Bsd.Expr.Evaluation
