import Bsd.Expr.StaticScopes

/-!
# What `bindVars` guarantees

`WellFormed` has what the parser guarantees of an expression: attributes and formal
arguments in the order of their names, an argument name that is no formal, displacements of
inherited-from attributes inside the vector of sources. `Bound` says of a bound expression
that every variable in it was resolved in the static environment of the place where it
stands.
-/

namespace Bsd.Expr.BoundScopes

open Lib.Readers Expr.StaticScopes

section WellFormed

variable {Symbol : Type} [LinearOrder Symbol]

def ascendingNames {Def : Type} (attrs : List (Symbol × Def)) : Bool :=
  decide ((attrs.map Prod.fst).Pairwise (· < ·))

def displsBelow {Ref : Type} (size : Nat) (attrs : List (Symbol × AttrDef Symbol Ref)) : Bool :=
  attrs.all fun entry => match entry.2 with
    | .inheritedFrom displ => decide (displ < size)
    | _ => true

/-- What `validateFormals` checks; a function without formals has an argument name. -/
def formalsValid {Ref : Type} (arg : Option Symbol) : Option (Formals Symbol Ref) → Bool
  | none => arg.isSome
  | some (.mk formals _) => ascendingNames formals && decide (∀ name ∈ arg, name ∉ formals.map Prod.fst)

mutual

def wellFormed : Expr Symbol Unit → Bool
  | .string _ => true
  | .var _ _ => true
  | .inheritFrom _ => false
  | .select e attrPath default => wellFormed e && wellFormedPath attrPath && wellFormedOptional default
  | .attrs _ attrs inheritFromExprs dynamicAttrs =>
    ascendingNames attrs && displsBelow (inheritFromExprs.getD []).length attrs &&
      wellFormedAttrs attrs && wellFormedSources inheritFromExprs &&
      wellFormedDynamic dynamicAttrs
  | .list elems => wellFormedAll elems
  | .lambda arg formals body =>
    formalsValid arg formals && wellFormedFormals formals && wellFormed body
  | .call function args => wellFormed function && wellFormedAll args
  | .letIn attrs inheritFromExprs body =>
    ascendingNames attrs && displsBelow (inheritFromExprs.getD []).length attrs &&
      wellFormedAttrs attrs && wellFormedSources inheritFromExprs && wellFormed body
  | .withIn attrs body => wellFormed attrs && wellFormed body
  | .ifElse cond whenTrue whenFalse =>
    wellFormed cond && wellFormed whenTrue && wellFormed whenFalse
  | .assertThen cond body => wellFormed cond && wellFormed body

def wellFormedAll : List (Expr Symbol Unit) → Bool
  | [] => true
  | e :: rest => wellFormed e && wellFormedAll rest

def wellFormedOptional : Option (Expr Symbol Unit) → Bool
  | none => true
  | some e => wellFormed e

def wellFormedPath : List (AttrName Symbol Unit) → Bool
  | [] => true
  | .symbol _ :: rest => wellFormedPath rest
  | .dynamic expr :: rest => wellFormed expr && wellFormedPath rest

def wellFormedSources : Option (List (Expr Symbol Unit)) → Bool
  | none => true
  | some exprs => wellFormedAll exprs

def wellFormedAttrs : List (Symbol × AttrDef Symbol Unit) → Bool
  | [] => true
  | (_, .plain e) :: rest => wellFormed e && wellFormedAttrs rest
  | (_, .inherited _) :: rest => wellFormedAttrs rest
  | (_, .inheritedFrom _) :: rest => wellFormedAttrs rest

def wellFormedDynamic : List (Expr Symbol Unit × Expr Symbol Unit) → Bool
  | [] => true
  | (nameExpr, valueExpr) :: rest =>
    wellFormed nameExpr && wellFormed valueExpr && wellFormedDynamic rest

def wellFormedFormals : Option (Formals Symbol Unit) → Bool
  | none => true
  | some (.mk formals _) => wellFormedDefaults formals

def wellFormedDefaults : List (Symbol × Option (Expr Symbol Unit)) → Bool
  | [] => true
  | (_, none) :: rest => wellFormedDefaults rest
  | (_, some e) :: rest => wellFormed e && wellFormedDefaults rest

end

end WellFormed

section

variable {Symbol : Type} [LinearOrder Symbol]

structure AttrsFit (env : StaticEnv Symbol) (attrs : List (Symbol × AttrDef Symbol VarRef))
    (inheritFromExprs : Option (List (Expr Symbol VarRef))) : Prop where
  names : (attrs.map Prod.fst).Pairwise (· < ·)
  inherited : ∀ name ref, (name, .inherited ref) ∈ attrs → bindVar env name = .ok ref
  displs : ∀ name displ, (name, .inheritedFrom displ) ∈ attrs →
    displ < (inheritFromExprs.getD []).length

def attrsEnv (recursive : Bool) (attrs : List (Symbol × AttrDef Symbol VarRef))
    (env : StaticEnv Symbol) : StaticEnv Symbol :=
  if recursive then attrsLevel attrs :: env else env

inductive Bound : StaticEnv Symbol → Expr Symbol VarRef → Prop where
  | string {env : StaticEnv Symbol} (s : Symbol) : Bound env (.string s)
  | var {env : StaticEnv Symbol} {name : Symbol} {ref : VarRef}
      (resolved : bindVar env name = .ok ref) : Bound env (.var name ref)
  | select {env : StaticEnv Symbol} {e : Expr Symbol VarRef}
      {attrPath : List (AttrName Symbol VarRef)} {default : Option (Expr Symbol VarRef)}
      (inner : Bound env e) (names : ∀ expr, .dynamic expr ∈ attrPath → Bound env expr)
      (otherwise : ∀ e, default = some e → Bound env e) : Bound env (.select e attrPath default)
  | attrs {env : StaticEnv Symbol} {recursive : Bool}
      {attrs : List (Symbol × AttrDef Symbol VarRef)}
      {inheritFromExprs : Option (List (Expr Symbol VarRef))}
      {dynamicAttrs : List (Expr Symbol VarRef × Expr Symbol VarRef)}
      (fit : AttrsFit env attrs inheritFromExprs)
      (sources : ∀ exprs, inheritFromExprs = some exprs →
        ∀ e ∈ exprs, Bound (attrsEnv recursive attrs env) e)
      (plain : ∀ name e, (name, .plain e) ∈ attrs → Bound (attrsEnv recursive attrs env) e)
      (dynamicNames : ∀ pair ∈ dynamicAttrs, Bound (attrsEnv recursive attrs env) pair.1)
      (dynamicValues : ∀ pair ∈ dynamicAttrs, Bound (attrsEnv recursive attrs env) pair.2) :
      Bound env (.attrs recursive attrs inheritFromExprs dynamicAttrs)
  | list {env : StaticEnv Symbol} {elems : List (Expr Symbol VarRef)}
      (all : ∀ e ∈ elems, Bound env e) : Bound env (.list elems)
  | lambda {env : StaticEnv Symbol} {arg : Option Symbol} {formals : Option (Formals Symbol VarRef)}
      {body : Expr Symbol VarRef} (valid : formalsValid arg formals = true)
      (defaults : ∀ entries ellipsis name e, formals = some (.mk entries ellipsis) →
        (name, some e) ∈ entries → Bound (lambdaLevel arg formals :: env) e)
      (inner : Bound (lambdaLevel arg formals :: env) body) : Bound env (.lambda arg formals body)
  | call {env : StaticEnv Symbol} {function : Expr Symbol VarRef} {args : List (Expr Symbol VarRef)}
      (called : Bound env function) (all : ∀ e ∈ args, Bound env e) : Bound env (.call function args)
  | letIn {env : StaticEnv Symbol} {attrs : List (Symbol × AttrDef Symbol VarRef)}
      {inheritFromExprs : Option (List (Expr Symbol VarRef))} {body : Expr Symbol VarRef}
      (fit : AttrsFit env attrs inheritFromExprs)
      (sources : ∀ exprs, inheritFromExprs = some exprs →
        ∀ e ∈ exprs, Bound (attrsLevel attrs :: env) e)
      (plain : ∀ name e, (name, .plain e) ∈ attrs → Bound (attrsLevel attrs :: env) e)
      (inner : Bound (attrsLevel attrs :: env) body) : Bound env (.letIn attrs inheritFromExprs body)
  | withIn {env : StaticEnv Symbol} {attrs body : Expr Symbol VarRef} (set : Bound env attrs)
      (inner : Bound (⟨some (withNode env), []⟩ :: env) body) : Bound env (.withIn attrs body)
  | ifElse {env : StaticEnv Symbol} {cond whenTrue whenFalse : Expr Symbol VarRef}
      (condition : Bound env cond) (first : Bound env whenTrue) (second : Bound env whenFalse) :
      Bound env (.ifElse cond whenTrue whenFalse)
  | assertThen {env : StaticEnv Symbol} {cond body : Expr Symbol VarRef}
      (condition : Bound env cond) (inner : Bound env body) : Bound env (.assertThen cond body)

end

section Guarantee

variable {Symbol : Type} [LinearOrder Symbol]

omit [LinearOrder Symbol] in
theorem attrs_level_names {Def Other : Type} {attrs : List (Symbol × Def)}
    {others : List (Symbol × Other)} (same : others.map Prod.fst = attrs.map Prod.fst) :
    attrsLevel others = attrsLevel attrs := by
  rw [attrsLevel, attrsLevel, same]

variable {result : List (Symbol × AttrDef Symbol VarRef)}
  {attrs : List (Symbol × AttrDef Symbol Unit)} {plain : StaticEnv Symbol}

theorem bind_attrs_entries {inherited : StaticEnv Symbol}
    (ran : bindAttrs plain inherited attrs = .ok result) :
    result.map Prod.fst = attrs.map Prod.fst ∧
      (∀ name ref, (name, .inherited ref) ∈ result → bindVar inherited name = .ok ref) ∧
      ∀ size, displsBelow size result = displsBelow size attrs := by
  induction attrs generalizing result with
  | nil =>
    cases ran
    exact ⟨rfl, nofun, fun _ => rfl⟩
  | cons entry rest ih =>
    obtain ⟨name, attr⟩ := entry
    cases attr with
    | plain e =>
      simp only [bindAttrs, except_bind_ok_iff] at ran
      obtain ⟨bound, -, later, ranLater, ⟨⟩⟩ := ran
      obtain ⟨names, refs, displs⟩ := ih ranLater
      refine ⟨congrArg (name :: ·) names, ?_, fun size => congrArg (true && ·) (displs size)⟩
      rintro other ref (_ | ⟨_, inLater⟩)
      exact refs other ref inLater
    | inherited ref =>
      simp only [bindAttrs, except_bind_ok_iff] at ran
      obtain ⟨bound, resolved, later, ranLater, ⟨⟩⟩ := ran
      obtain ⟨names, refs, displs⟩ := ih ranLater
      refine ⟨congrArg (name :: ·) names, ?_, fun size => congrArg (true && ·) (displs size)⟩
      rintro other ref (_ | ⟨_, inLater⟩)
      · exact resolved
      · exact refs other ref inLater
    | inheritedFrom displ =>
      simp only [bindAttrs, except_bind_ok_iff] at ran
      obtain ⟨later, ranLater, ⟨⟩⟩ := ran
      obtain ⟨names, refs, displs⟩ := ih ranLater
      refine ⟨congrArg (name :: ·) names, ?_,
        fun size => congrArg (decide (displ < size) && ·) (displs size)⟩
      rintro other ref (_ | ⟨_, inLater⟩)
      exact refs other ref inLater

variable {env : StaticEnv Symbol}

theorem bind_all_length {exprs : List (Expr Symbol Unit)} {result : List (Expr Symbol VarRef)}
    (ran : bindAll env exprs = .ok result) : result.length = exprs.length := by
  induction exprs generalizing result with
  | nil =>
    cases ran
    rfl
  | cons e rest ih =>
    simp only [bindAll, except_bind_ok_iff] at ran
    obtain ⟨bound, -, later, ranLater, ⟨⟩⟩ := ran
    exact congrArg Nat.succ (ih ranLater)

variable {exprs : Option (List (Expr Symbol Unit))}

theorem bind_sources_length {result : Option (List (Expr Symbol VarRef))}
    (ran : bindSources env exprs = .ok result) :
    (result.getD []).length = (exprs.getD []).length := by
  cases exprs with
  | none =>
    cases ran
    rfl
  | some exprs =>
    obtain ⟨bound, ranAll, ⟨⟩⟩ := except_bind_ok ran
    exact bind_all_length ranAll

theorem bind_defaults_names {formals : List (Symbol × Option (Expr Symbol Unit))}
    {result : List (Symbol × Option (Expr Symbol VarRef))}
    (ran : bindDefaults env formals = .ok result) : result.map Prod.fst = formals.map Prod.fst := by
  induction formals generalizing result with
  | nil =>
    cases ran
    rfl
  | cons entry rest ih =>
    obtain ⟨name, default⟩ := entry
    cases default with
    | none =>
      obtain ⟨later, ranLater, ⟨⟩⟩ := except_bind_ok ran
      exact congrArg (name :: ·) (ih ranLater)
    | some e =>
      simp only [bindDefaults, except_bind_ok_iff] at ran
      obtain ⟨bound, -, later, ranLater, ⟨⟩⟩ := ran
      exact congrArg (name :: ·) (ih ranLater)

theorem attrs_fit {sources : Option (List (Expr Symbol VarRef))}
    (ascending : ascendingNames attrs = true)
    (below : displsBelow (exprs.getD []).length attrs = true)
    (ranAttrs : bindAttrs plain env attrs = .ok result)
    (ranSources : bindSources plain exprs = .ok sources) : AttrsFit env result sources := by
  obtain ⟨names, refs, displs⟩ := bind_attrs_entries ranAttrs
  refine ⟨?_, refs, ?_⟩
  · rw [names]
    exact of_decide_eq_true ascending
  · intro name displ member
    rw [← displs, ← bind_sources_length ranSources] at below
    exact of_decide_eq_true (List.all_eq_true.mp below _ member)

mutual

/-- Every variable that `bindVars` leaves was resolved in the static environment of the place
where it stands, with the scopes of the expressions around it pushed in order. -/
theorem bind_vars_bound (source : Expr Symbol Unit) {env : StaticEnv Symbol}
    {e : Expr Symbol VarRef} (valid : wellFormed source = true)
    (ran : bindVars env source = .ok e) : Bound env e := by
  cases source <;>
    simp only [wellFormed, Bool.and_eq_true, bindVars, except_bind_ok_iff] at valid ran
  case string s =>
    cases ran
    exact .string s
  case var name ref =>
    obtain ⟨ref, resolved, ⟨⟩⟩ := ran
    exact .var resolved
  case inheritFrom displ => cases valid
  case select inner attrPath default =>
    obtain ⟨⟨innerValid, pathValid⟩, defaultValid⟩ := valid
    obtain ⟨inner', ranInner, default', ranDefault, path', ranPath, ⟨⟩⟩ := ran
    exact .select (bind_vars_bound inner innerValid ranInner)
      (bind_path_bound attrPath pathValid ranPath)
      (bind_optional_bound default defaultValid ranDefault)
  case attrs recursive attrs exprs dynamicAttrs =>
    obtain ⟨⟨⟨⟨ascending, below⟩, attrsValid⟩, sourcesValid⟩, dynamicValid⟩ := valid
    obtain ⟨sources, ranSources, result, ranAttrs, dynamic', ranDynamic, ⟨⟩⟩ := ran
    have newEnv : (if recursive = true then attrsLevel attrs :: env else env) =
        attrsEnv recursive result env := by
      rw [attrsEnv, attrs_level_names (bind_attrs_entries ranAttrs).1]
    have fit := attrs_fit ascending below ranAttrs ranSources
    rw [newEnv] at ranSources ranAttrs ranDynamic
    exact .attrs fit (bind_sources_bound exprs sourcesValid ranSources)
      (bind_attrs_bound attrs attrsValid ranAttrs)
      (fun pair member => (bind_dynamic_bound dynamicAttrs dynamicValid ranDynamic pair member).1)
      (fun pair member => (bind_dynamic_bound dynamicAttrs dynamicValid ranDynamic pair member).2)
  case list elems =>
    obtain ⟨all, ranAll, ⟨⟩⟩ := ran
    exact .list (bind_all_bound elems valid ranAll)
  case lambda arg formals body =>
    obtain ⟨⟨formalsOk, defaultsValid⟩, bodyValid⟩ := valid
    obtain ⟨formals', ranFormals, body', ranBody, ⟨⟩⟩ := ran
    have inner := bind_vars_bound body bodyValid ranBody
    cases formals with
    | none =>
      rw [bindFormals] at ranFormals
      cases ranFormals
      exact .lambda formalsOk nofun inner
    | some formals =>
      obtain ⟨entries, ellipsis⟩ := formals
      rw [bindFormals] at ranFormals
      obtain ⟨entries', ranDefaults, ⟨⟩⟩ := except_bind_ok ranFormals
      have names := bind_defaults_names ranDefaults
      have sameLevel : lambdaLevel arg (some (.mk entries' ellipsis)) =
          lambdaLevel arg (some (.mk entries ellipsis)) := by
        rw [lambdaLevel, lambdaLevel, lambdaNames, lambdaNames, names]
      rw [wellFormedFormals] at defaultsValid
      have defaults := bind_defaults_bound entries defaultsValid ranDefaults
      rw [← sameLevel] at inner defaults
      refine .lambda ?_ ?_ inner
      · rw [formalsValid, ascendingNames, names]
        exact formalsOk
      · rintro _ _ name e ⟨rfl, rfl⟩ member
        exact defaults name e member
  case call function args =>
    obtain ⟨function', ranFunction, args', ranArgs, ⟨⟩⟩ := ran
    exact .call (bind_vars_bound function valid.1 ranFunction) (bind_all_bound args valid.2 ranArgs)
  case letIn attrs exprs body =>
    obtain ⟨⟨⟨⟨ascending, below⟩, attrsValid⟩, sourcesValid⟩, bodyValid⟩ := valid
    obtain ⟨sources, ranSources, result, ranAttrs, body', ranBody, ⟨⟩⟩ := ran
    have fit := attrs_fit ascending below ranAttrs ranSources
    have sameLevel := attrs_level_names (bind_attrs_entries ranAttrs).1
    have sourcesBound := bind_sources_bound exprs sourcesValid ranSources
    have attrsBound := bind_attrs_bound attrs attrsValid ranAttrs
    have inner := bind_vars_bound body bodyValid ranBody
    rw [← sameLevel] at sourcesBound attrsBound inner
    exact .letIn fit sourcesBound attrsBound inner
  case withIn attrs body =>
    obtain ⟨attrs', ranAttrs, body', ranBody, ⟨⟩⟩ := ran
    exact .withIn (bind_vars_bound attrs valid.1 ranAttrs) (bind_vars_bound body valid.2 ranBody)
  case ifElse cond whenTrue whenFalse =>
    obtain ⟨cond', ranCond, true', ranTrue, false', ranFalse, ⟨⟩⟩ := ran
    exact .ifElse (bind_vars_bound cond valid.1.1 ranCond)
      (bind_vars_bound whenTrue valid.1.2 ranTrue) (bind_vars_bound whenFalse valid.2 ranFalse)
  case assertThen cond body =>
    obtain ⟨cond', ranCond, body', ranBody, ⟨⟩⟩ := ran
    exact .assertThen (bind_vars_bound cond valid.1 ranCond) (bind_vars_bound body valid.2 ranBody)

theorem bind_all_bound (exprs : List (Expr Symbol Unit)) {env : StaticEnv Symbol}
    {result : List (Expr Symbol VarRef)} (valid : wellFormedAll exprs = true)
    (ran : bindAll env exprs = .ok result) : ∀ e ∈ result, Bound env e := by
  cases exprs <;>
    simp only [wellFormedAll, Bool.and_eq_true, bindAll, except_bind_ok_iff] at valid ran
  case nil =>
    cases ran
    nofun
  case cons first rest =>
    obtain ⟨first', ranFirst, rest', ranRest, ⟨⟩⟩ := ran
    exact List.forall_mem_cons.mpr ⟨bind_vars_bound first valid.1 ranFirst,
      bind_all_bound rest valid.2 ranRest⟩

theorem bind_optional_bound (default : Option (Expr Symbol Unit)) {env : StaticEnv Symbol}
    {result : Option (Expr Symbol VarRef)} (valid : wellFormedOptional default = true)
    (ran : bindOptional env default = .ok result) : ∀ e, result = some e → Bound env e := by
  cases default <;> simp only [wellFormedOptional, bindOptional, except_bind_ok_iff] at valid ran
  case none =>
    cases ran
    nofun
  case some e =>
    obtain ⟨e', ranE, ⟨⟩⟩ := ran
    rintro _ ⟨rfl⟩
    exact bind_vars_bound e valid ranE

theorem bind_path_bound (attrPath : List (AttrName Symbol Unit)) {env : StaticEnv Symbol}
    {result : List (AttrName Symbol VarRef)} (valid : wellFormedPath attrPath = true)
    (ran : bindPath env attrPath = .ok result) : ∀ e, .dynamic e ∈ result → Bound env e := by
  rcases attrPath with _ | ⟨_ | expr, rest⟩ <;>
    simp only [wellFormedPath, Bool.and_eq_true, bindPath, except_bind_ok_iff] at valid ran
  case nil =>
    cases ran
    nofun
  case cons.symbol =>
    obtain ⟨rest', ranRest, ⟨⟩⟩ := ran
    rintro e (_ | ⟨_, inRest⟩)
    exact bind_path_bound rest valid ranRest e inRest
  case cons.dynamic =>
    obtain ⟨expr', ranExpr, rest', ranRest, ⟨⟩⟩ := ran
    rintro e (_ | ⟨_, inRest⟩)
    · exact bind_vars_bound expr valid.1 ranExpr
    · exact bind_path_bound rest valid.2 ranRest e inRest

theorem bind_sources_bound (exprs : Option (List (Expr Symbol Unit))) {env : StaticEnv Symbol}
    {result : Option (List (Expr Symbol VarRef))} (valid : wellFormedSources exprs = true)
    (ran : bindSources env exprs = .ok result) :
    ∀ sources, result = some sources → ∀ e ∈ sources, Bound env e := by
  cases exprs <;> simp only [wellFormedSources, bindSources, except_bind_ok_iff] at valid ran
  case none =>
    cases ran
    nofun
  case some exprs =>
    obtain ⟨all, ranAll, ⟨⟩⟩ := ran
    rintro _ ⟨rfl⟩
    exact bind_all_bound exprs valid ranAll

theorem bind_attrs_bound (attrs : List (Symbol × AttrDef Symbol Unit))
    {plain inherited : StaticEnv Symbol} {result : List (Symbol × AttrDef Symbol VarRef)}
    (valid : wellFormedAttrs attrs = true) (ran : bindAttrs plain inherited attrs = .ok result) :
    ∀ name e, (name, .plain e) ∈ result → Bound plain e := by
  rcases attrs with _ | ⟨⟨name, e | ref | displ⟩, rest⟩ <;>
    simp only [wellFormedAttrs, Bool.and_eq_true, bindAttrs, except_bind_ok_iff] at valid ran
  case nil =>
    cases ran
    nofun
  case cons.plain =>
    obtain ⟨e', ranE, rest', ranRest, ⟨⟩⟩ := ran
    rintro other found (_ | ⟨_, inRest⟩)
    · exact bind_vars_bound e valid.1 ranE
    · exact bind_attrs_bound rest valid.2 ranRest other found inRest
  case cons.inherited =>
    obtain ⟨ref', -, rest', ranRest, ⟨⟩⟩ := ran
    rintro other found (_ | ⟨_, inRest⟩)
    exact bind_attrs_bound rest valid ranRest other found inRest
  case cons.inheritedFrom =>
    obtain ⟨rest', ranRest, ⟨⟩⟩ := ran
    rintro other found (_ | ⟨_, inRest⟩)
    exact bind_attrs_bound rest valid ranRest other found inRest

theorem bind_dynamic_bound (dynamicAttrs : List (Expr Symbol Unit × Expr Symbol Unit))
    {env : StaticEnv Symbol} {result : List (Expr Symbol VarRef × Expr Symbol VarRef)}
    (valid : wellFormedDynamic dynamicAttrs = true)
    (ran : bindDynamic env dynamicAttrs = .ok result) :
    ∀ pair ∈ result, Bound env pair.1 ∧ Bound env pair.2 := by
  rcases dynamicAttrs with _ | ⟨⟨nameExpr, valueExpr⟩, rest⟩ <;>
    simp only [wellFormedDynamic, Bool.and_eq_true, bindDynamic, except_bind_ok_iff] at valid ran
  case nil =>
    cases ran
    nofun
  case cons =>
    obtain ⟨nameExpr', ranName, valueExpr', ranValue, rest', ranRest, ⟨⟩⟩ := ran
    exact List.forall_mem_cons.mpr ⟨⟨bind_vars_bound nameExpr valid.1.1 ranName,
      bind_vars_bound valueExpr valid.1.2 ranValue⟩, bind_dynamic_bound rest valid.2 ranRest⟩

theorem bind_defaults_bound (formals : List (Symbol × Option (Expr Symbol Unit)))
    {env : StaticEnv Symbol} {result : List (Symbol × Option (Expr Symbol VarRef))}
    (valid : wellFormedDefaults formals = true) (ran : bindDefaults env formals = .ok result) :
    ∀ name e, (name, some e) ∈ result → Bound env e := by
  rcases formals with _ | ⟨⟨name, _ | e⟩, rest⟩ <;>
    simp only [wellFormedDefaults, Bool.and_eq_true, bindDefaults, except_bind_ok_iff] at valid ran
  case nil =>
    cases ran
    nofun
  case cons.none =>
    obtain ⟨rest', ranRest, ⟨⟩⟩ := ran
    rintro other found (_ | ⟨_, inRest⟩)
    exact bind_defaults_bound rest valid ranRest other found inRest
  case cons.some =>
    obtain ⟨e', ranE, rest', ranRest, ⟨⟩⟩ := ran
    rintro other found (_ | ⟨_, inRest⟩)
    · exact bind_vars_bound e valid.1 ranE
    · exact bind_defaults_bound rest valid.2 ranRest other found inRest

end

end Guarantee

end Bsd.Expr.BoundScopes
