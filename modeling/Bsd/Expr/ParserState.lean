import Bsd.Lib.OrdMap
import Bsd.Lib.Readers

/-!
# Attribute sets in the parser

The `binds` actions of `parser.y` and the two functions `ParserState::addAttr`. An
`inherit (e) a b;` clause allocates one `ExprInheritFrom` node that the selections of all
its names share, so these nodes live in a heap: an address is the number of the node, and
the heap holds its displacement. Expressions other than attribute sets are not looked into.
-/

namespace Bsd.Expr.ParserState

open Lib.OrdMap

/-- `AttrDef`, with the kind as the constructor: `plain` and `set` are plain attributes, the
latter those whose expression is an `ExprAttrs`; `inherited` is an `ExprVar`;
`inheritedFrom` is an `ExprSelect` of the name from the `ExprInheritFrom` at the address. -/
inductive AttrDef (Symbol Expr : Type) where
  | plain (e : Expr)
  | set (recursive : Bool) (attrs : List (Symbol × AttrDef Symbol Expr))
      (inheritFromExprs : Option (List Expr)) (dynamicAttrs : List (Expr × AttrDef Symbol Expr))
  | inherited (name : Symbol)
  | inheritedFrom (origin : Nat) (name : Symbol)

abbrev AttrDefs (Symbol Expr : Type) := List (Symbol × AttrDef Symbol Expr)

structure ExprAttrs (Symbol Expr : Type) where
  recursive : Bool
  attrs : AttrDefs Symbol Expr
  inheritFromExprs : Option (List Expr)
  dynamicAttrs : List (Expr × AttrDef Symbol Expr)

inductive AttrName (Symbol Expr : Type) where
  | symbol (symbol : Symbol)
  | dynamic (expr : Expr)

/-- `attribute '%1%' already defined at %2%`, without the positions. -/
inductive ParseError (Symbol Expr : Type) where
  | dupAttr (attrPath : List (AttrName Symbol Expr))

/-- `uint32_t`. -/
abbrev Displacement := BitVec 32

/-- The displacements of the `ExprInheritFrom` nodes allocated so far. -/
abbrev Heap := List Displacement

section Merging

variable {Symbol Expr : Type}

namespace ExprAttrs

def new : ExprAttrs Symbol Expr := ⟨false, [], none, []⟩

def toDef (set : ExprAttrs Symbol Expr) : AttrDef Symbol Expr :=
  .set set.recursive set.attrs set.inheritFromExprs set.dynamicAttrs

def sources (set : ExprAttrs Symbol Expr) : List Expr := set.inheritFromExprs.getD []

def share (target : ExprAttrs Symbol Expr) (other : Option (List Expr)) : ExprAttrs Symbol Expr :=
  match target.inheritFromExprs, other with
  | none, some _ => { target with inheritFromExprs := some [] }
  | _, _ => target

def extend (target : ExprAttrs Symbol Expr) (other : Option (List Expr))
    (dynamicAttrs : List (Expr × AttrDef Symbol Expr)) : ExprAttrs Symbol Expr :=
  { target with
    dynamicAttrs := target.dynamicAttrs ++ dynamicAttrs
    inheritFromExprs := match other with
      | none => target.inheritFromExprs
      | some exprs => some (target.sources ++ exprs) }

variable [LinearOrder Symbol]

def emplace (set : ExprAttrs Symbol Expr) (symbol : Symbol) (attr : AttrDef Symbol Expr) :
    ExprAttrs Symbol Expr :=
  { set with attrs := Lib.OrdMap.emplace symbol attr set.attrs }

def replace (set : ExprAttrs Symbol Expr) (symbol : Symbol) (attr : AttrDef Symbol Expr) :
    ExprAttrs Symbol Expr :=
  { set with attrs := Lib.OrdMap.replace symbol attr set.attrs }

end ExprAttrs

/-- `from.displ += size` for an attribute of kind `InheritedFrom`. -/
def displace (size : Nat) (heap : Heap) : AttrDef Symbol Expr → Heap
  | .inheritedFrom origin _ => heap.modify origin (· + .ofNat 32 size)
  | _ => heap

variable [LinearOrder Symbol]

mutual

/-- `addAttr(attrs, attrPath, symbol, def)`: two sets under one symbol are merged. -/
def addAttr (attrPath : List (AttrName Symbol Expr)) (attrs : ExprAttrs Symbol Expr)
    (symbol : Symbol) (heap : Heap) :
    AttrDef Symbol Expr → Except (ParseError Symbol Expr) (ExprAttrs Symbol Expr × Heap)
  | .set recursive aeAttrs aeSources aeDynamic =>
    match find symbol attrs.attrs with
    | none => .ok (attrs.emplace symbol (.set recursive aeAttrs aeSources aeDynamic), heap)
    | some (.set jRecursive jAttrs jSources jDynamic) => do
        let jSet : ExprAttrs Symbol Expr := ⟨jRecursive, jAttrs, jSources, jDynamic⟩
        let (merged, heap) ← addAttrs attrPath (jSet.share aeSources) heap aeAttrs
        .ok (attrs.replace symbol (merged.extend aeSources aeDynamic).toDef, heap)
    | some _ => .error (.dupAttr attrPath)
  | attr =>
    match find symbol attrs.attrs with
    | none => .ok (attrs.emplace symbol attr, heap)
    | some _ => .error (.dupAttr attrPath)

/-- The loop over `ae->attrs`. The sources of `ae` join the vector behind the loop, so all
rounds see the same size. -/
def addAttrs (attrPath : List (AttrName Symbol Expr)) (jAttrs : ExprAttrs Symbol Expr)
    (heap : Heap) :
    AttrDefs Symbol Expr →
      Except (ParseError Symbol Expr) (ExprAttrs Symbol Expr × Heap)
  | [] => .ok (jAttrs, heap)
  | (symbol, attr) :: rest => do
      let (jAttrs, heap) ← addAttr (attrPath ++ [.symbol symbol]) jAttrs symbol
        (displace jAttrs.sources.length heap attr) attr
      addAttrs attrPath jAttrs heap rest

end

/-- `addAttr(attrs, attrPath, loc, e, exprLoc)`: the sets on the way to the last name are
entered or created. -/
def addPath (passed : List (AttrName Symbol Expr)) (attrs : ExprAttrs Symbol Expr) (heap : Heap)
    (e : AttrDef Symbol Expr) : AttrName Symbol Expr → List (AttrName Symbol Expr) →
      Except (ParseError Symbol Expr) (ExprAttrs Symbol Expr × Heap)
  | .symbol symbol, [] => addAttr (passed ++ [.symbol symbol]) attrs symbol heap e
  | .dynamic expr, [] => .ok ({ attrs with dynamicAttrs := attrs.dynamicAttrs ++ [(expr, e)] }, heap)
  | .symbol symbol, next :: names =>
    match find symbol attrs.attrs with
    | none => do
        let (nested, heap) ← addPath (passed ++ [.symbol symbol]) .new heap e next names
        .ok (attrs.emplace symbol nested.toDef, heap)
    | some (.set recursive jAttrs sources dynamicAttrs) => do
        let (nested, heap) ← addPath (passed ++ [.symbol symbol])
          ⟨recursive, jAttrs, sources, dynamicAttrs⟩ heap e next names
        .ok (attrs.replace symbol nested.toDef, heap)
    | some _ => .error (.dupAttr (passed ++ [.symbol symbol]))
  | .dynamic expr, next :: names => do
      let (nested, heap) ← addPath (passed ++ [.dynamic expr]) .new heap e next names
      .ok ({ attrs with dynamicAttrs := attrs.dynamicAttrs ++ [(expr, nested.toDef)] }, heap)

def inheritAll (attr : Symbol → AttrDef Symbol Expr) :
    List Symbol → ExprAttrs Symbol Expr → Except (ParseError Symbol Expr) (ExprAttrs Symbol Expr)
  | [], accum => .ok accum
  | name :: names, accum =>
    match find name accum.attrs with
    | some _ => .error (.dupAttr [.symbol name])
    | none => inheritAll attr names (accum.emplace name (attr name))

end Merging

mutual

inductive Source (Symbol Expr : Type) where
  | other (e : Expr)
  | set (recursive : Bool) (binds : List (Bind Symbol Expr))

/-- `path = e;`, `inherit names;` and `inherit (e) names;`. -/
inductive Bind (Symbol Expr : Type) where
  | attr (first : AttrName Symbol Expr) (names : List (AttrName Symbol Expr))
      (e : Source Symbol Expr)
  | inherit (names : List Symbol)
  | inheritFrom (e : Expr) (names : List Symbol)

end

section

variable {Symbol Expr : Type} [LinearOrder Symbol]

mutual

def parseExpr (heap : Heap) : Source Symbol Expr →
    Except (ParseError Symbol Expr) (AttrDef Symbol Expr × Heap)
  | .other e => .ok (.plain e, heap)
  | .set recursive binds => do
      let (attrs, heap) ← parseBinds .new heap binds
      .ok ({ attrs with recursive := recursive }.toDef, heap)

def parseBinds (accum : ExprAttrs Symbol Expr) (heap : Heap) : List (Bind Symbol Expr) →
    Except (ParseError Symbol Expr) (ExprAttrs Symbol Expr × Heap)
  | [] => .ok (accum, heap)
  | .attr first names e :: binds => do
      let (e, heap) ← parseExpr heap e
      let (accum, heap) ← addPath [] accum heap e first names
      parseBinds accum heap binds
  | .inherit names :: binds => do
      let accum ← inheritAll .inherited names accum
      parseBinds accum heap binds
  | .inheritFrom e names :: binds => do
      let accum : ExprAttrs Symbol Expr :=
        { accum with inheritFromExprs := some (accum.sources ++ [e]) }
      let origin := heap.length
      let heap := heap ++ [.ofNat 32 (accum.sources.length - 1)]
      let accum ← inheritAll (.inheritedFrom origin) names accum
      parseBinds accum heap binds

end

end

end Bsd.Expr.ParserState
