import Bsd.Expr.ScopeMatching

/-!
# Variables mean what their names say

Evaluation with `lookupVar`, on expressions that `bindVars` has resolved, does the same as
evaluation that looks names up in the frames: each variable occurrence leads to the same
slot. No level or displacement points outside the chain of frames.
-/

namespace Bsd.Expr.LexicalScoping

open List Lib.OrdMap Lib.Agreement Expr.StaticScopes Expr.BoundScopes Expr.Evaluation
open Expr.ScopeMatching

variable {env : Env}

section

variable {Symbol : Type} [LinearOrder Symbol]

/-- The expression may be evaluated in the environment: its variables are resolved for it, or
it is what an inherited-from attribute selects from. -/
inductive Ready (memory : Memory Symbol) (env : Env) : Expr Symbol VarRef → Prop where
  | bound {static : StaticEnv Symbol} {e : Expr Symbol VarRef}
      (matching : Matches memory static env) (resolved : Bound static e) : Ready memory env e
  | source {displ : Nat} (slot : HasSlot memory env displ) : Ready memory env (.inheritFrom displ)
  | selected {displ : Nat} {name : Symbol} (slot : HasSlot memory env displ) :
      Ready memory env (.select (.inheritFrom displ) [.symbol name] none)

variable {memory memory' : Memory Symbol}

theorem Ready.extend {e : Expr Symbol VarRef} (ready : Ready memory env e)
    (grown : Extends memory memory') : Ready memory' env e := by
  cases ready with
  | bound matching resolved => exact .bound (matching.extend grown) resolved
  | source slot => exact .source (slot.extend grown)
  | selected slot => exact .selected (slot.extend grown)

def GoodValue (memory : Memory Symbol) : Value Symbol → Prop
  | .thunk env e => Ready memory env e
  | .lambda env arg formals body =>
    ∃ static, Matches memory static env ∧ Bound static (.lambda arg formals body)
  | _ => True

theorem GoodValue.extend {value : Value Symbol} (good : GoodValue memory value)
    (grown : Extends memory memory') : GoodValue memory' value := by
  cases value with
  | thunk env e => exact Ready.extend good grown
  | lambda env arg formals body =>
    obtain ⟨static, matching, resolved⟩ := good
    exact ⟨static, matching.extend grown, resolved⟩
  | blackhole | attrs | list | string | bool | null => trivial

def GoodMemory (memory : Memory Symbol) : Prop :=
  ∀ value ∈ memory.values, GoodValue memory value

/-- Memories stay good, frames stay, and nothing is looked up outside the chain. -/
def scoping (Symbol : Type) [LinearOrder Symbol] :
    Discipline (Memory Symbol) (EvalError Symbol) where
  holds := GoodMemory
  grows := Extends
  never := (· = .outside)
  refl := extends_refl
  trans := extends_trans

abbrev Same {Result : Type} (memory : Memory Symbol) (left right : M Symbol Result)
    (post : Result → Memory Symbol → Prop) : Prop :=
  Agree (scoping Symbol) memory left right post

end

variable {displ size address : Nat}

section Cells

variable {Symbol : Type} [LinearOrder Symbol] {memory : Memory Symbol}

section

variable (good : GoodMemory memory)

include good

theorem same_read (slot : HasSlot memory env displ) :
    Same memory (readSlot env displ) (readSlot env displ) fun _ _ => True := by
  obtain ⟨address, up, frame, rfl, present, inside⟩ := slot
  have ran : readSlot (address :: up) displ memory = .ok frame.values[displ] memory := by
    rw [readSlot, present]
    dsimp only
    rw [getElem?_eq_getElem inside]
  exact agree_ok ran ran good (extends_refl memory) trivial

theorem same_deref {slot : Option Nat} :
    Same memory (derefSlot slot) (derefSlot slot) fun _ _ => True := by
  cases slot with
  | none => exact agree_throw nofun
  | some address => exact agree_pure good trivial

theorem same_write {value : Nat} {frame : Frame Symbol}
    (present : memory.envs[address]? = some frame) (inside : displ < frame.values.length) :
    Same memory (writeSlot address displ value) (writeSlot address displ value)
      fun _ _ => True := by
  let after : Memory Symbol := { memory with
    envs := memory.envs.set address { frame with values := frame.values.set displ (some value) } }
  have ran : writeSlot address displ value memory = .ok () after := by
    rw [writeSlot, present]
    exact if_pos inside
  have grown : Extends memory after := by
    intro other old there
    by_cases same : address = other
    · cases same
      cases present.symm.trans there
      refine ⟨_, List.getElem?_set_self (List.getElem?_eq_some_iff.mp present).1, rfl, ?_⟩
      exact List.length_set
    · refine ⟨old, ?_, rfl, rfl⟩
      exact (List.getElem?_set_ne same).trans there
  exact agree_ok ran ran (fun value member => (good value member).extend grown) grown trivial

theorem same_alloc_value {value : Value Symbol} (goodValue : GoodValue memory value) :
    Same memory (allocValue value) (allocValue value) fun _ _ => True := by
  have grown : Extends memory { memory with values := memory.values ++ [value] } := extends_envs rfl
  refine agree_ok rfl rfl (forall_mem_append.mpr ⟨?_, ?_⟩) grown trivial
  · exact fun other old => (good other old).extend grown
  · exact forall_mem_singleton.mpr (goodValue.extend grown)

theorem same_alloc_env {scope : Scope Symbol} :
    Same memory (allocEnv scope size) (allocEnv scope size) fun address after =>
      after.envs[address]? = some ⟨scope, List.replicate size none⟩ := by
  have grown : Extends memory { memory with
      envs := memory.envs ++ [⟨scope, List.replicate size none⟩] } := by
    intro address frame present
    refine ⟨frame, ?_, rfl, rfl⟩
    exact (List.getElem?_append_left (List.getElem?_eq_some_iff.mp present).1).trans present
  exact agree_ok rfl rfl (fun value member => (good value member).extend grown) grown
    List.getElem?_concat_length

end

end Cells

variable {up : Env}

section Lookup

variable {Symbol : Type} [LinearOrder Symbol]
  {force force' : Nat → M Symbol (List (Symbol × Nat))} {memory : Memory Symbol}

theorem search_sets_with (name : Symbol) {values : List (Option Nat)}
    (present : memory.envs[address]? = some ⟨.ofWith, values⟩) :
    searchSets force name (address :: up) memory = (do
        let slot ← readSlot (address :: up) 0
        let set ← derefSlot slot
        let bindings ← force set
        match find name bindings with
        | some value => pure value
        | none => searchSets force name up : M Symbol Nat) memory := by
  rw [searchSets]
  change EStateM.bind EStateM.get _ memory = _
  rw [EStateM.bind]
  dsimp only [EStateM.get]
  rewrite [present]
  rfl

/-- The hops from `with` to `with` come by the same frames as the search by name. -/
theorem same_search_with (forced : ∀ memory address, GoodMemory memory →
      Same memory (force address) (force' address) fun _ _ => True)
    (name : Symbol) (bound : Nat) (outer : StaticEnv Symbol) (short : outer.length < bound)
    (memory : Memory Symbol) (address : Nat) (up : Env) (values : List (Option Nat))
    (good : GoodMemory memory) (present : memory.envs[address]? = some ⟨.ofWith, values⟩)
    (room : 0 < values.length) (matching : Matches memory outer up) :
    Same memory (searchWith force name (withNode outer) (address :: up))
      (searchSets force' name (address :: up)) fun _ _ => True := by
  induction bound generalizing outer memory address up values with
  | zero => exact absurd short (Nat.not_lt_zero _)
  | succ bound ih =>
    refine agree_congr rfl (search_sets_with name present) ?_
    rw [searchWith.eq_def]
    refine agree_bind (same_read good ⟨address, up, _, rfl, present, room⟩) ?_
    intro slot memory1 good1 grown1 _
    refine agree_bind (same_deref good1) ?_
    intro set memory2 good2 grown2 _
    refine agree_bind (forced memory2 set good2) ?_
    intro bindings memory3 good3 grown3 _
    cases find name bindings with
    | some value => exact agree_pure good3 trivial
    | none =>
      have matching3 := matching.extend (extends_trans grown1 (extends_trans grown2 grown3))
      rcases nearest_with matching3 name with
        ⟨-, noNode, nothing⟩ | ⟨hops, outer', inner, up', nearest⟩
      · rw [noNode]
        exact agree_error rfl (nothing force') nofun
      obtain ⟨values', present', room'⟩ := nearest.frame
      refine agree_congr ?_ (nearest.skips force') (ih outer' ?_ memory3 inner up' values' good3
        present' room' nearest.rest)
      · rw [nearest.node, nearest.level, Option.getD_some, Nat.add_comm 1 hops, drop_succ_cons,
          nearest.chain]
      · exact lt_of_lt_of_le nearest.shorter (Nat.le_of_lt_succ short)

section

variable {force : Nat → M Symbol (List (Symbol × Nat))} {memory : Memory Symbol} {name : Symbol}
  {ref : VarRef} {noEval : Bool}

omit [LinearOrder Symbol] in
theorem get_memory : (get : M Symbol (Memory Symbol)) memory = .ok memory memory := rfl

theorem lookup_name_unbound (nowhere : lexicalBinding memory.envs name env = none) :
    lookupName force env name ref noEval memory = (if noEval then pure none
        else do
          let value ← searchSets force name env
          pure (some value) : M Symbol (Option Nat)) memory := by
  simp [lookupName, bind, EStateM.bind, get_memory, nowhere]

end

theorem same_lookup (forced : ∀ memory address, GoodMemory memory →
      Same memory (force address) (force' address) fun _ _ => True)
    {static : StaticEnv Symbol} {name : Symbol} {ref : VarRef} (noEval : Bool)
    (good : GoodMemory memory) (matching : Matches memory static env)
    (resolved : bindVar static name = .ok ref) :
    Same memory (lookupVar force env name ref noEval) (lookupName force' env name ref noEval)
      fun _ _ => True := by
  rw [bindVar] at resolved
  rcases search_vars_lexical matching name 0 with ⟨nowhere, noBinding⟩ | ⟨hops, displ, found, binding, slot⟩
  · rw [nowhere] at resolved
    refine agree_congr rfl (lookup_name_unbound noBinding) ?_
    rcases nearest_with matching name with ⟨noLevel, -, -⟩ | ⟨hops, outer, address, up, nearest⟩
    · rw [noLevel] at resolved
      cases resolved
    rw [nearest.level, nearest.node, Nat.zero_add] at resolved
    cases resolved
    cases noEval with
    | true => exact agree_pure good trivial
    | false =>
      obtain ⟨values, present, room⟩ := nearest.frame
      have searched := same_search_with forced name _ outer (Nat.lt_succ_self _) memory address
        up values good present room nearest.rest
      rw [← nearest.chain] at searched
      refine agree_map (agree_congr rfl ?_ searched) fun _ _ => trivial
      rw [nearest.chain]
      exact nearest.skips force'
  · rw [found, Nat.zero_add] at resolved
    cases resolved
    refine agree_congr rfl ?_ (same_read good slot)
    simp [lookupName, bind, EStateM.bind, get_memory, binding]

end Lookup

section Evaluator

variable {Symbol : Type} [LinearOrder Symbol]
  {self self' : Env → Expr Symbol VarRef → M Symbol (Value Symbol)} {sFunctor : Symbol}

def SameEval (self self' : Env → Expr Symbol VarRef → M Symbol (Value Symbol)) : Prop :=
  ∀ memory env e, GoodMemory memory → Ready memory env e →
    Same memory (self env e) (self' env e) fun value after => GoodValue after value

variable {memory : Memory Symbol}

theorem write_good {value : Value Symbol} (good : GoodMemory memory)
    (goodValue : GoodValue memory value) : GoodMemory (memory.write address value) := by
  have grown : Extends memory (memory.write address value) := extends_envs rfl
  intro other member
  rcases mem_or_eq_of_mem_set member with old | new
  · exact (good other old).extend grown
  · rw [new]
    exact goodValue.extend grown

variable {e : Expr Symbol VarRef}

section

variable (selves : SameEval self self')

include selves

theorem same_eval_into (address : Nat) (good : GoodMemory memory) (ready : Ready memory env e) :
    Same memory (evalInto self address env e) (evalInto self' address env e)
      fun value after => GoodValue after value := by
  have started : Extends memory (memory.write address .blackhole) := extends_envs rfl
  obtain ⟨same, succeeds, fails⟩ := selves (memory.write address .blackhole) env e
    (write_good good trivial) (ready.extend started)
  cases ran : self env e (memory.write address .blackhole) with
  | ok value after =>
    obtain ⟨goodAfter, grown, goodValue⟩ := succeeds value after ran
    have stored : Extends after (after.write address value) := extends_envs rfl
    refine agree_ok ?_ ?_ (write_good goodAfter goodValue)
      (extends_trans started (extends_trans grown stored)) (goodValue.extend stored)
    · rw [evalInto, ran]
    · rw [evalInto, ← same, ran]
  | error failure after =>
    have left : evalInto self address env e memory =
        .error failure (after.write address (.thunk env e)) := by rw [evalInto, ran]
    have right : evalInto self' address env e memory =
        .error failure (after.write address (.thunk env e)) := by rw [evalInto, ← same, ran]
    exact agree_error left right (fails failure after ran)

theorem same_force_value (address : Nat) (good : GoodMemory memory) :
    Same memory (forceValue self address) (forceValue self' address)
      fun value after => GoodValue after value := by
  refine agree_get ?_
  cases present : memory.values[address]? with
  | none => exact agree_throw nofun
  | some value =>
    have goodValue := good value (mem_of_getElem? present)
    cases value with
    | thunk env e => exact same_eval_into selves address good goodValue
    | blackhole => exact agree_throw nofun
    | lambda | attrs | list | string | bool | null => exact agree_pure good goodValue

theorem same_force_attrs (address : Nat) (good : GoodMemory memory) :
    Same memory (forceAttrs self address) (forceAttrs self' address) fun _ _ => True := by
  refine agree_bind (same_force_value selves address good) ?_
  intro value memory1 good1 _ _
  cases value with
  | attrs bindings => exact agree_pure good1 trivial
  | thunk | blackhole | lambda | list | string | bool | null => exact agree_throw nofun

end

variable {static : StaticEnv Symbol}

section

variable (selves : SameEval self self')

include selves

theorem same_resolve_var {name : Symbol} {ref : VarRef} (noEval : Bool) (good : GoodMemory memory)
    (matching : Matches memory static env) (resolved : bindVar static name = .ok ref) :
    Same memory (resolveVar lookupVar self env name ref noEval)
      (resolveVar lookupName self' env name ref noEval) fun _ _ => True := by
  refine agree_bind (same_lookup (fun _ address good => same_force_attrs selves address good) noEval
    good matching resolved) ?_
  intro slot memory1 good1 _ _
  have logged : Extends memory1 { memory1 with found := memory1.found ++ [(name, slot)] } :=
    extends_envs rfl
  exact agree_ok rfl rfl (fun value member => (good1 value member).extend logged) logged trivial

theorem same_maybe_thunk (good : GoodMemory memory) (ready : Ready memory env e) :
    Same memory (maybeThunk lookupVar self env e) (maybeThunk lookupName self' env e)
      fun _ _ => True := by
  have delayed : Same memory (allocValue (.thunk env e)) (allocValue (.thunk env e)) fun _ _ => True :=
    same_alloc_value good ready
  cases e with
  | string s => exact same_alloc_value good trivial
  | var name ref =>
    cases ready with
    | bound matching resolved =>
      cases resolved with
      | var resolved =>
        refine agree_bind (same_resolve_var selves true good matching resolved) ?_
        intro slot memory1 good1 grown1 _
        cases slot with
        | some address => exact agree_pure good1 trivial
        | none =>
          exact same_alloc_value good1 (.bound (matching.extend grown1) (.var resolved))
  | inheritFrom displ =>
    cases ready with
    | bound matching resolved => cases resolved
    | source slot =>
      refine agree_bind (same_read good slot) ?_
      intro found memory1 good1 grown1 _
      cases found with
      | some address => exact agree_pure good1 trivial
      | none => exact same_alloc_value good1 (.source (slot.extend grown1))
  | list elems =>
    cases elems with
    | nil => exact same_alloc_value good trivial
    | cons first rest => exact delayed
  | select | attrs | lambda | call | letIn | withIn | ifElse | assertThen => exact delayed

variable {exprs : List (Expr Symbol VarRef)}

theorem same_maybe_thunks (good : GoodMemory memory) (ready : ∀ e ∈ exprs, Ready memory env e) :
    Same memory (maybeThunks lookupVar self env exprs) (maybeThunks lookupName self' env exprs)
      fun _ _ => True := by
  induction exprs generalizing memory with
  | nil => exact agree_pure good trivial
  | cons e rest ih =>
    refine agree_bind (same_maybe_thunk selves good (ready e mem_cons_self)) ?_
    intro address memory1 good1 grown1 _
    exact agree_map (ih good1 fun e member =>
      (ready e (mem_cons_of_mem _ member)).extend grown1) fun _ _ => trivial

def FrameSize (memory : Memory Symbol) (address size : Nat) : Prop :=
  ∃ frame : Frame Symbol, memory.envs[address]? = some frame ∧ frame.values.length = size

omit selves in
omit [LinearOrder Symbol] in
theorem FrameSize.extend {memory' : Memory Symbol} (frameSize : FrameSize memory address size)
    (grown : Extends memory memory') : FrameSize memory' address size := by
  obtain ⟨frame, present, rfl⟩ := frameSize
  obtain ⟨frame', present', -, same⟩ := grown _ _ present
  exact ⟨frame', present', same⟩

omit selves in
theorem same_store (value : Nat) (good : GoodMemory memory)
    (frameSize : FrameSize memory address size) (inside : displ < size) :
    Same memory (writeSlot address displ value) (writeSlot address displ value)
      fun _ _ => True := by
  obtain ⟨frame, present, rfl⟩ := frameSize
  exact same_write good present inside

theorem same_fill_sources {frame : Nat} (good : GoodMemory memory)
    (frameSize : FrameSize memory frame size) (room : displ + exprs.length ≤ size)
    (ready : ∀ e ∈ exprs, Ready memory up e) :
    Same memory (fillSources lookupVar self frame up displ exprs)
      (fillSources lookupName self' frame up displ exprs) fun _ _ => True := by
  induction exprs generalizing memory displ with
  | nil => exact agree_pure good trivial
  | cons e rest ih =>
    rw [length_cons] at room
    refine agree_bind (same_maybe_thunk selves good (ready e mem_cons_self)) ?_
    intro address memory1 good1 grown1 _
    refine agree_bind (same_store address good1 (frameSize.extend grown1) (by omega)) ?_
    intro _ memory2 good2 grown2 _
    have grown := extends_trans grown1 grown2
    exact ih good2 (frameSize.extend grown) (by omega) fun e member =>
      (ready e (mem_cons_of_mem _ member)).extend grown

end

variable {exprs : Option (List (Expr Symbol VarRef))}

theorem same_inherit_env (selves : SameEval self self') (good : GoodMemory memory)
    (ready : ∀ sources, exprs = some sources → ∀ e ∈ sources, Ready memory up e) :
    Same memory (buildInheritFromEnv lookupVar self up exprs)
      (buildInheritFromEnv lookupName self' up exprs) fun env after =>
        ∀ displ < (exprs.getD []).length, HasSlot after env displ := by
  cases exprs with
  | none => exact agree_pure good nofun
  | some sources =>
    refine agree_bind (same_alloc_env good) ?_
    intro frame memory1 good1 grown1 present
    have frameSize : FrameSize memory1 frame sources.length :=
      ⟨_, present, length_replicate⟩
    refine agree_bind (same_fill_sources selves good1 frameSize (by omega) fun e member =>
      (ready sources rfl e member).extend grown1) ?_
    intro _ memory2 good2 grown2 _
    refine agree_pure good2 ?_
    intro displ inside
    obtain ⟨frame', present', size⟩ := frameSize.extend grown2
    exact ⟨frame, up, frame', rfl, present', size ▸ inside⟩

structure ReadyAttrs (memory : Memory Symbol) (plain inherited inheritedFrom : Env)
    (attrs : List (Symbol × AttrDef Symbol VarRef)) : Prop where
  each : ∀ entry ∈ attrs, Ready memory
    (AttrDef.chooseByKind plain inherited inheritedFrom entry.2) (AttrDef.expr entry.1 entry.2)

variable {attrs : List (Symbol × AttrDef Symbol VarRef)}

theorem same_build_attrs (selves : SameEval self self') {store : Nat → Nat → M Symbol Unit}
    {plain inherited inheritedFrom : Env} (good : GoodMemory memory)
    (stores : ∀ after displ value, GoodMemory after → Extends memory after → displ < size →
      Same after (store displ value) (store displ value) fun _ _ => True)
    (room : displ + attrs.length ≤ size)
    (ready : ReadyAttrs memory plain inherited inheritedFrom attrs) :
    Same memory (buildAttrs lookupVar self store plain inherited inheritedFrom displ attrs)
      (buildAttrs lookupName self' store plain inherited inheritedFrom displ attrs)
      fun _ _ => True := by
  induction attrs generalizing memory displ with
  | nil => exact agree_pure good trivial
  | cons entry rest ih =>
    rw [length_cons] at room
    refine agree_bind (same_maybe_thunk selves good (ready.each entry mem_cons_self)) ?_
    intro address memory1 good1 grown1 _
    refine agree_bind (stores memory1 displ address good1 grown1 (by omega)) ?_
    intro _ memory2 good2 grown2 _
    have grown := extends_trans grown1 grown2
    exact agree_map (ih good2
      (fun after displ value goodAfter later => stores after displ value goodAfter
        (extends_trans grown later))
      (by omega) ⟨fun entry member =>
        (ready.each entry (mem_cons_of_mem _ member)).extend grown⟩) fun _ _ => trivial

theorem attrs_ready {inner : StaticEnv Symbol} {plain inheritEnv : Env}
    (fit : AttrsFit static attrs exprs) (matching : Matches memory static env)
    (innerMatching : Matches memory inner plain)
    (plainBound : ∀ name e, (name, .plain e) ∈ attrs → Bound inner e)
    (slots : ∀ displ < (exprs.getD []).length, HasSlot memory inheritEnv displ) :
    ReadyAttrs memory plain env inheritEnv attrs := by
  refine ⟨?_⟩
  rintro ⟨name, attr⟩ member
  cases attr with
  | plain e => exact .bound innerMatching (plainBound name e member)
  | inherited ref => exact .bound matching (.var (fit.inherited name ref member))
  | inheritedFrom displ => exact .selected (slots displ (fit.displs name displ member))

section

variable (selves : SameEval self self')

include selves

theorem same_build_recursive (good : GoodMemory memory)
    (matching : Matches memory static env) (fit : AttrsFit static attrs exprs)
    (sources : ∀ sources, exprs = some sources →
      ∀ e ∈ sources, Bound (attrsLevel attrs :: static) e)
    (plain : ∀ name e, (name, .plain e) ∈ attrs → Bound (attrsLevel attrs :: static) e) :
    Same memory (buildRecursive lookupVar self env attrs exprs)
      (buildRecursive lookupName self' env attrs exprs) fun result after =>
        Matches after (attrsLevel attrs :: static) result.1 := by
  refine agree_bind (same_alloc_env good) ?_
  intro frame memory1 good1 grown1 present
  have size : (replicate attrs.length (none : Option Nat)).length = attrs.length :=
    length_replicate
  have inner : Matches memory1 (attrsLevel attrs :: static) (frame :: env) := by
    refine .names rfl present rfl ?_ (level_names_of (zip_idx_sorted fit.names)
      fun _ => Iff.rfl) (matching.extend grown1)
    rw [length_map, size]
  have frameSize : FrameSize memory1 frame attrs.length := ⟨_, present, size⟩
  refine agree_bind (same_inherit_env selves good1 fun exprs isSome e member =>
    .bound inner (sources exprs isSome e member)) ?_
  intro inheritEnv memory2 good2 grown2 slots
  have ready := attrs_ready fit (matching.extend (extends_trans grown1 grown2)) (inner.extend grown2)
    plain slots
  refine agree_bind (same_build_attrs selves good2
    (fun after displ value goodAfter later inside => same_store value goodAfter
      (frameSize.extend (extends_trans grown2 later)) inside) (by omega) ready) ?_
  intro bindings memory3 good3 grown3 _
  exact agree_pure good3 (inner.extend (extends_trans grown2 grown3))

theorem same_add_dynamic {dynamicAttrs : List (Expr Symbol VarRef × Expr Symbol VarRef)}
    (bindings : List (Symbol × Nat)) (good : GoodMemory memory)
    (names : ∀ pair ∈ dynamicAttrs, Ready memory env pair.1)
    (values : ∀ pair ∈ dynamicAttrs, Ready memory env pair.2) :
    Same memory (addDynamic lookupVar self env dynamicAttrs bindings)
      (addDynamic lookupName self' env dynamicAttrs bindings) fun _ _ => True := by
  induction dynamicAttrs generalizing memory bindings with
  | nil => exact agree_pure good trivial
  | cons pair rest ih =>
    refine agree_bind (selves memory env pair.1 good (names pair mem_cons_self)) ?_
    intro nameVal memory1 good1 grown1 _
    have laterNames : ∀ after, Extends memory after → ∀ pair ∈ rest, Ready after env pair.1 :=
      fun after grown pair member => (names pair (mem_cons_of_mem _ member)).extend grown
    have laterValues : ∀ after, Extends memory after → ∀ pair ∈ rest, Ready after env pair.2 :=
      fun after grown pair member => (values pair (mem_cons_of_mem _ member)).extend grown
    cases nameVal with
    | null => exact ih bindings good1 (laterNames _ grown1) (laterValues _ grown1)
    | string name =>
      dsimp only
      cases find name bindings with
      | some address => exact agree_throw nofun
      | none =>
        refine agree_bind (same_maybe_thunk selves good1
          ((values pair mem_cons_self).extend grown1)) ?_
        intro address memory2 good2 grown2 _
        have grown := extends_trans grown1 grown2
        exact ih _ good2 (laterNames _ grown) (laterValues _ grown)
    | thunk | blackhole | attrs | list | lambda | bool => exact agree_throw nofun

theorem same_get_name (attr : AttrName Symbol VarRef) (good : GoodMemory memory)
    (ready : ∀ expr, attr = .dynamic expr → Ready memory env expr) :
    Same memory (getName self env attr) (getName self' env attr) fun _ _ => True := by
  cases attr with
  | symbol symbol => exact agree_pure good trivial
  | dynamic expr =>
    refine agree_bind (selves memory env expr good (ready expr rfl)) ?_
    intro value memory1 good1 _ _
    cases value with
    | string name => exact agree_pure good1 trivial
    | thunk | blackhole | attrs | list | lambda | bool | null => exact agree_throw nofun

end

variable {attrPath : List (AttrName Symbol VarRef)}

section

variable (selves : SameEval self self')

include selves

theorem same_select_path (hasDefault : Bool) (address : Nat) (good : GoodMemory memory)
    (ready : ∀ expr, .dynamic expr ∈ attrPath → Ready memory env expr) :
    Same memory (selectPath self env hasDefault attrPath address)
      (selectPath self' env hasDefault attrPath address)
      fun result after => ∀ value, result = some value → GoodValue after value := by
  induction attrPath generalizing memory address with
  | nil =>
    refine agree_bind (same_force_value selves address good) ?_
    intro value memory1 good1 _ goodValue
    refine agree_pure good1 ?_
    rintro _ ⟨rfl⟩
    exact goodValue
  | cons attr rest ih =>
    refine agree_bind (same_get_name selves attr good fun expr same =>
      ready expr (same ▸ mem_cons_self)) ?_
    intro name memory1 good1 grown1 _
    have later : ∀ after, Extends memory after → ∀ expr, .dynamic expr ∈ rest →
        Ready after env expr := fun after grown expr member =>
      (ready expr (mem_cons_of_mem _ member)).extend grown
    cases hasDefault with
    | true =>
      refine agree_bind (same_force_value selves address good1) ?_
      intro value memory2 good2 grown2 _
      cases value with
      | attrs bindings =>
        dsimp only
        cases find name bindings with
        | some next => exact ih next good2 (later _ (extends_trans grown1 grown2))
        | none => exact agree_pure good2 nofun
      | thunk | blackhole | list | lambda | string | bool | null =>
        exact agree_pure good2 nofun
    | false =>
      refine agree_bind (same_force_attrs selves address good1) ?_
      intro bindings memory2 good2 grown2 _
      cases find name bindings with
      | some next => exact ih next good2 (later _ (extends_trans grown1 grown2))
      | none => exact agree_throw nofun

theorem same_build_formals {env2 : Env} (bindings : List (Symbol × Nat)) {frame : Nat}
    {formals : List (Symbol × Option (Expr Symbol VarRef))} (good : GoodMemory memory)
    (frameSize : FrameSize memory frame size) (room : displ + formals.length ≤ size)
    (ready : ∀ name e, (name, some e) ∈ formals → Ready memory env2 e) :
    Same memory (buildFormals lookupVar self bindings frame env2 displ formals)
      (buildFormals lookupName self' bindings frame env2 displ formals) fun _ _ => True := by
  induction formals generalizing memory displ with
  | nil => exact agree_pure good trivial
  | cons entry rest ih =>
    obtain ⟨name, default⟩ := entry
    rw [length_cons] at room
    have later : ∀ after, Extends memory after → ∀ name e, (name, some e) ∈ rest →
        Ready after env2 e := fun after grown name e member =>
      (ready name e (mem_cons_of_mem _ member)).extend grown
    unfold buildFormals
    cases find name bindings with
    | some value =>
      refine agree_bind (same_store value good frameSize (by omega)) ?_
      intro _ memory1 good1 grown1 _
      exact agree_map (ih good1 (frameSize.extend grown1) (by omega) (later _ grown1))
        fun _ _ => trivial
    | none =>
      cases default with
      | none => exact agree_throw nofun
      | some e =>
        refine agree_bind (same_maybe_thunk selves good (ready name e mem_cons_self)) ?_
        intro value memory1 good1 grown1 _
        refine agree_bind (same_store value good1 (frameSize.extend grown1) (by omega)) ?_
        intro _ memory2 good2 grown2 _
        have grown := extends_trans grown1 grown2
        exact ih good2 (frameSize.extend grown) (by omega) (later _ grown)

theorem same_build_call {arg : Option Symbol}
    {formals : Option (Formals Symbol VarRef)} (value : Nat) (good : GoodMemory memory)
    (matching : Matches memory static env) (valid : formalsValid arg formals = true)
    (defaults : ∀ entries ellipsis name e, formals = some (.mk entries ellipsis) →
      (name, some e) ∈ entries → Bound (lambdaLevel arg formals :: static) e) :
    Same memory (buildCall lookupVar self env arg value formals)
      (buildCall lookupName self' env arg value formals) fun env2 after =>
        Matches after (lambdaLevel arg formals :: static) env2 := by
  cases formals with
  | none =>
    refine agree_bind (same_alloc_env good) ?_
    intro frame memory1 good1 grown1 present
    have inner : Matches memory1 (lambdaLevel arg none :: static) (frame :: env) :=
      .names rfl present rfl (le_of_eq length_replicate.symm) (lambda_level valid)
        (matching.extend grown1)
    obtain ⟨name, rfl⟩ := Option.isSome_iff_exists.mp valid
    refine agree_bind (same_write good1 present Nat.zero_lt_one) ?_
    intro _ memory2 good2 grown2 _
    exact agree_pure good2 (inner.extend grown2)
  | some formals =>
    obtain ⟨entries, ellipsis⟩ := formals
    refine agree_bind (same_alloc_env good) ?_
    intro frame memory1 good1 grown1 present
    have inner : Matches memory1 (lambdaLevel arg (some (.mk entries ellipsis)) :: static)
        (frame :: env) :=
      .names rfl present rfl (le_of_eq length_replicate.symm) (lambda_level valid)
        (matching.extend grown1)
    have frameSize : FrameSize memory1 frame (lambdaNames arg entries).length :=
      ⟨_, present, length_replicate⟩
    have slots : (lambdaNames arg entries).length = arg.toList.length + entries.length := by
      rw [lambdaNames, length_append, length_map]
    refine agree_bind (same_force_attrs selves value good1) ?_
    intro bindings memory2 good2 grown2 _
    have argument : Same memory2 (storeArg frame value arg) (storeArg frame value arg)
        fun _ _ => True := by
      cases arg with
      | none => exact agree_pure good2 trivial
      | some name =>
        refine same_store value good2 (frameSize.extend grown2) ?_
        rw [slots]
        exact Nat.lt_of_lt_of_le Nat.zero_lt_one (Nat.le_add_right _ _)
    refine agree_bind argument ?_
    intro _ memory3 good3 grown3 _
    have grown := extends_trans grown2 grown3
    refine agree_bind (same_build_formals selves bindings good3 (frameSize.extend grown)
      (le_of_eq slots.symm) fun name e member => .bound (inner.extend grown)
        (defaults entries ellipsis name e rfl member)) ?_
    intro used memory4 good4 grown4 _
    split
    · exact agree_throw (by simp [scoping])
    · exact agree_pure good4 (inner.extend (extends_trans grown grown4))

theorem same_call_args {callee callee' : Value Symbol → List Nat → M Symbol (Value Symbol)}
    (callees : ∀ memory current args, GoodMemory memory → GoodValue memory current →
      Same memory (callee current args) (callee' current args)
        fun value after => GoodValue after value)
    (current : Value Symbol) (args : List Nat) (good : GoodMemory memory)
    (goodValue : GoodValue memory current) :
    Same memory (callArgs lookupVar self sFunctor callee current args)
      (callArgs lookupName self' sFunctor callee' current args)
      fun value after => GoodValue after value := by
  induction args generalizing memory current with
  | nil => cases current <;> exact agree_pure good goodValue
  | cons value rest ih =>
    cases current with
    | lambda env arg formals body =>
      obtain ⟨static, matching, resolved⟩ := goodValue
      cases resolved with
      | lambda valid defaults inner =>
        refine agree_bind (same_build_call selves value good matching valid defaults) ?_
        intro env2 memory1 good1 grown1 innerMatching
        refine agree_bind (selves memory1 env2 body good1 (.bound innerMatching inner)) ?_
        intro next memory2 good2 grown2 goodNext
        exact ih next good2 goodNext
    | attrs bindings =>
      unfold callArgs
      cases find sFunctor bindings with
      | none => exact agree_throw nofun
      | some functor =>
        refine agree_bind (same_alloc_value good trivial) ?_
        intro copy memory1 good1 _ _
        refine agree_bind (same_force_value selves functor good1) ?_
        intro function memory2 good2 _ goodFunction
        refine agree_bind (callees memory2 function _ good2 goodFunction) ?_
        intro next memory3 good3 _ goodNext
        exact ih next good3 goodNext
    | thunk | blackhole | list | string | bool | null => exact agree_throw nofun

theorem same_call_function (depth : Nat) (current : Value Symbol) (args : List Nat)
    (good : GoodMemory memory) (goodValue : GoodValue memory current) :
    Same memory (callFunction lookupVar self sFunctor depth current args)
      (callFunction lookupName self' sFunctor depth current args)
      fun value after => GoodValue after value := by
  induction depth generalizing memory current args with
  | zero => exact agree_throw nofun
  | succ depth ih =>
    exact same_call_args selves (fun memory current args => ih current args) current args good
      goodValue

theorem same_eval_bool (good : GoodMemory memory) (ready : Ready memory env e) :
    Same memory (evalBool self env e) (evalBool self' env e) fun _ _ => True := by
  refine agree_bind (selves memory env e good ready) ?_
  intro value memory1 good1 _ _
  cases value with
  | bool value => exact agree_pure good1 trivial
  | thunk | blackhole | attrs | list | lambda | string | null => exact agree_throw nofun

theorem same_select {depth : Nat} {default : Option (Expr Symbol VarRef)} (good : GoodMemory memory)
    (ready : Ready memory env e) (names : ∀ expr, .dynamic expr ∈ attrPath → Ready memory env expr)
    (otherwise : ∀ e, default = some e → Ready memory env e) :
    Same memory (evalExpr lookupVar self sFunctor depth env (.select e attrPath default))
      (evalExpr lookupName self' sFunctor depth env (.select e attrPath default))
      fun value after => GoodValue after value := by
  refine agree_bind (selves memory env e good ready) ?_
  intro value memory1 good1 grown1 goodValue
  refine agree_bind (same_alloc_value good1 goodValue) ?_
  intro temporary memory2 good2 grown2 _
  have grown := extends_trans grown1 grown2
  refine agree_bind (same_select_path selves default.isSome temporary good2 fun expr member =>
    (names expr member).extend grown) ?_
  intro selected memory3 good3 grown3 goodSelected
  cases selected with
  | some value => exact agree_pure good3 (goodSelected value rfl)
  | none =>
    cases default with
    | none => exact agree_throw nofun
    | some e =>
      exact selves memory3 env e good3 ((otherwise e rfl).extend (extends_trans grown grown3))

theorem same_eval_expr (depth : Nat) :
    SameEval (evalExpr lookupVar self sFunctor depth) (evalExpr lookupName self' sFunctor depth) := by
  intro memory env e good ready
  cases ready with
  | source slot =>
    refine agree_bind (same_read good slot) ?_
    intro found memory1 good1 _ _
    refine agree_bind (same_deref good1) ?_
    intro address memory2 good2 _ _
    exact same_force_value selves address good2
  | selected slot =>
    refine same_select selves good (.source slot) ?_ (by simp)
    intro expr member
    cases mem_singleton.mp member
  | @bound static _ matching resolved =>
    have inside : ∀ {e : Expr Symbol VarRef} {after : Memory Symbol}, Bound static e →
        Extends memory after → Ready after env e := fun bound grown =>
      .bound (matching.extend grown) bound
    have here : ∀ {e : Expr Symbol VarRef}, Bound static e → Ready memory env e := fun bound =>
      .bound matching bound
    cases resolved with
    | string s => exact agree_pure good trivial
    | var resolved =>
      refine agree_bind (same_resolve_var selves false good matching resolved) ?_
      intro slot memory1 good1 _ _
      refine agree_bind (same_deref good1) ?_
      intro address memory2 good2 _ _
      exact same_force_value selves address good2
    | select inner names otherwise =>
      exact same_select selves good (here inner) (fun expr member => here (names expr member))
        fun e isSome => here (otherwise e isSome)
    | @attrs _ recursive attrs exprs dynamicAttrs fit sources plain dynamicNames dynamicValues =>
      cases recursive with
      | true =>
        refine agree_bind (same_build_recursive selves good matching fit sources plain) ?_
        rintro ⟨env2, bindings⟩ memory1 good1 _ inner
        exact agree_map (same_add_dynamic selves bindings good1
          (fun pair member => .bound inner (dynamicNames pair member))
          (fun pair member => .bound inner (dynamicValues pair member))) fun _ _ => trivial
      | false =>
        refine agree_bind (same_inherit_env selves good fun exprs isSome e member =>
          here (sources exprs isSome e member)) ?_
        intro inheritEnv memory1 good1 grown1 slots
        have matching1 := matching.extend grown1
        refine agree_bind (same_build_attrs selves good1
          (fun after displ value goodAfter _ _ => agree_pure goodAfter trivial)
          (le_refl (0 + attrs.length)) (attrs_ready fit matching1 matching1 plain slots)) ?_
        intro bindings memory2 good2 grown2 _
        have grown := extends_trans grown1 grown2
        exact agree_map (same_add_dynamic selves bindings good2
          (fun pair member => inside (dynamicNames pair member) grown)
          (fun pair member => inside (dynamicValues pair member) grown)) fun _ _ => trivial
    | list all =>
      exact agree_map (same_maybe_thunks selves good fun e member => here (all e member)) fun _ _ => trivial
    | lambda valid defaults inner =>
      exact agree_pure good ⟨static, matching, .lambda valid defaults inner⟩
    | call called all =>
      refine agree_bind (selves memory env _ good (here called)) ?_
      intro value memory1 good1 grown1 goodValue
      refine agree_bind (same_maybe_thunks selves good1 fun e member =>
        inside (all e member) grown1) ?_
      intro addresses memory2 good2 grown2 _
      exact same_call_function selves depth value addresses good2 (goodValue.extend grown2)
    | letIn fit sources plain inner =>
      refine agree_bind (same_build_recursive selves good matching fit sources plain) ?_
      rintro ⟨env2, bindings⟩ memory1 good1 _ innerMatching
      exact selves memory1 env2 _ good1 (.bound innerMatching inner)
    | withIn set inner =>
      refine agree_bind (same_alloc_env good) ?_
      intro frame memory1 good1 grown1 present
      refine agree_bind (same_maybe_thunk selves good1 (inside set grown1)) ?_
      intro address memory2 good2 grown2 _
      have frameSize : FrameSize memory1 frame 1 := ⟨_, present, rfl⟩
      refine agree_bind (same_store address good2 (frameSize.extend grown2) Nat.zero_lt_one) ?_
      intro _ memory3 good3 grown3 _
      have innerMatching : Matches memory1 (⟨some (withNode static), []⟩ :: static)
          (frame :: env) :=
        .ofWith rfl present rfl Nat.zero_lt_one (matching.extend grown1)
      exact selves memory3 (frame :: env) _ good3
        (.bound (innerMatching.extend (extends_trans grown2 grown3)) inner)
    | ifElse condition first second =>
      refine agree_bind (same_eval_bool selves good (here condition)) ?_
      intro value memory1 good1 grown1 _
      cases value with
      | true => exact selves memory1 env _ good1 (inside first grown1)
      | false => exact selves memory1 env _ good1 (inside second grown1)
    | assertThen condition inner =>
      refine agree_bind (same_eval_bool selves good (here condition)) ?_
      intro value memory1 good1 grown1 _
      cases value with
      | true => exact selves memory1 env _ good1 (inside inner grown1)
      | false => exact agree_throw (by simp [scoping])

end

theorem same_eval (fuel : Nat) :
    SameEval (eval lookupVar sFunctor fuel) (eval lookupName sFunctor fuel) := by
  induction fuel with
  | zero =>
    intro memory env e good ready
    exact agree_throw nofun
  | succ fuel ih => exact same_eval_expr ih fuel

/-- Every variable occurrence that evaluation comes to, with `lookupVar` on what `bindVars`
has stored, leads to the slot that the name-based evaluator finds, and no level or
displacement points outside the chain of frames. -/
theorem variables_resolved_lexically (sFunctor : Symbol) (fuel : Nat) (memory : Memory Symbol)
    (static : StaticEnv Symbol) (env : Env) (source : Expr Symbol Unit) (e : Expr Symbol VarRef)
    (good : GoodMemory memory) (matching : Matches memory static env)
    (valid : wellFormed source = true) (bound : bindVars static source = .ok e) :
    eval lookupVar sFunctor fuel env e memory = eval lookupName sFunctor fuel env e memory ∧
      ∀ after, eval lookupVar sFunctor fuel env e memory ≠ .error .outside after := by
  obtain ⟨same, -, inside⟩ := same_eval fuel memory env e good
    (.bound matching (bind_vars_bound source valid bound))
  exact ⟨same, fun after failed => inside .outside after failed rfl⟩

end Evaluator

/-- `with { a = "s"; b = "t"; }; let a = "u"; inherit ({ c = "v"; }) c; in`
`{ __functor = self: { d ? a, ... }@x: b; } {}` -/
def nestedScopes : Expr Nat Unit :=
  .withIn (.attrs false [(0, .plain (.string 10)), (1, .plain (.string 11))] none [])
    (.letIn [(0, .plain (.string 12)), (2, .inheritedFrom 0)]
      (some [.attrs false [(2, .plain (.string 13))] none []])
      (.call (.attrs false [(7, .plain (.lambda (some 6) none
          (.lambda (some 5) (some (.mk [(3, some (.var 0 ()))] true)) (.var 1 ()))))] none [])
        [.attrs false [] none []]))

def givesString (result : EStateM.Result (EvalError Nat) (Memory Nat) (Value Nat)) (s : Nat) : Bool :=
  match result with
  | .ok (.string found) _ => found == s
  | _ => false

theorem variables_resolved_nested : ∃ e, bindVars [] nestedScopes = .ok e ∧
      givesString (eval lookupVar 7 8 [] e ⟨[], [], []⟩) 11 = true ∧
      eval lookupVar 7 8 [] e ⟨[], [], []⟩ = eval lookupName 7 8 [] e ⟨[], [], []⟩ ∧
      ∀ after, eval lookupVar 7 8 [] e ⟨[], [], []⟩ ≠ .error .outside after := by
  refine ⟨_, rfl, by decide +kernel, ?_⟩
  exact variables_resolved_lexically 7 8 ⟨[], [], []⟩ [] [] nestedScopes _ nofun .nil rfl rfl

end Bsd.Expr.LexicalScoping
