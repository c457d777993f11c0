import Bsd.Lib.Agreement
import Bsd.Expr.BoundScopes
import Bsd.Expr.Evaluation

/-!
# Static levels and frames

A static environment matches a chain of frames if each level finds exactly the names of its
frame, at their slots, and each `with` has its own frame and knows the `with` around it. In
matching environments `lookupVar` on what `bindVar` computed and the search by name agree.
-/

namespace Bsd.Expr.ScopeMatching

open Lib.OrdMap Expr.StaticScopes Expr.BoundScopes Expr.Evaluation List

section Levels

variable {Symbol : Type} [LinearOrder Symbol] {vars : List (Symbol × Nat)}
  {isWith : Option WithNode}

theorem find_iff (sorted : vars.Pairwise fun left right => left.1 < right.1) (name : Symbol)
    (displ : Nat) : (StaticLevel.mk isWith vars).find name = some displ ↔ (name, displ) ∈ vars := by
  induction vars with
  | nil => exact ⟨nofun, nofun⟩
  | cons entry rest ih =>
    obtain ⟨above, restSorted⟩ := pairwise_cons.mp sorted
    rw [StaticLevel.find] at ih ⊢
    rw [dropWhile_cons]
    by_cases smaller : entry.1 < name
    · rw [if_pos (decide_eq_true smaller)]
      refine (ih restSorted).trans ?_
      rw [mem_cons]
      refine (or_iff_right ?_).symm
      intro same
      rw [← same] at smaller
      exact lt_irrefl _ smaller
    · rw [if_neg (by simpa using smaller), mem_cons]
      dsimp only
      split
      next same =>
        constructor
        · intro found
          exact .inl (Prod.ext same.symm (Option.some.inj found).symm)
        rintro (here | later)
        · rw [← here]
        · have less := above _ later
          rw [same] at less
          exact absurd less (lt_irrefl _)
      next differs =>
        refine ⟨nofun, ?_⟩
        rintro (here | later)
        · rw [← here] at differs
          exact absurd rfl differs
        · exact absurd (above _ later) smaller

def LevelNames (level : StaticLevel Symbol) (names : List Symbol) : Prop :=
  ∀ name, level.find name = if name ∈ names then some (names.idxOf name) else none

variable {names : List Symbol}

theorem level_names_of (sorted : vars.Pairwise fun left right => left.1 < right.1)
    (entries : ∀ entry, entry ∈ vars ↔ entry ∈ names.zipIdx) : LevelNames ⟨isWith, vars⟩ names := by
  intro name
  by_cases member : name ∈ names
  · rw [if_pos member, find_iff sorted, entries, mem_zipIdx_iff_getElem?]
    exact getElem?_idxOf member
  rw [if_neg member]
  cases found : (StaticLevel.mk isWith vars).find name with
  | none => rfl
  | some displ =>
    rw [find_iff sorted, entries, mem_zipIdx_iff_getElem?] at found
    exact absurd (mem_of_getElem? found) member

theorem zip_idx_sorted (ascending : names.Pairwise (· < ·)) :
    names.zipIdx.Pairwise fun left right => left.1 < right.1 := by
  rw [← zipIdx_map_fst 0 names] at ascending
  exact pairwise_map.mp ascending

def slotNames {Ref : Type} (arg : Option Symbol) : Option (Formals Symbol Ref) → List Symbol
  | none => arg.toList
  | some (.mk formals _) => lambdaNames arg formals

theorem lambda_level {Ref : Type} {arg : Option Symbol} {formals : Option (Formals Symbol Ref)}
    (valid : formalsValid arg formals = true) :
    LevelNames (lambdaLevel arg formals) (slotNames arg formals) := by
  cases formals with
  | none =>
    refine level_names_of ?_ fun _ => Iff.rfl
    cases arg with
    | none => exact List.Pairwise.nil
    | some name => exact pairwise_singleton _ _
  | some formals =>
    obtain ⟨entries, ellipsis⟩ := formals
    simp only [formalsValid, ascendingNames, Bool.and_eq_true, decide_eq_true_eq] at valid
    have distinct : (lambdaNames arg entries).Nodup := by
      rw [lambdaNames, nodup_append]
      refine ⟨?_, valid.1.imp ne_of_lt, ?_⟩
      · cases arg <;> simp
      intro one inArg two inFormals same
      rw [Option.mem_toList] at inArg
      rw [← same] at inFormals
      exact valid.2 one inArg inFormals
    let order : Symbol × Nat → Symbol × Nat → Prop := fun left right => left.1 ≤ right.1
    have perm := perm_insertionSort order (lambdaNames arg entries).zipIdx
    refine level_names_of ?_ fun entry => perm.mem_iff
    have sorted := pairwise_insertionSort order (lambdaNames arg entries).zipIdx
    have keys : ((lambdaNames arg entries).zipIdx.insertionSort order).Pairwise
        fun left right => left.1 ≠ right.1 := by
      have nodup : (((lambdaNames arg entries).zipIdx.insertionSort order).map Prod.fst).Nodup := by
        rw [(perm.map Prod.fst).nodup_iff, zipIdx_map_fst]
        exact distinct
      exact pairwise_map.mp nodup
    exact (sorted.and keys).imp fun both => lt_of_le_of_ne both.1 both.2

end Levels

variable {env : Env}

section

variable {Symbol : Type}

def Extends (memory memory' : Memory Symbol) : Prop :=
  ∀ (address : Nat) (frame : Frame Symbol), memory.envs[address]? = some frame →
    ∃ frame' : Frame Symbol, memory'.envs[address]? = some frame' ∧ frame'.scope = frame.scope ∧
      frame'.values.length = frame.values.length

theorem extends_refl (memory : Memory Symbol) : Extends memory memory :=
  fun _ frame present => ⟨frame, present, rfl, rfl⟩

theorem extends_trans {first second third : Memory Symbol} (left : Extends first second)
    (right : Extends second third) : Extends first third := by
  intro address frame present
  obtain ⟨frame', present', scope, size⟩ := left address frame present
  obtain ⟨frame'', present'', scope', size'⟩ := right address frame' present'
  exact ⟨frame'', present'', scope'.trans scope, size'.trans size⟩

variable {memory memory' : Memory Symbol}

theorem extends_envs (same : memory'.envs = memory.envs) : Extends memory memory' := by
  intro address frame present
  rw [← same] at present
  exact ⟨frame, present, rfl, rfl⟩

def HasSlot (memory : Memory Symbol) (env : Env) (displ : Nat) : Prop :=
  ∃ (address : Nat) (up : Env) (frame : Frame Symbol), env = address :: up ∧ memory.envs[address]? = some frame ∧
    displ < frame.values.length

variable {displ : Nat}

theorem HasSlot.extend (slot : HasSlot memory env displ) (grown : Extends memory memory') :
    HasSlot memory' env displ := by
  obtain ⟨address, up, frame, chain, present, inside⟩ := slot
  obtain ⟨frame', present', -, sameSize⟩ := grown _ _ present
  exact ⟨address, up, frame', chain, present', sameSize ▸ inside⟩

end

section Matching

variable {Symbol : Type} [LinearOrder Symbol]

inductive Matches (memory : Memory Symbol) : StaticEnv Symbol → Env → Prop where
  | nil : Matches memory [] []
  | names {level : StaticLevel Symbol} {static : StaticEnv Symbol} {address : Nat} {env : Env}
      {frame : Frame Symbol} {names : List Symbol} (plain : level.isWith = none)
      (present : memory.envs[address]? = some frame) (scope : frame.scope = .names names)
      (room : names.length ≤ frame.values.length) (finds : LevelNames level names)
      (rest : Matches memory static env) : Matches memory (level :: static) (address :: env)
  | ofWith {level : StaticLevel Symbol} {static : StaticEnv Symbol} {address : Nat} {env : Env}
      {frame : Frame Symbol} (node : level.isWith = some (withNode static))
      (present : memory.envs[address]? = some frame) (scope : frame.scope = .ofWith)
      (room : 0 < frame.values.length) (rest : Matches memory static env) :
      Matches memory (level :: static) (address :: env)

variable {static : StaticEnv Symbol} {memory : Memory Symbol}

section

variable (matching : Matches memory static env)

include matching

theorem Matches.extend {memory' : Memory Symbol}
    (grown : Extends memory memory') : Matches memory' static env := by
  induction matching with
  | nil => exact .nil
  | names plain present scope room finds _ ih =>
    obtain ⟨frame', present', sameScope, sameSize⟩ := grown _ _ present
    exact .names plain present' (sameScope.trans scope) (sameSize ▸ room) finds ih
  | ofWith node present scope room _ ih =>
    obtain ⟨frame', present', sameScope, sameSize⟩ := grown _ _ present
    exact .ofWith node present' (sameScope.trans scope) (sameSize ▸ room) ih

/-- What is found statically is the innermost binding, a number of frames up. -/
theorem search_vars_lexical (name : Symbol) (start : Nat) :
    (searchVars name start static = none ∧ lexicalBinding memory.envs name env = none) ∨
      ∃ hops displ, searchVars name start static = some (start + hops, displ) ∧
        lexicalBinding memory.envs name env = some (env.drop hops, displ) ∧
        HasSlot memory (env.drop hops) displ := by
  induction matching generalizing start with
  | nil => exact .inl ⟨rfl, rfl⟩
  | @names level static address env frame names plain present scope room finds _ ih =>
    obtain ⟨scope', values⟩ := frame
    cases scope
    rw [searchVars, plain, finds name, lexicalBinding, present]
    dsimp only
    by_cases member : name ∈ names
    · rw [if_pos member, if_pos member]
      refine .inr ⟨0, names.idxOf name, rfl, rfl, address, env, _, rfl, present, ?_⟩
      exact lt_of_lt_of_le (idxOf_lt_length_iff.mpr member) room
    rw [if_neg member, if_neg member]
    rcases ih (start + 1) with nowhere | ⟨hops, displ, static, dynamic, slot⟩
    · exact .inl nowhere
    · refine .inr ⟨hops + 1, displ, ?_, dynamic, slot⟩
      rw [static, Nat.add_right_comm, Nat.add_assoc]
  | @ofWith level static address env frame node present scope room _ ih =>
    obtain ⟨scope', values⟩ := frame
    cases scope
    rw [searchVars, node, lexicalBinding, present]
    rcases ih (start + 1) with nowhere | ⟨hops, displ, static, dynamic, slot⟩
    · exact .inl nowhere
    · refine .inr ⟨hops + 1, displ, ?_, dynamic, slot⟩
      rw [static, Nat.add_right_comm, Nat.add_assoc]

/-- The nearest `with` of the static environment and of the chain of frames. -/
structure NearestWith (memory : Memory Symbol) (static : StaticEnv Symbol) (env : Env)
    (name : Symbol) (hops : Nat) (outer : StaticEnv Symbol) (address : Nat) (up : Env) : Prop where
  level : ∀ start, withLevel start static = some (start + hops)
  node : nearestWith static = some (withNode outer)
  chain : env.drop hops = address :: up
  frame : ∃ values, memory.envs[address]? = some ⟨.ofWith, values⟩ ∧ 0 < values.length
  rest : Matches memory outer up
  shorter : outer.length < static.length
  skips : ∀ forceAttrs, searchSets forceAttrs name env memory =
    searchSets forceAttrs name (address :: up) memory

theorem nearest_with (name : Symbol) :
    ((∀ start, withLevel start static = none) ∧ nearestWith static = none ∧
      ∀ forceAttrs, searchSets forceAttrs name env memory = .error (.undefinedVar name) memory) ∨
    ∃ hops outer address up, NearestWith memory static env name hops outer address up := by
  induction matching with
  | nil => exact .inl ⟨fun _ => rfl, rfl, fun _ => rfl⟩
  | @names level static address env frame names plain present scope room finds _ ih =>
    obtain ⟨scope', values⟩ := frame
    cases scope
    have skip : ∀ forceAttrs, searchSets forceAttrs name (address :: env) memory =
        searchSets forceAttrs name env memory := by
      intro forceAttrs
      rw [searchSets]
      change EStateM.bind EStateM.get _ memory = _
      rw [EStateM.bind]
      dsimp only [EStateM.get]
      rw [present]
    rcases ih with ⟨noLevel, noNode, nothing⟩ | ⟨hops, outer, inner, up, nearest⟩
    · refine .inl ⟨?_, ?_, ?_⟩
      · intro start
        rw [withLevel, plain]
        exact noLevel (start + 1)
      · rw [nearestWith, plain]
        exact noNode
      · intro forceAttrs
        rw [skip, nothing]
    · refine .inr ⟨hops + 1, outer, inner, up, ?_⟩
      refine ⟨?_, ?_, nearest.chain, nearest.frame, nearest.rest, ?_, ?_⟩
      · intro start
        rw [withLevel, plain]
        rw [nearest.level, Nat.add_right_comm, Nat.add_assoc]
      · rw [nearestWith, plain]
        exact nearest.node
      · exact Nat.lt_succ_of_lt nearest.shorter
      · intro forceAttrs
        rw [skip, nearest.skips]
  | @ofWith level static address env frame node present scope room rest _ =>
    obtain ⟨scope', values⟩ := frame
    cases scope
    refine .inr ⟨0, static, address, env, ?_⟩
    refine ⟨?_, ?_, rfl, ⟨values, present, room⟩, rest, Nat.lt_succ_self _, fun _ => rfl⟩
    · intro start
      rw [withLevel, node]
      rfl
    · rw [nearestWith, node]

end

end Matching

end Bsd.Expr.ScopeMatching
