import Bsd.Expr.InheritClauses

/-!
# Where inherit-from clauses end up

`groups` reads off the source which literals meet in the set at a path, with the clauses of
each. After the parse, a clause that is number `index` of its literal and has `m` names has
the displacement `index + m * size` modulo `2 ^ 32`, where `size` counts the clauses of the
literals before; its source stands at `index + size`.
-/

namespace Bsd.Expr.MergedInherits

open List Lib.OrdMap Lib.Readers Expr.ParserState Expr.AttrMerging Expr.InheritClauses

variable {index : Nat}

section Plan

variable {Symbol Expr : Type}

def placedFrom (size : Nat) : List (List (Clause Symbol Expr)) → List (Clause Symbol Expr × Nat)
  | [] => []
  | group :: groups =>
    group.zipIdx.map (shift size) ++ placedFrom (size + group.length) groups

def placed : List (List (Clause Symbol Expr)) → List (Clause Symbol Expr × Nat) := placedFrom 0

theorem placed_from_clauses (size : Nat) (groups : List (List (Clause Symbol Expr))) :
    (placedFrom size groups).map Prod.fst = groups.flatten := by
  induction groups generalizing size with
  | nil => rfl
  | cons group groups ih =>
    rw [placedFrom, map_append, ih, map_map]
    congr 1
    exact zipIdx_map_fst 0 group

theorem placed_from_add (size more : Nat) (groups : List (List (Clause Symbol Expr))) :
    placedFrom (size + more) groups = (placedFrom size groups).map (shift more) := by
  induction groups generalizing size with
  | nil => rfl
  | cons group groups ih =>
    rw [placedFrom, placedFrom, map_append, ← ih, shift_shift, Nat.add_right_comm]

theorem placed_from_append (size : Nat) (left right : List (List (Clause Symbol Expr))) :
    placedFrom size (left ++ right) =
      placedFrom size left ++ placedFrom (size + left.flatten.length) right := by
  induction left generalizing size with
  | nil => rfl
  | cons group groups ih =>
    rw [cons_append, placedFrom, placedFrom, ih, append_assoc, flatten_cons,
      length_append, Nat.add_assoc]

theorem placed_length (groups : List (List (Clause Symbol Expr))) :
    (placed groups).length = groups.flatten.length := by
  rw [← placed_from_clauses 0 groups, length_map]
  rfl

theorem placed_append (left right : List (List (Clause Symbol Expr))) :
    placed (left ++ right) = placed left ++ (placed right).map (shift (placed left).length) := by
  rw [placed, placed_from_append, placed_from_add]
  congr 3
  exact (placed_length left).symm

variable {clause : Clause Symbol Expr}

section

variable (before after : List (List (Clause Symbol Expr))) (group : List (Clause Symbol Expr))
  (here : group[index]? = some clause)

include before after group here

theorem placed_split : (placed (before ++ group :: after))[before.flatten.length + index]? =
      some (clause, index + clause.names.length * before.flatten.length) := by
  have inGroup : index < group.length := (List.getElem?_eq_some_iff.mp here).1
  rw [placed, placed_from_append, placedFrom, Nat.zero_add,
    List.getElem?_append_right (by rw [← placed_length]; exact Nat.le_add_right _ _)]
  have size : (placedFrom 0 before).length = before.flatten.length := placed_length before
  rw [size, Nat.add_sub_cancel_left, List.getElem?_append_left (by simpa using inGroup),
    List.getElem?_map, List.getElem?_zipIdx, here, Nat.zero_add]
  rfl

theorem source_split :
    ((before ++ group :: after).flatten.map Clause.e)[before.flatten.length + index]? =
      some clause.e := by
  rw [← placed_from_clauses 0, map_map, getElem?_map, ← placed,
    placed_split before after group here]
  rfl

end

def clauses (binds : List (Bind Symbol Expr)) : List (Clause Symbol Expr) :=
  binds.filterMap fun bind => match bind with
    | .inheritFrom e names => some ⟨e, names⟩
    | _ => none

variable [LinearOrder Symbol]

mutual

/-- The literals that meet in the set at the path, each with its clauses. -/
def groups : Source Symbol Expr → List Symbol → List (List (Clause Symbol Expr))
  | .other _, _ => []
  | .set _ binds, [] => [clauses binds]
  | .set _ binds, symbol :: path => groupsIn binds (symbol :: path)

def groupsIn : List (Bind Symbol Expr) → List Symbol → List (List (Clause Symbol Expr))
  | [], _ => []
  | .attr first names e :: binds, path =>
    along (fun path => groups e path) (first :: names) path ++ groupsIn binds path
  | .inherit _ :: binds, path => groupsIn binds path
  | .inheritFrom _ _ :: binds, path => groupsIn binds path

end

theorem along_placed (content : List Symbol → List (List (Clause Symbol Expr)))
    (names : List (AttrName Symbol Expr)) (path : List Symbol) :
    along (fun path => placed (content path)) names path = placed (along content names path) := by
  induction names generalizing path with
  | nil => rfl
  | cons name names ih =>
    cases name with
    | dynamic expr => rw [along_dynamic]; rfl
    | symbol symbol =>
      cases path with
      | nil => rfl
      | cons wanted path =>
        rw [along, along]
        split
        · exact ih path
        · rfl

def own (plan : Plan Symbol Expr) (clause : Clause Symbol Expr) :
    Plan Symbol Expr
  | [] => plan [] ++ [(clause, (plan []).length)]
  | symbol :: path => plan (symbol :: path)

def extendPlan (plan : Plan Symbol Expr) :
    List (Bind Symbol Expr) → Plan Symbol Expr
  | [] => plan
  | .attr first names e :: binds =>
    extendPlan (join plan (along (fun path => placed (groups e path)) (first :: names))) binds
  | .inherit _ :: binds => extendPlan plan binds
  | .inheritFrom e names :: binds => extendPlan (own plan ⟨e, names⟩) binds

section

variable (plan : Plan Symbol Expr) (binds : List (Bind Symbol Expr))

include plan binds

theorem extend_plan_nil :
    extendPlan plan binds [] = plan [] ++ (clauses binds).zipIdx (plan []).length := by
  induction binds generalizing plan with
  | nil => exact (append_nil _).symm
  | cons bind binds ih =>
    cases bind with
    | attr first names e =>
      rw [extendPlan, ih]
      cases first with
      | symbol symbol => exact congrArg (fun old => old ++ (clauses binds).zipIdx old.length) (append_nil _)
      | dynamic expr =>
        rw [join_dynamic]
        rfl
    | inherit names =>
      rw [extendPlan, ih]
      rfl
    | inheritFrom e names =>
      rw [extendPlan, ih, own, length_append, append_assoc]
      rfl

theorem extend_plan_cons (symbol : Symbol) (path : List Symbol) :
    extendPlan plan binds (symbol :: path) =
      join plan (fun path => placed (groupsIn binds path)) (symbol :: path) := by
  induction binds generalizing plan with
  | nil => exact (append_nil _).symm
  | cons bind binds ih =>
    cases bind with
    | attr first names e =>
      rw [extendPlan, ih, join, join, join, groupsIn, placed_append, along_placed,
        append_assoc, map_append, shift_shift, length_append, length_map,
        Nat.add_comm]
    | inherit names =>
      rw [extendPlan, ih, join, join, groupsIn]
    | inheritFrom e names =>
      rw [extendPlan, ih, join, join, groupsIn, own]

end

theorem extend_plan_new (recursive : Bool) (binds : List (Bind Symbol Expr)) :
    extendPlan (fun _ => []) binds = fun path => placed (groups (.set recursive binds) path) := by
  funext path
  cases path with
  | nil =>
    rw [extend_plan_nil, groups, placed, placedFrom, placedFrom, shift_zero, append_nil]
    rfl
  | cons symbol path =>
    rw [extend_plan_cons, join_of_empty _ fun _ => rfl, groups]

end Plan

variable {heap heap' : Heap}

section Parse

variable {Symbol Expr : Type} [LinearOrder Symbol]

structure Inherits (accum : ExprAttrs Symbol Expr) (attr : Symbol → AttrDef Symbol Expr)
    (names : List Symbol) (accum' : ExprAttrs Symbol Expr) : Prop where
  exprs : accum'.inheritFromExprs = accum.inheritFromExprs
  dynamic : accum'.dynamicAttrs = accum.dynamicAttrs
  keys : (accum.attrs.map Prod.fst).Nodup → (accum'.attrs.map Prod.fst).Nodup
  used : ∀ origin, uses origin accum'.attrs =
    uses origin accum.attrs + uses origin (names.map fun name => (name, attr name))
  new : ∀ name ∈ names, find name accum'.attrs = some (attr name) ∧ find name accum.attrs = none
  others : ∀ name, name ∉ names → find name accum'.attrs = find name accum.attrs
  mem : ∀ entry ∈ accum'.attrs, entry ∈ accum.attrs ∨ ∃ name ∈ names, entry = (name, attr name)

variable {attr : Symbol → AttrDef Symbol Expr} {accum' : ExprAttrs Symbol Expr}
  {names : List Symbol} {accum : ExprAttrs Symbol Expr}

theorem inherit_all (ran : inheritAll attr names accum = .ok accum') :
    Inherits accum attr names accum' := by
  induction names generalizing accum with
  | nil =>
    cases ran
    exact ⟨rfl, rfl, id, fun _ => rfl, nofun, fun _ _ => rfl, fun _ member => .inl member⟩
  | cons name names ih =>
    rw [inheritAll] at ran
    split at ran
    · cases ran
    next absent =>
      have put : Put accum name (attr name) _ := .fresh absent
      have loop := ih ran
      have present : find name (accum.emplace name (attr name)).attrs = some (attr name) := by
        rw [put.found, if_pos rfl]
      have later : name ∉ names := fun again => by
        cases (loop.new name again).2.symm.trans present
      refine ⟨loop.exprs.trans put.exprs, loop.dynamic.trans put.dynamic,
        fun distinct => loop.keys (put.keys distinct), ?_, ?_, ?_, ?_⟩
      · intro origin
        rw [loop.used, put.used, Nat.add_assoc, map_cons,
          uses_cons origin (name, attr name) (names.map _)]
      · intro wanted member
        rcases mem_cons.mp member with rfl | inNames
        · exact ⟨(loop.others wanted later).trans present, absent⟩
        have differs : wanted ≠ name := fun same => later (same ▸ inNames)
        obtain ⟨found, before⟩ := loop.new wanted inNames
        rw [put.found, if_neg differs] at before
        exact ⟨found, before⟩
      · intro wanted notIn
        rw [mem_cons, not_or] at notIn
        rw [loop.others wanted notIn.2, put.found, if_neg notIn.1]
      · intro entry member
        rcases loop.mem entry member with old | ⟨later, inNames, same⟩
        · rcases put.mem old with new | before
          · exact .inr ⟨name, mem_cons_self, new⟩
          · exact .inl before
        · exact .inr ⟨later, mem_cons_of_mem _ inNames, same⟩

variable {start : ExprAttrs Symbol Expr}
  {plan plan' : Plan Symbol Expr}

theorem Inherits.below (accum : ExprAttrs Symbol Expr) (inherits : Inherits start attr names accum')
    (sameAttrs : start.attrs = accum.attrs) (leaf : ∀ name, ¬IsSet (attr name))
    (carries : Carries heap accum.toDef plan)
    (frame : ∀ origin, Mentions origin accum.toDef → heap'[origin]? = heap[origin]?)
    (same : ∀ symbol path, plan' (symbol :: path) = plan (symbol :: path))
    (top : Own heap' accum' (plan' [])) : Carries heap' accum'.toDef plan' := by
  obtain ⟨-, below⟩ := carries_set.mp carries
  refine carries_set.mpr ⟨top, ?_⟩
  intro symbol
  simp only [same]
  by_cases member : symbol ∈ names
  · obtain ⟨found, absent⟩ := inherits.new symbol member
    rw [sameAttrs] at absent
    rw [found]
    refine ⟨nofun, ?_⟩
    intro def_ here
    cases here
    exact (carries_leaf (leaf symbol)).mpr ((below symbol).1 absent)
  · rw [inherits.others symbol member, sameAttrs]
    refine ⟨(below symbol).1, ?_⟩
    intro def_ here
    refine ((below symbol).2 def_ here).frame ?_
    intro origin inside
    exact frame origin (mentions_set.mpr (.inl ⟨(symbol, def_), find_mem here, inside⟩))

variable {clauses : List (Clause Symbol Expr × Nat)}

theorem Inherits.keeps (accum : ExprAttrs Symbol Expr) (inherits : Inherits start attr names accum')
    (sameAttrs : start.attrs = accum.attrs) (leaf : ∀ name, ¬IsSet (attr name))
    (unknown : ∀ origin name, Mentions origin accum.toDef → ¬Mentions origin (attr name))
    (own : Own heap accum clauses) : (accum'.attrs.map Prod.fst).Nodup ∧
      (∀ one ∈ accum'.attrs, ∀ two ∈ accum'.attrs, one.1 ≠ two.1 → IsSet two.2 →
        ∀ origin, Mentions origin one.2 → ¬Mentions origin two.2) ∧
      ∀ clause ∈ clauses, clause.1.names ≠ [] → ∃ origin, Bound heap accum' origin clause := by
  have old : ∀ entry ∈ accum'.attrs, IsSet entry.2 → entry ∈ accum.attrs := by
    intro entry member isSet
    rcases inherits.mem entry member with before | ⟨name, -, rfl⟩
    · rw [← sameAttrs]
      exact before
    · exact absurd isSet (leaf name)
  refine ⟨?_, ?_, ?_⟩
  · apply inherits.keys
    rw [sameAttrs]
    exact own.keys
  · intro one oneMember two twoMember differ twoSet origin oneInside twoInside
    have oldTwo := old two twoMember twoSet
    rcases inherits.mem one oneMember with oldOne | ⟨name, -, rfl⟩
    · rw [sameAttrs] at oldOne
      exact own.apart one oldOne two oldTwo differ twoSet origin oneInside twoInside
    · exact unknown origin name (mentions_set.mpr (.inl ⟨two, oldTwo, twoInside⟩)) oneInside
  · intro clause member named
    obtain ⟨origin, bound⟩ := own.bound clause member named
    refine ⟨origin, bound.displ, ?_, ?_⟩
    · intro name inNames
      have known := bound.names name inNames
      rw [← sameAttrs] at known
      have notNew : name ∉ names := fun again => by
        cases (inherits.new name again).2.symm.trans known
      exact (inherits.others name notNew).trans known
    · rw [inherits.used, sameAttrs, bound.used, uses_unmentioned, Nat.add_zero]
      intro entry member inside
      obtain ⟨name, -, rfl⟩ := mem_map.mp member
      exact unknown origin name (bound.inside named) inside

theorem Inherits.own {e : Expr} {displ : Nat}
    (inherits : Inherits { accum with inheritFromExprs := some (accum.sources ++ [e]) }
      (.inheritedFrom heap.length) names accum') (own : Own heap accum clauses)
    (older : ∀ origin, Mentions origin accum.toDef → origin < heap.length) :
    Own (heap ++ [.ofNat 32 displ]) accum' (clauses ++ [(⟨e, names⟩, displ)]) := by
  have grown : Own (heap ++ [.ofNat 32 displ]) accum clauses :=
    own.frame fun origin inside => getElem?_append_left (older origin inside)
  have unknown : ∀ origin name, Mentions origin accum.toDef →
      ¬Mentions origin (.inheritedFrom heap.length name : AttrDef Symbol Expr) := by
    intro origin name inside new
    cases new
    exact lt_irrefl _ (older _ inside)
  obtain ⟨keys, apart, bound⟩ := inherits.keeps accum rfl (inherited_from_leaf _) unknown grown
  refine ⟨keys, apart, ?_, ?_⟩
  · rw [ExprAttrs.sources, inherits.exprs, own.sources, map_append]
    rfl
  intro clause member named
  rcases mem_append.mp member with old | last
  · exact bound clause old named
  rw [mem_singleton.mp last]
  refine ⟨heap.length, getElem?_concat_length,
    fun name inNames => (inherits.new name inNames).1, ?_⟩
  rw [inherits.used, uses_names, uses_unmentioned, Nat.zero_add]
  intro entry member inside
  exact lt_irrefl _ (older _ (mentions_set.mpr (.inl ⟨entry, member, inside⟩)))

theorem Inherits.inside (inherits : Inherits start attr names accum') {origin : Nat}
    (inside : Mentions origin accum'.toDef) :
    Mentions origin start.toDef ∨ ∃ name, Mentions origin (attr name) := by
  rcases mentions_set.mp inside with ⟨entry, member, here⟩ | ⟨entry, member, here⟩
  · rcases inherits.mem entry member with old | ⟨name, -, rfl⟩
    · exact .inl (mentions_set.mpr (.inl ⟨entry, old, here⟩))
    · exact .inr ⟨name, here⟩
  · rw [inherits.dynamic] at member
    exact .inl (mentions_set.mpr (.inr ⟨entry, member, here⟩))

/-- What parsing has done: it displaces no nodes from before and brings in only new ones. -/
structure Parsed (heap heap' : Heap) (old : Nat → Prop) (attr : AttrDef Symbol Expr)
    (plan : Plan Symbol Expr) : Prop where
  grows : heap.length ≤ heap'.length
  frame : ∀ origin, origin < heap.length → heap'[origin]? = heap[origin]?
  inside : ∀ origin, Mentions origin attr →
    old origin ∨ heap.length ≤ origin ∧ origin < heap'.length
  carries : Carries heap' attr plan

theorem Parsed.trans {heap1 : Heap} {old : Nat → Prop} {middle attr : AttrDef Symbol Expr}
    (first : Parsed heap heap1 old middle plan)
    (second : Parsed heap1 heap' (Mentions · middle) attr plan') : Parsed heap heap' old attr plan' := by
  refine ⟨first.grows.trans second.grows, ?_, ?_, second.carries⟩
  · intro origin smaller
    exact (second.frame origin (lt_of_lt_of_le smaller first.grows)).trans (first.frame origin smaller)
  intro origin inside
  rcases second.inside origin inside with before | ⟨lower, upper⟩
  · rcases first.inside origin before with known | ⟨lower, upper⟩
    · exact .inl known
    · exact .inr ⟨lower, lt_of_lt_of_le upper second.grows⟩
  · exact .inr ⟨first.grows.trans lower, upper⟩

theorem Parsed.older {before attr : AttrDef Symbol Expr}
    (parsed : Parsed heap heap' (Mentions · before) attr plan)
    (older : ∀ origin, Mentions origin before → origin < heap.length) :
    ∀ origin, Mentions origin attr → origin < heap'.length := by
  intro origin inside
  rcases parsed.inside origin inside with known | ⟨-, upper⟩
  · exact lt_of_lt_of_le (older origin known) parsed.grows
  · exact upper

mutual

theorem parse_expr_parsed (source : Source Symbol Expr) {heap heap' : Heap}
    {attr : AttrDef Symbol Expr} (ran : parseExpr heap source = .ok (attr, heap')) :
    (∀ origin name, attr ≠ .inheritedFrom origin name) ∧
      Parsed heap heap' (fun _ => False) attr fun path => placed (groups source path) := by
  cases source with
  | other e =>
    cases ran
    refine ⟨nofun, le_refl _, fun _ _ => rfl, nofun, ?_⟩
    have leaf : ¬IsSet (.plain e : AttrDef Symbol Expr) := nofun
    refine (carries_leaf leaf).mpr ?_
    intro path
    rfl
  | set recursive binds =>
    obtain ⟨⟨accum, heap1⟩, inner, done⟩ := except_bind_ok ran
    cases done
    have parsed := parse_binds_parsed binds (carries_new heap)
      (fun origin inside => absurd inside new_mentions) inner
    refine ⟨nofun, parsed.grows, parsed.frame, ?_, ?_⟩
    · intro origin inside
      rcases parsed.inside origin (mentions_alike inside rfl rfl) with none | new
      · exact absurd none new_mentions
      · exact .inr new
    · rw [← extend_plan_new recursive binds]
      exact parsed.carries.alike rfl rfl

theorem parse_binds_parsed (binds : List (Bind Symbol Expr)) {accum accum' : ExprAttrs Symbol Expr}
    {heap heap' : Heap} {plan : Plan Symbol Expr}
    (carries : Carries heap accum.toDef plan)
    (older : ∀ origin, Mentions origin accum.toDef → origin < heap.length)
    (ran : parseBinds accum heap binds = .ok (accum', heap')) :
    Parsed heap heap' (Mentions · accum.toDef) accum'.toDef (extendPlan plan binds) := by
  cases binds with
  | nil =>
    cases ran
    exact ⟨le_refl _, fun _ _ => rfl, fun _ inside => .inl inside, carries⟩
  | cons bind binds =>
    cases bind with
    | attr first names e =>
      obtain ⟨⟨attr, heap1⟩, parsedE, ran⟩ := except_bind_ok ran
      obtain ⟨⟨next, heap2⟩, added, later⟩ := except_bind_ok ran
      obtain ⟨plain, parsed⟩ := parse_expr_parsed e parsedE
      have fresh : ∀ origin, Mentions origin attr → heap.length ≤ origin ∧ origin < heap1.length :=
        fun origin inside => (parsed.inside origin inside).resolve_left id
      obtain ⟨adds, joined⟩ := add_path_adds plain parsed.carries
        (carries.frame fun origin inside => parsed.frame origin (older origin inside))
        (fun origin inside inAttr => absurd (fresh origin inAttr).1 (not_le_of_gt (older origin inside)))
        added
      have step : Parsed heap heap2 (Mentions · accum.toDef) next.toDef
          (join plan (along (fun path => placed (groups e path)) (first :: names))) := by
        refine ⟨parsed.grows.trans (le_of_eq adds.length.symm), ?_, ?_, joined⟩
        · intro origin smaller
          rw [adds.frame origin fun inAttr => absurd (fresh origin inAttr).1 (not_le_of_gt smaller)]
          exact parsed.frame origin smaller
        · intro origin inside
          rw [adds.length]
          exact (adds.inside origin inside).imp id (fresh origin)
      exact step.trans (parse_binds_parsed binds joined (step.older older) later)
    | inherit names =>
      obtain ⟨next, inherited, later⟩ := except_bind_ok ran
      have inherits := inherit_all inherited
      have unknown : ∀ origin name,
          ¬Mentions origin (.inherited name : AttrDef Symbol Expr) := nofun
      obtain ⟨keys, apart, bound⟩ := inherits.keeps accum rfl inherited_leaf
        (fun origin name _ => unknown origin name) (carries_set.mp carries).1
      have sources : next.sources = (plan []).map (·.1.e) := by
        rw [ExprAttrs.sources, inherits.exprs]
        exact (carries_set.mp carries).1.sources
      have step : Parsed heap heap (Mentions · accum.toDef) next.toDef plan := by
        refine ⟨le_refl _, fun _ _ => rfl, ?_, ?_⟩
        · intro origin inside
          refine .inl ((inherits.inside inside).resolve_right ?_)
          rintro ⟨name, new⟩
          exact unknown origin name new
        · exact inherits.below accum rfl inherited_leaf carries (fun _ _ => rfl) (fun _ _ => rfl)
            ⟨keys, apart, sources, bound⟩
      exact step.trans (parse_binds_parsed binds step.carries (step.older older) later)
    | inheritFrom e names =>
      obtain ⟨next, inherited, later⟩ := except_bind_ok ran
      have inherits := inherit_all inherited
      have size : (accum.sources ++ [e]).length - 1 = (plan []).length := by
        rw [length_append, (carries_set.mp carries).1.sources, length_map]
        rfl
      have step : Parsed heap (heap ++ [.ofNat 32 (plan []).length]) (Mentions · accum.toDef)
          next.toDef (own plan ⟨e, names⟩) := by
        refine ⟨?_, ?_, ?_, ?_⟩
        · rw [length_append]
          exact Nat.le_add_right _ _
        · intro origin smaller
          exact getElem?_append_left smaller
        · intro origin inside
          rcases inherits.inside inside with before | ⟨name, new⟩
          · exact .inl (mentions_alike before rfl rfl)
          · cases new
            rw [length_append]
            exact .inr ⟨le_refl _, Nat.lt_succ_self _⟩
        · exact inherits.below accum rfl (inherited_from_leaf _) carries
            (fun origin inside => getElem?_append_left (older origin inside))
            (fun _ _ => rfl) (inherits.own (carries_set.mp carries).1 older)
      refine step.trans (parse_binds_parsed binds step.carries (step.older older) ?_)
      rw [← size]
      exact later

end

end Parse

section Meaning

variable {Symbol Expr : Type} [LinearOrder Symbol]

def SelectsFrom (heap : Heap) (top : ExprAttrs Symbol Expr) (path : List Symbol) (name : Symbol)
    (e : Expr) : Prop :=
  ∃ merged origin displ, setAt top.toDef path = some merged ∧
    find name merged.attrs = some (.inheritedFrom origin name) ∧ heap[origin]? = some displ ∧
    merged.sources[displ.toNat]? = some e

theorem selects_from_iff {binds : List (Bind Symbol Expr)} {top : ExprAttrs Symbol Expr}
    {path : List Symbol} {before after : List (List (Clause Symbol Expr))}
    {group : List (Clause Symbol Expr)} {clause : Clause Symbol Expr} {name : Symbol}
    (parsed : parseBinds .new heap binds = .ok (top, heap'))
    (split : groups (.set false binds) path = before ++ group :: after)
    (here : group[index]? = some clause) (member : name ∈ clause.names) :
    SelectsFrom heap' top path name clause.e ↔
      ((groups (.set false binds) path).flatten.map Clause.e)[(index +
        clause.names.length * before.flatten.length) % 2 ^ 32]? = some clause.e := by
  have carries := (parse_binds_parsed binds (carries_new heap)
    (fun origin inside => absurd inside new_mentions) parsed).carries
  rw [extend_plan_new false] at carries
  have inPlan := mem_of_getElem? (placed_split before after group here)
  rw [← split] at inPlan
  cases reached : setAt top.toDef path with
  | none =>
    have empty : placed (groups (.set false binds) path) = [] := (carries path).1 reached
    rw [empty] at inPlan
    cases inPlan
  | some merged =>
    have own := (carries path).2 merged reached
    obtain ⟨origin, bound⟩ := own.bound _ inPlan (ne_nil_of_mem member)
    have sources : merged.sources = (groups (.set false binds) path).flatten.map Clause.e := by
      rw [own.sources, ← placed_from_clauses 0, map_map]
      rfl
    constructor
    · rintro ⟨merged', origin', displ, reached', found, at_, source⟩
      cases reached.symm.trans reached'
      cases (bound.names name member).symm.trans found
      cases bound.displ.symm.trans at_
      rw [← sources]
      exact source
    · intro source
      refine ⟨merged, origin, _, reached, bound.names name member, bound.displ, ?_⟩
      rw [sources]
      exact source

/-- The displacement of a clause leads to its own place exactly if the place is a number of 32
bits and the names behind the first have displaced the node by a multiple of `2 ^ 32`. -/
theorem displaced_right_iff {names : Nat} (named : 0 < names) (index size : Nat) :
    (index + names * size) % 2 ^ 32 = size + index ↔
      size + index < 2 ^ 32 ∧ 2 ^ 32 ∣ (names - 1) * size := by
  obtain ⟨others, rfl⟩ := Nat.exists_eq_add_one.mpr named
  have moved : index + (others + 1) * size = size + index + others * size := by
    rw [Nat.add_mul, Nat.one_mul]
    omega
  rw [moved, Nat.add_sub_cancel]
  omega

/-- Every inherited name of the set at a path selects from the source that its clause named
exactly if the place of each clause fits into a displacement and the names behind its first
one, which displace the shared node once more each, displace it by a multiple of `2 ^ 32` in
all: below that bound, if no clause with two or more names comes behind a clause of an earlier
literal. The expressions are the nodes the parser has made, one for each clause. -/
theorem merged_inherits_select_iff (binds : List (Bind Symbol Expr)) (heap heap' : Heap)
    (top : ExprAttrs Symbol Expr) (path : List Symbol)
    (parsed : parseBinds .new heap binds = .ok (top, heap'))
    (nodes : ((groups (.set false binds) path).flatten.map Clause.e).Nodup) :
    (∀ group ∈ groups (.set false binds) path, ∀ clause ∈ group, ∀ name ∈ clause.names,
      SelectsFrom heap' top path name clause.e) ↔
    ∀ before group after, groups (.set false binds) path = before ++ group :: after →
      ∀ index clause, group[index]? = some clause → clause.names ≠ [] →
        before.flatten.length + index < 2 ^ 32 ∧
          2 ^ 32 ∣ (clause.names.length - 1) * before.flatten.length := by
  constructor
  · intro right before group after split index clause here named
    obtain ⟨name, inNames⟩ := List.exists_mem_of_ne_nil _ named
    have selected := right group (by rw [split]; simp) clause (List.mem_of_getElem? here) name inNames
    rw [selects_from_iff parsed split here inNames] at selected
    have stands := source_split before after group here
    rw [← split] at stands
    refine (displaced_right_iff (List.length_pos_of_mem inNames) index _).mp ?_
    exact (List.getElem?_inj (List.getElem?_eq_some_iff.mp selected).1 nodes).mp
      (selected.trans stands.symm)
  · intro condition group inGroups clause member name inNames
    obtain ⟨before, after, split⟩ := List.append_of_mem inGroups
    obtain ⟨index, here⟩ := List.getElem?_of_mem member
    have right := condition before group after split index clause here (List.ne_nil_of_mem inNames)
    rw [selects_from_iff parsed split here inNames,
      (displaced_right_iff (List.length_pos_of_mem inNames) index _).mpr right, split]
    exact source_split before after group here

/-- `x = { inherit (a) n m; }; x = { y.z = e; inherit (b) p; };` -/
def singleNames : List (Bind Nat Char) :=
  [.attr (.symbol 0) [] (.set false [.inheritFrom 'a' [1, 2]]),
    .attr (.symbol 0) [] (.set false [.attr (.symbol 4) [.symbol 5] (.other 'e'), .inheritFrom 'b' [3]])]

theorem merged_inherits_select_single :
    ∃ top heap, parseBinds .new [] singleNames = .ok (top, heap) ∧
      ∀ group ∈ groups (.set false singleNames) [0], ∀ clause ∈ group, ∀ name ∈ clause.names,
        SelectsFrom heap top [0] name clause.e := by
  refine ⟨_, _, rfl, ?_⟩
  refine (merged_inherits_select_iff singleNames [] _ _ [0] rfl (by decide)).mpr ?_
  intro before group after split index clause here named
  have known : groups (.set false singleNames) [0] = [[⟨'a', [1, 2]⟩], [⟨'b', [3]⟩]] := rfl
  rw [known] at split
  rcases before with _ | ⟨first, _ | ⟨second, rest⟩⟩
  · cases split
    have first : index < 1 := (List.getElem?_eq_some_iff.mp here).1
    exact ⟨by simp; omega, by simp⟩
  · cases split
    obtain ⟨last, rfl⟩ := List.getElem?_eq_some_iff.mp here
    have only : index = 0 := Nat.lt_one_iff.mp last
    subst only
    simp
  · simp at split

/-- `x = { inherit (a) n; }; x = { inherit (b) p q; };` -/
def sharedNames : List (Bind Nat Char) :=
  [.attr (.symbol 0) [] (.set false [.inheritFrom 'a' [1]]),
    .attr (.symbol 0) [] (.set false [.inheritFrom 'b' [2, 3]])]

/-- The node of the second clause is displaced for both names: it leads behind the vector. -/
theorem shared_names_displaced_twice :
    ∃ top heap merged, parseBinds .new [] sharedNames = .ok (top, heap) ∧
      setAt top.toDef [0] = some merged ∧ merged.sources = ['a', 'b'] ∧
      find 2 merged.attrs = some (.inheritedFrom 1 2) ∧ heap[1]? = some 2 ∧
      ¬SelectsFrom heap top [0] 2 'b' := by
  refine ⟨_, _, _, rfl, rfl, rfl, rfl, rfl, ?_⟩
  rintro ⟨merged, origin, displ, reached, found, at_, source⟩
  cases reached
  cases found
  cases at_
  cases source

end Meaning

end Bsd.Expr.MergedInherits
