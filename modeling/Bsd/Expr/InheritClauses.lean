import Bsd.Expr.AttrMerging

/-!
# Inherit-from clauses after all merges

`Own` says of one set which clauses it has, where their sources stand and what the
displacements of their nodes are; `Carries` says so of every set below a definition. Both
are kept by each action of the parser.
-/

namespace Bsd.Expr.InheritClauses

open List Lib.OrdMap Lib.Readers Expr.ParserState Expr.AttrMerging ExprAttrs

structure Clause (Symbol Expr : Type) where
  e : Expr
  names : List Symbol

abbrev Plan (Symbol Expr : Type) := List Symbol → List (Clause Symbol Expr × Nat)

variable {heap heap' : Heap}

section Invariant

variable {Symbol Expr : Type}

/-- A merge into a set with that many sources displaces a node once for each name. -/
def shift (size : Nat) (placed : Clause Symbol Expr × Nat) : Clause Symbol Expr × Nat :=
  (placed.1, placed.2 + placed.1.names.length * size)

theorem shift_zero (placed : List (Clause Symbol Expr × Nat)) : placed.map (shift 0) = placed := by
  have same : shift 0 = (id : Clause Symbol Expr × Nat → Clause Symbol Expr × Nat) := by
    rfl
  rw [same, map_id]

theorem shift_shift (placed : List (Clause Symbol Expr × Nat)) (size more : Nat) :
    (placed.map (shift size)).map (shift more) = placed.map (shift (size + more)) := by
  rw [map_map]
  congr 1
  funext clause
  simp [shift, Nat.mul_add, Nat.add_assoc]

def join (left right : Plan Symbol Expr) (path : List Symbol) :
    List (Clause Symbol Expr × Nat) :=
  left path ++ (right path).map (shift (left path).length)

theorem join_of_empty {left : Plan Symbol Expr}
    (right : Plan Symbol Expr) (empty : ∀ path, left path = []) :
    join left right = right := by
  funext path
  rw [join, empty, nil_append, length_nil, shift_zero]

variable {origin : Nat}

theorem new_mentions : ¬Mentions origin (new : ExprAttrs Symbol Expr).toDef := by
  rw [mentions_set]
  rintro (⟨entry, member, -⟩ | ⟨entry, member, -⟩)
  · cases member
  · cases member

variable {set : ExprAttrs Symbol Expr} {attr : AttrDef Symbol Expr}

theorem dynamic_mentions {expr : Expr}
    (inside : Mentions origin { set with dynamicAttrs := set.dynamicAttrs ++ [(expr, attr)] }.toDef) :
    Mentions origin set.toDef ∨ Mentions origin attr := by
  rcases mentions_set.mp inside with ⟨entry, member, here⟩ | ⟨entry, member, here⟩
  · exact .inl (mentions_attr member here)
  rcases mem_append.mp member with old | last
  · exact .inl (mentions_set.mpr (.inr ⟨entry, old, here⟩))
  · rw [mem_singleton.mp last] at here
    exact .inr here

theorem extend_sources (merged other : ExprAttrs Symbol Expr) :
    (merged.extend other.inheritFromExprs other.dynamicAttrs).sources =
      merged.sources ++ other.sources := by
  cases exprs : other.inheritFromExprs with
  | none =>
    rw [sources, extend, sources, sources, exprs, Option.getD_none, append_nil]
  | some others =>
    rw [sources, extend, Option.getD_some]
    congr 1
    rw [sources, exprs, Option.getD_some]

variable [LinearOrder Symbol]

/-- The names of a clause select from the node, which has the displacement of the plan, cut to
32 bits. -/
structure Bound (heap : Heap) (set : ExprAttrs Symbol Expr) (origin : Nat)
    (placed : Clause Symbol Expr × Nat) : Prop where
  displ : heap[origin]? = some (.ofNat 32 placed.2)
  names : ∀ name ∈ placed.1.names, find name set.attrs = some (.inheritedFrom origin name)
  used : uses origin set.attrs = placed.1.names.length

structure Own (heap : Heap) (set : ExprAttrs Symbol Expr)
    (placed : List (Clause Symbol Expr × Nat)) : Prop where
  keys : (set.attrs.map Prod.fst).Nodup
  apart : ∀ one ∈ set.attrs, ∀ two ∈ set.attrs, one.1 ≠ two.1 → IsSet two.2 →
    ∀ origin, Mentions origin one.2 → ¬Mentions origin two.2
  sources : set.sources = placed.map (·.1.e)
  bound : ∀ clause ∈ placed, clause.1.names ≠ [] → ∃ origin, Bound heap set origin clause

def setAt : AttrDef Symbol Expr → List Symbol → Option (ExprAttrs Symbol Expr)
  | .set recursive attrs exprs dynamicAttrs, [] => some ⟨recursive, attrs, exprs, dynamicAttrs⟩
  | .set _ attrs _ _, symbol :: path =>
    match find symbol attrs with
    | none => none
    | some attr => setAt attr path
  | _, _ => none

/-- Every set below the definition has the clauses that the plan says. -/
def Carries (heap : Heap) (attr : AttrDef Symbol Expr)
    (plan : Plan Symbol Expr) : Prop :=
  ∀ path, (setAt attr path = none → plan path = []) ∧
    ∀ set, setAt attr path = some set → Own heap set (plan path)

theorem set_at_cons (set : ExprAttrs Symbol Expr) (symbol : Symbol) (path : List Symbol) :
    setAt set.toDef (symbol :: path) = (find symbol set.attrs).bind (setAt · path) := by
  rw [toDef, setAt]
  cases find symbol set.attrs with
  | none | some => rfl

theorem set_at_leaf (leaf : ¬IsSet attr) (path : List Symbol) : setAt attr path = none := by
  cases attr with
  | set recursive attrs exprs dynamicAttrs =>
    exact absurd ⟨⟨recursive, attrs, exprs, dynamicAttrs⟩, rfl⟩ leaf
  | plain | inherited | inheritedFrom => cases path <;> rfl

theorem set_at_mentions {path : List Symbol} (reached : setAt attr path = some set)
    (inside : Mentions origin set.toDef) : Mentions origin attr := by
  induction path generalizing attr with
  | nil =>
    cases attr with
    | set recursive attrs exprs dynamicAttrs =>
      cases reached
      exact inside
    | plain | inherited | inheritedFrom => cases reached
  | cons symbol path ih =>
    by_cases isSet : IsSet attr
    · obtain ⟨whole, rfl⟩ := isSet
      rw [set_at_cons] at reached
      obtain ⟨next, found, below⟩ := Option.bind_eq_some_iff.mp reached
      exact mentions_attr (find_mem found) (ih below)
    · cases (set_at_leaf isSet _).symm.trans reached

variable {plan : Plan Symbol Expr}

theorem carries_set : Carries heap set.toDef plan ↔ Own heap set (plan []) ∧ ∀ symbol,
      (find symbol set.attrs = none → ∀ path, plan (symbol :: path) = []) ∧
      ∀ attr, find symbol set.attrs = some attr →
        Carries heap attr fun path => plan (symbol :: path) := by
  constructor
  · intro carries
    refine ⟨(carries []).2 set rfl, ?_⟩
    intro symbol
    constructor
    · intro absent path
      apply (carries (symbol :: path)).1
      rw [set_at_cons, absent]
      rfl
    · intro attr found path
      have below := carries (symbol :: path)
      rw [set_at_cons, found] at below
      exact below
  · rintro ⟨own, below⟩ path
    cases path with
    | nil =>
      refine ⟨nofun, ?_⟩
      intro reached same
      cases same
      exact own
    | cons symbol path =>
      rw [set_at_cons]
      cases found : find symbol set.attrs with
      | none => exact ⟨fun _ => (below symbol).1 found path, nofun⟩
      | some attr => exact (below symbol).2 attr found path

theorem carries_leaf (leaf : ¬IsSet attr) : Carries heap attr plan ↔ ∀ path, plan path = [] := by
  constructor
  · intro carries path
    exact (carries path).1 (set_at_leaf leaf path)
  intro empty path
  refine ⟨fun _ => empty path, ?_⟩
  intro set reached
  cases (set_at_leaf leaf path).symm.trans reached

variable {placed : Clause Symbol Expr × Nat}

section

variable (bound : Bound heap set origin placed) (named : placed.1.names ≠ [])

include bound named

theorem Bound.mentioned : ∃ name, find name set.attrs = some (.inheritedFrom origin name) := by
  obtain ⟨name, names, same⟩ := exists_cons_of_ne_nil named
  exact ⟨name, bound.names name (by rw [same]; exact mem_cons_self)⟩

theorem Bound.inside : Mentions origin set.toDef := by
  obtain ⟨name, found⟩ := bound.mentioned named
  exact mentions_attr (find_mem found) (.here name)

end

theorem Own.frame {placed : List (Clause Symbol Expr × Nat)} (own : Own heap set placed)
    (same : ∀ origin, Mentions origin set.toDef → heap'[origin]? = heap[origin]?) :
    Own heap' set placed := by
  refine ⟨own.keys, own.apart, own.sources, ?_⟩
  intro clause member named
  obtain ⟨origin, bound⟩ := own.bound clause member named
  exact ⟨origin, (same origin (bound.inside named)).trans bound.displ, bound.names, bound.used⟩

theorem Carries.frame (carries : Carries heap attr plan)
    (same : ∀ origin, Mentions origin attr → heap'[origin]? = heap[origin]?) :
    Carries heap' attr plan := by
  intro path
  refine ⟨(carries path).1, ?_⟩
  intro set reached
  refine ((carries path).2 set reached).frame ?_
  intro origin inside
  exact same origin (set_at_mentions reached inside)

end Invariant

section Merge

variable {Symbol Expr : Type} [LinearOrder Symbol] {attrPath : List (AttrName Symbol Expr)}

theorem Own.merge {target other merged : ExprAttrs Symbol Expr}
    {left right : List (Clause Symbol Expr × Nat)} (targetOwn : Own heap target left)
    (otherOwn : Own heap other right)
    (disjoint : ∀ origin, Mentions origin target.toDef → ¬Mentions origin other.toDef)
    (ran : addAttrs attrPath (target.share other.inheritFromExprs) heap other.attrs =
      .ok (merged, heap')) : Own heap' (merged.extend other.inheritFromExprs other.dynamicAttrs)
      (left ++ right.map (shift left.length)) := by
  have loop := add_attrs_gathers ran
  obtain ⟨sameAttrs, -, sameSources⟩ := share_attrs target other.inheritFromExprs
  refine ⟨?_, ?_, ?_, ?_⟩
  · apply loop.keys
    rw [sameAttrs]
    exact targetOwn.keys
  · intro one oneMember two twoMember differ twoSet origin oneInside twoInside
    have oneFrom := add_attrs_gives_of (fun entry _ => add_attr_gives entry.2) ran oneMember oneInside
    have twoFrom := add_attrs_gives_of (fun entry _ => add_attr_gives entry.2) ran twoMember twoInside
    rw [sameAttrs] at oneFrom twoFrom
    rcases oneFrom with ⟨old, inOld, key, there, -⟩ | ⟨old, inOld, key, there, -⟩
    · rcases twoFrom with ⟨old', inOld', key', there', sets⟩ | ⟨old', inOld', key', there', -⟩
      · refine targetOwn.apart old inOld old' inOld' ?_ (sets twoSet) origin there there'
        rw [key, key']
        exact differ
      · exact disjoint origin (mentions_attr inOld there) (mentions_attr inOld' there')
    · rcases twoFrom with ⟨old', inOld', key', there', -⟩ | ⟨old', inOld', key', there', sets⟩
      · exact disjoint origin (mentions_attr inOld' there') (mentions_attr inOld there)
      · refine otherOwn.apart old inOld old' inOld' ?_ (sets twoSet) origin there there'
        rw [key, key']
        exact differ
  · rw [extend_sources, ExprAttrs.sources, loop.exprs]
    change (target.share other.inheritFromExprs).sources ++ other.sources = _
    rw [sameSources, targetOwn.sources, otherOwn.sources, map_append, map_map]
    rfl
  · intro clause member named
    rcases mem_append.mp member with old | new
    · obtain ⟨origin, bound⟩ := targetOwn.bound clause old named
      have away : ∀ entry ∈ other.attrs, ¬Mentions origin entry.2 := fun entry member inside =>
        disjoint origin (bound.inside named) (mentions_attr member inside)
      refine ⟨origin, (add_attrs_frame ran away).trans bound.displ, ?_, ?_⟩
      · intro name inNames
        refine loop.kept name _ ?_ (inherited_from_leaf _ _)
        rw [sameAttrs]
        exact bound.names name inNames
      · refine (loop.used origin).trans ?_
        rw [sameAttrs, bound.used, uses_unmentioned away, Nat.add_zero]
    · obtain ⟨before, inRight, rfl⟩ := mem_map.mp new
      obtain ⟨origin, bound⟩ := otherOwn.bound before inRight named
      have away : ∀ entry ∈ target.attrs, ¬Mentions origin entry.2 := fun entry member inside =>
        disjoint origin (mentions_attr member inside) (bound.inside named)
      have outside : ∀ entry ∈ other.attrs, IsSet entry.2 → ¬Mentions origin entry.2 := by
        intro entry member isSet
        obtain ⟨name, found⟩ := bound.mentioned named
        refine otherOwn.apart _ (find_mem found) entry member ?_ isSet origin (.here name)
        intro same
        have here := find_of_mem_keys otherOwn.keys member
        rw [← same] at here
        obtain ⟨set, isDef⟩ := isSet
        cases (Option.some.inj (found.symm.trans here)).trans isDef
      refine ⟨origin, ?_, ?_, ?_⟩
      · rw [add_attrs_displ ran outside, bound.displ, bound.used, sameSources, targetOwn.sources,
          length_map, Option.map_some, ← BitVec.ofNat_add]
        rfl
      · intro name inNames
        exact loop.added (name, _) (find_mem (bound.names name inNames)) (inherited_from_leaf _ _)
      · refine (loop.used origin).trans ?_
        rw [sameAttrs, uses_unmentioned away, Nat.zero_add, bound.used]
        rfl

def Joins (attr : AttrDef Symbol Expr) : Prop :=
  ∀ (attrPath : List (AttrName Symbol Expr)) (attrs attrs' : ExprAttrs Symbol Expr)
    (symbol : Symbol) (heap heap' : Heap)
    (left right : Plan Symbol Expr),
    addAttr attrPath attrs symbol heap attr = .ok (attrs', heap') →
    (find symbol attrs.attrs = none → ∀ path, left path = []) →
    (∀ old, find symbol attrs.attrs = some old →
      Carries heap old left ∧ ∀ origin, Mentions origin old → ¬Mentions origin attr) →
    Carries heap attr right →
    ∀ new, find symbol attrs'.attrs = some new → Carries heap' new (join left right)

theorem add_attr_found {attrs attrs' : ExprAttrs Symbol Expr} {symbol : Symbol}
    {attr : AttrDef Symbol Expr}
    (added : addAttr attrPath attrs symbol heap attr = .ok (attrs', heap')) :
    ∃ new, Put attrs symbol new attrs' ∧ (IsSet new ∨ new = attr) ∧ ∀ origin, Mentions origin new →
        Mentions origin attr ∨ ∃ old, find symbol attrs.attrs = some old ∧ Mentions origin old := by
  rcases add_attr_cases added with ⟨absent, -, rfl⟩ | ⟨target, other, merged, found, rfl, ran, rfl⟩
  · have put : Put attrs symbol attr _ := .fresh absent
    exact ⟨attr, put, .inr rfl, fun origin inside => .inl inside⟩
  have put : Put attrs symbol (merged.extend other.inheritFromExprs other.dynamicAttrs).toDef _ :=
    .onto found ⟨target, rfl⟩ ⟨_, rfl⟩
  refine ⟨_, put, .inl ⟨_, rfl⟩, ?_⟩
  intro origin inside
  rcases merged_mentions_of (fun entry _ => add_attr_gives entry.2) ran inside with old | new
  · exact .inr ⟨_, found, old⟩
  · exact .inl new

theorem add_attrs_joins {jAttrs final : ExprAttrs Symbol Expr}
    {entries : AttrDefs Symbol Expr} {entry : Symbol × AttrDef Symbol Expr}
    (left right : Plan Symbol Expr) (joins : Joins entry.2)
    (ran : addAttrs attrPath jAttrs heap entries = .ok (final, heap')) (member : entry ∈ entries)
    (keys : (entries.map Prod.fst).Nodup)
    (apart : ∀ one ∈ entries, one.1 ≠ entry.1 → IsSet entry.2 →
      ∀ origin, Mentions origin one.2 → ¬Mentions origin entry.2)
    (disjoint : ∀ one ∈ entries, ∀ origin, Mentions origin jAttrs.toDef → ¬Mentions origin one.2)
    (empty : find entry.1 jAttrs.attrs = none → ∀ path, left path = [])
    (old : ∀ old, find entry.1 jAttrs.attrs = some old → Carries heap old left)
    (carries : Carries heap entry.2 right) :
    ∃ new, find entry.1 final.attrs = some new ∧ Carries heap' new (join left right) := by
  obtain ⟨front, back, rfl⟩ := append_of_mem member
  have split := keys
  rw [map_append, map_cons, nodup_append, nodup_cons] at split
  obtain ⟨-, ⟨notInBack, -⟩, frontBack⟩ := split
  have frontOther : ∀ one ∈ front, one.1 ≠ entry.1 := fun one inFront =>
    frontBack _ (mem_map_of_mem inFront) _ mem_cons_self
  have backOther : ∀ one ∈ back, one.1 ≠ entry.1 := by
    intro one inBack same
    exact notInBack (by rw [← same]; exact mem_map_of_mem inBack)
  have inFrontOr : ∀ one ∈ front, one ∈ front ++ entry :: back := fun one inFront =>
    mem_append_left _ inFront
  have inBackOr : ∀ one ∈ back, one ∈ front ++ entry :: back := fun one inBack =>
    mem_append_right _ (mem_cons_of_mem _ inBack)
  obtain ⟨next, heap1, ranFront, later⟩ := add_attrs_append ran
  obtain ⟨last, heap2, added, ranBack⟩ := add_attrs_cons later
  have sameOld : find entry.1 next.attrs = find entry.1 jAttrs.attrs :=
    (add_attrs_gathers ranFront).others entry.1 frontOther
  have sameNew : find entry.1 final.attrs = find entry.1 last.attrs :=
    (add_attrs_gathers ranBack).others entry.1 backOther
  obtain ⟨new, put, -, newInside⟩ := add_attr_found added
  have found := put.here
  refine ⟨new, sameNew.trans found, ?_⟩
  have oldInside : ∀ origin old, find entry.1 jAttrs.attrs = some old → Mentions origin old →
      Mentions origin jAttrs.toDef := fun origin old present inside =>
    mentions_attr (find_mem present) inside
  by_cases isSet : IsSet entry.2
  · have undisplaced : displace next.sources.length heap1 entry.2 = heap1 := by
      obtain ⟨set, same⟩ := isSet
      rw [same]
      rfl
    rw [undisplaced] at added
    have joined : Carries heap2 new (join left right) := by
      refine joins _ _ _ _ _ _ left right added ?_ ?_ ?_ new found
      · rw [sameOld]
        exact empty
      · intro before present
        rw [sameOld] at present
        refine ⟨(old before present).frame ?_, ?_⟩
        · intro origin inside
          exact add_attrs_frame ranFront fun one inFront =>
            disjoint one (inFrontOr one inFront) origin (oldInside origin before present inside)
        · intro origin inside
          exact disjoint entry member origin (oldInside origin before present inside)
      · refine carries.frame ?_
        intro origin inside
        exact add_attrs_frame ranFront fun one inFront there =>
          apart one (inFrontOr one inFront) (frontOther one inFront) isSet origin there inside
    refine joined.frame ?_
    intro origin inside
    refine add_attrs_frame ranBack ?_
    intro one inBack there
    rcases newInside origin inside with inEntry | ⟨before, present, inOld⟩
    · exact apart one (inBackOr one inBack) (backOther one inBack) isSet origin there inEntry
    · rw [sameOld] at present
      exact disjoint one (inBackOr one inBack) origin (oldInside origin before present inOld) there
  · -- an attribute that is not a set is only accepted under a new symbol
    rcases add_attr_cases added with ⟨absent, -, rfl⟩ | ⟨-, other, -, -, same, -, -⟩
    · cases (Put.fresh absent).here.symm.trans found
      rw [sameOld] at absent
      rw [join_of_empty right (empty absent)]
      exact (carries_leaf isSet).mpr ((carries_leaf isSet).mp carries)
    · exact absurd ⟨other, same⟩ isSet

theorem add_attr_joins (attr : AttrDef Symbol Expr) : Joins attr := by
  induction attr using byAttrs with
  | leaf attr leaf =>
    intro attrPath attrs attrs' symbol heap heap' left right added empty old carries new found
    rcases add_attr_cases added with ⟨absent, -, rfl⟩ | ⟨-, other, -, -, same, -, -⟩
    · cases (Put.fresh absent).here.symm.trans found
      rw [join_of_empty right (empty absent)]
      exact (carries_leaf leaf).mpr ((carries_leaf leaf).mp carries)
    · exact absurd ⟨other, same⟩ leaf
  | set other ih =>
    intro attrPath attrs attrs' symbol heap heap' left right added empty old carries new found
    rcases add_attr_cases added with ⟨absent, same, rfl⟩ | ⟨target, same, merged, present, eq, ran, rfl⟩
    · cases (Put.fresh absent).here.symm.trans found
      rw [join_of_empty right (empty absent), same]
      exact carries
    cases toDef_inj eq
    have put : Put attrs symbol
        (merged.extend other.inheritFromExprs other.dynamicAttrs).toDef _ :=
      .onto present ⟨target, rfl⟩ ⟨_, rfl⟩
    cases put.here.symm.trans found
    obtain ⟨targetCarries, disjoint⟩ := old _ present
    obtain ⟨targetOwn, targetBelow⟩ := carries_set.mp targetCarries
    obtain ⟨otherOwn, otherBelow⟩ := carries_set.mp carries
    obtain ⟨sameAttrs, sameDynamic, -⟩ := share_attrs target other.inheritFromExprs
    refine carries_set.mpr ⟨targetOwn.merge otherOwn disjoint ran, ?_⟩
    intro name
    by_cases among : ∃ entry ∈ other.attrs, entry.1 = name
    · obtain ⟨entry, member, rfl⟩ := among
      obtain ⟨result, there, joined⟩ := add_attrs_joins (fun path => left (entry.1 :: path))
        (fun path => right (entry.1 :: path)) (ih entry member) ran member otherOwn.keys
        (fun one inOne differ isSet => otherOwn.apart one inOne entry member differ isSet)
        (fun one inOne origin inside here => disjoint origin
          (mentions_alike inside sameAttrs sameDynamic) (mentions_attr inOne here))
        (by rw [sameAttrs]; exact (targetBelow entry.1).1)
        (by rw [sameAttrs]; exact (targetBelow entry.1).2)
        ((otherBelow entry.1).2 _ (find_of_mem_keys otherOwn.keys member))
      constructor
      · intro absent
        cases absent.symm.trans there
      · intro attr found
        cases there.symm.trans found
        exact joined
    · have same : find name merged.attrs = find name target.attrs := by
        rw [← sameAttrs]
        exact (add_attrs_gathers ran).others name fun entry member same =>
          among ⟨entry, member, same⟩
      have nothing : ∀ path, right (name :: path) = [] := by
        refine (otherBelow name).1 (find_none_iff.mpr ?_)
        intro entry member same
        exact among ⟨entry, member, same.symm⟩
      have unchanged : ∀ path, join left right (name :: path) = left (name :: path) := by
        intro path
        rw [join, nothing, map_nil, append_nil]
      simp only [unchanged]
      constructor
      · intro absent
        exact (targetBelow name).1 (same.symm.trans absent)
      intro attr found
      have present := same.symm.trans found
      refine ((targetBelow name).2 attr present).frame ?_
      intro origin inside
      refine add_attrs_frame ran ?_
      intro entry member here
      exact disjoint origin (mentions_attr (find_mem present) inside)
        (mentions_attr member here)

end Merge

section Paths

variable {Symbol Expr : Type} [LinearOrder Symbol]

/-- What an attribute path leads to, seen from the set where the path starts. -/
def along {Content : Type} (content : List Symbol → List Content) :
    List (AttrName Symbol Expr) → List Symbol → List Content
  | [], path => content path
  | .symbol symbol :: names, wanted :: path =>
    if wanted = symbol then along content names path else []
  | _, _ => []

variable {plan : Plan Symbol Expr}
  {attrs attrs' : ExprAttrs Symbol Expr} {new : AttrDef Symbol Expr} {symbol : Symbol}

theorem put_carries {below : Plan Symbol Expr}
    (put : Put attrs symbol new attrs') (carries : Carries heap attrs.toDef plan)
    (newCarries : Carries heap' new below) (plain : ∀ origin name, new ≠ .inheritedFrom origin name)
    (kept : ∀ entry ∈ attrs.attrs, entry.1 ≠ symbol → ∀ origin, Mentions origin entry.2 →
      heap'[origin]? = heap[origin]? ∧ ¬Mentions origin new) :
    Carries heap' attrs'.toDef fun path => match path with
      | [] => plan []
      | wanted :: path => if wanted = symbol then below path else plan (wanted :: path) := by
  obtain ⟨own, others⟩ := carries_set.mp carries
  have unused : ∀ origin, uses origin [(symbol, new)] = 0 := by
    intro origin
    cases new with
    | plain | set | inherited => rfl
    | inheritedFrom other name => exact absurd rfl (plain other name)
  refine carries_set.mpr ⟨⟨put.keys own.keys, ?_, ?_, ?_⟩, ?_⟩
  · intro one oneMember two twoMember differ twoSet origin oneInside twoInside
    rcases put.mem oneMember with rfl | oldOne
    · rcases put.mem twoMember with rfl | oldTwo
      · exact differ rfl
      · exact (kept two oldTwo (Ne.symm differ) origin twoInside).2 oneInside
    · rcases put.mem twoMember with rfl | oldTwo
      · exact (kept one oldOne differ origin oneInside).2 twoInside
      · exact own.apart one oldOne two oldTwo differ twoSet origin oneInside twoInside
  · rw [sources, put.exprs]
    exact own.sources
  · intro clause member named
    obtain ⟨origin, bound⟩ := own.bound clause member named
    refine ⟨origin, ?_, ?_, ?_⟩
    · obtain ⟨name, found⟩ := bound.mentioned named
      have differs := (put.kept found (inherited_from_leaf _ _)).1
      exact (kept (name, _) (find_mem found) differs origin (.here name)).1.trans bound.displ
    · intro name inNames
      exact (put.kept (bound.names name inNames) (inherited_from_leaf _ _)).2
    · rw [put.used, unused, Nat.add_zero, bound.used]
  · intro wanted
    rw [put.found]
    by_cases same : wanted = symbol
    · simp only [same]
      refine ⟨by simp, ?_⟩
      intro attr found
      cases found
      exact newCarries
    simp only [same]
    refine ⟨(others wanted).1, ?_⟩
    intro attr found
    refine ((others wanted).2 attr found).frame ?_
    intro origin inside
    exact (kept (wanted, attr) (find_mem found) same origin inside).1

/-- What an action does to a set and the nodes: the set's new nodes are those of the
definition, which are the only ones displaced. -/
structure Adds (attrs attrs' : ExprAttrs Symbol Expr) (heap heap' : Heap)
    (attr : AttrDef Symbol Expr) : Prop where
  inside : ∀ origin, Mentions origin attrs'.toDef →
    Mentions origin attrs.toDef ∨ Mentions origin attr
  length : heap'.length = heap.length
  frame : ∀ origin, ¬Mentions origin attr → heap'[origin]? = heap[origin]?

theorem carries_new (heap : Heap) :
    Carries heap (ExprAttrs.new : ExprAttrs Symbol Expr).toDef fun _ => [] := by
  refine carries_set.mpr ⟨⟨nodup_nil, nofun, rfl, nofun⟩, ?_⟩
  intro symbol
  exact ⟨fun _ _ => rfl, nofun⟩

theorem Carries.alike {set set' : ExprAttrs Symbol Expr} (carries : Carries heap set.toDef plan)
    (sameAttrs : set'.attrs = set.attrs) (sameExprs : set'.inheritFromExprs = set.inheritFromExprs) :
    Carries heap set'.toDef plan := by
  obtain ⟨own, below⟩ := carries_set.mp carries
  rw [carries_set, sameAttrs]
  refine ⟨⟨?_, ?_, ?_, ?_⟩, below⟩
  · rw [sameAttrs]
    exact own.keys
  · rw [sameAttrs]
    exact own.apart
  · rw [sources, sameExprs]
    exact own.sources
  · intro clause member named
    obtain ⟨origin, bound⟩ := own.bound clause member named
    refine ⟨origin, bound.displ, ?_, ?_⟩
    · rw [sameAttrs]
      exact bound.names
    · rw [sameAttrs]
      exact bound.used

theorem along_dynamic {Content : Type} (content : List Symbol → List Content) (expr : Expr)
    (names : List (AttrName Symbol Expr)) (path : List Symbol) :
    along content (.dynamic expr :: names) path = [] := by
  cases path <;> rfl

theorem join_dynamic (plan content : Plan Symbol Expr) (expr : Expr)
    (names : List (AttrName Symbol Expr)) :
    join plan (along content (.dynamic expr :: names)) = plan := by
  funext path
  rw [join, along_dynamic, map_nil, append_nil]

theorem join_symbol (plan content : Plan Symbol Expr)
    (symbol : Symbol) (names : List (AttrName Symbol Expr)) :
    join plan (along content (.symbol symbol :: names)) = fun path => match path with
      | [] => plan []
      | wanted :: path =>
        if wanted = symbol then
          join (fun path => plan (symbol :: path)) (along content names) path
        else plan (wanted :: path) := by
  funext path
  cases path with
  | nil => exact append_nil _
  | cons wanted path =>
    rw [join, along]
    by_cases same : wanted = symbol
    · rw [same]
      simp only [if_true]
      rfl
    · rw [if_neg same]
      simp [same]

variable {content : Plan Symbol Expr}
  {names : List (AttrName Symbol Expr)} {e : AttrDef Symbol Expr}

theorem put_adds (put : Put attrs symbol new attrs')
    (plain : ∀ origin name, new ≠ .inheritedFrom origin name)
    (carries : Carries heap attrs.toDef plan)
    (newCarries : Carries heap' new (join (fun path => plan (symbol :: path)) (along content names)))
    (newInside : ∀ origin, Mentions origin new →
      Mentions origin e ∨ ∃ old, find symbol attrs.attrs = some old ∧ Mentions origin old)
    (length : heap'.length = heap.length)
    (frame : ∀ origin, ¬Mentions origin e → heap'[origin]? = heap[origin]?)
    (disjoint : ∀ origin, Mentions origin attrs.toDef → ¬Mentions origin e) :
    Adds attrs attrs' heap heap' e ∧
      Carries heap' attrs'.toDef (join plan (along content (.symbol symbol :: names))) := by
  constructor
  · refine ⟨?_, length, frame⟩
    intro origin inside
    rcases mentions_set.mp inside with ⟨entry, member, here⟩ | ⟨entry, member, here⟩
    · rcases put.mem member with rfl | old
      · rcases newInside origin here with inE | ⟨old, found, inOld⟩
        · exact .inr inE
        · exact .inl (mentions_attr (find_mem found) inOld)
      · exact .inl (mentions_attr old here)
    · rw [put.dynamic] at member
      exact .inl (mentions_set.mpr (.inr ⟨entry, member, here⟩))
  · rw [join_symbol]
    refine put_carries put carries newCarries plain ?_
    intro entry member differs origin inside
    have outside := disjoint origin (mentions_attr member inside)
    refine ⟨frame origin outside, ?_⟩
    intro inNew
    rcases newInside origin inNew with inE | ⟨old, found, inOld⟩
    · exact outside inE
    · exact (carries_set.mp carries).1.apart entry member (symbol, old) (find_mem found) differs
        (by_contra fun leaf => (put.kept found leaf).1 rfl) origin inside inOld

theorem add_path_adds {passed : List (AttrName Symbol Expr)} {first : AttrName Symbol Expr}
    (plain : ∀ origin name, e ≠ .inheritedFrom origin name) (eCarries : Carries heap e content)
    (carries : Carries heap attrs.toDef plan)
    (disjoint : ∀ origin, Mentions origin attrs.toDef → ¬Mentions origin e)
    (ran : addPath passed attrs heap e first names = .ok (attrs', heap')) :
    Adds attrs attrs' heap heap' e ∧
      Carries heap' attrs'.toDef (join plan (along content (first :: names))) := by
  induction names generalizing passed attrs attrs' heap' first plan with
  | nil =>
    cases first with
    | symbol symbol =>
      obtain ⟨new, put, kind, newInside⟩ := add_attr_found ran
      obtain ⟨-, below⟩ := carries_set.mp carries
      have frames := add_attr_frames e _ _ _ _ _ _ ran
      refine put_adds put ?_ carries ?_ newInside frames.1
        (fun origin outside => frames.2 origin fun _ => outside) disjoint
      · intro origin name same
        rcases kind with ⟨set, isSet⟩ | leaf
        · cases isSet.symm.trans same
        · exact plain origin name (leaf.symm.trans same)
      · refine add_attr_joins e _ _ _ _ _ _ _ content ran (below symbol).1 ?_ eCarries new put.here
        intro old found
        refine ⟨(below symbol).2 old found, ?_⟩
        intro origin inside
        exact disjoint origin (mentions_attr (find_mem found) inside)
    | dynamic expr =>
      cases ran
      rw [join_dynamic]
      exact ⟨⟨fun origin inside => dynamic_mentions inside, rfl, fun _ _ => rfl⟩,
        carries.alike rfl rfl⟩
  | cons next names ih =>
    cases first with
    | symbol symbol =>
      obtain ⟨-, below⟩ := carries_set.mp carries
      rw [addPath] at ran
      split at ran
      next absent =>
        obtain ⟨⟨nested, heap1⟩, inner, done⟩ := except_bind_ok ran
        cases done
        obtain ⟨adds, nestedCarries⟩ := ih (carries_new heap)
          (fun origin inside => absurd inside new_mentions) inner
        refine put_adds (.fresh absent) nofun carries ?_ ?_ adds.length adds.frame disjoint
        · rw [join_of_empty _ ((below symbol).1 absent)]
          rw [join_of_empty _ fun _ => rfl] at nestedCarries
          exact nestedCarries
        intro origin inside
        rcases adds.inside origin inside with old | inE
        · exact absurd old new_mentions
        · exact .inl inE
      next recursive jAttrs sources dynamicAttrs found =>
        obtain ⟨⟨nested, heap1⟩, inner, done⟩ := except_bind_ok ran
        cases done
        have within : ∀ origin, Mentions origin (mk recursive jAttrs sources dynamicAttrs).toDef →
              Mentions origin attrs.toDef := fun origin inside =>
          mentions_attr (find_mem found) inside
        have targetCarries : Carries heap
            (mk recursive jAttrs sources dynamicAttrs).toDef _ :=
          (below symbol).2 _ found
        obtain ⟨adds, nestedCarries⟩ := ih targetCarries
          (fun origin inside => disjoint origin (within origin inside)) inner
        refine put_adds (.onto found ⟨⟨recursive, jAttrs, sources, dynamicAttrs⟩, rfl⟩
          ⟨nested, rfl⟩) nofun carries nestedCarries ?_ adds.length adds.frame disjoint
        intro origin inside
        rcases adds.inside origin inside with old | inE
        · exact .inr ⟨_, found, old⟩
        · exact .inl inE
      · cases ran
    | dynamic expr =>
      obtain ⟨⟨nested, heap1⟩, inner, done⟩ := except_bind_ok ran
      cases done
      obtain ⟨adds, -⟩ := ih (carries_new heap)
        (fun origin inside => absurd inside new_mentions) inner
      rw [join_dynamic]
      have kept : Carries heap' attrs.toDef plan :=
        carries.frame fun origin inside => adds.frame origin (disjoint origin inside)
      refine ⟨⟨?_, adds.length, adds.frame⟩, kept.alike rfl rfl⟩
      intro origin inside
      rcases dynamic_mentions inside with old | here
      · exact .inl old
      · rcases adds.inside origin here with none | inE
        · exact absurd none new_mentions
        · exact .inr inE

end Paths

end Bsd.Expr.InheritClauses
