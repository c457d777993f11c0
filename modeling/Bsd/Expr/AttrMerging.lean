import Bsd.Expr.ParserState

/-!
# What merging attribute sets does to inherit-from clauses

A clause with `m` names whose set is merged into one that has `s` sources is displaced by
`m * s`: once for each of its names, although the names share one node. The sources move by
`s`. The invariant `Carries` follows every clause through any nesting of literals and
attribute paths; what comes out is that a clause ends up at the right place exactly if `m * s`
and `s` are the same number of 32 bits.
-/

namespace Bsd.Expr.AttrMerging

open List Lib.OrdMap Lib.Readers Expr.ParserState

variable {origin : Nat}

section Definitions

variable {Symbol Expr : Type}

def IsSet (attr : AttrDef Symbol Expr) : Prop := ∃ set : ExprAttrs Symbol Expr, attr = set.toDef

inductive Mentions (origin : Nat) : AttrDef Symbol Expr → Prop where
  | here (name : Symbol) : Mentions origin (.inheritedFrom origin name)
  | attr {recursive : Bool} {attrs : AttrDefs Symbol Expr}
      {exprs : Option (List Expr)} {dynamicAttrs : List (Expr × AttrDef Symbol Expr)}
      (entry : Symbol × AttrDef Symbol Expr) (member : entry ∈ attrs)
      (inside : Mentions origin entry.2) : Mentions origin (.set recursive attrs exprs dynamicAttrs)
  | dynamic {recursive : Bool} {attrs : AttrDefs Symbol Expr}
      {exprs : Option (List Expr)} {dynamicAttrs : List (Expr × AttrDef Symbol Expr)}
      (entry : Expr × AttrDef Symbol Expr) (member : entry ∈ dynamicAttrs)
      (inside : Mentions origin entry.2) : Mentions origin (.set recursive attrs exprs dynamicAttrs)

variable {set : ExprAttrs Symbol Expr}

theorem mentions_set : Mentions origin set.toDef ↔ (∃ entry ∈ set.attrs, Mentions origin entry.2) ∨
      ∃ entry ∈ set.dynamicAttrs, Mentions origin entry.2 := by
  constructor
  · intro inside
    cases inside with
    | attr entry member inside => exact .inl ⟨entry, member, inside⟩
    | dynamic entry member inside => exact .inr ⟨entry, member, inside⟩
  · rintro (⟨entry, member, inside⟩ | ⟨entry, member, inside⟩)
    · exact .attr entry member inside
    · exact .dynamic entry member inside

variable {entry : Symbol × AttrDef Symbol Expr}

theorem mentions_attr
    (member : entry ∈ set.attrs) (inside : Mentions origin entry.2) : Mentions origin set.toDef :=
  mentions_set.mpr (.inl ⟨entry, member, inside⟩)

theorem mentions_alike {set set' : ExprAttrs Symbol Expr} (inside : Mentions origin set'.toDef)
    (sameAttrs : set'.attrs = set.attrs) (sameDynamic : set'.dynamicAttrs = set.dynamicAttrs) :
    Mentions origin set.toDef := by
  rw [mentions_set, sameAttrs, sameDynamic] at inside
  exact mentions_set.mpr inside

theorem byAttrs {motive : AttrDef Symbol Expr → Prop} (leaf : ∀ attr, ¬IsSet attr → motive attr)
    (set : ∀ set : ExprAttrs Symbol Expr, (∀ entry ∈ set.attrs, motive entry.2) →
      motive set.toDef) :
    ∀ attr, motive attr
  | .plain e => leaf _ nofun
  | .inherited name => leaf _ nofun
  | .inheritedFrom origin name => leaf _ nofun
  | .set recursive attrs exprs dynamicAttrs =>
    set ⟨recursive, attrs, exprs, dynamicAttrs⟩ fun entry member =>
      have smaller : sizeOf entry.2 < 1 + sizeOf attrs := by
        have := sizeOf_lt_of_mem member
        obtain ⟨symbol, attr⟩ := entry
        simp only [Prod.mk.sizeOf_spec] at this
        dsimp only
        omega
      byAttrs leaf set entry.2

def selects (origin : Nat) (entry : Symbol × AttrDef Symbol Expr) : Bool :=
  match entry.2 with
  | .inheritedFrom other _ => other = origin
  | _ => false

theorem inherited_leaf (name : Symbol) : ¬IsSet (.inherited name : AttrDef Symbol Expr) := nofun

theorem inherited_from_leaf (origin : Nat) (name : Symbol) :
    ¬IsSet (.inheritedFrom origin name : AttrDef Symbol Expr) := nofun

def uses (origin : Nat) (attrs : AttrDefs Symbol Expr) : Nat :=
  attrs.countP (selects origin)

theorem selects_set (origin : Nat) (symbol : Symbol) {attr : AttrDef Symbol Expr}
    (isSet : IsSet attr) : selects origin (symbol, attr) = false := by
  obtain ⟨set, rfl⟩ := isSet
  rfl

theorem uses_cons (origin : Nat) (entry : Symbol × AttrDef Symbol Expr)
    (rest : AttrDefs Symbol Expr) :
    uses origin (entry :: rest) = uses origin [entry] + uses origin rest := by
  rw [uses, ← singleton_append, countP_append]
  rfl

theorem uses_names (origin : Nat) (names : List Symbol) :
    uses origin (names.map fun name => (name, (.inheritedFrom origin name : AttrDef Symbol Expr))) =
      names.length := by
  rw [uses, countP_map]
  refine (countP_eq_length.mpr ?_).trans rfl
  intro name _
  exact decide_eq_true rfl

theorem uses_unmentioned {attrs : AttrDefs Symbol Expr}
    (absent : ∀ entry ∈ attrs, ¬Mentions origin entry.2) : uses origin attrs = 0 := by
  refine countP_eq_zero.mpr ?_
  rintro ⟨symbol, attr⟩ member selected
  refine absent _ member ?_
  cases attr with
  | plain | set | inherited => cases selected
  | inheritedFrom other name =>
    have same : other = origin := of_decide_eq_true selected
    rw [same]
    exact .here name

theorem toDef_inj {left right : ExprAttrs Symbol Expr} (same : left.toDef = right.toDef) :
    left = right := by
  obtain ⟨recursive, attrs, exprs, dynamicAttrs⟩ := left
  cases same
  rfl

theorem displace_length (size : Nat) (heap : Heap) (attr : AttrDef Symbol Expr) :
    (displace size heap attr).length = heap.length := by
  cases attr with
  | plain | set | inherited => rfl
  | inheritedFrom origin name => exact length_modify _ _ _

theorem displace_displ (size : Nat) (heap : Heap) (entry : Symbol × AttrDef Symbol Expr)
    (origin : Nat) :
    (displace size heap entry.2)[origin]? =
      heap[origin]?.map (· + .ofNat 32 (uses origin [entry] * size)) := by
  obtain ⟨symbol, attr⟩ := entry
  have unchanged : heap[origin]? = heap[origin]?.map (· + .ofNat 32 (0 * size)) := by
    simp
  cases attr with
  | plain | set | inherited => exact unchanged
  | inheritedFrom other name =>
    rw [displace, uses, countP_singleton, selects]
    by_cases same : other = origin
    · simp [same]
    · simp [same]

def CameFrom (origin : Nat) (entry : Symbol × AttrDef Symbol Expr)
    (entries : AttrDefs Symbol Expr) : Prop :=
  ∃ old ∈ entries, old.1 = entry.1 ∧ Mentions origin old.2 ∧ (IsSet entry.2 → IsSet old.2)

theorem CameFrom.self {entries : AttrDefs Symbol Expr} (member : entry ∈ entries)
    (inside : Mentions origin entry.2) : CameFrom origin entry entries :=
  ⟨entry, member, rfl, inside, id⟩

theorem share_attrs (target : ExprAttrs Symbol Expr) (other : Option (List Expr)) :
    (target.share other).attrs = target.attrs ∧
      (target.share other).dynamicAttrs = target.dynamicAttrs ∧
      (target.share other).sources = target.sources := by
  obtain ⟨recursive, attrs, exprs, dynamicAttrs⟩ := target
  cases exprs with
  | none =>
    cases other with
    | none | some => exact ⟨rfl, rfl, rfl⟩
  | some exprs => exact ⟨rfl, rfl, rfl⟩

end Definitions

section Steps

variable {Symbol Expr : Type} [LinearOrder Symbol] {attrPath : List (AttrName Symbol Expr)}

/-- The definition comes under the symbol: the symbol is new, or a set takes a set's place. -/
inductive Put (attrs : ExprAttrs Symbol Expr) (symbol : Symbol) (attr : AttrDef Symbol Expr) :
    ExprAttrs Symbol Expr → Prop where
  | fresh (absent : find symbol attrs.attrs = none) :
      Put attrs symbol attr (attrs.emplace symbol attr)
  | onto {old : AttrDef Symbol Expr} (found : find symbol attrs.attrs = some old)
      (oldSet : IsSet old) (newSet : IsSet attr) : Put attrs symbol attr (attrs.replace symbol attr)

variable {entry : Symbol × AttrDef Symbol Expr}

namespace Put

variable {attrs attrs' : ExprAttrs Symbol Expr} {symbol : Symbol} {attr : AttrDef Symbol Expr}

section

variable (put : Put attrs symbol attr attrs')

include put

theorem exprs : attrs'.inheritFromExprs = attrs.inheritFromExprs := by
  cases put with
  | fresh | onto => rfl

theorem dynamic : attrs'.dynamicAttrs = attrs.dynamicAttrs := by
  cases put with
  | fresh | onto => rfl

theorem found (name : Symbol) :
    find name attrs'.attrs = if name = symbol then some attr else find name attrs.attrs := by
  cases put with
  | fresh absent => exact find_upsert_fresh _ name absent
  | onto found oldSet newSet =>
    refine (find_replace symbol name attr attrs.attrs).trans ?_
    rw [found, Option.map_some]

theorem here : find symbol attrs'.attrs = some attr := by
  rw [put.found, if_pos rfl]

end

variable {old : AttrDef Symbol Expr}

section

variable (put : Put attrs symbol attr attrs')

include put

theorem kept {name : Symbol} (present : find name attrs.attrs = some old) (leaf : ¬IsSet old) :
    name ≠ symbol ∧ find name attrs'.attrs = some old := by
  have differs : name ≠ symbol := by
    intro same
    rw [same] at present
    cases put with
    | fresh absent => cases absent.symm.trans present
    | onto found oldSet newSet =>
      rw [Option.some.inj (found.symm.trans present)] at oldSet
      exact leaf oldSet
  rw [put.found, if_neg differs]
  exact ⟨differs, present⟩

theorem used (origin : Nat) :
    uses origin attrs'.attrs = uses origin attrs.attrs + uses origin [(symbol, attr)] := by
  cases put with
  | fresh absent =>
    refine ((upsert_fresh _ absent).countP_eq _).trans ?_
    exact (uses_cons origin _ _).trans (Nat.add_comm _ _)
  | onto found oldSet newSet =>
    have unused : uses origin [(symbol, attr)] = 0 := by
      rw [uses, countP_singleton, selects_set origin symbol newSet]
      rfl
    rw [unused]
    refine countP_replace _ found ?_
    rw [selects_set origin symbol newSet, selects_set origin symbol oldSet]

theorem keys (distinct : (attrs.attrs.map Prod.fst).Nodup) : (attrs'.attrs.map Prod.fst).Nodup := by
  cases put with
  | fresh absent =>
    have perm := (upsert_fresh (fun old => old.getD attr) absent).map Prod.fst
    refine perm.nodup_iff.mpr (nodup_cons.mpr ⟨?_, distinct⟩)
    intro member
    obtain ⟨entry, inside, same⟩ := mem_map.mp member
    exact find_none_iff.mp absent entry inside same.symm
  | onto found oldSet newSet =>
    rw [ExprAttrs.replace, replace_keys]
    exact distinct

theorem mem (member : entry ∈ attrs'.attrs) : entry = (symbol, attr) ∨ entry ∈ attrs.attrs := by
  cases put with
  | fresh absent => exact mem_cons.mp ((upsert_fresh _ absent).mem_iff.mp member)
  | onto found oldSet newSet => exact replace_mem member

end

end Put

variable {attr : AttrDef Symbol Expr}

theorem add_attr_leaf (attrs : ExprAttrs Symbol Expr) (symbol : Symbol) (heap : Heap)
    (leaf : ¬IsSet attr) :
    addAttr attrPath attrs symbol heap attr = match find symbol attrs.attrs with
      | none => .ok (attrs.emplace symbol attr, heap)
      | some _ => .error (.dupAttr attrPath) := by
  cases attr with
  | set recursive aeAttrs aeSources aeDynamic =>
    exact absurd ⟨⟨recursive, aeAttrs, aeSources, aeDynamic⟩, rfl⟩ leaf
  | plain | inherited | inheritedFrom => rfl

variable {heap heap' : Heap} {attrs attrs' : ExprAttrs Symbol Expr} {symbol : Symbol}

section

variable (added : addAttr attrPath attrs symbol heap attr = .ok (attrs', heap'))

include added

/-- What a call can do: put the definition under a new symbol, or merge two sets. -/
theorem add_attr_cases :
    (find symbol attrs.attrs = none ∧ heap' = heap ∧ attrs' = attrs.emplace symbol attr) ∨
      ∃ target other merged : ExprAttrs Symbol Expr, find symbol attrs.attrs = some target.toDef ∧
        attr = other.toDef ∧
        addAttrs attrPath (target.share other.inheritFromExprs) heap other.attrs =
          .ok (merged, heap') ∧
        attrs' = attrs.replace symbol
          (merged.extend other.inheritFromExprs other.dynamicAttrs).toDef := by
  by_cases isSet : IsSet attr
  · obtain ⟨other, rfl⟩ := isSet
    rw [ExprAttrs.toDef, addAttr] at added
    split at added
    next absent =>
      cases added
      exact .inl ⟨absent, rfl, rfl⟩
    next recursive attrs' sources dynamicAttrs found =>
      obtain ⟨⟨merged, heap1⟩, ran, done⟩ := except_bind_ok added
      cases done
      exact .inr ⟨⟨recursive, attrs', sources, dynamicAttrs⟩, other, merged, found, rfl, ran, rfl⟩
    · cases added
  · rw [add_attr_leaf attrs symbol heap isSet] at added
    split at added
    next absent =>
      cases added
      exact .inl ⟨absent, rfl, rfl⟩
    · cases added

theorem add_attr_put :
    ∃ new, Put attrs symbol new attrs' ∧ (¬IsSet attr → new = attr) ∧ (IsSet new ↔ IsSet attr) := by
  rcases add_attr_cases added with ⟨absent, -, rfl⟩ | ⟨target, other, merged, found, rfl, -, rfl⟩
  · exact ⟨attr, .fresh absent, fun _ => rfl, Iff.rfl⟩
  refine ⟨_, .onto found ⟨target, rfl⟩ ⟨_, rfl⟩, ?_, ?_⟩
  · intro leaf
    exact absurd ⟨other, rfl⟩ leaf
  · exact ⟨fun _ => ⟨other, rfl⟩, fun _ => ⟨_, rfl⟩⟩

end

variable {jAttrs final : ExprAttrs Symbol Expr}

theorem add_attrs_cons {rest : AttrDefs Symbol Expr}
    (ran : addAttrs attrPath jAttrs heap (entry :: rest) = .ok (final, heap')) :
    ∃ next heap1, addAttr (attrPath ++ [.symbol entry.1]) jAttrs entry.1
        (displace jAttrs.sources.length heap entry.2) entry.2 = .ok (next, heap1) ∧
      addAttrs attrPath next heap1 rest = .ok (final, heap') := by
  obtain ⟨⟨next, heap1⟩, first, later⟩ := except_bind_ok ran
  exact ⟨next, heap1, first, later⟩

theorem add_attrs_append {front back : AttrDefs Symbol Expr}
    (ran : addAttrs attrPath jAttrs heap (front ++ back) = .ok (final, heap')) :
    ∃ next heap1, addAttrs attrPath jAttrs heap front = .ok (next, heap1) ∧
      addAttrs attrPath next heap1 back = .ok (final, heap') := by
  induction front generalizing jAttrs heap with
  | nil => exact ⟨jAttrs, heap, by rw [addAttrs], ran⟩
  | cons entry rest ih =>
    obtain ⟨next, heap1, first, later⟩ := add_attrs_cons ran
    obtain ⟨last, heap2, middle, done⟩ := ih later
    refine ⟨last, heap2, ?_, done⟩
    rw [addAttrs, first]
    exact middle

structure Gathers (jAttrs : ExprAttrs Symbol Expr)
    (entries : AttrDefs Symbol Expr) (final : ExprAttrs Symbol Expr) : Prop where
  exprs : final.inheritFromExprs = jAttrs.inheritFromExprs
  dynamic : final.dynamicAttrs = jAttrs.dynamicAttrs
  keys : (jAttrs.attrs.map Prod.fst).Nodup → (final.attrs.map Prod.fst).Nodup
  used : ∀ origin, uses origin final.attrs = uses origin jAttrs.attrs + uses origin entries
  others : ∀ name, (∀ entry ∈ entries, entry.1 ≠ name) →
    find name final.attrs = find name jAttrs.attrs
  kept : ∀ name old, find name jAttrs.attrs = some old → ¬IsSet old →
    find name final.attrs = some old
  added : ∀ entry ∈ entries, ¬IsSet entry.2 → find entry.1 final.attrs = some entry.2

variable {entries : AttrDefs Symbol Expr}

theorem add_attrs_gathers (ran : addAttrs attrPath jAttrs heap entries = .ok (final, heap')) :
    Gathers jAttrs entries final := by
  induction entries generalizing jAttrs heap with
  | nil =>
    cases ran
    exact ⟨rfl, rfl, id, fun _ => rfl, fun _ _ => rfl, fun _ _ present _ => present, nofun⟩
  | cons entry rest ih =>
    obtain ⟨next, heap1, first, later⟩ := add_attrs_cons ran
    obtain ⟨new, put, same, newSet⟩ := add_attr_put first
    have loop := ih later
    refine ⟨loop.exprs.trans put.exprs, loop.dynamic.trans put.dynamic,
      fun distinct => loop.keys (put.keys distinct), ?_, ?_, ?_, ?_⟩
    · intro origin
      have alike : uses origin [(entry.1, new)] = uses origin [entry] := by
        by_cases isSet : IsSet entry.2
        · rw [uses, uses, countP_singleton, countP_singleton,
            selects_set origin _ (newSet.mpr isSet)]
          exact congrArg (fun value => if value = true then 1 else 0)
            (selects_set origin entry.1 isSet).symm
        · rw [same isSet]
      rw [loop.used, put.used, alike, Nat.add_assoc, uses_cons origin entry rest]
    · intro name differs
      rw [loop.others name fun entry member => differs entry (mem_cons_of_mem _ member),
        put.found, if_neg (differs entry mem_cons_self).symm]
    · intro name old present leaf
      exact loop.kept name old (put.kept present leaf).2 leaf
    · intro wanted member leaf
      rcases mem_cons.mp member with here | inRest
      · refine loop.kept _ _ ?_ leaf
        rw [here] at leaf ⊢
        rw [put.found, if_pos rfl, same leaf]
      · exact loop.added wanted inRest leaf

/-- A call changes only displacements of nodes inside the set it merges. -/
def Frames (attr : AttrDef Symbol Expr) : Prop :=
  ∀ (attrPath : List (AttrName Symbol Expr)) (attrs attrs' : ExprAttrs Symbol Expr)
    (symbol : Symbol) (heap heap' : Heap),
    addAttr attrPath attrs symbol heap attr = .ok (attrs', heap') →
    heap'.length = heap.length ∧
      ∀ origin, (IsSet attr → ¬Mentions origin attr) → heap'[origin]? = heap[origin]?

section

variable (frames : ∀ entry ∈ entries, Frames entry.2)
  (ran : addAttrs attrPath jAttrs heap entries = .ok (final, heap'))

include frames ran

theorem add_attrs_length_of : heap'.length = heap.length := by
  induction entries generalizing jAttrs heap with
  | nil =>
    cases ran
    rfl
  | cons entry rest ih =>
    obtain ⟨next, heap1, first, later⟩ := add_attrs_cons ran
    rw [ih (fun entry member => frames entry (mem_cons_of_mem _ member)) later,
      (frames entry mem_cons_self _ _ _ _ _ _ first).1, displace_length]

theorem add_attrs_displ_of (outside : ∀ entry ∈ entries, IsSet entry.2 → ¬Mentions origin entry.2) :
    heap'[origin]? =
      heap[origin]?.map (· + .ofNat 32 (uses origin entries * jAttrs.sources.length)) := by
  induction entries generalizing jAttrs heap with
  | nil =>
    cases ran
    simp [uses]
  | cons entry rest ih =>
    obtain ⟨next, heap1, first, later⟩ := add_attrs_cons ran
    obtain ⟨new, put, -, -⟩ := add_attr_put first
    have sameSize : next.sources = jAttrs.sources := by
      rw [ExprAttrs.sources, put.exprs]
      rfl
    have step := (frames entry mem_cons_self _ _ _ _ _ _ first).2 origin
      (outside entry mem_cons_self)
    have loop := ih (fun entry member => frames entry (mem_cons_of_mem _ member)) later
      fun entry member => outside entry (mem_cons_of_mem _ member)
    rw [loop, step, displace_displ, sameSize, Option.map_map, uses_cons origin entry rest,
      Nat.add_mul, BitVec.ofNat_add]
    congr 1
    funext displ
    exact BitVec.add_assoc _ _ _

end

theorem add_attr_frames (attr : AttrDef Symbol Expr) : Frames attr := by
  induction attr using byAttrs with
  | leaf attr leaf =>
    intro attrPath attrs attrs' symbol heap heap' added
    rcases add_attr_cases added with ⟨-, same, -⟩ | ⟨target, other, -, -, same, -, -⟩
    · rw [same]
      exact ⟨rfl, fun _ _ => rfl⟩
    · exact absurd ⟨other, same⟩ leaf
  | set other ih =>
    intro attrPath attrs attrs' symbol heap heap' added
    rcases add_attr_cases added with ⟨-, same, -⟩ | ⟨target, same, merged, -, eq, ran, -⟩
    · rw [same]
      exact ⟨rfl, fun _ _ => rfl⟩
    cases toDef_inj eq
    refine ⟨add_attrs_length_of ih ran, ?_⟩
    intro origin outside
    have unmentioned : ∀ entry ∈ other.attrs, ¬Mentions origin entry.2 := by
      intro entry member inside
      exact outside ⟨other, rfl⟩ (mentions_attr member inside)
    rw [add_attrs_displ_of ih ran fun entry member _ => unmentioned entry member,
      uses_unmentioned unmentioned]
    simp

section

variable (ran : addAttrs attrPath jAttrs heap entries = .ok (final, heap'))

include ran

theorem add_attrs_displ (outside : ∀ entry ∈ entries, IsSet entry.2 → ¬Mentions origin entry.2) :
    heap'[origin]? =
      heap[origin]?.map (· + .ofNat 32 (uses origin entries * jAttrs.sources.length)) :=
  add_attrs_displ_of (fun entry _ => add_attr_frames entry.2) ran outside

theorem add_attrs_frame
    (outside : ∀ entry ∈ entries, ¬Mentions origin entry.2) : heap'[origin]? = heap[origin]? := by
  rw [add_attrs_displ ran fun entry member _ => outside entry member, uses_unmentioned outside]
  simp

end

def Gives (attr : AttrDef Symbol Expr) : Prop :=
  ∀ (attrPath : List (AttrName Symbol Expr)) (attrs attrs' : ExprAttrs Symbol Expr)
    (symbol : Symbol) (heap heap' : Heap),
    addAttr attrPath attrs symbol heap attr = .ok (attrs', heap') →
    ∀ origin, ∀ entry ∈ attrs'.attrs, Mentions origin entry.2 →
      CameFrom origin entry attrs.attrs ∨ CameFrom origin entry [(symbol, attr)]

theorem add_attrs_gives_of (gives : ∀ entry ∈ entries, Gives entry.2)
    (ran : addAttrs attrPath jAttrs heap entries = .ok (final, heap'))
    (member : entry ∈ final.attrs) (inside : Mentions origin entry.2) :
    CameFrom origin entry jAttrs.attrs ∨ CameFrom origin entry entries := by
  induction entries generalizing jAttrs heap with
  | nil =>
    cases ran
    exact .inl (.self member inside)
  | cons first rest ih =>
    obtain ⟨next, heap1, added, later⟩ := add_attrs_cons ran
    rcases ih (fun entry member => gives entry (mem_cons_of_mem _ member)) later with
      ⟨middle, inNext, sameKey, here, sets⟩ | ⟨old, inRest, found⟩
    · rcases gives first mem_cons_self _ _ _ _ _ _ added origin middle inNext here with
        ⟨old, inOld, key, there, oldSet⟩ | ⟨old, inFirst, key, there, oldSet⟩
      · exact .inl ⟨old, inOld, key.trans sameKey, there, fun isSet => oldSet (sets isSet)⟩
      · rw [mem_singleton.mp inFirst] at key there oldSet
        exact .inr ⟨first, mem_cons_self, key.trans sameKey, there,
          fun isSet => oldSet (sets isSet)⟩
    · exact .inr ⟨old, mem_cons_of_mem _ inRest, found⟩

theorem merged_mentions_of {target other merged : ExprAttrs Symbol Expr}
    (gives : ∀ entry ∈ other.attrs, Gives entry.2)
    (ran : addAttrs attrPath (target.share other.inheritFromExprs) heap other.attrs =
      .ok (merged, heap'))
    (inside : Mentions origin (merged.extend other.inheritFromExprs other.dynamicAttrs).toDef) :
    Mentions origin target.toDef ∨ Mentions origin other.toDef := by
  rcases mentions_set.mp inside with ⟨entry, member, here⟩ | ⟨entry, member, here⟩
  · rcases add_attrs_gives_of gives ran member here with
      ⟨old, inOld, -, there, -⟩ | ⟨old, inOld, -, there, -⟩
    · rw [(share_attrs target _).1] at inOld
      exact .inl (mentions_attr inOld there)
    · exact .inr (mentions_attr inOld there)
  · rcases mem_append.mp member with old | new
    · rw [(add_attrs_gathers ran).dynamic, (share_attrs target _).2.1] at old
      exact .inl (mentions_set.mpr (.inr ⟨entry, old, here⟩))
    · exact .inr (mentions_set.mpr (.inr ⟨entry, new, here⟩))

theorem add_attr_gives (attr : AttrDef Symbol Expr) : Gives attr := by
  induction attr using byAttrs with
  | leaf attr leaf =>
    intro attrPath attrs attrs' symbol heap heap' added origin entry member inside
    rcases add_attr_cases added with ⟨absent, -, rfl⟩ | ⟨target, other, -, -, same, -, -⟩
    · rcases (Put.fresh absent).mem member with new | old
      · exact .inr (.self (mem_singleton.mpr new) inside)
      · exact .inl (.self old inside)
    · exact absurd ⟨other, same⟩ leaf
  | set other ih =>
    intro attrPath attrs attrs' symbol heap heap' added origin entry member inside
    rcases add_attr_cases added with ⟨absent, -, rfl⟩ | ⟨target, same, merged, found, eq, ran, rfl⟩
    · rcases (Put.fresh absent).mem member with new | old
      · exact .inr (.self (mem_singleton.mpr new) inside)
      · exact .inl (.self old inside)
    cases toDef_inj eq
    rcases replace_mem member with rfl | old
    · rcases merged_mentions_of ih ran inside with inTarget | inOther
      · exact .inl ⟨(symbol, target.toDef), find_mem found, rfl, inTarget, fun _ => ⟨target, rfl⟩⟩
      · exact .inr ⟨(symbol, other.toDef), mem_singleton_self _, rfl, inOther,
          fun _ => ⟨other, rfl⟩⟩
    · exact .inl (.self old inside)

end Steps

end Bsd.Expr.AttrMerging
