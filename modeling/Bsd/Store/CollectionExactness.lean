import Bsd.Store.CollectionInvariant

/-!
# What a collection deletes

With `keep-outputs` and `keep-derivations` off a collection deletes exactly the
entries of the store directory that no root reaches along references.
-/

namespace Bsd.Store.CollectionExactness

open Lib.Occurrences Store.Path Store.LocalStore Store.GarbageCollector Relation
open Store.CollectionInvariant

def plainCollection (tables : Tables) (locked : Bytes → Bool) (roots : Roots)
    (db : Database tables) (names : List Bytes) : Collection where
  setup := ⟨tables, false, false, locked⟩
  roots := roots
  db := db
  names := names

/-- The roots of a collection: the permanent ones, the temporary ones, and what is in the
store under the hash part of a temporary one. -/
def StartsFrom {tables : Tables} (db : Database tables) (roots : Roots) (names : List Bytes)
    (root : StorePath) : Prop :=
  root ∈ roots.permanent ∨ root ∈ roots.temporary ∨
    (IsEntry tables.store names root ∨ root ∈ db.valid) ∧
      ∃ temporary ∈ roots.temporary, temporary.hashPart = root.hashPart

section

variable {tables : Tables} {locked : Bytes → Bool} {roots : Roots} {db : Database tables}
  {names : List Bytes} {path other : StorePath}

theorem plain_behind_iff :
    Behind ⟨tables, false, false, locked⟩ db path other ↔ tables.Refers db.valid other path := by
  constructor
  · rintro ⟨_, refers | ⟨kept, _⟩ | ⟨kept, _⟩⟩
    · exact refers
    · cases kept
    · cases kept
  · intro refers
    exact ⟨db.closed other refers.1 refers.2, .inl refers⟩

theorem plain_leads_back : LeadsBack ⟨tables, false, false, locked⟩ db := by
  rintro path dep ⟨valid, ⟨isReference, _⟩ | ⟨kept, _⟩ | ⟨kept, _⟩⟩
  · exact ReflTransGen.single (plain_behind_iff.mpr ⟨valid, isReference⟩)
  · cases kept
  · cases kept

theorem plain_needed_iff : NeededBy (plainCollection tables locked roots db names) path other ↔
      ReflTransGen (tables.Refers db.valid) other path := by
  have swapped : Behind ⟨tables, false, false, locked⟩ db =
      Function.swap (tables.Refers db.valid) := by
    funext path other
    exact propext plain_behind_iff
  rw [NeededBy, plainCollection, swapped]
  exact reflTransGen_swap

theorem plain_live_iff {path : StorePath} (entry : IsEntry tables.store names path) :
    Live (plainCollection tables locked roots db names) path ↔
      ∃ root, StartsFrom db roots names root ∧
        ReflTransGen (tables.Refers db.valid) root path := by
  constructor
  · rintro ⟨root, isRoot, needed⟩
    have reaches := plain_needed_iff.mp needed
    refine ⟨root, ?_, reaches⟩
    rcases isRoot with isPermanent | sameHash
    · exact .inl isPermanent
    refine .inr (.inr ⟨?_, sameHash⟩)
    rcases ReflTransGen.cases_head reaches with same | ⟨next, refers, _⟩
    · rw [same]
      exact .inl entry
    · exact .inr refers.1
  · rintro ⟨root, isRoot, reaches⟩
    refine ⟨root, ?_, plain_needed_iff.mpr reaches⟩
    rcases isRoot with isPermanent | isTemporary | ⟨_, sameHash⟩
    · exact .inl isPermanent
    · exact .inr ⟨root, isTemporary, rfl⟩
    · exact .inr sameHash

end

/-- A collection deletes the entries that no root reaches along references, and no others.
At no time is a path in use that it comes to delete, or does a valid path refer to one
that is not. -/
theorem collection_exact (tables : Tables) (locked : Bytes → Bool) (roots : Roots)
    (db : Database tables) (names : List Bytes) :
    (∃ final, (plainCollection tables locked roots db names).Ends final none ∧
      ∀ path, IsEntry tables.store names path →
        (path.baseName ∈ final.removed ↔ ¬∃ root, StartsFrom db roots names root ∧
          ReflTransGen (tables.Refers db.valid) root path)) ∧
    ∀ state, (plainCollection tables locked roots db names).Reaches state → state.2.inUse = [] ∧
        ∀ path ∈ state.2.db.valid, tables.references path ⊆ state.2.db.valid := by
  constructor
  · obtain ⟨final, ends, removes⟩ :=
      ends_with_garbage (plainCollection tables locked roots db names) plain_leads_back
    refine ⟨final, ends, ?_⟩
    intro path entry
    rw [← plain_live_iff entry, removes]
    constructor
    · rintro (⟨other, garbage, same⟩ | ⟨_, _, notParsed, _⟩)
      · rw [← base_name_injective same]
        exact garbage_not_live garbage
      · obtain ⟨name, _, _, parsed⟩ := entry
        cases (entry_path_base_name parsed).symm.trans notParsed
    · intro notLive
      exact .inl ⟨path, ⟨path, entry, notLive, ReflTransGen.refl⟩, rfl⟩
  · intro state reached
    obtain ⟨past, sound, _⟩ := invariant_reached plain_leads_back reached
    exact ⟨sound.inUse, state.2.db.closed⟩

end Bsd.Store.CollectionExactness
