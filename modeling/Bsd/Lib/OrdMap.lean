import Mathlib.Data.Finset.Insert
import Mathlib.Data.List.Pairwise

/-!
# Ordered maps

A map that is iterated in key order is the list of its entries with strictly
ascending keys; `SortedMap` carries that order. All insertions are one function,
`upsert`, which sees the old value under the key, if there is one.
-/

namespace Bsd.Lib.OrdMap

open List

section Entries

variable {Key Value : Type*}

def Ascending [LT Key] (entries : List (Key × Value)) : Prop :=
  entries.Pairwise fun left right => left.1 < right.1

variable [LinearOrder Key]

@[grind =]
def upsert (update : Option Value → Value) (key : Key) : List (Key × Value) → List (Key × Value)
  | [] => [(key, update none)]
  | (other, value) :: rest =>
    if key < other then (key, update none) :: (other, value) :: rest
    else if key = other then (other, update (some value)) :: rest
    else (other, value) :: upsert update key rest

/-- `std::map::emplace`: an entry that is already there wins. -/
def emplace (key : Key) (value : Value) : List (Key × Value) → List (Key × Value) :=
  upsert (fun old => old.getD value) key

/-- `std::map::insert_or_assign`: the new entry wins. -/
def insertOrAssign (key : Key) (value : Value) : List (Key × Value) → List (Key × Value) :=
  upsert (fun _ => value) key

section

variable (update : Option Value → Value)

include update

theorem upsert_mem_keys (key wanted : Key) (entries : List (Key × Value)) :
    wanted ∈ (upsert update key entries).map Prod.fst ↔
      wanted = key ∨ wanted ∈ entries.map Prod.fst := by
  induction entries with
  | nil => rw [upsert, map_singleton, mem_singleton, map_nil, mem_nil_iff, or_false]
  | cons first rest ih =>
    rw [upsert]
    split
    · rw [map_cons, mem_cons]
    split
    next same =>
      rw [map_cons, map_cons, mem_cons, same]
      exact or_self_left.symm
    · rw [map_cons, mem_cons, ih, map_cons, mem_cons]
      exact or_left_comm

theorem upsert_ascending (key : Key) (entries : List (Key × Value)) (ascending : Ascending entries) :
    Ascending (upsert update key entries) := by
  induction entries with
  | nil => exact pairwise_singleton _ _
  | cons first rest ih =>
    obtain ⟨above, restAscending⟩ := pairwise_cons.mp ascending
    rw [upsert]
    split
    next smaller =>
      refine pairwise_cons.mpr ⟨forall_mem_cons.mpr ⟨smaller, ?_⟩, ascending⟩
      exact fun entry inRest => lt_trans smaller (above entry inRest)
    next notSmaller =>
      split
      · exact pairwise_cons.mpr ⟨above, restAscending⟩
      next differs =>
        apply pairwise_cons.mpr
        refine ⟨?_, ih restAscending⟩
        intro entry member
        rcases (upsert_mem_keys update key entry.1 rest).mp (mem_map_of_mem member) with same | inKeys
        · rw [same]
          exact lt_of_le_of_ne (le_of_not_gt notSmaller) (Ne.symm differs)
        · obtain ⟨old, inRest, same⟩ := mem_map.mp inKeys
          rw [← same]
          exact above old inRest

theorem upsert_append {key : Key} {front : List (Key × Value)}
    (above : ∀ entry ∈ front, entry.1 < key) (back : List (Key × Value)) :
    upsert update key (front ++ back) = front ++ upsert update key back := by
  induction front with
  | nil => rfl
  | cons first rest ih =>
    have here : first.1 < key := above first mem_cons_self
    rw [cons_append, upsert, if_neg (lt_asymm here), if_neg (ne_of_gt here),
      ih fun entry member => above entry (mem_cons_of_mem _ member), cons_append]

theorem upsert_above (key : Key) (entries : List (Key × Value))
    (above : ∀ entry ∈ entries, entry.1 < key) :
    upsert update key entries = entries ++ [(key, update none)] := by
  have appended := upsert_append update above []
  rwa [append_nil] at appended

end

theorem foldl_upsert_ascending (insert : Key → Value → Option Value → Value)
    (fresh : ∀ key value, insert key value none = value)
    (entries : List (Key × Value)) (ascending : Ascending entries) :
    entries.foldl (fun map entry => upsert (insert entry.1 entry.2) entry.1 map) [] = entries := by
  suffices grow : ∀ front : List (Key × Value), Ascending (front ++ entries) →
      entries.foldl (fun map entry => upsert (insert entry.1 entry.2) entry.1 map) front =
        front ++ entries by
    exact grow [] ascending
  clear ascending
  induction entries with
  | nil =>
    intro front _
    rw [foldl_nil, append_nil]
  | cons first rest ih =>
    intro front ascending
    have below : ∀ entry ∈ front, entry.1 < first.1 := by
      intro entry member
      exact (pairwise_append.mp ascending).2.2 entry member first (by simp)
    rw [foldl_cons, upsert_above _ _ _ below, fresh, ih]
    · rw [append_assoc]
      rfl
    · rw [append_assoc]
      exact ascending

@[grind =]
def find (wanted : Key) : List (Key × Value) → Option Value
  | [] => none
  | entry :: rest => if wanted = entry.1 then some entry.2 else find wanted rest

variable {entries : List (Key × Value)} {key : Key}

theorem find_none_iff : find key entries = none ↔ ∀ entry ∈ entries, key ≠ entry.1 := by
  induction entries with
  | nil => simp [find]
  | cons first rest ih =>
    rw [find, forall_mem_cons]
    split
    next same => simp [same]
    next differs =>
      rw [ih]
      exact (and_iff_right differs).symm

theorem find_none_of_ne (differs : ∀ entry ∈ entries, key ≠ entry.1) : find key entries = none :=
  find_none_iff.mpr differs

theorem find_last (above : ∀ entry ∈ entries, entry.1 < key) (value : Value) :
    find key (entries ++ [(key, value)]) = some value := by
  induction entries with
  | nil => rw [nil_append, find, if_pos rfl]
  | cons first rest ih =>
    rw [cons_append, find, if_neg (ne_of_gt (above first (by simp)))]
    exact ih fun entry member => above entry (by simp [member])

theorem find_upsert (update : Option Value → Value) (key wanted : Key)
    (entries : List (Key × Value)) (ascending : Ascending entries) :
    find wanted (upsert update key entries) =
      if wanted = key then some (update (find key entries)) else find wanted entries := by
  induction entries with
  | nil => simp [upsert, find]
  | cons first rest ih =>
    obtain ⟨above, restAscending⟩ := pairwise_cons.mp ascending
    rw [upsert]
    split
    next smaller =>
      have missing : find key (first :: rest) = none := by
        refine find_none_of_ne (forall_mem_cons.mpr ⟨ne_of_lt smaller, ?_⟩)
        exact fun entry inRest => ne_of_lt (lt_trans smaller (above entry inRest))
      rw [find, missing]
    · split
      next equal =>
        rw [find, find, find, if_pos equal, ← equal]
        by_cases same : wanted = key
        · rw [if_pos same, if_pos same]
        · rw [if_neg same, if_neg same, if_neg same]
      next differs =>
        rw [find, ih restAscending, find, find, if_neg differs, ite_ite_comm]
        rintro rfl same
        exact differs same.symm

@[grind =]
def replace (key : Key) (value : Value) : List (Key × Value) → List (Key × Value)
  | [] => []
  | entry :: rest =>
    if key = entry.1 then (entry.1, value) :: rest else entry :: replace key value rest

theorem replace_keys (key : Key) (value : Value) (entries : List (Key × Value)) :
    (replace key value entries).map Prod.fst = entries.map Prod.fst := by
  induction entries with
  | nil => rfl
  | cons first rest ih =>
    rw [replace]
    split
    · rfl
    · rw [map_cons, ih, map_cons]

theorem find_replace (key wanted : Key) (value : Value) (entries : List (Key × Value)) :
    find wanted (replace key value entries) =
      if wanted = key then (find key entries).map fun _ => value else find wanted entries := by
  induction entries with
  | nil => simp [replace, find]
  | cons first rest ih =>
    rw [replace]
    split
    next here =>
      rw [find, find, find, if_pos here, ← here]
      by_cases same : wanted = key
      · rw [if_pos same, if_pos same, Option.map_some]
      · rw [if_neg same, if_neg same, if_neg same]
    next differs =>
      rw [find, find, find, ih, if_neg differs, ite_ite_comm]
      rintro rfl same
      exact differs same.symm

variable {value : Value}

theorem countP_replace (test : Key × Value → Bool) {old : Value}
    (found : find key entries = some old) (same : test (key, value) = test (key, old)) :
    (replace key value entries).countP test = entries.countP test := by
  induction entries with
  | nil => cases found
  | cons first rest ih =>
    rw [find] at found
    rw [replace]
    split at found
    next here =>
      have entry : first = (key, old) := Prod.ext here.symm (Option.some.inj found)
      rw [if_pos here, ← here, countP_cons, countP_cons, same, entry]
    next differs =>
      rw [if_neg differs, countP_cons, countP_cons, ih found]

variable {entry : Key × Value}

theorem replace_mem (member : entry ∈ replace key value entries) :
    entry = (key, value) ∨ entry ∈ entries := by
  induction entries with
  | nil => cases member
  | cons first rest ih =>
    rw [replace] at member
    split at member
    next here =>
      rcases mem_cons.mp member with same | later
      · exact .inl (by rw [same, here])
      · exact .inr (mem_cons_of_mem _ later)
    · rcases mem_cons.mp member with same | later
      · exact .inr (by rw [same]; exact mem_cons_self)
      · rcases ih later with new | old
        · exact .inl new
        · exact .inr (mem_cons_of_mem _ old)

theorem upsert_fresh (update : Option Value → Value) (fresh : find key entries = none) :
    (upsert update key entries).Perm ((key, update none) :: entries) := by
  induction entries with
  | nil => exact List.Perm.refl _
  | cons first rest ih =>
    rw [find] at fresh
    split at fresh
    · cases fresh
    next differs =>
      rw [upsert]
      split
      · exact List.Perm.refl _
      · exact ((ih fresh).cons first).trans (List.Perm.swap _ _ _)

theorem find_upsert_fresh (update : Option Value → Value) (wanted : Key)
    (fresh : find key entries = none) : find wanted (upsert update key entries) =
      if wanted = key then some (update none) else find wanted entries := by
  induction entries with
  | nil => simp [upsert, find]
  | cons first rest ih =>
    rw [find] at fresh
    split at fresh
    · cases fresh
    next differs =>
      rw [upsert]
      split
      · rw [find]
      · rw [find, ih fresh, find, ite_ite_comm]
        rintro rfl same
        exact differs same.symm

theorem find_mem (found : find key entries = some value) : (key, value) ∈ entries := by
  induction entries with
  | nil => cases found
  | cons first rest ih =>
    rw [find] at found
    split at found
    next same =>
      rw [same, ← Option.some.inj found]
      exact mem_cons_self
    · exact mem_cons_of_mem _ (ih found)

theorem find_of_mem_keys (distinct : (entries.map Prod.fst).Nodup)
    (member : entry ∈ entries) : find entry.1 entries = some entry.2 := by
  induction entries with
  | nil => cases member
  | cons first rest ih =>
    rw [map_cons, nodup_cons] at distinct
    rw [find]
    rcases mem_cons.mp member with same | inRest
    · rw [same, if_pos rfl]
    have differs : entry.1 ≠ first.1 := by
      intro same
      exact distinct.1 (by rw [← same]; exact mem_map_of_mem inRest)
    rw [if_neg differs]
    exact ih distinct.2 inRest

theorem ascending_of_keys {Other : Type*} {others : List (Key × Other)}
    (same : others.map Prod.fst = entries.map Prod.fst) (ascending : Ascending entries) :
    Ascending others := by
  have keys : (entries.map Prod.fst).Pairwise (· < ·) := pairwise_map.mpr ascending
  rw [← same] at keys
  exact pairwise_map.mp keys

theorem ascending_keys (ascending : Ascending entries) : (entries.map Prod.fst).Nodup :=
  (pairwise_map.mpr ascending).imp ne_of_lt

theorem find_of_mem (ascending : Ascending entries) (member : (key, value) ∈ entries) :
    find key entries = some value :=
  find_of_mem_keys (ascending_keys ascending) member

theorem ascending_ext {left right : List (Key × Value)} (leftAscending : Ascending left)
    (rightAscending : Ascending right) (same : ∀ key, find key left = find key right) :
    left = right := by
  have subset : ∀ {one two : List (Key × Value)}, Ascending one →
      (∀ key, find key one = find key two) → ∀ entry ∈ one, entry ∈ two := by
    intro one two ascending agree entry member
    apply find_mem
    rw [← agree]
    exact find_of_mem ascending member
  have perm : left.Perm right := by
    rw [perm_ext_iff_of_nodup (ascending_keys leftAscending).of_map
      (ascending_keys rightAscending).of_map]
    intro entry
    exact ⟨subset leftAscending same entry,
      subset rightAscending (fun key => (same key).symm) entry⟩
  refine perm.eq_of_pairwise ?_ leftAscending rightAscending
  intro one two _ _ less greater
  exact absurd greater (lt_asymm less)

section

variable (insert : Key → Value → Option Value → Value) (items map : List (Key × Value))

include insert items map

theorem foldl_upsert_is_ascending (ascending : Ascending map) :
    Ascending (items.foldl (fun map item => upsert (insert item.1 item.2) item.1 map) map) := by
  induction items generalizing map with
  | nil => exact ascending
  | cons first rest ih => exact ih _ (upsert_ascending _ _ _ ascending)

theorem foldl_upsert_mem_keys (wanted : Key) :
    wanted ∈ (items.foldl (fun map item => upsert (insert item.1 item.2) item.1 map) map).map
        Prod.fst ↔ wanted ∈ items.map Prod.fst ∨ wanted ∈ map.map Prod.fst := by
  induction items generalizing map with
  | nil => rw [foldl_nil, map_nil, mem_nil_iff, false_or]
  | cons first rest ih =>
    rw [foldl_cons, ih, upsert_mem_keys, map_cons, mem_cons]
    exact or_left_comm.trans or_assoc.symm

end

end Entries

@[ext]
structure SortedMap (Key Value : Type*) [LT Key] where
  entries : List (Key × Value)
  ascending : Ascending entries

namespace SortedMap

section Operations

variable {Key Value : Type*} [LinearOrder Key]

def get (map : SortedMap Key Value) (key : Key) : Option Value := find key map.entries

def emplaceItem (map : List (Key × Value)) (item : Key × Value) : List (Key × Value) :=
  emplace item.1 item.2 map

def assignItem (map : List (Key × Value)) (item : Key × Value) : List (Key × Value) :=
  insertOrAssign item.1 item.2 map

def empty : SortedMap Key Value := ⟨[], List.Pairwise.nil⟩

def update (map : SortedMap Key Value) (change : Option Value → Value) (key : Key) :
    SortedMap Key Value :=
  ⟨upsert change key map.entries, upsert_ascending _ _ _ map.ascending⟩

theorem get_update (map : SortedMap Key Value) (change : Option Value → Value) (key wanted : Key) :
    (map.update change key).get wanted =
      if wanted = key then some (change (map.get key)) else map.get wanted :=
  find_upsert _ _ _ _ map.ascending

def assign (map : SortedMap Key Value) (key : Key) (value : Value) : SortedMap Key Value :=
  map.update (fun _ => value) key

theorem get_assign (map : SortedMap Key Value) (key wanted : Key) (value : Value) :
    (map.assign key value).get wanted = if wanted = key then some value else map.get wanted :=
  get_update _ _ _ _

variable {key : Key}

theorem get_assign_each (value : Key → Value) (keys : List Key) (map : SortedMap Key Value)
    (wanted : Key) :
    (wanted ∈ keys → (keys.foldl (fun map key => map.assign key (value key)) map).get wanted =
        some (value wanted)) ∧
    (wanted ∉ keys →
      (keys.foldl (fun map key => map.assign key (value key)) map).get wanted = map.get wanted) := by
  induction keys generalizing map with
  | nil => exact ⟨nofun, fun _ => rfl⟩
  | cons key keys ih =>
    rw [foldl_cons, mem_cons, not_or]
    constructor
    · intro member
      by_cases later : wanted ∈ keys
      · exact (ih _).1 later
      · have here := member.resolve_right later
        rw [(ih _).2 later, get_assign, if_pos here, here]
    · intro absent
      rw [(ih _).2 absent.2, get_assign, if_neg absent.1]

def emplaceAt (map : SortedMap Key Value) (key : Key) (value : Value) : SortedMap Key Value :=
  map.update (fun old => old.getD value) key

theorem get_ext {left right : SortedMap Key Value} (same : ∀ key, left.get key = right.get key) :
    left = right :=
  SortedMap.ext (ascending_ext left.ascending right.ascending same)

def emplaceAll (items : List (Key × Value)) : SortedMap Key Value where
  entries := items.foldl emplaceItem []
  ascending := foldl_upsert_is_ascending (fun _ value old => old.getD value) items []
    List.Pairwise.nil

def assignAll (items : List (Key × Value)) : SortedMap Key Value where
  entries := items.foldl assignItem []
  ascending := foldl_upsert_is_ascending (fun _ value _ => value) items [] List.Pairwise.nil

section

variable (items : List (Key × Value))

include items

theorem emplace_all_entries (ascending : Ascending items) : (emplaceAll items).entries = items :=
  foldl_upsert_ascending (fun _ value old => old.getD value) (fun _ _ => rfl) items ascending

theorem assign_all_entries (ascending : Ascending items) : (assignAll items).entries = items :=
  foldl_upsert_ascending (fun _ value _ => value) (fun _ _ => rfl) items ascending

theorem assign_all_mem_keys (wanted : Key) :
    wanted ∈ (assignAll items).entries.map Prod.fst ↔ wanted ∈ items.map Prod.fst := by
  refine (foldl_upsert_mem_keys (fun _ value _ => value) items [] wanted).trans ?_
  rw [map_nil, mem_nil_iff, or_false]

theorem emplace_all_mem_keys (wanted : Key) :
    wanted ∈ (emplaceAll items).entries.map Prod.fst ↔ wanted ∈ items.map Prod.fst := by
  refine (foldl_upsert_mem_keys (fun _ value old => old.getD value) items [] wanted).trans ?_
  rw [map_nil, mem_nil_iff, or_false]

end

def mapValues {Other : Type*} (change : Value → Other) (map : SortedMap Key Value) :
    SortedMap Key Other where
  entries := map.entries.map fun entry => (entry.1, change entry.2)
  ascending := by
    rw [Ascending, List.pairwise_map]
    exact map.ascending

variable {Other : Type*}

theorem map_values_keys (change : Value → Other) (map : SortedMap Key Value) :
    (map.mapValues change).entries.map Prod.fst = map.entries.map Prod.fst := by
  change (map.entries.map _).map _ = _
  rw [map_map]
  rfl

def mapEntries {Other : Type*} (change : Key → Value → Other) (map : SortedMap Key Value) :
    SortedMap Key Other where
  entries := map.entries.map fun entry => (entry.1, change entry.1 entry.2)
  ascending := by
    rw [Ascending, List.pairwise_map]
    exact map.ascending

theorem get_map_entries (change : Key → Value → Other) (map : SortedMap Key Value)
    (key : Key) : (map.mapEntries change).get key = (map.get key).map (change key) := by
  change find key (map.entries.map fun entry => (entry.1, change entry.1 entry.2)) =
    (find key map.entries).map (change key)
  induction map.entries with
  | nil => rfl
  | cons entry entries ih =>
    rw [map_cons, find, find]
    split
    next same =>
      rw [same]
      rfl
    · exact ih

theorem get_map_values (change : Value → Other) (map : SortedMap Key Value)
    (key : Key) : (map.mapValues change).get key = (map.get key).map change :=
  get_map_entries (fun _ => change) map key

variable {value : Value} {map : SortedMap Key Value}

theorem mem_iff_get : (key, value) ∈ map.entries ↔ map.get key = some value :=
  ⟨find_of_mem map.ascending, find_mem⟩

theorem get_of_mem_keys (member : key ∈ map.entries.map Prod.fst) : ∃ value, map.get key = some value := by
  obtain ⟨entry, inside, same⟩ := mem_map.mp member
  refine ⟨entry.2, find_of_mem map.ascending ?_⟩
  rw [← same]
  exact inside

theorem mem_keys_iff : key ∈ map.entries.map Prod.fst ↔ ∃ value, map.get key = some value := by
  constructor
  · exact get_of_mem_keys
  · intro found
    obtain ⟨value, isValue⟩ := found
    exact mem_map.mpr ⟨(key, value), mem_iff_get.mpr isValue, rfl⟩

theorem keys_ext {left : SortedMap Key Value} {right : SortedMap Key Other}
    (same : ∀ key, (left.get key).isSome = (right.get key).isSome) :
    left.entries.map Prod.fst = right.entries.map Prod.fst := by
  have units : left.mapValues (fun _ => ()) = right.mapValues (fun _ => ()) := by
    apply get_ext
    intro key
    rw [get_map_values, get_map_values]
    have present := same key
    cases found : left.get key <;> cases other : right.get key <;> rw [found, other] at present
    · rfl
    · cases present
    · cases present
    · rfl
  rw [← map_values_keys (fun _ => ()) left, units, map_values_keys]

theorem foldl_assign_get (items map : List (Key × Value)) (ascending : Ascending map)
    (found : find key (items.foldl assignItem map) = some value) :
    (key, value) ∈ items ∨ find key map = some value := by
  induction items generalizing map with
  | nil => exact .inr found
  | cons item items ih =>
    rcases ih _ (upsert_ascending _ _ _ ascending) found with later | here
    · exact .inl (mem_cons_of_mem _ later)
    rw [find_upsert _ _ _ _ ascending] at here
    split at here
    next same =>
      rw [same, ← Option.some.inj here]
      exact .inl mem_cons_self
    · exact .inr here

theorem get_assign_all {items : List (Key × Value)} (found : (assignAll items).get key = some value) :
    (key, value) ∈ items := by
  rcases foldl_assign_get items [] List.Pairwise.nil found with member | impossible
  · exact member
  · cases impossible

end Operations

section

variable {Key Value : Type*} [LinearOrder Key]

def Lists (map : SortedMap Key (Finset Value)) (key : Key) (value : Value) : Prop :=
  ∃ values, map.get key = some values ∧ value ∈ values

variable {map : SortedMap Key (Finset Value)}

theorem lists_iff_mem {key : Key} {values : Finset Value} {value : Value}
    (found : map.get key = some values) : Lists map key value ↔ value ∈ values := by
  constructor
  · intro listed
    obtain ⟨others, isFound, member⟩ := listed
    rw [found] at isFound
    rw [Option.some.inj isFound]
    exact member
  · intro member
    exact ⟨values, found, member⟩

def Full (map : SortedMap Key (Finset Value)) : Prop :=
  ∀ key values, map.get key = some values → values.Nonempty

theorem full_empty : Full (empty : SortedMap Key (Finset Value)) := by
  intro key values found
  cases found

theorem lists_none {key : Key} (full : Full map)
    (nothing : ∀ value, ¬ Lists map key value) : map.get key = none := by
  cases found : map.get key with
  | none => rfl
  | some values =>
    obtain ⟨value, member⟩ := full key values found
    exact absurd ⟨values, found, member⟩ (nothing value)

theorem full_ext {left right : SortedMap Key (Finset Value)} (leftFull : Full left)
    (rightFull : Full right) (same : ∀ key value, Lists left key value ↔ Lists right key value) :
    left = right := by
  apply get_ext
  intro key
  cases found : left.get key with
  | none =>
    refine (lists_none rightFull ?_).symm
    intro value listed
    obtain ⟨values, isFound, _⟩ := (same key value).mpr listed
    rw [found] at isFound
    cases isFound
  | some values =>
    obtain ⟨first, inside⟩ := leftFull key values found
    obtain ⟨others, otherFound, _⟩ := (same key first).mp ⟨values, found, inside⟩
    rw [otherFound]
    apply congrArg some
    ext value
    rw [← lists_iff_mem found, ← lists_iff_mem otherFound]
    exact same key value

variable [DecidableEq Value]

def insertAt (map : SortedMap Key (Finset Value)) (key : Key) (value : Value) :
    SortedMap Key (Finset Value) :=
  map.update (fun old => insert value (old.getD ∅)) key

theorem lists_insert_at (map : SortedMap Key (Finset Value)) (key wanted : Key)
    (value other : Value) :
    Lists (map.insertAt key value) wanted other ↔
      (wanted = key ∧ other = value) ∨ Lists map wanted other := by
  rw [Lists, insertAt, get_update]
  by_cases same : wanted = key
  · rw [same]
    cases found : map.get key with
    | none | some => simp [Lists, found]
  · rw [if_neg same]
    exact (or_iff_right fun both => same both.1).symm

theorem full_insert_at (full : Full map) (key : Key)
    (value : Value) : Full (map.insertAt key value) := by
  intro wanted values found
  rw [insertAt, get_update] at found
  split at found
  · rw [← Option.some.inj found]
    exact Finset.insert_nonempty _ _
  · exact full wanted values found

end

end SortedMap

end Bsd.Lib.OrdMap
