import Mathlib.Data.List.GetD
import Mathlib.Data.List.TakeWhile
import Mathlib.Data.Set.Finite.List
import Bsd.Util.Hashes

/-!
# Store paths

A store path is the base name of a direct child of the store directory: 32
base-32 characters, one more character and a name. The constructor does not look
at the character between the hash part and the name.
-/

namespace Bsd.Store.Path

open List Lib.Occurrences Util.FilePath Util.Hashes

def maxPathLen : Nat := 211

def hashLen : Nat := 32

def isNameCharacter (character : Byte) : Bool :=
  (48 ≤ character.val && character.val ≤ 57) || (97 ≤ character.val && character.val ≤ 122) ||
    (65 ≤ character.val && character.val ≤ 90) ||
    character = 43 || character = 45 || character = 46 || character = 95 || character = 63 ||
    character = 61

def notValid (name : Bytes) : Failure :=
  .badStorePathName (ascii "name " ++ quoted name ++ ascii " is not valid")

def dashedComponent (name component : Bytes) : Failure :=
  .badStorePathName (ascii "name " ++ quoted name ++
    ascii " is not valid: first dash-separated component must not be " ++ quoted component)

def checkDots (name : Bytes) : Except Failure Unit :=
  match name with
  | 46 :: rest =>
    match rest with
    | [] => .error (notValid name)
    | 45 :: _ => .error (dashedComponent name (ascii "."))
    | 46 :: [] => .error (notValid name)
    | 46 :: 45 :: _ => .error (dashedComponent name (ascii ".."))
    | _ => .ok ()
  | _ => .ok ()

def checkCharacters (name : Bytes) : Except Failure Unit :=
  match name.find? fun character => !isNameCharacter character with
  | some character =>
    .error (.badStorePathName (ascii "name " ++ quoted name ++
      ascii " contains illegal character " ++ quoted [character]))
  | none => .ok ()

def checkName (name : Bytes) : Except Failure Unit :=
  if name = [] then .error (.badStorePathName (ascii "name must not be empty"))
  else if maxPathLen < name.length then
    .error (.badStorePathName (ascii "name " ++ quoted name ++ ascii " must be no longer than " ++
      ascii (toString maxPathLen) ++ ascii " characters"))
  else do
    checkDots name
    checkCharacters name

def checkPathName (path name : Bytes) : Except Failure Unit :=
  match checkName name with
  | .ok _ => .ok ()
  | .error (.badStorePathName message) =>
    .error (.badStorePath (ascii "path " ++ quoted path ++ ascii " is not a valid store path: " ++
      message))
  | .error failure => .error failure

def isHashCharacter (character : Byte) : Bool :=
  !(character = 101 || character = 111 || character = 117 || character = 116) &&
    ((48 ≤ character.val && character.val ≤ 57) || (97 ≤ character.val && character.val ≤ 122))

def hashPartOf (baseName : Bytes) : Bytes := baseName.take hashLen

def nameOf (baseName : Bytes) : Bytes := baseName.drop (hashLen + 1)

def checkBaseName (baseName : Bytes) : Except Failure Unit :=
  if baseName.length < hashLen + 1 then
    .error (.badStorePath (quoted baseName ++ ascii " is too short to be a valid store path"))
  else
    match (hashPartOf baseName).find? fun character => !isHashCharacter character with
    | some character =>
      .error (.badStorePath (ascii "store path " ++ quoted baseName ++
        ascii " contains illegal base-32 character " ++ quoted [character]))
    | none => checkPathName baseName (nameOf baseName)

structure StorePath where
  baseName : Bytes
  valid : checkBaseName baseName = .ok ()
  deriving DecidableEq

abbrev ReadFile := StorePath → Except Failure Bytes

def StorePath.ofBaseName (baseName : Bytes) : Except Failure StorePath :=
  match checked : checkBaseName baseName with
  | .ok _ => .ok ⟨baseName, checked⟩
  | .error failure => .error failure

def StorePath.hashPart (path : StorePath) : Bytes := hashPartOf path.baseName

def StorePath.name (path : StorePath) : Bytes := nameOf path.baseName

def StorePath.separator (path : StorePath) : Byte := path.baseName.getD hashLen 0

def drvExtension : Bytes := ascii ".drv"

def StorePath.isDerivation (path : StorePath) : Bool := hasSuffix path.name drvExtension

theorem base_name_injective : Function.Injective StorePath.baseName := by
  intro left right same
  cases left
  cases right
  cases same
  rfl

instance : LinearOrder StorePath := LinearOrder.lift' StorePath.baseName base_name_injective

/-- The directory of a store. Settings that hold a path are made canonical when
they are set. -/
structure StoreDirConfig where
  storeDir : Bytes
  canonical : canonPath storeDir = .ok storeDir

def usualStore : StoreDirConfig := ⟨ascii "/bsd/store", by decide⟩

def parseStorePath (store : StoreDirConfig) (path : Bytes) : Except Failure StorePath := do
  let p ← canonPath path
  if dirOf p = store.storeDir then StorePath.ofBaseName (baseNameOf p)
  else throw (.badStorePath (ascii "path " ++ quoted p ++ ascii " is not in the Bsd store"))

def printStorePath (store : StoreDirConfig) (path : StorePath) : Bytes :=
  store.storeDir ++ ascii "/" ++ path.baseName

theorem find_none_iff {characters : Bytes} {good : Byte → Bool} :
    (characters.find? fun character => !good character) = none ↔
      ∀ character ∈ characters, good character = true := by
  simp

structure GoodName (name : Bytes) : Prop where
  nonempty : name ≠ []
  short : name.length ≤ maxPathLen
  notDot : name ≠ ascii "."
  notDots : name ≠ ascii ".."
  characters : ∀ character ∈ name, isNameCharacter character = true

theorem check_name_ok {name : Bytes} (checked : checkName name = .ok ()) : GoodName name := by
  rw [checkName] at checked
  split_ifs at checked with empty long
  cases dots : checkDots name with
  | error failure =>
    rw [dots] at checked
    cases checked
  | ok value =>
    rw [dots] at checked
    have characters : checkCharacters name = .ok () := checked
    rw [checkCharacters] at characters
    split at characters
    · cases characters
    next found =>
      refine ⟨empty, Nat.le_of_not_lt long, fun same => ?_, fun same => ?_, find_none_iff.mp found⟩
      all_goals
        rw [same] at dots
        cases dots

theorem check_path_name_ok {path name : Bytes} :
    checkPathName path name = .ok () ↔ checkName name = .ok () := by
  rw [checkPathName]
  cases checked : checkName name with
  | ok value => exact Iff.rfl
  | error failure => cases failure <;> exact iff_of_false nofun nofun

variable {baseName : Bytes}

theorem check_base_name_ok : checkBaseName baseName = .ok () ↔ hashLen + 1 ≤ baseName.length ∧
        (∀ character ∈ hashPartOf baseName, isHashCharacter character = true) ∧
        checkName (nameOf baseName) = .ok () := by
  rw [checkBaseName]
  by_cases short : baseName.length < hashLen + 1
  · rw [if_pos short]
    exact iff_of_false nofun fun good => absurd good.1 (Nat.not_le.mpr short)
  rw [if_neg short, ← find_none_iff, ← check_path_name_ok]
  cases found : (hashPartOf baseName).find? fun character => !isHashCharacter character with
  | some character => exact iff_of_false nofun nofun
  | none =>
    constructor
    · intro checked
      exact ⟨Nat.le_of_not_lt short, rfl, checked⟩
    · intro good
      exact good.2.2

theorem of_base_name_iff {path : StorePath} :
    StorePath.ofBaseName baseName = .ok path ↔ path.baseName = baseName := by
  rw [StorePath.ofBaseName]
  constructor
  · intro made
    split at made
    · rw [← Except.ok.inj made]
    · cases made
  intro same
  subst same
  split
  · rfl
  next failure checked =>
    rw [path.valid] at checked
    cases checked

section

variable (path : StorePath)

include path

theorem StorePath.size : hashLen + 1 ≤ path.baseName.length :=
  (check_base_name_ok.mp path.valid).1

theorem StorePath.goodName : GoodName path.name :=
  check_name_ok (check_base_name_ok.mp path.valid).2.2

theorem StorePath.base_name_eq : path.baseName = path.hashPart ++ path.separator :: path.name := by
  have inside : hashLen < path.baseName.length := path.size
  rw [StorePath.hashPart, StorePath.separator, StorePath.name, hashPartOf, nameOf,
    getD_eq_getElem _ _ inside, cons_getElem_drop_succ, take_append_drop]

theorem StorePath.hash_part_length : path.hashPart.length = hashLen :=
  length_take_of_le (le_trans (Nat.le_succ _) path.size)

theorem StorePath.hash_part_character {character : Byte}
    (member : character ∈ path.hashPart) : isHashCharacter character = true :=
  (check_base_name_ok.mp path.valid).2.1 character member

theorem StorePath.is_component (plain : path.separator ≠ 47) : IsComponent path.baseName := by
  apply is_component_of_length
  · exact lt_of_lt_of_le (by decide) path.size
  rw [path.base_name_eq, mem_append, mem_cons]
  intro member
  rcases member with inHash | isSeparator | inName
  · have good := path.hash_part_character inHash
    cases good
  · exact plain isSeparator.symm
  · have good := path.goodName.characters 47 inName
    cases good

end

section

variable (store : StoreDirConfig)

include store

theorem store_dir_eq : store.storeDir = renderPath (canonComponents store.storeDir) := by
  obtain ⟨rest, _, same⟩ := canon_path_ok store.canonical
  exact same

theorem canon_path_below (below : Bytes) : canonPath (store.storeDir ++ ascii "/" ++ below) =
      .ok (renderPath ((below.splitOn 47).foldl canonStep (canonComponents store.storeDir))) := by
  obtain ⟨rest, begins, _⟩ := canon_path_ok store.canonical
  have shape : store.storeDir ++ ascii "/" ++ below = store.storeDir ++ 47 :: below := by
    rw [append_assoc]
    rfl
  rw [shape, ← canon_components_slash, begins, cons_append, canonPath,
    if_pos rfl]

theorem parse_below {below : Bytes} (component : IsComponent below) :
    parseStorePath store (store.storeDir ++ ascii "/" ++ below) = StorePath.ofBaseName below := by
  rw [parseStorePath, canon_path_below, splitOn_eq_singleton component.2.2.2,
    foldl_cons, foldl_nil, canon_step_component component]
  change (if dirOf (renderPath _) = store.storeDir then _ else _) = _
  rw [dir_of_render _ component.2.2.2, ← store_dir_eq, if_pos rfl,
    base_name_of_render _ component.1 component.2.2.2]

theorem parse_print_store_path (path : StorePath) (plain : path.separator ≠ 47) :
    parseStorePath store (printStorePath store path) = .ok path := by
  rw [printStorePath, parse_below store (path.is_component plain)]
  exact of_base_name_iff.mpr rfl

end

theorem base_name_of_no_slash (path : Bytes) : (47 : Byte) ∉ baseNameOf path := by
  rw [baseNameOf, mem_reverse]
  intro member
  have plain := mem_takeWhile_imp member
  exact absurd rfl (of_decide_eq_true plain)

variable {text : Bytes}

theorem parse_separator {store : StoreDirConfig} {path : StorePath}
    (parsed : parseStorePath store text = .ok path) : path.separator ≠ 47 := by
  intro slash
  rw [parseStorePath] at parsed
  cases canonical : canonPath text with
  | error failure =>
    rw [canonical] at parsed
    cases parsed
  | ok clean =>
    rw [canonical] at parsed
    change (if dirOf clean = store.storeDir then StorePath.ofBaseName (baseNameOf clean)
      else _) = _ at parsed
    split at parsed
    · apply base_name_of_no_slash clean
      rw [← of_base_name_iff.mp parsed, path.base_name_eq, slash]
      exact mem_append_right _ mem_cons_self
    · cases parsed

/-- With a slash for its separator a path is taken for a file inside of another
store path. -/
theorem parse_print_slash (store : StoreDirConfig) (path : StorePath)
    (slash : path.separator = 47) (other : StorePath) :
    parseStorePath store (printStorePath store path) ≠ .ok other := by
  have hashComponent : IsComponent path.hashPart := by
    apply is_component_of_length
    · rw [path.hash_part_length]
      decide
    · intro member
      have good := path.hash_part_character member
      cases good
  have nameComponent : IsComponent path.name := by
    refine ⟨path.goodName.nonempty, path.goodName.notDot, path.goodName.notDots, ?_⟩
    intro member
    have good := path.goodName.characters 47 member
    cases good
  intro parsed
  rw [printStorePath, parseStorePath, canon_path_below, path.base_name_eq, slash,
    splitOn_append_cons_self, splitOn_eq_singleton hashComponent.2.2.2,
    splitOn_eq_singleton nameComponent.2.2.2, singleton_append, foldl_cons,
    foldl_cons, foldl_nil, canon_step_component hashComponent,
    canon_step_component nameComponent] at parsed
  change (if dirOf (renderPath _) = store.storeDir then _ else _) = _ at parsed
  rw [dir_of_render _ nameComponent.2.2.2, if_neg] at parsed
  · cases parsed
  · have differs := render_path_snoc_ne (canonComponents store.storeDir) hashComponent.1
    rwa [← store_dir_eq] at differs

instance : Finite StorePath := by
  have short : Set.range StorePath.baseName ⊆ {name | name.length ≤ hashLen + 1 + maxPathLen} := by
    rintro name ⟨path, rfl⟩
    have nameShort := path.goodName.short
    rw [StorePath.name, nameOf, List.length_drop] at nameShort
    exact Nat.sub_le_iff_le_add'.mp nameShort
  exact (Set.finite_range_iff base_name_injective).mp ((List.finite_length_le Byte _).subset short)

def IsStorePathText (text : Bytes) : Prop :=
  ∃ hash name, text = hash ++ 45 :: name ∧ hash.length = hashLen ∧
    (∀ character ∈ hash, character ∈ bsd32Chars) ∧ checkName name = .ok ()

/-- The constructor accepts a text of the grammar and no other one, and takes it apart. -/
def FollowsGrammar (text : Bytes) : Prop :=
  ((∃ path, StorePath.ofBaseName text = .ok path) ↔ IsStorePathText text) ∧
    ∀ path, StorePath.ofBaseName text = .ok path → text = path.hashPart ++ 45 :: path.name

/-- Between what could be a hash part and what could be a name stands a dash. -/
def Dashed (text : Bytes) : Prop :=
  (∀ character ∈ hashPartOf text, character ∈ bsd32Chars) → checkName (nameOf text) = .ok () →
    text[hashLen]? = some 45

theorem hash_character_iff (character : Byte) :
    isHashCharacter character = true ↔ character ∈ bsd32Chars := by
  revert character
  decide +kernel

theorem accepted_iff : (∃ path, StorePath.ofBaseName text = .ok path) ↔
      (∀ character ∈ hashPartOf text, character ∈ bsd32Chars) ∧ checkName (nameOf text) = .ok () := by
  simp only [of_base_name_iff, ← hash_character_iff]
  constructor
  · rintro ⟨path, rfl⟩
    exact (check_base_name_ok.mp path.valid).2
  rintro ⟨isHash, isName⟩
  have nonempty := (check_name_ok isName).nonempty
  rw [nameOf, Ne, drop_eq_nil_iff, not_le] at nonempty
  exact ⟨⟨text, check_base_name_ok.mpr ⟨nonempty.le, isHash, isName⟩⟩, rfl⟩

theorem parts_of_dashed (dash : text[hashLen]? = some 45) :
    text = hashPartOf text ++ 45 :: nameOf text := by
  obtain ⟨inside, isDash⟩ := List.getElem?_eq_some_iff.mp dash
  rw [hashPartOf, nameOf, ← isDash, List.cons_getElem_drop_succ, List.take_append_drop]

/-- The constructor of `StorePath` follows the grammar for the texts that have a dash behind
their hash part. -/
theorem follows_grammar_iff (text : Bytes) : FollowsGrammar text ↔ Dashed text := by
  constructor
  · intro follows isHash isName
    obtain ⟨path, made⟩ := accepted_iff.mpr ⟨isHash, isName⟩
    rw [follows.2 path made, ← path.hash_part_length, List.getElem?_append_right le_rfl,
      Nat.sub_self, List.getElem?_cons_zero]
  intro dashed
  refine ⟨⟨fun made => ?_, ?_⟩, fun path made => ?_⟩
  · obtain ⟨isHash, isName⟩ := accepted_iff.mp made
    have dash := dashed isHash isName
    obtain ⟨inside, _⟩ := List.getElem?_eq_some_iff.mp dash
    exact ⟨_, _, parts_of_dashed dash, List.length_take_of_le inside.le, isHash, isName⟩
  · rintro ⟨hash, name, rfl, size, isHash, isName⟩
    refine accepted_iff.mpr ⟨?_, ?_⟩
    · rwa [hashPartOf, ← size, List.take_left]
    · rwa [nameOf, ← size, ← List.drop_drop, List.drop_left]
  · have dash := accepted_iff.mp ⟨path, made⟩
    rw [of_base_name_iff] at made
    rw [← made] at dashed dash ⊢
    exact parts_of_dashed (dashed dash.1 dash.2)

theorem underscore_accepted : ¬FollowsGrammar (List.replicate 32 48 ++ ascii "_x") := by
  intro follows
  have split := follows.2 ⟨_, by decide⟩ (of_base_name_iff.mpr rfl)
  exact absurd split (by decide)

end Bsd.Store.Path
