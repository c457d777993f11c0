import Bsd.Store.DerivedPathText

/-!
# String contexts

A string value stores its context as C strings, which `BsdStringContextElem::to_string` writes
and `parse` reads, and `builtins.appendContext` adds to. The store paths of the elements come
from attribute names, which are not C strings: a zero byte in one cuts what is stored.
-/

namespace Bsd.Expr.StringContext

open Lib.Occurrences Lib.Readers Util.FilePath Store.Path Store.DerivedPaths List

inductive ContextElem where
  | opaquePath (path : StorePath)
  | drvDeep (drvPath : StorePath)
  | built (drvPath : SingleDerivedPath) (output : Bytes)
  deriving DecidableEq

def toStringRest : SingleDerivedPath → Bytes
  | .opaquePath path => path.baseName
  | .built drvPath output => output ++ 33 :: toStringRest drvPath

def ContextElem.toString : ContextElem → Bytes
  | .opaquePath path => path.baseName
  | .drvDeep drvPath => 61 :: drvPath.baseName
  | .built drvPath output => 33 :: toStringRest (.built drvPath output)

def badElem (reason : String) (raw : Bytes) : Failure :=
  .error (ascii ("Bad String Context element: " ++ reason ++ ": ") ++ raw)

section Contexts

variable (dynamicDerivations : Bool)

/-- `parseRest`, with what was read since the last exclamation mark. -/
def parseRest (output : Bytes) : Bytes → Except Failure SingleDerivedPath
  | [] => do
      let path ← StorePath.ofBaseName output
      .ok (.opaquePath path)
  | byte :: s =>
    if byte = 33 then do
      let drv ← parseRest [] s
      drvRequireExperiment dynamicDerivations drv
      .ok (.built drv output)
    else parseRest (output ++ [byte]) s

def ofSingle : SingleDerivedPath → ContextElem
  | .opaquePath path => .opaquePath path
  | .built drvPath output => .built drvPath output

def parse : Bytes → Except Failure ContextElem
  | [] => .error (badElem "String context element should never be an empty string" [])
  | byte :: s =>
    if byte = 33 then
      if 33 ∉ s then
        .error (badElem "String content element beginning with '!' should have a second '!'"
          (byte :: s))
      else ofSingle <$> parseRest dynamicDerivations [] s
    else if byte = 61 then ContextElem.drvDeep <$> StorePath.ofBaseName s
    else if 33 ∈ s then
      .error (badElem
        "String content element not beginning with '!' should not have a second '!'" (byte :: s))
    else ofSingle <$> parseRest dynamicDerivations [] (byte :: s)

def copyContext : List Bytes → Except Failure (List ContextElem)
  | [] => .ok []
  | text :: texts => do
      let elem ← parse dynamicDerivations (cString text)
      let elems ← copyContext texts
      .ok (elem :: elems)

structure ContextInfo where
  path : Option Bool
  allOutputs : Option Bool
  outputs : Option (List Bytes)

def isDerivation (fileName : Bytes) : Bool := hasSuffix fileName drvExtension

def infoElems (name : Bytes) (namePath : StorePath) (info : ContextInfo) :
    Except Failure (List ContextElem) :=
  if info.allOutputs = some true ∧ !isDerivation name then
    .error (.error (ascii "tried to add all-outputs context of " ++ name ++
      ascii ", which is not a derivation, to a string"))
  else if info.outputs.getD [] ≠ [] ∧ !isDerivation name then
    .error (.error (ascii "tried to add derivation output context of " ++ name ++
      ascii ", which is not a derivation, to a string"))
  else
    .ok ((if info.path = some true then [.opaquePath namePath] else []) ++
      (if info.allOutputs = some true then [.drvDeep namePath] else []) ++
      (info.outputs.getD []).map (.built (.opaquePath namePath)))

variable (store : StoreDirConfig) (ensurePath : StorePath → Except Failure Unit)

def attrElems : List (Bytes × ContextInfo) → Except Failure (List ContextElem)
  | [] => .ok []
  | (name, info) :: attrs => do
      let namePath ← (parseStorePath store name).mapError fun _ =>
        .error (ascii "context key '" ++ name ++ ascii "' is not a store path")
      ensurePath namePath
      let elems ← infoElems name namePath info
      let others ← attrElems attrs
      .ok (elems ++ others)

/-- The context that `prim_appendContext` assembles for a string with the stored context
`stored`; in read-only mode `ensurePath` does nothing. -/
def appendContext (stored : List Bytes) (attrs : List (Bytes × ContextInfo)) :
    Except Failure (List ContextElem) := do
  let context ← copyContext dynamicDerivations stored
  let added ← attrElems store ensurePath attrs
  .ok (context ++ added)

def encodeContext (context : List ContextElem) : List Bytes :=
  context.map fun elem => cString elem.toString

end Contexts

section

variable {dynamicDerivations : Bool}

/-- No name or path on the way has an exclamation mark. -/
def Clean (dynamicDerivations : Bool) : SingleDerivedPath → Prop
  | .opaquePath path => 33 ∉ path.baseName
  | .built drvPath output => 33 ∉ output ∧ Clean dynamicDerivations drvPath ∧
      drvRequireExperiment dynamicDerivations drvPath = .ok ()

def ContextElem.Clean (dynamicDerivations : Bool) : ContextElem → Prop
  | .opaquePath path => StringContext.Clean dynamicDerivations (.opaquePath path)
  | .drvDeep _ => True
  | .built drvPath output => StringContext.Clean dynamicDerivations (.built drvPath output)

theorem marked_inj {first second rest other : Bytes} (plain : 33 ∉ first) (plainToo : 33 ∉ second) :
    first ++ 33 :: rest = second ++ 33 :: other ↔ first = second ∧ rest = other := by
  induction first generalizing second with
  | nil => cases second <;> simp_all
  | cons byte first ih => cases second <;> grind

variable {drv : SingleDerivedPath}

theorem parseRest_ok_iff {output s : Bytes} (plain : 33 ∉ output) :
    parseRest dynamicDerivations output s = .ok drv ↔
      toStringRest drv = output ++ s ∧ Clean dynamicDerivations drv := by
  induction s generalizing output drv with
  | nil =>
    rw [parseRest, except_bind_ok_iff, append_nil]
    cases drv with
    | opaquePath path =>
      simp only [of_base_name_iff, toStringRest, Clean]
      grind
    | built drvPath other =>
      simp only [Except.ok.injEq, reduceCtorEq, and_false, exists_false, false_iff, not_and]
      rintro rfl
      simp [toStringRest] at plain
  | cons byte s ih =>
    rw [parseRest]
    split
    next mark =>
      subst mark
      simp only [except_bind_ok_iff, ih not_mem_nil, nil_append, Except.ok.injEq]
      cases drv with
      | opaquePath path =>
        simp [toStringRest, Clean]
        grind
      | built drvPath other =>
        simp only [toStringRest, SingleDerivedPath.built.injEq]
        constructor
        · rintro ⟨drv, ⟨text, clean⟩, _, required, rfl, rfl⟩
          exact ⟨by rw [text], plain, clean, required⟩
        · rintro ⟨text, plainOther, clean, required⟩
          obtain ⟨rfl, same⟩ := (marked_inj plainOther plain).mp text
          exact ⟨drvPath, ⟨same, clean⟩, (), required, rfl, rfl⟩
    next plainByte =>
      rw [ih (by grind), append_assoc, singleton_append]

theorem base_name_head (path : StorePath) : ∃ byte rest, path.baseName = byte :: rest ∧
    byte ≠ 61 := by
  have size := path.hash_part_length
  rw [path.base_name_eq]
  cases hash : path.hashPart with
  | nil => simp [hash, hashLen] at size
  | cons byte rest =>
    refine ⟨byte, _, rfl, ?_⟩
    rintro rfl
    have base32 : isHashCharacter 61 = true := path.hash_part_character (by simp [hash])
    revert base32
    decide

variable {elem : ContextElem}

theorem ofSingle_eq_iff : ofSingle drv = elem ↔ match elem with
      | .opaquePath path => drv = .opaquePath path
      | .drvDeep _ => False
      | .built drvPath output => drv = .built drvPath output := by
  cases drv <;> cases elem <;> simp [ofSingle]

theorem single_ok_iff {s : Bytes} : ofSingle <$> parseRest dynamicDerivations [] s = .ok elem ↔
      match elem with
      | .opaquePath path => path.baseName = s ∧ 33 ∉ s
      | .drvDeep _ => False
      | .built drvPath output => toStringRest (.built drvPath output) = s ∧
          Clean dynamicDerivations (.built drvPath output) := by
  simp only [map_ok_iff, parseRest_ok_iff not_mem_nil, ofSingle_eq_iff]
  cases elem with
  | opaquePath path =>
    simp only [exists_eq_right, toStringRest, Clean]
    grind
  | drvDeep | built => simp

/-- The texts that are read are those of clean elements. -/
theorem parse_ok_iff {s : Bytes} : parse dynamicDerivations s = .ok elem ↔
      elem.toString = s ∧ elem.Clean dynamicDerivations := by
  have deep : ∀ s, ContextElem.drvDeep <$> StorePath.ofBaseName s = .ok elem ↔ match elem with
      | .drvDeep drvPath => drvPath.baseName = s
      | _ => False := by
    simp only [map_ok_iff, of_base_name_iff]
    cases elem <;> simp
  cases elem with
  | opaquePath path =>
    obtain ⟨byte, rest, text, plain⟩ := base_name_head path
    cases s <;> grind [parse, single_ok_iff, ContextElem.toString, ContextElem.Clean, Clean]
  | drvDeep path =>
    cases s <;> grind [parse, single_ok_iff, ContextElem.toString, ContextElem.Clean]
  | built drvPath output =>
    cases s <;> grind [parse, single_ok_iff, ContextElem.toString, ContextElem.Clean, toStringRest]

theorem copyContext_ok_iff {texts : List Bytes} {elems : List ContextElem} :
    copyContext dynamicDerivations texts = .ok elems ↔
      elems.map ContextElem.toString = texts.map cString ∧
        ∀ elem ∈ elems, elem.Clean dynamicDerivations := by
  induction texts generalizing elems with
  | nil => cases elems <;> simp [copyContext]
  | cons text texts ih =>
    simp only [copyContext, except_bind_ok_iff, parse_ok_iff, ih]
    cases elems with
    | nil => simp
    | cons elem elems =>
      simp
      grind

/-- An element that is read back from what is stored of it. -/
def ContextElem.Stored (dynamicDerivations : Bool) (elem : ContextElem) : Prop :=
  elem.Clean dynamicDerivations ∧ 0 ∉ elem.toString

theorem copyContext_stored {texts : List Bytes} {elems : List ContextElem}
    (read : copyContext dynamicDerivations texts = .ok elems) :
    ∀ elem ∈ elems, elem.Stored dynamicDerivations := by
  obtain ⟨same, clean⟩ := copyContext_ok_iff.mp read
  intro elem member
  have inTexts : elem.toString ∈ texts.map cString := by
    rw [← same]
    exact mem_map_of_mem member
  obtain ⟨text, -, isText⟩ := mem_map.mp inTexts
  refine ⟨clean elem member, ?_⟩
  rw [← isText]
  exact zero_not_c_string text

def Survives (dynamicDerivations : Bool) (context : List ContextElem) : Prop :=
  ∃ back, copyContext dynamicDerivations (encodeContext context) = .ok back ∧
    ∀ elem, elem ∈ back ↔ elem ∈ context

theorem survives_iff {context : List ContextElem} :
    Survives dynamicDerivations context ↔ ∀ elem ∈ context, elem.Stored dynamicDerivations := by
  constructor
  · rintro ⟨back, read, same⟩ elem member
    exact copyContext_stored read elem ((same elem).mpr member)
  · intro stored
    refine ⟨context, copyContext_ok_iff.mpr ⟨?_, fun elem member => (stored elem member).1⟩,
      fun _ => .rfl⟩
    rw [encodeContext, map_map]
    apply map_congr_left
    intro elem member
    rw [Function.comp_apply, c_string_plain (zero_not_c_string _),
      c_string_plain (stored elem member).2]

end

section

/-- No element for the key `path` is stored with an exclamation mark of its own, or cut. -/
def ContextInfo.Clean (path : StorePath) (info : ContextInfo) : Prop :=
  (info.path = some true ∨ info.outputs.getD [] ≠ [] → 33 ∉ path.baseName) ∧
    (info.path = some true ∨ info.allOutputs = some true ∨ info.outputs.getD [] ≠ [] →
      0 ∉ path.baseName) ∧
    ∀ output ∈ info.outputs.getD [], 33 ∉ output ∧ 0 ∉ output

variable {dynamicDerivations : Bool} {store : StoreDirConfig}
  {ensurePath : StorePath → Except Failure Unit}

theorem built_stored_iff {path : StorePath} {output : Bytes} :
    ContextElem.Stored dynamicDerivations (.built (.opaquePath path) output) ↔
      (33 ∉ output ∧ 0 ∉ output) ∧ 33 ∉ path.baseName ∧ 0 ∉ path.baseName := by
  have required : drvRequireExperiment dynamicDerivations (.opaquePath path) = .ok () := rfl
  simp [ContextElem.Stored, ContextElem.Clean, Clean, ContextElem.toString, toStringRest, required]
  tauto

variable {elems : List ContextElem}

theorem infoElems_stored {name : Bytes} {namePath : StorePath} {info : ContextInfo}
    (added : infoElems name namePath info = .ok elems) :
    (∀ elem ∈ elems, elem.Stored dynamicDerivations) ↔ info.Clean namePath := by
  unfold infoElems at added
  split at added
  · cases added
  split at added
  · cases added
  rw [← Except.ok.inj added]
  have pathPart : (∀ elem ∈ if info.path = some true then [.opaquePath namePath] else [],
      ContextElem.Stored dynamicDerivations elem) ↔
        (info.path = some true → 33 ∉ namePath.baseName ∧ 0 ∉ namePath.baseName) := by
    split <;> simp_all [ContextElem.Stored, ContextElem.Clean, Clean, ContextElem.toString]
  have deepPart : (∀ elem ∈ if info.allOutputs = some true then [.drvDeep namePath] else [],
      ContextElem.Stored dynamicDerivations elem) ↔
        (info.allOutputs = some true → 0 ∉ namePath.baseName) := by
    split <;> simp_all [ContextElem.Stored, ContextElem.Clean, ContextElem.toString]
  have builtPart : (∀ elem ∈ (info.outputs.getD []).map (.built (.opaquePath namePath)),
      ContextElem.Stored dynamicDerivations elem) ↔
        (info.outputs.getD [] ≠ [] → 33 ∉ namePath.baseName ∧ 0 ∉ namePath.baseName) ∧
          ∀ output ∈ info.outputs.getD [], 33 ∉ output ∧ 0 ∉ output := by
    simp only [forall_mem_map, built_stored_iff]
    constructor
    · intro stored
      refine ⟨fun nonempty => ?_, fun output member => (stored output member).1⟩
      obtain ⟨output, member⟩ := exists_mem_of_ne_nil _ nonempty
      exact (stored output member).2
    · rintro ⟨path, outputs⟩ output member
      exact ⟨outputs output member, path (ne_nil_of_mem member)⟩
  simp only [mem_append, or_imp, forall_and, pathPart, deepPart, builtPart, ContextInfo.Clean]
  tauto

theorem attrElems_stored {attrs : List (Bytes × ContextInfo)}
    (added : attrElems store ensurePath attrs = .ok elems) :
    (∀ elem ∈ elems, elem.Stored dynamicDerivations) ↔
      ∀ attr ∈ attrs, ∀ path, parseStorePath store attr.1 = .ok path → attr.2.Clean path := by
  induction attrs generalizing elems with
  | nil => cases added; simp
  | cons attr attrs ih =>
    simp only [attrElems, except_bind_ok_iff, Except.ok.injEq] at added
    obtain ⟨namePath, parsed, _, -, head, headAdded, tail, tailAdded, rfl⟩ := added
    have parses : parseStorePath store attr.1 = .ok namePath := by
      cases run : parseStorePath store attr.1 <;> simp_all [Except.mapError]
    simp [or_imp, forall_and, parses, forall_eq', infoElems_stored headAdded, ih tailAdded]

/-- What `appendContext` assembled reads back exactly if there is no exclamation mark in the
names of the outputs and in the paths that are not added with all outputs only, and no zero
byte in the names of the outputs and in any path that is added. -/
theorem append_context_survives_iff {stored : List Bytes} {attrs : List (Bytes × ContextInfo)}
    {context : List ContextElem}
    (succeeds : appendContext dynamicDerivations store ensurePath stored attrs = .ok context) :
    Survives dynamicDerivations context ↔
      ∀ attr ∈ attrs, ∀ path, parseStorePath store attr.1 = .ok path → attr.2.Clean path := by
  simp only [appendContext, except_bind_ok_iff, Except.ok.injEq] at succeeds
  obtain ⟨old, read, added, addedElems, rfl⟩ := succeeds
  have oldStored := copyContext_stored read
  rw [survives_iff, ← attrElems_stored addedElems]
  simp only [List.mem_append, or_imp, forall_and]
  exact and_iff_right oldStored

theorem append_output (output : Bytes) :
    appendContext dynamicDerivations usualStore (fun _ => .ok ()) []
        [(printStorePath usualStore chainedDrv, ⟨none, none, some [output]⟩)] =
      .ok [.built (.opaquePath chainedDrv) output] := by
  have parsed := parse_print_store_path usualStore chainedDrv (by decide +kernel)
  have drv : isDerivation (printStorePath usualStore chainedDrv) = true := by decide +kernel
  simp [appendContext, copyContext, attrElems, parsed, infoElems, drv, Except.mapError, bind,
    Except.bind]

theorem append_context_survives_out : appendContext false usualStore (fun _ => .ok ()) []
        [(printStorePath usualStore chainedDrv, ⟨none, none, some [ascii "out"]⟩)] =
      .ok [.built (.opaquePath chainedDrv) (ascii "out")] ∧
      Survives false [.built (.opaquePath chainedDrv) (ascii "out")] := by
  refine ⟨append_output _, (append_context_survives_iff (append_output _)).mpr ?_⟩
  simp only [List.forall_mem_singleton, parse_print_store_path usualStore chainedDrv
    (by decide +kernel), Except.ok.injEq, forall_eq']
  exact ⟨fun _ => by decide +kernel, fun _ => by decide +kernel, by decide⟩

/-- The output `a!b` reads back as the output `a` of a derivation that is an output `b`, which
is refused without the experimental feature. -/
theorem marked_output_lost : appendContext false usualStore (fun _ => .ok ()) []
        [(printStorePath usualStore chainedDrv, ⟨none, none, some [ascii "a!b"]⟩)] =
      .ok [.built (.opaquePath chainedDrv) (ascii "a!b")] ∧
      ¬Survives false [.built (.opaquePath chainedDrv) (ascii "a!b")] := by
  refine ⟨append_output _, ?_⟩
  rw [survives_iff, List.forall_mem_singleton, built_stored_iff]
  decide

end

end Bsd.Expr.StringContext
