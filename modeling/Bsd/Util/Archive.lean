import Bsd.Lib.OrdMap
import Bsd.Util.Serialise

/-!
# File trees and archives

`dumpPath` writes a file tree as a sequence of length-prefixed strings, and
`parseDump` turns such a sequence into calls on a `FileSystemObjectSink`. The
setting `useCaseHack` is a parameter of both. Interrupts are not modelled.
-/

namespace Bsd.Util.Archive

open Lib.Occurrences Lib.OrdMap Util.Serialise

def narVersionMagic1 : Bytes := ascii "bsd-archive-1"

def caseHackSuffix : Bytes := ascii "~bsd~case~hack~"

/-- A file system object. `readDirectory` returns an ordered map, so the entries
of a directory are listed in the order of their names. -/
inductive FileTree where
  | regular (executable : Bool) (contents : Bytes)
  | symlink (target : Bytes)
  | directory (entries : List (Bytes × FileTree))

abbrev DirEntries := List (Bytes × FileTree)

/-- Components of a `CanonPath`, outermost first. -/
abbrev TreePath := List Bytes

inductive DumpError where
  | collision (left right : TreePath)

structure Dumped where
  name : Bytes
  archive : Except DumpError Bytes

/-- Undo the renaming of `parse` under the case hack. -/
def stripCaseHack (name : Bytes) : Bytes :=
  match (List.range (name.length + 1)).find? fun pos => OccursAt caseHackSuffix name pos with
  | some pos => name.take pos
  | none => name

/-- The map `unhacked`, from the names in the archive to the entries. -/
def unhack (useCaseHack : Bool) (path : TreePath) :
    List Dumped → List (Bytes × Dumped) → Except DumpError (List (Bytes × Dumped))
  | [], unhacked => .ok unhacked
  | entry :: rest, unhacked =>
    if useCaseHack then
      let name := stripCaseHack entry.name
      match find name unhacked with
      | some other => .error (.collision (path ++ [other.name]) (path ++ [entry.name]))
      | none => unhack useCaseHack path rest (emplace name entry unhacked)
    else unhack useCaseHack path rest (emplace entry.name entry unhacked)

def dumpUnhacked (filter : TreePath → Bool) (path : TreePath) :
    List (Bytes × Dumped) → Except DumpError Bytes
  | [] => .ok []
  | (name, entry) :: rest =>
    if filter (path ++ [name]) then
      match entry.archive, dumpUnhacked filter path rest with
      | .ok archive, .ok more =>
        .ok (writeStrings [ascii "entry", ascii "(", ascii "name", name, ascii "node"] ++
          archive ++ writeString (ascii ")") ++ more)
      | .error failure, _ => .error failure
      | .ok _, .error failure => .error failure
    else dumpUnhacked filter path rest

def dumpContents (contents : Bytes) : Bytes :=
  writeString (ascii "contents") ++ writeNum contents.length ++ contents ++
    writePadding contents.length

mutual

def dump (useCaseHack : Bool) (filter : TreePath → Bool) (path : TreePath) :
    FileTree → Except DumpError Bytes
  | .regular executable contents =>
    .ok (writeString (ascii "(") ++ writeStrings [ascii "type", ascii "regular"] ++
      (if executable then writeStrings [ascii "executable", []] else []) ++
      dumpContents contents ++ writeString (ascii ")"))
  | .directory entries =>
    match unhack useCaseHack path (dumpEntries useCaseHack filter path entries) [] with
    | .error failure => .error failure
    | .ok unhacked =>
      match dumpUnhacked filter path unhacked with
      | .error failure => .error failure
      | .ok body =>
        .ok (writeString (ascii "(") ++ writeStrings [ascii "type", ascii "directory"] ++
          body ++ writeString (ascii ")"))
  | .symlink target =>
    .ok (writeString (ascii "(") ++
      writeStrings [ascii "type", ascii "symlink", ascii "target", target] ++
      writeString (ascii ")"))

def dumpEntries (useCaseHack : Bool) (filter : TreePath → Bool) (path : TreePath) :
    DirEntries → List Dumped
  | [] => []
  | (name, tree) :: rest =>
    { name := name, archive := dump useCaseHack filter (path ++ [name]) tree } ::
      dumpEntries useCaseHack filter path rest

end

def defaultPathFilter : TreePath → Bool := fun _ => true

def dumpPath (useCaseHack : Bool) (filter : TreePath → Bool) (tree : FileTree) :
    Except DumpError Bytes :=
  match dump useCaseHack filter [] tree with
  | .error failure => .error failure
  | .ok archive => .ok (writeString narVersionMagic1 ++ archive)

inductive FileOp where
  | isExecutable
  | preallocateContents (size : Nat)
  | data (bytes : Bytes)

/-- Calls on the `FileSystemObjectSink`; the callback given to
`createRegularFile` is replaced by what it does to the file. -/
inductive SinkCall where
  | createDirectory (path : TreePath)
  | createRegularFile (path : TreePath) (ops : List FileOp)
  | createSymlink (path : TreePath) (target : Bytes)

def badArchive (message : Bytes) : ReadError := .serialisation (ascii "bad archive: " ++ message)

def getString : Read Bytes := readString (sizeLimit - 1)

def expectTag (expected : Bytes) : Read Unit := do
  let tag ← getString
  if tag = expected then pure ()
  else throw (badArchive (ascii "expected tag " ++ quoted expected ++ ascii ", got " ++ quoted tag))

/-- The copy loop of `parseContents`, at most 65536 bytes at a time. -/
def copyContents (left : Nat) : Read (List FileOp) :=
  if left = 0 then pure []
  else do
    let bytes ← readBytes (min 65536 left)
    let more ← copyContents (left - min 65536 left)
    pure (.data bytes :: more)
termination_by left
decreasing_by omega

def parseContents : Read (List FileOp) := do
  let size ← readLongLong
  let copied ← copyContents size
  readPadding size
  pure (.preallocateContents size :: copied)

/-- From the tag where the contents should be to the end of the file's node.
Only the tag `contents` is looked for; any other one is passed over. -/
def parseFileEnd (tag : Bytes) : Read (List FileOp) := do
  let ops ← if tag = ascii "contents" then parseContents else pure []
  expectTag (ascii ")")
  pure ops

def parseRegular : Read (List FileOp) := do
  let tag ← getString
  if tag = ascii "executable" then do
    let s2 ← getString
    if s2 = [] then do
      let tag ← getString
      let ops ← parseFileEnd tag
      pure (.isExecutable :: ops)
    else throw (badArchive (ascii "executable marker has non-empty value"))
  else parseFileEnd tag

def ValidName (name : Bytes) : Prop :=
  name ≠ [] ∧ name ≠ ascii "." ∧ name ≠ ascii ".." ∧ (47 : Byte) ∉ name ∧ (0 : Byte) ∉ name

instance (name : Bytes) : Decidable (ValidName name) :=
  inferInstanceAs (Decidable (_ ∧ _))

/-- `CaseInsensitiveCompare` distinguishes names up to the case of ASCII letters. -/
def foldCase (name : Bytes) : Bytes :=
  name.map fun byte => if 65 ≤ byte.val ∧ byte.val ≤ 90 then byte + 32 else byte

/-- The names of a directory seen so far, with the number of collisions of each. -/
abbrev CaseNames := List (Bytes × Nat)

def CaseNames.find (names : CaseNames) (name : Bytes) : Option (Bytes × Nat) :=
  List.find? (fun entry => foldCase entry.1 = foldCase name) names

def hackName (useCaseHack : Bool) (names : CaseNames) (name : Bytes) : Read (Bytes × CaseNames) :=
  if useCaseHack then
    match names.find name with
    | some (key, count) =>
      let hacked := name ++ caseHackSuffix ++ ascii (toString (count + 1))
      let names := names.map fun entry => if entry.1 = key then (key, count + 1) else entry
      match CaseNames.find names hacked with
      | some (other, _) =>
        throw (badArchive (ascii "NAR contains file name " ++ quoted name ++
          ascii " that collides with case-hacked file name " ++ quoted other))
      | none => pure (hacked, names)
    | none => pure (name, (name, 0) :: names)
  else pure (name, names)

mutual

/-- `parse`; the first argument bounds the depth of the recursion. -/
def parse (useCaseHack : Bool) : Nat → TreePath → Read (List SinkCall)
  | 0, _ => throw .outOfDepth
  | depth + 1, path => do
      expectTag (ascii "(")
      expectTag (ascii "type")
      let type ← getString
      if type = ascii "regular" then do
        let ops ← parseRegular
        pure [.createRegularFile path ops]
      else if type = ascii "directory" then do
        let calls ← parseEntries useCaseHack depth path [] []
        pure (.createDirectory path :: calls)
      else if type = ascii "symlink" then do
        expectTag (ascii "target")
        let target ← getString
        expectTag (ascii ")")
        pure [.createSymlink path target]
      else throw (badArchive (ascii "unknown file type " ++ quoted type))

def parseEntries (useCaseHack : Bool) : Nat → TreePath → CaseNames → Bytes → Read (List SinkCall)
  | 0, _, _, _ => throw .outOfDepth
  | depth + 1, path, names, prevName => do
      let tag ← getString
      if tag = ascii ")" then pure []
      else if tag = ascii "entry" then do
        expectTag (ascii "(")
        expectTag (ascii "name")
        let name ← getString
        if ValidName name then
          if name ≤ prevName then throw (badArchive (ascii "NAR directory is not sorted"))
          else do
            let hacked ← hackName useCaseHack names name
            expectTag (ascii "node")
            let calls ← parse useCaseHack depth (path ++ [hacked.1])
            expectTag (ascii ")")
            let more ← parseEntries useCaseHack depth path hacked.2 name
            pure (calls ++ more)
        else throw (badArchive (ascii "NAR contains invalid file name " ++ quoted name))
      else throw (badArchive (ascii "expected tag 'entry' or ')', got " ++ quoted tag))

end

/-- A version that cannot be decoded is treated like a wrong one. -/
def parseDump (useCaseHack : Bool) : Read (List SinkCall) := fun source =>
  match readString narVersionMagic1.length source with
  | .ok (version, rest) =>
    if version = narVersionMagic1 then parse useCaseHack (source.flatten.length + 1) [] rest
    else .error (badArchive (ascii "input doesn't look like a Bsd archive"))
  | .error (.serialisation _) =>
    .error (badArchive (ascii "input doesn't look like a Bsd archive"))
  | .error failure => .error failure

end Bsd.Util.Archive
