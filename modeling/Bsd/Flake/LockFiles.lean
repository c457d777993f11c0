import Mathlib.Algebra.GroupWithZero.Nat
import Mathlib.Data.Char
import Mathlib.Data.List.Lex
import Bsd.Lib.OrdMap

/-!
# Lock files

A lock file is a graph of nodes. Its edges are named and lead to a locked node, or
they hold the path from the root to the input that is followed. Names and attributes
are Unicode text, whose order by code points is the order of its UTF-8 bytes. The
nodes in memory are a list, and a reference to a locked node is a position in it.
-/

namespace Bsd.Flake.LockFiles

open Lib.OrdMap

abbrev Text := List Char

abbrev FlakeId := Text

abbrev InputAttrPath := List FlakeId

/-- `assertion` is a failed `assert`. `outOfDepth` is the bound on the recursions of
the model. -/
inductive Failure where
  | error (message : Text)
  | assertion
  | outOfDepth
  deriving DecidableEq

inductive Attr where
  | string (text : Text)
  | int (number : Fin (2 ^ 64))
  | bool (flag : Bool)
  deriving DecidableEq

abbrev Attrs := SortedMap Text Attr

/-- Inputs are compared by their attributes only. -/
structure FlakeRef where
  attrs : Attrs
  subdir : Text

inductive Edge where
  | node (target : Nat)
  | follows (path : InputAttrPath)
  deriving DecidableEq

abbrev Inputs := SortedMap FlakeId Edge

structure LockedNode where
  inputs : Inputs
  lockedRef : FlakeRef
  originalRef : FlakeRef
  isFlake : Bool
  parentInputAttrPath : Option InputAttrPath

def Edge.within (size : Nat) : Edge → Bool
  | .node target => target < size
  | .follows _ => true

def Within (size : Nat) (inputs : Inputs) : Prop :=
  ∀ entry ∈ inputs.entries, entry.2.within size

instance (size : Nat) (inputs : Inputs) : Decidable (Within size inputs) :=
  inferInstanceAs (Decidable (∀ entry ∈ inputs.entries, entry.2.within size))

structure LockFile where
  root : Inputs
  nodes : List LockedNode
  rootWithin : Within nodes.length root
  nodesWithin : ∀ node ∈ nodes, Within nodes.length node.inputs

inductive NodeRef where
  | root
  | locked (index : Nat)
  deriving DecidableEq

def concatStringsSep (separator : Text) (texts : List Text) : Text :=
  separator.intercalate texts

def printInputAttrPath (path : InputAttrPath) : Text := concatStringsSep "/".toList path

namespace LockFile

variable (lockFile : LockFile)

def inputs : NodeRef → Inputs
  | .root => lockFile.root
  | .locked index =>
    match lockFile.nodes[index]? with
    | some node => node.inputs
    | none => SortedMap.empty

end LockFile

end Bsd.Flake.LockFiles
