import Bsd.Store.Derivations

/-!
# Derived paths

A derived path is a store path or outputs of a derivation, which may itself be the output
of a derivation.
-/

namespace Bsd.Store.DerivedPaths

open Lib.Occurrences Store.Path Store.Derivations

inductive OutputsSpec where
  | all
  | names (outputNames : Finset Bytes) (nonempty : outputNames.Nonempty)
  deriving DecidableEq

namespace OutputsSpec

def contains : OutputsSpec → Bytes → Bool
  | .all, _ => true
  | .names outputNames _, outputName => decide (outputName ∈ outputNames)

def toString : OutputsSpec → Bytes
  | .all => ascii "*"
  | .names outputNames _ => [44].intercalate (sortedValue outputNames)

end OutputsSpec

inductive SingleDerivedPath where
  | opaquePath (path : StorePath)
  | built (drvPath : SingleDerivedPath) (output : Bytes)
  deriving DecidableEq

def SingleDerivedPath.toString (store : StoreDirConfig) : SingleDerivedPath → Bytes
  | .opaquePath path => printStorePath store path
  | .built drvPath output => drvPath.toString store ++ ascii "^" ++ output

inductive DerivedPath where
  | opaquePath (path : StorePath)
  | built (drvPath : SingleDerivedPath) (outputs : OutputsSpec)
  deriving DecidableEq

def DerivedPath.toString (store : StoreDirConfig) : DerivedPath → Bytes
  | .opaquePath path => printStorePath store path
  | .built drvPath outputs => drvPath.toString store ++ ascii "^" ++ outputs.toString

mutual

/-- The outputs that a tree of input derivations asks for, in the order in which
`queryMissing` enqueues them. -/
def enqueueDerivedPaths (inputDrv : SingleDerivedPath) : ChildNode → List DerivedPath
  | .node value childMap =>
    (if nonempty : value.Nonempty then [.built inputDrv (.names value nonempty)] else []) ++
      enqueueChildren inputDrv childMap

def enqueueChildren (inputDrv : SingleDerivedPath) : ChildMap → List DerivedPath
  | [] => []
  | (outputName, childNode) :: rest =>
    enqueueDerivedPaths (.built inputDrv outputName) childNode ++ enqueueChildren inputDrv rest

end

def inputPaths (drv : Derivation) : List DerivedPath :=
  drv.inputDrvs.entries.flatMap fun entry =>
    enqueueDerivedPaths (.opaquePath entry.1) entry.2.val

end Bsd.Store.DerivedPaths
