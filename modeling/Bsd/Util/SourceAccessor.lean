import Bsd.Util.FilePath

/-!
# Symbolic links in paths

`resolveSymlinks` takes the components of a path one by one. The target of a link comes
before those that are left; only a budget of links keeps a loop of them from going on.
Of the tree it sees the paths that are links (`maybeLstat`) and their targets.
-/

namespace Bsd.Util.SourceAccessor

open List Lib.Occurrences Util.FilePath

inductive SymlinkResolution where
  | full
  | ancestors
  deriving DecidableEq

section

variable (readLink : List Bytes → Option Bytes) (mode : SymlinkResolution) (failure : Failure)

/-- The target of `path` if it is a link, and `mode` wants that looked up with `todo` left. -/
def linkAt (path todo : List Bytes) : Option Bytes :=
  if mode = .full ∨ todo ≠ [] then readLink path else none

def resolveFrom (linksAllowed : Nat) (res : List Bytes) : List Bytes → Except Failure (List Bytes)
  | [] => .ok res
  | c :: todo =>
    if c = [] ∨ c = ascii "." then resolveFrom linksAllowed res todo
    else if c = ascii ".." then resolveFrom linksAllowed res.dropLast todo
    else
      match linkAt readLink mode (res ++ [c]) todo with
      | none => resolveFrom linksAllowed (res ++ [c]) todo
      | some target =>
        match linksAllowed with
        | 0 => .error failure
        | linksAllowed + 1 =>
          resolveFrom linksAllowed (if target.take 1 = [47] then [] else res)
            ((target.splitOn 47).filter (· ≠ []) ++ todo)
termination_by todo => (linksAllowed, todo.length)

/-- `failure` is the error that shows the path. -/
def resolveSymlinks (path : List Bytes) : Except Failure (List Bytes) :=
  resolveFrom readLink mode failure 1024 [] path

/-- From a directory, the components that are left lead to a path. -/
inductive Resolves : List Bytes → List Bytes → List Bytes → Prop
  | done {dir} : Resolves dir [] dir
  | here {dir component todo final} (stays : component = [] ∨ component = ascii ".")
      (rest : Resolves dir todo final) : Resolves dir (component :: todo) final
  | parent {dir todo final} (rest : Resolves dir.dropLast todo final) :
      Resolves dir (ascii ".." :: todo) final
  | enter {dir name todo final} (named : name ∉ [[], ascii ".", ascii ".."])
      (plain : linkAt readLink mode (dir ++ [name]) todo = none)
      (rest : Resolves (dir ++ [name]) todo final) : Resolves dir (name :: todo) final
  | follow {dir name todo target final} (named : name ∉ [[], ascii ".", ascii ".."])
      (link : linkAt readLink mode (dir ++ [name]) todo = some target)
      (rest : Resolves (if target.take 1 = [47] then [] else dir)
        ((target.splitOn 47).filter (· ≠ []) ++ todo) final) : Resolves dir (name :: todo) final

end

section

variable {readLink : List Bytes → Option Bytes} {mode : SymlinkResolution} {failure : Failure}

theorem resolve_from_ends (linksAllowed : Nat) (res todo : List Bytes) :
    resolveFrom readLink mode failure linksAllowed res todo = .error failure ∨
      ∃ final, resolveFrom readLink mode failure linksAllowed res todo = .ok final ∧
        Resolves readLink mode res todo final := by
  fun_induction resolveFrom readLink mode failure linksAllowed res todo with
  | case1 linksAllowed res => exact .inr ⟨res, rfl, .done⟩
  | case2 linksAllowed res c todo stays ih =>
    exact ih.imp_right fun ⟨final, ran, rest⟩ => ⟨final, ran, .here stays rest⟩
  | case3 linksAllowed res todo stays ih =>
    exact ih.imp_right fun ⟨final, ran, rest⟩ => ⟨final, ran, .parent rest⟩
  | case4 linksAllowed res c todo stays moves plain ih =>
    have named : c ∉ [[], ascii ".", ascii ".."] := by simp_all
    exact ih.imp_right fun ⟨final, ran, rest⟩ => ⟨final, ran, .enter named plain rest⟩
  | case5 => exact .inl rfl
  | case6 res c todo stays moves target link linksAllowed ih =>
    have named : c ∉ [[], ascii ".", ascii ".."] := by simp_all
    exact ih.imp_right fun ⟨final, ran, rest⟩ => ⟨final, ran, .follow named link rest⟩

/-- No path to the directory or to one above it is a link. -/
def Plain (readLink : List Bytes → Option Bytes) (dir : List Bytes) : Prop :=
  ∀ path, path ≠ [] → path <+: dir → readLink path = none

theorem resolves_plain {dir todo final : List Bytes} (resolves : Resolves readLink mode dir todo final)
    (plain : Plain readLink dir) :
    (mode = .full → Plain readLink final) ∧
      ∀ path, path ≠ [] → path <+: final → path ≠ final → readLink path = none := by
  induction resolves with
  | done => exact ⟨fun _ => plain, fun path nonempty within _ => plain path nonempty within⟩
  | here _ _ ih => exact ih plain
  | parent _ ih =>
    exact ih fun path nonempty within => plain path nonempty (within.trans <| dropLast_prefix _)
  | @enter dir name todo final named noLink rest ih =>
    by_cases looked : mode = .full ∨ todo ≠ []
    · rw [linkAt, if_pos looked] at noLink
      refine ih fun path nonempty within => ?_
      rcases prefix_concat_iff.mp within with rfl | shorter
      · exact noLink
      · exact plain path nonempty shorter
    obtain ⟨partly, rfl⟩ := not_or.mp looked |>.imp_right not_not.mp
    cases rest
    refine ⟨fun full => absurd full partly, ?_⟩
    intro path nonempty within proper
    exact plain path nonempty ((prefix_concat_iff.mp within).resolve_left proper)
  | @follow dir name todo target final _ _ _ ih =>
    apply ih
    split
    · intro path nonempty within
      exact absurd (prefix_nil.mp within) nonempty
    · exact plain

end

/-- A path is resolved component by component and then has no link on its way, or there
were too many links. -/
theorem resolve_symlinks_ends (readLink : List Bytes → Option Bytes) (mode : SymlinkResolution)
    (failure : Failure) (path : List Bytes) :
    resolveSymlinks readLink mode failure path = .error failure ∨
      ∃ final, resolveSymlinks readLink mode failure path = .ok final ∧
        Resolves readLink mode [] path final ∧ (mode = .full → Plain readLink final) ∧
        ∀ path, path ≠ [] → path <+: final → path ≠ final → readLink path = none := by
  apply (resolve_from_ends 1024 [] path).imp_right
  intro ⟨final, ran, resolves⟩
  refine ⟨final, ran, resolves, resolves_plain resolves ?_⟩
  intro path nonempty within
  exact absurd (prefix_nil.mp within) nonempty

end Bsd.Util.SourceAccessor
