import Bsd.Lib.Occurrences

/-!
# Errors and lexical paths

`Failure` is what a C++ function of the store may throw, together with the ways
in which a run may stop without throwing. Paths are handled as text only: the
symbolic links that `canonPath` can be asked to follow are not modelled.
-/

namespace Bsd.Util.FilePath

open List Lib.Occurrences

/-- `assertion` is a failed `assert`, `undefinedBehaviour` an access outside of a
string. `outOfDepth` is the bound on the loops and recursions of the model. -/
inductive Failure where
  | error (message : Bytes)
  | usageError (message : Bytes)
  | formatError (message : Bytes)
  | badHash (message : Bytes)
  | badStorePath (message : Bytes)
  | badStorePathName (message : Bytes)
  | invalidPath (message : Bytes)
  | pathInUse (message : Bytes)
  | buildError (message : Bytes)
  | assertion
  | badVariantAccess
  | undefinedBehaviour
  | outOfDepth
  deriving DecidableEq

/-- What stands between separators, without the empty tokens. -/
def tokenizeString (s separators : Bytes) : List Bytes :=
  (s.splitOnP fun byte => decide (byte ∈ separators)).filter fun token => token ≠ []

def whitespace : Bytes := ascii " \t\n\r"

theorem tokenize_single (s : Bytes) (separator : Byte) :
    tokenizeString s [separator] = (s.splitOn separator).filter fun token => token ≠ [] := by
  have same : (fun byte : Byte => decide (byte ∈ [separator])) = (· == separator) := by
    funext byte
    by_cases at_separator : byte = separator <;> simp [at_separator]
  rw [tokenizeString, same]
  rfl

def canonStep (result : List Bytes) (component : Bytes) : List Bytes :=
  if component = [] ∨ component = ascii "." then result
  else if component = ascii ".." then result.dropLast
  else result ++ [component]

def joinPath (components : List Bytes) : Bytes := components.flatMap fun component => 47 :: component

def renderPath (components : List Bytes) : Bytes :=
  if components = [] then ascii "/" else joinPath components

def canonComponents (path : Bytes) : List Bytes := (path.splitOn 47).foldl canonStep []

def canonPath (path : Bytes) : Except Failure Bytes :=
  match path with
  | [] => .error .assertion
  | first :: _ =>
    if first = 47 then .ok (renderPath (canonComponents path))
    else .error (.error (ascii "not an absolute path: " ++ quoted path))

def dirOf (path : Bytes) : Bytes :=
  match path.reverse.dropWhile (fun byte => byte ≠ 47) with
  | [] => ascii "."
  | _ :: front => if front = [] then ascii "/" else front.reverse

def baseNameOf (path : Bytes) : Bytes :=
  ((path.reverse.dropWhile fun byte => byte = 47).takeWhile fun byte => byte ≠ 47).reverse

def hasSuffix (text suffix : Bytes) : Bool := suffix.isSuffixOf text

/-- `splitPrefix`: the rest behind `front`, if the text begins with it. -/
def splitFront (text front : Bytes) : Option Bytes :=
  if front <+: text then some (text.drop front.length) else none

def splitPrefixTo (text : Bytes) (separator : Byte) : Option (Bytes × Bytes) :=
  if separator ∈ text then
    some (text.takeWhile (· ≠ separator), (text.dropWhile (· ≠ separator)).drop 1)
  else none

theorem split_prefix_to_marked {front : Bytes} {separator : Byte} (plain : separator ∉ front)
    (rest : Bytes) : splitPrefixTo (front ++ separator :: rest) separator = some (front, rest) := by
  have kept : ∀ byte ∈ front, decide (byte ≠ separator) = true := by
    intro byte member
    apply decide_eq_true
    intro same
    rw [same] at member
    exact plain member
  rw [splitPrefixTo, takeWhile_append_of_pos kept, dropWhile_append_of_pos kept]
  simp

def IsComponent (component : Bytes) : Prop :=
  component ≠ [] ∧ component ≠ ascii "." ∧ component ≠ ascii ".." ∧ (47 : Byte) ∉ component

variable {component : Bytes}

theorem is_component_of_length (long : 2 < component.length)
    (noSlash : (47 : Byte) ∉ component) : IsComponent component := by
  have differs : ∀ short : Bytes, short.length ≤ 2 → component ≠ short := by
    rintro short isShort rfl
    omega
  exact ⟨differs _ (by decide), differs _ (by decide), differs _ (by decide), noSlash⟩

theorem canon_step_component (plain : IsComponent component)
    (result : List Bytes) : canonStep result component = result ++ [component] := by
  rw [canonStep, if_neg (not_or.mpr ⟨plain.1, plain.2.1⟩), if_neg plain.2.2.1]

theorem canon_path_ok {path result : Bytes} (ran : canonPath path = .ok result) :
    ∃ rest, path = 47 :: rest ∧ result = renderPath (canonComponents path) := by
  cases path with
  | nil => cases ran
  | cons first rest =>
    rw [canonPath] at ran
    by_cases isSlash : first = 47
    · rw [if_pos isSlash] at ran
      rw [isSlash] at ran
      rw [isSlash]
      exact ⟨rest, rfl, (Except.ok.inj ran).symm⟩
    · rw [if_neg isSlash] at ran
      cases ran

theorem join_path_nil_iff (components : List Bytes) : joinPath components = [] ↔ components = [] := by
  cases components with
  | nil => exact iff_of_true rfl rfl
  | cons first rest => exact iff_of_false nofun nofun

theorem canon_components_slash (path more : Bytes) : canonComponents (path ++ 47 :: more) =
      (more.splitOn 47).foldl canonStep (canonComponents path) := by
  rw [canonComponents, splitOn_append_cons_self, foldl_append, ← canonComponents]

theorem render_path_snoc (components : List Bytes) (last : Bytes) :
    renderPath (components ++ [last]) = joinPath components ++ 47 :: last := by
  rw [renderPath, if_neg (append_ne_nil_of_right_ne_nil _ (cons_ne_nil _ _)),
    joinPath, flatMap_append, joinPath, flatMap_cons, flatMap_nil, append_nil]

variable {last : Bytes}

theorem render_path_snoc_ne (components : List Bytes) (nonempty : last ≠ []) :
    renderPath (components ++ [last]) ≠ renderPath components := by
  intro same
  have sizes := congrArg length same
  have positive := length_pos_iff.mpr nonempty
  rw [render_path_snoc, length_append, length_cons, renderPath] at sizes
  by_cases empty : components = []
  · rw [if_pos empty] at sizes
    change _ = 1 at sizes
    omega
  · rw [if_neg empty] at sizes
    omega

theorem drop_while_snoc (front : Bytes) (noSlash : (47 : Byte) ∉ last) :
    (front ++ 47 :: last).reverse.dropWhile (fun byte => byte ≠ 47) = 47 :: front.reverse := by
  have skipped : ∀ byte ∈ last.reverse, (decide (byte ≠ 47)) = true := by
    intro byte member
    apply decide_eq_true
    intro isSlash
    rw [isSlash] at member
    exact noSlash (mem_reverse.mp member)
  rw [reverse_append, reverse_cons, append_assoc, dropWhile_append_of_pos skipped]
  rfl

theorem dir_of_render (components : List Bytes) (noSlash : (47 : Byte) ∉ last) :
    dirOf (renderPath (components ++ [last])) = renderPath components := by
  rw [render_path_snoc, dirOf, drop_while_snoc _ noSlash]
  simp only [reverse_eq_nil_iff, reverse_reverse]
  rw [renderPath]
  by_cases empty : components = []
  · rw [if_pos ((join_path_nil_iff _).mpr empty), if_pos empty]
  · rw [if_neg fun nothing => empty ((join_path_nil_iff _).mp nothing), if_neg empty]

theorem base_name_of_render (components : List Bytes) (nonempty : last ≠ [])
    (noSlash : (47 : Byte) ∉ last) : baseNameOf (renderPath (components ++ [last])) = last := by
  have noneSlash : ∀ byte ∈ last.reverse, byte ≠ 47 := by
    intro byte member isSlash
    rw [isSlash] at member
    exact noSlash (mem_reverse.mp member)
  rw [render_path_snoc, baseNameOf, reverse_append, reverse_cons, append_assoc]
  rcases reversed : last.reverse with _ | ⟨first, rest⟩
  · exact absurd (reverse_eq_nil_iff.mp reversed) nonempty
  rw [reversed] at noneSlash
  have kept : ∀ byte ∈ first :: rest, (decide (byte ≠ 47)) = true := by
    intro byte member
    exact decide_eq_true (noneSlash byte member)
  rw [cons_append, dropWhile_cons_of_neg (by simpa using noneSlash first (by simp)),
    ← cons_append, takeWhile_append_of_pos kept]
  simp only [singleton_append, takeWhile_cons, ne_eq, not_true_eq_false, decide_false,
    Bool.false_eq_true, if_false, append_nil]
  rw [← reversed, reverse_reverse]

end Bsd.Util.FilePath
