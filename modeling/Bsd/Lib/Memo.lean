import Mathlib.Data.Finset.Lattice.Fold
import Mathlib.Data.Set.Finite.Basic
import Bsd.Lib.OrdMap

/-!
# Memoised recursion

The body of a recursive function that may fail is a value of type `Calls`, which
asks for the results at other keys. It runs by plain recursion, or with a table of
the results found so far. A table that holds only results of the plain recursion
does not change any result.
-/

namespace Bsd.Lib.Memo

open Lib.OrdMap

/-- A computation that asks for answers at keys. -/
inductive Calls (Key Answer Failure Result : Type) where
  | done (result : Result)
  | fail (failure : Failure)
  | call (key : Key) (next : Answer → Calls Key Answer Failure Result)

namespace Calls

variable {Key Answer Failure Result Other : Type}

def bind : Calls Key Answer Failure Result → (Result → Calls Key Answer Failure Other) →
    Calls Key Answer Failure Other
  | .done result, further => further result
  | .fail failure, _ => .fail failure
  | .call key next, further => .call key fun answer => (next answer).bind further

instance : Monad (Calls Key Answer Failure) where
  pure := .done
  bind := bind

def ask (key : Key) : Calls Key Answer Failure Answer := .call key .done

def ofExcept : Except Failure Result → Calls Key Answer Failure Result
  | .ok result => .done result
  | .error failure => .fail failure

def eval (answer : Key → Except Failure Answer) :
    Calls Key Answer Failure Result → Except Failure Result
  | .done result => .ok result
  | .fail failure => .error failure
  | .call key next => do
      let value ← answer key
      (next value).eval answer

/-- The result if the answers come from a procedure that works on a table. A
failure keeps what is in the table by then. -/
def evalMemo {Table : Type} (answer : Key → Table → Except Failure Answer × Table) :
    Calls Key Answer Failure Result → Table → Except Failure Result × Table
  | .done result, table => (.ok result, table)
  | .fail failure, table => (.error failure, table)
  | .call key next, table =>
    match answer key table with
    | (.ok value, after) => (next value).evalMemo answer after
    | (.error failure, after) => (.error failure, after)

section

variable (answer : Key → Except Failure Answer)

include answer

theorem eval_bind (first : Calls Key Answer Failure Result)
    (next : Result → Calls Key Answer Failure Other) :
    (first >>= next).eval answer = first.eval answer >>= fun result => (next result).eval answer := by
  change (first.bind next).eval answer = _
  induction first with
  | done | fail => rfl
  | call key further ih =>
    rw [bind, eval, eval]
    cases answer key with
    | error failure => rfl
    | ok value => exact ih value

theorem eval_ask (key : Key) :
    (ask key : Calls Key Answer Failure Answer).eval answer = answer key := by
  rw [ask, eval]
  cases answer key with
  | error | ok => rfl

theorem eval_of_except (result : Except Failure Result) :
    (ofExcept result : Calls Key Answer Failure Result).eval answer = result := by
  cases result with
  | error | ok => rfl

end

variable {calls : Calls Key Answer Failure Result}

theorem eval_mono {some more : Key → Except Failure Answer}
    (extended : ∀ key value, some key = .ok value → more key = .ok value) {result : Result}
    (evaluated : calls.eval some = .ok result) : calls.eval more = .ok result := by
  induction calls with
  | done value => exact evaluated
  | fail failure => cases evaluated
  | call key next ih =>
    rw [eval] at evaluated ⊢
    cases answered : some key with
    | error failure =>
      rw [answered] at evaluated
      cases evaluated
    | ok value =>
      rw [answered] at evaluated
      rw [extended key value answered]
      exact ih value evaluated

def Asks (allowed : Key → Prop) : Calls Key Answer Failure Result → Prop
  | .done _ => True
  | .fail _ => True
  | .call key next => allowed key ∧ ∀ value, (next value).Asks allowed

variable {allowed : Key → Prop}

theorem asks_bind {first : Calls Key Answer Failure Result}
    {next : Result → Calls Key Answer Failure Other} (firstAsks : first.Asks allowed)
    (nextAsks : ∀ result, (next result).Asks allowed) : (first >>= next).Asks allowed := by
  induction first with
  | done result => exact nextAsks result
  | fail failure => exact trivial
  | call key further ih => exact ⟨firstAsks.1, fun value => ih value (firstAsks.2 value)⟩

theorem asks_ask {key : Key} (isAllowed : allowed key) :
    (ask key : Calls Key Answer Failure Answer).Asks allowed :=
  ⟨isAllowed, fun _ => trivial⟩

theorem asks_of_except (allowed : Key → Prop) (result : Except Failure Result) :
    (ofExcept result : Calls Key Answer Failure Result).Asks allowed := by
  cases result with
  | error | ok => exact trivial

theorem eval_congr {left right : Key → Except Failure Answer} (asks : calls.Asks allowed)
    (same : ∀ key, allowed key → left key = right key) : calls.eval left = calls.eval right := by
  induction calls with
  | done | fail => rfl
  | call key next ih =>
    rw [eval, eval, same key asks.1]
    cases right key with
    | error failure => rfl
    | ok value => exact ih value (asks.2 value)

theorem eval_memo_silent {Table : Type} (silent : calls.Asks fun _ => False)
    (answer : Key → Except Failure Answer) (memoised : Key → Table → Except Failure Answer × Table)
    (table : Table) : calls.evalMemo memoised table = (calls.eval answer, table) := by
  cases calls with
  | done | fail => rfl
  | call key next => exact silent.1.elim

end Calls

variable {depth : Nat}

section Recursion

variable {Key Answer Failure : Type} (exhausted : Failure)
  (body : Key → Calls Key Answer Failure Answer)

def plain : Nat → Key → Except Failure Answer
  | 0, _ => .error exhausted
  | depth + 1, key => (body key).eval (plain depth)

def Converges (key : Key) (answer : Answer) : Prop :=
  ∃ depth, plain exhausted body depth key = .ok answer

variable {exhausted body} {key : Key}

theorem plain_mono {deeper : Nat} (le : depth ≤ deeper) {answer : Answer}
    (ends : plain exhausted body depth key = .ok answer) :
    plain exhausted body deeper key = .ok answer := by
  induction depth generalizing deeper key answer with
  | zero => cases ends
  | succ depth ih =>
    cases deeper with
    | zero => omega
    | succ deeper =>
      exact Calls.eval_mono (fun _ _ answered => ih (by omega) answered) ends

theorem converges_unique {one two : Answer} (first : Converges exhausted body key one)
    (second : Converges exhausted body key two) : one = two := by
  obtain ⟨depth, ends⟩ := first
  obtain ⟨other, otherEnds⟩ := second
  have oneAbove := plain_mono (Nat.le_max_left depth other) ends
  have twoAbove := plain_mono (Nat.le_max_right depth other) otherEnds
  rw [oneAbove] at twoAbove
  exact Except.ok.inj twoAbove

variable {rank : Key → Nat}

section

variable (acyclic : ∀ key, (body key).Asks fun asked => rank asked < rank key)

include acyclic

theorem plain_stable {other : Nat} (enough : rank key < depth) (alsoEnough : rank key < other) :
    plain exhausted body depth key = plain exhausted body other key := by
  induction depth generalizing other key with
  | zero => cases enough
  | succ depth ih =>
    cases other with
    | zero => cases alsoEnough
    | succ other =>
      apply Calls.eval_congr (acyclic key)
      intro asked smaller
      exact ih (by omega) (by omega)

theorem eval_ok_iff {Result : Type}
    {calls : Calls Key Answer Failure Result} (enough : calls.Asks fun asked => rank asked < depth)
    (result : Result) : (∃ depth, calls.eval (plain exhausted body depth) = .ok result) ↔
      calls.eval (plain exhausted body depth) = .ok result := by
  constructor
  · intro ends
    obtain ⟨other, evaluated⟩ := ends
    rw [← Calls.eval_mono (fun _ _ => plain_mono (Nat.le_max_left other depth)) evaluated]
    apply Calls.eval_congr enough
    intro asked below
    exact plain_stable acyclic below (Nat.lt_of_lt_of_le below (Nat.le_max_right other depth))
  · intro evaluated
    exact ⟨depth, evaluated⟩

end

/-- A depth up to which the recursion is needed, where keys ask for finitely many
others and never in a circle. -/
theorem exists_rank {below : Key → Key → Prop} (founded : WellFounded below)
    (finite : ∀ key, Set.Finite fun other => below other key) :
    ∃ rank : Key → Nat, ∀ other key, below other key → rank other < rank key := by
  let rank : Key → Nat := founded.fix fun key rankBelow =>
    (finite key).toFinset.attach.sup fun other =>
      rankBelow other.val ((finite key).mem_toFinset.mp other.property) + 1
  have unfolded : ∀ key, rank key =
      (finite key).toFinset.attach.sup fun other => rank other.val + 1 := by
    intro key
    exact founded.fix_eq _ key
  refine ⟨rank, ?_⟩
  intro other key isBelow
  rw [unfolded key]
  have member : other ∈ (finite key).toFinset := (finite key).mem_toFinset.mpr isBelow
  exact Finset.le_sup (f := fun other => rank other.val + 1)
    (Finset.mem_attach (finite key).toFinset ⟨other, member⟩)

end Recursion

section Tables

variable {Key Answer Failure Result : Type} [LinearOrder Key] (exhausted : Failure)
  (body : Key → Calls Key Answer Failure Answer)

/-- Recursion that looks into a table first and enters what it finds out. -/
def memo : Nat → Key → SortedMap Key Answer → Except Failure Answer × SortedMap Key Answer
  | 0, _, table => (.error exhausted, table)
  | depth + 1, key, table =>
    match table.get key with
    | some answer => (.ok answer, table)
    | none =>
      match (body key).evalMemo (memo depth) table with
      | (.ok answer, after) => (.ok answer, after.assign key answer)
      | (.error failure, after) => (.error failure, after)

def Sound (table : SortedMap Key Answer) : Prop :=
  ∀ key answer, table.get key = some answer → Converges exhausted body key answer

variable {exhausted body}

theorem sound_empty : Sound exhausted body SortedMap.empty := by
  intro key answer found
  cases found

variable {table : SortedMap Key Answer}

theorem Sound.assign {key : Key} {answer : Answer} (sound : Sound exhausted body table)
    (ends : Converges exhausted body key answer) :
    Sound exhausted body (table.assign key answer) := by
  intro wanted found isFound
  rw [SortedMap.get_assign] at isFound
  split at isFound
  next same =>
    rw [same, ← Option.some.inj isFound]
    exact ends
  · exact sound wanted found isFound

/-- What a procedure on tables may do: keep the table sound and answer as the
recursion does. -/
def Faithful (exhausted : Failure) (body : Key → Calls Key Answer Failure Answer)
    (answer : Key → SortedMap Key Answer → Except Failure Answer × SortedMap Key Answer) : Prop :=
  ∀ key table, Sound exhausted body table → Sound exhausted body (answer key table).2 ∧
    ∀ value, (answer key table).1 = .ok value → Converges exhausted body key value

variable {answer : Key → SortedMap Key Answer → Except Failure Answer × SortedMap Key Answer}

theorem eval_memo_faithful (faithful : Faithful exhausted body answer)
    (calls : Calls Key Answer Failure Result) (table : SortedMap Key Answer)
    (sound : Sound exhausted body table) :
    Sound exhausted body (calls.evalMemo answer table).2 ∧
      ∀ result, (calls.evalMemo answer table).1 = .ok result →
        ∃ depth, calls.eval (plain exhausted body depth) = .ok result := by
  induction calls generalizing table with
  | done value => exact ⟨sound, fun result same => ⟨0, same⟩⟩
  | fail failure => exact ⟨sound, fun result impossible => nomatch impossible⟩
  | call key next ih =>
    obtain ⟨soundAfter, converges⟩ := faithful key table sound
    rw [Calls.evalMemo]
    cases answered : answer key table with
    | mk outcome after =>
      rw [answered] at soundAfter converges
      cases outcome with
      | error failure => exact ⟨soundAfter, fun result impossible => nomatch impossible⟩
      | ok value =>
        obtain ⟨soundEnd, evaluates⟩ := ih value after soundAfter
        refine ⟨soundEnd, ?_⟩
        intro result isResult
        obtain ⟨depth, evaluated⟩ := evaluates result isResult
        obtain ⟨other, answers⟩ := converges value rfl
        refine ⟨max depth other, ?_⟩
        rw [Calls.eval, plain_mono (Nat.le_max_right depth other) answers]
        exact Calls.eval_mono (fun _ _ => plain_mono (Nat.le_max_left depth other)) evaluated

theorem memo_faithful (depth : Nat) : Faithful exhausted body (memo exhausted body depth) := by
  induction depth with
  | zero =>
    intro key table sound
    exact ⟨sound, fun value impossible => nomatch impossible⟩
  | succ depth ih =>
    intro key table sound
    rw [memo]
    cases found : table.get key with
    | some answer =>
      refine ⟨sound, ?_⟩
      intro value same
      rw [← Except.ok.inj same]
      exact sound key answer found
    | none =>
      obtain ⟨soundAfter, evaluates⟩ := eval_memo_faithful ih (body key) table sound
      cases ran : (body key).evalMemo (memo exhausted body depth) table with
      | mk outcome after =>
        rw [ran] at soundAfter evaluates
        cases outcome with
        | error failure => exact ⟨soundAfter, fun value impossible => nomatch impossible⟩
        | ok answer =>
          obtain ⟨reached, evaluated⟩ := evaluates answer rfl
          have ends : Converges exhausted body key answer := ⟨reached + 1, evaluated⟩
          refine ⟨soundAfter.assign ends, ?_⟩
          intro value same
          rw [← Except.ok.inj same]
          exact ends

def Finds (exhausted : Failure) (body : Key → Calls Key Answer Failure Answer) (depth : Nat)
    (answer : Key → SortedMap Key Answer → Except Failure Answer × SortedMap Key Answer) : Prop :=
  ∀ key table value, Sound exhausted body table →
    plain exhausted body depth key = .ok value → (answer key table).1 = .ok value

theorem eval_memo_finds (faithful : Faithful exhausted body answer)
    (finds : Finds exhausted body depth answer) (calls : Calls Key Answer Failure Result)
    (table : SortedMap Key Answer) (sound : Sound exhausted body table) {result : Result}
    (evaluated : calls.eval (plain exhausted body depth) = .ok result) :
    (calls.evalMemo answer table).1 = .ok result := by
  induction calls generalizing table with
  | done value => exact evaluated
  | fail failure => cases evaluated
  | call key next ih =>
    rw [Calls.eval] at evaluated
    cases answered : plain exhausted body depth key with
    | error failure =>
      rw [answered] at evaluated
      cases evaluated
    | ok value =>
      rw [answered] at evaluated
      have found := finds key table value sound answered
      have soundAfter := (faithful key table sound).1
      rw [Calls.evalMemo]
      cases ran : answer key table with
      | mk outcome after =>
        rw [ran] at found soundAfter
        change outcome = .ok value at found
        rw [found]
        exact ih value after soundAfter evaluated

theorem memo_finds (depth : Nat) : Finds exhausted body depth (memo exhausted body depth) := by
  induction depth with
  | zero =>
    intro key table value _ impossible
    cases impossible
  | succ depth ih =>
    intro key table value sound ends
    rw [memo]
    cases found : table.get key with
    | some answer =>
      have same := converges_unique (sound key answer found) ⟨depth + 1, ends⟩
      rw [same]
    | none =>
      have ran := eval_memo_finds (memo_faithful depth) ih (body key) table sound ends
      cases outcome : (body key).evalMemo (memo exhausted body depth) table with
      | mk answered after =>
        rw [outcome] at ran
        change answered = .ok value at ran
        rw [ran]

end Tables

end Bsd.Lib.Memo
