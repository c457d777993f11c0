import Bsd.Lib.Occurrences

/-!
# Readers

A reader consumes a prefix of its input and may fail. The input is any state
with a byte string behind it: a plain string, or a stream that arrives in
fragments, whose byte string is their concatenation. `Reads` says that a reader
turns an encoding into a value whatever follows it, and `OnlyReads` what is known
of its successful runs on an encoding; `bind_ok` takes a successful run apart.
-/

namespace Bsd.Lib.Readers

open List Lib.Occurrences

abbrev Reader (State Failure Value : Type) := StateT State (Except Failure) Value

section Runs

variable {State Failure Value Result : Type}

theorem bind_eq (first : Reader State Failure Value) (next : Value → Reader State Failure Result)
    (state : State) :
    (first >>= next) state = match first state with
      | .ok (value, after) => next value after
      | .error failure => .error failure := by
  change (first state >>= fun pair => next pair.1 pair.2) = _
  cases first state <;> rfl

variable {state final : State} {result : Result} {first : Except Failure Value}
  {next : Value → Except Failure Result}

theorem except_bind_ok (ran : (first >>= next) = .ok result) :
    ∃ value, first = .ok value ∧ next value = .ok result := by
  cases first with
  | error failure => cases ran
  | ok value => exact ⟨value, rfl, ran⟩

theorem except_bind_ok_iff :
    (first >>= next) = .ok result ↔ ∃ value, first = .ok value ∧ next value = .ok result :=
  ⟨except_bind_ok, fun ⟨_, ran, rest⟩ => ran ▸ rest⟩

theorem map_ok_iff {wrap : Value → Result} :
    wrap <$> first = .ok result ↔ ∃ value, first = .ok value ∧ wrap value = result := by
  cases first <;> simp

theorem bind_ok {first : Reader State Failure Value} {next : Value → Reader State Failure Result}
    (ran : (first >>= next) state = .ok (result, final)) :
    ∃ value middle, first state = .ok (value, middle) ∧
      next value middle = .ok (result, final) := by
  change (first state >>= fun pair => next pair.1 pair.2) = _ at ran
  obtain ⟨pair, started, ran⟩ := except_bind_ok ran
  exact ⟨pair.1, pair.2, started, ran⟩

theorem pure_ok {value result : Value}
    (ran : (pure value : Reader State Failure Value) state = .ok (result, final)) :
    value = result ∧ state = final := by
  have same : (value, state) = (result, final) := Except.ok.inj ran
  exact Prod.mk.inj same

theorem throw_not_ok {failure : Failure} {result : Value} :
    (throw failure : Reader State Failure Value) state ≠ .ok (result, final) := by
  intro ran
  cases ran

variable {condition : Prop} [Decidable condition] {reader : Reader State Failure Value}
  {failure : Failure} {value : Value}

theorem ite_throw_ok (ran : (if condition then reader else throw failure) state =
    .ok (value, final)) : condition ∧ reader state = .ok (value, final) := by
  by_cases holds : condition
  · rw [if_pos holds] at ran
    exact ⟨holds, ran⟩
  · rw [if_neg holds] at ran
    exact absurd ran throw_not_ok

theorem throw_ite_ok (ran : (if condition then throw failure else reader) state =
    .ok (value, final)) : ¬condition ∧ reader state = .ok (value, final) := by
  rw [← ite_not] at ran
  exact ite_throw_ok ran

end Runs

variable {encoded more : Bytes}

section

variable {State Failure Value Result : Type} (view : State → Bytes)

/-- The reader turns `encoded` into `value`, whatever follows in the input. -/
def Reads (reader : Reader State Failure Value) (encoded : Bytes) (value : Value) : Prop :=
  ∀ state rest, view state = encoded ++ rest →
    ∃ final, reader state = .ok (value, final) ∧ view final = rest

variable {view}

theorem reads_pure (value : Value) :
    Reads view (pure value : Reader State Failure Value) [] value := by
  intro state rest input
  exact ⟨state, rfl, input⟩

variable {value : Value} {next : Value → Reader State Failure Result}
  {first : Reader State Failure Value} {result : Result}

theorem reads_bind (started : Reads view first encoded value)
    (continued : Reads view (next value) more result) :
    Reads view (first >>= next) (encoded ++ more) result := by
  intro state rest input
  rw [append_assoc] at input
  obtain ⟨middle, ran, remaining⟩ := started state (more ++ rest) input
  obtain ⟨final, finished, remains⟩ := continued middle rest remaining
  refine ⟨final, ?_, remains⟩
  rw [bind_eq, ran]
  exact finished

theorem reads_congr {reader : Reader State Failure Value} {same : Bytes}
    (reads : Reads view reader encoded value) (equal : encoded = same) :
    Reads view reader same value := by
  rw [← equal]
  exact reads

theorem reads_map (started : Reads view first encoded value)
    (continued : Reads view (next value) [] result) :
    Reads view (first >>= next) encoded result := by
  have both := reads_bind started continued
  rwa [append_nil] at both

/-- Two encodings that are read back as values with anything behind them are
equal together with what follows. -/
theorem reads_append_inj {reader : Reader Bytes Failure Value}
    {left right moreLeft moreRight : Bytes} {other : Value} (leftReads : Reads id reader left value)
    (rightReads : Reads id reader right other) (same : left ++ moreLeft = right ++ moreRight) :
    value = other ∧ moreLeft = moreRight := by
  obtain ⟨leftFinal, leftRan, leftRest⟩ := leftReads _ moreLeft rfl
  obtain ⟨rightFinal, rightRan, rightRest⟩ := rightReads _ moreRight rfl
  rw [same, rightRan] at leftRan
  have pair := Prod.mk.inj (Except.ok.inj leftRan)
  exact ⟨pair.1.symm, leftRest.symm.trans (pair.2.symm.trans rightRest)⟩

end

section Runs

variable {State Failure Value Result : Type} {view : State → Bytes} {stuck later : State → Prop}

/-- A successful run of the reader on `encoded` takes all of it and its value is
as described, unless it ends in a state that is stuck. -/
def OnlyReads (view : State → Bytes) (stuck : State → Prop) (reader : Reader State Failure Value)
    (encoded : Bytes) (described : Value → Prop) : Prop :=
  ∀ state rest value final, view state = encoded ++ rest → reader state = .ok (value, final) →
    (view final = rest ∧ described value) ∨ stuck final

def Rejects (stuck : State → Prop) (reader : Reader State Failure Value) : Prop :=
  ∀ state value final, stuck state → reader state ≠ .ok (value, final)

theorem rejects_nothing (reader : Reader State Failure Value) :
    Rejects (fun _ => False) reader := by
  intro state value final impossible
  exact impossible.elim

variable {next : Value → Reader State Failure Result} {first : Reader State Failure Value}

theorem Rejects.bind (rejects : Rejects stuck first) : Rejects stuck (first >>= next) := by
  intro state value final isStuck ran
  obtain ⟨middle, between, started, _⟩ := bind_ok ran
  exact rejects state middle between isStuck started

theorem only_reads_bind {middle : Value → Prop} {described : Result → Prop}
    (started : OnlyReads view stuck first encoded middle)
    (rejects : ∀ value, Rejects stuck (next value))
    (continued : ∀ value, middle value → OnlyReads view later (next value) more described) :
    OnlyReads view later (first >>= next) (encoded ++ more) described := by
  intro state rest value final input ran
  obtain ⟨between, after, firstRan, nextRan⟩ := bind_ok ran
  rw [append_assoc] at input
  rcases started state (more ++ rest) between after input firstRan with ⟨remaining, good⟩ | isStuck
  · exact continued between good after rest value final remaining nextRan
  · exact absurd nextRan (rejects between after value final isStuck)

variable {described : Value → Prop}

theorem only_reads_peel (started : OnlyReads view (fun _ => False) first encoded described)
    {state final : State} {value : Result} (input : view state = encoded ++ more)
    (ran : (first >>= next) state = .ok (value, final)) :
    ∃ result middle, view middle = more ∧ described result ∧
      next result middle = .ok (value, final) := by
  obtain ⟨result, middle, firstRan, nextRan⟩ := bind_ok ran
  rcases started state more result middle input firstRan with ⟨remaining, good⟩ | impossible
  · exact ⟨result, middle, remaining, good, nextRan⟩
  · exact impossible.elim

variable {value : Value} {reader : Reader State Failure Value}

theorem Reads.only (reads : Reads view reader encoded value) :
    OnlyReads view (fun _ => False) reader encoded (fun result => result = value) := by
  intro state rest result final input ran
  obtain ⟨other, otherRan, remaining⟩ := reads state rest input
  rw [otherRan] at ran
  obtain ⟨sameValue, sameFinal⟩ := Prod.mk.inj (Except.ok.inj ran)
  exact .inl ⟨sameFinal ▸ remaining, sameValue.symm⟩

theorem Reads.only_bind {described : Result → Prop} (reads : Reads view reader encoded value)
    (continued : OnlyReads view later (next value) more described) :
    OnlyReads view later (reader >>= next) (encoded ++ more) described := by
  refine only_reads_bind reads.only (fun _ => rejects_nothing _) ?_
  rintro _ rfl
  exact continued

theorem only_reads_pure (good : described value) :
    OnlyReads view stuck (pure value : Reader State Failure Value) [] described := by
  intro state rest result final input ran
  obtain ⟨rfl, rfl⟩ := pure_ok ran
  exact .inl ⟨input, good⟩

end Runs

section Fragments

variable {Failure : Type}

/-- Collect exactly `count` bytes from a fragmented stream. A single request
hands out at most the current fragment. -/
def fill (endOfInput : Failure) : Nat → Reader (List Bytes) Failure Bytes
  | 0, source => .ok ([], source)
  | _ + 1, [] => .error endOfInput
  | count + 1, fragment :: source =>
    if count + 1 ≤ fragment.length then
      .ok (fragment.take (count + 1), fragment.drop (count + 1) :: source)
    else
      match fill endOfInput (count + 1 - fragment.length) source with
      | .ok (rest, remaining) => .ok (fragment ++ rest, remaining)
      | .error failure => .error failure
termination_by _ source => source.length

theorem fill_reads (endOfInput : Failure) (bytes : Bytes) :
    Reads List.flatten (fill endOfInput bytes.length) bytes bytes := by
  intro source rest input
  induction source generalizing bytes with
  | nil =>
    obtain ⟨rfl, rfl⟩ := append_eq_nil_iff.mp input.symm
    exact ⟨[], by simp [fill], rfl⟩
  | cons fragment source ih =>
    cases bytes with
    | nil => exact ⟨fragment :: source, by simp [fill], input⟩
    | cons byte bytes =>
      rw [flatten_cons] at input
      rw [length_cons, fill]
      by_cases enough : bytes.length + 1 ≤ fragment.length
      · rw [if_pos enough]
        have front : fragment.take (bytes.length + 1) = byte :: bytes := by
          have taken := congrArg (take (bytes.length + 1)) input
          rw [take_append_of_le_length enough] at taken
          simpa using taken
        have back : fragment.drop (bytes.length + 1) ++ source.flatten = rest := by
          have dropped := congrArg (drop (bytes.length + 1)) input
          rw [drop_append_of_le_length enough] at dropped
          simpa using dropped
        exact ⟨_, by rw [front], by rw [flatten_cons, back]⟩
      · rw [if_neg enough]
        obtain ⟨tail, split, remaining⟩ : ∃ tail, byte :: bytes = fragment ++ tail ∧
            source.flatten = tail ++ rest := by
          rcases append_eq_append_iff.mp input with ⟨tail, left, right⟩ | ⟨tail, left, _⟩
          · exact ⟨tail, left, right⟩
          · have sizes := congrArg length left
            simp only [length_cons, length_append] at sizes
            omega
        have tailSize : bytes.length + 1 - fragment.length = tail.length := by
          have sizes := congrArg length split
          simp only [length_cons, length_append] at sizes
          omega
        obtain ⟨final, ran, remains⟩ := ih tail remaining
        refine ⟨final, ?_, remains⟩
        rw [tailSize, ran, split]

variable {endOfInput : Failure}

theorem fill_ok {count : Nat} {source final : List Bytes} {bytes : Bytes}
    (ran : fill endOfInput count source = .ok (bytes, final)) :
    bytes.length = count ∧ source.flatten = bytes ++ final.flatten := by
  fun_induction fill endOfInput count source generalizing bytes with
  | case1 =>
    cases ran
    exact ⟨rfl, rfl⟩
  | case2 => cases ran
  | case3 count fragment source enough =>
    cases ran
    refine ⟨length_take_of_le enough, ?_⟩
    rw [flatten_cons, flatten_cons, ← append_assoc, take_append_drop]
  | case4 count fragment source short rest remaining later ih =>
    cases ran
    obtain ⟨size, split⟩ := ih later
    constructor
    · rw [length_append]
      omega
    · rw [flatten_cons, split, append_assoc]
  | case5 => cases ran

end Fragments

end Bsd.Lib.Readers
