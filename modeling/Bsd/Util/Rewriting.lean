import Mathlib.Data.List.Fold
import Mathlib.Data.List.MinMax
import Bsd.Lib.Blanking
import Bsd.Util.Hashes

/-!
# Streaming rewrites and hashes modulo a self-reference

`rewriteStrings` replaces strings, one after the other. `RewritingSink` replaces strings in a
stream by strings of the same size and keeps back enough of the output for an occurrence to be
completed by the next fragment: what comes out is the rewritten stream if the strings do not
disturb each other. `HashModuloSink` uses it to blank a hash part, and then appends the positions
in `RewritingSink::matches`. No code writes that vector, so what is hashed is the blanked stream
alone.
-/

namespace Bsd.Util.Rewriting

open List Lib.Occurrences Lib.Blanking Lib.Replacement Util.FilePath Util.Hashes

/-- `std::string::find`: the first occurrence of `needle` at or after `j`. -/
def find (s needle : Bytes) (j : Nat) : Option Nat :=
  (List.range' j (s.length + 1 - j)).find? fun k => OccursAt needle s k

/-- The `while` loop of `rewriteStrings`, which looks again where it has just replaced. It
does not end if the new string has the old one in it, hence the bound on its rounds. -/
def replaceLoop (old new : Bytes) : Nat → Bytes → Nat → Except Failure Bytes
  | 0, _, _ => .error .outOfDepth
  | rounds + 1, s, j =>
    match find s old j with
    | none => .ok s
    | some k => replaceLoop old new rounds (s.take k ++ new ++ s.drop (k + old.length)) k

def rewriteStrings (rounds : Nat) (rewrites : List (Bytes × Bytes)) (s : Bytes) :
    Except Failure Bytes :=
  rewrites.foldlM
    (fun s rewrite =>
      if rewrite.1 = rewrite.2 then .ok s else replaceLoop rewrite.1 rewrite.2 rounds s 0)
    s

/-- `rewriteStrings` where all strings keep their size: `rewrite_strings_run` shows that
`s.length + 1` rounds are enough then. -/
def rewritten (rewrites : List (Bytes × Bytes)) (s : Bytes) : Bytes :=
  match rewriteStrings (s.length + 1) rewrites s with
  | .ok text => text
  | .error _ => s

structure RewritingSink where
  rewrites : List (Bytes × Bytes)
  maxRewriteSize : Nat
  prev : Bytes
  written : Bytes
  pos : Nat
  «matches» : List Nat

/-- The constructor asserts that a rewrite keeps the size. -/
def RewritingSink.new (rewrites : List (Bytes × Bytes)) : Option RewritingSink :=
  if ∀ rewrite ∈ rewrites, rewrite.1.length = rewrite.2.length then
    some
      { rewrites := rewrites
        maxRewriteSize := (rewrites.map fun rewrite => rewrite.1.length).foldl max 0
        prev := []
        written := []
        pos := 0
        «matches» := [] }
  else none

def kept (size : Nat) (s : Bytes) : Bytes :=
  if s.length < size then s
  else if size = 0 then []
  else s.drop (s.length - size + 1)

def RewritingSink.feed (sink : RewritingSink) (data : Bytes) : RewritingSink :=
  let s := rewritten sink.rewrites (sink.prev ++ data)
  let prev := kept sink.maxRewriteSize s
  let consumed := s.length - prev.length
  { sink with
    prev := prev
    pos := sink.pos + consumed
    written := sink.written ++ s.take consumed }

def RewritingSink.flush (sink : RewritingSink) : RewritingSink :=
  { sink with
    prev := []
    pos := sink.pos + sink.prev.length
    written := sink.written ++ sink.prev }

open RewritingSink

variable {s needle : Bytes}

theorem find_none {j : Nat} (nonempty : needle ≠ [])
    (missing : find s needle j = none) : ∀ k, j ≤ k → ¬ OccursAt needle s k := by
  intro k lower occurs
  have bound := occurs_at_bound occurs nonempty
  have checked := find?_eq_none.mp missing k
    (mem_range'_1.mpr ⟨lower, by omega⟩)
  simp [occurs] at checked

theorem find_some {j k : Nat} (found : find s needle j = some k) :
    j ≤ k ∧ OccursAt needle s k ∧ ∀ i, j ≤ i → i < k → ¬ OccursAt needle s i := by
  obtain ⟨occurs, before, after, split, earlier⟩ := find?_eq_some_iff_append.mp found
  have inRange : k ∈ range' j (s.length + 1 - j) := by
    rw [split]
    simp
  rw [mem_range'_1] at inRange
  refine ⟨inRange.1, by simpa using occurs, ?_⟩
  intro i lower upper
  have member : i ∈ before := by
    have listed : i ∈ range' j (s.length + 1 - j) :=
      mem_range'_1.mpr ⟨lower, by omega⟩
    rw [split, mem_append, mem_cons] at listed
    have sorted : (before ++ k :: after).Pairwise (· < ·) := by
      rw [← split]
      exact pairwise_lt_range'
    rw [pairwise_append, pairwise_cons] at sorted
    rcases listed with member | same | later
    · exact member
    · omega
    · have larger := sorted.2.1.1 i later
      omega
  simpa using earlier i member

section Steps

variable {rewrites : List (Bytes × Bytes)}

/-- From `j` on, the loop replaces wherever the string occurs, place after place. No occurrence
begins between `j` and `i`: after a replacement the loop looks at the same place again, in vain. -/
theorem replace_loop_run {rewrite : Bytes × Bytes} (size : rewrite.1.length = rewrite.2.length)
    (differ : rewrite.1 ≠ rewrite.2) (rounds : Nat) (s : Bytes) (j i : Nat) (bound : i ≤ s.length)
    (enough : s.length - i < rounds) (noStart : ∀ k, j ≤ k → k < i → ¬OccursAt rewrite.1 s k)
    (order : j ≤ i) :
    replaceLoop rewrite.1 rewrite.2 rounds s j = .ok (run (places i s.length rewrite) s) := by
  have nonempty : rewrite.1 ≠ [] := by
    intro empty
    rw [empty, length_nil] at size
    exact differ (empty.trans (length_eq_zero_iff.mp size.symm).symm)
  induction rounds generalizing s j i with
  | zero => omega
  | succ rounds ih =>
    rw [replaceLoop]
    cases found : find s rewrite.1 j with
    | none =>
      rw [run_idle]
      intro step member
      obtain ⟨same, lower, -⟩ := mem_places.mp member
      rw [same]
      exact find_none nonempty found step.2 (order.trans lower)
    | some k =>
      obtain ⟨lower, occurs, first⟩ := find_some found
      have after : i ≤ k := by
        by_contra before
        exact noStart k lower (by omega) occurs
      have fits := occurs_at_bound occurs nonempty
      have positive := length_pos_iff.mpr nonempty
      have replaced : s.take k ++ rewrite.2 ++ s.drop (k + rewrite.1.length) =
          replaceAt rewrite k s := by
        rw [replaceAt, if_pos occurs]
      have sameSize : (replaceAt rewrite k s).length = s.length := replace_at_length size
      have inVain : ∀ p, k ≤ p → p < k + 1 → ¬OccursAt rewrite.1 (replaceAt rewrite k s) p := by
        intro p lowerP upperP
        have here : p = k := by omega
        rw [here]
        exact not_occurs_replaced size differ
      have next := ih (replaceAt rewrite k s) k (k + 1) (by omega) (by omega) inVain (Nat.le_succ k)
      have earlier : run (places i s.length rewrite) s = run (places k s.length rewrite) s :=
        run_places_skip nonempty after fun place lowerP upperP => first place (by omega) upperP
      dsimp only
      rw [replaced, next, sameSize, earlier, run_places_succ nonempty]

def effective (rewrites : List (Bytes × Bytes)) : List (Bytes × Bytes) :=
  rewrites.filter fun rewrite => rewrite.1 ≠ rewrite.2

theorem mem_effective {rewrite : Bytes × Bytes} :
    rewrite ∈ effective rewrites ↔ rewrite ∈ rewrites ∧ rewrite.1 ≠ rewrite.2 := by
  simp [effective]

theorem rewrite_strings_run (sizes : ∀ rewrite ∈ rewrites, rewrite.1.length = rewrite.2.length)
    {rounds : Nat} (s : Bytes) (enough : s.length < rounds) :
    rewriteStrings rounds rewrites s = .ok (run (allPlaces 0 s.length (effective rewrites)) s) := by
  induction rewrites generalizing s with
  | nil => rfl
  | cons rewrite rewrites ih =>
    rw [forall_mem_cons] at sizes
    rw [rewriteStrings, foldlM_cons]
    by_cases same : rewrite.1 = rewrite.2
    · have skipped : effective (rewrite :: rewrites) = effective rewrites := by
        simp [effective, same]
      rw [if_pos same, skipped]
      exact ih sizes.2 s enough
    · have loop := replace_loop_run sizes.1 same rounds s 0 0 (Nat.zero_le _) (by omega)
        (by intro k _ upper; omega) (le_refl 0)
      have taken : effective (rewrite :: rewrites) = rewrite :: effective rewrites := by
        simp [effective, same]
      have sameSize : (run (places 0 s.length rewrite) s).length = s.length := by
        apply run_length
        intro step member
        rw [(mem_places.mp member).1]
        exact sizes.1
      have rest := ih sizes.2 (run (places 0 s.length rewrite) s) (by rwa [sameSize])
      rw [sameSize] at rest
      rw [if_neg same, loop, taken, allPlaces, flatMap_cons, run_append]
      exact rest

variable (sizes : ∀ rewrite ∈ rewrites, rewrite.1.length = rewrite.2.length)

include sizes

theorem rewritten_run (s : Bytes) :
    rewritten rewrites s = run (allPlaces 0 s.length (effective rewrites)) s := by
  rw [rewritten, rewrite_strings_run sizes s (Nat.lt_succ_self _)]

theorem rewrite_strings_rewritten (s : Bytes) :
    rewriteStrings (s.length + 1) rewrites s = .ok (rewritten rewrites s) := by
  rw [rewritten, rewrite_strings_run sizes s (Nat.lt_succ_self _)]

theorem effective_sizes : ∀ rewrite ∈ effective rewrites, rewrite.1.length = rewrite.2.length :=
  fun rewrite member => sizes rewrite (mem_effective.mp member).1

theorem rewritten_length (s : Bytes) : (rewritten rewrites s).length = s.length := by
  rw [rewritten_run sizes]
  apply run_length
  intro step member
  exact effective_sizes sizes _ (mem_all_places.mp member).1

end Steps

def emitted (size : Nat) (s : Bytes) : Bytes :=
  s.take (s.length - (kept size s).length)

theorem emitted_append_kept (size : Nat) (s : Bytes) : emitted size s ++ kept size s = s := by
  have suffix : kept size s <:+ s := by
    unfold kept
    split
    · exact suffix_rfl
    split
    · exact nil_suffix
    · exact drop_suffix _ s
  calc emitted size s ++ kept size s
      = s.take (s.length - (kept size s).length) ++ s.drop (s.length - (kept size s).length) := by
        rw [← suffix_iff_eq_drop.mp suffix, emitted]
    _ = s := take_append_drop _ s

theorem emitted_length {size : Nat} (positive : 0 < size) (s : Bytes) :
    (emitted size s).length = s.length + 1 - size := by
  have whole := congrArg length (emitted_append_kept size s)
  rw [length_append] at whole
  have back : (kept size s).length = min s.length (size - 1) := by
    unfold kept
    split
    · omega
    · rw [if_neg (by omega), length_drop]
      omega
  omega

/-- Rewriting can go on from what is kept back of any rewritten text. -/
def Resumable (rewrites : List (Bytes × Bytes)) (size : Nat) : Prop :=
  ∀ s data, rewritten rewrites (s ++ data) = emitted size (rewritten rewrites s) ++
      rewritten rewrites (kept size (rewritten rewrites s) ++ data)

theorem all_places_shifted {low size : Nat} (le : low ≤ size) (rules : List (Bytes × Bytes)) :
    (allPlaces 0 (size - low) rules).map (shifted low) = allPlaces low size rules := by
  rw [allPlaces, allPlaces, map_flatMap]
  congr 1
  funext rule
  have count : size - low + 1 - rule.1.length - 0 = size + 1 - rule.1.length - low := by
    omega
  rw [places, places, map_map, count, range'_eq_map_range, range'_eq_map_range, map_map, map_map]
  simp [Function.comp_def, shifted]

theorem resumable_of_undisturbed {rewrites : List (Bytes × Bytes)} {width : Nat}
    (sizes : ∀ rewrite ∈ rewrites, rewrite.1.length = rewrite.2.length)
    (narrow : ∀ rewrite ∈ rewrites, rewrite.1.length ≤ width)
    (undisturbed : Undisturbed (effective rewrites) width) : Resumable rewrites width := by
  intro s data
  have keeps := effective_sizes sizes
  by_cases positive : 0 < width
  · have front := emitted_length positive (rewritten rewrites s)
    rw [rewritten_length sizes] at front
    have whole := emitted_append_kept width (rewritten rewrites s)
    have total : (kept width (rewritten rewrites s) ++ data).length =
        (s ++ data).length - (emitted width (rewritten rewrites s)).length := by
      have size := congrArg length whole
      rw [length_append, rewritten_length sizes] at size
      rw [length_append, length_append]
      omega
    have done : run (allPlaces 0 s.length (effective rewrites)) (s ++ data) =
        rewritten rewrites s ++ data := by
      rw [rewritten_run sizes]
      apply run_append_left
      · intro step member
        exact keeps _ (mem_all_places.mp member).1
      · intro step member
        exact Nat.le_of_lt_succ (mem_all_places.mp member).2.2
    rw [rewritten_run sizes (s ++ data), rewritten_run sizes (kept width (rewritten rewrites s) ++ data),
      ← run_append_right, total, all_places_shifted (by rw [front, length_append]; omega), front,
      ← append_assoc, whole, ← done]
    refine (run_resumed undisturbed keeps ?_ ?_ (by rw [length_append]; omega)).symm
    · intro rewrite member
      exact (mem_effective.mp member).2
    · intro rewrite member
      exact narrow rewrite (mem_effective.mp member).1
  · -- no string is long enough to be replaced
    have none : effective rewrites = [] := by
      apply filter_eq_nil_iff.mpr
      intro rewrite member
      have empty := narrow rewrite member
      have same := sizes rewrite member
      have both : rewrite.1 = rewrite.2 := by
        rw [length_eq_zero_iff.mp (by omega : rewrite.1.length = 0),
          length_eq_zero_iff.mp (by omega : rewrite.2.length = 0)]
      simp [both]
    have idle : ∀ s, rewritten rewrites s = s := by
      intro s
      rw [rewritten_run sizes, none]
      rfl
    rw [idle, idle, idle, ← append_assoc, emitted_append_kept]

/-- The sink after the bytes `stream`: its output so far is right, and stays so. -/
structure Resumes (rewrites : List (Bytes × Bytes)) (stream : Bytes) (sink : RewritingSink) :
    Prop where
  rewrites_eq : sink.rewrites = rewrites
  output : sink.written ++ sink.prev = rewritten rewrites stream
  goes_on : ∀ data, sink.written ++ rewritten rewrites (sink.prev ++ data) =
    rewritten rewrites (stream ++ data)

section Streaming

variable {rewrites : List (Bytes × Bytes)} {sink : RewritingSink}

theorem feed_written (sink : RewritingSink) (data : Bytes) :
    (sink.feed data).written = sink.written ++
      emitted sink.maxRewriteSize (rewritten sink.rewrites (sink.prev ++ data)) := rfl

theorem feed_prev (sink : RewritingSink) (data : Bytes) : (sink.feed data).prev =
      kept sink.maxRewriteSize (rewritten sink.rewrites (sink.prev ++ data)) := rfl

theorem feed_output (sink : RewritingSink) (data : Bytes) :
    (sink.feed data).written ++ (sink.feed data).prev =
      sink.written ++ rewritten sink.rewrites (sink.prev ++ data) := by
  rw [feed_written, feed_prev, append_assoc, emitted_append_kept]

variable {stream : Bytes}

theorem feed_resumes (resumable : Resumable rewrites sink.maxRewriteSize)
    (state : Resumes rewrites stream sink) (data : Bytes) :
    Resumes rewrites (stream ++ data) (sink.feed data) where
  rewrites_eq := state.rewrites_eq
  output := by rw [feed_output, state.rewrites_eq, state.goes_on]
  goes_on := by
    intro more
    rw [feed_written, feed_prev, state.rewrites_eq, append_assoc, ← resumable,
      append_assoc, state.goes_on, append_assoc]

theorem run_resumes (chunks : List Bytes) (resumable : Resumable rewrites sink.maxRewriteSize)
    (state : Resumes rewrites stream sink) :
    Resumes rewrites (stream ++ chunks.flatten) (chunks.foldl feed sink) := by
  induction chunks generalizing sink stream with
  | nil => simpa using state
  | cons data chunks ih =>
    have next := ih (by exact resumable)
      (feed_resumes resumable state data)
    simpa using next

/-- However a stream is cut, the sink writes what `rewriteStrings` makes of the whole. -/
def Streams (rewrites : List (Bytes × Bytes)) (sink : RewritingSink) : Prop :=
  ∀ chunks : List Bytes, rewriteStrings (chunks.flatten.length + 1) rewrites chunks.flatten =
    .ok (chunks.foldl RewritingSink.feed sink).flush.written

structure Started (rewrites : List (Bytes × Bytes)) (sink : RewritingSink) : Prop where
  sizes : ∀ rewrite ∈ rewrites, rewrite.1.length = rewrite.2.length
  rewrites_eq : sink.rewrites = rewrites
  prev : sink.prev = []
  written : sink.written = []
  narrow : ∀ rewrite ∈ rewrites, rewrite.1.length ≤ sink.maxRewriteSize

theorem new_started (accepted : RewritingSink.new rewrites = some sink) : Started rewrites sink := by
  unfold RewritingSink.new at accepted
  split at accepted
  next sizes =>
    cases accepted
    refine ⟨sizes, rfl, rfl, rfl, ?_⟩
    intro rewrite member
    have among : rewrite.1.length ∈ rewrites.map fun rewrite => rewrite.1.length :=
      mem_map_of_mem member
    dsimp only
    rw [foldl_eq_foldr]
    exact le_max_of_le' 0 among le_rfl
  next => cases accepted

theorem Started.streams_iff (started : Started rewrites sink) :
    Streams rewrites sink ↔ Resumable rewrites sink.maxRewriteSize := by
  have whole : Streams rewrites sink ↔ ∀ chunks : List Bytes,
      (chunks.foldl RewritingSink.feed sink).flush.written = rewritten rewrites chunks.flatten := by
    refine forall_congr' fun chunks => ?_
    rw [rewrite_strings_rewritten started.sizes, Except.ok.injEq, eq_comm]
  rw [whole]
  constructor
  · intro streamed s data
    have two := streamed [s, data]
    have sameStill : (sink.feed s).rewrites = rewrites := started.rewrites_eq
    simp only [foldl_cons, foldl_nil, RewritingSink.flush] at two
    rw [feed_output, feed_written, feed_prev, sameStill, started.rewrites_eq, started.prev,
      started.written] at two
    simpa using two.symm
  · intro resumable chunks
    have start : Resumes rewrites [] sink := by
      refine ⟨started.rewrites_eq, ?_, ?_⟩
      · rw [started.prev, started.written]
        exact (length_eq_zero_iff.mp (rewritten_length started.sizes [])).symm
      · simp [started.prev, started.written]
    exact (run_resumes chunks resumable start).output

theorem streams_of_undisturbed (accepted : RewritingSink.new rewrites = some sink)
    (undisturbed : Undisturbed (effective rewrites) sink.maxRewriteSize) : Streams rewrites sink := by
  have started := new_started accepted
  exact started.streams_iff.mpr (resumable_of_undisturbed started.sizes started.narrow undisturbed)

/-- If the rewrites do not disturb each other, a stream is rewritten as a whole, however it is
cut. For keys of one size that agree nowhere with a value, and values that begin with another
byte than their keys, this is the only way: where a later key runs into an earlier one, the sink
has replaced the later one before the earlier one is complete. -/
theorem streams_iff_undisturbed (accepted : RewritingSink.new rewrites = some sink)
    (distinct : (rewrites.map Prod.fst).Nodup) :
    (Undisturbed (effective rewrites) sink.maxRewriteSize → Streams rewrites sink) ∧
    (Plain rewrites sink.maxRewriteSize →
      (Streams rewrites sink ↔ Undisturbed (effective rewrites) sink.maxRewriteSize)) := by
  have sufficient := streams_of_undisturbed accepted
  refine ⟨sufficient, fun plain => ⟨fun streams => ?_, sufficient⟩⟩
  have started := new_started accepted
  have resumable := started.streams_iff.mp streams
  have all : effective rewrites = rewrites := by
    apply filter_eq_self.mpr
    intro rewrite member
    refine decide_eq_true fun same => plain.head rewrite member (by rw [same])
  rw [all]
  refine plain.undisturbed ?_
  rw [pairwise_iff_getElem]
  intro early late earlyBound lateBound order start other endsFirst meets
  have isFirst := getElem_mem earlyBound
  have isSecond := getElem_mem lateBound
  have split : rewrites = rewrites.take early ++ rewrites[early] :: rewrites.drop (early + 1) := by
    rw [getElem_cons_drop, take_append_drop]
  have behind : rewrites[late] ∈ rewrites.drop (early + 1) :=
    mem_drop_iff_getElem.mpr ⟨late - (early + 1), by omega, by congr 1; omega⟩
  generalize rewrites[early] = first at *
  generalize rewrites[late] = second at *
  have size := plain.old first isFirst
  have sameSize := plain.old second isSecond
  obtain ⟨shift, rfl⟩ := Nat.exists_eq_add_of_le (show other ≤ start by omega)
  have near : other + shift < other + second.1.length := meets.2.1
  have positive : 0 < sink.maxRewriteSize := by omega
  have overlaps := meets.occurs (sameSize.trans size.symm)
  let more := first.1.drop (second.1.length - shift)
  have short : (second.1 ++ more).length < 2 * sink.maxRewriteSize := by
    rw [length_append, length_drop]
    omega
  -- as a whole the later key is not replaced; the sink has replaced it before it saw the rest
  have whole := plain.overlap_head positive distinct split behind short overlaps
  have cut := resumable second.1 more
  have isNew := plain.run_old positive distinct isSecond
  have began : rewritten rewrites second.1 = second.2 := by
    rw [rewritten_run started.sizes, all, sameSize, isNew]
  rw [rewritten_run started.sizes (second.1 ++ more), all] at cut
  rw [cut, began] at whole
  have one := emitted_length positive second.2
  rw [plain.new second isSecond, Nat.add_sub_cancel_left] at one
  have nonempty : emitted sink.maxRewriteSize second.2 ≠ [] := length_pos_iff.mp (by omega)
  have sameHead : second.2.head? = (emitted sink.maxRewriteSize second.2).head? := by
    rw [← emitted_append_kept sink.maxRewriteSize second.2, head?_append_of_ne_nil _ nonempty,
      emitted_append_kept]
  rw [head?_append_of_ne_nil _ nonempty, ← sameHead] at whole
  exact plain.head second isSecond whole.symm

def twoRewrites : List (Bytes × Bytes) :=
  [(ascii "ab", ascii "xy"), (ascii "cd", ascii "zw")]

theorem two_rewrites_plain : Plain twoRewrites 2 := by
  refine ⟨by decide +kernel, by decide +kernel, ?_, by decide +kernel⟩
  have disjoint : ∀ rewrite ∈ twoRewrites, ∀ other ∈ twoRewrites,
      rewrite.1 ≠ [] ∧ other.2 ≠ [] ∧ ∀ byte ∈ rewrite.1, byte ∉ other.2 := by
    decide +kernel
  intro rewrite member other otherMember
  obtain ⟨nonempty, otherNonempty, apart⟩ := disjoint rewrite member other otherMember
  exact not_meets_of_disjoint nonempty otherNonempty apart

theorem streams_iff_undisturbed_two : ∃ sink, RewritingSink.new twoRewrites = some sink ∧
      Streams twoRewrites sink ∧
      ([ascii "xa", ascii "bc", ascii "d"].foldl RewritingSink.feed sink).flush.written =
        ascii "xxyzw" := by
  refine ⟨_, rfl, ?_, by decide +kernel⟩
  refine ((streams_iff_undisturbed rfl (by decide +kernel)).2 two_rewrites_plain).mpr ?_
  refine two_rewrites_plain.undisturbed ?_
  refine pairwise_pair.mpr fun start other _ => ?_
  exact not_meets_of_disjoint (by decide +kernel) (by decide +kernel) (by decide +kernel) other start

/-- `ab` and `ba` overlap: `bab` becomes `bxy` as a whole, but `zwb` if it is cut after `ba`. -/
theorem overlapping_keys_cut :
    ((RewritingSink.new [(ascii "ab", ascii "xy"), (ascii "ba", ascii "zw")]).map fun sink =>
        ([ascii "ba", ascii "b"].foldl RewritingSink.feed sink).flush.written) =
          some (ascii "zwb") ∧
      (rewriteStrings 4 [(ascii "ab", ascii "xy"), (ascii "ba", ascii "zw")] (ascii "bab")).toOption =
        some (ascii "bxy") := by
  decide +kernel

end Streaming

/-- The rewriter behind `HashModuloSink`: the modulus becomes zero bytes. -/
def modulusRewriter (modulus : Bytes) : RewritingSink where
  rewrites := [(modulus, List.replicate modulus.length 0)]
  maxRewriteSize := modulus.length
  prev := []
  written := []
  pos := 0
  «matches» := []

theorem modulus_rewriter_new (modulus : Bytes) : new [(modulus, List.replicate modulus.length 0)] =
      some (modulusRewriter modulus) := by
  simp [new, modulusRewriter]

def positionMark (pos : Nat) : Bytes := ascii "|" ++ ascii (toString pos)

/-- Everything `HashModuloSink` feeds to its hash sink: the rewritten stream, the
flushed rest, then the recorded positions. -/
def preimage (modulus : Bytes) (chunks : List Bytes) : Bytes :=
  let sink := (chunks.foldl RewritingSink.feed (modulusRewriter modulus)).flush
  sink.written ++ sink.matches.flatMap positionMark

/-- Moduli: 32 base-32 characters. -/
structure IsModulus (modulus : Bytes) : Prop where
  size : modulus.length = 32
  base32 : ∀ character ∈ modulus, isBase32 character = true

variable {modulus : Bytes}

theorem IsModulus.nonempty (isModulus : IsModulus modulus) : modulus ≠ [] := by
  rintro rfl
  have size := isModulus.size
  simp at size

theorem IsModulus.no_zero (isModulus : IsModulus modulus) : (0 : Byte) ∉ modulus := by
  intro member
  have base32 := isModulus.base32 0 member
  rw [zero_not_base32] at base32
  exact Bool.noConfusion base32

/-- The one rewrite of a modulus disturbs none, and what is written is the blanked stream. -/
theorem modulus_streamed (isModulus : IsModulus modulus) (chunks : List Bytes) :
    (chunks.foldl feed (modulusRewriter modulus)).flush.written =
      blank 0 modulus chunks.flatten := by
  have effectiveOne :
      effective [(modulus, replicate modulus.length 0)] = [blankRule 0 modulus] :=
    filter_eq_self.mpr fun rewrite member => by
      rw [mem_singleton.mp member]
      exact decide_eq_true (blank_rule_differs isModulus.nonempty isModulus.no_zero)
  have undisturbed : Undisturbed (effective [(modulus, replicate modulus.length 0)])
      modulus.length := by
    rw [effectiveOne]
    refine ⟨pairwise_singleton _ _, ?_, pairwise_singleton _ _⟩
    intro rule member short
    rw [mem_singleton.mp member] at short
    exact absurd short (lt_irrefl _)
  have streams := streams_of_undisturbed (modulus_rewriter_new modulus) undisturbed chunks
  rw [rewrite_strings_run (by simp) _ (Nat.lt_succ_self _)] at streams
  rw [blank_eq_run isModulus.nonempty isModulus.no_zero, ← Except.ok.inj streams, effectiveOne,
    allPlaces, flatMap_singleton]

theorem run_matches (sink : RewritingSink) (chunks : List Bytes) :
    (chunks.foldl feed sink).matches = sink.matches := by
  induction chunks generalizing sink with
  | nil => rfl
  | cons data chunks ih => exact ih (sink.feed data)

/-- The preimage is the blanked stream, for every cutting into fragments. -/
theorem preimage_eq_blank (modulus : Bytes) (isModulus : IsModulus modulus) (chunks : List Bytes) :
    preimage modulus chunks = blank 0 modulus chunks.flatten := by
  have none : (chunks.foldl feed (modulusRewriter modulus)).flush.matches = [] :=
    run_matches (modulusRewriter modulus) chunks
  rw [preimage, none, flatMap_nil, append_nil, modulus_streamed isModulus]

/-- A byte string is determined by its preimage exactly when it contains neither
the modulus nor a run of zero bytes that the modulus could have left behind. -/
theorem preimage_determines_iff (modulus : Bytes) (isModulus : IsModulus modulus)
    (chunks : List Bytes) :
    (∀ others : List Bytes, preimage modulus chunks = preimage modulus others →
        chunks.flatten = others.flatten) ↔
      Unblankable 0 modulus chunks.flatten := by
  rw [← blank_determines_iff isModulus.nonempty isModulus.no_zero]
  constructor
  · intro determined other same
    have collision := determined [other] (by
      rw [preimage_eq_blank modulus isModulus, preimage_eq_blank modulus isModulus, same,
        flatten_singleton])
    rwa [flatten_singleton] at collision
  · intro determined others same
    rw [preimage_eq_blank modulus isModulus, preimage_eq_blank modulus isModulus] at same
    exact determined _ same

theorem zeros_modulus : IsModulus (List.replicate 32 48) where
  size := length_replicate
  base32 := by
    intro character member
    rw [eq_of_mem_replicate member]
    decide

/-- A stream that has the modulus in it, cut in two there, is not determined. -/
theorem preimage_determines_iff_cut : IsModulus (List.replicate 32 48) ∧
      ¬∀ others : List Bytes,
        preimage (List.replicate 32 48) [97 :: List.replicate 20 48, List.replicate 12 48] =
          preimage (List.replicate 32 48) others →
        97 :: List.replicate 32 48 = others.flatten := by
  refine ⟨zeros_modulus, fun determined => ?_⟩
  have clean := ((preimage_determines_iff _ zeros_modulus
    [97 :: List.replicate 20 48, List.replicate 12 48]).mp determined).1
  exact clean ⟨[97], [], rfl⟩

/-- A file that is the modulus and a file of 32 zero bytes give one preimage. -/
theorem preimage_collision : IsModulus (List.replicate 32 48) ∧
      preimage (List.replicate 32 48) [List.replicate 32 48] =
        preimage (List.replicate 32 48) [List.replicate 32 0] ∧
      (List.replicate 32 48 : Bytes) ≠ List.replicate 32 0 := by
  refine ⟨zeros_modulus, ?_, by decide⟩
  have clean : ¬ (replicate 32 48 : Bytes) <:+: replicate 32 0 := by
    intro present
    have member := present.subset (mem_replicate.mpr ⟨by decide, rfl⟩)
    rw [mem_replicate] at member
    exact absurd member.2 (by decide)
  rw [preimage_eq_blank _ zeros_modulus, preimage_eq_blank _ zeros_modulus,
    flatten_singleton, flatten_singleton, blank_of_absent _ clean]
  simp [blank]

/-- `HashModuloSink::finish`: the digest of all that was hashed, and the size of the stream. -/
def finish {Digest : Type} (hash : Bytes → Digest) (modulus : Bytes) (chunks : List Bytes) :
    Digest × Nat :=
  (hash (preimage modulus chunks),
    (chunks.foldl RewritingSink.feed (modulusRewriter modulus)).flush.pos)

variable {sink : RewritingSink}

theorem run_pos (counted : sink.pos = sink.written.length) (chunks : List Bytes) :
    (chunks.foldl feed sink).flush.pos = (chunks.foldl feed sink).flush.written.length := by
  induction chunks generalizing sink with
  | nil => simp [flush, counted]
  | cons data chunks ih => exact ih (by simp [feed, counted])

/-- The hash sink gets the stream with every occurrence of the modulus blanked, the size is the
stream's, and neither depends on how the stream was cut. -/
theorem hash_modulo_stream {Digest : Type} (hash : Bytes → Digest) {modulus : Bytes}
    (isModulus : IsModulus modulus) (chunks : List Bytes) :
    (chunks.foldl RewritingSink.feed (modulusRewriter modulus)).flush.written =
        blank 0 modulus chunks.flatten ∧
      (finish hash modulus chunks).2 = chunks.flatten.length ∧
      ∀ others : List Bytes, others.flatten = chunks.flatten →
        finish hash modulus others = finish hash modulus chunks := by
  have written : ∀ chunks : List Bytes,
      (chunks.foldl RewritingSink.feed (modulusRewriter modulus)).flush.written =
        blank 0 modulus chunks.flatten := modulus_streamed isModulus
  have size : ∀ chunks : List Bytes, (finish hash modulus chunks).2 = chunks.flatten.length := by
    intro chunks
    rw [finish, run_pos rfl, written, blank_length isModulus.nonempty isModulus.no_zero]
  refine ⟨written chunks, size chunks, ?_⟩
  intro others same
  refine Prod.ext ?_ ?_
  · simp [finish, preimage_eq_blank modulus isModulus, same]
  · rw [size, size, same]

/-- The modulus is blanked although the stream is cut in the middle of it. -/
theorem hash_modulo_stream_cut : IsModulus (List.replicate 32 48) ∧
      ([97 :: List.replicate 20 48, List.replicate 12 48 ++ [98]].foldl RewritingSink.feed
        (modulusRewriter (List.replicate 32 48))).flush.written = 97 :: (List.replicate 32 0 ++ [98]) ∧
      finish id (List.replicate 32 48) [97 :: (List.replicate 32 48 ++ [98])] =
        finish id (List.replicate 32 48) [97 :: List.replicate 20 48, List.replicate 12 48 ++ [98]] := by
  obtain ⟨written, -, same⟩ := hash_modulo_stream id zeros_modulus
    [97 :: List.replicate 20 48, List.replicate 12 48 ++ [98]]
  refine ⟨zeros_modulus, ?_, same _ rfl⟩
  have here : [97 :: List.replicate 20 48, List.replicate 12 48 ++ [98]].flatten =
      ([97] : Bytes) ++ (List.replicate 32 48 ++ [98]) := rfl
  have rest : ¬(List.replicate 32 48 : Bytes) <:+: [98] := fun present =>
    absurd present.length_le (by decide)
  rw [written, here, blank_at_first zeros_modulus.nonempty, blank_of_absent _ rest]
  · rfl
  · intro start first
    rw [Nat.lt_one_iff.mp first]
    decide

end Bsd.Util.Rewriting
