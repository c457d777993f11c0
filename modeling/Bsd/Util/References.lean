import Bsd.Util.Hashes

/-!
# Reference scanning

`RefScanSink` looks for the hash parts of store paths in a byte stream that
arrives in chunks. The sink keeps the last `refLength` bytes so that a hash part
split over several chunks is still seen, and `search` skips ahead by the
rightmost byte of the window that cannot belong to a hash part.
-/

namespace Bsd.Util.References

open Lib.Occurrences Util.Hashes

def refLength : Nat := 32

/-- What `hashes` and `seen` may hold: 32 base-32 characters. -/
def IsRef (ref : Bytes) : Prop :=
  ref.length = refLength ∧ ∀ character ∈ ref, isBase32 character = true

instance (ref : Bytes) : Decidable (IsRef ref) :=
  inferInstanceAs (Decidable (_ ∧ _))

structure Scan where
  hashes : Finset Bytes
  seen : Finset Bytes

/-- The inner loop of `search`: it runs `j` downwards and stops at the first
byte of the window that is no base-32 character. -/
def lastNonBase32 (s : Bytes) (i : Nat) : Nat → Option Nat
  | 0 => none
  | j + 1 => if isBase32 (s.getD (i + j) 0) then lastNonBase32 s i j else some j

def Scan.take (scan : Scan) (ref : Bytes) : Scan :=
  if ref ∈ scan.hashes then
    { hashes := scan.hashes.erase ref, seen := insert ref scan.seen }
  else scan

def search (s : Bytes) (scan : Scan) (i : Nat) : Scan :=
  if i + refLength ≤ s.length then
    match lastNonBase32 s i refLength with
    | some j => search s scan (i + j + 1)
    | none => search s (scan.take ((s.drop i).take refLength)) (i + 1)
  else scan
termination_by s.length - i
decreasing_by all_goals (simp only [refLength] at *; omega)

structure RefScanSink where
  scan : Scan
  tail : Bytes

def RefScanSink.new (hashes : Finset Bytes) : RefScanSink where
  scan := { hashes := hashes, seen := ∅ }
  tail := []

/-- `RefScanSink::operator ()`. The first search covers the seam between the
previous fragments and this one, the second the fragment itself. -/
def RefScanSink.feed (sink : RefScanSink) (data : Bytes) : RefScanSink :=
  let tailLen := min data.length refLength
  let rest := refLength - tailLen
  let seam := search (sink.tail ++ data.take tailLen) sink.scan 0
  { scan := search data seam 0
    tail :=
      (if rest < sink.tail.length then sink.tail.drop (sink.tail.length - rest) else sink.tail) ++
        data.drop (data.length - tailLen) }

def RefScanSink.getResult (sink : RefScanSink) : Finset Bytes := sink.scan.seen

def RefScanSink.run (hashes : Finset Bytes) (chunks : List Bytes) : RefScanSink :=
  chunks.foldl RefScanSink.feed (RefScanSink.new hashes)

/-- `after` is `before` with exactly the hashes satisfying `found` moved from
`hashes` to `seen`. Every search is described by such a predicate. -/
structure Moves (before after : Scan) (found : Bytes → Prop) : Prop where
  seen_iff : ∀ ref, ref ∈ after.seen ↔ ref ∈ before.seen ∨ (ref ∈ before.hashes ∧ found ref)
  hashes_iff : ∀ ref, ref ∈ after.hashes ↔ ref ∈ before.hashes ∧ ¬ found ref

open RefScanSink

theorem moves_nothing (scan : Scan) (found : Bytes → Prop)
    (absent : ∀ ref ∈ scan.hashes, ¬ found ref) : Moves scan scan found := by
  constructor
  · intro ref
    constructor
    · exact .inl
    · rintro (seen | ⟨member, isFound⟩)
      · exact seen
      · exact absurd isFound (absent ref member)
  · intro ref
    exact ⟨fun member => ⟨member, absent ref member⟩, And.left⟩

theorem Moves.trans {first second third : Scan} {early late : Bytes → Prop}
    (left : Moves first second early) (right : Moves second third late) :
    Moves first third (fun ref => early ref ∨ late ref) := by
  constructor
  · intro ref
    rw [right.seen_iff, left.seen_iff, left.hashes_iff]
    tauto
  · intro ref
    rw [right.hashes_iff, left.hashes_iff]
    tauto

variable {before after : Scan}

theorem Moves.congr {found other : Bytes → Prop} (moves : Moves before after found)
    (same : ∀ ref ∈ before.hashes, found ref ↔ other ref) : Moves before after other := by
  constructor
  · intro ref
    rw [moves.seen_iff]
    constructor
    · rintro (seen | ⟨member, isFound⟩)
      · exact .inl seen
      · exact .inr ⟨member, (same ref member).mp isFound⟩
    · rintro (seen | ⟨member, isFound⟩)
      · exact .inl seen
      · exact .inr ⟨member, (same ref member).mpr isFound⟩
  · intro ref
    rw [moves.hashes_iff]
    constructor
    · rintro ⟨member, absent⟩
      exact ⟨member, fun isOther => absent ((same ref member).mpr isOther)⟩
    · rintro ⟨member, absent⟩
      exact ⟨member, fun isFound => absent ((same ref member).mp isFound)⟩

theorem Moves.keeps_refs {found : Bytes → Prop} (moves : Moves before after found)
    (refs : ∀ ref ∈ before.hashes, IsRef ref) : ∀ ref ∈ after.hashes, IsRef ref := by
  intro ref member
  exact refs ref ((moves.hashes_iff ref).mp member).1

theorem take_moves (scan : Scan) (ref : Bytes) :
    Moves scan (scan.take ref) (fun other => other = ref) := by
  unfold Scan.take
  by_cases member : ref ∈ scan.hashes
  · rw [if_pos member]
    constructor
    · intro other
      rw [Finset.mem_insert]
      constructor
      · rintro (rfl | seen)
        · exact .inr ⟨member, rfl⟩
        · exact .inl seen
      · rintro (seen | ⟨_, same⟩)
        · exact .inr seen
        · exact .inl same
    · intro other
      rw [Finset.mem_erase]
      exact and_comm
  · rw [if_neg member]
    apply moves_nothing
    rintro other otherMember rfl
    exact member otherMember

/-- The skip of the inner loop: no 32-character window that starts at or before
`i + j` can avoid the offending byte at `i + j`. -/
theorem last_non_base32_some {s : Bytes} {i count j : Nat}
    (stopped : lastNonBase32 s i count = some j) :
    j < count ∧ isBase32 (s.getD (i + j) 0) = false := by
  induction count with
  | zero => simp [lastNonBase32] at stopped
  | succ count ih =>
    simp only [lastNonBase32] at stopped
    split at stopped
    · have earlier := ih stopped
      exact ⟨by omega, earlier.2⟩
    next notBase32 =>
      obtain rfl := Option.some.inj stopped
      exact ⟨by omega, by simpa using notBase32⟩

theorem ref_nonempty {ref : Bytes} (isRef : IsRef ref) : ref ≠ [] := by
  rintro rfl
  have length := isRef.1
  simp [refLength] at length

def OccursFrom (s : Bytes) (i : Nat) (ref : Bytes) : Prop :=
  ∃ start, i ≤ start ∧ OccursAt ref s start

theorem search_moves (s : Bytes) (scan : Scan) (i : Nat) (refs : ∀ ref ∈ scan.hashes, IsRef ref) :
    Moves scan (search s scan i) (OccursFrom s i) := by
  induction scan, i using search.induct s with
  | case1 scan i fits j stopped ih =>
    rw [search, if_pos fits, stopped]
    refine (ih refs).congr ?_
    intro ref member
    constructor
    · rintro ⟨start, later, occurs⟩
      exact ⟨start, by omega, occurs⟩
    rintro ⟨start, later, occurs⟩
    refine ⟨start, ?_, occurs⟩
    by_contra skipped
    obtain ⟨inWindow, offending⟩ := last_non_base32_some stopped
    obtain ⟨size, base32⟩ := refs ref member
    have inside : i + j - start < ref.length := by omega
    have here := occurs_at_iff_places.mp occurs (i + j) (by omega) (by omega)
    rw [List.getD_eq_getElem?_getD, here, List.getElem?_eq_getElem inside, Option.getD_some,
      base32 _ (List.getElem_mem inside)] at offending
    exact Bool.noConfusion offending
  | case2 scan i fits allBase32 ih =>
    rw [search, if_pos fits, allBase32]
    have taken := take_moves scan ((s.drop i).take refLength)
    refine (taken.trans (ih (taken.keeps_refs refs))).congr ?_
    intro ref member
    have here : ref = (s.drop i).take refLength ↔ OccursAt ref s i := by
      rw [occurs_at_iff_take, (refs ref member).1]
      exact eq_comm
    rw [here]
    constructor
    · rintro (occurs | ⟨start, later, occurs⟩)
      · exact ⟨i, le_refl i, occurs⟩
      · exact ⟨start, by omega, occurs⟩
    rintro ⟨start, later, occurs⟩
    by_cases same : start = i
    · exact .inl (same ▸ occurs)
    · exact .inr ⟨start, by omega, occurs⟩
  | case3 scan i short =>
    rw [search, if_neg short]
    apply moves_nothing
    rintro ref member ⟨start, later, occurs⟩
    have bound := occurs_at_bound occurs (ref_nonempty (refs ref member))
    rw [(refs ref member).1] at bound
    omega

theorem search_moves_infix (s : Bytes) (scan : Scan) (refs : ∀ ref ∈ scan.hashes, IsRef ref) :
    Moves scan (search s scan 0) (fun ref => ref <:+: s) := by
  refine (search_moves s scan 0 refs).congr ?_
  intro ref _
  rw [infix_iff_occurs_at]
  simp [OccursFrom]

/-- The sink after the bytes `stream`: what was found so far, and the tail that
a later fragment may complete. -/
structure Scanned (hashes : Finset Bytes) (stream : Bytes) (sink : RefScanSink) : Prop where
  moves : Moves { hashes := hashes, seen := ∅ } sink.scan (fun ref => ref <:+: stream)
  tail_eq : sink.tail = lastN refLength stream

theorem new_scanned (hashes : Finset Bytes) (refs : ∀ ref ∈ hashes, IsRef ref) :
    Scanned hashes [] (new hashes) where
  moves := by
    apply moves_nothing
    intro ref member occurs
    exact ref_nonempty (refs ref member) (List.infix_nil.mp occurs)
  tail_eq := by simp [new, lastN]

theorem feed_tail (stream data : Bytes) : (let tailLen := min data.length refLength
      let rest := refLength - tailLen
      let tail := lastN refLength stream
      (if rest < tail.length then tail.drop (tail.length - rest) else tail) ++
        data.drop (data.length - tailLen)) = lastN refLength (stream ++ data) := by
  have dropped : data.drop (data.length - min data.length refLength) = lastN refLength data := by
    congr 1
    omega
  have kept : ∀ rest, rest ≤ refLength → (if rest < (lastN refLength stream).length then
          (lastN refLength stream).drop ((lastN refLength stream).length - rest)
        else lastN refLength stream) = lastN rest stream := by
    intro rest le
    split
    · exact last_n_last_n rest refLength stream le
    next long =>
      rw [last_n_length] at long
      rw [← last_n_last_n rest refLength stream le]
      unfold lastN
      rw [List.drop_drop]
      congr 1
      simp only [List.length_drop]
      omega
  simp only [dropped]
  rw [kept _ (Nat.sub_le _ _), last_n_append]
  congr 2
  omega

theorem feed_scanned {hashes : Finset Bytes} {stream : Bytes} {sink : RefScanSink}
    (refs : ∀ ref ∈ hashes, IsRef ref) (scanned : Scanned hashes stream sink) (data : Bytes) :
    Scanned hashes (stream ++ data) (sink.feed data) where
  moves := by
    have refsBefore := scanned.moves.keeps_refs refs
    have seam := search_moves_infix (sink.tail ++ data.take (min data.length refLength))
      sink.scan refsBefore
    have body := search_moves_infix data
      (search (sink.tail ++ data.take (min data.length refLength)) sink.scan 0)
      (seam.keeps_refs refsBefore)
    refine ((scanned.moves.trans seam).trans body).congr ?_
    intro ref member
    have takeAll : data.take (min data.length refLength) = data.take refLength := by
      rw [Nat.min_comm, ← List.take_take, List.take_length]
    rw [infix_append_window ref stream data refLength (refs ref member).1.le, scanned.tail_eq,
      takeAll, or_assoc]
  tail_eq := by
    have tail := feed_tail stream data
    rw [← scanned.tail_eq] at tail
    exact tail

theorem run_scanned (hashes : Finset Bytes) (refs : ∀ ref ∈ hashes, IsRef ref)
    (chunks : List Bytes) :
    Scanned hashes chunks.flatten (run hashes chunks) := by
  suffices grow : ∀ (sink : RefScanSink) (stream : Bytes), Scanned hashes stream sink →
      Scanned hashes (stream ++ chunks.flatten) (chunks.foldl feed sink) by
    simpa [run] using grow _ [] (new_scanned hashes refs)
  induction chunks with
  | nil => simp
  | cons data chunks ih =>
    intro sink stream scanned
    have next := ih (sink.feed data) (stream ++ data) (feed_scanned refs scanned data)
    simpa using next

/-- Scanning finds exactly the hash parts that stand contiguously in the whole
stream, however the stream was cut into fragments. -/
theorem ref_scan_exact (hashes : Finset Bytes) (refs : ∀ ref ∈ hashes, IsRef ref)
    (chunks : List Bytes) (ref : Bytes) :
    ref ∈ (RefScanSink.run hashes chunks).getResult ↔ ref ∈ hashes ∧ ref <:+: chunks.flatten := by
  have scanned := (run_scanned hashes refs chunks).moves.seen_iff ref
  simpa [RefScanSink.getResult] using scanned

theorem ref_scan_exact_split_reference :
    (∀ ref ∈ ({List.replicate 32 (48 : Byte)} : Finset Bytes), IsRef ref) ∧
      List.replicate 32 (48 : Byte) ∈ (RefScanSink.run {List.replicate 32 48}
          [List.replicate 20 48, [], List.replicate 12 48]).getResult := by
  have refs : ∀ ref ∈ ({List.replicate 32 (48 : Byte)} : Finset Bytes), IsRef ref := by
    intro ref member
    rw [Finset.mem_singleton.mp member]
    refine ⟨List.length_replicate, ?_⟩
    intro character inside
    rw [List.eq_of_mem_replicate inside]
    decide
  refine ⟨refs, (ref_scan_exact _ refs _ _).mpr ⟨Finset.mem_singleton_self _, ?_⟩⟩
  simp

end Bsd.Util.References
