/-
# Bytewise.Proofs.Needle.Replacing -- replacing ends, and replaces spans of the original

Replacing changes the bytes that it is looking through, and may find something again
where it has found something before.  Still every replacement leaves fewer bytes to
look at (`Progress.left_put`), so a run of replacements (`Replaces`) is no longer than
the bytes are (`Replaces.length_le`), and `Needle.replace` makes a run that cannot go
on (`exists_replaces`).

What is still to be looked at is an end of the original bytes (`Tracks`), and each
replacement keeps it so.  Therefore the spans that are replaced, moved back to where
they were at first (`origins`), are spans of the original, one behind the other, and
the bytes at every step are the original with those replaced that were replaced so far
(`Replaces.bytes_eq`).
-/
import Bytewise.Proofs.Needle.Ahead

namespace Bytewise

set_option autoImplicit false

/-! ## The front of spliced bytes -/

theorem Subject.size_front_splice_le {s : Subject} {i length : Nat} {t : Bytes}
    (behind : s.front.size ≤ i) : (s.splice i length t).front.size ≤ i + t.length := by
  have size : (s.splice i length t).front.size =
      s.front.size + (min (i - s.front.size) (s.back.size - s.skipped) + t.length) := by
    rw [splice, ← Array.length_toList]
    simp
  omega

namespace Needle

open Pattern (Span)

/-! ## One replacement -/

/-- How far replacing has come: where the search goes on, and the bytes as they stand. -/
structure Progress where
  index : Nat
  bytes : Bytes

namespace Progress

variable {n : Needle} (replacement : Bytes) {p : Progress} {span : Span}

/-- There is nothing left to look at, or nothing is found there. -/
def Finished (n : Needle) (p : Progress) : Prop :=
  p.bytes.length ≤ p.index ∨ n.find? (.ofBytes p.bytes) p.index = none

/-- The span is the one to be replaced next. -/
structure Next (n : Needle) (p : Progress) (span : Span) : Prop where
  unfinished : p.index < p.bytes.length
  found : n.find? (.ofBytes p.bytes) p.index = some span

/-- The span has been replaced. -/
def put (replacement : Bytes) (p : Progress) (span : Span) : Progress :=
  ⟨resume span replacement, p.bytes.take span.start ++ replacement ++ p.bytes.drop span.stop⟩

/-- How many bytes are left to look at. -/
def left (p : Progress) : Nat := p.bytes.length - p.index

/-- How many bytes are passed over behind a span. -/
def passed (span : Span) : Nat := if span.length = 0 then 1 else 0

theorem index_put : (p.put replacement span).index =
    span.start + replacement.length + passed span := rfl

theorem Next.index_le (next : p.Next n span) : p.index ≤ span.start :=
  (find?_eq_some_iff.1 next.found).1.1.2

theorem Next.stop_le (next : p.Next n span) : span.stop ≤ p.bytes.length := by
  have fits := matchLength?_fits (find?_eq_some_iff.1 next.found).2
  rwa [Subject.size_eq, Subject.toList_ofBytes] at fits

theorem Next.start_le (next : p.Next n span) : span.start ≤ p.bytes.length :=
  Nat.le_trans (Nat.le_add_right _ _) next.stop_le

/-- A span takes a byte, or one is passed over. -/
theorem length_add_passed_pos (span : Span) : 0 < span.length + passed span := by
  unfold passed
  split <;> omega

theorem length_put (next : p.Next n span) :
    (p.put replacement span).bytes.length + span.length = p.bytes.length + replacement.length := by
  have stop := next.stop_le
  rw [Span.stop] at stop
  rw [put, Span.stop, List.length_append, List.length_append, List.length_take, List.length_drop]
  omega

/-- Every replacement leaves fewer bytes to look at. -/
theorem left_put (next : p.Next n span) : (p.put replacement span).left < p.left := by
  have length := length_put replacement next
  have := next.unfinished
  have := next.index_le
  have := length_add_passed_pos span
  rw [left, left, index_put]
  omega

/-- What lies before the span stays as it is. -/
theorem take_put_of_le (next : p.Next n span) {i : Nat} (before : i ≤ span.start) :
    (p.put replacement span).bytes.take i = p.bytes.take i := by
  have inside : i ≤ (p.bytes.take span.start).length := by
    rw [List.length_take, Nat.min_eq_left next.start_le]
    exact before
  rw [put, List.append_assoc, List.take_append_of_le_length inside, List.take_take,
    Nat.min_eq_left before]

/-- What is behind the replacement is what was behind the span. -/
theorem drop_put (next : p.Next n span) (k : Nat) :
    (p.put replacement span).bytes.drop (span.start + replacement.length + k) =
      p.bytes.drop (span.stop + k) := by
  have front : (p.bytes.take span.start ++ replacement).length =
      span.start + replacement.length := by
    rw [List.length_append, List.length_take, Nat.min_eq_left next.start_le]
  rw [put, ← front, List.drop_length_add_append, List.drop_drop]

theorem take_put (next : p.Next n span) (k : Nat) :
    (p.put replacement span).bytes.take (span.start + replacement.length + k) =
      p.bytes.take span.start ++ replacement ++ (p.bytes.drop span.stop).take k := by
  have front : (p.bytes.take span.start ++ replacement).length =
      span.start + replacement.length := by
    rw [List.length_append, List.length_take, Nat.min_eq_left next.start_le]
  rw [put, ← front, List.take_length_add_append]

end Progress

/-! ## Runs of replacements -/

/-- The spans are replaced one after the other, each where it is found in the bytes as they stand. -/
inductive Replaces (n : Needle) (replacement : Bytes) : Progress → List Span → Progress → Prop
  | nothing (p : Progress) : Replaces n replacement p [] p
  | next {p q : Progress} {span : Span} {spans : List Span} (next : p.Next n span)
      (later : Replaces n replacement (p.put replacement span) spans q) :
      Replaces n replacement p (span :: spans) q

section

variable {n : Needle} {replacement : Bytes} {p q : Progress} {spans : List Span}

theorem Replaces.length_le (replaces : Replaces n replacement p spans q) :
    spans.length ≤ p.left := by
  induction replaces with
  | nothing p => exact Nat.zero_le _
  | next next _ ih =>
      have := Progress.left_put replacement next
      rw [List.length_cons]
      omega

/-- Whatever lies before the place where the search goes on stays as it is. -/
theorem Replaces.take_eq (replaces : Replaces n replacement p spans q) {i : Nat}
    (before : i ≤ p.index) : q.bytes.take i = p.bytes.take i := by
  induction replaces with
  | nothing p => rfl
  | @next p q span spans next _ ih =>
      have above := Nat.le_trans before next.index_le
      rw [ih (Nat.le_trans above (Nat.le_add_right_of_le (Nat.le_add_right _ _))),
        Progress.take_put_of_le replacement next above]

/-- Replacing makes a run that cannot go on, if there are as many steps as bytes to look at. -/
theorem exists_replaces (n : Needle) (replacement : Bytes) (fuel index : Nat) (s : Subject)
    (behind : s.front.size ≤ index) (enough : s.toList.length ≤ index + fuel) :
    ∃ q, Replaces n replacement ⟨index, s.toList⟩ (n.replaceFrom replacement fuel index s).1 q ∧
      q.Finished n ∧ (n.replaceFrom replacement fuel index s).2.toList = q.bytes := by
  induction fuel generalizing index s with
  | zero => exact ⟨⟨index, s.toList⟩, .nothing _, .inl enough, rfl⟩
  | succ fuel ih =>
      rw [replaceFrom, Subject.size_eq, find?_ofBytes]
      split
      · rename_i unfinished
        cases found : n.find? (.ofBytes s.toList) index with
        | none => exact ⟨⟨index, s.toList⟩, .nothing _, .inr found, rfl⟩
        | some span =>
            have next : Progress.Next n ⟨index, s.toList⟩ span := ⟨unfinished, found⟩
            have front : s.front.size ≤ span.start := Nat.le_trans behind next.index_le
            have put : (s.splice span.start span.length replacement).toList =
                (Progress.put replacement ⟨index, s.toList⟩ span).bytes :=
              Subject.toList_splice s span.start span.length replacement front
            obtain ⟨q, replaces, finished, bytes⟩ :=
              ih (resume span replacement) (s.splice span.start span.length replacement)
                (Nat.le_trans (Subject.size_front_splice_le front) (Nat.le_add_right _ _)) (by
                  have fewer := Progress.left_put replacement next
                  simp only [Progress.left, Progress.put] at fewer put
                  rw [put]
                  omega)
            rw [put] at replaces
            exact ⟨q, .next next replaces, finished, bytes⟩
      · rename_i finished
        exact ⟨⟨index, s.toList⟩, .nothing _, .inl (Nat.le_of_not_lt finished), rfl⟩

/-- There are enough steps to go over all bytes. -/
theorem exists_replaces_all (n : Needle) (replacement s : Bytes) :
    ∃ q, Replaces n replacement ⟨0, s⟩ (n.replace replacement s).1 q ∧ q.Finished n ∧
      (n.replace replacement s).2 = q.bytes := by
  have run := exists_replaces n replacement s.length 0 (.ofBytes s) (Nat.le_refl 0)
    (by rw [Subject.toList_ofBytes, Nat.zero_add])
  rw [Subject.toList_ofBytes] at run
  exact run

/-- Where nothing is replaced, the bytes are the same. -/
theorem replace_of_no_span {n : Needle} {replacement s : Bytes}
    (none : (n.replace replacement s).1 = []) : (n.replace replacement s).2 = s := by
  obtain ⟨q, replaces, -, bytes⟩ := exists_replaces_all n replacement s
  rw [none] at replaces
  cases replaces
  exact bytes

/-! ## Back to the original -/

/-- The spans where they were in the original, given how many bytes have been `gained` by
replacements and how many have been `lost` in spans before. -/
def origins (replacement : Bytes) : Nat → Nat → List Span → List Span
  | _, _, [] => []
  | gained, lost, span :: spans =>
    ⟨span.start + lost - gained, span.length⟩ ::
      origins replacement (gained + replacement.length) (lost + span.length) spans

/-- The original from `pos` on, with each of the spans replaced. -/
def rebuild (s replacement : Bytes) : Nat → List Span → Bytes
  | pos, [] => s.drop pos
  | pos, cut :: cuts =>
    (s.drop pos).take (cut.start - pos) ++ replacement ++ rebuild s replacement cut.stop cuts

/-- How many bytes the spans have together. -/
def total : List Span → Nat
  | [] => 0
  | cut :: cuts => cut.length + total cuts

/-- What is left to look at are the bytes of the original from `pos` on. -/
structure Tracks (s : Bytes) (p : Progress) (pos : Nat) : Prop where
  drop_eq : p.bytes.drop p.index = s.drop pos
  length_eq : p.bytes.length + pos = s.length + p.index

variable {s : Bytes} {pos gained lost : Nat} {span : Span}

theorem length_origins (gained lost : Nat) (spans : List Span) :
    (origins replacement gained lost spans).length = spans.length := by
  induction spans generalizing gained lost with
  | nil => rfl
  | cons span spans ih => rw [origins, List.length_cons, ih, List.length_cons]

theorem total_origins (gained lost : Nat) (spans : List Span) :
    total (origins replacement gained lost spans) = total spans := by
  induction spans generalizing gained lost with
  | nil => rfl
  | cons span spans ih => rw [origins, total, ih, total]

/-- Bytes in front of the first span may be taken off. -/
theorem rebuild_eq_take_append (s replacement : Bytes) {cuts : List Span} {k : Nat}
    (behind : ∀ cut ∈ cuts, pos + k ≤ cut.start) :
    rebuild s replacement pos cuts =
      (s.drop pos).take k ++ rebuild s replacement (pos + k) cuts := by
  cases cuts with
  | nil => rw [rebuild, rebuild, ← List.drop_drop, List.take_append_drop]
  | cons cut cuts =>
      have first := behind cut List.mem_cons_self
      have split : cut.start - pos = k + (cut.start - (pos + k)) := by omega
      rw [rebuild, rebuild, split, List.take_add, List.drop_drop]
      simp only [List.append_assoc]

theorem Tracks.put (replacement : Bytes) (tracks : Tracks s p pos) (next : p.Next n span) :
    Tracks s (p.put replacement span)
      (pos + (span.start - p.index) + span.length + Progress.passed span) where
  drop_eq := by
    have split : span.stop + Progress.passed span =
        p.index + (span.start - p.index + span.length + Progress.passed span) := by
      have := next.index_le
      rw [Span.stop]
      omega
    rw [Progress.index_put, Progress.drop_put replacement next, split, ← List.drop_drop, tracks.drop_eq,
      List.drop_drop, Nat.add_assoc, Nat.add_assoc, Nat.add_assoc]
  length_eq := by
    have := Progress.length_put replacement next
    have := tracks.length_eq
    have := next.index_le
    rw [Progress.index_put]
    omega

/-- Each span was as far behind what had been looked at as it is now. -/
theorem origin_eq (next : p.Next n span) (moved : p.index + lost = pos + gained) :
    span.start + lost - gained = pos + (span.start - p.index) := by
  have := next.index_le
  omega

theorem moved_put (replacement : Bytes) (next : p.Next n span) (moved : p.index + lost = pos + gained) :
    (p.put replacement span).index + (lost + span.length) =
      pos + (span.start - p.index) + span.length + Progress.passed span +
        (gained + replacement.length) := by
  have := next.index_le
  rw [Progress.index_put]
  omega

/-- The spans of a run were in what was left of the original. -/
theorem Replaces.inside (replaces : Replaces n replacement p spans q) (tracks : Tracks s p pos)
    (moved : p.index + lost = pos + gained) :
    ∀ cut ∈ origins replacement gained lost spans, pos ≤ cut.start ∧ cut.stop ≤ s.length := by
  induction replaces generalizing pos gained lost with
  | nothing p => nofun
  | @next p q span spans next _ ih =>
      rw [origins, origin_eq next moved, List.forall_mem_cons]
      constructor
      · have stop := next.stop_le
        have := next.index_le
        have := tracks.length_eq
        simp only [Span.stop] at stop ⊢
        omega
      · intro cut member
        obtain ⟨behind, inside⟩ :=
          ih (tracks.put replacement next) (moved_put replacement next moved) cut member
        exact ⟨by omega, inside⟩

/-- They were one behind the other, and no two of them started at the same position. -/
theorem Replaces.apart (replaces : Replaces n replacement p spans q) (tracks : Tracks s p pos)
    (moved : p.index + lost = pos + gained) :
    (origins replacement gained lost spans).Pairwise fun cut later =>
      cut.stop ≤ later.start ∧ cut.start < later.start := by
  induction replaces generalizing pos gained lost with
  | nothing p => exact .nil
  | @next p q span spans next later ih =>
      have tracks' := tracks.put replacement next
      have moved' := moved_put replacement next moved
      rw [origins, origin_eq next moved, List.pairwise_cons]
      refine ⟨fun cut member => ?_, ih tracks' moved'⟩
      obtain ⟨behind, -⟩ := later.inside tracks' moved' cut member
      have := Progress.length_add_passed_pos span
      simp only [Span.stop]
      omega

/-- A run makes of the original what comes of replacing the spans in it. -/
theorem Replaces.bytes_eq (replaces : Replaces n replacement p spans q) (tracks : Tracks s p pos)
    (moved : p.index + lost = pos + gained) :
    q.bytes = p.bytes.take p.index ++
      rebuild s replacement pos (origins replacement gained lost spans) := by
  induction replaces generalizing pos gained lost with
  | nothing p =>
      rw [origins, rebuild, ← tracks.drop_eq, List.take_append_drop]
  | @next p q span spans next later ih =>
      have tracks' := tracks.put replacement next
      have moved' := moved_put replacement next moved
      have behind : p.bytes.drop span.stop = s.drop (pos + (span.start - p.index) + span.length) := by
        have split : span.stop = p.index + (span.start - p.index + span.length) := by
          have := next.index_le
          rw [Span.stop]
          omega
        rw [split, ← List.drop_drop, tracks.drop_eq, List.drop_drop, Nat.add_assoc]
      have front : p.bytes.take span.start =
          p.bytes.take p.index ++ (s.drop pos).take (span.start - p.index) := by
        rw [← tracks.drop_eq, ← List.take_add, Nat.add_sub_cancel' next.index_le]
      have skipped := rebuild_eq_take_append s replacement
        fun cut member => (later.inside tracks' moved' cut member).1
      rw [ih tracks' moved', Progress.index_put, Progress.take_put replacement next, behind, front, origins,
        rebuild, origin_eq next moved, Span.stop, skipped, Nat.add_sub_cancel_left]
      simp only [List.append_assoc]

theorem Replaces.length_eq (replaces : Replaces n replacement p spans q) :
    q.bytes.length + total spans = p.bytes.length + spans.length * replacement.length := by
  induction replaces with
  | nothing p => rw [total, List.length_nil, Nat.zero_mul]
  | next next _ ih =>
      have := Progress.length_put replacement next
      rw [total, List.length_cons, Nat.add_mul, Nat.one_mul]
      omega

/-- At most as many bytes come to be there as replacements are put in. -/
theorem length_replace_le (n : Needle) (replacement s : Bytes) :
    (n.replace replacement s).2.length ≤
      s.length + (n.replace replacement s).1.length * replacement.length := by
  obtain ⟨q, replaces, -, bytes⟩ := exists_replaces_all n replacement s
  have length := replaces.length_eq
  rw [bytes, ← length]
  exact Nat.le_add_right _ _

/-- The bytes are the original with some spans of it replaced: no more than it has bytes, one behind
the other, none at the start of another one. -/
structure Rewritten (s replacement : Bytes) (cuts : List Span) (bytes : Bytes) : Prop where
  few : cuts.length ≤ s.length
  inside : ∀ cut ∈ cuts, cut.stop ≤ s.length
  apart : cuts.Pairwise fun cut later => cut.stop ≤ later.start ∧ cut.start < later.start
  bytes_eq : bytes = rebuild s replacement 0 cuts
  length_eq : bytes.length + total cuts = s.length + cuts.length * replacement.length

theorem Replaces.rewritten (replaces : Replaces n replacement ⟨0, s⟩ spans q) :
    Rewritten s replacement (origins replacement 0 0 spans) q.bytes := by
  have tracks : Tracks s ⟨0, s⟩ 0 := ⟨rfl, rfl⟩
  refine ⟨?_, fun cut member => (replaces.inside tracks rfl cut member).2, replaces.apart tracks rfl,
    replaces.bytes_eq tracks rfl, ?_⟩
  · rw [length_origins]
    exact replaces.length_le
  · rw [total_origins, length_origins]
    exact replaces.length_eq

end

/-- **Replacing ends, and replaces spans of the original that do not overlap.**  Replacing is a run of
replacements, each of the span that is found in the bytes as they stand then, up to where nothing is
found any more or nothing is left to look at.  No run from the original is longer than the
original, and whatever it has replaced so far, the bytes are the original with as many spans of it
replaced, one behind the other: all other bytes are still there in their order.  What has been put
in, and all that is before it, stays as it is however the run goes on. -/
theorem replace_apart (n : Needle) (replacement s : Bytes) :
    (∃ q, Replaces n replacement ⟨0, s⟩ (n.replace replacement s).1 q ∧ q.Finished n ∧
      (n.replace replacement s).2 = q.bytes) ∧
    (∀ spans q, Replaces n replacement ⟨0, s⟩ spans q →
      spans.length ≤ s.length ∧
      Rewritten s replacement (origins replacement 0 0 spans) q.bytes) ∧
    ∀ p span spans q, Progress.Next n p span → Replaces n replacement (p.put replacement span) spans q →
      q.bytes.take (span.start + replacement.length) = p.bytes.take span.start ++ replacement := by
  refine ⟨exists_replaces_all n replacement s,
    fun spans q replaces => ⟨replaces.length_le, replaces.rewritten⟩, ?_⟩
  intro p span spans q next later
  have kept := Progress.take_put replacement next 0
  rw [List.take_zero, List.append_nil, Nat.add_zero] at kept
  rw [later.take_eq (Nat.le_add_right _ _), kept]

/-- `^b` on `bbx`: what is removed first makes room for a match at the start again, which was the
second byte of the original. -/
theorem replace_apart_at_start :
    ∃ q : Pattern, q = .ofText "^b" true false 1024 ∧
      (Needle.pattern q).replace [] [0x62, 0x62, 0x78] = ([⟨0, 1⟩, ⟨0, 1⟩], [0x78]) ∧
      Rewritten [0x62, 0x62, 0x78] [] [⟨0, 1⟩, ⟨1, 1⟩] [0x78] := by
  have compiled : Pattern.compile [0x5e, 0x62] true false 1024 =
      .ok ⟨[.assertion .subjectStart, .atom (.byte 0x62), .stop], 3, true⟩ :=
    Pattern.compile_eq_ok (by decide) (by cbv) rfl
  have replaced : (Needle.pattern ⟨"^b", true, false, 1024, some ⟨[.assertion .subjectStart,
      .atom (.byte 0x62), .stop], 3, true⟩, none⟩).replace [] [0x62, 0x62, 0x78] =
        ([⟨0, 1⟩, ⟨0, 1⟩], [0x78]) := by
    decide
  obtain ⟨⟨q, replaces, -, bytes⟩, rewritten, -⟩ := replace_apart (.pattern ⟨"^b", true, false, 1024,
    some ⟨[.assertion .subjectStart, .atom (.byte 0x62), .stop], 3, true⟩, none⟩) [] [0x62, 0x62, 0x78]
  rw [replaced] at replaces bytes
  have spans := (rewritten _ _ replaces).2
  rw [← bytes] at spans
  refine ⟨_, Eq.symm ?_, replaced, spans⟩
  exact Pattern.ofText_of_ok compiled

end Needle

end Bytewise
