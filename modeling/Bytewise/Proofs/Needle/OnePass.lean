/-
# Bytewise.Proofs.Needle.OnePass -- replacing in the original, in one pass

`rewrite` goes over the original bytes once: up to the leftmost occurrence it keeps
them, then it puts the replacement, and behind the occurrence it begins again with the
bytes that are left, none of which it has changed.

`Needle.replace` searches bytes that it has already changed, but only behind what it
has put in.  There stand the bytes that `rewrite` begins again with, and a needle that
does not look behind finds in them the same (`find?_behind`).  So both give the same
bytes (`Replaces.bytes_eq_rewrite`).
-/
import Bytewise.Proofs.Needle.Replacing

namespace Bytewise

set_option autoImplicit false

namespace Needle

open Pattern (Span)

/-! ## One pass -/

/-- Replaces the leftmost occurrence and goes on with the bytes behind it.  Behind an empty occurrence
one byte is kept. -/
def rewrite (n : Needle) (replacement s : Bytes) : Bytes :=
  if _left : s = [] then []
  else
    match n.find? (.ofBytes s) 0 with
    | none => s
    | some span =>
      s.take span.start ++ replacement ++ (s.drop span.stop).take (Progress.passed span)
        ++ rewrite n replacement (s.drop (span.stop + Progress.passed span))
  termination_by s.length
  decreasing_by
    have := List.length_pos_iff.2 _left
    have := Progress.length_add_passed_pos span
    rw [List.length_drop, Span.stop]
    omega

variable {n : Needle} {replacement s : Bytes} {p q : Progress} {span : Span} {spans : List Span}

theorem rewrite_nil : rewrite n replacement [] = [] := by
  rw [rewrite, dif_pos rfl]

theorem rewrite_of_absent (absent : n.find? (.ofBytes s) 0 = none) : rewrite n replacement s = s := by
  by_cases left : s = []
  · rw [left, rewrite_nil]
  · rw [rewrite, dif_neg left, absent]

theorem rewrite_of_found (left : s ≠ []) (found : n.find? (.ofBytes s) 0 = some span) :
    rewrite n replacement s =
      s.take span.start ++ replacement ++ (s.drop span.stop).take (Progress.passed span)
        ++ rewrite n replacement (s.drop (span.stop + Progress.passed span)) := by
  rw [rewrite, dif_neg left, found]

/-! ## Both ways -/

/-- What is found behind a position is what is found in the bytes there. -/
theorem find?_behind (ahead : n.LooksAhead) {i : Nat} (inside : i ≤ s.length) :
    n.find? (.ofBytes s) i = (n.find? (.ofBytes (s.drop i)) 0).map (shifted i) := by
  have continues : (Subject.ofBytes s).Continues i (.ofBytes (s.drop i)) := by
    refine Subject.continues_drop ?_ _ (by rw [Subject.toList_ofBytes])
    rwa [Subject.size_eq, Subject.toList_ofBytes]
  exact find?_add continues (ahead.alike continues) 0

theorem stop_shifted (k : Nat) (span : Span) : (shifted k span).stop = k + span.stop :=
  Nat.add_assoc k span.start span.length

theorem passed_shifted (k : Nat) (span : Span) :
    Progress.passed (shifted k span) = Progress.passed span := rfl

/-- A run up to where it cannot go on makes one pass over the bytes that were left. -/
theorem Replaces.bytes_eq_rewrite (replaces : Replaces n replacement p spans q)
    (ahead : n.LooksAhead) (finished : q.Finished n) :
    q.bytes = p.bytes.take p.index ++ rewrite n replacement (p.bytes.drop p.index) := by
  induction replaces with
  | nothing p =>
      by_cases left : p.index < p.bytes.length
      · have nothing := finished.resolve_left (Nat.not_le.2 left)
        rw [find?_behind ahead (Nat.le_of_lt left), Option.map_eq_none_iff] at nothing
        rw [rewrite_of_absent nothing, List.take_append_drop]
      · have gone := Nat.le_of_not_lt left
        rw [List.drop_eq_nil_of_le gone, rewrite_nil, List.append_nil, List.take_of_length_le gone]
  | @next p q span spans next later ih =>
      have found := next.found
      rw [find?_behind ahead (Nat.le_of_lt next.unfinished), Option.map_eq_some_iff] at found
      obtain ⟨span, found, rfl⟩ := found
      have left : p.bytes.drop p.index ≠ [] := by
        rw [Ne, List.drop_eq_nil_iff, Nat.not_le]
        exact next.unfinished
      have behind : ∀ i, (p.bytes.drop p.index).drop i = p.bytes.drop (p.index + i) :=
        fun i => List.drop_drop
      rw [ih finished, Progress.index_put, Progress.take_put replacement next,
        Progress.drop_put replacement next, rewrite_of_found left found, stop_shifted, passed_shifted,
        behind, behind, shifted, List.take_add]
      simp only [List.append_assoc, Nat.add_assoc]

/-- What is left by replacing is what one pass over the original gives. -/
theorem replace_eq_rewrite (ahead : n.LooksAhead) (replacement s : Bytes) :
    (n.replace replacement s).2 = rewrite n replacement s := by
  obtain ⟨q, replaces, finished, bytes⟩ := exists_replaces_all n replacement s
  have same := replaces.bytes_eq_rewrite ahead finished
  rw [List.take_zero, List.nil_append, List.drop_zero] at same
  exact bytes.trans same

/-! ## The leftmost occurrence -/

theorem find?_zero_eq_some_iff {span : Span} :
    n.find? (.ofBytes s) 0 = some span ↔
      IsLeast {j | j ∈ n.occurrences (.ofBytes s)} span.start ∧
        n.matchLength? (.ofBytes s) span.start = some span.length := by
  simp only [find?_eq_some_iff, Nat.zero_le, and_true]

theorem find?_zero_eq_none_iff :
    n.find? (.ofBytes s) 0 = none ↔ n.occurrences (.ofBytes s) = ∅ := by
  rw [find?_eq_none_iff, Finset.eq_empty_iff_forall_notMem]
  simp only [Nat.not_lt_zero, imp_false]

/-- **Replacing is one pass over the original.**  Let the needle not look behind: bytes with or
without regard to case, or a pattern that asserts nothing but the end, an invalid one included.  Then
`rewrite` goes over the bytes as the clauses say, from one leftmost occurrence to the next, and
replacing leaves the same bytes.  No clause looks into the replacement, even if the needle stands in it. -/
theorem replace_one_pass (ahead : n.LooksAhead) (replacement : Bytes) :
    rewrite n replacement [] = [] ∧
    (∀ s, n.occurrences (.ofBytes s) = ∅ → rewrite n replacement s = s) ∧
    (∀ s i length, IsLeast {j | j ∈ n.occurrences (.ofBytes s)} i →
      n.matchLength? (.ofBytes s) i = some length → 0 < length →
      rewrite n replacement s =
        s.take i ++ replacement ++ rewrite n replacement (s.drop (i + length))) ∧
    (∀ s i, s ≠ [] → IsLeast {j | j ∈ n.occurrences (.ofBytes s)} i →
      n.matchLength? (.ofBytes s) i = some 0 →
      rewrite n replacement s =
        s.take i ++ replacement ++ (s.drop i).take 1 ++ rewrite n replacement (s.drop (i + 1))) ∧
    ∀ s, (n.replace replacement s).2 = rewrite n replacement s := by
  refine ⟨rewrite_nil, fun s nowhere => rewrite_of_absent (find?_zero_eq_none_iff.2 nowhere),
    ?_, ?_, replace_eq_rewrite ahead replacement⟩
  · intro s i length leftmost found positive
    have left : s ≠ [] := by
      rintro rfl
      have fits := matchLength?_fits found
      rw [Subject.size_eq, Subject.toList_ofBytes, List.length_nil] at fits
      omega
    have passed : Progress.passed ⟨i, length⟩ = 0 := if_neg (Nat.ne_of_gt positive)
    have first : n.find? (.ofBytes s) 0 = some ⟨i, length⟩ :=
      find?_zero_eq_some_iff.2 ⟨leftmost, found⟩
    rw [rewrite_of_found left first, passed, Span.stop, List.take_zero, List.append_nil, Nat.add_zero]
  · intro s i left leftmost found
    have passed : Progress.passed ⟨i, 0⟩ = 1 := if_pos rfl
    have first : n.find? (.ofBytes s) 0 = some ⟨i, 0⟩ := find?_zero_eq_some_iff.2 ⟨leftmost, found⟩
    rw [rewrite_of_found left first, passed, Span.stop, Nat.add_zero]

/-- `b*$` on `ba`: what is put in at the end would be found there again. -/
theorem replace_one_pass_at_end :
    ∃ q : Pattern, q = .ofText "b*$" true false 1024 ∧ (Needle.pattern q).LooksAhead ∧
      ((Needle.pattern q).replace [0x62] [0x62, 0x61]).2 = [0x62, 0x61, 0x62] ∧
      rewrite (.pattern q) [0x62] [0x62, 0x61] = [0x62, 0x61, 0x62] := by
  have compiled : Pattern.compile [0x62, 0x2a, 0x24] true false 1024 =
      .ok ⟨[.closure, .atom (.byte 0x62), .stop, .assertion .subjectEnd, .stop], 5, true⟩ :=
    Pattern.compile_eq_ok (by decide) (by cbv) rfl
  have ahead : (Needle.pattern ⟨"b*$", true, false, 1024, some ⟨[.closure, .atom (.byte 0x62),
      .stop, .assertion .subjectEnd, .stop], 5, true⟩, none⟩).LooksAhead := by
    rintro p program a member
    cases program
    simpa using member
  obtain ⟨-, -, -, -, same⟩ := replace_one_pass ahead [0x62]
  refine ⟨_, Eq.symm ?_, ahead, by decide, (same _).symm.trans (by decide)⟩
  exact Pattern.ofText_of_ok compiled

end Needle

end Bytewise
