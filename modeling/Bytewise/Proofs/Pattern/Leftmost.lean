/-
# Bytewise.Proofs.Pattern.Leftmost -- searching is trying every position

`Program.search` has two shortcuts.  Neither loses a match nor moves one:

* a program that starts with the start of the subject matches nowhere but at
  position 0 (`matchEnd?_of_subjectStart`), so what is behind `start` need not be
  tried;
* a program that starts with a literal byte matches nowhere but where that byte
  stands (`matchEnd?_of_byte`), so the other positions may be passed over, and
  the end of the subject too.

So a search is the plain scan (`search_eq_scan`), and a scan finds the least
position that has a match (`scan_eq_some_iff`, `scan_eq_none_iff`).
`compile_leftmost` says so of compiled patterns.
-/
import Bytewise.Proofs.Pattern.Greedy
import Bytewise.Proofs.Positions

namespace Bytewise.Pattern

set_option autoImplicit false

namespace Program

variable {p : Program} {subject : Subject}

/-! ## The match at one position -/

theorem matchAt?_eq_none_iff {i : Nat} :
    p.matchAt? subject i = none ↔ p.matchEnd? subject i = none := by
  simp [matchAt?]

theorem start_of_matchAt? {i : Nat} {span : Span} (found : p.matchAt? subject i = some span) :
    span.start = i := by
  obtain ⟨e, -, rfl⟩ := Option.map_eq_some_iff.1 found
  rfl

theorem matchEnd?_outside {i : Nat} (outside : subject.size < i) : p.matchEnd? subject i = none := by
  simp [matchEnd?, Nat.not_le.2 outside]

/-- Only position 0 is the start of the subject. -/
theorem matchEnd?_of_subjectStart {i : Nat} (first : p.first? = some (.assertion .subjectStart))
    (behind : 0 < i) : p.matchEnd? subject i = none := by
  by_cases inside : i ≤ subject.size
  · obtain ⟨code, shape⟩ := List.head?_eq_some_iff.1 first
    have refused : Assertion.subjectStart.holds subject i = false := by
      simpa [Assertion.holds] using Nat.ne_of_gt behind
    have nothing : p.run subject i = .ok none := by
      rw [Program.run, shape, Matching.run_assertion inside, refused]
      rfl
    simp [matchEnd?, nothing]
  · exact matchEnd?_outside (Nat.lt_of_not_le inside)

/-- A literal byte in front is not passed without a byte that equals it up to folding. -/
theorem matchEnd?_of_byte {c : UInt8} {i : Nat} (first : p.first? = some (.atom (.byte c)))
    (refused : (subject.get? i).any (fun b => Byte.fold p.caseSensitive b == c) = false) :
    p.matchEnd? subject i = none := by
  by_cases inside : i ≤ subject.size
  · obtain ⟨code, shape⟩ := List.head?_eq_some_iff.1 first
    have refused' : (subject.get? i).any ((Atom.byte c).accepts p.caseSensitive) = false := refused
    have nothing : p.run subject i = .ok none := by
      rw [Program.run, shape, Matching.run_atom inside, refused']
      rfl
    simp [matchEnd?, nothing]
  · exact matchEnd?_outside (Nat.lt_of_not_le inside)

theorem matchEnd?_of_byte_at_end {c : UInt8} (first : p.first? = some (.atom (.byte c))) :
    p.matchEnd? subject subject.size = none := by
  refine matchEnd?_of_byte first ?_
  have nothing : subject.get? subject.size = none := by
    rw [Subject.get?_eq, Subject.size_eq]
    exact List.getElem?_eq_none (Nat.le_refl _)
  rw [nothing]
  rfl

/-! ## The plain scan -/

theorem scan_eq_findSome? (count i : Nat) :
    p.scan subject count i = (List.range' i count).findSome? (p.matchAt? subject) := by
  induction count generalizing i with
  | zero => rfl
  | succ count ih =>
      rw [scan, List.range'_succ, List.findSome?_cons, ih]
      cases p.matchAt? subject i <;> rfl

theorem scan_eq_none_iff {count i : Nat} :
    p.scan subject count i = none ↔
      ∀ j, i ≤ j → j < i + count → p.matchAt? subject j = none := by
  rw [scan_eq_findSome?, findSome?_range'_eq_none_iff]

theorem scan_eq_some_iff {count i : Nat} {span : Span} :
    p.scan subject count i = some span ↔
      i ≤ span.start ∧ span.start < i + count ∧
        (∀ j, i ≤ j → j < span.start → p.matchAt? subject j = none) ∧
        p.matchAt? subject span.start = some span := by
  rw [scan_eq_findSome?, findSome?_range'_eq_some_iff]
  constructor
  · rintro ⟨j, above, below, nothing, found⟩
    obtain rfl := start_of_matchAt? found
    exact ⟨above, below, nothing, found⟩
  · rintro ⟨above, below, nothing, found⟩
    exact ⟨span.start, above, below, nothing, found⟩

/-- A last position without a match may be left out. -/
theorem scan_succ {count i : Nat} (last : p.matchAt? subject (i + count) = none) :
    p.scan subject (count + 1) i = p.scan subject count i := by
  rw [scan_eq_findSome?, scan_eq_findSome?]
  refine findSome?_range'_add fun j above below => ?_
  rwa [show j = i + count by omega]

/-- Where no later position has a match, the first one decides. -/
theorem scan_eq_matchAt? {count i : Nat}
    (behind : ∀ j, i < j → p.matchAt? subject j = none) :
    p.scan subject (count + 1) i = p.matchAt? subject i := by
  have nothing : p.scan subject count (i + 1) = none :=
    scan_eq_none_iff.2 fun j above _ => behind j above
  rw [scan, nothing]
  cases p.matchAt? subject i <;> rfl

/-- Passing over positions that have no match does not change what is found. -/
theorem scanByte_eq_scan {c : UInt8} (first : p.first? = some (.atom (.byte c))) (count i : Nat) :
    p.scanByte c subject count i = p.scan subject count i := by
  induction count generalizing i with
  | zero => rfl
  | succ count ih =>
      rw [scanByte, scan, ih]
      by_cases stands : (subject.get? i).any (fun b => Byte.fold p.caseSensitive b == c) = true
      · rw [if_pos stands]
      · rw [if_neg stands, matchAt?_eq_none_iff.2 (matchEnd?_of_byte first (by simpa using stands))]

/-- **The shortcuts of a search change nothing.**  This holds of every program, compiled or not. -/
theorem search_eq_scan {start : Nat} (inside : start ≤ subject.size) :
    p.search subject start = p.scan subject (subject.size - start + 1) start := by
  rw [search, if_pos inside]
  split
  · rename_i first
    refine (scan_eq_matchAt? fun j behind => ?_).symm
    exact matchAt?_eq_none_iff.2 (matchEnd?_of_subjectStart first (by omega))
  · rename_i c first
    have last : p.matchAt? subject (start + (subject.size - start)) = none := by
      rw [Nat.add_sub_cancel' inside]
      exact matchAt?_eq_none_iff.2 (matchEnd?_of_byte_at_end first)
    rw [scanByte_eq_scan first, scan_succ last]
  · rfl

theorem search_outside {start : Nat} (outside : subject.size < start) :
    p.search subject start = none := by
  simp [search, Nat.not_le.2 outside]

theorem search_eq_none_iff {start : Nat} :
    p.search subject start = none ↔
      ∀ j, start ≤ j → j ≤ subject.size → p.matchEnd? subject j = none := by
  by_cases inside : start ≤ subject.size
  · rw [search_eq_scan inside, scan_eq_none_iff]
    simp only [matchAt?_eq_none_iff]
    constructor
    · intro nothing j above below
      exact nothing j above (by omega)
    · intro nothing j above below
      exact nothing j above (by omega)
  · simp only [search_outside (Nat.lt_of_not_le inside), true_iff]
    intro j above below
    omega

end Program

/-! ## Compiled patterns -/

section

variable {text : Bytes} {caseSensitive wildcard : Bool} {maxCells : Nat} {p : Program}

/-- A match ends between its start and the end of the subject. -/
theorem bounds_of_matchEnd? (compiled : compile text caseSensitive wildcard maxCells = .ok p)
    {subject : Subject} {i e : Nat} (found : p.matchEnd? subject i = some e) :
    i ≤ e ∧ e ≤ subject.size := by
  obtain ⟨inside, ends⟩ := Program.le_size_of_matchEnd? found
  obtain ⟨nodes, parsed, -, -⟩ := exists_nodes_of_compile compiled
  have answers := answers_matchEnd? compiled parsed subject inside
  obtain ⟨counts, greatest⟩ := answers.eq_some_iff.1 found
  exact ⟨greatest.1.le, ends⟩

theorem matchAt?_eq_some_iff (compiled : compile text caseSensitive wildcard maxCells = .ok p)
    {subject : Subject} {i length : Nat} :
    p.matchAt? subject i = some ⟨i, length⟩ ↔ p.matchEnd? subject i = some (i + length) := by
  cases found : p.matchEnd? subject i with
  | none => simp [Program.matchAt?, found]
  | some e =>
      have := (bounds_of_matchEnd? compiled found).1
      simp only [Program.matchAt?, found, Option.map_some, Option.some.injEq, Span.mk.injEq,
        true_and]
      omega

theorem search_eq_some_iff (compiled : compile text caseSensitive wildcard maxCells = .ok p)
    {subject : Subject} {start i length : Nat} :
    p.search subject start = some ⟨i, length⟩ ↔
      start ≤ i ∧ i ≤ subject.size ∧
        (∀ j, start ≤ j → j < i → p.matchEnd? subject j = none) ∧
        p.matchEnd? subject i = some (i + length) := by
  by_cases inside : start ≤ subject.size
  · have last : i < start + (subject.size - start + 1) ↔ i ≤ subject.size := by omega
    rw [Program.search_eq_scan inside, Program.scan_eq_some_iff, last,
      matchAt?_eq_some_iff compiled]
    simp only [Program.matchAt?_eq_none_iff]
  · rw [Program.search_outside (Nat.lt_of_not_le inside)]
    simp only [reduceCtorEq, false_iff]
    rintro ⟨above, below, -⟩
    omega

/-- What a pattern finds, in terms of its program. -/
theorem find?_eq {q : Pattern} (program : q.program? = some p) (subject : Subject) (start : Nat) :
    q.find? subject start = p.search subject start := by
  simp [find?, program]

end

/-- **A search finds the leftmost match, whichever way it goes.**  It answers with the least
position at or after `start` that has a match, and with where that match ends; it answers with
nothing exactly if no position up to the end of the subject has one.  In particular it agrees with
trying one position after the other. -/
theorem compile_leftmost {text : Bytes} {caseSensitive wildcard : Bool} {maxCells : Nat}
    {p : Program} (compiled : compile text caseSensitive wildcard maxCells = .ok p)
    (subject : Subject) (start : Nat) :
    (∀ i length, p.search subject start = some ⟨i, length⟩ ↔
      start ≤ i ∧ i ≤ subject.size ∧
        (∀ j, start ≤ j → j < i → p.matchEnd? subject j = none) ∧
        p.matchEnd? subject i = some (i + length)) ∧
    (∀ span, p.search subject start = some span → span.stop ≤ subject.size) ∧
    (p.search subject start = none ↔
      ∀ j, start ≤ j → j ≤ subject.size → p.matchEnd? subject j = none) ∧
    (subject.size < start → p.search subject start = none) ∧
    (start ≤ subject.size →
      p.search subject start = p.scan subject (subject.size - start + 1) start) ∧
    ∀ q : Pattern, q.program? = some p → q.find? subject start = p.search subject start := by
  refine ⟨fun i length => search_eq_some_iff compiled, fun span found => ?_,
    Program.search_eq_none_iff, Program.search_outside, Program.search_eq_scan,
    fun q program => find?_eq program subject start⟩
  obtain ⟨-, -, -, ends⟩ := (search_eq_some_iff compiled).1 found
  exact (bounds_of_matchEnd? compiled ends).2

/-- `Ab` without regard to case on `xaBAb`, from the second byte of the first match on: the literal
byte stands once more, and a search from behind the end finds nothing. -/
theorem compile_leftmost_ignoring_case :
    ∃ p, compile [0x41, 0x62] false false 1024 = .ok p ∧
      p.search (.ofBytes [0x78, 0x61, 0x42, 0x41, 0x62]) 2 = some ⟨3, 2⟩ ∧
      (∀ j, 2 ≤ j → j < 3 → p.matchEnd? (.ofBytes [0x78, 0x61, 0x42, 0x41, 0x62]) j = none) ∧
      p.matchEnd? (.ofBytes [0x78, 0x61, 0x42, 0x41, 0x62]) 3 = some 5 ∧
      p.search (.ofBytes [0x78, 0x61, 0x42, 0x41, 0x62]) 6 = none := by
  have compiled : compile [0x41, 0x62] false false 1024 =
      .ok ⟨[.atom (.byte 0x61), .atom (.byte 0x62), .stop], 3, false⟩ :=
    compile_eq_ok (by decide) (by cbv) rfl
  have found : Program.search ⟨[.atom (.byte 0x61), .atom (.byte 0x62), .stop], 3, false⟩
      (.ofBytes [0x78, 0x61, 0x42, 0x41, 0x62]) 2 = some ⟨3, 2⟩ := by decide
  obtain ⟨leftmost, -⟩ := compile_leftmost compiled (.ofBytes [0x78, 0x61, 0x42, 0x41, 0x62]) 2
  obtain ⟨-, -, -, outside, -⟩ :=
    compile_leftmost compiled (.ofBytes [0x78, 0x61, 0x42, 0x41, 0x62]) 6
  obtain ⟨-, -, nothing, ends⟩ := (leftmost 3 2).1 found
  exact ⟨_, compiled, found, nothing, ends, outside (by decide)⟩

end Bytewise.Pattern
