/-
# Bytewise.Proofs.Needle.Occurrences -- every question is about one set of positions

A needle occurs at a position if `matchLength?` gives a length there, and
`occurrences` is the set of these positions.  The searches do not look alike: a
byte and a byte string are looked for directly, a pattern has a search of its
own, and case is ignored one position after the other.  Still each of them comes
to the same as asking every position that is left (`find?_eq_findSome?`), because

* an occurrence ends inside the subject (`matchLength?_fits`), so the last
  positions may be left out when a byte string is looked for;
* the search of a pattern asks every position too (`Program.search_eq_scan`).

So `find?` is the least occurrence from a position on, `findLast?` the greatest
one up to a position, and `count`, which goes on right behind the start of each
occurrence, passes over none of them (`countFrom_eq_card`).
-/
import Mathlib.Data.Finset.Card
import Mathlib.Order.Bounds.Basic
import Bytewise.Proofs.Pattern.Leftmost
import Bytewise.Strings.Store

namespace Bytewise

set_option autoImplicit false

namespace Needle

open Pattern (Span)

variable {n : Needle} {hay : Subject}

/-! ## Occurrences end inside the subject -/

theorem startsAt_fits {same : UInt8 → UInt8 → Bool} {w : Bytes} {i : Nat} (nonempty : w ≠ [])
    (starts : startsAt same hay w i = true) : i + w.length ≤ hay.size := by
  induction w generalizing i with
  | nil => exact absurd rfl nonempty
  | cons b w ih =>
      obtain ⟨here, behind⟩ := Bool.and_eq_true_iff.1 starts
      obtain ⟨c, found, -⟩ := (Option.any_eq_true _ _).1 here
      have inside := Pattern.Matching.lt_size_of_get? found
      rw [List.length_cons]
      cases w with
      | nil => exact inside
      | cons c w =>
          have := ih (List.cons_ne_nil c w) behind
          omega

theorem matchLength?_pattern_eq_some_iff {q : Pattern} {i length : Nat} :
    matchLength? (.pattern q) hay i = some length ↔
      ∃ p e, q.program? = some p ∧ p.matchEnd? hay i = some e ∧ e - i = length := by
  simp only [matchLength?, Pattern.matchLength?, Option.bind_eq_some_iff, Option.map_eq_some_iff]
  constructor
  · rintro ⟨p, program, e, found, ends⟩
    exact ⟨p, e, program, found, ends⟩
  · rintro ⟨p, e, program, found, ends⟩
    exact ⟨p, program, e, found, ends⟩

/-- An occurrence ends inside the subject, and so does not start behind it. -/
theorem matchLength?_fits {i length : Nat} (found : n.matchLength? hay i = some length) :
    i + length ≤ hay.size := by
  cases n with
  | byte b =>
      rw [matchLength?] at found
      split at found
      · cases found
        exact Pattern.Matching.lt_size_of_get? (by assumption)
      · cases found
  | bytes w =>
      rw [matchLength?] at found
      split at found
      · rename_i occurs
        cases found
        exact startsAt_fits occurs.1 occurs.2
      · cases found
  | ignoringCase w =>
      rw [matchLength?] at found
      split at found
      · rename_i occurs
        cases found
        exact startsAt_fits occurs.1 occurs.2
      · cases found
  | pattern q =>
      obtain ⟨p, e, -, ends, rfl⟩ := matchLength?_pattern_eq_some_iff.1 found
      have := Pattern.Program.le_size_of_matchEnd? ends
      omega

/-! ## Asking every position -/

/-- The occurrence that starts at exactly position `i`. -/
def spanAt? (n : Needle) (hay : Subject) (i : Nat) : Option Span :=
  (n.matchLength? hay i).map fun length => ⟨i, length⟩

theorem spanAt?_eq_none_iff {i : Nat} : n.spanAt? hay i = none ↔ n.matchLength? hay i = none := by
  rw [spanAt?, Option.map_eq_none_iff]

theorem spanAt?_eq_some_iff {i : Nat} {span : Span} :
    n.spanAt? hay i = some span ↔
      span.start = i ∧ n.matchLength? hay i = some span.length := by
  rw [spanAt?, Option.map_eq_some_iff]
  constructor
  · rintro ⟨length, found, rfl⟩
    exact ⟨rfl, found⟩
  · rintro ⟨rfl, found⟩
    exact ⟨span.length, found, rfl⟩

/-- Where no occurrence would fit, there is none. -/
theorem spanAt?_eq_none_of_unfit {i : Nat}
    (unfit : ∀ length, n.matchLength? hay i = some length → hay.size < i + length) :
    n.spanAt? hay i = none := by
  refine spanAt?_eq_none_iff.2 (Option.eq_none_iff_forall_ne_some.2 fun length found => ?_)
  exact absurd (matchLength?_fits found) (Nat.not_le.2 (unfit length found))

theorem scan_eq_findSome? (count i : Nat) :
    n.scan hay count i = (List.range' i count).findSome? (n.spanAt? hay) := by
  induction count generalizing i with
  | zero => rfl
  | succ count ih =>
      rw [scan, List.range'_succ, List.findSome?_cons, ih, spanAt?]
      cases n.matchLength? hay i <;> rfl

/-- Looking for the first position that passes a test is asking every position, if the needle
occurs just where the test passes. -/
theorem firstPosition?_eq_findSome? {test : Nat → Bool} {length : Nat}
    (occurs : ∀ j, n.matchLength? hay j = if test j then some length else none) (count i : Nat) :
    (firstPosition? test count i).map (fun j => (⟨j, length⟩ : Span)) =
      (List.range' i count).findSome? (n.spanAt? hay) := by
  induction count generalizing i with
  | zero => rfl
  | succ count ih =>
      rw [firstPosition?, List.range'_succ, List.findSome?_cons, ← ih, spanAt?, occurs]
      cases test i <;> rfl

/-! ## Every search asks every position -/

theorem find?_byte (b : UInt8) (start : Nat) :
    find? (.byte b) hay start =
      (List.range' start (hay.size + 1 - start)).findSome? (spanAt? (.byte b) hay) := by
  have occurs : ∀ j, matchLength? (.byte b) hay j =
      if hay.get? j == some b then some 1 else none := by
    intro j
    simp [matchLength?]
  rw [find?, firstPosition?_eq_findSome? occurs]
  by_cases inside : start ≤ hay.size
  · rw [Nat.sub_add_comm inside]
    refine (findSome?_range'_add fun j above _ => spanAt?_eq_none_iff.2 ?_).symm
    have nothing : hay.get? j = none := by
      rw [Subject.get?_eq]
      refine List.getElem?_eq_none ?_
      rw [← Subject.size_eq]
      omega
    rw [occurs, nothing]
    rfl
  · rw [show hay.size + 1 - start = hay.size - start by omega]

theorem find?_bytes (w : Bytes) (start : Nat) :
    find? (.bytes w) hay start =
      (List.range' start (hay.size + 1 - start)).findSome? (spanAt? (.bytes w) hay) := by
  have whole : ∀ j length, matchLength? (.bytes w) hay j = some length →
      w ≠ [] ∧ length = w.length := by
    intro j length found
    rw [matchLength?] at found
    split at found
    · rename_i occurs
      exact ⟨occurs.1, (Option.some.inj found).symm⟩
    · cases found
  rw [find?]
  split
  · rename_i refused
    refine (findSome?_range'_eq_none_iff.2 fun j above below => ?_).symm
    refine spanAt?_eq_none_of_unfit fun length found => ?_
    obtain ⟨nonempty, rfl⟩ := whole j length found
    rcases refused with empty | tooLong
    · exact absurd empty nonempty
    · omega
  · rename_i accepted
    obtain ⟨nonempty, inside, room⟩ := by simpa only [not_or] using accepted
    have occurs : ∀ j, matchLength? (.bytes w) hay j =
        if startsAt (· == ·) hay w j then some w.length else none := by
      intro j
      simp [matchLength?, nonempty]
    have split_off : hay.size + 1 - start = hay.size - start - w.length + 1 + w.length := by omega
    rw [firstPosition?_eq_findSome? occurs, split_off]
    refine (findSome?_range'_add fun j above _ => ?_).symm
    refine spanAt?_eq_none_of_unfit fun length found => ?_
    obtain ⟨-, rfl⟩ := whole j length found
    omega

theorem find?_pattern (q : Pattern) (start : Nat) :
    find? (.pattern q) hay start =
      (List.range' start (hay.size + 1 - start)).findSome? (spanAt? (.pattern q) hay) := by
  rw [find?, Pattern.find?]
  cases program : q.program? with
  | none =>
      refine (findSome?_range'_eq_none_iff.2 fun j _ _ => spanAt?_eq_none_iff.2 ?_).symm
      simp [matchLength?, Pattern.matchLength?, program]
  | some p =>
      have same : spanAt? (.pattern q) hay = p.matchAt? hay := by
        funext i
        simp [spanAt?, matchLength?, Pattern.matchLength?, program, Pattern.Program.matchAt?,
          Function.comp_def]
      rw [Option.bind_some, same]
      by_cases inside : start ≤ hay.size
      · rw [Pattern.Program.search_eq_scan inside, Pattern.Program.scan_eq_findSome?,
          Nat.sub_add_comm inside]
      · have outside := Nat.lt_of_not_le inside
        rw [Pattern.Program.search_outside outside, Nat.sub_eq_zero_of_le outside]
        rfl

/-- However a needle is looked for, it comes to asking every position that is left. -/
theorem find?_eq_findSome? (n : Needle) (hay : Subject) (start : Nat) :
    n.find? hay start =
      (List.range' start (hay.size + 1 - start)).findSome? (n.spanAt? hay) := by
  cases n with
  | byte b => exact find?_byte b start
  | bytes w => exact find?_bytes w start
  | ignoringCase w => exact scan_eq_findSome? _ _
  | pattern q => exact find?_pattern q start

/-! ## The set of occurrences -/

/-- The positions where the needle occurs. -/
def occurrences (n : Needle) (hay : Subject) : Finset Nat :=
  (Finset.range (hay.size + 1)).filter fun i => (n.matchLength? hay i).isSome

theorem mem_occurrences_iff {i : Nat} :
    i ∈ n.occurrences hay ↔ (n.matchLength? hay i).isSome = true := by
  rw [occurrences, Finset.mem_filter, Finset.mem_range]
  constructor
  · exact And.right
  · intro occurs
    obtain ⟨length, found⟩ := Option.isSome_iff_exists.1 occurs
    have := matchLength?_fits found
    exact ⟨by omega, occurs⟩

theorem notMem_occurrences_iff {i : Nat} : i ∉ n.occurrences hay ↔ n.matchLength? hay i = none := by
  rw [mem_occurrences_iff, Option.not_isSome_iff_eq_none]

theorem le_size_of_mem_occurrences {i : Nat} (occurs : i ∈ n.occurrences hay) : i ≤ hay.size := by
  obtain ⟨length, found⟩ := Option.isSome_iff_exists.1 (mem_occurrences_iff.1 occurs)
  exact Nat.le_trans (Nat.le_add_right i length) (matchLength?_fits found)

/-! ## The first and the last occurrence -/

theorem find?_eq_some_iff {start : Nat} {span : Span} :
    n.find? hay start = some span ↔
      IsLeast {j | j ∈ n.occurrences hay ∧ start ≤ j} span.start ∧
        n.matchLength? hay span.start = some span.length := by
  rw [find?_eq_findSome?, findSome?_range'_eq_some_iff]
  simp only [spanAt?_eq_none_iff, spanAt?_eq_some_iff]
  constructor
  · rintro ⟨i, above, -, nothing, rfl, found⟩
    have occurs := mem_occurrences_iff.2 (Option.isSome_of_eq_some found)
    refine ⟨⟨⟨occurs, above⟩, ?_⟩, found⟩
    rintro j ⟨earlier, low⟩
    refine Nat.le_of_not_lt fun high => ?_
    exact notMem_occurrences_iff.2 (nothing j low high) earlier
  · rintro ⟨⟨⟨occurs, above⟩, least⟩, found⟩
    have inside := le_size_of_mem_occurrences occurs
    refine ⟨span.start, above, by omega, fun j low high => ?_, rfl, found⟩
    refine notMem_occurrences_iff.1 fun earlier => ?_
    exact Nat.not_lt.2 (least ⟨earlier, low⟩) high

theorem find?_eq_none_iff {start : Nat} :
    n.find? hay start = none ↔ ∀ j ∈ n.occurrences hay, j < start := by
  rw [find?_eq_findSome?, findSome?_range'_eq_none_iff]
  simp only [spanAt?_eq_none_iff]
  constructor
  · intro nothing j occurs
    have inside := le_size_of_mem_occurrences occurs
    refine Nat.lt_of_not_le fun above => ?_
    exact notMem_occurrences_iff.2 (nothing j above (by omega)) occurs
  · intro before j above _
    refine notMem_occurrences_iff.1 fun occurs => ?_
    exact Nat.not_lt.2 above (before j occurs)

/-- Going back from a position, the first occurrence met is the greatest up to there. -/
theorem lastPosition?_spec (n : Needle) (hay : Subject) (start : Nat) :
    (∃ i, n.lastPosition? hay start = some i ∧
      IsGreatest {j | j ∈ n.occurrences hay ∧ j ≤ start} i) ∨
    (n.lastPosition? hay start = none ∧ ∀ j ∈ n.occurrences hay, start < j) := by
  induction start with
  | zero =>
      by_cases occurs : 0 ∈ n.occurrences hay
      · exact .inl ⟨0, if_pos (mem_occurrences_iff.1 occurs),
          ⟨occurs, Nat.le_refl 0⟩, fun _ earlier => earlier.2⟩
      · refine .inr ⟨if_neg fun here => occurs (mem_occurrences_iff.2 here), fun j occurs' => ?_⟩
        refine Nat.pos_of_ne_zero ?_
        rintro rfl
        exact occurs occurs'
  | succ start ih =>
      by_cases occurs : start + 1 ∈ n.occurrences hay
      · exact .inl ⟨start + 1, if_pos (mem_occurrences_iff.1 occurs),
          ⟨occurs, Nat.le_refl _⟩, fun _ earlier => earlier.2⟩
      · have passed : n.lastPosition? hay (start + 1) = n.lastPosition? hay start :=
          if_neg fun here => occurs (mem_occurrences_iff.2 here)
        have other : ∀ j ∈ n.occurrences hay, j ≠ start + 1 := by
          rintro j occurs' rfl
          exact occurs occurs'
        rw [passed]
        rcases ih with ⟨i, found, ⟨occurs', low⟩, greatest⟩ | ⟨nothing, later⟩
        · refine .inl ⟨i, found, ⟨occurs', by omega⟩, ?_⟩
          rintro j ⟨earlier, below⟩
          have := other j earlier
          exact greatest ⟨earlier, by omega⟩
        · refine .inr ⟨nothing, fun j occurs' => ?_⟩
          have := other j occurs'
          have := later j occurs'
          omega

theorem lastPosition?_eq_some_iff {start i : Nat} :
    n.lastPosition? hay start = some i ↔
      IsGreatest {j | j ∈ n.occurrences hay ∧ j ≤ start} i := by
  rcases n.lastPosition?_spec hay start with ⟨i', found, greatest⟩ | ⟨nothing, later⟩
  · rw [found, Option.some.injEq]
    exact ⟨fun eq => eq ▸ greatest, greatest.unique⟩
  · simp only [nothing, reduceCtorEq, false_iff]
    rintro ⟨⟨occurs, low⟩, -⟩
    exact Nat.not_le.2 (later i occurs) low

theorem lastPosition?_eq_none_iff {start : Nat} :
    n.lastPosition? hay start = none ↔ ∀ j ∈ n.occurrences hay, start < j := by
  rcases n.lastPosition?_spec hay start with ⟨i, found, ⟨occurs, low⟩, -⟩ | ⟨nothing, later⟩
  · simp only [found, reduceCtorEq, false_iff]
    intro later
    exact Nat.not_le.2 (later i occurs) low
  · exact ⟨fun _ => later, fun _ => nothing⟩

theorem findLast?_eq_some_iff {start i : Nat} :
    n.findLast? hay start = some i ↔
      start ≤ hay.size ∧ IsGreatest {j | j ∈ n.occurrences hay ∧ j ≤ start} i := by
  rw [findLast?]
  split
  · rename_i inside
    simp only [inside, true_and, lastPosition?_eq_some_iff]
  · rename_i outside
    simp only [outside, false_and, reduceCtorEq]

theorem findLast?_eq_none_iff {start : Nat} :
    n.findLast? hay start = none ↔
      hay.size < start ∨ ∀ j ∈ n.occurrences hay, start < j := by
  rw [findLast?]
  split
  · rename_i inside
    simp only [Nat.not_lt.2 inside, false_or, lastPosition?_eq_none_iff]
  · rename_i outside
    simp only [Nat.lt_of_not_le outside, true_or]

/-! ## Counting -/

/-- What is counted from a position on is the number of occurrences there, if there is fuel for
each position that is left. -/
theorem countFrom_eq_card {fuel start : Nat} (enough : hay.size + 1 ≤ start + fuel) :
    n.countFrom hay fuel start = ((n.occurrences hay).filter (start ≤ ·)).card := by
  induction fuel generalizing start with
  | zero =>
      rw [countFrom, eq_comm, Finset.card_eq_zero, Finset.filter_eq_empty_iff]
      intro j occurs above
      have := le_size_of_mem_occurrences occurs
      omega
  | succ fuel ih =>
      cases found : n.find? hay start with
      | none =>
          have before := find?_eq_none_iff.1 found
          have none_left : (n.occurrences hay).filter (start ≤ ·) = ∅ :=
            Finset.filter_eq_empty_iff.2 fun j occurs => Nat.not_le.2 (before j occurs)
          rw [none_left, Finset.card_empty, countFrom, found, ite_self]
      | some span =>
          obtain ⟨⟨⟨occurs, above⟩, least⟩, -⟩ := find?_eq_some_iff.1 found
          have inside := le_size_of_mem_occurrences occurs
          have split_off : (n.occurrences hay).filter (start ≤ ·) =
              insert span.start ((n.occurrences hay).filter (span.start + 1 ≤ ·)) := by
            ext j
            rw [Finset.mem_insert, Finset.mem_filter, Finset.mem_filter]
            constructor
            · rintro ⟨occurs, above⟩
              rcases Nat.eq_or_lt_of_le (least ⟨occurs, above⟩) with eq | behind
              · exact .inl eq.symm
              · exact .inr ⟨occurs, behind⟩
            · rintro (rfl | ⟨occurs, behind⟩)
              · exact ⟨occurs, above⟩
              · exact ⟨occurs, by omega⟩
          have fresh : span.start ∉ (n.occurrences hay).filter (span.start + 1 ≤ ·) := by
            rw [Finset.mem_filter]
            rintro ⟨-, behind⟩
            omega
          rw [countFrom, if_pos (Nat.le_trans above inside), found, split_off,
            Finset.card_insert_of_notMem fresh]
          show n.countFrom hay fuel (span.start + 1) + 1 = _
          rw [ih (by omega)]

theorem count_eq_card : n.count hay = (n.occurrences hay).card := by
  rw [count, countFrom_eq_card (by omega), Finset.filter_true_of_mem fun j _ => Nat.zero_le j]

/-- **All questions are about one set of positions.**  For every kind of needle, looking forward
from a position finds the least occurrence from there on, with its length, which ends inside the
bytes; looking back finds the greatest one up to a position, or of all; and the number of
occurrences is what is counted, those that overlap and those at the very end included.  From behind
the end nothing is found in either direction. -/
theorem questions_agree (n : Needle) (s : Bytes) :
    (∀ start i length, n.find? (.ofBytes s) start = some ⟨i, length⟩ ↔
      IsLeast {j | j ∈ n.occurrences (.ofBytes s) ∧ start ≤ j} i ∧
        n.matchLength? (.ofBytes s) i = some length) ∧
    (∀ start, n.find? (.ofBytes s) start = none ↔
      ∀ j ∈ n.occurrences (.ofBytes s), j < start) ∧
    (∀ start, s.length < start → n.find? (.ofBytes s) start = none) ∧
    (∀ start span, n.find? (.ofBytes s) start = some span → span.stop ≤ s.length) ∧
    (∀ start i, (Strings.findLast? s n (some start)).1 = some i ↔
      start ≤ s.length ∧ IsGreatest {j | j ∈ n.occurrences (.ofBytes s) ∧ j ≤ start} i) ∧
    (∀ start, (Strings.findLast? s n (some start)).1 = none ↔
      s.length < start ∨ ∀ j ∈ n.occurrences (.ofBytes s), start < j) ∧
    (∀ i, (Strings.findLast? s n none).1 = some i ↔
      IsGreatest {j | j ∈ n.occurrences (.ofBytes s)} i) ∧
    ((Strings.findLast? s n none).1 = none ↔ n.occurrences (.ofBytes s) = ∅) ∧
    n.count (.ofBytes s) = (n.occurrences (.ofBytes s)).card := by
  have size : (Subject.ofBytes s).size = s.length := by
    rw [Subject.size_eq, Subject.toList_ofBytes]
  have inside : ∀ j ∈ n.occurrences (.ofBytes s), j ≤ s.length := by
    intro j occurs
    exact size ▸ le_size_of_mem_occurrences occurs
  have from_ : ∀ start, (Strings.findLast? s n (some start)).1 = n.findLast? (.ofBytes s) start := by
    intro start
    rw [Strings.findLast?]
    split
    · rfl
    · rename_i outside
      exact (findLast?_eq_none_iff.2 (.inl (by omega))).symm
  refine ⟨fun _ _ _ => find?_eq_some_iff, fun _ => find?_eq_none_iff, fun start outside => ?_,
    fun start span found => ?_, fun start i => ?_, fun start => ?_, fun i => ?_, ?_, count_eq_card⟩
  · exact find?_eq_none_iff.2 fun j occurs => Nat.lt_of_le_of_lt (inside j occurs) outside
  · rw [← size]
    exact matchLength?_fits (find?_eq_some_iff.1 found).2
  · rw [from_, findLast?_eq_some_iff, size]
  · rw [from_, findLast?_eq_none_iff, size]
  · have all : {j | j ∈ n.occurrences (.ofBytes s) ∧ j ≤ s.length} =
        {j | j ∈ n.occurrences (.ofBytes s)} :=
      Set.ext fun j => and_iff_left_of_imp (inside j)
    show n.findLast? (.ofBytes s) s.length = some i ↔ _
    rw [findLast?_eq_some_iff, size, all]
    exact and_iff_right (Nat.le_refl _)
  · show n.findLast? (.ofBytes s) s.length = none ↔ _
    rw [findLast?_eq_none_iff, size, Finset.eq_empty_iff_forall_notMem]
    constructor
    · rintro (impossible | later) j occurs
      · exact Nat.lt_irrefl _ impossible
      · exact Nat.not_lt.2 (inside j occurs) (later j occurs)
    · intro empty
      exact .inr fun j occurs => absurd occurs (empty j)

/-- The two occurrences of `ana` in `banana` overlap. -/
example : count (.bytes [0x61, 0x6e, 0x61]) (.ofBytes [0x62, 0x61, 0x6e, 0x61, 0x6e, 0x61]) = 2 := by
  decide

end Needle

end Bytewise
