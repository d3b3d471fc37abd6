/-
# Bytewise.Proofs.Needle.BlankRuns -- replacing runs of white space

The pattern `\s+` occurs where there is white space, and reaches to where it ends
(`matchLength?_blankRuns_eq_some_iff`).  So behind a word it finds just what separates
the word from the next one (`find?_blankRuns`), and one pass that puts single spaces
there leaves the words joined by them (`rewrite_blankRuns`): what `simplify` makes of
the bytes, once white space is off their ends.
-/
import Bytewise.Proofs.Bytes.Blank
import Bytewise.Proofs.ByteSet.Membership
import Bytewise.Proofs.Needle.OnePass
import Bytewise.Proofs.Pattern.Budget

namespace Bytewise

set_option autoImplicit false

namespace Pattern

/-! ## The pattern -/

/-- One or more white-space bytes. -/
def blankRun : List Node := [.repetition .oneOrMore (.set .blank)]

theorem parse_blankRun (caseSensitive : Bool) :
    parse caseSensitive (sourceText false [0x5c, 0x73, 0x2b]) = .ok blankRun := by
  have blank : Grammar.Lexeme caseSensitive [] [0x5c, 0x73] [0x2b] (.atom (.set .blank)) :=
    .escapeToken (by decide)
  exact parse_eq_ok (.cons blank (.cons (.quantifier (by decide)) (.nil _ _))) (.quantified .nil)

theorem compile_blankRun {maxCells : Nat} (enough : 37 ≤ maxCells) (caseSensitive : Bool) :
    compile [0x5c, 0x73, 0x2b] caseSensitive false maxCells =
      .ok ⟨codeOf blankRun, 37, caseSensitive⟩ := by
  have cells : cellsOf (codeOf blankRun) = 37 := cellsOf_codeOf blankRun
  rw [compile, if_neg (List.cons_ne_nil _ _), parse_blankRun]
  show emit caseSensitive maxCells blankRun = _
  rw [emit_eq, cells, if_pos enough]

/-- The pattern for runs of white space. -/
def blankRuns (caseSensitive : Bool) (maxCells : Nat) : Pattern :=
  .ofText "\\s+" caseSensitive false maxCells

theorem program?_blankRuns {maxCells : Nat} (enough : 37 ≤ maxCells) (caseSensitive : Bool) :
    (blankRuns caseSensitive maxCells).program? = some ⟨codeOf blankRun, 37, caseSensitive⟩ := by
  have compiled : blankRuns caseSensitive maxCells =
      ⟨"\\s+", caseSensitive, false, maxCells, some ⟨codeOf blankRun, 37, caseSensitive⟩, none⟩ :=
    ofText_of_ok (compile_blankRun enough caseSensitive)
  rw [compiled]

/-- Where one atom is repeated, the greatest decomposition takes all it accepts from there on. -/
theorem greatest_oneOrMore_iff {caseSensitive : Bool} {a : Atom} {s : Bytes} {i e : Nat} :
    (∃ counts, Greatest caseSensitive s [.repetition .oneOrMore a] i counts e) ↔
      ∃ n, e = i + n ∧ 1 ≤ n ∧ a.Covers caseSensitive s i n ∧
        ¬ a.AcceptsAt caseSensitive s (i + n) := by
  have divided : ∀ counts e, Decomposition caseSensitive s [.repetition .oneOrMore a] i counts e ↔
      ∃ n, counts = [n] ∧ 1 ≤ n ∧ a.Covers caseSensitive s i n ∧ e = i + n := by
    intro counts e
    rw [decomposition_repetition_iff]
    constructor
    · rintro ⟨n, rest, rfl, some, covers, behind⟩
      obtain ⟨rfl, rfl⟩ := decomposition_nil_iff.1 behind
      exact ⟨n, rfl, some, covers, rfl⟩
    · rintro ⟨n, rfl, some, covers, rfl⟩
      exact ⟨n, [], rfl, some, covers, .nil _⟩
  constructor
  · rintro ⟨counts, d, greatest⟩
    obtain ⟨n, rfl, some, covers, rfl⟩ := (divided counts e).1 d
    refine ⟨n, rfl, some, covers, fun another => ?_⟩
    have longer : a.Covers caseSensitive s i (n + 1) := by
      intro k below
      rcases Nat.lt_succ_iff_lt_or_eq.1 below with inside | rfl
      · exact covers k inside
      · exact another
    rcases greatest _ _ ((divided _ _).2 ⟨n + 1, rfl, by omega, longer, rfl⟩) with same | below
    · have := (List.cons.inj same).1
      omega
    · rcases List.cons_lex_cons_iff.1 below with less | ⟨-, less⟩
      · omega
      · cases less
  · rintro ⟨n, rfl, some, covers, ends⟩
    refine ⟨[n], (divided _ _).2 ⟨n, rfl, some, covers, rfl⟩, fun counts' e' d' => ?_⟩
    obtain ⟨n', rfl, -, covers', rfl⟩ := (divided counts' e').1 d'
    rcases Nat.lt_trichotomy n' n with less | rfl | greater
    · exact .inr (.rel less)
    · exact .inl rfl
    · exact absurd (covers' n greater) ends

end Pattern

namespace Needle

open Bytes (AllBlank IsWord Spaced)
open Pattern (Atom blankRun blankRuns)

variable {caseSensitive : Bool} {maxCells : Nat} {hay : Subject}

/-! ## Where it occurs -/

theorem acceptsAt_blank_iff {s : Bytes} {i : Nat} :
    (Atom.set .blank).AcceptsAt caseSensitive s i ↔ ∃ b, s[i]? = some b ∧ b ∈ Byte.blanks :=
  exists_congr fun _ => and_congr_right fun _ => ByteSet.mem_blank_iff

theorem matchLength?_blankRuns_eq_some_iff (enough : 37 ≤ maxCells) {i length : Nat} :
    (Needle.pattern (blankRuns caseSensitive maxCells)).matchLength? hay i = some length ↔
      1 ≤ length ∧ (Atom.set .blank).Covers caseSensitive hay.toList i length ∧
        ¬ (Atom.set .blank).AcceptsAt caseSensitive hay.toList (i + length) := by
  have answers : ∀ inside : i ≤ hay.size, Pattern.Answers caseSensitive hay.toList blankRun i
      (Pattern.Program.matchEnd? ⟨Pattern.codeOf blankRun, 37, caseSensitive⟩ hay i) :=
    Pattern.answers_matchEnd? (Pattern.compile_blankRun enough caseSensitive)
      (Pattern.parse_blankRun caseSensitive) hay
  show (blankRuns caseSensitive maxCells).matchLength? hay i = some length ↔ _
  rw [Pattern.matchLength?_eq (Pattern.program?_blankRuns enough _), Option.map_eq_some_iff]
  constructor
  · rintro ⟨e, found, rfl⟩
    have inside := (Pattern.Program.le_size_of_matchEnd? found).1
    obtain ⟨n, rfl, some, covers, ends⟩ :=
      Pattern.greatest_oneOrMore_iff.1 ((answers inside).eq_some_iff.1 found)
    rw [Nat.add_sub_cancel_left]
    exact ⟨some, covers, ends⟩
  · rintro ⟨some, covers, ends⟩
    have inside : i ≤ hay.size := by
      rw [Subject.size_eq]
      exact Nat.le_of_lt (covers 0 some).lt_length
    have greatest := Pattern.greatest_oneOrMore_iff.2 ⟨length, rfl, some, covers, ends⟩
    exact ⟨i + length, (answers inside).eq_some_iff.2 greatest, Nat.add_sub_cancel_left ..⟩

theorem exists_blank_of_mem_occurrences (enough : 37 ≤ maxCells) {i : Nat}
    (occurs : i ∈ (Needle.pattern (blankRuns caseSensitive maxCells)).occurrences hay) :
    ∃ b, hay.toList[i]? = some b ∧ b ∈ Byte.blanks := by
  obtain ⟨length, found⟩ := Option.isSome_iff_exists.1 (mem_occurrences_iff.1 occurs)
  obtain ⟨some, covers, -⟩ := (matchLength?_blankRuns_eq_some_iff enough).1 found
  exact acceptsAt_blank_iff.1 (covers 0 some)

theorem find?_blankRuns_word (enough : 37 ≤ maxCells) {w : Bytes}
    (free : ∀ b ∈ w, b ∉ Byte.blanks) :
    (Needle.pattern (blankRuns caseSensitive maxCells)).find? (.ofBytes w) 0 = none := by
  refine find?_zero_eq_none_iff.2 (Finset.eq_empty_iff_forall_notMem.2 fun i occurs => ?_)
  obtain ⟨b, found, blank⟩ := exists_blank_of_mem_occurrences enough occurs
  rw [Subject.toList_ofBytes] at found
  exact free b (List.mem_of_getElem? found) blank

/-- Behind a word, all the white space up to the next byte of another kind is found. -/
theorem find?_blankRuns (enough : 37 ≤ maxCells) {w gap rest : Bytes}
    (free : ∀ b ∈ w, b ∉ Byte.blanks) (apart : gap ≠ []) (blank : AllBlank gap)
    (behind : ∀ b ∈ rest.head?, b ∉ Byte.blanks) :
    (Needle.pattern (blankRuns caseSensitive maxCells)).find? (.ofBytes (w ++ gap ++ rest)) 0 =
      some ⟨w.length, gap.length⟩ := by
  have found : (Needle.pattern (blankRuns caseSensitive maxCells)).matchLength?
      (.ofBytes (w ++ gap ++ rest)) w.length = some gap.length := by
    rw [matchLength?_blankRuns_eq_some_iff enough, Subject.toList_ofBytes]
    refine ⟨List.length_pos_iff.2 apart, fun k below => ?_, fun another => ?_⟩
    · have here : (w ++ gap ++ rest)[w.length + k]? = some gap[k] := by
        rw [List.append_assoc, List.getElem?_append_right (Nat.le_add_right _ _),
          Nat.add_sub_cancel_left, List.getElem?_append_left below, List.getElem?_eq_getElem below]
      exact acceptsAt_blank_iff.2 ⟨_, here, blank _ (List.getElem_mem below)⟩
    · obtain ⟨b, next, blank'⟩ := acceptsAt_blank_iff.1 another
      rw [← List.length_append, List.getElem?_append_right (Nat.le_refl _), Nat.sub_self,
        ← List.head?_eq_getElem?] at next
      exact behind b next blank'
  refine find?_zero_eq_some_iff.2 ⟨⟨?_, ?_⟩, found⟩
  · exact mem_occurrences_iff.2 (Option.isSome_of_eq_some found)
  · intro j occurs
    obtain ⟨b, here, blank'⟩ := exists_blank_of_mem_occurrences enough occurs
    refine Nat.le_of_not_lt fun inside => ?_
    rw [Subject.toList_ofBytes, List.append_assoc, List.getElem?_append_left inside] at here
    exact free b (List.mem_of_getElem? here) blank'

/-! ## Replacing -/

theorem looksAhead_blankRuns (enough : 37 ≤ maxCells) :
    (Needle.pattern (blankRuns caseSensitive maxCells)).LooksAhead := by
  intro p program a member
  rw [Pattern.program?_blankRuns enough _] at program
  cases program
  have code : Pattern.codeOf blankRun =
      [.atom (.set .blank), .closure, .atom (.set .blank), .stop, .stop] := rfl
  rw [code] at member
  simp at member

/-- Words with white space between them become words with single spaces there. -/
theorem rewrite_blankRuns (enough : 37 ≤ maxCells) {ws : List Bytes} {s : Bytes}
    (spaced : Spaced ws s) :
    rewrite (.pattern (blankRuns caseSensitive maxCells)) [Byte.space] s = Bytes.unwords ws := by
  induction spaced with
  | one word => exact rewrite_of_absent (find?_blankRuns_word enough word.2)
  | @cons w gap s ws word apart blank later ih =>
      have found : (Needle.pattern (blankRuns caseSensitive maxCells)).find?
          (.ofBytes (w ++ gap ++ s)) 0 = some ⟨w.length, gap.length⟩ :=
        find?_blankRuns enough word.2 apart blank later.trimmed.1
      have left : w ++ gap ++ s ≠ [] := List.append_ne_nil_of_right_ne_nil _ later.ne_nil
      have passed : Progress.passed ⟨w.length, gap.length⟩ = 0 :=
        if_neg (mt List.length_eq_zero_iff.1 apart)
      obtain ⟨v, ws, rfl⟩ := List.exists_cons_of_ne_nil later.words_ne_nil
      have front : (w ++ gap ++ s).take w.length = w := by
        rw [List.append_assoc, List.take_left]
      rw [rewrite_of_found left found, passed, Pattern.Span.stop, Nat.add_zero, List.take_zero,
        List.append_nil, ← List.length_append, List.drop_left, ih, front, List.append_assoc]
      rfl

/-- Once white space is off the ends, putting single spaces in its place is `simplify`. -/
theorem replace_blankRuns_strip (enough : 37 ≤ maxCells) (s : Bytes) :
    ((Needle.pattern (blankRuns caseSensitive maxCells)).replace [Byte.space] s.strip).2 =
      s.simplify := by
  rw [replace_eq_rewrite (looksAhead_blankRuns enough)]
  rcases s.strip_eq_nil_or_spaced with none | spaced
  · rw [none, rewrite_nil, Bytes.simplify, ← Bytes.words_strip, none]
    rfl
  · exact rewrite_blankRuns enough spaced

end Needle

end Bytewise
