/-
# Bytewise.Proofs.Pattern.GlobMatching -- globs match whole subjects

What a glob means, said of its pieces and plain bytes: `Fits caseSensitive
pieces s` cuts all of `s` into stretches, one for each piece from left to right;
`*` takes any bytes, every other piece one byte that it accepts.

* `exists_decomposition_nodes_iff`: the nodes of a glob divide a subject exactly
  as its pieces fit it, and only the whole of it;
* `matchEnd?_eq_some_iff`: so a compiled glob matches a whole subject at its
  start, or nothing;
* `compile_glob`: this, what a search with a glob finds, and that the one reason
  to refuse a glob is a `[` that nothing closes.
-/
import Bytewise.Proofs.Pattern.Budget
import Bytewise.Proofs.Pattern.GlobGrammar
import Bytewise.Proofs.Pattern.Leftmost
import Bytewise.Proofs.Pattern.Longest

namespace Bytewise.Pattern.Glob

set_option autoImplicit false

/-! ## What a glob means -/

/-- The bytes that a piece takes, for a piece that takes one.  A bracket takes the bytes of the set
that its pattern text stands for. -/
def Piece.Accepts (caseSensitive : Bool) (b : UInt8) : Piece → Prop
  | .star => False
  | .question => True
  | .bracket inside =>
    ∃ set, Bracket.read? caseSensitive (body true (inside ++ [Byte.rightBracket])) = some (set, []) ∧
      b ∈ set
  | .literal c => Byte.Alike caseSensitive b c

/-- All of the bytes are divided among the pieces, from left to right. -/
inductive Fits (caseSensitive : Bool) : List Piece → Bytes → Prop
  | nil : Fits caseSensitive [] []
  | star {pieces : List Piece} {taken rest : Bytes} :
      Fits caseSensitive pieces rest → Fits caseSensitive (.star :: pieces) (taken ++ rest)
  | byte {piece : Piece} {pieces : List Piece} {b : UInt8} {rest : Bytes} :
      piece.Accepts caseSensitive b → Fits caseSensitive pieces rest →
      Fits caseSensitive (piece :: pieces) (b :: rest)

section

variable {caseSensitive : Bool} {piece : Piece} {pieces : List Piece} {s : Bytes} {i e : Nat}

theorem fits_nil_iff : Fits caseSensitive [] s ↔ s = [] := by
  constructor
  · rintro ⟨⟩
    rfl
  · rintro rfl
    exact .nil

theorem fits_star_iff :
    Fits caseSensitive (.star :: pieces) s ↔
      ∃ n, n ≤ s.length ∧ Fits caseSensitive pieces (s.drop n) := by
  constructor
  · intro fits
    cases fits with
    | @star _ taken rest fits => exact ⟨taken.length, by simp, by simpa using fits⟩
    | byte accepted _ => exact absurd accepted id
  · rintro ⟨n, -, fits⟩
    rw [← List.take_append_drop n s]
    exact .star fits

theorem fits_byte_iff (single : piece ≠ .star) :
    Fits caseSensitive (piece :: pieces) s ↔
      ∃ b rest, s = b :: rest ∧ piece.Accepts caseSensitive b ∧ Fits caseSensitive pieces rest := by
  constructor
  · intro fits
    cases fits with
    | star _ => exact absurd rfl single
    | byte accepted fits => exact ⟨_, _, rfl, accepted, fits⟩
  · rintro ⟨b, rest, rfl, accepted, fits⟩
    exact .byte accepted fits

/-! ## Dividing a subject -/

theorem accepts_bracket_iff {b : UInt8} {inside : Bytes} (encloses : Encloses inside) :
    (Piece.bracket inside).Accepts caseSensitive b ↔ b ∈ bracketSet caseSensitive inside := by
  have read := read?_bracket caseSensitive encloses []
  rw [List.append_nil] at read
  simp [Piece.Accepts, read]

theorem accepts_atom_iff {b : UInt8} (proper : piece.Proper) (single : piece ≠ .star) :
    (piece.atom caseSensitive).Accepts caseSensitive b ↔ piece.Accepts caseSensitive b := by
  cases piece with
  | star => exact absurd rfl single
  | question => exact Iff.rfl
  | bracket inside => exact (accepts_bracket_iff proper).symm
  | literal c => exact Byte.fold_eq_iff.symm.trans Byte.fold_eq_fold_iff

theorem node_eq_atom (single : piece ≠ .star) :
    piece.node caseSensitive = .atom (piece.atom caseSensitive) := by
  cases piece with
  | star => exact absurd rfl single
  | _ => rfl

/-- Any byte will do, so a stretch is covered if it ends inside the bytes. -/
theorem covers_any_iff {n : Nat} (inside : i ≤ s.length) :
    Atom.any.Covers caseSensitive s i n ↔ i + n ≤ s.length := by
  constructor
  · intro covers
    exact covers.le_length inside
  · intro stop k below
    exact ⟨s[i + k], List.getElem?_eq_getElem (by omega), trivial⟩

/-- Behind position `i`, the nodes of the pieces and the end of the subject divide the bytes just
as the pieces fit them. -/
theorem exists_decomposition_iff (proper : ∀ piece ∈ pieces, piece.Proper) (inside : i ≤ s.length) :
    (∃ counts, Decomposition caseSensitive s
      (pieces.map (Piece.node caseSensitive) ++ [.assertion .subjectEnd]) i counts e) ↔
      e = s.length ∧ Fits caseSensitive pieces (s.drop i) := by
  induction pieces generalizing i with
  | nil =>
      simp only [List.map_nil, List.nil_append, decomposition_assertion_iff,
        decomposition_nil_iff, Assertion.Holds, fits_nil_iff, List.drop_eq_nil_iff]
      constructor
      · rintro ⟨counts, rfl, -, rfl⟩
        exact ⟨rfl, Nat.le_refl _⟩
      · rintro ⟨rfl, atEnd⟩
        exact ⟨[], Nat.le_antisymm inside atEnd, rfl, Nat.le_antisymm atEnd inside⟩
  | cons piece pieces ih =>
      have later := fun other member => proper other (List.mem_cons_of_mem piece member)
      rw [List.map_cons, List.cons_append]
      by_cases single : piece = .star
      · subst single
        show (∃ counts, Decomposition caseSensitive s (.repetition .zeroOrMore .any :: _) i counts e)
          ↔ _
        simp only [decomposition_repetition_iff, covers_any_iff inside, fits_star_iff,
          List.length_drop, List.drop_drop]
        constructor
        · rintro ⟨_, n, counts, rfl, -, stop, d⟩
          obtain ⟨whole, fits⟩ := (ih later stop).1 ⟨counts, d⟩
          exact ⟨whole, n, by omega, fits⟩
        · rintro ⟨whole, n, few, fits⟩
          have stop : i + n ≤ s.length := by omega
          obtain ⟨counts, d⟩ := (ih later stop).2 ⟨whole, fits⟩
          exact ⟨n :: counts, n, counts, rfl, trivial, stop, d⟩
      · have accepts : ∀ b, (piece.atom caseSensitive).Accepts caseSensitive b ↔
            piece.Accepts caseSensitive b :=
          fun b => accepts_atom_iff (proper piece List.mem_cons_self) single
        rw [node_eq_atom single, fits_byte_iff single]
        simp only [decomposition_atom_iff]
        constructor
        · rintro ⟨counts, ⟨b, found, accepted⟩, d⟩
          obtain ⟨below, rfl⟩ := List.getElem?_eq_some_iff.1 found
          obtain ⟨whole, fits⟩ := (ih later below).1 ⟨counts, d⟩
          exact ⟨whole, _, _, List.drop_eq_getElem_cons below, (accepts _).1 accepted, fits⟩
        · rintro ⟨whole, b, rest, split, accepted, fits⟩
          have below : i < s.length := by
            refine Nat.lt_of_not_le fun behind => ?_
            rw [List.drop_eq_nil_of_le behind] at split
            cases split
          rw [List.drop_eq_getElem_cons below] at split
          obtain ⟨rfl, rfl⟩ := List.cons.inj split
          obtain ⟨counts, d⟩ := (ih later below).2 ⟨whole, fits⟩
          exact ⟨counts, ⟨_, List.getElem?_eq_getElem below, (accepts _).2 accepted⟩, d⟩

theorem exists_decomposition_nodes_iff (proper : ∀ piece ∈ pieces, piece.Proper) :
    (∃ counts, Decomposition caseSensitive s (nodes caseSensitive pieces) 0 counts e) ↔
      e = s.length ∧ Fits caseSensitive pieces s := by
  simp only [nodes, decomposition_assertion_iff, Assertion.Holds, true_and]
  rw [exists_decomposition_iff proper (Nat.zero_le s.length), List.drop_zero]

end

/-! ## Compiled globs -/

section

variable {glob : Bytes} {caseSensitive : Bool} {maxCells : Nat} {p : Program} {pieces : List Piece}

/-- A glob that consists of pieces fails for want of cells only. -/
theorem compile_eq (nonempty : glob ≠ []) (cut : Cut glob pieces []) :
    compile glob caseSensitive true maxCells =
      emit caseSensitive maxCells (nodes caseSensitive pieces) := by
  rw [compile, if_neg nonempty, sourceText, if_pos rfl, parse_toPatternText caseSensitive cut]

/-- With cells enough there is nothing that it fails for. -/
theorem compile_ne_error (nonempty : glob ≠ []) (cut : Cut glob pieces [])
    (enough : cellsOf (codeOf (nodes caseSensitive pieces)) ≤ maxCells) (e : Error) :
    compile glob caseSensitive true maxCells ≠ .error e := by
  rw [compile_eq nonempty cut, emit_eq, if_pos enough]
  exact nofun

/-- Too few cells are no fault of the text. -/
theorem compile_ne_syntaxFault (nonempty : glob ≠ []) (cut : Cut glob pieces []) (pos : Nat)
    (fault : Fault) : compile glob caseSensitive true maxCells ≠ .error (.syntaxFault pos fault) := by
  rw [compile_eq nonempty cut, emit_eq]
  split <;> exact nofun

theorem compile_eq_syntaxFault {rest : Bytes} (nonempty : glob ≠ [])
    (cut : Cut glob pieces (Byte.leftBracket :: rest)) (unclosed : Unclosed rest) :
    compile glob caseSensitive true maxCells =
      .error (.syntaxFault (Byte.caret :: pieces.flatMap Piece.text).length .unterminatedBracket) := by
  rw [compile, if_neg nonempty, sourceText, if_pos rfl,
    parse_toPatternText_unclosed caseSensitive cut unclosed]

/-- The position of an unclosed `[` in the pattern text, behind the text of what is before it. -/
theorem getElem?_toPatternText {rest : Bytes} (cut : Cut glob pieces (Byte.leftBracket :: rest)) :
    (toPatternText glob)[(Byte.caret :: pieces.flatMap Piece.text).length]? =
      some Byte.leftBracket := by
  rw [toPatternText_eq cut, ← List.cons_append, List.getElem?_append_right (Nat.le_refl _),
    Nat.sub_self]
  rfl

/-- Where there is a program, nothing is left of the glob. -/
theorem exists_cut_of_compile (nonempty : glob ≠ [])
    (compiled : compile glob caseSensitive true maxCells = .ok p) : ∃ pieces, Cut glob pieces [] := by
  obtain ⟨pieces, rest, cut, rfl | ⟨behind, rfl, unclosed⟩⟩ := exists_cut glob
  · exact ⟨pieces, cut⟩
  · rw [compile_eq_syntaxFault nonempty cut unclosed] at compiled
    cases compiled

theorem parse_of_cut (cut : Cut glob pieces []) :
    parse caseSensitive (sourceText true glob) = .ok (nodes caseSensitive pieces) :=
  parse_toPatternText caseSensitive cut

/-- A glob matches a whole subject from its start, or nothing. -/
theorem matchEnd?_eq_some_iff (compiled : compile glob caseSensitive true maxCells = .ok p)
    (cut : Cut glob pieces []) {subject : Subject} {e : Nat} :
    p.matchEnd? subject 0 = some e ↔
      e = subject.size ∧ Fits caseSensitive pieces subject.toList := by
  have answers := answers_matchEnd? compiled (parse_of_cut cut) subject (Nat.zero_le _)
  have divided : ∀ e, (∃ counts, Decomposition caseSensitive subject.toList
      (nodes caseSensitive pieces) 0 counts e) ↔
      e = subject.toList.length ∧ Fits caseSensitive pieces subject.toList :=
    fun e => exists_decomposition_nodes_iff cut.2
  rw [Subject.size_eq, ← divided]
  constructor
  · intro found
    obtain ⟨counts, greatest⟩ := answers.eq_some_iff.1 found
    exact ⟨counts, greatest.1⟩
  · rintro ⟨counts, d⟩
    obtain ⟨e', found⟩ := Option.isSome_iff_exists.1 (answers.isSome_iff.2 ⟨counts, e, d⟩)
    obtain ⟨counts', greatest⟩ := answers.eq_some_iff.1 found
    obtain ⟨whole, -⟩ := (divided e).1 ⟨counts, d⟩
    obtain ⟨whole', -⟩ := (divided e').1 ⟨counts', greatest.1⟩
    rw [found, whole, whole']

/-- Every program of a glob starts at the start of the subject. -/
theorem first?_eq (compiled : compile glob caseSensitive true maxCells = .ok p)
    (cut : Cut glob pieces []) : p.first? = some (.assertion .subjectStart) := by
  obtain ⟨nodes', parsed, shape, -⟩ := exists_nodes_of_compile compiled
  rw [parse_of_cut cut] at parsed
  obtain rfl := Except.ok.inj parsed
  rw [Program.first?, shape, nodes, codeOf_cons]
  rfl

theorem search_eq_none (compiled : compile glob caseSensitive true maxCells = .ok p)
    (cut : Cut glob pieces []) {subject : Subject} {start : Nat} (behind : 0 < start) :
    p.search subject start = none := by
  refine Program.search_eq_none_iff.2 fun j above _ => ?_
  exact Program.matchEnd?_of_subjectStart (first?_eq compiled cut) (by omega)

theorem search_of_fits (compiled : compile glob caseSensitive true maxCells = .ok p)
    (cut : Cut glob pieces []) {subject : Subject}
    (fits : Fits caseSensitive pieces subject.toList) :
    p.search subject 0 = some ⟨0, subject.size⟩ := by
  refine (search_eq_some_iff compiled).2 ⟨Nat.le_refl 0, Nat.zero_le _, fun j _ below => ?_, ?_⟩
  · omega
  · rw [Nat.zero_add]
    exact (matchEnd?_eq_some_iff compiled cut).2 ⟨rfl, fits⟩

theorem search_of_not_fits (compiled : compile glob caseSensitive true maxCells = .ok p)
    (cut : Cut glob pieces []) {subject : Subject}
    (misfits : ¬ Fits caseSensitive pieces subject.toList) : p.search subject 0 = none := by
  refine Program.search_eq_none_iff.2 fun j _ _ => ?_
  cases found : p.matchEnd? subject j with
  | none => rfl
  | some e =>
      rcases Nat.eq_zero_or_pos j with rfl | behind
      · exact absurd ((matchEnd?_eq_some_iff compiled cut).1 found).2 misfits
      · rw [Program.matchEnd?_of_subjectStart (first?_eq compiled cut) behind] at found
        cases found

theorem isMatch_eq_isExactMatch (compiled : compile glob caseSensitive true maxCells = .ok p)
    (cut : Cut glob pieces []) {q : Pattern} (program : q.program? = some p) (subject : Subject) :
    q.isMatch subject = q.isExactMatch subject := by
  have exact_ := isExactMatch_iff program subject
  rw [matchEnd?_eq_some_iff compiled cut] at exact_
  rw [isMatch, find?_eq program, Bool.eq_iff_iff, exact_]
  by_cases fits : Fits caseSensitive pieces subject.toList
  · simp [search_of_fits compiled cut fits, fits]
  · simp [search_of_not_fits compiled cut fits, fits]

end

/-- **A glob matches a whole subject that its pieces fit, and nothing else.**  A glob is refused for
its text exactly if some `[` in it has no closing `]`, with the position of that `[` in the pattern
text; with cells enough it is refused for nothing else.  A compiled glob finds all of a subject that
its pieces fit, and nothing in any other, nor behind the start. -/
theorem compile_glob {glob : Bytes} (nonempty : glob ≠ []) (caseSensitive : Bool) :
    (∀ maxCells pos fault,
      compile glob caseSensitive true maxCells = .error (.syntaxFault pos fault) ↔
        fault = .unterminatedBracket ∧ ∃ pieces rest,
          Cut glob pieces (Byte.leftBracket :: rest) ∧ Unclosed rest ∧
          pos = (Byte.caret :: body false (pieces.flatMap Piece.word)).length ∧
          (toPatternText glob)[pos]? = some Byte.leftBracket) ∧
    (∃ enough, ∀ maxCells, enough ≤ maxCells →
      ∀ e, compile glob caseSensitive true maxCells = .error e →
        ∃ pos, e = .syntaxFault pos .unterminatedBracket) ∧
    ∀ maxCells p, compile glob caseSensitive true maxCells = .ok p →
      (∃ pieces, Cut glob pieces []) ∧
      ∀ pieces, Cut glob pieces [] → ∀ q : Pattern, q.program? = some p → ∀ subject,
        (Fits caseSensitive pieces subject.toList → q.find? subject 0 = some ⟨0, subject.size⟩) ∧
        (¬ Fits caseSensitive pieces subject.toList → q.find? subject 0 = none) ∧
        (∀ start, 0 < start → q.find? subject start = none) ∧
        q.isMatch subject = q.isExactMatch subject := by
  refine ⟨fun maxCells pos fault => ⟨fun refused => ?_, ?_⟩, ?_, fun maxCells p compiled => ?_⟩
  · obtain ⟨pieces, rest, cut, rfl | ⟨behind, rfl, unclosed⟩⟩ := exists_cut glob
    · exact absurd refused (compile_ne_syntaxFault nonempty cut pos fault)
    · rw [compile_eq_syntaxFault nonempty cut unclosed] at refused
      cases refused
      refine ⟨rfl, pieces, behind, cut, unclosed, ?_, getElem?_toPatternText cut⟩
      rw [body_words cut.2]
  · rintro ⟨rfl, pieces, rest, cut, unclosed, rfl, -⟩
    rw [compile_eq_syntaxFault nonempty cut unclosed, body_words cut.2]
  · obtain ⟨pieces, rest, cut, rfl | ⟨behind, rfl, unclosed⟩⟩ := exists_cut glob
    · refine ⟨cellsOf (codeOf (nodes caseSensitive pieces)), fun maxCells enough e refused => ?_⟩
      exact absurd refused (compile_ne_error nonempty cut enough e)
    · refine ⟨0, fun maxCells _ e refused => ?_⟩
      rw [compile_eq_syntaxFault nonempty cut unclosed] at refused
      cases refused
      exact ⟨_, rfl⟩
  · refine ⟨exists_cut_of_compile nonempty compiled, fun pieces cut q program subject => ?_⟩
    simp only [find?_eq program, isMatch_eq_isExactMatch compiled cut program]
    refine ⟨search_of_fits compiled cut, search_of_not_fits compiled cut, ?_, trivial⟩
    intro start behind
    exact search_eq_none compiled cut behind

/-- `[^]x]*.C` without regard to case: the bracket lists `]` and `x`, the dot is a dot, and `ab.c`
fits as a whole.  In `a[^]` the bracket lists `]` and has no end; its `[` is the third byte of the
pattern text `^a[^]$`. -/
theorem compile_glob_bracket :
    (∃ p, compile [0x5b, 0x5e, 0x5d, 0x78, 0x5d, 0x2a, 0x2e, 0x43] false true 1024 = .ok p ∧
      find? ⟨"[^]x]*.C", false, true, 1024, some p, none⟩ (.ofBytes [0x61, 0x62, 0x2e, 0x63]) 0 =
        some ⟨0, 4⟩ ∧
      find? ⟨"[^]x]*.C", false, true, 1024, some p, none⟩ (.ofBytes [0x61, 0x62, 0x2e, 0x63]) 1 =
        none) ∧
    compile [0x61, 0x5b, 0x5e, 0x5d] true true 1024 =
      .error (.syntaxFault 2 .unterminatedBracket) := by
  have cut : Cut [0x5b, 0x5e, 0x5d, 0x78, 0x5d, 0x2a, 0x2e, 0x43]
      [.bracket [0x5e, 0x5d, 0x78], .star, .literal 0x2e, .literal 0x43] [] := by
    refine ⟨rfl, ?_⟩
    simp [Piece.Proper, Piece.special]
    decide
  obtain ⟨p, compiled⟩ : ∃ p,
      compile [0x5b, 0x5e, 0x5d, 0x78, 0x5d, 0x2a, 0x2e, 0x43] false true 1024 = .ok p := by
    rw [compile_eq (by decide) cut, emit_eq, if_pos (by decide)]
    exact ⟨_, rfl⟩
  have outside : (0x61 : UInt8) ∈ bracketSet false [0x5e, 0x5d, 0x78] := by
    show ByteSet.contains _ _ = true
    decide +kernel
  have fits : Fits false [.bracket [0x5e, 0x5d, 0x78], .star, .literal 0x2e, .literal 0x43]
      [0x61, 0x62, 0x2e, 0x63] := by
    have dot := Byte.alike_refl false 0x2e
    have letter : Byte.Alike false 0x63 0x43 := by decide
    have rest : Fits false [.star, .literal 0x2e, .literal 0x43] ([0x62] ++ [0x2e, 0x63]) :=
      .star (.byte dot (.byte letter .nil))
    exact .byte ((accepts_bracket_iff (by decide)).2 outside) rest
  have nonempty : ([0x5b, 0x5e, 0x5d, 0x78, 0x5d, 0x2a, 0x2e, 0x43] : Bytes) ≠ [] := by decide
  obtain ⟨-, -, matching⟩ := compile_glob nonempty false
  obtain ⟨-, finds⟩ := matching 1024 p compiled
  obtain ⟨found, -, behind, -⟩ := finds _ cut ⟨"[^]x]*.C", false, true, 1024, some p, none⟩ rfl
    (.ofBytes [0x61, 0x62, 0x2e, 0x63])
  have nonempty' : ([0x61, 0x5b, 0x5e, 0x5d] : Bytes) ≠ [] := by decide
  obtain ⟨faults, -⟩ := compile_glob nonempty' true
  have unclosed : Unclosed [0x5e, 0x5d] := by
    intro inside after split encloses
    have few := congrArg List.length split
    rcases inside with _ | ⟨c, _ | ⟨d, more⟩⟩
    · exact absurd encloses (by decide)
    · cases split
      exact absurd encloses (by decide)
    · simp at few
  have cut' : Cut [0x61, 0x5b, 0x5e, 0x5d] [.literal 0x61] [0x5b, 0x5e, 0x5d] := by
    refine ⟨rfl, ?_⟩
    simp [Piece.Proper, Piece.special]
    decide
  refine ⟨⟨p, compiled, found fits, behind 1 (by decide)⟩, (faults 1024 2 _).2 ⟨rfl, ?_⟩⟩
  exact ⟨_, _, cut', unclosed, rfl, rfl⟩

end Bytewise.Pattern.Glob
