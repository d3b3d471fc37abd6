/-
# Bytewise.Proofs.Pattern.GlobBracket -- what a glob's bracket lists

A glob becomes a pattern byte by byte, in a bracket as anywhere else.  There the
bytes that are escaped come to stand for themselves, and so do all others but
two: a `*` lists a dot as well, and a `?` lists a dot in its own place (`readAs`).

* `mem_bracketSet_iff`: the set of a bracket holds what its bytes list, each read
  in this way;
* `glob_bracket_lists`: so it is in any glob, and a glob that is one bracket
  matches the single bytes it lists; a bracket without `*` and `?` lists just
  what stands in it;
* `glob_bracket_question`: `[?]` lists a dot, and no question mark.
-/
import Bytewise.Proofs.Pattern.GlobMatching

namespace Bytewise.Pattern.Glob

set_option autoImplicit false

open Pattern.Bracket (Member Arranged)

/-! ## Members -/

/-- Bytes as members, each of which stands for itself. -/
def verbatim (s : Bytes) : List Member := s.map fun b => .byte b false

/-- The bytes that a byte in a bracket is read as. -/
def readAs (c : UInt8) : Bytes :=
  if c = Byte.star then [Byte.dot, Byte.star]
  else if c = Byte.question then [Byte.dot]
  else [c]

/-- Only a `-` is told from an escaped one. -/
theorem step_escaped {c : UInt8} (other : c ≠ Byte.hyphen) (escaped : Bool)
    (state : Bracket.Pending × ByteSet) :
    Bracket.step state (.byte c escaped) = Bracket.step state (.byte c false) := by
  obtain ⟨pending, set⟩ := state
  cases pending with
  | nothing => rfl
  | low low => simp [Bracket.step, other]
  | range low => rfl

theorem foldl_step_byteMembers (c : UInt8) (state : Bracket.Pending × ByteSet) :
    (byteMembers c).foldl Bracket.step state = (verbatim (readAs c)).foldl Bracket.step state := by
  unfold byteMembers readAs
  by_cases isStar : c = Byte.star
  · rw [if_pos isStar, if_pos isStar]
    rfl
  by_cases isQuestion : c = Byte.question
  · rw [if_neg isStar, if_neg isStar, if_pos isQuestion, if_pos isQuestion]
    rfl
  rw [if_neg isStar, if_neg isStar, if_neg isQuestion, if_neg isQuestion]
  cases escaped : needsEscape c with
  | false => rfl
  | true => exact step_escaped (needsEscape_ne escaped (by decide)) true state

theorem foldl_step_members (opened : Bool) (s : Bytes) (state : Bracket.Pending × ByteSet) :
    (members opened s).foldl Bracket.step state =
      (verbatim (s.flatMap readAs)).foldl Bracket.step state := by
  induction s generalizing opened state with
  | nil => rfl
  | cons c s ih =>
      have split : verbatim ((c :: s).flatMap readAs) =
          verbatim (readAs c) ++ verbatim (s.flatMap readAs) := by
        rw [List.flatMap_cons, verbatim, List.map_append]
        rfl
      rw [split, List.foldl_append, members]
      split
      · rename_i caret
        rw [caret.2]
        exact ih false _
      · rw [List.foldl_append, ih, foldl_step_byteMembers]

theorem toSet_members (caseSensitive opened : Bool) (s : Bytes) :
    Bracket.toSet caseSensitive (members opened s) =
      Bracket.toSet caseSensitive (verbatim (s.flatMap readAs)) := by
  rw [Bracket.toSet, Bracket.toSet, Bracket.collect, Bracket.collect, foldl_step_members]

/-! ## Sets -/

/-- The byte is one that `s` lists where each byte in it stands for itself, or, if it is negated,
one of the others. -/
def ListedBy (negated : Bool) (s : Bytes) (b : UInt8) : Prop :=
  ∃ items, Arranged (verbatim s) items ∧
    if negated then ¬ Bracket.Lists items b else Bracket.Lists items b

section

variable {negated : Bool} {s : Bytes} {items : List Bracket.Item} {b : UInt8}

theorem mem_setOf_true_iff {ms : List Member} (arranged : Arranged ms items) :
    b ∈ Bracket.setOf true negated ms ↔
      if negated then ¬ Bracket.Lists items b else Bracket.Lists items b := by
  rw [Bracket.mem_setOf_iff arranged]
  simp [Bracket.Denotes, Byte.Alike]

theorem mem_setOf_verbatim_iff :
    b ∈ Bracket.setOf true negated (verbatim s) ↔ ListedBy negated s b := by
  constructor
  · intro member
    obtain ⟨items, arranged⟩ := Bracket.exists_arranged (verbatim s)
    exact ⟨items, arranged, (mem_setOf_true_iff arranged).1 member⟩
  · rintro ⟨items, arranged, lists⟩
    exact (mem_setOf_true_iff arranged).2 lists

/-- There is one way to arrange bytes, so any way of it tells what is listed. -/
theorem listedBy_iff (arranged : Arranged (verbatim s) items) :
    ListedBy negated s b ↔ if negated then ¬ Bracket.Lists items b else Bracket.Lists items b :=
  mem_setOf_verbatim_iff.symm.trans (mem_setOf_true_iff arranged)

end

theorem mem_bracketSet_iff {inside : Bytes} (encloses : Encloses inside) {b : UInt8} :
    b ∈ bracketSet true inside ↔
      ListedBy (isNegated inside) ((listed inside).flatMap readAs) b := by
  rw [bracketSet_eq true encloses, ← mem_setOf_verbatim_iff, Bracket.setOf, toSet_members,
    Bracket.setOf]

theorem flatMap_readAs {s : Bytes} (noStar : Byte.star ∉ s) (noQuestion : Byte.question ∉ s) :
    s.flatMap readAs = s := by
  induction s with
  | nil => rfl
  | cons c s ih =>
      simp only [List.mem_cons, not_or] at noStar noQuestion
      rw [List.flatMap_cons, ih noStar.2 noQuestion.2, readAs, if_neg (Ne.symm noStar.1),
        if_neg (Ne.symm noQuestion.1), List.singleton_append]

theorem mem_of_mem_listed {inside : Bytes} {c : UInt8} (member : c ∈ listed inside) : c ∈ inside := by
  unfold listed at member
  split at member
  · exact List.mem_of_mem_tail member
  · exact member

/-! ## Globs -/

theorem nodes_bracket (inside : Bytes) (before after : List Piece) :
    nodes true (before ++ .bracket inside :: after) =
      (.assertion .subjectStart :: before.map (Piece.node true)) ++
        .atom (.set (bracketSet true inside)) ::
          (after.map (Piece.node true) ++ [.assertion .subjectEnd]) := by
  rw [nodes, List.map_append, List.map_cons, List.append_assoc]
  rfl

theorem fits_bracket_iff {inside : Bytes} (encloses : Encloses inside) {s : Bytes} :
    Fits true [.bracket inside] s ↔ ∃ b, s = [b] ∧ b ∈ bracketSet true inside := by
  rw [fits_byte_iff (by simp)]
  constructor
  · rintro ⟨b, rest, rfl, accepted, fits⟩
    obtain rfl := fits_nil_iff.1 fits
    exact ⟨b, rfl, (accepts_bracket_iff encloses).1 accepted⟩
  · rintro ⟨b, rfl, member⟩
    exact ⟨b, [], rfl, (accepts_bracket_iff encloses).2 member, .nil⟩

theorem cut_bracket {inside : Bytes} (encloses : Encloses inside) :
    Cut (Piece.bracket inside).word [.bracket inside] [] := by
  refine ⟨by simp, fun piece member => ?_⟩
  obtain rfl := List.mem_singleton.1 member
  exact encloses

theorem word_bracket_ne_nil (inside : Bytes) : (Piece.bracket inside).word ≠ [] :=
  List.cons_ne_nil _ _

/-- A bracket takes the cells of its set, and one each for the two ends and the stop. -/
theorem exists_compile_bracket {inside : Bytes} (encloses : Encloses inside) {maxCells : Nat}
    (enough : 20 ≤ maxCells) :
    ∃ p, compile (Piece.bracket inside).word true true maxCells = .ok p := by
  rw [compile_eq (word_bracket_ne_nil inside) (cut_bracket encloses), emit_eq, if_pos]
  · exact ⟨_, rfl⟩
  · exact enough

/-- A glob that is one bracket matches the subjects of one byte that the bracket lists. -/
theorem isSome_search_bracket_iff {inside : Bytes} (encloses : Encloses inside) {maxCells : Nat}
    {p : Program} (compiled : compile (Piece.bracket inside).word true true maxCells = .ok p)
    (subject : Subject) :
    (p.search subject 0).isSome = true ↔
      ∃ b, subject.toList = [b] ∧ b ∈ bracketSet true inside := by
  rw [← fits_bracket_iff encloses]
  have cut := cut_bracket encloses
  by_cases fits : Fits true [.bracket inside] subject.toList
  · simp [search_of_fits compiled cut fits, fits]
  · simp [search_of_not_fits compiled cut fits, fits]

/-- **A glob's bracket lists its bytes, with `*` read as `.*` and `?` as a dot.**  In any glob, a
bracket becomes the set of the bytes that it lists where `.`, `+`, `\`, `$`, `^` and every other byte
stand for themselves, but for these two; so a bracket without them lists just what stands in it.  A
glob that is one bracket matches the subjects of one such byte. -/
theorem glob_bracket_lists {inside : Bytes} (encloses : Encloses inside) :
    (∀ glob before after, Cut glob (before ++ .bracket inside :: after) [] →
      ∃ set front back,
        parse true (sourceText true glob) = .ok (front ++ .atom (.set set) :: back) ∧
        front.length = before.length + 1 ∧
        ∀ b, b ∈ set ↔ ListedBy (isNegated inside) ((listed inside).flatMap readAs) b) ∧
    (∀ maxCells, 20 ≤ maxCells →
      ∃ p, compile (Piece.bracket inside).word true true maxCells = .ok p ∧
        ∀ subject : Subject, (p.search subject 0).isSome = true ↔
          ∃ b, subject.toList = [b] ∧
            ListedBy (isNegated inside) ((listed inside).flatMap readAs) b) ∧
    (Byte.star ∉ inside → Byte.question ∉ inside → ∀ b,
      ListedBy (isNegated inside) ((listed inside).flatMap readAs) b ↔
        ListedBy (isNegated inside) (listed inside) b) := by
  refine ⟨?inGlob, ?alone, ?plain⟩
  case inGlob =>
    intro glob before after cut
    have parsed : parse true (sourceText true glob) = .ok _ := parse_of_cut cut
    rw [nodes_bracket] at parsed
    refine ⟨_, _, _, parsed, ?_, fun b => mem_bracketSet_iff encloses⟩
    rw [List.length_cons, List.length_map]
  case alone =>
    intro maxCells enough
    obtain ⟨p, compiled⟩ := exists_compile_bracket encloses enough
    refine ⟨p, compiled, fun subject => ?_⟩
    rw [isSome_search_bracket_iff encloses compiled]
    simp only [mem_bracketSet_iff encloses]
  case plain =>
    intro noStar noQuestion b
    rw [flatMap_readAs (mt mem_of_mem_listed noStar) (mt mem_of_mem_listed noQuestion)]

/-- `[^+-.\]` lists what is from `+` to the dot, and a backslash; it matches `b`, and neither a
comma nor a backslash. -/
theorem glob_bracket_lists_range :
    ∃ p, compile [0x5b, 0x5e, 0x2b, 0x2d, 0x2e, 0x5c, 0x5d] true true 20 = .ok p ∧
      (p.search (.ofBytes [0x62]) 0).isSome = true ∧
      (p.search (.ofBytes [0x2c]) 0).isSome = false ∧
      (p.search (.ofBytes [0x5c]) 0).isSome = false := by
  have arranged : Arranged (verbatim [0x2b, 0x2d, 0x2e, 0x5c]) [.range 0x2b 0x2e, .single 0x5c] :=
    .range (.single (by simp [Bracket.Joins]) .nil)
  have encloses : Encloses [0x5e, 0x2b, 0x2d, 0x2e, 0x5c] := by decide
  obtain ⟨-, alone, plain⟩ := glob_bracket_lists encloses
  obtain ⟨p, compiled, finds⟩ := alone 20 (Nat.le_refl 20)
  have shows : ∀ b, (p.search (.ofBytes [b]) 0).isSome = true ↔
      ¬ Bracket.Lists [.range 0x2b 0x2e, .single 0x5c] b := by
    intro b
    have lists : ListedBy true [0x2b, 0x2d, 0x2e, 0x5c] b ↔
        ¬ Bracket.Lists [.range 0x2b 0x2e, .single 0x5c] b := listedBy_iff arranged
    have single := finds (.ofBytes [b])
    simp only [plain (by decide) (by decide), Subject.toList_ofBytes] at single
    rw [single, ← lists]
    constructor
    · rintro ⟨c, same, listed⟩
      obtain rfl := (List.cons.inj same).1
      exact listed
    · exact fun listed => ⟨b, rfl, listed⟩
  refine ⟨p, compiled, (shows _).2 (by decide), ?_, ?_⟩
  · rw [← Bool.not_eq_true, shows]
    decide
  · rw [← Bool.not_eq_true, shows]
    decide

theorem arranged_singleton (b : UInt8) : Arranged (verbatim [b]) [.single b] :=
  .single (by simp [Bracket.Joins]) .nil

/-- In `[?]` the question mark does not stand for itself: the bracket lists a dot, and the glob does
not match a question mark.  In `[*]` a dot is listed beside the star. -/
theorem glob_bracket_question :
    (¬ ∀ b, b ∈ bracketSet true [Byte.question] ↔
      ListedBy (isNegated [Byte.question]) (listed [Byte.question]) b) ∧
    (∃ p, compile [Byte.leftBracket, Byte.question, Byte.rightBracket] true true 1024 = .ok p ∧
      p.search (.ofBytes [Byte.question]) 0 = none ∧
      (p.search (.ofBytes [Byte.dot]) 0).isSome = true) ∧
    ¬ ∀ b, b ∈ bracketSet true [Byte.star] ↔ ListedBy (isNegated [Byte.star]) (listed [Byte.star]) b := by
  have question : Encloses [Byte.question] := by decide
  have star : Encloses [Byte.star] := by decide
  have listsDot : ∀ b, b ∈ bracketSet true [Byte.question] ↔ Bracket.Lists [.single Byte.dot] b :=
    fun b => (mem_bracketSet_iff question).trans (listedBy_iff (arranged_singleton Byte.dot))
  have absent : Byte.question ∉ bracketSet true [Byte.question] := by
    rw [listsDot]
    decide
  refine ⟨fun same => ?_, ?_, fun same => ?_⟩
  · have itself : ListedBy (isNegated [Byte.question]) (listed [Byte.question]) Byte.question :=
      (listedBy_iff (arranged_singleton Byte.question)).2 (by decide)
    exact absent ((same _).2 itself)
  · have enough : 20 ≤ 1024 := by decide
    obtain ⟨p, compiled⟩ := exists_compile_bracket question enough
    refine ⟨p, compiled, ?_, (isSome_search_bracket_iff question compiled _).2 ⟨Byte.dot, rfl, ?_⟩⟩
    · rw [← Option.not_isSome_iff_eq_none, isSome_search_bracket_iff question compiled]
      rintro ⟨b, single, member⟩
      obtain rfl := (List.cons.inj single).1
      exact absent member
    · rw [listsDot]
      decide
  · have dot : Byte.dot ∈ bracketSet true [Byte.star] := by
      have arranged : Arranged (verbatim [Byte.dot, Byte.star]) [.single Byte.dot, .single Byte.star] :=
        .single (by simp [Bracket.Joins]) (arranged_singleton Byte.star)
      exact (mem_bracketSet_iff star).2 ((listedBy_iff arranged).2 (by decide))
    have listed := (listedBy_iff (arranged_singleton Byte.star)).1 ((same _).1 dot)
    revert listed
    decide

end Bytewise.Pattern.Glob
