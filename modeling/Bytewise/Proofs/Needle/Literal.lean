/-
# Bytewise.Proofs.Needle.Literal -- a pattern that spells bytes is those bytes

A byte can be written in a pattern as itself, unless it would be read as
something else, as two hexadecimal digits behind `\x`, as three octal digits
behind a backslash, or behind a backslash on its own (`Spelling`).  `Spells` lets
every byte of a string choose for itself.

* Each spelling is one word of the grammar, and its token is the literal byte
  (`Spelling.lexeme`); the digits need no look at what follows, because there are
  as many of them as an escape takes.
* So the text parses to one atom for each byte, which takes one cell
  (`compile_of_spells`), and such atoms divide nothing but the string itself
  (`decomposition_literals_iff`).
* Needles with the same occurrences answer every question alike (`find?_congr`,
  `findLast?_congr`, `count_congr`, `replace_congr`).
-/
import Bytewise.Proofs.Needle.Occurrences
import Bytewise.Proofs.Pattern.Budget
import Bytewise.Proofs.Pattern.Parsing

namespace Bytewise

set_option autoImplicit false

namespace Pattern

open Grammar (Folds Lexeme Reads escape_hex escape_octal letterB letterS letterX)

/-! ## Spellings -/

/-- The letters that mean something else behind a backslash. -/
def escapeLetters : Bytes :=
  [Byte.less, Byte.greater, letterB, letterS, 0x6e, 0x72, 0x74, 0x66, letterX]

/-- `Spelling before word after b`: between these two texts, the word writes the byte `b`. -/
inductive Spelling : Bytes → Bytes → Bytes → UInt8 → Prop
  | itself {before after : Bytes} {b : UInt8} :
      b ∉ Grammar.reserved → (b = Byte.caret → before ≠ []) →
      (b = Byte.dollar → after ≠ []) → Spelling before [b] after b
  | hex {before after : Bytes} {c₁ c₀ : UInt8} {d₁ d₀ : Nat} :
      Byte.Hexadecimal c₁ d₁ → Byte.Hexadecimal c₀ d₀ →
      Spelling before [Byte.backslash, letterX, c₁, c₀] after (UInt8.ofNat (d₁ * 16 + d₀))
  | octal {before after : Bytes} {c₂ c₁ c₀ : UInt8} {d₂ d₁ d₀ : Nat} :
      Byte.Octal c₂ d₂ → Byte.Octal c₁ d₁ → Byte.Octal c₀ d₀ →
      Spelling before [Byte.backslash, c₂, c₁, c₀] after (UInt8.ofNat ((d₂ * 8 + d₁) * 8 + d₀))
  | escaped {before after : Bytes} {b : UInt8} :
      b ∉ escapeLetters → (∀ d, ¬ Byte.Octal b d) →
      Spelling before [Byte.backslash, b] after b

/-- Behind `before`, the text writes the bytes of `s` one after the other. -/
inductive Spells : Bytes → Bytes → Bytes → Prop
  | nil (before : Bytes) : Spells before [] []
  | cons {before word after s : Bytes} {b : UInt8} :
      Spelling before word after b → Spells (before ++ word) after s →
      Spells before (word ++ after) (b :: s)

/-- One atom for each byte. -/
def literals (caseSensitive : Bool) (s : Bytes) : List Node :=
  s.map fun b => .atom (.literal caseSensitive b)

theorem not_octal_escapeToken {c : UInt8} (member : c ∈ Grammar.escapeTokens.map Prod.fst) :
    ∀ d, ¬ Byte.Octal c d := by
  have all : (Grammar.escapeTokens.map Prod.fst).all (fun c => Byte.octalValue? c == none) = true :=
    by decide
  exact Byte.octalValue?_eq_none_iff.1 (beq_iff_eq.1 (List.all_eq_true.1 all c member))

theorem Spelling.lexeme {before word after : Bytes} {b : UInt8}
    (spelling : Spelling before word after b) (caseSensitive : Bool) :
    Lexeme caseSensitive before word after (.atom (.literal caseSensitive b)) := by
  cases spelling with
  | itself free caret dollar => exact .literal free caret dollar
  | hex first last => exact .escape (by decide) (escape_hex first last)
  | octal first second last =>
      refine .escape (fun member => ?_) (escape_octal first second last)
      exact not_octal_escapeToken member _ first
  | escaped free noDigit =>
      have tokens : Grammar.escapeTokens.map Prod.fst ⊆ escapeLetters := by decide
      have names : Grammar.names.map Prod.fst ⊆ escapeLetters := by decide
      have hex : letterX ∈ escapeLetters := by decide
      refine .escape (fun member => free (tokens member)) (.plain ?_ noDigit ?_)
      · exact fun member => free (names member)
      · rintro rfl
        exact free hex

theorem Spells.reads {before text s : Bytes} (spells : Spells before text s) (caseSensitive : Bool) :
    Reads caseSensitive before text (s.map fun b => .atom (.literal caseSensitive b))
      (before ++ text) [] := by
  induction spells with
  | nil before =>
      rw [List.append_nil]
      exact .nil before []
  | cons spelling _ ih =>
      rw [← List.append_assoc]
      exact .cons (spelling.lexeme caseSensitive) ih

theorem folds_literals (caseSensitive : Bool) (s : Bytes) :
    Folds (s.map fun b => .atom (.literal caseSensitive b)) (literals caseSensitive s) := by
  induction s with
  | nil => exact .nil
  | cons b s ih => exact .atom ih

theorem Spells.parse_eq {text s : Bytes} (spells : Spells [] text s) (caseSensitive : Bool) :
    parse caseSensitive text = .ok (literals caseSensitive s) :=
  parse_eq_ok (spells.reads caseSensitive) (folds_literals caseSensitive s)

theorem Spells.ne_nil {before text s : Bytes} (spells : Spells before text s) (nonempty : s ≠ []) :
    text ≠ [] := by
  cases spells with
  | nil => exact absurd rfl nonempty
  | cons spelling _ => cases spelling <;> exact List.cons_ne_nil _ _

theorem cellsOf_literals (caseSensitive : Bool) (s : Bytes) :
    cellsOf (codeOf (literals caseSensitive s)) = s.length + 1 := by
  induction s with
  | nil => rfl
  | cons b s ih =>
      rw [literals, List.map_cons, codeOf_cons]
      show Instr.ownCells + cellsOf (codeOf (literals caseSensitive s)) = _
      rw [ih, List.length_cons, Instr.ownCells, Nat.add_comm]

/-- The text of a spelling compiles to one atom for each byte, if there is a cell for each of them
and one more. -/
theorem compile_of_spells {text s : Bytes} (spells : Spells [] text s) (nonempty : s ≠ [])
    {maxCells : Nat} (fits : s.length + 1 ≤ maxCells) (caseSensitive : Bool) :
    compile text caseSensitive false maxCells =
      .ok ⟨codeOf (literals caseSensitive s), s.length + 1, caseSensitive⟩ := by
  have parsed := spells.parse_eq caseSensitive
  rw [compile, if_neg (spells.ne_nil nonempty), sourceText, if_neg Bool.false_ne_true, parsed]
  show emit caseSensitive maxCells (literals caseSensitive s) = _
  rw [emit_eq, cellsOf_literals, if_pos fits]

/-! ## What literal atoms match -/

/-- Are two bytes the same, up to the case of letters if case is ignored? -/
def sameByte (caseSensitive : Bool) (a b : UInt8) : Bool :=
  Byte.fold caseSensitive a == Byte.fold caseSensitive b

theorem acceptsAt_literal_iff {caseSensitive : Bool} {subject : Subject} {b : UInt8} {i : Nat} :
    (Atom.literal caseSensitive b).AcceptsAt caseSensitive subject.toList i ↔
      (subject.get? i).any (sameByte caseSensitive b) = true := by
  have accepts : (Atom.literal caseSensitive b).accepts caseSensitive = sameByte caseSensitive b :=
    funext fun _ => BEq.comm
  rw [← Atom.any_accepts_iff, accepts]

/-- Literal atoms take the string they spell and nothing else. -/
theorem decomposition_literals_iff {caseSensitive : Bool} {subject : Subject} {s : Bytes} {i e : Nat}
    {counts : List Nat} :
    Decomposition caseSensitive subject.toList (literals caseSensitive s) i counts e ↔
      Needle.startsAt (sameByte caseSensitive) subject s i = true ∧ counts = [] ∧
        e = i + s.length := by
  induction s generalizing i with
  | nil =>
      show Decomposition _ _ [] i counts e ↔ true = true ∧ counts = [] ∧ e = i
      rw [decomposition_nil_iff]
      exact (and_iff_right rfl).symm
  | cons b s ih =>
      show Decomposition _ _ (.atom (.literal caseSensitive b) :: literals caseSensitive s) i counts
        e ↔ _
      rw [decomposition_atom_iff, ih, acceptsAt_literal_iff, Needle.startsAt, Bool.and_eq_true,
        List.length_cons, and_assoc, Nat.add_right_comm, Nat.add_assoc]

theorem matchEnd?_of_spells {text s : Bytes} (spells : Spells [] text s) (nonempty : s ≠ [])
    {caseSensitive : Bool} {maxCells : Nat} {p : Program}
    (compiled : compile text caseSensitive false maxCells = .ok p) (subject : Subject) (i : Nat) :
    p.matchEnd? subject i =
      if Needle.startsAt (sameByte caseSensitive) subject s i then some (i + s.length) else none := by
  have parsed := spells.parse_eq caseSensitive
  ext e
  constructor
  · intro found
    have inside := (Program.le_size_of_matchEnd? found).1
    obtain ⟨counts, d, -⟩ := (answers_matchEnd? compiled parsed subject inside).eq_some_iff.1 found
    obtain ⟨starts, -, rfl⟩ := decomposition_literals_iff.1 d
    rw [if_pos starts]
  · intro found
    obtain ⟨starts, ⟨⟩⟩ := Option.ite_none_right_eq_some.1 found
    have inside : i ≤ subject.size := by
      have := Needle.startsAt_fits nonempty starts
      omega
    refine (answers_matchEnd? compiled parsed subject inside).eq_some_iff.2 ⟨[], ?_, ?_⟩
    · exact decomposition_literals_iff.2 ⟨starts, rfl, rfl⟩
    · intro counts e d
      exact .inl (decomposition_literals_iff.1 d).2.1

end Pattern

namespace Needle

/-! ## Needles with the same occurrences -/

section

variable {n m : Needle} {hay hay' : Subject}

theorem find?_congr (same : ∀ i, n.matchLength? hay i = m.matchLength? hay' i)
    (size : hay.size = hay'.size) (start : Nat) : n.find? hay start = m.find? hay' start := by
  have spans : n.spanAt? hay = m.spanAt? hay' := by
    funext i
    rw [spanAt?, same, spanAt?]
  rw [find?_eq_findSome?, find?_eq_findSome?, spans, size]

theorem lastPosition?_congr (same : ∀ i, n.matchLength? hay i = m.matchLength? hay' i)
    (start : Nat) : n.lastPosition? hay start = m.lastPosition? hay' start := by
  induction start with
  | zero => rw [lastPosition?, same, lastPosition?]
  | succ start ih => rw [lastPosition?, same, ih, lastPosition?]

theorem findLast?_congr (same : ∀ i, n.matchLength? hay i = m.matchLength? hay' i)
    (size : hay.size = hay'.size) (start : Nat) :
    n.findLast? hay start = m.findLast? hay' start := by
  rw [findLast?, lastPosition?_congr same, size, findLast?]

theorem count_congr (same : ∀ i, n.matchLength? hay i = m.matchLength? hay' i) :
    n.count hay = m.count hay' := by
  have positions : n.occurrences hay = m.occurrences hay' := by
    ext i
    rw [mem_occurrences_iff, same, mem_occurrences_iff]
  rw [count_eq_card, positions, count_eq_card]

end

theorem replaceFrom_congr {n m : Needle} (same : ∀ hay start, n.find? hay start = m.find? hay start)
    (replacement : Bytes) (fuel index : Nat) (s : Subject) :
    n.replaceFrom replacement fuel index s = m.replaceFrom replacement fuel index s := by
  induction fuel generalizing index s with
  | zero => rfl
  | succ fuel ih =>
      rw [replaceFrom, same, replaceFrom]
      simp only [ih]

theorem replace_congr {n m : Needle} (same : ∀ hay start, n.find? hay start = m.find? hay start)
    (replacement s : Bytes) : n.replace replacement s = m.replace replacement s := by
  rw [replace, replaceFrom_congr same, replace]

/-! ## Byte strings as needles -/

/-- A byte string, looked for as it is or without regard to case. -/
def literal (caseSensitive : Bool) (w : Bytes) : Needle :=
  if caseSensitive then .bytes w else .ignoringCase w

theorem matchLength?_literal {w : Bytes} (nonempty : w ≠ []) (caseSensitive : Bool) (hay : Subject)
    (i : Nat) :
    matchLength? (literal caseSensitive w) hay i =
      if startsAt (Pattern.sameByte caseSensitive) hay w i then some w.length else none := by
  cases caseSensitive with
  | true => exact if_congr (and_iff_right nonempty) rfl rfl
  | false => exact if_congr (and_iff_right nonempty) rfl rfl

/-- Ignoring case comes to looking for lower case in lower case. -/
theorem startsAt_sameLetter (w hay : Bytes) (i : Nat) :
    startsAt sameLetter (.ofBytes hay) w i =
      startsAt (· == ·) (.ofBytes (hay.map Byte.toLower)) (w.map Byte.toLower) i := by
  induction w generalizing i with
  | nil => rfl
  | cons b w ih =>
      have lowered : (Subject.ofBytes (hay.map Byte.toLower)).get? i =
          ((Subject.ofBytes hay).get? i).map Byte.toLower := by
        rw [Subject.get?_eq, Subject.get?_eq, Subject.toList_ofBytes, Subject.toList_ofBytes,
          List.getElem?_map]
      rw [startsAt, List.map_cons, startsAt, ih, lowered, Option.any_map]
      rfl

theorem matchLength?_ignoringCase (w hay : Bytes) (i : Nat) :
    matchLength? (.ignoringCase w) (.ofBytes hay) i =
      matchLength? (.bytes (w.map Byte.toLower)) (.ofBytes (hay.map Byte.toLower)) i := by
  rw [matchLength?, matchLength?, startsAt_sameLetter, List.length_map]
  simp only [ne_eq, List.map_eq_nil_iff]

theorem matchLength?_pattern_of_spells {text w : Bytes} (spells : Pattern.Spells [] text w)
    (nonempty : w ≠ []) {caseSensitive : Bool} {maxCells : Nat} {p : Pattern.Program}
    (compiled : Pattern.compile text caseSensitive false maxCells = .ok p) {q : Pattern}
    (program : q.program? = some p) (hay : Subject) (i : Nat) :
    matchLength? (.pattern q) hay i = matchLength? (literal caseSensitive w) hay i := by
  rw [matchLength?_literal nonempty]
  show q.matchLength? hay i = _
  rw [Pattern.matchLength?_eq program, Pattern.matchEnd?_of_spells spells nonempty compiled]
  split
  · rw [Option.map_some, Nat.add_sub_cancel_left]
  · rfl

/-- **A pattern that spells a string is that string.**  However its bytes are written, each in its
own way, the text compiles as soon as there is a cell for each byte and one more.  The pattern then
occurs where the string occurs and as long, with and without regard to case, so that looking for
it in either direction, counting it and replacing it give the same; and a string without regard to
case occurs where its lower case does in the lower case of the bytes. -/
theorem spelled_pattern_eq_literal {text w : Bytes} (spells : Pattern.Spells [] text w)
    (nonempty : w ≠ []) {maxCells : Nat} (fits : w.length + 1 ≤ maxCells) (caseSensitive : Bool) :
    (∃ p, Pattern.compile text caseSensitive false maxCells = .ok p) ∧
    (∀ q : Pattern, q.program? = (Pattern.compile text caseSensitive false maxCells).toOption →
      ∀ hay : Bytes,
        (∀ i, matchLength? (.pattern q) (.ofBytes hay) i =
          matchLength? (literal caseSensitive w) (.ofBytes hay) i) ∧
        (∀ start, find? (.pattern q) (.ofBytes hay) start =
          find? (literal caseSensitive w) (.ofBytes hay) start) ∧
        (∀ start?, Strings.findLast? hay (.pattern q) start? =
          Strings.findLast? hay (literal caseSensitive w) start?) ∧
        count (.pattern q) (.ofBytes hay) = count (literal caseSensitive w) (.ofBytes hay) ∧
        ∀ replacement, replace (.pattern q) replacement hay =
          replace (literal caseSensitive w) replacement hay) ∧
    ∀ hay : Bytes,
      (∀ i, matchLength? (.ignoringCase w) (.ofBytes hay) i =
        matchLength? (.bytes (w.map Byte.toLower)) (.ofBytes (hay.map Byte.toLower)) i) ∧
      ∀ start, find? (.ignoringCase w) (.ofBytes hay) start =
        find? (.bytes (w.map Byte.toLower)) (.ofBytes (hay.map Byte.toLower)) start := by
  have compiled := Pattern.compile_of_spells spells nonempty fits caseSensitive
  refine ⟨⟨_, compiled⟩, fun q program hay => ?_, fun hay => ⟨fun i => ?_, fun start => ?_⟩⟩
  · have same := matchLength?_pattern_of_spells spells nonempty compiled
      (program.trans (congrArg Except.toOption compiled))
    refine ⟨same _, find?_congr (same _) rfl, fun start? => ?_, count_congr (same _),
      fun replacement => ?_⟩
    · simp only [Strings.findLast?, findLast?_congr (same _) rfl]
    · exact replace_congr (fun hay => find?_congr (same hay) rfl) replacement hay
  · exact matchLength?_ignoringCase w hay i
  · refine find?_congr (matchLength?_ignoringCase w hay) ?_ start
    rw [Subject.size_eq, Subject.size_eq, Subject.toList_ofBytes, Subject.toList_ofBytes,
      List.length_map]

/-- `\^a\x62\143` writes `^abc`, each byte in another way; without regard to case it is found in
`x^AbC`. -/
theorem spelled_pattern_eq_literal_mixed :
    ∃ p, Pattern.compile [0x5c, 0x5e, 0x61, 0x5c, 0x78, 0x36, 0x32, 0x5c, 0x31, 0x34, 0x33]
        false false 5 = .ok p ∧
      find? (.pattern ⟨"\\^a\\x62\\143", false, false, 5, some p, none⟩)
        (.ofBytes [0x78, 0x5e, 0x41, 0x62, 0x43]) 0 = some ⟨1, 4⟩ := by
  have hex : Pattern.Spelling [0x5c, 0x5e, 0x61] [0x5c, 0x78, 0x36, 0x32] [0x5c, 0x31, 0x34, 0x33]
      (UInt8.ofNat (6 * 16 + 2)) := .hex (by decide) (by decide)
  have octal : Pattern.Spelling [0x5c, 0x5e, 0x61, 0x5c, 0x78, 0x36, 0x32] [0x5c, 0x31, 0x34, 0x33]
      [] (UInt8.ofNat ((1 * 8 + 4) * 8 + 3)) :=
    .octal (by decide) (by decide) (by decide)
  have spells : Pattern.Spells []
      [0x5c, 0x5e, 0x61, 0x5c, 0x78, 0x36, 0x32, 0x5c, 0x31, 0x34, 0x33] [0x5e, 0x61, 0x62, 0x63] :=
    .cons (.escaped (by decide) (by decide))
      (.cons (.itself (by decide) (by decide) (by decide)) (.cons hex (.cons octal (.nil _))))
  have fits : ([0x5e, 0x61, 0x62, 0x63] : Bytes).length + 1 ≤ 5 := by decide
  obtain ⟨⟨p, compiled⟩, questions, -⟩ :=
    spelled_pattern_eq_literal spells (List.cons_ne_nil _ _) fits false
  obtain ⟨-, finds, -⟩ := questions ⟨"\\^a\\x62\\143", false, false, 5, some p, none⟩
    (congrArg Except.toOption compiled).symm
    [0x78, 0x5e, 0x41, 0x62, 0x43]
  exact ⟨p, compiled, (finds 0).trans (by decide)⟩

end Needle

end Bytewise
