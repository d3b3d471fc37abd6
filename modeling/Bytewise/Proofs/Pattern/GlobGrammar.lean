/-
# Bytewise.Proofs.Pattern.GlobGrammar -- how globs are written, and what they become

A glob is a row of pieces: `*`, `?`, a bracket, or a byte that stands for itself.
A bracket goes from its `[` to the first `]` behind an optional `^` and an
optional `]` right there (`Encloses`); a `[` that no `]` closes in this way is
`Unclosed`.  `Cut glob pieces rest` says that the pieces make up the glob up to
`rest`.

The pattern text of a glob is the row of the texts of its pieces
(`toPatternText_eq`), and a pattern reads it back as exactly those pieces:

* `exists_cut`: every glob consists of pieces, to its end or up to an unclosed
  `[`;
* `read?_bracket`: the bracket of a piece is closed in the pattern text where it
  is closed in the glob, and has one set, whatever follows;
* `parse_toPatternText`, `parse_toPatternText_unclosed`: what the parser makes of
  the pattern text in the two cases.
-/
import Bytewise.Proofs.Pattern.BracketSet
import Bytewise.Pattern.Program

namespace Bytewise.Pattern.Glob

set_option autoImplicit false

/-! ## Pieces -/

/-- What a bracket lists: what it holds, but not the `^` that comes first. -/
def listed (inside : Bytes) : Bytes :=
  if inside.head? = some Byte.caret then inside.tail else inside

/-- What can stand between a `[` and the `]` that closes it: behind an optional `^`, at least one
byte, and a `]` only as the first of them. -/
def Encloses (inside : Bytes) : Prop :=
  listed inside ≠ [] ∧ Byte.rightBracket ∉ (listed inside).tail

instance (inside : Bytes) : Decidable (Encloses inside) := inferInstanceAs (Decidable (_ ∧ _))

/-- No `]` in the text closes the `[` before it. -/
def Unclosed (rest : Bytes) : Prop :=
  ∀ inside after, rest = inside ++ Byte.rightBracket :: after → ¬ Encloses inside

inductive Piece
  | star
  | question
  | bracket (inside : Bytes)
  | literal (c : UInt8)
  deriving DecidableEq

namespace Piece

def word : Piece → Bytes
  | .star => [Byte.star]
  | .question => [Byte.question]
  | .bracket inside => Byte.leftBracket :: (inside ++ [Byte.rightBracket])
  | .literal c => [c]

/-- The bytes that are no literals. -/
def special : Bytes := [Byte.star, Byte.question, Byte.leftBracket]

/-- The piece is what its word says in a glob. -/
def Proper : Piece → Prop
  | .star => True
  | .question => True
  | .bracket inside => Encloses inside
  | .literal c => c ∉ special

end Piece

/-- The pieces make up the glob, up to the rest of it. -/
def Cut (glob : Bytes) (pieces : List Piece) (rest : Bytes) : Prop :=
  glob = pieces.flatMap Piece.word ++ rest ∧ ∀ piece ∈ pieces, piece.Proper

theorem Cut.cons {piece : Piece} {glob rest : Bytes} {pieces : List Piece} (proper : piece.Proper)
    (cut : Cut glob pieces rest) : Cut (piece.word ++ glob) (piece :: pieces) rest := by
  obtain ⟨rfl, all⟩ := cut
  refine ⟨by simp, fun other member => ?_⟩
  rcases List.mem_cons.1 member with rfl | member
  · exact proper
  · exact all other member

/-- Behind a `[` stands a bracket, or nothing closes it. -/
theorem closed_or_unclosed (rest : Bytes) :
    (∃ inside after, rest = inside ++ Byte.rightBracket :: after ∧ Encloses inside) ∨
      Unclosed rest := by
  by_cases closed : ∃ inside after, rest = inside ++ Byte.rightBracket :: after ∧ Encloses inside
  · exact .inl closed
  · refine .inr fun inside after split encloses => closed ⟨inside, after, split, encloses⟩

/-- Every glob consists of pieces, to its end or up to a `[` that nothing closes. -/
theorem exists_cut (glob : Bytes) :
    ∃ pieces rest, Cut glob pieces rest ∧
      (rest = [] ∨ ∃ behind, rest = Byte.leftBracket :: behind ∧ Unclosed behind) := by
  match glob with
  | [] => exact ⟨[], [], ⟨rfl, by simp⟩, .inl rfl⟩
  | c :: glob =>
      by_cases isBracket : c = Byte.leftBracket
      · subst isBracket
        rcases closed_or_unclosed glob with ⟨inside, after, split, encloses⟩ | unclosed
        · have shorter : after.length < (Byte.leftBracket :: glob).length := by
            simp only [split, List.length_cons, List.length_append]
            omega
          obtain ⟨pieces, rest, cut, verdict⟩ := exists_cut after
          have word : (Piece.bracket inside).word ++ after = Byte.leftBracket :: glob := by
            simp [Piece.word, split]
          refine ⟨.bracket inside :: pieces, rest, ?_, verdict⟩
          rw [← word]
          exact cut.cons encloses
        · exact ⟨[], _, ⟨rfl, by simp⟩, .inr ⟨glob, rfl, unclosed⟩⟩
      · obtain ⟨pieces, rest, cut, verdict⟩ := exists_cut glob
        obtain ⟨piece, word, proper⟩ : ∃ piece : Piece, piece.word = [c] ∧ piece.Proper := by
          by_cases isStar : c = Byte.star
          · exact ⟨.star, by rw [isStar, Piece.word], trivial⟩
          by_cases isQuestion : c = Byte.question
          · exact ⟨.question, by rw [isQuestion, Piece.word], trivial⟩
          exact ⟨.literal c, rfl, by simp [Piece.Proper, Piece.special, *]⟩
        refine ⟨piece :: pieces, rest, ?_, verdict⟩
        rw [← List.singleton_append, ← word]
        exact cut.cons proper
  termination_by glob.length

/-! ## The text of a glob, cut in two -/

/-- Does a `[` come just before what follows the text? -/
def opens (opened : Bool) (s : Bytes) : Bool := (s.getLast?.map (· == Byte.leftBracket)).getD opened

theorem body_append (opened : Bool) (s t : Bytes) :
    body opened (s ++ t) = body opened s ++ body (opens opened s) t := by
  induction s generalizing opened with
  | nil => rfl
  | cons c s ih =>
      have last : ∀ opened', opened' = (c == Byte.leftBracket) →
          opens opened' s = opens opened (c :: s) := by
        rintro _ rfl
        cases s <;> simp [opens, List.getLast?_cons]
      rw [List.cons_append, body, body]
      split
      · rename_i caret
        have notBracket : false = (c == Byte.leftBracket) := by rw [caret.2]; rfl
        rw [ih, last _ notBracket, List.cons_append]
      · rw [ih, last _ rfl, List.append_assoc]

/-- A `]` is kept, and behind it nothing is open. -/
theorem body_rightBracket (opened : Bool) (after : Bytes) :
    body opened (Byte.rightBracket :: after) = Byte.rightBracket :: body false after := by
  have other : ¬ (opened = true ∧ Byte.rightBracket = Byte.caret) := fun h => absurd h.2 (by decide)
  rw [body, if_neg other]
  rfl

theorem body_caret (after : Bytes) : body true (Byte.caret :: after) = Byte.caret :: body false after :=
  rfl

theorem body_cons {opened : Bool} {c : UInt8} (other : opened = true → c ≠ Byte.caret)
    (after : Bytes) : body opened (c :: after) = byteText c ++ body (c == Byte.leftBracket) after := by
  rw [body, if_neg fun h => other h.1 h.2]

theorem body_close (opened : Bool) (s : Bytes) :
    body opened (s ++ [Byte.rightBracket]) = body opened s ++ [Byte.rightBracket] := by
  rw [body_append, body_rightBracket, body]

namespace Piece

/-- The pattern text of a piece. -/
def text (piece : Piece) : Bytes := body false piece.word

variable {piece : Piece}

/-- No piece ends with an open `[`. -/
theorem opens_word (proper : piece.Proper) : opens false piece.word = false := by
  cases piece with
  | star => rfl
  | question => rfl
  | bracket inside =>
      rw [word, ← List.cons_append, opens, List.getLast?_concat]
      rfl
  | literal c =>
      have other : c ≠ Byte.leftBracket := fun same => proper (by simp [same, special])
      simp [word, opens, other]

theorem body_word_append (proper : piece.Proper) (after : Bytes) :
    body false (piece.word ++ after) = piece.text ++ body false after := by
  rw [body_append, opens_word proper, text]

end Piece

theorem body_pieces {pieces : List Piece} (proper : ∀ piece ∈ pieces, piece.Proper)
    (after : Bytes) :
    body false (pieces.flatMap Piece.word ++ after) =
      pieces.flatMap Piece.text ++ body false after := by
  induction pieces with
  | nil => rfl
  | cons piece pieces ih =>
      have tail := ih fun other member => proper other (List.mem_cons_of_mem _ member)
      rw [List.flatMap_cons, List.flatMap_cons, List.append_assoc,
        Piece.body_word_append (proper piece List.mem_cons_self), tail, List.append_assoc]

theorem body_words {pieces : List Piece} (proper : ∀ piece ∈ pieces, piece.Proper) :
    body false (pieces.flatMap Piece.word) = pieces.flatMap Piece.text := by
  have whole := body_pieces proper []
  rwa [body, List.append_nil, List.append_nil] at whole

/-- The pattern text of a glob is that of its pieces, and that of the rest. -/
theorem toPatternText_eq {glob rest : Bytes} {pieces : List Piece} (cut : Cut glob pieces rest) :
    toPatternText glob =
      Byte.caret :: (pieces.flatMap Piece.text ++ (body false rest ++ [Byte.dollar])) := by
  obtain ⟨rfl, proper⟩ := cut
  rw [toPatternText, body_pieces proper, List.append_assoc]

/-! ## Brackets -/

/-- The members that one byte between brackets becomes. -/
def byteMembers (c : UInt8) : List Bracket.Member :=
  if c = Byte.star then [.byte Byte.dot false, .byte Byte.star false]
  else if c = Byte.question then [.byte Byte.dot false]
  else [.byte c (needsEscape c)]

/-- The members that the text between brackets becomes. -/
def members (opened : Bool) : Bytes → List Bracket.Member
  | [] => []
  | c :: rest =>
    if opened = true ∧ c = Byte.caret then .byte c false :: members false rest
    else byteMembers c ++ members (c == Byte.leftBracket) rest

/-- An escaped byte of a glob stands for itself. -/
theorem escape_of_needsEscape {c : UInt8} (escaped : needsEscape c = true) (after : Bytes) :
    Grammar.Escape [c] after c := by
  simp only [needsEscape, Bool.or_eq_true, beq_iff_eq] at escaped
  rcases escaped with (((rfl | rfl) | rfl) | rfl) | rfl <;>
    exact .plain (by decide) (by decide) (by decide)

theorem needsEscape_ne {c e : UInt8} (escaped : needsEscape c = true)
    (other : needsEscape e = false) : c ≠ e := by
  rintro rfl
  rw [escaped] at other
  cases other

theorem members_byteText {c : UInt8} {word after : Bytes} {ms : List Bracket.Member}
    (open_ : c ≠ Byte.rightBracket) (behind : Grammar.Members word after ms) :
    Grammar.Members (byteText c ++ word) after (byteMembers c ++ ms) := by
  unfold byteText byteMembers
  by_cases isStar : c = Byte.star
  · simp only [if_pos isStar]
    exact .plain (by decide) (by decide) (.plain (by decide) (by decide) behind)
  by_cases isQuestion : c = Byte.question
  · simp only [if_neg isStar, if_pos isQuestion]
    exact .plain (by decide) (by decide) behind
  simp only [if_neg isStar, if_neg isQuestion]
  cases escaped : needsEscape c with
  | true =>
      rw [if_pos rfl]
      have notBlank : c ≠ Grammar.letterS := needsEscape_ne escaped (by decide)
      show Grammar.Members (Byte.backslash :: c :: ([] ++ word)) after _
      exact .escape notBlank (escape_of_needsEscape escaped _) behind
  | false =>
      rw [if_neg (by decide)]
      have notBackslash : c ≠ Byte.backslash := Ne.symm (needsEscape_ne (by decide) escaped)
      exact .plain open_ notBackslash behind

/-- Between brackets, the pattern text of a glob is a row of members, whatever follows. -/
theorem members_body (opened : Bool) {s : Bytes} (open_ : Byte.rightBracket ∉ s) (after : Bytes) :
    Grammar.Members (body opened s) after (members opened s) := by
  induction s generalizing opened with
  | nil => exact .nil after
  | cons c s ih =>
      rw [List.mem_cons, not_or] at open_
      rw [body, members]
      split
      · rename_i caret
        rw [caret.2]
        exact .plain (by decide) (by decide) (ih false open_.2)
      · exact members_byteText (Ne.symm open_.1) (ih _ open_.2)

theorem members_rightBracket (opened : Bool) (s : Bytes) :
    members opened (Byte.rightBracket :: s) = .byte Byte.rightBracket false :: members false s := by
  have other : ¬ (opened = true ∧ Byte.rightBracket = Byte.caret) := fun h => absurd h.2 (by decide)
  rw [members, if_neg other]
  rfl

/-- What a bracket lists is listed by its pattern text, and closed there. -/
theorem listed_body (opened : Bool) {s : Bytes} (nonempty : s ≠ [])
    (open_ : Byte.rightBracket ∉ s.tail) (after : Bytes) :
    Grammar.Listed (body opened (s ++ [Byte.rightBracket])) after (members opened s) := by
  obtain ⟨c, t, rfl⟩ := List.exists_cons_of_ne_nil nonempty
  by_cases first : c = Byte.rightBracket
  · rw [first, List.cons_append, body_rightBracket, body_close, members_rightBracket]
    exact .bracketFirst (members_body false open_ _)
  · have absent : Byte.rightBracket ∉ c :: t := by
      rw [List.mem_cons, not_or]
      exact ⟨Ne.symm first, open_⟩
    rw [body_close]
    refine .members ?_ (members_body opened absent _)
    rw [body]
    split
    · exact List.cons_ne_nil _ _
    · unfold byteText
      repeat' split
      all_goals simp

theorem head?_byteText_ne {c : UInt8} (other : c ≠ Byte.caret) (after : Bytes) :
    (byteText c ++ after).head? ≠ some Byte.caret := by
  unfold byteText
  repeat' split
  all_goals simp [Byte.dot, Byte.caret, Byte.backslash]
  exact other

/-- A `^` comes first in the bracket. -/
def isNegated (inside : Bytes) : Bool := inside.head? == some Byte.caret

/-- A bracket of a glob is a bracket of the pattern, with members that do not depend on what
follows. -/
theorem bracketed_body {inside : Bytes} (encloses : Encloses inside) (after : Bytes) :
    Grammar.Bracketed (isNegated inside) (body true (inside ++ [Byte.rightBracket])) after
      (members (!isNegated inside) (listed inside)) := by
  obtain ⟨nonempty, open_⟩ := encloses
  unfold listed at nonempty open_ ⊢
  by_cases caret : inside.head? = some Byte.caret
  · obtain ⟨t, rfl⟩ := List.head?_eq_some_iff.1 caret
    rw [if_pos caret] at nonempty open_ ⊢
    exact .negated (listed_body false nonempty open_ after)
  · have plain : isNegated inside = false := beq_false_of_ne caret
    rw [if_neg caret] at nonempty open_
    rw [if_neg caret, plain]
    refine .listed ?_ (listed_body true nonempty open_ after)
    obtain ⟨c, t, rfl⟩ := List.exists_cons_of_ne_nil nonempty
    have other : c ≠ Byte.caret := fun same => caret (by rw [same]; rfl)
    rw [List.cons_append, body_cons fun _ => other]
    exact head?_byteText_ne other _

/-- The set that the pattern text of a bracket stands for. -/
def bracketSet (caseSensitive : Bool) (inside : Bytes) : ByteSet :=
  ((Bracket.read? caseSensitive (body true (inside ++ [Byte.rightBracket]))).map Prod.fst).getD
    .empty

theorem bracketSet_eq (caseSensitive : Bool) {inside : Bytes} (encloses : Encloses inside) :
    bracketSet caseSensitive inside =
      Bracket.setOf caseSensitive (isNegated inside)
        (members (!isNegated inside) (listed inside)) := by
  have text := (bracketed_body encloses []).text caseSensitive
  have alone := Bracket.read?_eq_some_iff.2 ⟨_, (List.append_nil _).symm, text⟩
  simp [bracketSet, alone]

theorem bracketText_bracketSet (caseSensitive : Bool) {inside : Bytes} (encloses : Encloses inside)
    (after : Bytes) :
    Grammar.BracketText caseSensitive (body true (inside ++ [Byte.rightBracket])) after
      (bracketSet caseSensitive inside) := by
  rw [bracketSet_eq caseSensitive encloses]
  exact (bracketed_body encloses after).text caseSensitive

theorem read?_bracket (caseSensitive : Bool) {inside : Bytes} (encloses : Encloses inside)
    (after : Bytes) :
    Bracket.read? caseSensitive (body true (inside ++ [Byte.rightBracket]) ++ after) =
      some (bracketSet caseSensitive inside, after) :=
  Bracket.read?_eq_some_iff.2 ⟨_, rfl, bracketText_bracketSet caseSensitive encloses after⟩

/-! ## Brackets that are not closed -/

/-- Members are read off the front of whatever follows them. -/
theorem members?_append {word after : Bytes} {ms : List Bracket.Member}
    (words : Grammar.Members word after ms) :
    Bracket.members? (word ++ after) =
      (Bracket.members? after).map fun r => (ms ++ r.1, r.2) := by
  induction words with
  | nil after => simp
  | plain open_ plain _ ih =>
      rw [List.cons_append, Bracket.members?_cons open_ (Bracket.Member.read?_plain _ plain), ih]
      simp [Function.comp_def]
  | blank _ ih =>
      rw [List.cons_append, List.cons_append,
        Bracket.members?_cons (by decide) (Bracket.Member.read?_blank _), ih]
      simp [Function.comp_def]
  | @escape e b digits word following ms other escape _ ih =>
      have read := Bracket.Member.read?_escape (digits ++ (word ++ following)) other
      rw [Escape.decode_eq escape] at read
      rw [List.cons_append, List.cons_append, List.append_assoc,
        Bracket.members?_cons (by decide) read, ih]
      simp [Function.comp_def]

theorem members?_dollar : Bracket.members? [Byte.dollar] = none := by
  rw [Bracket.members?_cons (by decide) (Bracket.Member.read?_plain _ (by decide)),
    Bracket.members?]
  rfl

theorem members?_unclosed (opened : Bool) {s : Bytes} (open_ : Byte.rightBracket ∉ s) :
    Bracket.members? (body opened s ++ [Byte.dollar]) = none := by
  rw [members?_append (members_body opened open_ _), members?_dollar]
  rfl

theorem listed?_unclosed (opened : Bool) {s : Bytes} (open_ : Byte.rightBracket ∉ s.tail) :
    Bracket.listed? (body opened s ++ [Byte.dollar]) = none := by
  cases s with
  | nil => exact members?_dollar
  | cons c t =>
      by_cases first : c = Byte.rightBracket
      · have behind : Byte.rightBracket ∉ t := open_
        rw [first, body_rightBracket, List.cons_append, Bracket.listed?, if_pos rfl,
          members?_unclosed false behind]
        rfl
      · have absent : Byte.rightBracket ∉ c :: t := by
          rw [List.mem_cons, not_or]
          exact ⟨Ne.symm first, open_⟩
        have nothing := members?_unclosed opened absent
        obtain ⟨d, u, split⟩ : ∃ d u, body opened (c :: t) ++ [Byte.dollar] = d :: u :=
          List.exists_cons_of_ne_nil (by simp)
        rw [split] at nothing ⊢
        rw [Bracket.listed?, nothing]
        split
        · rename_i close
          rw [close, Bracket.members?_close] at nothing
          cases nothing
        · rfl

theorem exists_encloses {rest x y : Bytes} {c : UInt8}
    (lists : listed rest = c :: (x ++ Byte.rightBracket :: y)) (first : Byte.rightBracket ∉ x) :
    ∃ inside, rest = inside ++ Byte.rightBracket :: y ∧ Encloses inside := by
  unfold listed at lists
  by_cases caret : rest.head? = some Byte.caret
  · obtain ⟨t, rfl⟩ := List.head?_eq_some_iff.1 caret
    rw [if_pos caret, List.tail_cons] at lists
    refine ⟨Byte.caret :: c :: x, by rw [lists]; rfl, ?_⟩
    exact ⟨List.cons_ne_nil c x, first⟩
  · rw [if_neg caret] at lists
    have other : (c :: x).head? ≠ some Byte.caret := by
      rw [lists] at caret
      exact caret
    refine ⟨c :: x, lists, ?_⟩
    rw [Encloses, listed, if_neg other]
    exact ⟨List.cons_ne_nil c x, first⟩

/-- Where nothing closes a `[`, what it lists holds no `]` but as its first byte. -/
theorem Unclosed.not_mem_tail {rest : Bytes} (unclosed : Unclosed rest) :
    Byte.rightBracket ∉ (listed rest).tail := by
  intro member
  obtain ⟨x, y, split, first⟩ := List.eq_append_cons_of_mem member
  obtain ⟨c, t, lists⟩ : ∃ c t, listed rest = c :: t := by
    cases lists : listed rest with
    | nil => simp [lists] at member
    | cons c t => exact ⟨c, t, rfl⟩
  rw [lists, List.tail_cons] at split
  obtain ⟨inside, eq, encloses⟩ := exists_encloses (lists.trans (by rw [split])) first
  exact unclosed inside y eq encloses

theorem read?_unclosed (caseSensitive : Bool) {rest : Bytes} (unclosed : Unclosed rest) :
    Bracket.read? caseSensitive (body true rest ++ [Byte.dollar]) = none := by
  have open_ := unclosed.not_mem_tail
  unfold listed at open_
  by_cases caret : rest.head? = some Byte.caret
  · obtain ⟨t, rfl⟩ := List.head?_eq_some_iff.1 caret
    rw [if_pos caret, List.tail_cons] at open_
    rw [body_caret, List.cons_append, Bracket.read?, if_pos rfl, listed?_unclosed false open_]
    rfl
  · rw [if_neg caret] at open_
    have nothing := listed?_unclosed true open_
    obtain ⟨d, u, split⟩ : ∃ d u, body true rest ++ [Byte.dollar] = d :: u :=
      List.exists_cons_of_ne_nil (by simp)
    have other : d ≠ Byte.caret := by
      rintro rfl
      have head : (body true rest ++ [Byte.dollar]).head? = some Byte.caret := by rw [split]; rfl
      cases rest with
      | nil => exact absurd head (by decide)
      | cons c t =>
          have notCaret : c ≠ Byte.caret := fun same => caret (by rw [same]; rfl)
          rw [body_cons fun _ => notCaret, List.append_assoc] at head
          exact head?_byteText_ne notCaret _ head
    rw [split] at nothing ⊢
    rw [Bracket.read?, if_neg other, nothing]
    rfl

/-! ## Reading the pattern text -/

namespace Piece

/-- The atom that a piece becomes, once or repeated. -/
def atom (caseSensitive : Bool) : Piece → Atom
  | .star => .any
  | .question => .any
  | .bracket inside => .set (bracketSet caseSensitive inside)
  | .literal c => .literal caseSensitive c

def node (caseSensitive : Bool) (piece : Piece) : Node :=
  match piece with
  | .star => .repetition .zeroOrMore (piece.atom caseSensitive)
  | _ => .atom (piece.atom caseSensitive)

/-- The tokens that the pattern text of a piece consists of. -/
def tokens (caseSensitive : Bool) (piece : Piece) : List Token :=
  match piece with
  | .star => [.atom (piece.atom caseSensitive), .quantifier .zeroOrMore]
  | _ => [.atom (piece.atom caseSensitive)]

theorem folds_tokens (caseSensitive : Bool) (piece : Piece) :
    Grammar.Folds (piece.tokens caseSensitive) [piece.node caseSensitive] := by
  cases piece with
  | star => exact .quantified .nil
  | question => exact .atom .nil
  | bracket inside => exact .atom .nil
  | literal c => exact .atom .nil

variable {caseSensitive : Bool} {piece : Piece} {before after before' rest' : Bytes}
  {behind : List Token}

theorem lexeme_literal {c : UInt8} (plain : c ∉ special) (started : before ≠ []) :
    Grammar.Lexeme caseSensitive before (byteText c) after (.atom (.literal caseSensitive c)) := by
  simp only [special, List.mem_cons, List.not_mem_nil, or_false, not_or] at plain
  obtain ⟨notStar, notQuestion, notBracket⟩ := plain
  rw [byteText, if_neg notStar, if_neg notQuestion]
  cases escaped : needsEscape c with
  | true =>
      rw [if_pos rfl]
      refine .escape ?_ (escape_of_needsEscape escaped after)
      simp only [needsEscape, Bool.or_eq_true, beq_iff_eq] at escaped
      rcases escaped with (((rfl | rfl) | rfl) | rfl) | rfl <;> decide
  | false =>
      rw [if_neg (by decide)]
      simp only [needsEscape, Bool.or_eq_false_iff, beq_eq_false_iff_ne] at escaped
      obtain ⟨⟨⟨⟨notDot, notPlus⟩, notBackslash⟩, notDollar⟩, notCaret⟩ := escaped
      refine .literal ?_ (fun _ => started) (fun dollar => absurd dollar notDollar)
      simp [Grammar.reserved, *]

/-- The pattern text of a piece is read as its tokens, wherever it stands but in front. -/
theorem reads_text (proper : piece.Proper) (started : before ≠ [])
    (reads : Grammar.Reads caseSensitive (before ++ piece.text) after behind before' rest') :
    Grammar.Reads caseSensitive before (piece.text ++ after)
      (piece.tokens caseSensitive ++ behind) before' rest' := by
  cases piece with
  | star =>
      show Grammar.Reads caseSensitive before ([Byte.dot] ++ ([Byte.star] ++ after)) _ before' rest'
      refine .cons .any (.cons (.quantifier (by decide)) ?_)
      rw [List.append_assoc]
      exact reads
  | question =>
      show Grammar.Reads caseSensitive before ([Byte.dot] ++ after) _ before' rest'
      exact .cons .any reads
  | bracket inside => exact .cons (.bracket (bracketText_bracketSet caseSensitive proper after)) reads
  | literal c =>
      have text : (Piece.literal c).text = byteText c := by
        rw [Piece.text, word, body_cons (by simp), body, List.append_nil]
      rw [text] at reads ⊢
      exact .cons (lexeme_literal proper started) reads

end Piece

section

variable {caseSensitive : Bool} {pieces : List Piece}

theorem reads_pieces {before after before' rest' : Bytes} {behind : List Token}
    (proper : ∀ piece ∈ pieces, piece.Proper) (started : before ≠ [])
    (reads : Grammar.Reads caseSensitive (before ++ pieces.flatMap Piece.text) after behind before'
      rest') :
    Grammar.Reads caseSensitive before (pieces.flatMap Piece.text ++ after)
      (pieces.flatMap (Piece.tokens caseSensitive) ++ behind) before' rest' := by
  induction pieces generalizing before with
  | nil => simpa using reads
  | cons piece pieces ih =>
      rw [List.flatMap_cons, List.flatMap_cons, List.append_assoc, List.append_assoc]
      rw [List.flatMap_cons, ← List.append_assoc] at reads
      have tail := ih (fun other member => proper other (List.mem_cons_of_mem _ member))
        (by simp [started]) reads
      exact Piece.reads_text (proper piece List.mem_cons_self) started tail

/-- The `^` in front is the start of the subject, and behind it come the pieces. -/
theorem reads_start {after before' rest' : Bytes} {behind : List Token}
    (proper : ∀ piece ∈ pieces, piece.Proper)
    (reads : Grammar.Reads caseSensitive (Byte.caret :: pieces.flatMap Piece.text) after behind
      before' rest') :
    Grammar.Reads caseSensitive [] (Byte.caret :: (pieces.flatMap Piece.text ++ after))
      (.anchor .subjectStart :: (pieces.flatMap (Piece.tokens caseSensitive) ++ behind)) before'
      rest' := by
  have started : [] ++ [Byte.caret] ≠ [] := List.cons_ne_nil Byte.caret []
  exact .cons .subjectStart (reads_pieces proper started reads)

theorem folds_pieces (caseSensitive : Bool) (pieces : List Piece) :
    Grammar.Folds (pieces.flatMap (Piece.tokens caseSensitive))
      (pieces.map (Piece.node caseSensitive)) := by
  induction pieces with
  | nil => exact .nil
  | cons piece pieces ih => exact (piece.folds_tokens caseSensitive).append ih

/-- The nodes of a glob that consists of pieces: the pieces, between the two ends of the
subject. -/
def nodes (caseSensitive : Bool) (pieces : List Piece) : List Node :=
  .assertion .subjectStart :: (pieces.map (Piece.node caseSensitive) ++ [.assertion .subjectEnd])

theorem parse_toPatternText {glob : Bytes} (caseSensitive : Bool) (cut : Cut glob pieces []) :
    parse caseSensitive (toPatternText glob) = .ok (nodes caseSensitive pieces) := by
  have last : Grammar.Folds [.anchor .subjectEnd] [.assertion .subjectEnd] := .anchor .nil
  refine parse_eq_ok ?_ (.anchor ((folds_pieces caseSensitive pieces).append last))
  rw [toPatternText_eq cut, body, List.nil_append]
  refine reads_start cut.2 ?_
  exact .cons .subjectEnd (.nil _ _)

/-- A `[` that nothing closes is where the pattern text is at fault. -/
theorem parse_toPatternText_unclosed {glob rest : Bytes} (caseSensitive : Bool)
    (cut : Cut glob pieces (Byte.leftBracket :: rest)) (unclosed : Unclosed rest) :
    parse caseSensitive (toPatternText glob) =
      .error ((Byte.caret :: pieces.flatMap Piece.text).length, .unterminatedBracket) := by
  have bracket : body false (Byte.leftBracket :: rest) ++ [Byte.dollar] =
      Byte.leftBracket :: (body true rest ++ [Byte.dollar]) := rfl
  have folds : Grammar.Folds (.anchor .subjectStart :: pieces.flatMap (Piece.tokens caseSensitive))
      (.assertion .subjectStart :: pieces.map (Piece.node caseSensitive)) :=
    .anchor (folds_pieces caseSensitive pieces)
  have here : Grammar.Reads caseSensitive (Byte.caret :: pieces.flatMap Piece.text)
      (Byte.leftBracket :: (body true rest ++ [Byte.dollar])) []
      (Byte.caret :: pieces.flatMap Piece.text)
      (Byte.leftBracket :: (body true rest ++ [Byte.dollar])) := .nil _ _
  have reads := reads_start cut.2 here
  rw [← bracket, ← toPatternText_eq cut, bracket, List.append_nil] at reads
  refine parse_eq_error reads folds.attached (.unterminatedBracket fun word after set split text => ?_)
  have nothing := read?_unclosed caseSensitive unclosed
  rw [Bracket.read?_eq_some_iff.2 ⟨word, split, text⟩] at nothing
  cases nothing

end

end Bytewise.Pattern.Glob
