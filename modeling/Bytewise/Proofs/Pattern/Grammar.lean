/-
# Bytewise.Proofs.Pattern.Grammar -- how patterns are written

The grammar of pattern text, by alternatives and without a reader.  Each rule
tells which words stand for a thing where a given text follows; the text after
a word counts, because a run of digits takes all it can get, and a `$` is an
anchor only at the end.

* `Escape`: the words behind a backslash, and the byte that each stands for;
* `Members`, `Listed`, `BracketText`: what stands between `[` and its `]`;
* `Lexeme`: the words for one token, between the text before and after them;
* `Reads`: a text cut into tokens, up to some place;
* `Folds`: nodes from tokens, every quantifier put onto the atom before it;
  `exists_folds_iff` says that this works exactly if no quantifier stands
  elsewhere (`Attached`);
* `Offends`: the five ways in which the text at a place is at fault.
-/
import Bytewise.Pattern.Parse
import Bytewise.Proofs.Byte.Digit
import Mathlib.Data.List.Forall2

namespace Bytewise.Pattern.Grammar

set_option autoImplicit false

/-! ## Escapes -/

/-- The letters of the escapes that have a name, each with the byte it stands for. -/
def names : List (UInt8 × UInt8) :=
  [(0x6e, 0x0a), (0x72, 0x0d), (0x74, 0x09), (0x66, 0x0c), (0x62, 0x08)]

def letterB : UInt8 := 0x62
def letterS : UInt8 := 0x73
def letterX : UInt8 := 0x78

/-- No digit comes first in the text. -/
def NoDigit (Digit : UInt8 → Nat → Prop) (after : Bytes) : Prop :=
  ∀ b ∈ after.head?, ∀ d, ¬ Digit b d

/-- The word consists of at most `limit` digits, and of fewer only where no further one follows. -/
structure DigitRun (Digit : UInt8 → Nat → Prop) (base limit : Nat) (word after : Bytes)
    (value : Nat) : Prop where
  digits : ∃ ds : List Nat,
    List.Forall₂ Digit word ds ∧ ds.foldl (fun v d => v * base + d) 0 = value
  length_le : word.length ≤ limit
  maximal : word.length < limit → NoDigit Digit after

/-- `Escape word after b`: behind a backslash and before `after`, the word stands for `b`.  Numbers
are taken modulo 256. -/
inductive Escape : Bytes → Bytes → UInt8 → Prop
  | named {c b : UInt8} {after : Bytes} : (c, b) ∈ names → Escape [c] after b
  | octal {word after : Bytes} {value : Nat} :
      DigitRun Byte.Octal 8 3 word after value → word ≠ [] →
      Escape word after (UInt8.ofNat value)
  | hex {word after : Bytes} {value : Nat} :
      DigitRun Byte.Hexadecimal 16 2 word after value → word ≠ [] →
      Escape (letterX :: word) after (UInt8.ofNat value)
  | bareX {after : Bytes} : NoDigit Byte.Hexadecimal after → Escape [letterX] after letterX
  | plain {c : UInt8} {after : Bytes} :
      c ∉ names.map Prod.fst → (∀ d, ¬ Byte.Octal c d) → c ≠ letterX → Escape [c] after c

/-! ## Bracket expressions -/

/-- Members, before the `]` that `after` starts with. -/
inductive Members : Bytes → Bytes → List Bracket.Member → Prop
  | nil (after : Bytes) : Members [] after []
  | plain {c : UInt8} {word after : Bytes} {ms : List Bracket.Member} :
      c ≠ Byte.rightBracket → c ≠ Byte.backslash → Members word after ms →
      Members (c :: word) after (.byte c false :: ms)
  | blank {word after : Bytes} {ms : List Bracket.Member} :
      Members word after ms → Members (Byte.backslash :: letterS :: word) after (.blank :: ms)
  | escape {e b : UInt8} {digits word after : Bytes} {ms : List Bracket.Member} :
      e ≠ letterS → Escape (e :: digits) (word ++ after) b → Members word after ms →
      Members (Byte.backslash :: e :: (digits ++ word)) after (.byte b true :: ms)

/-- The members of a bracket expression with the `]` that closes it; a `]` that comes first is a
member. -/
inductive Listed : Bytes → Bytes → List Bracket.Member → Prop
  | members {word after : Bytes} {ms : List Bracket.Member} :
      word ≠ [] → Members word (Byte.rightBracket :: after) ms →
      Listed (word ++ [Byte.rightBracket]) after ms
  | bracketFirst {word after : Bytes} {ms : List Bracket.Member} :
      Members word (Byte.rightBracket :: after) ms →
      Listed (Byte.rightBracket :: (word ++ [Byte.rightBracket])) after
        (.byte Byte.rightBracket false :: ms)

/-- What follows the `[` of a bracket expression, up to its `]`. -/
inductive BracketText (caseSensitive : Bool) : Bytes → Bytes → ByteSet → Prop
  | listed {word after : Bytes} {ms : List Bracket.Member} :
      word.head? ≠ some Byte.caret → Listed word after ms →
      BracketText caseSensitive word after (Bracket.toSet caseSensitive ms)
  | negated {word after : Bytes} {ms : List Bracket.Member} :
      Listed word after ms →
      BracketText caseSensitive (Byte.caret :: word) after (Bracket.toSet caseSensitive ms).negate

/-! ## Tokens -/

def quantifiers : List (UInt8 × Quantifier) :=
  [(Byte.star, .zeroOrMore), (Byte.plus, .oneOrMore), (Byte.question, .zeroOrOne)]

/-- The letters behind a backslash that make a token of their own. -/
def escapeTokens : List (UInt8 × Token) :=
  [(Byte.less, .anchor .wordStart), (Byte.greater, .anchor .wordEnd), (letterB, .anchor .wordEdge),
    (letterS, .atom (.set .blank))]

/-- The bytes that are never literals; `^` and `$` are not, at one end of the text. -/
def reserved : Bytes :=
  [Byte.dot, Byte.leftBracket, Byte.backslash, Byte.star, Byte.plus, Byte.question]

/-- `Lexeme caseSensitive before word after token`: between these two texts, the word is the
token. -/
inductive Lexeme (caseSensitive : Bool) : Bytes → Bytes → Bytes → Token → Prop
  | subjectStart {after : Bytes} :
      Lexeme caseSensitive [] [Byte.caret] after (.anchor .subjectStart)
  | subjectEnd {before : Bytes} :
      Lexeme caseSensitive before [Byte.dollar] [] (.anchor .subjectEnd)
  | any {before after : Bytes} : Lexeme caseSensitive before [Byte.dot] after (.atom .any)
  | bracket {before word after : Bytes} {set : ByteSet} :
      BracketText caseSensitive word after set →
      Lexeme caseSensitive before (Byte.leftBracket :: word) after (.atom (.set set))
  | escapeToken {before after : Bytes} {e : UInt8} {token : Token} :
      (e, token) ∈ escapeTokens →
      Lexeme caseSensitive before [Byte.backslash, e] after token
  | escape {before digits after : Bytes} {e b : UInt8} :
      e ∉ escapeTokens.map Prod.fst → Escape (e :: digits) after b →
      Lexeme caseSensitive before (Byte.backslash :: e :: digits) after
        (.atom (.literal caseSensitive b))
  | quantifier {before after : Bytes} {c : UInt8} {q : Quantifier} :
      (c, q) ∈ quantifiers → Lexeme caseSensitive before [c] after (.quantifier q)
  | literal {before after : Bytes} {c : UInt8} :
      c ∉ reserved → (c = Byte.caret → before ≠ []) → (c = Byte.dollar → after ≠ []) →
      Lexeme caseSensitive before [c] after (.atom (.literal caseSensitive c))

/-- From the place between `before` and `rest` on, the tokens lead to the place between `before'`
and `rest'`. -/
inductive Reads (caseSensitive : Bool) : Bytes → Bytes → List Token → Bytes → Bytes → Prop
  | nil (before rest : Bytes) : Reads caseSensitive before rest [] before rest
  | cons {before word after before' rest' : Bytes} {token : Token} {tokens : List Token} :
      Lexeme caseSensitive before word after token →
      Reads caseSensitive (before ++ word) after tokens before' rest' →
      Reads caseSensitive before (word ++ after) (token :: tokens) before' rest'

/-- The tokens make up the whole text. -/
def Tokenizes (caseSensitive : Bool) (text : Bytes) (tokens : List Token) : Prop :=
  Reads caseSensitive [] text tokens text []

/-! ## Nodes -/

/-- Every quantifier is put onto the atom right before it. -/
inductive Folds : List Token → List Node → Prop
  | nil : Folds [] []
  | quantified {a : Atom} {q : Quantifier} {tokens : List Token} {nodes : List Node} :
      Folds tokens nodes → Folds (.atom a :: .quantifier q :: tokens) (.repetition q a :: nodes)
  | atom {a : Atom} {tokens : List Token} {nodes : List Node} :
      Folds tokens nodes → Folds (.atom a :: tokens) (.atom a :: nodes)
  | anchor {a : Assertion} {tokens : List Token} {nodes : List Node} :
      Folds tokens nodes → Folds (.anchor a :: tokens) (.assertion a :: nodes)

/-- Every quantifier comes directly after an atom. -/
def Attached (tokens : List Token) : Prop :=
  ∀ done q rest, tokens = done ++ .quantifier q :: rest → ∃ a, done.getLast? = some (.atom a)

/-- The text at a place, with the last token before it, is at fault. -/
inductive Offends (caseSensitive : Bool) : Option Token → Bytes → Fault → Prop
  | unterminatedBracket {last : Option Token} {rest : Bytes} :
      (∀ word after set, rest = word ++ after → ¬ BracketText caseSensitive word after set) →
      Offends caseSensitive last (Byte.leftBracket :: rest) .unterminatedBracket
  | trailingBackslash {last : Option Token} :
      Offends caseSensitive last [Byte.backslash] .trailingBackslash
  | nothingToRepeat {c : UInt8} {q : Quantifier} {rest : Bytes} :
      (c, q) ∈ quantifiers → Offends caseSensitive none (c :: rest) .nothingToRepeat
  | afterAnchor {c : UInt8} {q : Quantifier} {a : Assertion} {rest : Bytes} :
      (c, q) ∈ quantifiers →
      Offends caseSensitive (some (.anchor a)) (c :: rest) .quantifierAfterAnchor
  | afterQuantifier {c : UInt8} {q q' : Quantifier} {rest : Bytes} :
      (c, q) ∈ quantifiers →
      Offends caseSensitive (some (.quantifier q')) (c :: rest) .quantifierAfterQuantifier

/-! ## Facts about the rules -/

section

variable {after : Bytes} {c₂ c₁ c₀ : UInt8} {d₂ d₁ d₀ : Nat}

/-- Two digits are all that a hexadecimal escape takes. -/
theorem escape_hex (first : Byte.Hexadecimal c₁ d₁) (last : Byte.Hexadecimal c₀ d₀) :
    Escape [letterX, c₁, c₀] after (UInt8.ofNat (d₁ * 16 + d₀)) := by
  have run : DigitRun Byte.Hexadecimal 16 2 [c₁, c₀] after (d₁ * 16 + d₀) :=
    { digits := ⟨[d₁, d₀], .cons first (.cons last .nil), by simp⟩
      length_le := Nat.le_refl 2
      maximal := fun fewer => absurd fewer (Nat.lt_irrefl 2) }
  exact .hex run (List.cons_ne_nil _ _)

/-- Three digits are all that an octal escape takes. -/
theorem escape_octal (first : Byte.Octal c₂ d₂) (second : Byte.Octal c₁ d₁)
    (last : Byte.Octal c₀ d₀) :
    Escape [c₂, c₁, c₀] after (UInt8.ofNat ((d₂ * 8 + d₁) * 8 + d₀)) := by
  have run : DigitRun Byte.Octal 8 3 [c₂, c₁, c₀] after ((d₂ * 8 + d₁) * 8 + d₀) :=
    { digits := ⟨[d₂, d₁, d₀], .cons first (.cons second (.cons last .nil)), by simp⟩
      length_le := Nat.le_refl 3
      maximal := fun fewer => absurd fewer (Nat.lt_irrefl 3) }
  exact .octal run (List.cons_ne_nil _ _)

end

theorem Members.head_ne {c : UInt8} {word after : Bytes} {ms : List Bracket.Member}
    (members : Members (c :: word) after ms) : c ≠ Byte.rightBracket := by
  cases members with
  | plain open_ _ _ => exact open_
  | blank _ => decide
  | escape _ _ _ => decide

theorem Listed.ne_nil {word after : Bytes} {ms : List Bracket.Member} (listed : Listed word after ms) :
    word ≠ [] := by
  cases listed <;> simp

section

variable {caseSensitive : Bool} {before rest before' rest' : Bytes} {tokens : List Token}

theorem Reads.append_eq (reads : Reads caseSensitive before rest tokens before' rest') :
    before' ++ rest' = before ++ rest := by
  induction reads with
  | nil => rfl
  | cons _ _ ih => rw [ih, List.append_assoc]

/-- What was read can be divided behind any of its tokens. -/
theorem Reads.exists_mid {done : List Token}
    (reads : Reads caseSensitive before rest (done ++ tokens) before' rest') :
    ∃ mid later, Reads caseSensitive before rest done mid later ∧
      Reads caseSensitive mid later tokens before' rest' := by
  induction done generalizing before rest with
  | nil => exact ⟨before, rest, .nil _ _, reads⟩
  | cons token done ih =>
      cases reads with
      | cons lexeme behind =>
          obtain ⟨mid, later, reads, reads'⟩ := ih behind
          exact ⟨mid, later, .cons lexeme reads, reads'⟩

/-- Every token has its word in the text. -/
theorem Reads.exists_lexeme (reads : Reads caseSensitive before rest tokens before' rest')
    {token : Token} (member : token ∈ tokens) :
    ∃ before word after, Lexeme caseSensitive before word after token := by
  obtain ⟨done, later, rfl⟩ := List.append_of_mem member
  obtain ⟨_, _, -, reads'⟩ := reads.exists_mid
  cases reads' with
  | cons lexeme _ => exact ⟨_, _, _, lexeme⟩

theorem Offends.ne_nil {last : Option Token} {fault : Fault}
    (offends : Offends caseSensitive last rest fault) : rest ≠ [] := by
  cases offends <;> exact List.cons_ne_nil _ _

theorem attached_nil : Attached [] := by
  intro done q rest eq
  simp at eq

theorem Attached.of_append {behind : List Token} (attached : Attached (tokens ++ behind)) :
    Attached tokens := by
  intro done q rest eq
  exact attached done q (rest ++ behind) (by rw [eq, List.append_assoc, List.cons_append])

/-- One more token is attached unless it is a quantifier with no atom before it. -/
theorem attached_concat_iff {token : Token} :
    Attached (tokens ++ [token]) ↔ Attached tokens ∧
      ∀ q, token = .quantifier q → ∃ a, tokens.getLast? = some (.atom a) := by
  constructor
  · intro attached
    refine ⟨attached.of_append, fun q eq => ?_⟩
    exact attached tokens q [] (by rw [eq])
  · rintro ⟨attached, onAtom⟩ done q rest eq
    rcases List.eq_nil_or_concat rest with rfl | ⟨rest, final, rfl⟩
    · obtain ⟨rfl, same⟩ := List.append_inj' eq rfl
      exact onAtom q (List.cons.inj same).1
    · rw [List.concat_eq_append, ← List.cons_append, ← List.append_assoc] at eq
      exact attached done q rest (List.append_inj' eq rfl).1

/-- Tokens stay attached behind one that no quantifier of theirs leans on. -/
theorem Attached.cons {token : Token} (attached : Attached tokens)
    (other : ∀ q, token ≠ .quantifier q) : Attached (token :: tokens) := by
  intro done q rest eq
  cases done with
  | nil => exact absurd (List.cons.inj eq).1 (other q)
  | cons head done =>
      obtain ⟨a, last⟩ := attached done q rest (List.cons.inj eq).2
      exact ⟨a, by simp [List.getLast?_cons, last]⟩

theorem Attached.cons_quantified {a : Atom} {q : Quantifier} (attached : Attached tokens) :
    Attached (.atom a :: .quantifier q :: tokens) := by
  intro done q' rest eq
  match done, eq with
  | [_], rfl => exact ⟨a, rfl⟩
  | _ :: _ :: done, eq =>
      obtain ⟨b, last⟩ := attached done q' rest (List.cons.inj (List.cons.inj eq).2).2
      exact ⟨b, by simp [List.getLast?_cons, last]⟩

/-- What is behind a token that is no atom is attached on its own. -/
theorem Attached.tail {token : Token} (attached : Attached (token :: tokens))
    (free : ∀ a, token = .atom a → ∀ q rest, tokens ≠ .quantifier q :: rest) :
    Attached tokens := by
  intro done q rest eq
  obtain ⟨a, last⟩ := attached (token :: done) q rest (by rw [eq]; rfl)
  cases done with
  | nil =>
      obtain rfl : token = .atom a := by simpa using last
      exact absurd eq (free a rfl q rest)
  | cons head done => exact ⟨a, by simpa [List.getLast?_cons] using last⟩

theorem Folds.attached {nodes : List Node} (folds : Folds tokens nodes) : Attached tokens := by
  induction folds with
  | nil => exact attached_nil
  | quantified _ ih => exact ih.cons_quantified
  | atom _ ih => exact ih.cons (by simp)
  | anchor _ ih => exact ih.cons (by simp)

/-- What is behind an atom and its quantifier is attached on its own. -/
theorem Attached.behind {a : Atom} {q : Quantifier}
    (attached : Attached (.atom a :: .quantifier q :: tokens)) : Attached tokens := by
  intro done q' rest eq
  obtain ⟨b, last⟩ := attached (.atom a :: .quantifier q :: done) q' rest (by rw [eq]; rfl)
  cases done with
  | nil => simp at last
  | cons head done => exact ⟨b, by simpa [List.getLast?_cons] using last⟩

theorem Attached.exists_folds : ∀ {tokens : List Token}, Attached tokens → ∃ nodes, Folds tokens nodes
  | [], _ => ⟨[], .nil⟩
  | .quantifier q :: rest, attached => by
      obtain ⟨a, last⟩ := attached [] q rest rfl
      cases last
  | .anchor a :: rest, attached => by
      obtain ⟨nodes, folds⟩ := (attached.tail (by simp)).exists_folds
      exact ⟨_, .anchor folds⟩
  | .atom a :: .quantifier q :: rest, attached => by
      obtain ⟨nodes, folds⟩ := attached.behind.exists_folds
      exact ⟨_, .quantified folds⟩
  | [.atom a], _ => ⟨_, .atom .nil⟩
  | .atom a :: .atom b :: rest, attached => by
      obtain ⟨nodes, folds⟩ := (attached.tail (by simp)).exists_folds
      exact ⟨_, .atom folds⟩
  | .atom a :: .anchor b :: rest, attached => by
      obtain ⟨nodes, folds⟩ := (attached.tail (by simp)).exists_folds
      exact ⟨_, .atom folds⟩

theorem Folds.append {tokens' : List Token} {nodes nodes' : List Node} (folds : Folds tokens nodes)
    (behind : Folds tokens' nodes') : Folds (tokens ++ tokens') (nodes ++ nodes') := by
  induction folds with
  | nil => exact behind
  | quantified _ ih => exact .quantified ih
  | atom _ ih => exact .atom ih
  | anchor _ ih => exact .anchor ih

/-- Tokens fold in one way: no rule puts a quantifier first, so an atom takes the one behind it. -/
theorem Folds.unique {nodes nodes' : List Node} (folds : Folds tokens nodes)
    (folds' : Folds tokens nodes') : nodes = nodes' := by
  induction folds generalizing nodes' with
  | nil =>
      cases folds'
      rfl
  | quantified _ ih =>
      cases folds' with
      | quantified behind => rw [ih behind]
      | atom behind => cases behind
  | atom own ih =>
      cases folds' with
      | quantified _ => cases own
      | atom behind => rw [ih behind]
  | anchor _ ih =>
      cases folds' with
      | anchor behind => rw [ih behind]

theorem exists_folds_iff : (∃ nodes, Folds tokens nodes) ↔ Attached tokens :=
  ⟨fun ⟨_, folds⟩ => folds.attached, Attached.exists_folds⟩

end

end Bytewise.Pattern.Grammar
