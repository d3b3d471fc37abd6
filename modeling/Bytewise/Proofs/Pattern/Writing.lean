/-
# Bytewise.Proofs.Pattern.Writing -- every list of nodes that is read can be written

What the parser makes of texts is exactly the lists of nodes of one shape
(`Shaped`): the start of the subject stands at most first, its end at most last,
and without regard to case every atom is in the form in which case is ignored
(`Atom.Folded`).  That only atoms are repeated is part of the type of nodes.

* `textOf` writes nodes: a literal byte as two hexadecimal digits behind `\x`, a
  set as the bracket expression that lists its members so, and the empty set,
  which no list of members writes, as the complement of all bytes;
* `collect_listing`: escaped members list what they are, for none of them starts
  or ends a range;
* `Node.reads`, `reads_textOf`: the text of nodes is cut into their tokens, so
  `parse_textOf` reads back what was written;
* `shaped_of_parse`: an anchor is read at its end of the text only, where no other
  token has room (`Folds.exists_mid` divides the nodes at an anchor, `Reads.exists_mid`
  the text).
-/
import Bytewise.Proofs.Byte.Digit
import Bytewise.Proofs.Pattern.Budget
import Bytewise.Proofs.Pattern.Folding

namespace Bytewise.Pattern

set_option autoImplicit false

open Grammar (BracketText Escape Folds Lexeme Listed Members Reads letterX)

/-! ## The shape of what is read -/

/-- The nodes that a text can stand for. -/
structure Shaped (caseSensitive : Bool) (nodes : List Node) : Prop where
  start_first : ∀ i, nodes[i]? = some (.assertion .subjectStart) → i = 0
  end_last : ∀ i, nodes[i]? = some (.assertion .subjectEnd) → i + 1 = nodes.length
  atom_folded : ∀ node ∈ nodes, ∀ atom, node.atom? = some atom → atom.Folded caseSensitive

/-! ## How nodes are written -/

/-- Two hexadecimal digits behind `\x`. -/
def hexText (b : UInt8) : Bytes :=
  [Byte.backslash, letterX, Byte.hexDigit (b.toNat / 16), Byte.hexDigit (b.toNat % 16)]

/-- The bytes as members, and the closing bracket. -/
def listing (bs : Bytes) : Bytes := bs.flatMap hexText ++ [Byte.rightBracket]

/-- A bracket expression without its opening bracket. -/
def bracketText (s : ByteSet) : Bytes :=
  if s.toList = [] then Byte.caret :: listing (ByteSet.span 0 255) else listing s.toList

def Atom.text : Atom → Bytes
  | .byte b => hexText b
  | .any => [Byte.dot]
  | .set s => Byte.leftBracket :: bracketText s

def Assertion.text : Assertion → Bytes
  | .subjectStart => [Byte.caret]
  | .subjectEnd => [Byte.dollar]
  | .wordStart => [Byte.backslash, Byte.less]
  | .wordEnd => [Byte.backslash, Byte.greater]
  | .wordEdge => [Byte.backslash, Grammar.letterB]

def Quantifier.text : Quantifier → Bytes
  | .zeroOrMore => [Byte.star]
  | .oneOrMore => [Byte.plus]
  | .zeroOrOne => [Byte.question]

def Node.text : Node → Bytes
  | .atom a => a.text
  | .assertion a => a.text
  | .repetition q a => a.text ++ q.text

/-- A text that stands for the nodes. -/
def textOf (nodes : List Node) : Bytes := nodes.flatMap Node.text

/-- The tokens that go into a node. -/
def Node.tokens : Node → List Token
  | .atom a => [.atom a]
  | .assertion a => [.anchor a]
  | .repetition q a => [.atom a, .quantifier q]

theorem folds_tokens (nodes : List Node) : Folds (nodes.flatMap Node.tokens) nodes := by
  induction nodes with
  | nil => exact .nil
  | cons node nodes ih =>
      cases node with
      | atom a => exact .atom ih
      | assertion a => exact .anchor ih
      | repetition q a => exact .quantified ih

/-! ## Sets -/

theorem escape_hexText (b : UInt8) (after : Bytes) :
    Escape [letterX, Byte.hexDigit (b.toNat / 16), Byte.hexDigit (b.toNat % 16)] after b := by
  have bound := b.toNat_lt
  have high : b.toNat / 16 < 16 := by omega
  have low : b.toNat % 16 < 16 := by omega
  have escape : Escape _ after _ :=
    Grammar.escape_hex (Byte.hexadecimal_hexDigit high) (Byte.hexadecimal_hexDigit low)
  rwa [Byte.ofNat_digits] at escape

namespace Bracket

theorem members_hexText (bs after : Bytes) :
    Members (bs.flatMap hexText) after (bs.map fun b => .byte b true) := by
  induction bs with
  | nil => exact .nil after
  | cons b bs ih => exact .escape (by decide) (escape_hexText b _) ih

/-- Escaped bytes are added one by one: none of them is taken for the mark of a range. -/
theorem foldl_step_escaped (bs : Bytes) (pending : Pending) (set : ByteSet)
    (noRange : ∀ low, pending ≠ .range low) :
    finish ((bs.map fun b => Member.byte b true).foldl step (pending, set)) = set.insertAll bs := by
  induction bs generalizing pending set with
  | nil =>
      cases pending with
      | nothing => rfl
      | low b => rfl
      | range low => exact absurd rfl (noRange low)
  | cons b bs ih =>
      have added : step (pending, set) (.byte b true) = (.low b, set.insert b) := by
        cases pending with
        | nothing => rfl
        | low c => simp [step]
        | range low => exact absurd rfl (noRange low)
      rw [List.map_cons, List.foldl_cons, added, ih (.low b) (set.insert b) (by simp)]
      rfl

theorem collect_listing (bs : Bytes) :
    collect (bs.map fun b => .byte b true) = ByteSet.ofList bs :=
  foldl_step_escaped bs .nothing .empty (by simp)

end Bracket

theorem listed_listing {bs : Bytes} (nonempty : bs ≠ []) (after : Bytes) :
    Listed (listing bs) after (bs.map fun b => .byte b true) := by
  refine .members (fun empty => nonempty ?_) (Bracket.members_hexText bs _)
  cases bs with
  | nil => rfl
  | cons b bs => simp [hexText] at empty

theorem head?_listing (bs : Bytes) : (listing bs).head? ≠ some Byte.caret := by
  cases bs with
  | nil => decide
  | cons b bs =>
      show some Byte.backslash ≠ some Byte.caret
      decide

theorem span_all_ne_nil : ByteSet.span 0 255 ≠ [] := by
  have member : (0 : UInt8) ∈ ByteSet.span 0 255 := ByteSet.mem_span_iff.2 ⟨by decide, by decide⟩
  exact List.ne_nil_of_mem member

/-- Every set that may be kept is the value of its bracket expression. -/
theorem bracketText_eq {caseSensitive : Bool} {s : ByteSet}
    (folded : caseSensitive = false → s.CaseBlind) (after : Bytes) :
    BracketText caseSensitive (bracketText s) after s := by
  unfold bracketText
  split
  · rename_i empty
    have value : (Bracket.toSet caseSensitive
        ((ByteSet.span 0 255).map fun b => .byte b true)).negate = s := by
      refine ByteSet.ext fun b => ByteSet.mem_negate_iff.trans ?_
      have every : b ∈ ByteSet.ofList (ByteSet.span 0 255) :=
        ByteSet.mem_ofList_iff.2 (ByteSet.mem_span_iff.2 ⟨Nat.zero_le _, Nat.le_of_lt_succ b.toNat_lt⟩)
      have none : b ∉ s := by simp [← ByteSet.mem_toList_iff, empty]
      rw [Bracket.toSet, Bracket.collect_listing]
      cases caseSensitive with
      | true => simp [every, none]
      | false => simpa [none] using ByteSet.mem_foldCase_iff.2 ⟨b, every, rfl⟩
    have text : BracketText caseSensitive _ after _ :=
      .negated (listed_listing span_all_ne_nil after)
    rwa [value] at text
  · rename_i nonempty
    have value : Bracket.toSet caseSensitive (s.toList.map fun b => .byte b true) = s := by
      rw [Bracket.toSet, Bracket.collect_listing, ByteSet.ofList_toList]
      cases caseSensitive with
      | true => rfl
      | false => exact (folded rfl).foldCase_eq
    have text : BracketText caseSensitive _ after _ :=
      .listed (head?_listing s.toList) (listed_listing nonempty after)
    rwa [value] at text

/-! ## Tokens -/

theorem fold_eq_of_folded {caseSensitive : Bool} {b : UInt8}
    (folded : caseSensitive = false → Byte.isUpper b = false) :
    Byte.fold caseSensitive b = b := by
  cases caseSensitive with
  | true => rfl
  | false => simp [Byte.fold, Byte.toLower, folded rfl]

section

variable {caseSensitive : Bool} {before after : Bytes}

theorem Atom.lexeme {a : Atom} (folded : a.Folded caseSensitive) :
    Lexeme caseSensitive before a.text after (.atom a) := by
  cases a with
  | byte b =>
      have lexeme : Lexeme caseSensitive before _ after _ :=
        .escape (by decide) (escape_hexText b after)
      rwa [Atom.literal, fold_eq_of_folded folded] at lexeme
  | any => exact .any
  | set s => exact .bracket (bracketText_eq folded after)

theorem Assertion.lexeme {a : Assertion} (first : a = .subjectStart → before = [])
    (last : a = .subjectEnd → after = []) :
    Lexeme caseSensitive before a.text after (.anchor a) := by
  cases a with
  | subjectStart =>
      obtain rfl := first rfl
      exact .subjectStart
  | subjectEnd =>
      obtain rfl := last rfl
      exact .subjectEnd
  | wordStart => exact .escapeToken (by simp [Grammar.escapeTokens])
  | wordEnd => exact .escapeToken (by simp [Grammar.escapeTokens])
  | wordEdge => exact .escapeToken (by simp [Grammar.escapeTokens])

theorem Quantifier.lexeme (q : Quantifier) :
    Lexeme caseSensitive before q.text after (.quantifier q) := by
  cases q <;> exact .quantifier (by simp [Grammar.quantifiers])

/-- The text of a node is read as its tokens, in front of any others. -/
theorem Node.reads {node : Node} {tokens : List Token} {before' rest' : Bytes}
    (folded : ∀ atom, node.atom? = some atom → atom.Folded caseSensitive)
    (first : node = .assertion .subjectStart → before = [])
    (last : node = .assertion .subjectEnd → after = [])
    (behind : Reads caseSensitive (before ++ node.text) after tokens before' rest') :
    Reads caseSensitive before (node.text ++ after) (node.tokens ++ tokens) before' rest' := by
  cases node with
  | atom a => exact .cons (Atom.lexeme (folded a rfl)) behind
  | assertion a =>
      refine .cons (Assertion.lexeme ?_ ?_) behind
      · exact fun start => first (congrArg Node.assertion start)
      · exact fun stop => last (congrArg Node.assertion stop)
  | repetition q a =>
      rw [Node.text, ← List.append_assoc] at behind
      rw [Node.text, List.append_assoc]
      exact .cons (Atom.lexeme (folded a rfl)) (.cons q.lexeme behind)

theorem Shaped.tail {node : Node} {nodes : List Node}
    (shaped : Shaped caseSensitive (node :: nodes)) : Shaped caseSensitive nodes where
  start_first i found := absurd (shaped.start_first (i + 1) found) (Nat.succ_ne_zero i)
  end_last i found := Nat.succ.inj (shaped.end_last (i + 1) found)
  atom_folded node' member := shaped.atom_folded node' (List.mem_cons_of_mem _ member)

/-- The text of nodes is cut into their tokens, wherever no start of the subject is misplaced. -/
theorem reads_textOf {nodes : List Node} (shaped : Shaped caseSensitive nodes)
    (first : ∀ i : Nat, nodes[i]? = some (.assertion .subjectStart) → before = []) :
    Reads caseSensitive before (textOf nodes) (nodes.flatMap Node.tokens)
      (before ++ textOf nodes) [] := by
  induction nodes generalizing before with
  | nil =>
      rw [textOf, List.flatMap_nil, List.append_nil]
      exact .nil before []
  | cons node nodes ih =>
      have behind : Reads caseSensitive (before ++ node.text) (textOf nodes)
          (nodes.flatMap Node.tokens) (before ++ node.text ++ textOf nodes) [] := by
        refine ih shaped.tail fun i found => ?_
        exact absurd (shaped.start_first (i + 1) found) (Nat.succ_ne_zero i)
      rw [List.append_assoc] at behind
      refine Node.reads (shaped.atom_folded node List.mem_cons_self) ?_ ?_ behind
      · rintro rfl
        exact first 0 rfl
      · rintro rfl
        have single := shaped.end_last 0 rfl
        obtain rfl : nodes = [] := by simpa using single.symm
        rfl

end

theorem parse_textOf {caseSensitive : Bool} {nodes : List Node}
    (shaped : Shaped caseSensitive nodes) : parse caseSensitive (textOf nodes) = .ok nodes :=
  parse_eq_ok (reads_textOf shaped fun _ _ => rfl) (folds_tokens nodes)

/-! ## What is read is of this shape -/

section

variable {caseSensitive : Bool} {before rest before' rest' : Bytes}

/-- Nothing is read behind the end. -/
theorem Grammar.Reads.eq_nil_of_end {tokens : List Token}
    (reads : Reads caseSensitive before [] tokens before' rest') : tokens = [] := by
  generalize none : ([] : Bytes) = text at reads
  cases reads with
  | nil => rfl
  | cons lexeme _ => exact absurd (List.append_eq_nil_iff.1 none.symm).1 lexeme.ne_nil

theorem Grammar.Reads.exists_append {tokens : List Token}
    (reads : Reads caseSensitive before rest tokens before' rest') :
    ∃ read, before' = before ++ read := by
  induction reads with
  | nil => exact ⟨[], (List.append_nil _).symm⟩
  | @cons _ word _ _ _ _ _ _ _ ih =>
      obtain ⟨read, rfl⟩ := ih
      exact ⟨word ++ read, List.append_assoc ..⟩

/-- Nothing is read before the beginning. -/
theorem Grammar.Reads.eq_nil_of_beginning {tokens : List Token}
    (reads : Reads caseSensitive before rest tokens [] rest') : tokens = [] := by
  generalize none : ([] : Bytes) = place at reads
  cases reads with
  | nil => rfl
  | cons lexeme behind =>
      obtain ⟨read, rfl⟩ := behind.exists_append
      simp [lexeme.ne_nil] at none

/-- An anchor among the nodes was one among the tokens. -/
theorem Grammar.Folds.exists_mid {tokens : List Token} {done nodes : List Node} {a : Assertion}
    (folds : Folds tokens (done ++ .assertion a :: nodes)) :
    ∃ done' tokens', tokens = done' ++ .anchor a :: tokens' ∧ Folds done' done ∧
      Folds tokens' nodes := by
  induction done generalizing tokens with
  | nil =>
      cases folds with
      | anchor behind => exact ⟨[], _, rfl, .nil, behind⟩
  | cons node done ih =>
      cases folds with
      | quantified behind =>
          obtain ⟨done', tokens', rfl, folds, folds'⟩ := ih behind
          exact ⟨_, tokens', rfl, .quantified folds, folds'⟩
      | atom behind =>
          obtain ⟨done', tokens', rfl, folds, folds'⟩ := ih behind
          exact ⟨_, tokens', rfl, .atom folds, folds'⟩
      | anchor behind =>
          obtain ⟨done', tokens', rfl, folds, folds'⟩ := ih behind
          exact ⟨_, tokens', rfl, .anchor folds, folds'⟩

theorem Grammar.Lexeme.before_eq_nil {word after : Bytes}
    (lexeme : Lexeme caseSensitive before word after (.anchor .subjectStart)) : before = [] := by
  cases lexeme with
  | subjectStart => rfl
  | escapeToken member => simp [Grammar.escapeTokens] at member

theorem Grammar.Lexeme.after_eq_nil {word after : Bytes}
    (lexeme : Lexeme caseSensitive before word after (.anchor .subjectEnd)) : after = [] := by
  cases lexeme with
  | subjectEnd => rfl
  | escapeToken member => simp [Grammar.escapeTokens] at member

end

section

variable {caseSensitive : Bool} {text : Bytes} {nodes : List Node}

/-- Where an anchor stands among the nodes, its word stands in the text, and the nodes before it and
behind it were read before and behind that word. -/
theorem exists_lexeme_of_parse (parsed : parse caseSensitive text = .ok nodes) {i : Nat}
    {a : Assertion} (found : nodes[i]? = some (.assertion a)) :
    ∃ (before word after : Bytes) (done tokens : List Token),
      Lexeme caseSensitive before word after (.anchor a) ∧
      Reads caseSensitive [] text done before (word ++ after) ∧
      Reads caseSensitive (before ++ word) after tokens text [] ∧
      Folds done (nodes.take i) ∧ Folds tokens (nodes.drop (i + 1)) := by
  obtain ⟨tokens, tokenizes, folds⟩ := parse_eq_ok_iff.1 parsed
  obtain ⟨bound, isAnchor⟩ := List.getElem?_eq_some_iff.1 found
  rw [← List.take_append_drop i nodes, List.drop_eq_getElem_cons bound, isAnchor] at folds
  obtain ⟨done, tokens', rfl, folds, folds'⟩ := folds.exists_mid
  obtain ⟨before, rest, reads, reads'⟩ := Reads.exists_mid tokenizes
  cases reads' with
  | cons lexeme behind => exact ⟨before, _, _, done, tokens', lexeme, reads, behind, folds, folds'⟩

theorem Grammar.Folds.eq_nil (folds : Folds [] nodes) : nodes = [] := by
  cases folds
  rfl

theorem shaped_of_parse (parsed : parse caseSensitive text = .ok nodes) :
    Shaped caseSensitive nodes where
  start_first i found := by
    obtain ⟨before, word, after, done, tokens, lexeme, reads, -, folds, -⟩ :=
      exists_lexeme_of_parse parsed found
    obtain rfl := lexeme.before_eq_nil
    obtain rfl := reads.eq_nil_of_beginning
    have bound := (List.getElem?_eq_some_iff.1 found).1
    have none := congrArg List.length folds.eq_nil
    simp only [List.length_take, List.length_nil] at none
    omega
  end_last i found := by
    obtain ⟨before, word, after, done, tokens, lexeme, -, reads, -, folds⟩ :=
      exists_lexeme_of_parse parsed found
    obtain rfl := lexeme.after_eq_nil
    obtain rfl := reads.eq_nil_of_end
    have bound := (List.getElem?_eq_some_iff.1 found).1
    have none := congrArg List.length folds.eq_nil
    simp only [List.length_drop, List.length_nil] at none
    omega
  atom_folded := folded_of_parse parsed

end

/-- **The parser makes exactly the well-shaped lists of nodes.**  A list of nodes is what some text
stands for exactly if the start of the subject stands at most first in it, its end at most last,
and, where case is ignored, no literal is an upper-case letter and no set tells the two cases of a
letter apart.  A set of bytes is the value of a bracket expression exactly if it is closed under
case, where case is ignored, and there is one with any members whatever.  A text that is not empty
is refused for a fault, or its code is emitted from such a list. -/
theorem parse_image (caseSensitive : Bool) :
    (∀ nodes, (∃ text, parse caseSensitive text = .ok nodes) ↔ Shaped caseSensitive nodes) ∧
    (∀ s : ByteSet, (∃ word, Bracket.read? caseSensitive word = some (s, [])) ↔
      (caseSensitive = false → s.CaseBlind)) ∧
    (∀ members : UInt8 → Prop, ∃ s : ByteSet, ∀ b, b ∈ s ↔ members b) ∧
    ∀ text wildcard maxCells, text ≠ [] →
      (∃ pos fault, parse caseSensitive (sourceText wildcard text) = .error (pos, fault) ∧
        compile text caseSensitive wildcard maxCells = .error (.syntaxFault pos fault)) ∨
      ∃ nodes, parse caseSensitive (sourceText wildcard text) = .ok nodes ∧
        Shaped caseSensitive nodes ∧
        compile text caseSensitive wildcard maxCells = emit caseSensitive maxCells nodes := by
  refine ⟨fun nodes => ⟨?_, ?_⟩, fun s => ⟨?_, ?_⟩, ByteSet.exists_members, ?_⟩
  · rintro ⟨text, parsed⟩
    exact shaped_of_parse parsed
  · intro shaped
    exact ⟨textOf nodes, parse_textOf shaped⟩
  · rintro ⟨word, read⟩ rfl
    obtain ⟨_, -, text⟩ := Bracket.read?_eq_some_iff.1 read
    exact text.caseBlind
  · intro folded
    have text := bracketText_eq folded []
    exact ⟨bracketText s, Bracket.read?_eq_some_iff.2 ⟨_, (List.append_nil _).symm, text⟩⟩
  · intro text wildcard maxCells nonempty
    rw [compile, if_neg nonempty]
    cases parsed : parse caseSensitive (sourceText wildcard text) with
    | error fault => exact .inl ⟨fault.1, fault.2, rfl, rfl⟩
    | ok nodes => exact .inr ⟨nodes, rfl, shaped_of_parse parsed, rfl⟩

end Bytewise.Pattern
