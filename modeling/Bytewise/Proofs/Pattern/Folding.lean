/-
# Bytewise.Proofs.Pattern.Folding -- atoms where case is ignored

Case is ignored once, when a text is read: a literal is kept in lower case, and a
set is closed under case before its complement is taken (`BracketText.caseBlind`).
An atom in this form is `Folded`.

Every atom of the nodes that a text stands for has its word in the text
(`exists_lexeme_of_atom`), and an atom with a word is in this form
(`Lexeme.atom_folded`).  So are all atoms of nodes (`folded_of_parse`), and no
literal of a program is an upper-case letter (`isUpper_of_mem_code`).
-/
import Bytewise.Proofs.Byte.Case
import Bytewise.Proofs.ByteSet.Membership
import Bytewise.Proofs.Pattern.Parsing
import Bytewise.Proofs.Pattern.WellFormed

namespace Bytewise.Pattern

set_option autoImplicit false

open Grammar (BracketText Folds Lexeme)

/-! ## Atoms and their words -/

/-- The atom of a node has been a token. -/
theorem Grammar.Folds.atom_mem {tokens : List Token} {nodes : List Node} (folds : Folds tokens nodes)
    {node : Node} (member : node ∈ nodes) {atom : Atom} (has : node.atom? = some atom) :
    .atom atom ∈ tokens := by
  induction folds with
  | nil => cases member
  | quantified _ ih =>
      rcases List.mem_cons.1 member with rfl | later
      · obtain rfl := Option.some.inj has
        simp
      · simp [ih later]
  | atom _ ih =>
      rcases List.mem_cons.1 member with rfl | later
      · obtain rfl := Option.some.inj has
        simp
      · simp [ih later]
  | anchor _ ih =>
      rcases List.mem_cons.1 member with rfl | later
      · cases has
      · simp [ih later]

/-- An atom of a node has its word in the text. -/
theorem exists_lexeme_of_atom {caseSensitive : Bool} {text : Bytes} {nodes : List Node} {node : Node}
    {atom : Atom} (parsed : parse caseSensitive text = .ok nodes) (member : node ∈ nodes)
    (has : node.atom? = some atom) :
    ∃ before word after, Lexeme caseSensitive before word after (.atom atom) := by
  obtain ⟨tokens, tokenizes, folds⟩ := parse_eq_ok_iff.1 parsed
  exact Grammar.Reads.exists_lexeme tokenizes (folds.atom_mem member has)

/-! ## The form that is kept -/

/-- The atom is in the form that is kept: where case is ignored, a literal is no upper-case letter
and a set does not tell the cases of a letter apart. -/
def Atom.Folded (caseSensitive : Bool) : Atom → Prop
  | .byte b => caseSensitive = false → Byte.isUpper b = false
  | .any => True
  | .set s => caseSensitive = false → s.CaseBlind

theorem Bracket.caseBlind_toSet (ms : List Bracket.Member) :
    (Bracket.toSet false ms).CaseBlind := by
  rw [Bracket.toSet, if_neg Bool.false_ne_true]
  exact ByteSet.caseBlind_foldCase _

theorem Grammar.BracketText.caseBlind {word after : Bytes} {set : ByteSet}
    (text : BracketText false word after set) : set.CaseBlind := by
  cases text with
  | listed _ _ => exact Bracket.caseBlind_toSet _
  | negated _ => exact (Bracket.caseBlind_toSet _).negate

theorem isUpper_toLower (b : UInt8) : Byte.isUpper (Byte.toLower b) = false := by
  rw [Bool.eq_false_iff, Ne, Byte.isUpper_iff, Byte.toNat_toLower]
  split <;> omega

theorem Grammar.Lexeme.atom_folded {caseSensitive : Bool} {before word after : Bytes} {atom : Atom}
    (lexeme : Lexeme caseSensitive before word after (.atom atom)) : atom.Folded caseSensitive := by
  cases lexeme with
  | any => trivial
  | bracket bracket =>
      rintro rfl
      exact bracket.caseBlind
  | escapeToken member =>
      -- the only one of these tokens that is an atom is white space
      obtain ⟨-, rfl⟩ : _ ∧ atom = .set .blank := by simpa [Grammar.escapeTokens] using member
      exact fun _ => ByteSet.caseBlind_blank
  | escape _ _ =>
      rintro rfl
      exact isUpper_toLower _
  | literal _ _ _ =>
      rintro rfl
      exact isUpper_toLower _

theorem folded_of_parse {caseSensitive : Bool} {text : Bytes} {nodes : List Node}
    (parsed : parse caseSensitive text = .ok nodes) :
    ∀ node ∈ nodes, ∀ atom, node.atom? = some atom → atom.Folded caseSensitive := by
  intro node member atom has
  obtain ⟨_, _, _, lexeme⟩ := exists_lexeme_of_atom parsed member has
  exact lexeme.atom_folded

/-- Without regard to case, a program holds no literal that is an upper-case letter. -/
theorem isUpper_of_mem_code {text : Bytes} {wildcard : Bool} {maxCells : Nat} {p : Program}
    {b : UInt8} (compiled : compile text false wildcard maxCells = .ok p)
    (member : Instr.atom (.byte b) ∈ p.code) : Byte.isUpper b = false := by
  obtain ⟨nodes, parsed, shape, -⟩ := exists_nodes_of_compile compiled
  have inNode : ∃ node ∈ nodes, Instr.atom (.byte b) ∈ node.code := by
    simpa [shape, codeOf] using member
  obtain ⟨node, inNodes, inCode⟩ := inNode
  exact folded_of_parse parsed node inNodes _ (Node.atom?_of_mem_code inCode) rfl

end Bytewise.Pattern
