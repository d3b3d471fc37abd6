/-
# Bytewise.Proofs.Pattern.Parsing -- the parser and the grammar

`parse` accepts exactly the texts that the grammar allows, and refuses every
other at its leftmost fault.

* `Pending tokens done last`: behind these tokens the assembler has put out the
  nodes of `done` and holds `last` back, which a quantifier may still claim;
* `exists_pending`: this stays true along any reading whose quantifiers are
  attached;
* `exists_verdict`: every text is such a reading to its end, or up to a place
  where it is at fault;
* `tokenizes_unique`: there is one way to cut a text into tokens;
* `parse_grammar`: what `parse` accepts, what it makes of it, and where and why
  it refuses.
-/
import Bytewise.Proofs.Outcome
import Bytewise.Proofs.Pattern.Lexeme

namespace Bytewise.Pattern

set_option autoImplicit false

open Grammar

/-! ## Scanning -/

theorem Grammar.Lexeme.ne_nil {caseSensitive : Bool} {before word after : Bytes} {token : Token}
    (lexeme : Lexeme caseSensitive before word after token) : word ≠ [] := by
  cases lexeme <;> exact List.cons_ne_nil _ _

/-- Only the three quantifier bytes are quantifiers. -/
theorem Grammar.Lexeme.eq_quantifier {caseSensitive : Bool} {before word after : Bytes}
    {q : Quantifier} (lexeme : Lexeme caseSensitive before word after (.quantifier q)) :
    ∃ c, word = [c] ∧ (c, q) ∈ Grammar.quantifiers := by
  cases lexeme with
  | quantifier member => exact ⟨_, rfl, member⟩
  | escapeToken member => simp [Grammar.escapeTokens] at member

namespace Token

variable {caseSensitive : Bool} {before word after rest before' rest' : Bytes} {token : Token}
  {tokens : List Token}

/-- A word of the grammar is scanned, and what follows it does not come first. -/
theorem scanFrom_lexeme (lexeme : Lexeme caseSensitive before word after token) :
    scanFrom caseSensitive before.isEmpty (word ++ after) =
      (word ++ after, .ok token) :: scanFrom caseSensitive (before ++ word).isEmpty after := by
  have later : (before ++ word).isEmpty = false := by simp [lexeme.ne_nil]
  obtain ⟨c, tail, split⟩ : ∃ c tail, word ++ after = c :: tail :=
    List.exists_cons_of_ne_nil (by simp [lexeme.ne_nil])
  have found := read_eq_ok lexeme split.symm
  rw [later, split, scanFrom]
  split
  · rename_i fault
    rw [found] at fault
    cases fault
  · rename_i token' after' same
    rw [found] at same
    cases same
    rfl

theorem scanFrom_fault {first : Bool} {c : UInt8} {fault : Fault}
    (unread : read caseSensitive first c rest = .error fault) :
    scanFrom caseSensitive first (c :: rest) = [(c :: rest, .error fault)] := by
  rw [scanFrom]
  split
  · rename_i fault' same
    rw [unread] at same
    cases same
    rfl
  · rename_i same
    rw [unread] at same
    cases same

theorem map_scanFrom (reads : Reads caseSensitive before rest tokens before' rest') :
    (scanFrom caseSensitive before.isEmpty rest).map Prod.snd =
      tokens.map .ok ++ (scanFrom caseSensitive before'.isEmpty rest').map Prod.snd := by
  induction reads with
  | nil => rfl
  | cons lexeme _ ih => rw [scanFrom_lexeme lexeme, List.map_cons, ih, List.map_cons, List.cons_append]

end Token

/-- A text is cut into tokens in one way. -/
theorem tokenizes_unique {caseSensitive : Bool} {text : Bytes} {tokens tokens' : List Token}
    (tokenizes : Tokenizes caseSensitive text tokens)
    (tokenizes' : Tokenizes caseSensitive text tokens') : tokens = tokens' := by
  have same := (Token.map_scanFrom tokenizes).symm.trans (Token.map_scanFrom tokenizes')
  have done : Token.scanFrom caseSensitive text.isEmpty [] = [] := by rw [Token.scanFrom]
  rw [done, List.map_nil, List.append_nil, List.append_nil] at same
  exact (List.map_inj_right fun _ _ => Except.ok.inj).1 same

/-! ## Assembling -/

/-- The last token that went into a node. -/
def Node.token : Node → Token
  | .atom a => .atom a
  | .assertion a => .anchor a
  | .repetition q _ => .quantifier q

/-- Behind the tokens, the nodes of `done` are out and `last` is held back. -/
inductive Pending : List Token → List Node → Option Node → Prop
  | start : Pending [] [] none
  | atom {tokens : List Token} {done : List Node} {last : Option Node} (a : Atom) :
      Pending tokens done last →
      Pending (tokens ++ [.atom a]) (done ++ last.toList) (some (.atom a))
  | anchor {tokens : List Token} {done : List Node} {last : Option Node} (a : Assertion) :
      Pending tokens done last →
      Pending (tokens ++ [.anchor a]) (done ++ last.toList) (some (.assertion a))
  | quantified {tokens : List Token} {done : List Node} {a : Atom} (q : Quantifier) :
      Pending tokens done (some (.atom a)) →
      Pending (tokens ++ [.quantifier q]) done (some (.repetition q a))

namespace Pending

variable {tokens : List Token} {done : List Node} {last : Option Node}

theorem last_eq (pending : Pending tokens done last) :
    tokens.getLast? = last.map Node.token := by
  cases pending with
  | start => rfl
  | _ => exact List.getLast?_concat

/-- What is out and what is held back are the nodes of the tokens. -/
theorem folds : ∀ {tokens : List Token} {done : List Node} {last : Option Node},
    Pending tokens done last → Folds tokens (done ++ last.toList)
  | _, _, _, .start => .nil
  | _, _, _, .atom _ pending => pending.folds.append (.atom .nil)
  | _, _, _, .anchor _ pending => pending.folds.append (.anchor .nil)
  | _, _, _, .quantified _ (.atom _ pending) => by
      rw [List.append_assoc]
      exact pending.folds.append (.quantified .nil)

/-- An attached token is taken up, and what comes out in the end stays the same. -/
theorem exists_step {π : Type} {token : Token} (pending : Pending tokens done last)
    (attached : Attached (tokens ++ [token])) (place : π) (later : List (π × Except Fault Token)) :
    ∃ done' last', Pending (tokens ++ [token]) done' last' ∧
      (assemble last ((place, .ok token) :: later)).map (done ++ ·) =
        (assemble last' later).map (done' ++ ·) := by
  cases token with
  | atom a =>
      refine ⟨_, _, .atom a pending, ?_⟩
      rw [assemble]
      cases assemble (some (.atom a)) later <;> simp [Except.map]
  | anchor a =>
      refine ⟨_, _, .anchor a pending, ?_⟩
      rw [assemble]
      cases assemble (some (.assertion a)) later <;> simp [Except.map]
  | quantifier q =>
      obtain ⟨a, isAtom⟩ := (attached_concat_iff.1 attached).2 q rfl
      rw [pending.last_eq] at isAtom
      obtain ⟨node, rfl, isAtom⟩ := Option.map_eq_some_iff.1 isAtom
      cases node with
      | atom b =>
          refine ⟨_, _, .quantified q pending, ?_⟩
          rw [assemble, quantify]
      | assertion b => cases isAtom
      | repetition q' b => cases isAtom

/-- Along a reading whose quantifiers are attached, what comes out in the end stays the same. -/
theorem exists_pending {caseSensitive : Bool} {before rest before' rest' : Bytes}
    {seen tokens : List Token} (reads : Reads caseSensitive before rest tokens before' rest')
    (pending : Pending seen done last) (attached : Attached (seen ++ tokens)) :
    ∃ done' last', Pending (seen ++ tokens) done' last' ∧
      (assemble last (Token.scanFrom caseSensitive before.isEmpty rest)).map (done ++ ·) =
        (assemble last' (Token.scanFrom caseSensitive before'.isEmpty rest')).map (done' ++ ·) := by
  induction reads generalizing seen done last with
  | nil => exact ⟨done, last, by rwa [List.append_nil], rfl⟩
  | @cons before word after _ _ token tokens lexeme _ ih =>
      rw [List.append_cons] at attached
      obtain ⟨done₁, last₁, pending₁, step⟩ :=
        pending.exists_step attached.of_append (word ++ after)
          (Token.scanFrom caseSensitive (before ++ word).isEmpty after)
      obtain ⟨done₂, last₂, pending₂, run⟩ := ih pending₁ attached
      refine ⟨done₂, last₂, by rwa [← List.append_cons] at pending₂, ?_⟩
      rw [Token.scanFrom_lexeme lexeme, step, run]

theorem assemble_end (caseSensitive first : Bool) (last : Option Node) :
    assemble last (Token.scanFrom caseSensitive first []) = .ok last.toList := by
  rw [Token.scanFrom, assemble]

theorem assemble_scanFrom_quantifier {caseSensitive : Bool} {c : UInt8} {q : Quantifier}
    {fault : Fault} (member : (c, q) ∈ Grammar.quantifiers) (refused : quantify q last = .error fault)
    (before rest : Bytes) :
    assemble last (Token.scanFrom caseSensitive before.isEmpty (c :: rest)) =
      .error (c :: rest, fault) := by
  have lexeme : Lexeme caseSensitive before [c] rest (.quantifier q) := .quantifier member
  have scanned := Token.scanFrom_lexeme lexeme
  rw [List.singleton_append] at scanned
  rw [scanned, assemble, refused]

/-- Where the text is at fault, the assembler finds the fault there. -/
theorem assemble_fault {caseSensitive : Bool} {before rest : Bytes} {fault : Fault}
    (pending : Pending tokens done last)
    (offends : Offends caseSensitive tokens.getLast? rest fault) :
    assemble last (Token.scanFrom caseSensitive before.isEmpty rest) = .error (rest, fault) := by
  rw [pending.last_eq] at offends
  generalize isLast : last.map Node.token = final at offends
  cases offends with
  | unterminatedBracket open_ =>
      rw [Token.scanFrom_fault (Token.read_eq_error_iff.2 (.inl ⟨rfl, rfl, open_⟩)), assemble]
  | trailingBackslash =>
      rw [Token.scanFrom_fault (Token.read_eq_error_iff.2 (.inr ⟨rfl, rfl, rfl⟩)), assemble]
  | nothingToRepeat member =>
      obtain rfl := Option.map_eq_none_iff.1 isLast
      exact assemble_scanFrom_quantifier member rfl _ _
  | afterAnchor member =>
      obtain ⟨node, rfl, isAnchor⟩ := Option.map_eq_some_iff.1 isLast
      cases node with
      | atom a => cases isAnchor
      | assertion a => exact assemble_scanFrom_quantifier member rfl _ _
      | repetition q a => cases isAnchor
  | afterQuantifier member =>
      obtain ⟨node, rfl, isQuantifier⟩ := Option.map_eq_some_iff.1 isLast
      cases node with
      | atom a => cases isQuantifier
      | assertion a => cases isQuantifier
      | repetition q a => exact assemble_scanFrom_quantifier member rfl _ _

end Pending

/-! ## The parser -/

/-- A quantifier that is not attached is at fault. -/
theorem Grammar.exists_offends {caseSensitive : Bool} {tokens : List Token} {c : UInt8}
    {q : Quantifier} (member : (c, q) ∈ Grammar.quantifiers) (rest : Bytes)
    (loose : ¬ ∃ a, tokens.getLast? = some (.atom a)) :
    ∃ fault, Offends caseSensitive tokens.getLast? (c :: rest) fault := by
  cases last : tokens.getLast? with
  | none => exact ⟨_, .nothingToRepeat member⟩
  | some token =>
      cases token with
      | atom a => exact absurd ⟨a, last⟩ loose
      | anchor a => exact ⟨_, .afterAnchor member⟩
      | quantifier q' => exact ⟨_, .afterQuantifier member⟩

/-- At every place there is one more token that is attached, or the text is at fault. -/
theorem exists_lexeme_or_offends (caseSensitive : Bool) (before : Bytes) (c : UInt8) (rest : Bytes)
    {seen : List Token} (attached : Attached seen) :
    (∃ token word after, c :: rest = word ++ after ∧ Lexeme caseSensitive before word after token ∧
      Attached (seen ++ [token])) ∨
    ∃ fault, Offends caseSensitive seen.getLast? (c :: rest) fault := by
  cases found : Token.read caseSensitive before.isEmpty c rest with
  | error fault =>
      refine .inr ?_
      rcases Token.read_eq_error_iff.1 found with ⟨rfl, rfl, open_⟩ | ⟨rfl, rfl, rfl⟩
      · exact ⟨_, .unterminatedBracket open_⟩
      · exact ⟨_, .trailingBackslash⟩
  | ok next =>
      obtain ⟨token, after⟩ := next
      obtain ⟨word, split, lexeme⟩ := Token.read_eq_ok_iff.1 found
      by_cases fits : ∀ q, token = .quantifier q → ∃ a, seen.getLast? = some (.atom a)
      · exact .inl ⟨token, word, after, split, lexeme, attached_concat_iff.2 ⟨attached, fits⟩⟩
      · simp only [Classical.not_forall] at fits
        obtain ⟨q, rfl, loose⟩ := fits
        obtain ⟨c', rfl, member⟩ := lexeme.eq_quantifier
        rw [split]
        exact .inr (Grammar.exists_offends member after loose)

/-- Every text can be read to its end, or up to a place where it is at fault. -/
theorem exists_verdict (caseSensitive : Bool) (before rest : Bytes) {seen : List Token}
    (attached : Attached seen) :
    ∃ tokens before' rest', Reads caseSensitive before rest tokens before' rest' ∧
      Attached (seen ++ tokens) ∧
      (rest' = [] ∨ ∃ fault, Offends caseSensitive (seen ++ tokens).getLast? rest' fault) := by
  match rest with
  | [] => exact ⟨[], before, [], .nil _ _, by rwa [List.append_nil], .inl rfl⟩
  | c :: rest =>
      rcases exists_lexeme_or_offends caseSensitive before c rest attached with
        ⟨token, word, after, split, lexeme, attached'⟩ | offends
      · have shorter : after.length < (c :: rest).length := by
          have := List.length_pos_iff.2 lexeme.ne_nil
          rw [split, List.length_append]
          omega
        obtain ⟨tokens, before', rest', reads, attached'', verdict⟩ :=
          exists_verdict caseSensitive (before ++ word) after attached'
        rw [← List.append_cons] at attached'' verdict
        rw [split]
        exact ⟨token :: tokens, before', rest', .cons lexeme reads, attached'', verdict⟩
      · rw [← List.append_nil seen] at offends
        exact ⟨[], before, c :: rest, .nil _ _, by rwa [List.append_nil], .inr offends⟩
  termination_by rest.length
  decreasing_by exact shorter

section

variable {caseSensitive : Bool} {text before rest : Bytes} {tokens : List Token} {nodes : List Node}
  {fault : Fault}

/-- The parser's run up to the end of a reading. -/
theorem exists_assemble_scan (reads : Reads caseSensitive [] text tokens before rest)
    (attached : Attached tokens) :
    ∃ done last, Pending tokens done last ∧
      assemble none (Token.scan caseSensitive text) =
        (assemble last (Token.scanFrom caseSensitive before.isEmpty rest)).map (done ++ ·) := by
  obtain ⟨done, last, pending, run⟩ := Pending.exists_pending reads .start attached
  refine ⟨done, last, pending, ?_⟩
  rw [← run, Token.scan, List.isEmpty_nil]
  cases assemble none (Token.scanFrom caseSensitive true text) <;> rfl

theorem parse_eq_ok (tokenizes : Tokenizes caseSensitive text tokens) (folds : Folds tokens nodes) :
    parse caseSensitive text = .ok nodes := by
  obtain ⟨done, last, pending, run⟩ := exists_assemble_scan tokenizes folds.attached
  rw [Pending.assemble_end] at run
  rw [parse, mapError_eq_ok_iff, run, folds.unique pending.folds]
  rfl

theorem parse_eq_error (reads : Reads caseSensitive [] text tokens before rest)
    (attached : Attached tokens) (offends : Offends caseSensitive tokens.getLast? rest fault) :
    parse caseSensitive text = .error (before.length, fault) := by
  obtain ⟨done, last, pending, run⟩ := exists_assemble_scan reads attached
  rw [pending.assemble_fault offends] at run
  rw [parse, mapError_eq_error_iff]
  refine ⟨(rest, fault), run, ?_⟩
  have whole : before ++ rest = text := reads.append_eq
  show (Token.position text rest, fault) = (before.length, fault)
  rw [← whole, Token.position, List.length_append, Nat.add_sub_cancel_right]

/-- A text is accepted with the nodes that its tokens fold into. -/
theorem parse_eq_ok_iff : parse caseSensitive text = .ok nodes ↔
    ∃ tokens, Tokenizes caseSensitive text tokens ∧ Folds tokens nodes := by
  constructor
  · intro parsed
    obtain ⟨tokens, before, rest, reads, attached, verdict⟩ :=
      exists_verdict caseSensitive [] text attached_nil
    rcases verdict with rfl | ⟨fault, offends⟩
    · have whole : before = text := by simpa using reads.append_eq
      subst whole
      obtain ⟨nodes', folds⟩ := attached.exists_folds
      have same := parse_eq_ok reads folds
      rw [parsed, Except.ok.injEq] at same
      exact ⟨tokens, reads, same ▸ folds⟩
    · rw [parse_eq_error reads attached offends] at parsed
      cases parsed
  · rintro ⟨tokens, tokenizes, folds⟩
    exact parse_eq_ok tokenizes folds

/-- A text is refused where its first token that is at fault starts. -/
theorem parse_eq_error_iff {pos : Nat} : parse caseSensitive text = .error (pos, fault) ↔
    ∃ tokens before rest, Reads caseSensitive [] text tokens before rest ∧ Attached tokens ∧
      pos = before.length ∧ Offends caseSensitive tokens.getLast? rest fault := by
  constructor
  · intro refused
    obtain ⟨tokens, before, rest, reads, attached, verdict⟩ :=
      exists_verdict caseSensitive [] text attached_nil
    rcases verdict with rfl | ⟨fault', offends⟩
    · have whole : before = text := by simpa using reads.append_eq
      subst whole
      obtain ⟨nodes, folds⟩ := attached.exists_folds
      rw [parse_eq_ok reads folds] at refused
      cases refused
    · rw [parse_eq_error reads attached offends] at refused
      cases refused
      exact ⟨tokens, before, rest, reads, attached, rfl, offends⟩
  · rintro ⟨tokens, before, rest, reads, attached, rfl, offends⟩
    exact parse_eq_error reads attached offends

end

theorem reason_injective : ∀ fault fault' : Fault, fault.reason = fault'.reason → fault = fault' := by
  intro fault fault' same
  cases fault <;> cases fault' <;> first | rfl | exact absurd same (by decide)

/-- **The parser accepts exactly its grammar, and reports the leftmost fault.**  A text is accepted
exactly if it can be cut into tokens to its end with every quantifier directly behind an atom, and
its nodes are then the tokens with each quantifier folded onto its atom; there is only one way to
cut it.  A text is refused with a position and a fault exactly if it can be cut into such tokens up
to that position, and the token that would start there is at fault in that way; the position lies in
the text, and the reason that is reported tells the fault. -/
theorem parse_grammar (caseSensitive : Bool) (text : Bytes) :
    (∀ nodes, parse caseSensitive text = .ok nodes ↔
      ∃ tokens, Tokenizes caseSensitive text tokens ∧ Folds tokens nodes) ∧
    ((∃ nodes, parse caseSensitive text = .ok nodes) ↔
      ∃ tokens, Tokenizes caseSensitive text tokens ∧ Attached tokens) ∧
    (∀ tokens tokens', Tokenizes caseSensitive text tokens →
      Tokenizes caseSensitive text tokens' → tokens = tokens') ∧
    (∀ pos fault, parse caseSensitive text = .error (pos, fault) ↔
      ∃ tokens before rest, Reads caseSensitive [] text tokens before rest ∧ Attached tokens ∧
        pos = before.length ∧ Offends caseSensitive tokens.getLast? rest fault) ∧
    (∀ pos fault, parse caseSensitive text = .error (pos, fault) → pos < text.length) ∧
    ∀ fault fault' : Fault, fault.reason = fault'.reason → fault = fault' := by
  refine ⟨fun nodes => parse_eq_ok_iff, ?_, fun _ _ => tokenizes_unique,
    fun pos fault => parse_eq_error_iff, ?_, reason_injective⟩
  · constructor
    · rintro ⟨nodes, parsed⟩
      obtain ⟨tokens, tokenizes, folds⟩ := parse_eq_ok_iff.1 parsed
      exact ⟨tokens, tokenizes, exists_folds_iff.1 ⟨nodes, folds⟩⟩
    · rintro ⟨tokens, tokenizes, attached⟩
      obtain ⟨nodes, folds⟩ := exists_folds_iff.2 attached
      exact ⟨nodes, parse_eq_ok tokenizes folds⟩
  · intro pos fault refused
    obtain ⟨tokens, before, rest, reads, _, rfl, offends⟩ := parse_eq_error_iff.1 refused
    have whole : before ++ rest = text := reads.append_eq
    have inside := List.length_pos_iff.2 offends.ne_nil
    rw [← whole, List.length_append]
    omega

end Bytewise.Pattern
