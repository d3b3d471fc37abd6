/-
# Bytewise.Proofs.Pattern.Lexeme -- reading one token of a pattern

Each reader against its rule of the grammar, in both directions: what it takes
off the front of a text is a word of the rule, and a word of the rule, with the
text that follows it, is what it takes.

* `exists_escape_decode`, `decode_eq`: escapes;
* `members?_eq_some_iff`, `listed?_eq_some_iff`, `read?_eq_some_iff`: bracket
  expressions;
* `read_eq_ok_iff` and `read_eq_error_iff`: tokens, and the two faults that a
  text can have before there is one.
-/
import Bytewise.Proofs.Pattern.Grammar

namespace Bytewise.Pattern

set_option autoImplicit false

/-! ## Digits and escapes -/

namespace Escape

section

/-! `digit?` reads the digits that `Digit` speaks of. -/

variable {digit? : UInt8 → Option Nat} {Digit : UInt8 → Nat → Prop} {base : Nat}
  (reads : ∀ b d, digit? b = some d ↔ Digit b d)

include reads

theorem digit?_eq_none_iff (b : UInt8) : digit? b = none ↔ ∀ d, ¬ Digit b d := by
  simp only [Option.eq_none_iff_forall_ne_some, ne_eq, reads]

theorem digits_eq {word after : Bytes} {ds : List Nat} {n value : Nat}
    (isDigits : List.Forall₂ Digit word ds) (few : word.length ≤ n)
    (maximal : word.length < n → Grammar.NoDigit Digit after) :
    digits base digit? n value (word ++ after) =
      (ds.foldl (fun v d => v * base + d) value, after) := by
  induction isDigits generalizing n value with
  | nil =>
      cases n with
      | zero => cases after <;> rfl
      | succ n =>
          cases after with
          | nil => rfl
          | cons b rest =>
              have none := (digit?_eq_none_iff reads b).2 (maximal (Nat.succ_pos n) b rfl)
              simp [digits, none]
  | @cons b d word ds digit _ ih =>
      obtain ⟨n, rfl⟩ : ∃ m, n = m + 1 := ⟨n - 1, by simp at few; omega⟩
      simp only [List.cons_append, digits, (reads b d).2 digit, List.foldl_cons]
      simp only [List.length_cons] at few maximal
      exact ih (by omega) fun fewer => maximal (by omega)

theorem exists_digits (base n value : Nat) (s : Bytes) :
    ∃ (word : Bytes) (ds : List Nat), s = word ++ (digits base digit? n value s).2 ∧
      List.Forall₂ Digit word ds ∧ word.length ≤ n ∧
      (word.length < n → Grammar.NoDigit Digit (digits base digit? n value s).2) ∧
      ds.foldl (fun v d => v * base + d) value = (digits base digit? n value s).1 := by
  induction n generalizing value s with
  | zero =>
      have done : digits base digit? 0 value s = (value, s) := by cases s <;> rfl
      rw [done]
      exact ⟨[], [], rfl, .nil, Nat.le_refl 0, (nomatch ·), rfl⟩
  | succ n ih =>
      cases s with
      | nil => exact ⟨[], [], rfl, .nil, Nat.zero_le _, fun _ _ => (nomatch ·), rfl⟩
      | cons b rest =>
          cases read : digit? b with
          | none =>
              have done : digits base digit? (n + 1) value (b :: rest) = (value, b :: rest) := by
                simp [digits, read]
              rw [done]
              refine ⟨[], [], rfl, .nil, Nat.zero_le _, fun _ b' first => ?_, rfl⟩
              obtain rfl : b = b' := Option.some.inj first
              exact (digit?_eq_none_iff reads b).1 read
          | some d =>
              have more : digits base digit? (n + 1) value (b :: rest) =
                  digits base digit? n (value * base + d) rest := by
                simp [digits, read]
              obtain ⟨word, ds, split, isDigits, few, maximal, sum⟩ := ih (value * base + d) rest
              rw [more]
              refine ⟨b :: word, d :: ds, ?_, .cons ((reads b d).1 read) isDigits,
                Nat.succ_le_succ few, fun fewer => ?_, sum⟩
              · rw [List.cons_append, ← split]
              · exact maximal (Nat.lt_of_succ_lt_succ fewer)

end

theorem named?_eq_some_iff {c b : UInt8} : named? c = some b ↔ (c, b) ∈ Grammar.names := by
  unfold named? Grammar.names
  repeat' split
  all_goals simp_all [Byte.ofChar, eq_comm]

theorem named?_eq_none_iff {c : UInt8} : named? c = none ↔ c ∉ Grammar.names.map Prod.fst := by
  unfold named? Grammar.names
  repeat' split
  all_goals simp_all [Byte.ofChar]

theorem named?_eq_none_of_octal {c : UInt8} {d : Nat} (octal : Byte.octalValue? c = some d) :
    named? c = none := by
  unfold named?
  repeat' split
  all_goals first
    | rfl
    | (subst_vars; cases octal)

theorem decode_named {c b : UInt8} (named : named? c = some b) (rest : Bytes) :
    decode c rest = (b, rest) := by
  simp [decode, named]

theorem decode_octal {c : UInt8} {d : Nat} (octal : Byte.octalValue? c = some d) (rest : Bytes) :
    decode c rest = (UInt8.ofNat (digits 8 Byte.octalValue? 2 d rest).1,
      (digits 8 Byte.octalValue? 2 d rest).2) := by
  simp [decode, named?_eq_none_of_octal octal, octal]

theorem decode_bareX {rest : Bytes} (none : Grammar.NoDigit Byte.Hexadecimal rest) :
    decode Grammar.letterX rest = (Grammar.letterX, rest) := by
  cases rest with
  | nil => rfl
  | cons b rest =>
      have notHex := Byte.hexValue?_eq_none_iff.2 (none b rfl)
      have unnamed : named? Grammar.letterX = Option.none := by decide
      have notOctal : Byte.octalValue? Grammar.letterX = Option.none := by decide
      simp [decode, unnamed, notOctal, notHex]

theorem decode_hex {b : UInt8} {rest : Bytes} (hex : Byte.hexValue? b ≠ none) :
    decode Grammar.letterX (b :: rest) =
      (UInt8.ofNat (digits 16 Byte.hexValue? 2 0 (b :: rest)).1,
        (digits 16 Byte.hexValue? 2 0 (b :: rest)).2) := by
  have unnamed : named? Grammar.letterX = none := by decide
  have notOctal : Byte.octalValue? Grammar.letterX = none := by decide
  have isX : Grammar.letterX = Byte.ofChar 'x' := by decide
  simp [decode, unnamed, notOctal, ← isX, Option.isSome_iff_ne_none, hex]

theorem decode_plain {c : UInt8} (unnamed : named? c = none) (notOctal : Byte.octalValue? c = none)
    (notX : c ≠ Grammar.letterX) (rest : Bytes) : decode c rest = (c, rest) := by
  have isX : Grammar.letterX = Byte.ofChar 'x' := by decide
  simp [decode, unnamed, notOctal, ← isX, notX]

/-- Behind `x`, either hexadecimal digits are read or none are there. -/
theorem exists_escape_letterX (rest : Bytes) :
    ∃ word, rest = word ++ (decode Grammar.letterX rest).2 ∧
      Grammar.Escape (Grammar.letterX :: word) (decode Grammar.letterX rest).2
        (decode Grammar.letterX rest).1 := by
  by_cases none : Grammar.NoDigit Byte.Hexadecimal rest
  · rw [decode_bareX none]
    exact ⟨[], rfl, .bareX none⟩
  · obtain ⟨b, rest, rfl, hex⟩ : ∃ b tail, rest = b :: tail ∧ Byte.hexValue? b ≠ Option.none := by
      cases rest with
      | nil => exact absurd (fun _ => (nomatch ·)) none
      | cons b tail =>
          refine ⟨b, tail, rfl, fun notHex => none ?_⟩
          rintro b' ⟨⟩
          exact Byte.hexValue?_eq_none_iff.1 notHex
    rw [decode_hex hex]
    obtain ⟨word, ds, split, isDigits, few, maximal, sum⟩ :=
      exists_digits @Byte.hexValue?_eq_some_iff 16 2 0 (b :: rest)
    refine ⟨word, split, .hex ⟨⟨ds, isDigits, sum⟩, few, maximal⟩ ?_⟩
    rintro rfl
    rw [List.nil_append] at split
    rw [← split] at maximal
    exact none (maximal (by decide))

/-- What is read behind a backslash is a word of the grammar. -/
theorem exists_escape_decode (c : UInt8) (rest : Bytes) :
    ∃ word, rest = word ++ (decode c rest).2 ∧
      Grammar.Escape (c :: word) (decode c rest).2 (decode c rest).1 := by
  cases named : named? c with
  | some b =>
      rw [decode_named named]
      exact ⟨[], rfl, .named (named?_eq_some_iff.1 named)⟩
  | none =>
      cases octal : Byte.octalValue? c with
      | some d =>
          rw [decode_octal octal]
          obtain ⟨word, ds, split, isDigits, few, maximal, sum⟩ :=
            exists_digits @Byte.octalValue?_eq_some_iff 8 2 d rest
          have first := Byte.octalValue?_eq_some_iff.1 octal
          refine ⟨word, split,
            .octal ⟨⟨d :: ds, .cons first isDigits, ?_⟩, Nat.succ_le_succ few, ?_⟩
              (List.cons_ne_nil _ _)⟩
          · simpa using sum
          · exact fun fewer => maximal (Nat.lt_of_succ_lt_succ fewer)
      | none =>
          by_cases isX : c = Grammar.letterX
          · subst isX
            exact exists_escape_letterX rest
          · rw [decode_plain named octal isX]
            have notOctal := Byte.octalValue?_eq_none_iff.1 octal
            exact ⟨[], rfl, .plain (named?_eq_none_iff.1 named) notOctal isX⟩

/-- A word of the grammar is read, whatever text it goes before. -/
theorem decode_eq {c b : UInt8} {word after : Bytes} (escape : Grammar.Escape (c :: word) after b) :
    decode c (word ++ after) = (b, after) := by
  cases escape with
  | named member => exact decode_named (named?_eq_some_iff.2 member) after
  | octal run _ =>
      obtain ⟨⟨ds, isDigits, rfl⟩, few, maximal⟩ := run
      cases isDigits with
      | cons first isDigits =>
          rw [decode_octal (Byte.octalValue?_eq_some_iff.2 first),
            digits_eq @Byte.octalValue?_eq_some_iff isDigits (Nat.le_of_succ_le_succ few)
              fun fewer => maximal (Nat.succ_lt_succ fewer)]
          simp
  | hex run nonempty =>
      obtain ⟨⟨ds, isDigits, rfl⟩, few, maximal⟩ := run
      cases isDigits with
      | nil => exact absurd rfl nonempty
      | cons first isDigits =>
          have hex := Option.ne_none_iff_exists'.2 ⟨_, Byte.hexValue?_eq_some_iff.2 first⟩
          rw [List.cons_append, decode_hex hex, ← List.cons_append,
            digits_eq @Byte.hexValue?_eq_some_iff (.cons first isDigits) few maximal]
  | bareX none => exact decode_bareX none
  | plain unnamed notOctal notX =>
      exact decode_plain (named?_eq_none_iff.2 unnamed)
        (Byte.octalValue?_eq_none_iff.2 notOctal) notX after

end Escape

/-! ## Bracket expressions -/

namespace Bracket

open Grammar (Members Listed BracketText letterS)

theorem letterS_eq : letterS = Byte.ofChar 's' := by decide

/-- A member is read off the front of a text, and the rest is left. -/
theorem Member.read?_plain {c : UInt8} (rest : Bytes) (plain : c ≠ Byte.backslash) :
    Member.read? c rest = some (.byte c false, rest) := by
  simp [Member.read?, plain]

theorem Member.read?_blank (rest : Bytes) :
    Member.read? Byte.backslash (letterS :: rest) = some (.blank, rest) := by
  simp [Member.read?, letterS_eq]

theorem Member.read?_escape {e : UInt8} (rest : Bytes) (other : e ≠ letterS) :
    Member.read? Byte.backslash (e :: rest) =
      some (.byte (Escape.decode e rest).1 true, (Escape.decode e rest).2) := by
  rw [letterS_eq] at other
  simp [Member.read?, other]

theorem members?_close (rest : Bytes) :
    members? (Byte.rightBracket :: rest) = some ([], rest) := by
  simp [members?]

theorem members?_cons {c : UInt8} {rest after : Bytes} {m : Member}
    (open_ : c ≠ Byte.rightBracket) (read : Member.read? c rest = some (m, after)) :
    members? (c :: rest) = (members? after).map fun r => (m :: r.1, r.2) := by
  rw [members?, if_neg open_]
  split
  · rename_i none
    rw [none] at read
    cases read
  · rename_i m' after' some
    rw [some] at read
    cases read
    rfl

theorem members?_eq_of_members {word after : Bytes} {ms : List Member}
    (members : Members word (Byte.rightBracket :: after) ms) :
    members? (word ++ Byte.rightBracket :: after) = some (ms, after) := by
  generalize close : Byte.rightBracket :: after = following at members
  induction members with
  | nil =>
      subst close
      exact members?_close after
  | plain open_ plain _ ih =>
      rw [List.cons_append, members?_cons open_ (Member.read?_plain _ plain), ih close]
      rfl
  | blank _ ih =>
      rw [List.cons_append, List.cons_append, members?_cons (by decide) (Member.read?_blank _),
        ih close]
      rfl
  | @escape e b digits word following ms other escape _ ih =>
      have read := Member.read?_escape (digits ++ (word ++ following)) other
      rw [Escape.decode_eq escape] at read
      rw [List.cons_append, List.cons_append, List.append_assoc,
        members?_cons (by decide) read, ih close]
      rfl

/-- A member that is read before members is a word in front of theirs. -/
theorem exists_members_cons {c : UInt8} {rest word after : Bytes} {m : Member} {ms : List Member}
    (open_ : c ≠ Byte.rightBracket) (read : Member.read? c rest = some (m, word ++ after))
    (members : Members word after ms) :
    ∃ text, c :: rest = text ++ after ∧ Members text after (m :: ms) := by
  by_cases backslash : c = Byte.backslash
  · subst backslash
    cases rest with
    | nil => cases read
    | cons e rest =>
        by_cases blank : e = letterS
        · subst blank
          rw [Member.read?_blank] at read
          cases read
          exact ⟨_, rfl, .blank members⟩
        · rw [Member.read?_escape rest blank] at read
          obtain ⟨digits, split, escape⟩ := Escape.exists_escape_decode e rest
          obtain ⟨rfl, behind⟩ := Prod.mk.inj (Option.some.inj read)
          rw [behind] at split escape
          refine ⟨Byte.backslash :: e :: (digits ++ word), ?_, .escape blank escape members⟩
          rw [split, List.cons_append, List.cons_append, List.append_assoc]
  · rw [Member.read?_plain rest backslash] at read
    cases read
    exact ⟨c :: word, rfl, .plain open_ backslash members⟩

theorem exists_members {s after : Bytes} {ms : List Member} (read : members? s = some (ms, after)) :
    ∃ word, s = word ++ Byte.rightBracket :: after ∧
      Members word (Byte.rightBracket :: after) ms := by
  fun_induction members? s generalizing ms with
  | case1 => cases read
  | case2 rest =>
      cases read
      exact ⟨[], rfl, .nil _⟩
  | case3 => cases read
  | case4 c rest open_ m behind member ih =>
      obtain ⟨⟨ms', after'⟩, tail, eq⟩ := Option.map_eq_some_iff.1 read
      cases eq
      obtain ⟨word, rfl, members⟩ := ih tail
      exact exists_members_cons open_ member members

theorem members?_eq_some_iff {s after : Bytes} {ms : List Member} :
    members? s = some (ms, after) ↔ ∃ word, s = word ++ Byte.rightBracket :: after ∧
      Members word (Byte.rightBracket :: after) ms := by
  constructor
  · exact exists_members
  · rintro ⟨word, rfl, members⟩
    exact members?_eq_of_members members

theorem listed?_eq_some_iff {s after : Bytes} {ms : List Member} :
    listed? s = some (ms, after) ↔ ∃ word, s = word ++ after ∧ Listed word after ms := by
  constructor
  · intro read
    cases s with
    | nil => cases read
    | cons c rest =>
        rw [listed?] at read
        split at read
        · rename_i close
          subst close
          obtain ⟨⟨ms', after'⟩, tail, eq⟩ := Option.map_eq_some_iff.1 read
          cases eq
          obtain ⟨word, rfl, members⟩ := members?_eq_some_iff.1 tail
          exact ⟨_, by simp, .bracketFirst members⟩
        · rename_i open_
          obtain ⟨word, split, members⟩ := members?_eq_some_iff.1 read
          refine ⟨_, by rw [split]; simp, .members ?_ members⟩
          rintro rfl
          exact open_ (List.cons.inj split).1
  · rintro ⟨word, rfl, listed⟩
    cases listed with
    | @members word after ms nonempty members =>
        cases word with
        | nil => exact absurd rfl nonempty
        | cons c word =>
            have read := members?_eq_of_members members
            rw [List.append_assoc, List.singleton_append, List.cons_append, listed?,
              if_neg members.head_ne]
            exact read
    | @bracketFirst word after ms members =>
        rw [List.cons_append, List.append_assoc, List.singleton_append, listed?, if_pos rfl,
          members?_eq_of_members members]
        rfl

theorem read?_eq_some_iff {caseSensitive : Bool} {s after : Bytes} {set : ByteSet} :
    read? caseSensitive s = some (set, after) ↔
      ∃ word, s = word ++ after ∧ BracketText caseSensitive word after set := by
  constructor
  · intro read
    cases s with
    | nil => cases read
    | cons c rest =>
        rw [read?] at read
        split at read
        · rename_i isCaret
          subst isCaret
          obtain ⟨⟨ms, after'⟩, found, eq⟩ := Option.map_eq_some_iff.1 read
          cases eq
          obtain ⟨word, rfl, listed⟩ := listed?_eq_some_iff.1 found
          exact ⟨_, rfl, .negated listed⟩
        · rename_i notCaret
          obtain ⟨⟨ms, after'⟩, found, eq⟩ := Option.map_eq_some_iff.1 read
          cases eq
          obtain ⟨word, split, listed⟩ := listed?_eq_some_iff.1 found
          refine ⟨word, split, .listed (fun first => ?_) listed⟩
          cases word with
          | nil => cases first
          | cons c' word =>
              cases first
              exact notCaret (List.cons.inj split).1
  · rintro ⟨word, rfl, text⟩
    cases text with
    | @listed word after ms notCaret listed =>
        have read := listed?_eq_some_iff.2 ⟨word, rfl, listed⟩
        cases word with
        | nil => exact absurd rfl listed.ne_nil
        | cons c word =>
            rw [List.cons_append, read?, if_neg fun isCaret => notCaret (by rw [isCaret]; rfl),
              ← List.cons_append, read]
            rfl
    | @negated word after ms listed =>
        have read := listed?_eq_some_iff.2 ⟨word, rfl, listed⟩
        rw [List.cons_append, read?, if_pos rfl, read]
        rfl

end Bracket

/-! ## Tokens -/

namespace Token

open Grammar (BracketText Lexeme)

theorem quantifier?_eq_some_iff {c : UInt8} {q : Quantifier} :
    quantifier? c = some q ↔ (c, q) ∈ Grammar.quantifiers := by
  unfold quantifier? Grammar.quantifiers
  repeat' split
  all_goals simp_all [Byte.star, Byte.plus, Byte.question, eq_comm]

theorem quantifier?_eq_none_iff {c : UInt8} :
    quantifier? c = none ↔ c ≠ Byte.star ∧ c ≠ Byte.plus ∧ c ≠ Byte.question := by
  unfold quantifier?
  repeat' split
  all_goals simp_all

theorem readEscape_of_mem {caseSensitive : Bool} {e : UInt8} {token : Token} (rest : Bytes)
    (member : (e, token) ∈ Grammar.escapeTokens) :
    readEscape caseSensitive e rest = (token, rest) := by
  simp only [Grammar.escapeTokens, List.mem_cons, Prod.mk.injEq, List.not_mem_nil, or_false]
    at member
  rcases member with ⟨rfl, rfl⟩ | ⟨rfl, rfl⟩ | ⟨rfl, rfl⟩ | ⟨rfl, rfl⟩ <;> rfl

theorem readEscape_of_not_mem {caseSensitive : Bool} {e : UInt8} (rest : Bytes)
    (other : e ∉ Grammar.escapeTokens.map Prod.fst) :
    readEscape caseSensitive e rest =
      (.atom (.literal caseSensitive (Escape.decode e rest).1), (Escape.decode e rest).2) := by
  have b : Byte.ofChar 'b' = Grammar.letterB := by decide
  have s : Byte.ofChar 's' = Grammar.letterS := by decide
  simp only [Grammar.escapeTokens, List.map_cons, List.map_nil, List.mem_cons, List.not_mem_nil,
    or_false, not_or] at other
  simp [readEscape, b, s, other]

theorem exists_lexeme_readEscape (caseSensitive : Bool) (before : Bytes) (e : UInt8)
    (rest : Bytes) :
    ∃ word, e :: rest = word ++ (readEscape caseSensitive e rest).2 ∧
      Lexeme caseSensitive before (Byte.backslash :: word) (readEscape caseSensitive e rest).2
        (readEscape caseSensitive e rest).1 := by
  by_cases special : e ∈ Grammar.escapeTokens.map Prod.fst
  · obtain ⟨⟨e', token⟩, member, rfl⟩ := List.mem_map.1 special
    rw [readEscape_of_mem rest member]
    exact ⟨[e'], rfl, .escapeToken member⟩
  · rw [readEscape_of_not_mem rest special]
    obtain ⟨digits, split, escape⟩ := Escape.exists_escape_decode e rest
    exact ⟨e :: digits, congrArg (e :: ·) split, .escape special escape⟩

/-- What is read at a place is a word of the grammar. -/
theorem exists_lexeme {caseSensitive : Bool} {before rest after : Bytes} {c : UInt8}
    {token : Token} (read : read caseSensitive before.isEmpty c rest = .ok (token, after)) :
    ∃ word, c :: rest = word ++ after ∧ Lexeme caseSensitive before word after token := by
  unfold Token.read at read
  split at read
  · rename_i start
    cases read
    obtain rfl := start.1
    obtain rfl := List.isEmpty_iff.1 start.2
    exact ⟨[Byte.caret], rfl, .subjectStart⟩
  rename_i notStart
  split at read
  · rename_i last
    cases read
    obtain ⟨rfl, rfl⟩ := last
    exact ⟨[Byte.dollar], rfl, .subjectEnd⟩
  rename_i notLast
  split at read
  · rename_i dot
    cases read
    subst dot
    exact ⟨[Byte.dot], rfl, .any⟩
  rename_i notDot
  split at read
  · rename_i bracket
    subst bracket
    split at read
    · cases read
    · rename_i set after' found
      cases read
      obtain ⟨word, rfl, text⟩ := Bracket.read?_eq_some_iff.1 found
      exact ⟨Byte.leftBracket :: word, rfl, .bracket text⟩
  rename_i notBracket
  split at read
  · rename_i backslash
    subst backslash
    cases rest with
    | nil => cases read
    | cons e rest =>
        obtain ⟨word, split, lexeme⟩ := exists_lexeme_readEscape caseSensitive before e rest
        rw [Except.ok.inj read] at split lexeme
        exact ⟨Byte.backslash :: word, congrArg (Byte.backslash :: ·) split, lexeme⟩
  rename_i notBackslash
  split at read
  · rename_i q found
    cases read
    exact ⟨[c], rfl, .quantifier (quantifier?_eq_some_iff.1 found)⟩
  · rename_i none
    cases read
    refine ⟨[c], rfl, .literal ?_ (fun caret => ?_) (fun dollar => ?_)⟩
    · simp [Grammar.reserved, notDot, notBracket, notBackslash, quantifier?_eq_none_iff.1 none]
    · rintro rfl
      exact notStart ⟨caret, rfl⟩
    · exact fun empty => notLast ⟨dollar, empty⟩

theorem read_bracket (caseSensitive first : Bool) (rest : Bytes) :
    read caseSensitive first Byte.leftBracket rest =
      match Bracket.read? caseSensitive rest with
      | none => .error .unterminatedBracket
      | some (set, after) => .ok (.atom (.set set), after) := rfl

theorem read_backslash (caseSensitive first : Bool) (e : UInt8) (rest : Bytes) :
    read caseSensitive first Byte.backslash (e :: rest) =
      .ok (readEscape caseSensitive e rest) := rfl

theorem read_quantifier {c : UInt8} {q : Quantifier} (caseSensitive first : Bool) (rest : Bytes)
    (member : (c, q) ∈ Grammar.quantifiers) :
    read caseSensitive first c rest = .ok (.quantifier q, rest) := by
  simp only [Grammar.quantifiers, List.mem_cons, Prod.mk.injEq, List.not_mem_nil, or_false]
    at member
  rcases member with ⟨rfl, rfl⟩ | ⟨rfl, rfl⟩ | ⟨rfl, rfl⟩ <;> rfl

/-- A word of the grammar is read, whatever text it goes before. -/
theorem read_eq_ok {caseSensitive : Bool} {before word after rest : Bytes} {c : UInt8}
    {token : Token} (lexeme : Lexeme caseSensitive before word after token)
    (split : c :: rest = word ++ after) :
    read caseSensitive before.isEmpty c rest = .ok (token, after) := by
  cases lexeme with
  | subjectStart => cases split; rfl
  | subjectEnd => cases split; rfl
  | any => cases split; rfl
  | bracket text =>
      rw [List.cons_append, List.cons.injEq] at split
      obtain ⟨rfl, rfl⟩ := split
      rw [read_bracket, Bracket.read?_eq_some_iff.2 ⟨_, rfl, text⟩]
  | escapeToken member =>
      rw [List.cons_append, List.singleton_append, List.cons.injEq] at split
      obtain ⟨rfl, rfl⟩ := split
      rw [read_backslash, readEscape_of_mem _ member]
  | escape other escape =>
      rw [List.cons_append, List.cons_append, List.cons.injEq] at split
      obtain ⟨rfl, rfl⟩ := split
      rw [read_backslash, readEscape_of_not_mem _ other, Escape.decode_eq escape]
  | quantifier member =>
      cases split
      exact read_quantifier _ _ _ member
  | literal plain notStart notLast =>
      rw [List.singleton_append, List.cons.injEq] at split
      obtain ⟨rfl, rfl⟩ := split
      simp only [Grammar.reserved, List.mem_cons, List.not_mem_nil, or_false, not_or] at plain
      obtain ⟨notDot, notBracket, notBackslash, notQuantifier⟩ := plain
      have last : ¬ (c = Byte.dollar ∧ rest = []) := fun h => notLast h.1 h.2
      simpa [read, last, notDot, notBracket, notBackslash,
        quantifier?_eq_none_iff.2 notQuantifier] using notStart

theorem read_eq_ok_iff {caseSensitive : Bool} {before rest after : Bytes} {c : UInt8}
    {token : Token} :
    read caseSensitive before.isEmpty c rest = .ok (token, after) ↔
      ∃ word, c :: rest = word ++ after ∧ Lexeme caseSensitive before word after token := by
  constructor
  · exact exists_lexeme
  · rintro ⟨word, split, lexeme⟩
    exact read_eq_ok lexeme split

/-- Only a bracket without its end and a lone backslash cannot be read. -/
theorem read_eq_error_iff {caseSensitive first : Bool} {rest : Bytes} {c : UInt8} {fault : Fault} :
    read caseSensitive first c rest = .error fault ↔
      (c = Byte.leftBracket ∧ fault = .unterminatedBracket ∧
        ∀ word after set, rest = word ++ after → ¬ BracketText caseSensitive word after set) ∨
      (c = Byte.backslash ∧ fault = .trailingBackslash ∧ rest = []) := by
  constructor
  · intro error
    unfold read at error
    split at error
    · cases error
    split at error
    · cases error
    split at error
    · cases error
    split at error
    · rename_i bracket
      split at error
      · rename_i none
        cases error
        refine .inl ⟨bracket, rfl, fun word after set split text => ?_⟩
        rw [Bracket.read?_eq_some_iff.2 ⟨word, split, text⟩] at none
        cases none
      · cases error
    split at error
    · rename_i backslash
      cases rest with
      | nil =>
          cases error
          exact .inr ⟨backslash, rfl, rfl⟩
      | cons e rest => cases error
    split at error <;> cases error
  · rintro (⟨rfl, rfl, open_⟩ | ⟨rfl, rfl, rfl⟩)
    · rw [read_bracket]
      cases found : Bracket.read? caseSensitive rest with
      | none => rfl
      | some r =>
          obtain ⟨set, after⟩ := r
          obtain ⟨word, split, text⟩ := Bracket.read?_eq_some_iff.1 found
          exact absurd text (open_ word after set split)
    · rfl

end Token

end Bytewise.Pattern
