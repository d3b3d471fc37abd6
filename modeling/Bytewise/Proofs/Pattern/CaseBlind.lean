/-
# Bytewise.Proofs.Pattern.CaseBlind -- patterns that do not see case

A pattern that was compiled without regard to case cannot tell apart two subjects
that are the same up to the case of their letters (`SameLetters`).  There are
three ways in which it looks at a byte, and none of them sees case:

* a literal is compared in lower case;
* a set is closed under case before its complement is taken, so that it holds
  both cases of a letter or neither (`BracketText.caseBlind`);
* a word is made of letters of both cases.

The grammar has no other atoms (`caseBlind_of_parse`), so the decompositions of
one subject are those of the other (`Decomposition.of_sameLetters`).  A match ends
where the greatest of them does, and a search asks for nothing but matches.
-/
import Bytewise.Proofs.Pattern.Folding
import Bytewise.Proofs.Pattern.Leftmost

namespace Bytewise.Pattern

set_option autoImplicit false

open Grammar (BracketText Lexeme)

/-! ## Atoms of the grammar -/

/-- The atom accepts both cases of a letter or neither. -/
def Atom.CaseBlind (atom : Atom) : Prop :=
  ∀ a b, Byte.toLower a = Byte.toLower b → (atom.Accepts false a ↔ atom.Accepts false b)

/-- The atom of the node, if it has one, does not see case. -/
def Node.CaseBlind (node : Node) : Prop := ∀ atom, node.atom? = some atom → atom.CaseBlind

theorem Atom.Folded.caseBlind {atom : Atom} (folded : atom.Folded false) : atom.CaseBlind := by
  intro a b same
  cases atom with
  | byte c =>
      show Byte.Lowered a c ↔ Byte.Lowered b c
      rw [← Byte.toLower_eq_iff_lowered, ← Byte.toLower_eq_iff_lowered, same]
  | any => exact Iff.rfl
  | set s => exact folded rfl a b same

theorem caseBlind_of_parse {text : Bytes} {nodes : List Node} (parsed : parse false text = .ok nodes) :
    ∀ node ∈ nodes, node.CaseBlind :=
  fun node member atom has => (folded_of_parse parsed node member atom has).caseBlind

/-! ## Subjects that differ in case only -/

/-- The bytes are the same one by one, up to the case of letters. -/
def SameLetters (s t : Bytes) : Prop := s.map Byte.toLower = t.map Byte.toLower

section

variable {s t : Bytes} {i : Nat}

theorem SameLetters.symm (same : SameLetters s t) : SameLetters t s := Eq.symm same

theorem SameLetters.length_eq (same : SameLetters s t) : s.length = t.length := by
  simpa using congrArg List.length same

theorem SameLetters.exists_getElem? (same : SameLetters s t) {b : UInt8} (found : s[i]? = some b) :
    ∃ c, t[i]? = some c ∧ Byte.toLower b = Byte.toLower c := by
  have at_ : (s.map Byte.toLower)[i]? = (t.map Byte.toLower)[i]? := by rw [same]
  rw [List.getElem?_map, List.getElem?_map, found, Option.map_some] at at_
  obtain ⟨c, stands, folds⟩ := Option.map_eq_some_iff.1 at_.symm
  exact ⟨c, stands, folds.symm⟩

theorem wordByte_congr {b c : UInt8} (same : Byte.toLower b = Byte.toLower c) :
    WordByte b ↔ WordByte c := by
  rw [← isWord_iff, ← isWord_iff, ← Byte.isWord_toLower, same, Byte.isWord_toLower]

theorem WordBefore.of_sameLetters (same : SameLetters s t) (word : WordBefore s i) :
    WordBefore t i := by
  obtain ⟨j, b, before, found, isWord⟩ := word
  obtain ⟨c, stands, folds⟩ := same.exists_getElem? found
  exact ⟨j, c, before, stands, (wordByte_congr folds).1 isWord⟩

theorem WordAt.of_sameLetters (same : SameLetters s t) (word : WordAt s i) : WordAt t i := by
  obtain ⟨b, found, isWord⟩ := word
  obtain ⟨c, stands, folds⟩ := same.exists_getElem? found
  exact ⟨c, stands, (wordByte_congr folds).1 isWord⟩

theorem Assertion.holds_congr (same : SameLetters s t) (a : Assertion) :
    a.Holds s i ↔ a.Holds t i := by
  have before : WordBefore s i ↔ WordBefore t i :=
    ⟨.of_sameLetters same, .of_sameLetters same.symm⟩
  have at_ : WordAt s i ↔ WordAt t i := ⟨.of_sameLetters same, .of_sameLetters same.symm⟩
  cases a <;> simp only [Assertion.Holds, before, at_, same.length_eq]

theorem Atom.AcceptsAt.of_sameLetters (same : SameLetters s t) {atom : Atom} (blind : atom.CaseBlind)
    (accepted : atom.AcceptsAt false s i) : atom.AcceptsAt false t i := by
  obtain ⟨b, found, accepts⟩ := accepted
  obtain ⟨c, stands, folds⟩ := same.exists_getElem? found
  exact ⟨c, stands, (blind b c folds).1 accepts⟩

/-- A division of one subject divides the other in the same way. -/
theorem Decomposition.of_sameLetters (same : SameLetters s t) {nodes : List Node}
    (blind : ∀ node ∈ nodes, node.CaseBlind) {counts : List Nat} {e : Nat}
    (d : Decomposition false s nodes i counts e) : Decomposition false t nodes i counts e := by
  induction d with
  | nil => exact .nil _
  | atom accepted _ ih =>
      obtain ⟨first, later⟩ := List.forall_mem_cons.1 blind
      exact .atom (accepted.of_sameLetters same (first _ rfl)) (ih later)
  | assertion holds _ ih =>
      obtain ⟨-, later⟩ := List.forall_mem_cons.1 blind
      exact .assertion ((Assertion.holds_congr same _).1 holds) (ih later)
  | repetition allows covers _ ih =>
      obtain ⟨first, later⟩ := List.forall_mem_cons.1 blind
      refine .repetition allows (fun k below => ?_) (ih later)
      exact (covers k below).of_sameLetters same (first _ rfl)

theorem Greatest.of_sameLetters (same : SameLetters s t) {nodes : List Node}
    (blind : ∀ node ∈ nodes, node.CaseBlind) {counts : List Nat} {e : Nat}
    (greatest : Greatest false s nodes i counts e) : Greatest false t nodes i counts e := by
  refine ⟨greatest.1.of_sameLetters same blind, fun counts' e' d => ?_⟩
  exact greatest.2 counts' e' (d.of_sameLetters same.symm blind)

end

/-! ## Compiled patterns -/

section

variable {text : Bytes} {wildcard : Bool} {maxCells : Nat} {p : Program} {subject other : Subject}

theorem size_eq_of_sameLetters (same : SameLetters subject.toList other.toList) :
    subject.size = other.size := by
  rw [Subject.size_eq, Subject.size_eq, same.length_eq]

theorem matchEnd?_eq_of_sameLetters (compiled : compile text false wildcard maxCells = .ok p)
    (same : SameLetters subject.toList other.toList) (i : Nat) :
    p.matchEnd? subject i = p.matchEnd? other i := by
  have sizes := size_eq_of_sameLetters same
  by_cases inside : i ≤ subject.size
  · obtain ⟨nodes, parsed, -, -⟩ := exists_nodes_of_compile compiled
    have blind := caseBlind_of_parse parsed
    have answers := answers_matchEnd? compiled parsed subject inside
    have answers' := answers_matchEnd? compiled parsed other (sizes ▸ inside)
    ext e
    rw [answers.eq_some_iff, answers'.eq_some_iff]
    constructor
    · rintro ⟨counts, greatest⟩
      exact ⟨counts, greatest.of_sameLetters same blind⟩
    · rintro ⟨counts, greatest⟩
      exact ⟨counts, greatest.of_sameLetters same.symm blind⟩
  · have outside := Nat.lt_of_not_le inside
    rw [Program.matchEnd?_outside outside, Program.matchEnd?_outside (sizes ▸ outside)]

theorem search_eq_of_sameLetters (compiled : compile text false wildcard maxCells = .ok p)
    (same : SameLetters subject.toList other.toList) (start : Nat) :
    p.search subject start = p.search other start := by
  have sizes := size_eq_of_sameLetters same
  ext ⟨i, length⟩
  rw [search_eq_some_iff compiled, search_eq_some_iff compiled, sizes,
    matchEnd?_eq_of_sameLetters compiled same]
  simp only [matchEnd?_eq_of_sameLetters compiled same]

/-- **Patterns that ignore case do not see case.**  On two subjects that are the same up to the case
of their letters, such a pattern gives the same answer to every question, whatever it contains: what
it finds from each start, the length of the match at each position, and whether it matches somewhere
or the whole. -/
theorem compile_case_blind {q : Pattern}
    (compiled : q.program? = (compile text false wildcard maxCells).toOption)
    (same : SameLetters subject.toList other.toList) :
    (∀ start, q.find? subject start = q.find? other start) ∧
    (∀ i, q.matchLength? subject i = q.matchLength? other i) ∧
    q.isMatch subject = q.isMatch other ∧
    q.isExactMatch subject = q.isExactMatch other := by
  have finds : ∀ start, q.find? subject start = q.find? other start := by
    intro start
    cases outcome : compile text false wildcard maxCells with
    | error e =>
        rw [outcome] at compiled
        rw [find?, find?, compiled]
        rfl
    | ok p =>
        rw [outcome] at compiled
        rw [find?_eq compiled, find?_eq compiled, search_eq_of_sameLetters outcome same]
  have lengths : ∀ i, q.matchLength? subject i = q.matchLength? other i := by
    intro i
    cases outcome : compile text false wildcard maxCells with
    | error e =>
        rw [outcome] at compiled
        rw [matchLength?, matchLength?, compiled]
        rfl
    | ok p =>
        rw [outcome] at compiled
        rw [matchLength?_eq compiled, matchLength?_eq compiled,
          matchEnd?_eq_of_sameLetters outcome same]
  refine ⟨finds, lengths, ?_, ?_⟩
  · rw [isMatch, finds, isMatch]
  · rw [isExactMatch, lengths, size_eq_of_sameLetters same, isExactMatch]

end

/-- `[^K]\b` on `kB` and on `Kb`: the complement holds neither case of `k`, and the match is the
second byte in both. -/
theorem compile_case_blind_negated :
    ∃ p, compile [0x5b, 0x5e, 0x4b, 0x5d, 0x5c, 0x62] false false 1024 = .ok p ∧
      SameLetters (Subject.ofBytes [0x6b, 0x42]).toList (Subject.ofBytes [0x4b, 0x62]).toList ∧
      find? ⟨"[^K]\\b", false, false, 1024, some p, none⟩ (.ofBytes [0x6b, 0x42]) 0 = some ⟨1, 1⟩ ∧
      find? ⟨"[^K]\\b", false, false, 1024, some p, none⟩ (.ofBytes [0x4b, 0x62]) 0 = some ⟨1, 1⟩ := by
  let set := (Bracket.toSet false [.byte 0x4b false]).negate
  have text : BracketText false [0x5e, 0x4b, 0x5d] [0x5c, 0x62] set :=
    .negated (.members (by decide) (.plain (by decide) (by decide) (.nil _)))
  have edge : Lexeme false [0x5b, 0x5e, 0x4b, 0x5d] [0x5c, 0x62] [] (.anchor .wordEdge) :=
    .escapeToken (by decide)
  have parsed : parse false [0x5b, 0x5e, 0x4b, 0x5d, 0x5c, 0x62] =
      .ok [.atom (.set set), .assertion .wordEdge] :=
    parse_eq_ok (.cons (.bracket text) (.cons edge (.nil _ _))) (.atom (.anchor .nil))
  have compiled : compile [0x5b, 0x5e, 0x4b, 0x5d, 0x5c, 0x62] false false 1024 =
      .ok ⟨[.atom (.set set), .assertion .wordEdge, .stop], 19, false⟩ := by
    rw [compile, if_neg (by decide), sourceText, if_neg (by decide), parsed]
    rfl
  have same : SameLetters (Subject.ofBytes [0x6b, 0x42]).toList
      (Subject.ofBytes [0x4b, 0x62]).toList := by
    rw [Subject.toList_ofBytes, Subject.toList_ofBytes, SameLetters]
    decide
  have found : Program.search ⟨[.atom (.set set), .assertion .wordEdge, .stop], 19, false⟩
      (.ofBytes [0x6b, 0x42]) 0 = some ⟨1, 1⟩ := by decide +kernel
  obtain ⟨finds, -⟩ := compile_case_blind
    (q := ⟨"[^K]\\b", false, false, 1024, some _, none⟩) (congrArg Except.toOption compiled).symm same
  exact ⟨_, compiled, same, found, (finds 0).symm.trans found⟩

end Bytewise.Pattern
