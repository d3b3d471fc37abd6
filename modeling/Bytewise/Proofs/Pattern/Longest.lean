/-
# Bytewise.Proofs.Pattern.Longest -- the greatest decomposition reaches furthest

Giving back until something fits does not find the longest match in general.
Here it does, because only single bytes repeat and there are no alternatives.

The reason is an exchange (`Decomposition.exchange`).  Let one decomposition
start no later than another and end behind it.  Somewhere a repetition of the
first overtakes the second; the second can take the same bytes from there on and
then follow the first, and its counts become greater.  A greatest decomposition
leaves no room for that (`Greatest.longest`).

`compile_longest` carries this over to compiled patterns: the match at a position
is the longest, so the one match at the start tells whether a pattern fits a
whole subject.
-/
import Bytewise.Proofs.Pattern.Greedy

namespace Bytewise.Pattern

set_option autoImplicit false

section

variable {caseSensitive : Bool} {s : Bytes} {nodes : List Node}

/-- The counts that a quantifier allows have no gaps. -/
theorem Quantifier.Allows.between {q : Quantifier} {few many n : Nat} (low : q.Allows few)
    (high : q.Allows many) (above : few ≤ n) (below : n ≤ many) : q.Allows n := by
  cases q with
  | zeroOrMore => trivial
  | oneOrMore => exact Nat.le_trans low above
  | zeroOrOne => exact Nat.le_trans below high

theorem Decomposition.exchange {i j e f : Nat} {counts counts' : List Nat}
    (first : Decomposition caseSensitive s nodes i counts e)
    (second : Decomposition caseSensitive s nodes j counts' f) (earlier : i ≤ j) (further : f < e) :
    ∃ greater, Decomposition caseSensitive s nodes j greater e ∧
      List.Lex (· < ·) counts' greater := by
  induction first generalizing j counts' with
  | nil i =>
      obtain ⟨-, rfl⟩ := decomposition_nil_iff.1 second
      omega
  | atom _ _ ih =>
      obtain ⟨accepted, behind⟩ := decomposition_atom_iff.1 second
      obtain ⟨greater, d, lex⟩ := ih behind (Nat.succ_le_succ earlier) further
      exact ⟨greater, .atom accepted d, lex⟩
  | assertion _ _ ih =>
      obtain ⟨holds, behind⟩ := decomposition_assertion_iff.1 second
      obtain ⟨greater, d, lex⟩ := ih behind earlier further
      exact ⟨greater, .assertion holds d, lex⟩
  | @repetition q a nodes i n e counts allows covers d ih =>
      obtain ⟨m, rest, rfl, allows', covers', behind⟩ := decomposition_repetition_iff.1 second
      by_cases overtakes : j + m < i + n
      · -- The bytes up to where the first one is done, and then its counts.
        have stop : j + (i + n - j) = i + n := by omega
        refine ⟨(i + n - j) :: counts, .repetition ?_ ?_ (by rwa [stop]), .rel (by omega)⟩
        · exact allows'.between allows (by omega) (by omega)
        · exact covers.sub earlier (Nat.le_of_eq stop)
      · obtain ⟨greater, d', lex⟩ := ih behind (by omega) further
        exact ⟨m :: greater, .repetition allows' covers' d', .cons lex⟩

theorem Greatest.longest {i e f : Nat} {counts counts' : List Nat}
    (greatest : Greatest caseSensitive s nodes i counts f)
    (d : Decomposition caseSensitive s nodes i counts' e) : e ≤ f := by
  refine Nat.le_of_not_gt fun further => ?_
  obtain ⟨greater, d', lex⟩ := d.exchange greatest.1 (Nat.le_refl i) further
  rcases greatest.2 greater e d' with rfl | below
  · exact List.lex_irrefl Nat.lt_irrefl _ lex
  · exact List.lex_asymm Nat.lt_asymm lex below

end

theorem isExactMatch_iff {q : Pattern} {p : Program} (program : q.program? = some p)
    (subject : Subject) :
    q.isExactMatch subject = true ↔ p.matchEnd? subject 0 = some subject.size := by
  rw [isExactMatch, matchLength?_eq program]
  simp

theorem le_size_of_matchEnd? {p : Program} {subject : Subject} {i e : Nat}
    (found : p.matchEnd? subject i = some e) : i ≤ subject.size :=
  (Program.le_size_of_matchEnd? found).1

/-- **The match at a position is the longest, and an exact match is membership.**  No decomposition
of the nodes ends behind the match, and a pattern matches a subject exactly when its nodes divide
all of it. -/
theorem compile_longest {text : Bytes} {caseSensitive wildcard : Bool} {maxCells : Nat}
    {p : Program} (compiled : compile text caseSensitive wildcard maxCells = .ok p) :
    ∃ nodes, parse caseSensitive (sourceText wildcard text) = .ok nodes ∧
      (∀ (subject : Subject) (i e : Nat), p.matchEnd? subject i = some e →
        ∀ counts e', Decomposition caseSensitive subject.toList nodes i counts e' → e' ≤ e) ∧
      ∀ q : Pattern, q.program? = some p → ∀ subject : Subject, q.isExactMatch subject = true ↔
        ∃ counts, Decomposition caseSensitive subject.toList nodes 0 counts subject.size := by
  obtain ⟨nodes, parsed, -, -⟩ := exists_nodes_of_compile compiled
  have longest : ∀ (subject : Subject) (i e : Nat), p.matchEnd? subject i = some e →
      ∀ counts e', Decomposition caseSensitive subject.toList nodes i counts e' → e' ≤ e := by
    intro subject i e found counts e' d
    have answers := answers_matchEnd? compiled parsed subject (le_size_of_matchEnd? found)
    obtain ⟨_, greatest⟩ := answers.eq_some_iff.1 found
    exact greatest.longest d
  refine ⟨nodes, parsed, longest, fun q program subject => ?_⟩
  have answers := answers_matchEnd? compiled parsed subject (Nat.zero_le subject.size)
  rw [isExactMatch_iff program]
  constructor
  · intro found
    obtain ⟨counts, greatest⟩ := answers.eq_some_iff.1 found
    exact ⟨counts, greatest.1⟩
  · rintro ⟨counts, d⟩
    obtain ⟨e, found⟩ := Option.isSome_iff_exists.1 (answers.isSome_iff.2 ⟨counts, _, d⟩)
    obtain ⟨_, greatest⟩ := answers.eq_some_iff.1 found
    have inside := greatest.1.le_length (Nat.zero_le _)
    rw [← Subject.size_eq] at inside
    rw [found, Nat.le_antisymm inside (longest subject 0 e found counts _ d)]

/-- `a?.?b*` on `aabb`: each repetition takes what it can get, and all of the subject fits. -/
theorem compile_longest_overlapping :
    ∃ p, compile [0x61, 0x3f, 0x2e, 0x3f, 0x62, 0x2a] true false 1024 = .ok p ∧
      ∃ nodes, parse true [0x61, 0x3f, 0x2e, 0x3f, 0x62, 0x2a] = .ok nodes ∧
        p.matchEnd? (.ofBytes [0x61, 0x61, 0x62, 0x62]) 0 = some 4 ∧
        (∀ counts e, Decomposition true [0x61, 0x61, 0x62, 0x62] nodes 0 counts e → e ≤ 4) ∧
        ∃ counts, Decomposition true [0x61, 0x61, 0x62, 0x62] nodes 0 counts 4 := by
  have compiled : compile [0x61, 0x3f, 0x2e, 0x3f, 0x62, 0x2a] true false 1024 =
      .ok ⟨[.optional, .atom (.byte 0x61), .stop, .optional, .atom .any, .stop, .closure,
        .atom (.byte 0x62), .stop, .stop], 10, true⟩ :=
    compile_eq_ok (by decide) (by cbv) rfl
  have found : Program.matchEnd? ⟨[.optional, .atom (.byte 0x61), .stop, .optional, .atom .any,
      .stop, .closure, .atom (.byte 0x62), .stop, .stop], 10, true⟩
      (.ofBytes [0x61, 0x61, 0x62, 0x62]) 0 = some 4 := by decide
  obtain ⟨nodes, parsed, longest, exact_⟩ := compile_longest compiled
  have whole := exact_ ⟨"a?.?b*", true, false, 1024, _, none⟩ rfl
    (.ofBytes [0x61, 0x61, 0x62, 0x62])
  exact ⟨_, compiled, nodes, parsed, found,
    longest (.ofBytes [0x61, 0x61, 0x62, 0x62]) 0 4 found, whole.1 (by decide)⟩

end Bytewise.Pattern
