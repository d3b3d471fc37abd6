/-
# Bytewise.Proofs.Pattern.Greedy -- the match is the greatest decomposition

Greedy matching with giving back, measured against the decompositions of the
nodes that the program was made from.

* `Answers` says what an answer at a position has to be: the end of the greatest
  decomposition from there, or none when there is no decomposition at all;
* one lemma for each kind of node carries an answer for the nodes behind it to an
  answer for all of them.  For a repetition that is `Answers.repetition`: the
  counts that it may take are those up to the number of accepted bytes, and the
  largest one with an answer behind it wins;
* `exists_run_answers`: running the code of nodes answers in this sense;
* `compile_greedy`: so do compiled patterns.
-/
import Bytewise.Proofs.Pattern.Decomposition
import Bytewise.Proofs.Pattern.Walk

namespace Bytewise.Pattern

set_option autoImplicit false

/-- The end of the greatest decomposition from `i`, or that there is none. -/
def Answers (caseSensitive : Bool) (s : Bytes) (nodes : List Node) (i : Nat) : Option Nat → Prop
  | none => ∀ counts e, ¬ Decomposition caseSensitive s nodes i counts e
  | some e => ∃ counts, Greatest caseSensitive s nodes i counts e

section

variable {caseSensitive : Bool} {s : Bytes} {nodes : List Node} {i : Nat} {r : Option Nat}

/-! ## The greatest decomposition is one -/

theorem Decomposition.end_eq {counts : List Nat} {e e' : Nat}
    (d : Decomposition caseSensitive s nodes i counts e)
    (d' : Decomposition caseSensitive s nodes i counts e') : e = e' := by
  induction d with
  | nil i => exact (decomposition_nil_iff.1 d').2.symm
  | atom _ _ ih => exact ih (decomposition_atom_iff.1 d').2
  | assertion _ _ ih => exact ih (decomposition_assertion_iff.1 d').2
  | repetition _ _ _ ih =>
      obtain ⟨_, _, ⟨⟩, -, -, behind⟩ := decomposition_repetition_iff.1 d'
      exact ih behind

theorem Greatest.end_eq {counts counts' : List Nat} {e e' : Nat}
    (greatest : Greatest caseSensitive s nodes i counts e)
    (greatest' : Greatest caseSensitive s nodes i counts' e') : e = e' := by
  rcases greatest.2 counts' e' greatest'.1 with rfl | below
  · exact greatest.1.end_eq greatest'.1
  · rcases greatest'.2 counts e greatest.1 with rfl | above
    · exact greatest.1.end_eq greatest'.1
    · exact absurd above (List.lex_asymm Nat.lt_asymm below)

theorem Answers.eq_some_iff (answers : Answers caseSensitive s nodes i r) {e : Nat} :
    r = some e ↔ ∃ counts, Greatest caseSensitive s nodes i counts e := by
  cases r with
  | none =>
      constructor
      · rintro ⟨⟩
      · rintro ⟨counts, greatest⟩
        exact absurd greatest.1 (answers counts e)
  | some e' =>
      constructor
      · rintro ⟨⟩
        exact answers
      · rintro ⟨counts, greatest⟩
        obtain ⟨counts', greatest'⟩ := answers
        rw [greatest'.end_eq greatest]

theorem Answers.isSome_iff (answers : Answers caseSensitive s nodes i r) :
    r.isSome = true ↔ ∃ counts e, Decomposition caseSensitive s nodes i counts e := by
  cases r with
  | none =>
      constructor
      · rintro ⟨⟩
      · rintro ⟨counts, e, d⟩
        exact absurd d (answers counts e)
  | some e =>
      obtain ⟨counts, greatest⟩ := answers
      exact ⟨fun _ => ⟨counts, e, greatest.1⟩, fun _ => rfl⟩

/-! ## Answers, node by node -/

theorem answers_nil : Answers caseSensitive s [] i (some i) := by
  refine ⟨[], .nil i, fun counts e d => .inl ?_⟩
  exact (decomposition_nil_iff.1 d).1

/-- A node in front that adds no count and leaves the choices behind it alone. -/
theorem Answers.forced {node : Node} {j : Nat}
    (forced : ∀ counts e, Decomposition caseSensitive s (node :: nodes) i counts e ↔
      Decomposition caseSensitive s nodes j counts e)
    (answers : Answers caseSensitive s nodes j r) :
    Answers caseSensitive s (node :: nodes) i r := by
  cases r with
  | none => exact fun counts e d => answers counts e ((forced counts e).1 d)
  | some e =>
      obtain ⟨counts, d, greatest⟩ := answers
      refine ⟨counts, (forced counts e).2 d, fun counts' e' d' => ?_⟩
      exact greatest counts' e' ((forced counts' e').1 d')

theorem Answers.atom {a : Atom} (accepted : a.AcceptsAt caseSensitive s i)
    (answers : Answers caseSensitive s nodes (i + 1) r) :
    Answers caseSensitive s (.atom a :: nodes) i r :=
  .forced (fun counts e => by simp [accepted]) answers

theorem answers_atom_none {a : Atom} (refused : ¬ a.AcceptsAt caseSensitive s i) :
    Answers caseSensitive s (.atom a :: nodes) i none :=
  fun _ _ d => refused (decomposition_atom_iff.1 d).1

theorem Answers.assertion {a : Assertion} (holds : a.Holds s i)
    (answers : Answers caseSensitive s nodes i r) :
    Answers caseSensitive s (.assertion a :: nodes) i r :=
  .forced (fun counts e => by simp [holds]) answers

theorem answers_assertion_none {a : Assertion} (fails : ¬ a.Holds s i) :
    Answers caseSensitive s (.assertion a :: nodes) i none :=
  fun _ _ d => fails (decomposition_assertion_iff.1 d).1

/-- The counts that the repetition may take are those up to `count`; `n` is the largest of them
with an answer behind it, or none of them has one. -/
theorem Answers.repetition {q : Quantifier} {a : Atom} {count n : Nat}
    (allowed : ∀ m, q.Allows m ∧ a.Covers caseSensitive s i m ↔ m ≤ count) (few : n ≤ count)
    (answers : Answers caseSensitive s nodes (i + n) r)
    (larger : ∀ m, n < m → m ≤ count → Answers caseSensitive s nodes (i + m) none)
    (last : r = none → n = 0) :
    Answers caseSensitive s (.repetition q a :: nodes) i r := by
  -- No decomposition gives the repetition more than `n` bytes.
  have most : ∀ m rest e, q.Allows m → a.Covers caseSensitive s i m →
      Decomposition caseSensitive s nodes (i + m) rest e → m ≤ n := by
    intro m rest e allows covers d
    refine Nat.le_of_not_gt fun above => ?_
    exact larger m above ((allowed m).1 ⟨allows, covers⟩) rest e d
  cases r with
  | none =>
      intro counts e d
      obtain ⟨m, rest, rfl, allows, covers, behind⟩ := decomposition_repetition_iff.1 d
      obtain rfl := last rfl
      obtain rfl := Nat.le_zero.1 (most m rest e allows covers behind)
      exact answers rest e behind
  | some e =>
      obtain ⟨counts, d, greatest⟩ := answers
      obtain ⟨allows, covers⟩ := (allowed n).2 few
      refine ⟨n :: counts, .repetition allows covers d, fun counts' e' d' => ?_⟩
      obtain ⟨m, rest, rfl, allows', covers', behind⟩ := decomposition_repetition_iff.1 d'
      rcases Nat.lt_or_eq_of_le (most m rest e' allows' covers' behind) with fewer | rfl
      · exact .inr (.rel fewer)
      · rcases greatest rest e' behind with same | below
        · exact .inl (by rw [same])
        · exact .inr (.cons below)

/-- One or more is one and then any number. -/
theorem decomposition_oneOrMore_iff {a : Atom} {counts : List Nat} {e : Nat} :
    Decomposition caseSensitive s (.repetition .oneOrMore a :: nodes) i counts e ↔
      a.AcceptsAt caseSensitive s i ∧ ∃ n rest, counts = (n + 1) :: rest ∧
        Decomposition caseSensitive s (.repetition .zeroOrMore a :: nodes) (i + 1) (n :: rest) e := by
  rw [decomposition_repetition_iff]
  constructor
  · rintro ⟨m, rest, rfl, allows, covers, d⟩
    obtain ⟨n, rfl⟩ : ∃ n, m = n + 1 := ⟨m - 1, (Nat.sub_add_cancel allows).symm⟩
    obtain ⟨accepted, covers⟩ := Atom.covers_succ_iff.1 covers
    refine ⟨accepted, n, rest, rfl, .repetition trivial covers ?_⟩
    rwa [show i + 1 + n = i + (n + 1) by omega]
  · rintro ⟨accepted, n, rest, rfl, d⟩
    obtain ⟨_, _, ⟨⟩, -, covers, behind⟩ := decomposition_repetition_iff.1 d
    refine ⟨n + 1, rest, rfl, Nat.succ_pos n, Atom.covers_succ_iff.2 ⟨accepted, covers⟩, ?_⟩
    rwa [show i + (n + 1) = i + 1 + n by omega]

theorem Answers.oneOrMore {a : Atom} (accepted : a.AcceptsAt caseSensitive s i)
    (answers : Answers caseSensitive s (.repetition .zeroOrMore a :: nodes) (i + 1) r) :
    Answers caseSensitive s (.repetition .oneOrMore a :: nodes) i r := by
  cases r with
  | none =>
      intro counts e d
      obtain ⟨-, n, rest, -, behind⟩ := decomposition_oneOrMore_iff.1 d
      exact answers _ e behind
  | some e =>
      obtain ⟨counts, d, greatest⟩ := answers
      obtain ⟨n, rest, rfl, -⟩ := decomposition_repetition_iff.1 d
      refine ⟨(n + 1) :: rest, decomposition_oneOrMore_iff.2 ⟨accepted, n, rest, rfl, d⟩,
        fun counts' e' d' => ?_⟩
      obtain ⟨-, m, rest', rfl, behind⟩ := decomposition_oneOrMore_iff.1 d'
      rcases greatest _ e' behind with same | below
      · obtain ⟨rfl, rfl⟩ := List.cons.inj same
        exact .inl rfl
      · cases below with
        | rel fewer => exact .inr (.rel (Nat.succ_lt_succ fewer))
        | cons below => exact .inr (.cons below)

theorem answers_oneOrMore_none {a : Atom} (refused : ¬ a.AcceptsAt caseSensitive s i) :
    Answers caseSensitive s (.repetition .oneOrMore a :: nodes) i none :=
  fun _ _ d => refused (decomposition_oneOrMore_iff.1 d).1

end

/-! ## Running the code of nodes -/

namespace Matching

variable {caseSensitive : Bool} {subject : Subject} {nodes : List Node} {i : Nat}

/-- Up to the limit, the stretches that an atom covers are those up to the count. -/
theorem covers_iff_le_countAccepted {a : Atom} {limit m : Nat} (few : m ≤ limit) :
    a.Covers caseSensitive subject.toList i m ↔
      m ≤ countAccepted caseSensitive subject a limit i := by
  induction limit generalizing i m with
  | zero =>
      obtain rfl := Nat.le_zero.1 few
      simp [Atom.covers_zero]
  | succ limit ih =>
      cases m with
      | zero => simp [Atom.covers_zero]
      | succ m =>
          rw [Atom.covers_succ_iff, ← Atom.any_accepts_iff, countAccepted]
          cases found : subject.get? i with
          | none => simp
          | some b =>
              by_cases accepted : a.accepts caseSensitive b = true
              · simpa [accepted] using ih (i := i + 1) (Nat.le_of_succ_le_succ few)
              · simp [accepted]

theorem zeroOrMore_allowed {a : Atom} (inside : i ≤ subject.size) (m : Nat) :
    Quantifier.zeroOrMore.Allows m ∧ a.Covers caseSensitive subject.toList i m ↔
      m ≤ countAccepted caseSensitive subject a (subject.size - i) i := by
  constructor
  · rintro ⟨-, covers⟩
    have := covers.le_length (by rwa [← Subject.size_eq])
    rw [← Subject.size_eq] at this
    exact (covers_iff_le_countAccepted (by omega)).1 covers
  · intro few
    have within := Nat.le_trans few (countAccepted_le (subject.size - i) i)
    exact ⟨trivial, (covers_iff_le_countAccepted within).2 few⟩

theorem zeroOrOne_allowed {a : Atom} (m : Nat) :
    Quantifier.zeroOrOne.Allows m ∧ a.Covers caseSensitive subject.toList i m ↔
      m ≤ countAccepted caseSensitive subject a 1 i := by
  constructor
  · rintro ⟨atMostOne, covers⟩
    exact (covers_iff_le_countAccepted atMostOne).1 covers
  · intro few
    have atMostOne := Nat.le_trans few (countAccepted_le 1 i)
    exact ⟨atMostOne, (covers_iff_le_countAccepted atMostOne).2 few⟩

/-- Trying what is behind a repetition with fewer and fewer bytes answers for the repetition. -/
theorem exists_giveBack_answers {q : Quantifier} {a : Atom} {count : Nat}
    {rest : Nat → Except Fault (Option Nat)}
    (allowed : ∀ m, q.Allows m ∧ a.Covers caseSensitive subject.toList i m ↔ m ≤ count)
    (tries : ∀ m, m ≤ count →
      ∃ r, rest (i + m) = .ok r ∧ Answers caseSensitive subject.toList nodes (i + m) r) :
    ∃ r, giveBack rest i count = .ok r ∧
      Answers caseSensitive subject.toList (.repetition q a :: nodes) i r := by
  obtain ⟨n, few, eq, larger, last⟩ := giveBack_spec rest i count
  obtain ⟨r, found, answers⟩ := tries n few
  refine ⟨r, eq.trans found, .repetition allowed few answers (fun m above below => ?_) ?_⟩
  · obtain ⟨r', found', answers'⟩ := tries m below
    rw [larger m above below] at found'
    obtain rfl := Except.ok.inj found'
    exact answers'
  · rintro rfl
    exact last found

/-- Running any number of an atom, given what running the code behind it answers. -/
theorem exists_run_zeroOrMore {a : Atom} {code : List Instr} {budget : Nat}
    (inside : i ≤ subject.size)
    (behind : ∀ j, j ≤ subject.size → ∃ r, run caseSensitive subject budget code j = .ok r ∧
      Answers caseSensitive subject.toList nodes j r) :
    ∃ r, run caseSensitive subject (budget + 1) (.closure :: .atom a :: .stop :: code) i = .ok r ∧
      Answers caseSensitive subject.toList (.repetition .zeroOrMore a :: nodes) i r := by
  rw [run_closure]
  refine exists_giveBack_answers (zeroOrMore_allowed inside) fun m few => behind (i + m) ?_
  exact add_le_of_le_countAccepted few inside

theorem exists_run_zeroOrOne {a : Atom} {code : List Instr} {budget : Nat}
    (inside : i ≤ subject.size)
    (behind : ∀ j, j ≤ subject.size → ∃ r, run caseSensitive subject budget code j = .ok r ∧
      Answers caseSensitive subject.toList nodes j r) :
    ∃ r, run caseSensitive subject (budget + 1) (.optional :: .atom a :: .stop :: code) i = .ok r ∧
      Answers caseSensitive subject.toList (.repetition .zeroOrOne a :: nodes) i r := by
  rw [run_optional]
  refine exists_giveBack_answers zeroOrOne_allowed fun m few => behind (i + m) ?_
  exact add_le_of_le_countAccepted few inside

end Matching

open Matching in
/-- With a level of its budget for each repetition, running the code of nodes answers for them. -/
theorem exists_run_answers (caseSensitive : Bool) {subject : Subject} (nodes : List Node)
    (i budget : Nat) (inside : i ≤ subject.size)
    (enough : (codeOf nodes).countP Instr.isRepetition ≤ budget) :
    ∃ r, run caseSensitive subject budget (codeOf nodes) i = .ok r ∧
      Answers caseSensitive subject.toList nodes i r := by
  induction nodes generalizing i budget with
  | nil => exact ⟨some i, run_stop inside, answers_nil⟩
  | cons node nodes ih =>
      rw [codeOf_cons, List.countP_append] at enough
      rw [codeOf_cons]
      cases node with
      | atom a =>
          show ∃ r, run _ _ _ (.atom a :: codeOf nodes) i = .ok r ∧ _
          rw [run_atom inside]
          by_cases accepted : (subject.get? i).any (a.accepts caseSensitive) = true
          · rw [if_pos accepted]
            obtain ⟨r, eq, answers⟩ := ih (i + 1) budget (lt_size_of_accepted accepted)
              (Nat.le_of_add_left_le enough)
            exact ⟨r, eq, answers.atom ((Atom.any_accepts_iff ..).1 accepted)⟩
          · rw [if_neg accepted]
            rw [Atom.any_accepts_iff] at accepted
            exact ⟨none, rfl, answers_atom_none accepted⟩
      | assertion a =>
          show ∃ r, run _ _ _ (.assertion a :: codeOf nodes) i = .ok r ∧ _
          rw [run_assertion inside]
          by_cases holds : a.holds subject i = true
          · rw [if_pos holds]
            obtain ⟨r, eq, answers⟩ := ih i budget inside (Nat.le_of_add_left_le enough)
            exact ⟨r, eq, answers.assertion ((a.holds_iff subject i).1 holds)⟩
          · rw [if_neg holds]
            rw [Assertion.holds_iff] at holds
            exact ⟨none, rfl, answers_assertion_none holds⟩
      | repetition q a =>
          have one : (Node.repetition q a).code.countP Instr.isRepetition = 1 := by
            cases q <;> rfl
          obtain ⟨budget, rfl⟩ : ∃ b, budget = b + 1 := ⟨budget - 1, by omega⟩
          have behind : ∀ j, j ≤ subject.size →
              ∃ r, run caseSensitive subject budget (codeOf nodes) j = .ok r ∧
                Answers caseSensitive subject.toList nodes j r :=
            fun j inside => ih j budget inside (by omega)
          cases q with
          | zeroOrMore => exact exists_run_zeroOrMore inside behind
          | zeroOrOne => exact exists_run_zeroOrOne inside behind
          | oneOrMore =>
              show ∃ r, run _ _ _ (.atom a :: .closure :: .atom a :: .stop :: codeOf nodes) i =
                .ok r ∧ _
              rw [run_atom inside]
              by_cases accepted : (subject.get? i).any (a.accepts caseSensitive) = true
              · rw [if_pos accepted]
                obtain ⟨r, eq, answers⟩ :=
                  exists_run_zeroOrMore (a := a) (lt_size_of_accepted accepted) behind
                exact ⟨r, eq, answers.oneOrMore ((Atom.any_accepts_iff ..).1 accepted)⟩
              · rw [if_neg accepted]
                rw [Atom.any_accepts_iff] at accepted
                exact ⟨none, rfl, answers_oneOrMore_none accepted⟩

/-! ## Compiled patterns -/

/-- What a compiled pattern matches at a position answers for its nodes. -/
theorem answers_matchEnd? {text : Bytes} {caseSensitive wildcard : Bool} {maxCells : Nat}
    {p : Program} {nodes : List Node}
    (compiled : compile text caseSensitive wildcard maxCells = .ok p)
    (parsed : parse caseSensitive (sourceText wildcard text) = .ok nodes) (subject : Subject)
    {i : Nat} (inside : i ≤ subject.size) :
    Answers caseSensitive subject.toList nodes i (p.matchEnd? subject i) := by
  obtain ⟨nodes', parsed', shape, rfl⟩ := exists_nodes_of_compile compiled
  obtain rfl : nodes' = nodes := Except.ok.inj (parsed'.symm.trans parsed)
  obtain ⟨r, eq, answers⟩ := exists_run_answers p.caseSensitive nodes' i p.repetitions inside
    (Nat.le_of_eq (by rw [Program.repetitions, shape]))
  have found : p.matchEnd? subject i = r := by
    simp [Program.matchEnd?, Program.run, shape, inside, eq]
  rwa [found]

/-- The length that a pattern reports, in terms of where its program says that the match ends. -/
theorem matchLength?_eq {q : Pattern} {p : Program} (program : q.program? = some p)
    (subject : Subject) (i : Nat) :
    q.matchLength? subject i = (p.matchEnd? subject i).map (· - i) := by
  simp [matchLength?, program]

/-- **Compiled patterns match greedily, and miss nothing.**  At a position there is a match exactly
when the nodes of the text have a decomposition from there, and the match ends where the greatest
one does. -/
theorem compile_greedy {text : Bytes} {caseSensitive : Bool} {maxCells : Nat} {p : Program}
    (compiled : compile text caseSensitive false maxCells = .ok p) :
    ∃ nodes, parse caseSensitive text = .ok nodes ∧
      ∀ (subject : Subject) (i : Nat), i ≤ subject.size →
        ((p.matchEnd? subject i).isSome = true ↔
          ∃ counts e, Decomposition caseSensitive subject.toList nodes i counts e) ∧
        (∀ e, p.matchEnd? subject i = some e ↔
          ∃ counts, Greatest caseSensitive subject.toList nodes i counts e) ∧
        ∀ q : Pattern, q.program? = some p → ∀ length, q.matchLength? subject i = some length ↔
          ∃ counts, Greatest caseSensitive subject.toList nodes i counts (i + length) := by
  obtain ⟨nodes, parsed, -, -⟩ := exists_nodes_of_compile compiled
  refine ⟨nodes, parsed, fun subject i inside => ?_⟩
  have answers := answers_matchEnd? compiled parsed subject inside
  refine ⟨answers.isSome_iff, fun e => answers.eq_some_iff, fun q program length => ?_⟩
  rw [matchLength?_eq program, ← answers.eq_some_iff]
  cases found : p.matchEnd? subject i with
  | none => simp
  | some e =>
      obtain ⟨counts, greatest⟩ := answers.eq_some_iff.1 found
      have forward := greatest.1.le
      simp only [Option.map_some, Option.some.injEq]
      omega

/-- `a*ab` on `aaab`: the greatest decomposition gives the repetition two bytes, not three. -/
theorem compile_greedy_gives_back :
    ∃ p, compile [0x61, 0x2a, 0x61, 0x62] true false 1024 = .ok p ∧
      ∃ nodes, parse true [0x61, 0x2a, 0x61, 0x62] = .ok nodes ∧
        (∃ counts, Greatest true [0x61, 0x61, 0x61, 0x62] nodes 0 counts 4) ∧
        matchLength? ⟨"a*ab", true, false, 1024, some p, none⟩ (.ofBytes [0x61, 0x61, 0x61, 0x62]) 0 =
          some 4 := by
  have compiled : compile [0x61, 0x2a, 0x61, 0x62] true false 1024 =
      .ok ⟨[.closure, .atom (.byte 0x61), .stop, .atom (.byte 0x61), .atom (.byte 0x62), .stop], 6,
        true⟩ := compile_eq_ok (by decide) (by cbv) rfl
  obtain ⟨nodes, parsed, matching⟩ := compile_greedy compiled
  obtain ⟨-, greatest, lengths⟩ := matching (.ofBytes [0x61, 0x61, 0x61, 0x62]) 0 (Nat.zero_le _)
  have best := (greatest 4).1 (by decide)
  exact ⟨_, compiled, nodes, parsed, best, (lengths _ rfl 4).2 best⟩

end Bytewise.Pattern
