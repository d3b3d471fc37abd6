/-
# Bytewise.Proofs.Pattern.Decomposition -- how nodes divide a stretch of bytes

What a list of nodes means, said of plain bytes and without a program.  A
decomposition gives every node, from left to right, the bytes that it takes: an
atom one byte that it accepts, an assertion none, a repetition as many accepted
bytes as its quantifier allows.  Assertions hold at positions of the whole
subject.  The choices that are left are the counts of the repetitions, and
`Decomposition caseSensitive s nodes i counts e` keeps them in order.

* `Decomposition.le` and `Decomposition.le_length`: the end lies between the
  start and the end of the bytes;
* `Greatest` picks the decomposition whose counts are greatest, read from left
  to right;
* `holds_iff` and `any_accepts_iff`: the tests that a walk makes on a subject
  are these relations on the bytes that it shows.
-/
import Bytewise.Pattern.Basic
import Bytewise.Proofs.Byte.Case

namespace Bytewise.Pattern

set_option autoImplicit false

/-! ## Single bytes and positions -/

/-- ASCII digits, letters and the underscore. -/
def WordByte (b : UInt8) : Prop :=
  (0x30 ≤ b ∧ b ≤ 0x39) ∨ (0x41 ≤ b ∧ b ≤ 0x5a) ∨ (0x61 ≤ b ∧ b ≤ 0x7a) ∨ b = 0x5f

def WordBefore (s : Bytes) (i : Nat) : Prop := ∃ j b, i = j + 1 ∧ s[j]? = some b ∧ WordByte b

def WordAt (s : Bytes) (i : Nat) : Prop := ∃ b, s[i]? = some b ∧ WordByte b

/-- The meaning of an assertion at a position of the whole subject. -/
def Assertion.Holds (s : Bytes) (i : Nat) : Assertion → Prop
  | .subjectStart => i = 0
  | .subjectEnd => i = s.length
  | .wordStart => ¬ WordBefore s i ∧ WordAt s i
  | .wordEnd => WordBefore s i ∧ ¬ WordAt s i
  | .wordEdge => ¬ (WordBefore s i ↔ WordAt s i)

/-- The meaning of an atom.  Only a byte atom asks about case: it takes its own byte, and where case
is ignored each byte whose lower case that is. -/
def Atom.Accepts (caseSensitive : Bool) (b : UInt8) : Atom → Prop
  | .byte c => if caseSensitive then b = c else Byte.Lowered b c
  | .any => True
  | .set members => b ∈ members

/-- There is a byte at position `i`, and the atom accepts it. -/
def Atom.AcceptsAt (caseSensitive : Bool) (s : Bytes) (a : Atom) (i : Nat) : Prop :=
  ∃ b, s[i]? = some b ∧ a.Accepts caseSensitive b

/-- The atom accepts each of the `n` bytes from `i` on. -/
def Atom.Covers (caseSensitive : Bool) (s : Bytes) (a : Atom) (i n : Nat) : Prop :=
  ∀ k, k < n → a.AcceptsAt caseSensitive s (i + k)

/-- How many bytes a repetition may take. -/
def Quantifier.Allows : Quantifier → Nat → Prop
  | .zeroOrMore, _ => True
  | .oneOrMore, n => 1 ≤ n
  | .zeroOrOne, n => n ≤ 1

/-! ## Decompositions -/

/-- The nodes divide the bytes from `i` to `e` among themselves; `counts` are the numbers of bytes
that the repetitions take, from left to right. -/
inductive Decomposition (caseSensitive : Bool) (s : Bytes) :
    List Node → Nat → List Nat → Nat → Prop
  | nil (i : Nat) : Decomposition caseSensitive s [] i [] i
  | atom {a : Atom} {nodes : List Node} {i e : Nat} {counts : List Nat} :
      a.AcceptsAt caseSensitive s i →
      Decomposition caseSensitive s nodes (i + 1) counts e →
      Decomposition caseSensitive s (.atom a :: nodes) i counts e
  | assertion {a : Assertion} {nodes : List Node} {i e : Nat} {counts : List Nat} :
      a.Holds s i →
      Decomposition caseSensitive s nodes i counts e →
      Decomposition caseSensitive s (.assertion a :: nodes) i counts e
  | repetition {q : Quantifier} {a : Atom} {nodes : List Node} {i n e : Nat} {counts : List Nat} :
      q.Allows n → a.Covers caseSensitive s i n →
      Decomposition caseSensitive s nodes (i + n) counts e →
      Decomposition caseSensitive s (.repetition q a :: nodes) i (n :: counts) e

/-- A decomposition from `i` whose counts are greatest in the order that compares the first
difference from the left. -/
def Greatest (caseSensitive : Bool) (s : Bytes) (nodes : List Node) (i : Nat) (counts : List Nat)
    (e : Nat) : Prop :=
  Decomposition caseSensitive s nodes i counts e ∧
    ∀ counts' e', Decomposition caseSensitive s nodes i counts' e' →
      counts' = counts ∨ List.Lex (· < ·) counts' counts

section

variable {caseSensitive : Bool} {s : Bytes} {nodes : List Node} {i e : Nat} {counts : List Nat}

@[simp] theorem decomposition_nil_iff :
    Decomposition caseSensitive s [] i counts e ↔ counts = [] ∧ e = i := by
  constructor
  · rintro ⟨⟩
    exact ⟨rfl, rfl⟩
  · rintro ⟨rfl, rfl⟩
    exact .nil _

@[simp] theorem decomposition_atom_iff {a : Atom} :
    Decomposition caseSensitive s (.atom a :: nodes) i counts e ↔
      a.AcceptsAt caseSensitive s i ∧ Decomposition caseSensitive s nodes (i + 1) counts e := by
  constructor
  · intro d
    cases d with
    | atom accepted rest => exact ⟨accepted, rest⟩
  · rintro ⟨accepted, rest⟩
    exact .atom accepted rest

@[simp] theorem decomposition_assertion_iff {a : Assertion} :
    Decomposition caseSensitive s (.assertion a :: nodes) i counts e ↔
      a.Holds s i ∧ Decomposition caseSensitive s nodes i counts e := by
  constructor
  · intro d
    cases d with
    | assertion holds rest => exact ⟨holds, rest⟩
  · rintro ⟨holds, rest⟩
    exact .assertion holds rest

theorem decomposition_repetition_iff {q : Quantifier} {a : Atom} :
    Decomposition caseSensitive s (.repetition q a :: nodes) i counts e ↔
      ∃ n rest, counts = n :: rest ∧ q.Allows n ∧ a.Covers caseSensitive s i n ∧
        Decomposition caseSensitive s nodes (i + n) rest e := by
  constructor
  · intro d
    cases d with
    | repetition allowed covers rest => exact ⟨_, _, rfl, allowed, covers, rest⟩
  · rintro ⟨n, rest, rfl, allowed, covers, d⟩
    exact .repetition allowed covers d

namespace Decomposition

theorem le (d : Decomposition caseSensitive s nodes i counts e) : i ≤ e := by
  induction d with
  | nil i => exact Nat.le_refl i
  | atom _ _ ih => omega
  | assertion _ _ ih => exact ih
  | repetition _ _ _ ih => omega

end Decomposition

/-! ## Accepted stretches -/

namespace Atom

variable {a : Atom}

theorem AcceptsAt.lt_length (accepted : a.AcceptsAt caseSensitive s i) : i < s.length := by
  obtain ⟨b, found, -⟩ := accepted
  exact (List.getElem?_eq_some_iff.1 found).1

theorem covers_zero : a.Covers caseSensitive s i 0 := by
  intro k below
  omega

theorem covers_succ_iff {n : Nat} :
    a.Covers caseSensitive s i (n + 1) ↔
      a.AcceptsAt caseSensitive s i ∧ a.Covers caseSensitive s (i + 1) n := by
  constructor
  · intro covers
    refine ⟨covers 0 (Nat.succ_pos n), fun k below => ?_⟩
    have := covers (k + 1) (by omega)
    rwa [show i + (k + 1) = i + 1 + k by omega] at this
  · rintro ⟨accepted, covers⟩ k below
    cases k with
    | zero => exact accepted
    | succ k =>
        have := covers k (by omega)
        rwa [show i + (k + 1) = i + 1 + k by omega]

/-- A stretch that starts and stops inside an accepted one is accepted. -/
theorem Covers.sub {n j m : Nat} (covers : a.Covers caseSensitive s i n) (start : i ≤ j)
    (stop : j + m ≤ i + n) : a.Covers caseSensitive s j m := by
  intro k below
  have := covers (j + k - i) (by omega)
  rwa [show i + (j + k - i) = j + k by omega] at this

theorem Covers.le_length {n : Nat} (covers : a.Covers caseSensitive s i n) (inside : i ≤ s.length) :
    i + n ≤ s.length := by
  cases n with
  | zero => exact inside
  | succ n => exact (covers n (Nat.lt_succ_self n)).lt_length

end Atom

theorem Decomposition.le_length (d : Decomposition caseSensitive s nodes i counts e)
    (inside : i ≤ s.length) : e ≤ s.length := by
  induction d with
  | nil i => exact inside
  | atom accepted _ ih => exact ih accepted.lt_length
  | assertion _ _ ih => exact ih inside
  | repetition _ covers _ ih => exact ih (covers.le_length inside)

end

/-! ## The tests of a walk -/

theorem isWord_iff (b : UInt8) : Byte.isWord b = true ↔ WordByte b := by
  simp only [Byte.isWord, Byte.isLetter, Byte.isUpper, Byte.isLower, Byte.isDigit, Byte.underscore,
    WordByte, Bool.or_eq_true, Bool.and_eq_true, decide_eq_true_eq, beq_iff_eq]
  grind

theorem wordBefore_iff (subject : Subject) (i : Nat) :
    wordBefore subject i = true ↔ WordBefore subject.toList i := by
  cases i with
  | zero => simp [wordBefore, WordBefore]
  | succ j =>
      simp [wordBefore, WordBefore, Subject.get?_eq, Option.any_eq_true, isWord_iff]

theorem wordAt_iff (subject : Subject) (i : Nat) :
    wordAt subject i = true ↔ WordAt subject.toList i := by
  simp [wordAt, WordAt, Subject.get?_eq, Option.any_eq_true, isWord_iff]

theorem Assertion.holds_iff (subject : Subject) (i : Nat) (a : Assertion) :
    a.holds subject i = true ↔ a.Holds subject.toList i := by
  have before := wordBefore_iff subject i
  have at_ := wordAt_iff subject i
  cases a with
  | subjectStart => simp [Assertion.holds, Assertion.Holds]
  | subjectEnd => simp [Assertion.holds, Assertion.Holds, Subject.size_eq]
  | wordStart => simp [Assertion.holds, Assertion.Holds, ← before, ← at_]
  | wordEnd => simp [Assertion.holds, Assertion.Holds, ← before, ← at_]
  | wordEdge =>
      simp only [Assertion.holds, Assertion.Holds, ← before, ← at_]
      cases wordBefore subject i <;> cases wordAt subject i <;> decide

theorem Atom.accepts_iff (caseSensitive : Bool) (b : UInt8) (a : Atom) :
    a.accepts caseSensitive b = true ↔ a.Accepts caseSensitive b := by
  cases a with
  | byte c => exact beq_iff_eq.trans Byte.fold_eq_iff
  | any => simp [Atom.accepts, Atom.Accepts]
  | set members => rfl

theorem Atom.any_accepts_iff (caseSensitive : Bool) (subject : Subject) (a : Atom) (i : Nat) :
    (subject.get? i).any (a.accepts caseSensitive) = true ↔
      a.AcceptsAt caseSensitive subject.toList i := by
  simp [Atom.AcceptsAt, Subject.get?_eq, Option.any_eq_true, Atom.accepts_iff]

end Bytewise.Pattern
