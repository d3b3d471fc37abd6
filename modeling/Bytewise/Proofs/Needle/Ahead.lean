/-
# Bytewise.Proofs.Needle.Ahead -- needles that do not look behind

A subject may go on as another one does from some position on (`Subject.Continues`).
A walk from there sees the same bytes in both, and so it ends alike, as long as its
assertions hold alike (`Matching.run_add`).  Two cases matter:

* the end of the subject is the same in both, and a pattern that asserts nothing else
  only looks ahead (`LooksAhead`), as bytes do anyway;
* from position 0 on nothing lies behind, and every needle finds the same.

So such a needle occurs from a position on where it occurs in the bytes behind the
position (`matchLength?_add`, `find?_add`).
-/
import Bytewise.Proofs.Needle.Occurrences

namespace Bytewise

set_option autoImplicit false

open Pattern (Assertion Atom Instr Program Span)

/-- From position `k` on, `hay` is `rest`. -/
structure Subject.Continues (hay : Subject) (k : Nat) (rest : Subject) : Prop where
  size_eq : hay.size = k + rest.size
  get?_add : ∀ i, hay.get? (k + i) = rest.get? i

variable {hay rest : Subject} {k : Nat}

theorem Subject.continues_drop (inside : k ≤ hay.size) (bytes : Bytes)
    (same : hay.toList.drop k = bytes) : hay.Continues k (.ofBytes bytes) where
  size_eq := by
    rw [Subject.size_eq] at inside
    rw [Subject.size_eq, Subject.size_eq, Subject.toList_ofBytes, ← same, List.length_drop]
    omega
  get?_add i := by
    rw [Subject.get?_eq, Subject.get?_eq, Subject.toList_ofBytes, ← same, List.getElem?_drop]

/-! ## Walks -/

namespace Pattern

/-- The assertion holds at a position of the one where it holds in the other. -/
def Assertion.Alike (hay : Subject) (k : Nat) (rest : Subject) (a : Assertion) : Prop :=
  ∀ i, a.holds hay (k + i) = a.holds rest i

theorem Assertion.alike_subjectEnd (continues : hay.Continues k rest) :
    Assertion.subjectEnd.Alike hay k rest := by
  intro i
  rw [Assertion.holds, Assertion.holds, continues.size_eq, Bool.eq_iff_iff, beq_iff_eq, beq_iff_eq]
  omega

theorem Assertion.alike_zero (continues : hay.Continues 0 rest) (a : Assertion) :
    a.Alike hay 0 rest := by
  intro i
  have size : hay.size = rest.size := by rw [continues.size_eq, Nat.zero_add]
  have byte : ∀ j, hay.get? j = rest.get? j := by
    intro j
    rw [← continues.get?_add, Nat.zero_add]
  rw [Nat.zero_add]
  cases a <;> simp only [Assertion.holds, wordBefore, wordAt, size, byte]

namespace Matching

variable {caseSensitive : Bool}

theorem countAccepted_add (continues : hay.Continues k rest) (a : Atom) (limit i : Nat) :
    countAccepted caseSensitive hay a limit (k + i) =
      countAccepted caseSensitive rest a limit i := by
  induction limit generalizing i with
  | zero => rfl
  | succ limit ih =>
      rw [countAccepted, continues.get?_add, countAccepted, Nat.add_assoc, ih]

/-- The outcome of a walk, `k` positions further on. -/
def further (k : Nat) (outcome : Except Fault (Option Nat)) : Except Fault (Option Nat) :=
  outcome.map fun end? => end?.map (k + ·)

theorem giveBack_add {tries tries' : Nat → Except Fault (Option Nat)}
    (same : ∀ i, tries (k + i) = further k (tries' i)) (i count : Nat) :
    giveBack tries (k + i) count = further k (giveBack tries' i count) := by
  induction count with
  | zero => exact same i
  | succ count ih =>
      rw [giveBack, giveBack, Nat.add_assoc, same]
      cases tries' (i + (count + 1)) with
      | error fault => rfl
      | ok end? =>
          cases end? with
          | none => exact ih
          | some e => rfl

/-- A walk sees the same in both, whatever code it runs, well formed or not. -/
theorem run_add (continues : hay.Continues k rest) {code : List Instr} {budget i : Nat}
    (alike : ∀ a, Instr.assertion a ∈ code → a.Alike hay k rest) :
    run caseSensitive hay budget code (k + i) =
      further k (run caseSensitive rest budget code i) := by
  have beyond : ∀ {i}, k + i > hay.size ↔ i > rest.size := by
    intro i
    rw [continues.size_eq]
    omega
  -- a repetition runs what is three instructions further on, so the induction is on the length
  induction length : code.length using Nat.strongRecOn generalizing code budget i with
  | ind length' ih =>
      subst length
      have later : ∀ {code' : List Instr} {budget i : Nat}, code' <:+ code →
          code'.length < code.length → run caseSensitive hay budget code' (k + i) =
            further k (run caseSensitive rest budget code' i) :=
        fun behind shorter => ih _ shorter (fun a member => alike a (behind.subset member)) rfl
      fun_cases run caseSensitive rest budget code i
      case case1 | case4 => rfl
      case case2 inside =>
          rw [run, if_pos (Nat.not_lt.1 (mt beyond.1 (Nat.not_lt.2 inside)))]
          rfl
      case case3 outside =>
          rw [run, if_neg (Nat.not_le.2 (beyond.2 (Nat.not_le.1 outside)))]
          rfl
      case case5 outside =>
          rw [run, if_pos (beyond.2 outside)]
          rfl
      case case6 a code inside accepted =>
          rw [run, if_neg (mt beyond.1 inside), continues.get?_add, if_pos accepted, Nat.add_assoc]
          exact later (List.suffix_cons _ code) (Nat.lt_succ_self _)
      case case7 a code inside refused =>
          rw [run, if_neg (mt beyond.1 inside), continues.get?_add, if_neg refused]
          rfl
      case case8 outside =>
          rw [run, if_pos (beyond.2 outside)]
          rfl
      case case9 a code inside holds =>
          rw [run, if_neg (mt beyond.1 inside), alike a (by simp), if_pos holds]
          exact later (List.suffix_cons _ code) (Nat.lt_succ_self _)
      case case10 a code inside fails =>
          rw [run, if_neg (mt beyond.1 inside), alike a (by simp), if_neg fails]
          rfl
      case case11 | case13 => rfl
      case case12 a code budget =>
          have left : hay.size - (k + i) = rest.size - i := by
            rw [continues.size_eq, Nat.add_sub_add_left]
          rw [run_closure, countAccepted_add continues, left]
          exact giveBack_add (fun i => later ⟨[_, _, _], rfl⟩ (by simp; omega)) i _
      case case14 a code budget =>
          rw [run_optional, countAccepted_add continues]
          exact giveBack_add (fun i => later ⟨[_, _, _], rfl⟩ (by simp; omega)) i _
      case case15 code malformed | case16 code malformed =>
          rw [run]
          · rfl
          · exact malformed

end Matching

namespace Program

variable {p : Program}

theorem matchEnd?_add (continues : hay.Continues k rest)
    (alike : ∀ a, Instr.assertion a ∈ p.code → a.Alike hay k rest) (i : Nat) :
    p.matchEnd? hay (k + i) = (p.matchEnd? rest i).map (k + ·) := by
  have within : k + i ≤ hay.size ↔ i ≤ rest.size := by
    rw [continues.size_eq]
    omega
  rw [matchEnd?, matchEnd?]
  by_cases inside : i ≤ rest.size
  · rw [if_pos (within.2 inside), if_pos inside, Program.run, Matching.run_add continues alike]
    cases found : Matching.run p.caseSensitive rest p.repetitions p.code i with
    | error fault => simp only [Program.run, found, Matching.further, Except.map, Option.map_none]
    | ok end? => simp only [Program.run, found, Matching.further, Except.map]
  · rw [if_neg (mt within.1 inside), if_neg inside]
    rfl

end Program

end Pattern

/-! ## Needles -/

namespace Needle

variable {n : Needle}

/-- What the program of a pattern asserts holds alike; bytes assert nothing. -/
def Alike (hay : Subject) (k : Nat) (rest : Subject) : Needle → Prop
  | .pattern q => ∀ p, q.program? = some p → ∀ a, Instr.assertion a ∈ p.code → a.Alike hay k rest
  | _ => True

/-- The needle is no pattern that asserts anything but the end of the subject.  A pattern without a
program asserts nothing. -/
def LooksAhead : Needle → Prop
  | .pattern q => ∀ p, q.program? = some p → ∀ a, Instr.assertion a ∈ p.code → a = .subjectEnd
  | _ => True

theorem LooksAhead.alike (ahead : n.LooksAhead) (continues : hay.Continues k rest) :
    n.Alike hay k rest := by
  cases n with
  | pattern q =>
      intro p program a member
      obtain rfl := ahead p program a member
      exact Assertion.alike_subjectEnd continues
  | _ => trivial

theorem alike_zero (continues : hay.Continues 0 rest) : n.Alike hay 0 rest := by
  cases n with
  | pattern q => exact fun _ _ a _ => Assertion.alike_zero continues a
  | _ => trivial

theorem startsAt_add (continues : hay.Continues k rest) (same : UInt8 → UInt8 → Bool) (w : Bytes)
    (i : Nat) : startsAt same hay w (k + i) = startsAt same rest w i := by
  induction w generalizing i with
  | nil => rfl
  | cons b w ih => rw [startsAt, continues.get?_add, startsAt, Nat.add_assoc, ih]

theorem matchLength?_add (continues : hay.Continues k rest) (alike : n.Alike hay k rest) (i : Nat) :
    n.matchLength? hay (k + i) = n.matchLength? rest i := by
  cases n with
  | byte b => rw [matchLength?, matchLength?, continues.get?_add]
  | bytes w => rw [matchLength?, matchLength?, startsAt_add continues]
  | ignoringCase w => rw [matchLength?, matchLength?, startsAt_add continues]
  | pattern q =>
      rw [matchLength?, matchLength?, Pattern.matchLength?, Pattern.matchLength?]
      refine Option.bind_congr fun p program => ?_
      rw [Program.matchEnd?_add continues (alike p program), Option.map_map]
      refine congrFun (congrArg Option.map (funext fun e => ?_)) _
      exact Nat.add_sub_add_left k e i

/-- The span, `k` positions further on. -/
def shifted (k : Nat) (span : Span) : Span := ⟨k + span.start, span.length⟩

theorem find?_add (continues : hay.Continues k rest) (alike : n.Alike hay k rest) (i : Nat) :
    n.find? hay (k + i) = (n.find? rest i).map (shifted k) := by
  have positions : hay.size + 1 - (k + i) = rest.size + 1 - i := by
    rw [continues.size_eq]
    omega
  have spans : n.spanAt? hay ∘ (k + ·) = Option.map (shifted k) ∘ n.spanAt? rest := by
    funext j
    rw [Function.comp_apply, Function.comp_apply, spanAt?, matchLength?_add continues alike, spanAt?,
      Option.map_map]
    rfl
  rw [find?_eq_findSome?, find?_eq_findSome?, positions, ← List.map_add_range', List.findSome?_map,
    spans, List.map_findSome?]

/-- What is found depends on the bytes only. -/
theorem find?_ofBytes (s : Subject) (i : Nat) : n.find? s i = n.find? (.ofBytes s.toList) i := by
  have continues : s.Continues 0 (.ofBytes s.toList) :=
    Subject.continues_drop (Nat.zero_le _) _ List.drop_zero
  have found := find?_add continues (alike_zero (n := n) continues) i
  rw [Nat.zero_add] at found
  rw [found]
  cases n.find? (.ofBytes s.toList) i with
  | none => rfl
  | some span => rw [Option.map_some, shifted, Nat.zero_add]

end Needle

end Bytewise
