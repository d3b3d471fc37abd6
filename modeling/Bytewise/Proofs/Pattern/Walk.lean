/-
# Bytewise.Proofs.Pattern.Walk -- what a walk over a program can meet

A walk stands at an instruction (`pc`), at a position of the subject, inside
some number of repetitions (`depth`).  `Step` says where it can go from there: a
repetition takes any number of the bytes that its atom accepts and goes on
three instructions later, one level deeper, so `Reaches` covers every place that
greedy matching tries before it gives up.

* `Safe` holds where a walk starts and is kept by every step (`Step.safe`), so
  it holds wherever a walk comes (`Reaches.safe`);
* `Safe.readable`: whatever a safe walk reads is there;
* `acc_step`: no walk goes on for ever;
* `exists_run_eq_ok`: on a well-formed program, matching never ends in a fault,
  and a match ends where a walk has come to the last `stop`.
-/
import Mathlib.Logic.Relation
import Bytewise.Proofs.Pattern.Folding

namespace Bytewise.Pattern

set_option autoImplicit false

/-! ## Places and steps -/

/-- Where a walk stands: an instruction, a position, and the repetitions that it is inside of. -/
structure Place where
  pc : Nat
  position : Nat
  depth : Nat

inductive Step (p : Program) (subject : Subject) : Place → Place → Prop
  | atom {pc i depth : Nat} {a : Atom} :
      p.code[pc]? = some (.atom a) →
      (subject.get? i).any (a.accepts p.caseSensitive) = true →
      Step p subject ⟨pc, i, depth⟩ ⟨pc + 1, i + 1, depth⟩
  | assertion {pc i depth : Nat} {a : Assertion} :
      p.code[pc]? = some (.assertion a) →
      a.holds subject i = true →
      Step p subject ⟨pc, i, depth⟩ ⟨pc + 1, i, depth⟩
  | closure {pc i depth n : Nat} {a : Atom} :
      p.code[pc]? = some .closure →
      p.code[pc + 1]? = some (.atom a) →
      n ≤ Matching.countAccepted p.caseSensitive subject a (subject.size - i) i →
      Step p subject ⟨pc, i, depth⟩ ⟨pc + 3, i + n, depth + 1⟩
  | optional {pc i depth n : Nat} {a : Atom} :
      p.code[pc]? = some .optional →
      p.code[pc + 1]? = some (.atom a) →
      n ≤ Matching.countAccepted p.caseSensitive subject a 1 i →
      Step p subject ⟨pc, i, depth⟩ ⟨pc + 3, i + n, depth + 1⟩

/-- Where a walk from one place can come. -/
def Reaches (p : Program) (subject : Subject) : Place → Place → Prop :=
  Relation.ReflTransGen (Step p subject)

/-- The walk stands where an item begins, between its start and the end of the subject, inside as
many repetitions as there are before it. -/
structure Safe (p : Program) (subject : Subject) (start : Nat) (place : Place) : Prop where
  located : ∃ rest, Located p place.pc rest
  start_le : start ≤ place.position
  le_size : place.position ≤ subject.size
  depth_eq : place.depth = (p.code.take place.pc).countP Instr.isRepetition

/-- A repetition begins at `pc`: behind it stand its atom, its `stop` and more code, and there is a
repetition for the level that it adds. -/
def Repeats (p : Program) (place : Place) : Prop :=
  (∃ a, p.code[place.pc + 1]? = some (.atom a)) ∧ p.code[place.pc + 2]? = some .stop ∧
    place.pc + 3 < p.code.length ∧ place.depth + 1 ≤ p.repetitions

/-- Whatever a walk reads here is there: an instruction, which is a `stop` only at the end of the
program, and all of a repetition that begins here. -/
structure Readable (p : Program) (place : Place) : Prop where
  pc_lt : place.pc < p.code.length
  stop_last : p.code[place.pc]? = some .stop → place.pc + 1 = p.code.length
  depth_le : place.depth ≤ p.repetitions
  closure : p.code[place.pc]? = some .closure → Repeats p place
  optional : p.code[place.pc]? = some .optional → Repeats p place

/-! ## Accepted bytes of a subject -/

namespace Matching

variable {caseSensitive : Bool} {subject : Subject} {a : Atom}

theorem lt_size_of_get? {i : Nat} {b : UInt8} (found : subject.get? i = some b) :
    i < subject.size := by
  rw [Subject.get?_eq] at found
  rw [Subject.size_eq]
  exact (List.getElem?_eq_some_iff.1 found).1

theorem lt_size_of_accepted {i : Nat}
    (accepted : (subject.get? i).any (a.accepts caseSensitive) = true) : i < subject.size := by
  obtain ⟨b, found, -⟩ := (Option.any_eq_true _ _).1 accepted
  exact lt_size_of_get? found

theorem countAccepted_le (limit i : Nat) :
    countAccepted caseSensitive subject a limit i ≤ limit := by
  fun_induction countAccepted caseSensitive subject a limit i with
  | case1 => exact Nat.le_refl 0
  | case2 => exact Nat.zero_le _
  | case3 limit i b found accepted ih => exact Nat.succ_le_succ ih
  | case4 => exact Nat.zero_le _

/-- Accepted bytes are bytes of the subject. -/
theorem add_countAccepted_le (limit : Nat) {i : Nat} (inside : i ≤ subject.size) :
    i + countAccepted caseSensitive subject a limit i ≤ subject.size := by
  fun_induction countAccepted caseSensitive subject a limit i with
  | case1 => exact inside
  | case2 => exact inside
  | case3 limit i b found accepted ih =>
      have := ih (lt_size_of_get? found)
      omega
  | case4 => exact inside

theorem add_le_of_le_countAccepted {limit i n : Nat}
    (few : n ≤ countAccepted caseSensitive subject a limit i) (inside : i ≤ subject.size) :
    i + n ≤ subject.size :=
  Nat.le_trans (Nat.add_le_add_left few i) (add_countAccepted_le limit inside)

/-- Giving back ends at one of the tries, and no longer one has found anything. -/
theorem giveBack_spec (rest : Nat → Except Fault (Option Nat)) (start count : Nat) :
    ∃ n, n ≤ count ∧ giveBack rest start count = rest (start + n) ∧
      (∀ m, n < m → m ≤ count → rest (start + m) = .ok none) ∧
      (rest (start + n) = .ok none → n = 0) := by
  induction count with
  | zero => exact ⟨0, Nat.le_refl 0, rfl, fun m above below => by omega, fun _ => rfl⟩
  | succ count ih =>
      by_cases nothing : rest (start + (count + 1)) = .ok none
      · obtain ⟨n, le, eq, larger, last⟩ := ih
        refine ⟨n, by omega, ?_, ?_, last⟩
        · simp only [giveBack, nothing, eq]
        · intro m above below
          by_cases top : m = count + 1
          · rw [top, nothing]
          · exact larger m above (by omega)
      · refine ⟨count + 1, Nat.le_refl _, ?_, fun m above below => by omega, ?_⟩
        · unfold giveBack
          split
          · rename_i found
            exact absurd found nothing
          · rfl
        · intro found
          exact absurd found nothing

/-! ## Running one item -/

theorem run_stop {budget i : Nat} (inside : i ≤ subject.size) :
    run caseSensitive subject budget [.stop] i = .ok (some i) := by
  simp [run, inside]

theorem run_atom {budget i : Nat} {code : List Instr} (inside : i ≤ subject.size) :
    run caseSensitive subject budget (.atom a :: code) i =
      if (subject.get? i).any (a.accepts caseSensitive) then
        run caseSensitive subject budget code (i + 1)
      else .ok none := by
  simp [run, Nat.not_lt.2 inside]

theorem run_assertion {budget i : Nat} {code : List Instr} {a : Assertion}
    (inside : i ≤ subject.size) :
    run caseSensitive subject budget (.assertion a :: code) i =
      if a.holds subject i then run caseSensitive subject budget code i else .ok none := by
  simp [run, Nat.not_lt.2 inside]

theorem run_closure (budget i : Nat) (code : List Instr) :
    run caseSensitive subject (budget + 1) (.closure :: .atom a :: .stop :: code) i =
      giveBack (run caseSensitive subject budget code) i
        (countAccepted caseSensitive subject a (subject.size - i) i) := rfl

theorem run_optional (budget i : Nat) (code : List Instr) :
    run caseSensitive subject (budget + 1) (.optional :: .atom a :: .stop :: code) i =
      giveBack (run caseSensitive subject budget code) i
        (countAccepted caseSensitive subject a 1 i) := rfl

/-! ## Where a match of any code ends -/

/-- What giving back has found, one of the tries has found. -/
theorem exists_of_giveBack {rest : Nat → Except Fault (Option Nat)} {start count e : Nat}
    (found : giveBack rest start count = .ok (some e)) : ∃ i, rest i = .ok (some e) := by
  obtain ⟨n, -, eq, -, -⟩ := giveBack_spec rest start count
  exact ⟨start + n, eq.symm.trans found⟩

/-- No code, whether a pattern stands behind it or not, matches beyond the subject. -/
theorem le_size_of_run {code : List Instr} {budget i e : Nat}
    (found : run caseSensitive subject budget code i = .ok (some e)) : e ≤ subject.size := by
  -- a repetition runs what is three instructions further on, so the induction is on the length
  induction length : code.length using Nat.strongRecOn generalizing code budget i with
  | ind length' ih =>
      subst length
      unfold run at found
      split at found
      case h_2 =>
          -- the last `stop`
          split at found
          · cases found
            assumption
          · cases found
      case h_4 =>
          -- an atom
          split at found
          · cases found
          · split at found
            · exact ih _ (by simp) found rfl
            · cases found
      case h_5 =>
          -- an assertion
          split at found
          · cases found
          · split at found
            · exact ih _ (by simp) found rfl
            · cases found
      case h_6 =>
          -- any number of an atom
          split at found
          · cases found
          · obtain ⟨j, tried⟩ := exists_of_giveBack found
            exact ih _ (by simp; omega) tried rfl
      case h_7 =>
          -- an atom that may be missing
          split at found
          · cases found
          · obtain ⟨j, tried⟩ := exists_of_giveBack found
            exact ih _ (by simp; omega) tried rfl
      all_goals cases found

end Matching

/-- A match starts and ends inside the subject. -/
theorem Program.le_size_of_matchEnd? {p : Program} {subject : Subject} {i e : Nat}
    (found : p.matchEnd? subject i = some e) : i ≤ subject.size ∧ e ≤ subject.size := by
  rw [matchEnd?] at found
  split at found
  · rename_i inside
    refine ⟨inside, ?_⟩
    split at found
    · rename_i answer eq
      subst found
      exact Matching.le_size_of_run eq
    · cases found
  · cases found

/-! ## One step -/

section

variable {p : Program} {subject : Subject} {start : Nat} {place next : Place}

/-- A step goes from an item to the item behind it, over bytes of the subject. -/
theorem Step.over_item {rest : List Item} (located : Located p place.pc rest)
    (step : Step p subject place next) :
    ∃ item behind, rest = item :: behind ∧ next.pc = place.pc + item.code.length ∧
      place.position ≤ next.position ∧
      (place.position ≤ subject.size → next.position ≤ subject.size) ∧
      next.depth = place.depth + item.code.countP Instr.isRepetition := by
  cases step with
  | @atom pc i depth a found accepted =>
      rw [located.getElem?] at found
      have below := Matching.lt_size_of_accepted accepted
      match rest, found with
      | .atom a :: behind, _ => exact ⟨_, behind, rfl, rfl, Nat.le_succ i, fun _ => below, rfl⟩
  | @assertion pc i depth a found holds =>
      rw [located.getElem?] at found
      match rest, found with
      | .assertion a :: behind, _ => exact ⟨_, behind, rfl, rfl, Nat.le_refl i, id, rfl⟩
  | @closure pc i depth n a found unit few =>
      rw [located.getElem?] at found
      match rest, found with
      | .closure a :: behind, _ =>
          exact ⟨_, behind, rfl, rfl, Nat.le_add_right i n,
            Matching.add_le_of_le_countAccepted few, rfl⟩
  | @optional pc i depth n a found unit few =>
      rw [located.getElem?] at found
      match rest, found with
      | .optional a :: behind, _ =>
          exact ⟨_, behind, rfl, rfl, Nat.le_add_right i n,
            Matching.add_le_of_le_countAccepted few, rfl⟩

theorem Step.safe (safe : Safe p subject start place) (step : Step p subject place next) :
    Safe p subject start next := by
  obtain ⟨rest, located⟩ := safe.located
  obtain ⟨item, behind, rfl, pc, forward, inside, depth⟩ := step.over_item located
  refine ⟨⟨behind, ?_⟩, Nat.le_trans safe.start_le forward, inside safe.le_size, ?_⟩
  · rw [pc]
    exact located.next
  · rw [depth, safe.depth_eq, pc, located.countP_take_next]

/-! ## Whole walks -/

theorem Reaches.safe (safe : Safe p subject start place) (reaches : Reaches p subject place next) :
    Safe p subject start next := by
  induction reaches with
  | refl => exact safe
  | tail _ step ih => exact step.safe ih

theorem Safe.ofStart {items : List Item} (shape : p.code = Item.layout items)
    (inside : start ≤ subject.size) : Safe p subject start ⟨0, start, 0⟩ :=
  ⟨⟨items, .zero shape⟩, Nat.le_refl start, inside, rfl⟩

/-- An item of three instructions that repeats its atom. -/
theorem Safe.repeats {item : Item} {behind : List Item} {first : Instr} {a : Atom}
    (safe : Safe p subject start place) (located : Located p place.pc (item :: behind))
    (triple : item.code = [first, .atom a, .stop]) (repetition : first.isRepetition = true) :
    Repeats p place := by
  have unit := located.getElem?_add 1
  have close := located.getElem?_add 2
  have inside := located.next.pc_lt
  have reps := located.repetitions
  have depth := safe.depth_eq
  have one : item.code.countP Instr.isRepetition = 1 := by
    rw [triple, List.countP_cons_of_pos repetition]
    rfl
  rw [Item.layout_cons, List.countP_append, one] at reps
  rw [Item.layout_cons, triple] at unit close
  rw [triple] at inside
  exact ⟨⟨a, unit⟩, close, inside, by omega⟩

theorem Safe.readable (safe : Safe p subject start place) : Readable p place := by
  obtain ⟨rest, located⟩ := safe.located
  have inside := located.pc_lt
  have depth_le : place.depth ≤ p.repetitions := by
    have reps := located.repetitions
    have depth := safe.depth_eq
    omega
  have here := located.getElem?
  cases rest with
  | nil =>
      have atStop : p.code[place.pc]? = some .stop := here
      refine ⟨inside, fun _ => located.length.symm, depth_le, ?_, ?_⟩ <;> intro found <;>
        simp [atStop] at found
  | cons item behind =>
      cases item with
      | atom a =>
          have atAtom : p.code[place.pc]? = some (.atom a) := here
          refine ⟨inside, ?_, depth_le, ?_, ?_⟩ <;> intro found <;> simp [atAtom] at found
      | assertion a =>
          have atAssertion : p.code[place.pc]? = some (.assertion a) := here
          refine ⟨inside, ?_, depth_le, ?_, ?_⟩ <;> intro found <;> simp [atAssertion] at found
      | closure a =>
          have repeats := safe.repeats located rfl rfl
          have atClosure : p.code[place.pc]? = some .closure := here
          exact ⟨inside, fun found => by simp [atClosure] at found, depth_le, fun _ => repeats,
            fun _ => repeats⟩
      | optional a =>
          have repeats := safe.repeats located rfl rfl
          have atOptional : p.code[place.pc]? = some .optional := here
          exact ⟨inside, fun found => by simp [atOptional] at found, depth_le, fun _ => repeats,
            fun _ => repeats⟩

theorem Step.pc_lt (step : Step p subject place next) :
    place.pc < next.pc ∧ place.pc < p.code.length := by
  cases step with
  | atom found _ => exact ⟨Nat.lt_succ_self _, (List.getElem?_eq_some_iff.1 found).1⟩
  | assertion found _ => exact ⟨Nat.lt_succ_self _, (List.getElem?_eq_some_iff.1 found).1⟩
  | closure found _ _ => exact ⟨by simp, (List.getElem?_eq_some_iff.1 found).1⟩
  | optional found _ _ => exact ⟨by simp, (List.getElem?_eq_some_iff.1 found).1⟩

/-- The code that is left gets shorter with every step, whatever the subject. -/
theorem acc_step (place : Place) : Acc (fun next place => Step p subject place next) place := by
  have smaller : Subrelation (fun next place => Step p subject place next)
      (InvImage (· < ·) fun place : Place => p.code.length - place.pc) := by
    intro next place step
    have := step.pc_lt
    simp only [InvImage]
    omega
  exact (smaller.wf (InvImage.wf _ Nat.lt_wfRel.wf)).apply place

/-! ## Matching -/

/-- A match from `place` on stops where a walk from there has come to a `stop`. -/
def EndsWalk (p : Program) (subject : Subject) (place : Place) (found : Option Nat) : Prop :=
  ∀ stop, found = some stop →
    ∃ last, Reaches p subject place last ∧ p.code[last.pc]? = some .stop ∧ last.position = stop

theorem EndsWalk.head {found : Option Nat} (step : Step p subject place next)
    (ends : EndsWalk p subject next found) : EndsWalk p subject place found := by
  intro stop eq
  obtain ⟨last, reaches, atStop, position⟩ := ends stop eq
  exact ⟨last, .head step reaches, atStop, position⟩

/-- Giving back ends at one of the tries, and a walk has come to where that one begins. -/
theorem exists_giveBack_ends {rest : Nat → Except Matching.Fault (Option Nat)} {pc i depth count : Nat}
    (step : ∀ n, n ≤ count → Step p subject ⟨pc, i, depth⟩ ⟨pc + 3, i + n, depth + 1⟩)
    (tries : ∀ n, n ≤ count →
      ∃ found, rest (i + n) = .ok found ∧ EndsWalk p subject ⟨pc + 3, i + n, depth + 1⟩ found) :
    ∃ found, Matching.giveBack rest i count = .ok found ∧
      EndsWalk p subject ⟨pc, i, depth⟩ found := by
  obtain ⟨n, few, eq, -, -⟩ := Matching.giveBack_spec rest i count
  obtain ⟨found, run, ends⟩ := tries n few
  exact ⟨found, eq.trans run, ends.head (step n few)⟩

/-- From an item on, a budget of one level for each repetition that is left is enough to come to
an answer. -/
theorem exists_run_eq_ok {rest : List Item} (pc i depth budget : Nat)
    (located : Located p pc rest) (inside : i ≤ subject.size)
    (enough : (Item.layout rest).countP Instr.isRepetition ≤ budget) :
    ∃ found, Matching.run p.caseSensitive subject budget (Item.layout rest) i = .ok found ∧
      EndsWalk p subject ⟨pc, i, depth⟩ found := by
  induction rest generalizing pc i depth budget with
  | nil =>
      refine ⟨some i, Matching.run_stop inside, fun stop eq => ?_⟩
      exact ⟨_, .refl, located.getElem?, Option.some.inj eq⟩
  | cons item behind ih =>
      have next := located.next
      have here := located.getElem?
      have unit := located.getElem?_add 1
      simp only [Item.layout_cons, List.countP_append] at enough
      cases item with
      | atom a =>
          show ∃ found, Matching.run _ _ _ (.atom a :: Item.layout behind) i = .ok found ∧ _
          rw [Matching.run_atom inside]
          by_cases accepted : (subject.get? i).any (a.accepts p.caseSensitive) = true
          · obtain ⟨found, run, ends⟩ := ih (pc + 1) (i + 1) depth budget next
              (Matching.lt_size_of_accepted accepted) (Nat.le_of_add_left_le enough)
            exact ⟨found, by rw [if_pos accepted, run], ends.head (.atom here accepted)⟩
          · exact ⟨none, by rw [if_neg accepted], fun stop eq => by cases eq⟩
      | assertion a =>
          show ∃ found, Matching.run _ _ _ (.assertion a :: Item.layout behind) i = .ok found ∧ _
          rw [Matching.run_assertion inside]
          by_cases holds : a.holds subject i = true
          · obtain ⟨found, run, ends⟩ := ih (pc + 1) i depth budget next inside
              (Nat.le_of_add_left_le enough)
            exact ⟨found, by rw [if_pos holds, run], ends.head (.assertion here holds)⟩
          · exact ⟨none, by rw [if_neg holds], fun stop eq => by cases eq⟩
      | closure a =>
          have one : (Item.closure a).code.countP Instr.isRepetition = 1 := rfl
          obtain ⟨budget, rfl⟩ : ∃ b, budget = b + 1 := ⟨budget - 1, by omega⟩
          show ∃ found, Matching.run _ _ _ (.closure :: .atom a :: .stop :: Item.layout behind) i =
            .ok found ∧ _
          rw [Matching.run_closure]
          refine exists_giveBack_ends (fun n few => .closure here unit few) fun n few => ?_
          exact ih (pc + 3) (i + n) (depth + 1) budget next
            (Matching.add_le_of_le_countAccepted few inside) (by omega)
      | optional a =>
          have one : (Item.optional a).code.countP Instr.isRepetition = 1 := rfl
          obtain ⟨budget, rfl⟩ : ∃ b, budget = b + 1 := ⟨budget - 1, by omega⟩
          show ∃ found, Matching.run _ _ _ (.optional :: .atom a :: .stop :: Item.layout behind) i =
            .ok found ∧ _
          rw [Matching.run_optional]
          refine exists_giveBack_ends (fun n few => .optional here unit few) fun n few => ?_
          exact ih (pc + 3) (i + n) (depth + 1) budget next
            (Matching.add_le_of_le_countAccepted few inside) (by omega)

end

/-- A compiled program comes to an answer from every position. -/
theorem exists_run_of_compile {text : Bytes} {caseSensitive wildcard : Bool} {maxCells : Nat}
    {p : Program} (compiled : compile text caseSensitive wildcard maxCells = .ok p)
    {subject : Subject} {i : Nat} (inside : i ≤ subject.size) :
    ∃ found, p.run subject i = .ok found := by
  obtain ⟨nodes, -, shape, -⟩ := exists_nodes_of_compile compiled
  rw [codeOf_eq_layout] at shape
  have enough : (Item.layout (nodes.flatMap Node.items)).countP Instr.isRepetition ≤
      p.repetitions := by
    rw [← shape]
    exact Nat.le_refl _
  obtain ⟨found, run, -⟩ := exists_run_eq_ok 0 i 0 p.repetitions (.zero shape) inside enough
  rw [← shape] at run
  exact ⟨found, run⟩

/-- **Compiled programs are well formed, and no walk over one can go wrong.**  Matching comes to an
answer from every start, within its budget of one level for each repetition; a match ends where a
walk has come to the last `stop`. -/
theorem compile_safe {text : Bytes} {caseSensitive wildcard : Bool} {maxCells : Nat} {p : Program}
    (compiled : compile text caseSensitive wildcard maxCells = .ok p) :
    p.WellFormed ∧
      (caseSensitive = false → ∀ b, Instr.atom (.byte b) ∈ p.code → Byte.isUpper b = false) ∧
      ∀ (subject : Subject) (start : Nat), start ≤ subject.size →
        (∃ found, p.run subject start = .ok found ∧ EndsWalk p subject ⟨0, start, 0⟩ found ∧
          ∀ stop, found = some stop → start ≤ stop ∧ stop ≤ subject.size) ∧
        Acc (fun next place => Step p subject place next) ⟨0, start, 0⟩ ∧
        ∀ place, Reaches p subject ⟨0, start, 0⟩ place →
          Safe p subject start place ∧ Readable p place := by
  obtain ⟨nodes, -, shape, -⟩ := exists_nodes_of_compile compiled
  rw [codeOf_eq_layout] at shape
  refine ⟨⟨_, shape⟩, ?_, fun subject start inside => ⟨?_, acc_step _, fun place reaches => ?_⟩⟩
  · rintro rfl b member
    exact isUpper_of_mem_code compiled member
  · obtain ⟨found, run, ends⟩ := exists_run_eq_ok 0 start 0 p.repetitions (.zero shape) inside
      (Nat.le_of_eq (congrArg (List.countP Instr.isRepetition) shape.symm))
    refine ⟨found, ?_, ends, fun stop eq => ?_⟩
    · rw [← run, ← shape]
      rfl
    · obtain ⟨last, reaches, -, rfl⟩ := ends stop eq
      have safe := reaches.safe (.ofStart shape inside)
      exact ⟨safe.start_le, safe.le_size⟩
  · have safe := reaches.safe (.ofStart shape inside)
    exact ⟨safe, safe.readable⟩

/-- The code of `A+b?` without regard to case: `A` is kept in lower case and stands twice. -/
theorem compile_safe_letters :
    ∃ p, compile [0x41, 0x2b, 0x62, 0x3f] false false 1024 = .ok p ∧ p.WellFormed ∧
      p.repetitions = 2 ∧
      ∃ found, p.run (Subject.ofBytes [0x61, 0x41, 0x42]) 0 = .ok found := by
  have compiled : compile [0x41, 0x2b, 0x62, 0x3f] false false 1024 =
      .ok ⟨[.atom (.byte 0x61), .closure, .atom (.byte 0x61), .stop, .optional,
        .atom (.byte 0x62), .stop, .stop], 8, false⟩ :=
    compile_eq_ok (by decide) (by cbv) rfl
  obtain ⟨shape, -, safe⟩ := compile_safe compiled
  obtain ⟨⟨found, run, -⟩, -⟩ := safe (.ofBytes [0x61, 0x41, 0x42]) 0 (Nat.zero_le _)
  exact ⟨_, compiled, shape, by decide, found, run⟩

end Bytewise.Pattern
