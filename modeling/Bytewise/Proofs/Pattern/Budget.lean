/-
# Bytewise.Proofs.Pattern.Budget -- what fits into a limit of cells

Instructions are placed one after the other, and the first that does not fit is
an overflow.  As no instruction takes cells back, it comes to the same whether
the sum of all fits (`place_eq`): so a list of nodes has a program exactly if its
cells do not exceed the limit (`emit_eq`), and the program does not depend on
the limit (`compile_unique`).

What the cells come to is said of the nodes (`Node.cost`), before any of them is
compiled; `compile_budget` says that this is what the limit is held against.
-/
import Bytewise.Proofs.Pattern.Parsing
import Bytewise.Proofs.Pattern.WellFormed

namespace Bytewise.Pattern

set_option autoImplicit false

/-- The cells that instructions take together. -/
def cellsOf : List Instr → Nat
  | [] => 0
  | i :: rest => i.cells + cellsOf rest

theorem place_eq {maxCells used : Nat} (fits : used ≤ maxCells) (code : List Instr) :
    place maxCells used code =
      if used + cellsOf code ≤ maxCells then .ok (used + cellsOf code)
      else .error (.overflow maxCells) := by
  induction code generalizing used with
  | nil =>
      have same : used + cellsOf [] = used := rfl
      rw [same, if_pos fits, place]
  | cons i rest ih =>
      have sum : used + cellsOf (i :: rest) = used + i.cells + cellsOf rest := by
        simp [cellsOf, Nat.add_assoc]
      rw [place, sum]
      by_cases next : used + i.cells ≤ maxCells
      · rw [if_pos next, ih next]
      · have tooMany : ¬ used + i.cells + cellsOf rest ≤ maxCells := by omega
        rw [if_neg next, if_neg tooMany]

theorem emit_eq (caseSensitive : Bool) (maxCells : Nat) (nodes : List Node) :
    emit caseSensitive maxCells nodes =
      if cellsOf (codeOf nodes) ≤ maxCells then
        .ok ⟨codeOf nodes, cellsOf (codeOf nodes), caseSensitive⟩
      else .error (.overflow maxCells) := by
  rw [emit, place_eq (Nat.zero_le maxCells), Nat.zero_add]
  split <;> rfl

/-- What a text compiles to, if it does, is the code of its nodes, whatever the limit was. -/
theorem exists_nodes_eq_of_compile {text : Bytes} {caseSensitive wildcard : Bool} {maxCells : Nat}
    {p : Program} (compiled : compile text caseSensitive wildcard maxCells = .ok p) :
    ∃ nodes, parse caseSensitive (sourceText wildcard text) = .ok nodes ∧
      p = ⟨codeOf nodes, cellsOf (codeOf nodes), caseSensitive⟩ := by
  unfold compile at compiled
  split at compiled
  · cases compiled
  · split at compiled
    · cases compiled
    · rename_i nodes parsed
      rw [emit_eq] at compiled
      split at compiled
      · exact ⟨nodes, parsed, (Except.ok.inj compiled).symm⟩
      · cases compiled

/-- Two limits that a text compiles under give the same program. -/
theorem compile_unique {text : Bytes} {caseSensitive wildcard : Bool} {maxCells maxCells' : Nat}
    {p p' : Program} (compiled : compile text caseSensitive wildcard maxCells = .ok p)
    (compiled' : compile text caseSensitive wildcard maxCells' = .ok p') : p = p' := by
  obtain ⟨nodes, parsed, rfl⟩ := exists_nodes_eq_of_compile compiled
  obtain ⟨nodes', parsed', rfl⟩ := exists_nodes_eq_of_compile compiled'
  rw [parsed, Except.ok.injEq] at parsed'
  rw [parsed']

/-! ## What nodes cost -/

def Atom.cost : Atom → Nat
  | .byte _ | .any => 1
  | .set _ => 17

def Node.cost : Node → Nat
  | .atom a => a.cost
  | .assertion _ => 1
  | .repetition .zeroOrMore a | .repetition .zeroOrOne a => 2 + a.cost
  | .repetition .oneOrMore a => 2 + 2 * a.cost

/-- What the nodes cost together. -/
def costs : List Node → Nat
  | [] => 0
  | node :: rest => node.cost + costs rest

theorem cellsOf_append (code code' : List Instr) :
    cellsOf (code ++ code') = cellsOf code + cellsOf code' := by
  induction code with
  | nil => exact (Nat.zero_add _).symm
  | cons i rest ih => rw [List.cons_append, cellsOf, ih, cellsOf, Nat.add_assoc]

theorem cells_atom (a : Atom) : (Instr.atom a).cells = a.cost := by
  cases a <;> rfl

theorem cellsOf_code (node : Node) : cellsOf node.code = node.cost := by
  have own : Instr.closure.cells = 1 ∧ Instr.optional.cells = 1 ∧ Instr.stop.cells = 1 :=
    ⟨rfl, rfl, rfl⟩
  cases node with
  | atom a => exact cells_atom a
  | assertion a => rfl
  | repetition q a =>
      have unit := cells_atom a
      cases q <;> simp only [Node.code, cellsOf, Node.cost] <;> omega

theorem cellsOf_codeOf (nodes : List Node) : cellsOf (codeOf nodes) = 1 + costs nodes := by
  induction nodes with
  | nil => rfl
  | cons node rest ih =>
      rw [codeOf_cons, cellsOf_append, cellsOf_code, ih, costs]
      omega

/-- **The budget of cells is exact.**  A text with a fault is refused for it, whatever the limit.
Any other has one program, whose cells are what its nodes cost and one more, and also what its
instructions take together: it is compiled to this program under every limit that these cells do
not exceed, and under any other the limit is reported to be exceeded. -/
theorem compile_budget {text : Bytes} (nonempty : text ≠ []) (caseSensitive wildcard : Bool) :
    (∀ pos fault, parse caseSensitive (sourceText wildcard text) = .error (pos, fault) →
      ∀ maxCells, compile text caseSensitive wildcard maxCells = .error (.syntaxFault pos fault)) ∧
    ∀ nodes, parse caseSensitive (sourceText wildcard text) = .ok nodes →
      ∃ p : Program, p.cells = 1 + costs nodes ∧ p.cells = cellsOf p.code ∧
        p.caseSensitive = caseSensitive ∧
        ∀ maxCells,
          (1 + costs nodes ≤ maxCells → compile text caseSensitive wildcard maxCells = .ok p) ∧
          (maxCells < 1 + costs nodes →
            compile text caseSensitive wildcard maxCells = .error (.overflow maxCells)) := by
  refine ⟨fun pos fault refused maxCells => ?_, fun nodes parsed => ?_⟩
  · rw [compile, if_neg nonempty, refused]
  · refine ⟨⟨codeOf nodes, cellsOf (codeOf nodes), caseSensitive⟩, cellsOf_codeOf nodes, rfl, rfl,
      fun maxCells => ?_⟩
    rw [compile, if_neg nonempty, parsed, ← cellsOf_codeOf]
    exact ⟨fun enough => (emit_eq ..).trans (if_pos enough),
      fun few => (emit_eq ..).trans (if_neg (Nat.not_le.2 few))⟩

/-- `\s+` takes thirty-seven cells: under a limit of thirty-six it overflows, and from there on there
is one program.  A `+` alone is a fault under every limit. -/
theorem compile_budget_blank :
    (∃ p : Program, p.cells = 37 ∧ ∀ maxCells, 37 ≤ maxCells →
      compile [0x5c, 0x73, 0x2b] false false maxCells = .ok p) ∧
    compile [0x5c, 0x73, 0x2b] false false 36 = .error (.overflow 36) ∧
    ∀ maxCells, compile [0x2b] false false maxCells = .error (.syntaxFault 0 .nothingToRepeat) := by
  have blank : Grammar.Lexeme false [] [0x5c, 0x73] [0x2b] (.atom (.set .blank)) :=
    .escapeToken (by decide)
  have parsed : parse false (sourceText false [0x5c, 0x73, 0x2b]) =
      .ok [.repetition .oneOrMore (.set .blank)] :=
    parse_eq_ok (.cons blank (.cons (.quantifier (by decide)) (.nil _ _))) (.quantified .nil)
  have refused : parse false (sourceText false [0x2b]) = .error (0, .nothingToRepeat) :=
    have plus : (Byte.plus, Quantifier.oneOrMore) ∈ Grammar.quantifiers := by decide
    parse_eq_error (.nil _ _) Grammar.attached_nil (.nothingToRepeat plus)
  have nonempty : ([0x5c, 0x73, 0x2b] : Bytes) ≠ [] := by decide
  obtain ⟨p, cells, -, -, limits⟩ := (compile_budget nonempty false false).2 _ parsed
  exact ⟨⟨p, cells, fun maxCells => (limits maxCells).1⟩, (limits 36).2 (by decide),
    (compile_budget (by decide) false false).1 0 _ refused⟩

end Bytewise.Pattern
