/-
# Bytewise.Proofs.Pattern.WellFormed -- the shape of compiled programs

The code of a program is a row of items and one `stop` behind them (`layout`).
An item is an atom, an assertion, or a repetition: its kind, its atom and a
`stop` of its own.

* `exists_nodes_of_compile`, `compile_eq_ok`: what compiling has put together
  when it succeeds, and when it does;
* `codeOf_eq_layout`: the code of a list of nodes is a row of items;
* `Located p pc rest`: at `pc` the items of `rest` begin.  The instructions from
  there on are theirs (`Located.getElem?_add`), and behind the first of them the
  next one begins (`Located.next`).
-/
import Bytewise.Pattern.Basic
import Bytewise.Proofs.Outcome

namespace Bytewise.Pattern

set_option autoImplicit false

/-! ## Items -/

inductive Item
  | atom (a : Atom)
  | assertion (a : Assertion)
  | closure (a : Atom)
  | optional (a : Atom)
  deriving DecidableEq

namespace Item

def code : Item → List Instr
  | .atom a => [.atom a]
  | .assertion a => [.assertion a]
  | .closure a => [.closure, .atom a, .stop]
  | .optional a => [.optional, .atom a, .stop]

/-- The code of a row of items, up to where the next item begins. -/
def codes (items : List Item) : List Instr := items.flatMap code

/-- A whole program: items, and a `stop` behind the last of them. -/
def layout (items : List Item) : List Instr := codes items ++ [.stop]

@[simp] theorem layout_cons (item : Item) (rest : List Item) :
    layout (item :: rest) = item.code ++ layout rest := by
  simp [layout, codes, List.append_assoc]

end Item

/-- `+` is its atom and a closure of it; every other node is one item. -/
def Node.items : Node → List Item
  | .atom a => [.atom a]
  | .assertion a => [.assertion a]
  | .repetition .zeroOrMore a => [.closure a]
  | .repetition .zeroOrOne a => [.optional a]
  | .repetition .oneOrMore a => [.atom a, .closure a]

theorem Node.code_eq_codes (node : Node) : node.code = Item.codes node.items := by
  cases node with
  | atom a => rfl
  | assertion a => rfl
  | repetition q a => cases q <;> rfl

theorem codeOf_cons (node : Node) (nodes : List Node) :
    codeOf (node :: nodes) = node.code ++ codeOf nodes := by
  simp [codeOf, List.append_assoc]

theorem codeOf_eq_layout (nodes : List Node) :
    codeOf nodes = Item.layout (nodes.flatMap Node.items) := by
  unfold codeOf Item.layout Item.codes
  rw [List.flatMap_assoc]
  exact congrArg (nodes.flatMap · ++ [.stop]) (funext Node.code_eq_codes)

namespace Program

/-- The code is a row of items and one `stop`. -/
def WellFormed (p : Program) : Prop := ∃ items, p.code = Item.layout items

end Program

/-! ## Places in a program -/

/-- At `pc` an item begins, or the last `stop`, and `rest` are the items from there on. -/
def Located (p : Program) (pc : Nat) (rest : List Item) : Prop :=
  ∃ done, p.code = Item.codes done ++ Item.layout rest ∧ pc = (Item.codes done).length

namespace Located

variable {p : Program} {pc : Nat} {item : Item} {rest : List Item}

theorem zero {items : List Item} (shape : p.code = Item.layout items) : Located p 0 items :=
  ⟨[], by simpa [Item.codes] using shape, rfl⟩

theorem next (located : Located p pc (item :: rest)) : Located p (pc + item.code.length) rest := by
  obtain ⟨done, shape, rfl⟩ := located
  refine ⟨done ++ [item], ?_, ?_⟩
  · simpa [Item.codes, List.append_assoc] using shape
  · simp [Item.codes]

theorem drop (located : Located p pc rest) : p.code.drop pc = Item.layout rest := by
  obtain ⟨done, shape, rfl⟩ := located
  simp [shape]

theorem getElem?_add (located : Located p pc rest) (k : Nat) :
    p.code[pc + k]? = (Item.layout rest)[k]? := by
  rw [← located.drop, List.getElem?_drop]

theorem getElem? (located : Located p pc rest) : p.code[pc]? = (Item.layout rest)[0]? :=
  located.getElem?_add 0

theorem length (located : Located p pc rest) :
    p.code.length = pc + (Item.layout rest).length := by
  obtain ⟨done, shape, rfl⟩ := located
  simp [shape]

/-- There is code where an item begins, if only the last `stop`. -/
theorem pc_lt (located : Located p pc rest) : pc < p.code.length := by
  rw [located.length, Item.layout, List.length_append, List.length_singleton]
  omega

/-- The repetitions of a program are those before a place and those behind it. -/
theorem repetitions (located : Located p pc rest) :
    p.repetitions = (p.code.take pc).countP Instr.isRepetition +
      (Item.layout rest).countP Instr.isRepetition := by
  rw [← located.drop, ← List.countP_append, List.take_append_drop]
  rfl

theorem countP_take_next (located : Located p pc (item :: rest)) :
    (p.code.take (pc + item.code.length)).countP Instr.isRepetition =
      (p.code.take pc).countP Instr.isRepetition + item.code.countP Instr.isRepetition := by
  rw [List.take_add, List.countP_append, located.drop, Item.layout_cons, List.take_left]

end Located

/-! ## What compiling puts together -/

theorem exists_nodes_of_compile {text : Bytes} {caseSensitive wildcard : Bool} {maxCells : Nat}
    {p : Program} (compiled : compile text caseSensitive wildcard maxCells = .ok p) :
    ∃ nodes, parse caseSensitive (sourceText wildcard text) = .ok nodes ∧
      p.code = codeOf nodes ∧ p.caseSensitive = caseSensitive := by
  unfold compile at compiled
  split at compiled
  · cases compiled
  · split at compiled
    · cases compiled
    · rename_i nodes parsed
      obtain ⟨cells, -, rfl⟩ := map_eq_ok_iff.1 compiled
      exact ⟨nodes, parsed, rfl, rfl⟩

/-- A text whose tokens fit together, and whose code has room, compiles. -/
theorem compile_eq_ok {text : Bytes} {caseSensitive wildcard : Bool} {maxCells : Nat}
    {nodes : List Node} {p : Program} (nonempty : text ≠ [])
    (assembled : assemble none (Token.scan caseSensitive (sourceText wildcard text)) = .ok nodes)
    (emitted : emit caseSensitive maxCells nodes = .ok p) :
    compile text caseSensitive wildcard maxCells = .ok p := by
  have parsed : parse caseSensitive (sourceText wildcard text) = .ok nodes :=
    mapError_eq_ok_iff.2 assembled
  rw [compile, if_neg nonempty, parsed]
  exact emitted

/-! ## Atoms -/

/-- The atom of a node. -/
def Node.atom? : Node → Option Atom
  | .atom a => some a
  | .assertion _ => none
  | .repetition _ a => some a

theorem Node.atom?_of_mem_code {node : Node} {a : Atom} (member : Instr.atom a ∈ node.code) :
    node.atom? = some a := by
  cases node with
  | atom b => simpa [Node.code, Node.atom?, eq_comm] using member
  | assertion b => simp [Node.code] at member
  | repetition q b =>
      cases q <;> simpa [Node.code, Node.atom?, eq_comm] using member

end Bytewise.Pattern
