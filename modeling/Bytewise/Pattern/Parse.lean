/-
# Bytewise.Pattern.Parse -- pattern text as nodes

`parse` reads pattern text as a list of nodes: its tokens, with every quantifier
folded onto the atom right before it (`assemble`).  The text is refused at the
leftmost token that is at fault: one that cannot be read, or a quantifier with
nothing, an anchor or another quantifier before it.
-/
import Bytewise.Pattern.Token

namespace Bytewise.Pattern

set_option autoImplicit false

/-- Puts a quantifier onto the node before it. -/
def quantify (q : Quantifier) : Option Node → Except Fault Node
  | some (.atom a) => .ok (.repetition q a)
  | some (.repetition _ _) => .error .quantifierAfterQuantifier
  | some (.assertion _) => .error .quantifierAfterAnchor
  | none => .error .nothingToRepeat

/-- Turns tokens into nodes; `last` is the node before them, which a quantifier may still claim.
Every token comes with its place in the text, and a fault with that of the token at fault. -/
def assemble {π : Type} (last : Option Node) :
    List (π × Except Fault Token) → Except (π × Fault) (List Node)
  | [] => .ok last.toList
  | (place, .error fault) :: _ => .error (place, fault)
  | (_, .ok (.atom a)) :: rest => (assemble (some (.atom a)) rest).map (last.toList ++ ·)
  | (_, .ok (.anchor a)) :: rest => (assemble (some (.assertion a)) rest).map (last.toList ++ ·)
  | (place, .ok (.quantifier q)) :: rest =>
    match quantify q last with
    | .error fault => .error (place, fault)
    | .ok node => assemble (some node) rest

/-- The nodes of a pattern text, or the position of the leftmost fault. -/
def parse (caseSensitive : Bool) (text : Bytes) : Except (Nat × Fault) (List Node) :=
  (assemble none (Token.scan caseSensitive text)).mapError fun (rest, fault) =>
    (Token.position text rest, fault)

end Bytewise.Pattern
