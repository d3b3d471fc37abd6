/-
# Bytewise.Pattern.Token -- pattern text as tokens

`Token.scan` cuts pattern text, left to right, into tokens.  Beside each stands
the text from it on, which tells where it starts (`position`).  A token is an
atom, an anchor (an assertion) or a quantifier:

* `^` as the first byte and `$` as the last are anchors, elsewhere literals;
* `.` is any byte, `[` opens a bracket expression, `*`, `+` and `?` quantify;
* `\<`, `\>` and `\b` are the word anchors, `\s` is the set of white space, and
  any other backslash escapes one literal byte;
* every other byte is a literal.

Two things are no token: a `[` without its `]`, and a backslash that ends the
text.  Scanning stops there, and the fault is the last thing in the list.
-/
import Bytewise.Pattern.Bracket
import Bytewise.Pattern.Error
import Bytewise.Pattern.Node

namespace Bytewise.Pattern

set_option autoImplicit false

inductive Token
  | atom (a : Atom)
  | anchor (a : Assertion)
  | quantifier (q : Quantifier)
  deriving DecidableEq

namespace Token

/-- The byte a quantifier is written with. -/
def quantifier? (c : UInt8) : Option Quantifier :=
  if c = Byte.star then some .zeroOrMore
  else if c = Byte.plus then some .oneOrMore
  else if c = Byte.question then some .zeroOrOne
  else none

/-- The token behind a backslash, where `e` is the byte after the backslash. -/
def readEscape (caseSensitive : Bool) (e : UInt8) (rest : Bytes) : Token × Bytes :=
  if e = Byte.less then (.anchor .wordStart, rest)
  else if e = Byte.greater then (.anchor .wordEnd, rest)
  else if e = Byte.ofChar 'b' then (.anchor .wordEdge, rest)
  else if e = Byte.ofChar 's' then (.atom (.set .blank), rest)
  else (.atom (.literal caseSensitive (Escape.decode e rest).1), (Escape.decode e rest).2)

/-- Reads the token that starts with `c`; `first` says that `c` is the first byte of the text. -/
def read (caseSensitive first : Bool) (c : UInt8) (rest : Bytes) : Except Fault (Token × Bytes) :=
  if c = Byte.caret ∧ first = true then .ok (.anchor .subjectStart, rest)
  else if c = Byte.dollar ∧ rest = [] then .ok (.anchor .subjectEnd, rest)
  else if c = Byte.dot then .ok (.atom .any, rest)
  else if c = Byte.leftBracket then
    match Bracket.read? caseSensitive rest with
    | none => .error .unterminatedBracket
    | some (set, after) => .ok (.atom (.set set), after)
  else if c = Byte.backslash then
    match rest with
    | [] => .error .trailingBackslash
    | e :: rest => .ok (readEscape caseSensitive e rest)
  else
    match quantifier? c with
    | some q => .ok (.quantifier q, rest)
    | none => .ok (.atom (.literal caseSensitive c), rest)

theorem length_readEscape_le (caseSensitive : Bool) (e : UInt8) (rest : Bytes) :
    (readEscape caseSensitive e rest).2.length ≤ rest.length := by
  unfold readEscape
  repeat' split
  all_goals first | exact Nat.le_refl _ | exact Escape.length_decode_le e rest

theorem length_read_le {caseSensitive first : Bool} {c : UInt8} {rest : Bytes} {r : Token × Bytes}
    (h : read caseSensitive first c rest = .ok r) : r.2.length ≤ rest.length := by
  unfold read at h
  split at h
  · obtain rfl := Except.ok.inj h; exact Nat.le_refl _
  split at h
  · obtain rfl := Except.ok.inj h; exact Nat.le_refl _
  split at h
  · obtain rfl := Except.ok.inj h; exact Nat.le_refl _
  split at h
  · split at h
    · cases h
    · rename_i hread
      obtain rfl := Except.ok.inj h
      exact Nat.le_of_lt (Bracket.length_read? hread)
  split at h
  · cases rest with
    | nil => cases h
    | cons e rest =>
      obtain rfl := Except.ok.inj h
      exact Nat.le_succ_of_le (length_readEscape_le caseSensitive e rest)
  split at h <;> obtain rfl := Except.ok.inj h <;> exact Nat.le_refl _

/-- The tokens of a text, or of the rest of one unless it is `first`, each with the text from it
on. -/
def scanFrom (caseSensitive first : Bool) : Bytes → List (Bytes × Except Fault Token)
  | [] => []
  | c :: rest =>
    match _h : read caseSensitive first c rest with
    | .error fault => [(c :: rest, .error fault)]
    | .ok (token, after) => (c :: rest, .ok token) :: scanFrom caseSensitive false after
  termination_by s => s.length
  decreasing_by
    have := length_read_le _h
    simp only [List.length_cons] at *
    omega

def scan (caseSensitive : Bool) (text : Bytes) : List (Bytes × Except Fault Token) :=
  scanFrom caseSensitive true text

/-- Where a token starts, of which `rest` is the text from it on. -/
def position (text rest : Bytes) : Nat := text.length - rest.length

end Token

end Bytewise.Pattern
