/-
# Bytewise.Interchange.Patterns -- patterns in JSON and in binary

A pattern is written as its text, its two flags and its limit; its program is
not, and is compiled again when a pattern is read.  In JSON it is an object of
four members.  Read are objects with any of the four in any order, of which only
the text must be there and other members do not count, and arrays of the four in
their order, of which only the text must be there.  In binary it is the four in
their order.
-/
import Bytewise.Binary.Codec
import Bytewise.Json.Reader
import Bytewise.Json.Writer
import Bytewise.Pattern.Basic

namespace Bytewise.Interchange.Patterns

set_option autoImplicit false

/-- What a pattern is called where another value stands. -/
def expected : String := "struct PatternRepr"

/-- What a pattern of too few elements should have been. -/
def expectedLength : String := "struct PatternRepr with 4 elements"

/-- The parts of a pattern that have been read. -/
structure Fields where
  text? : Option String
  caseSensitive? : Option Bool
  wildcard? : Option Bool
  maxCells? : Option Nat
  deriving DecidableEq, Repr

namespace Fields

def none : Fields := ⟨.none, .none, .none, .none⟩

/-- The pattern of a text and the other parts, where those that were not read are the usual ones. -/
def pattern (f : Fields) (text : String) : Pattern :=
  Pattern.ofText text (f.caseSensitive?.getD true) (f.wildcard?.getD false)
    (f.maxCells?.getD Pattern.defaultMaxCells)

end Fields

/-! ## JSON -/

def writeJson (p : Pattern) : Bytes :=
  Json.writeObject [
    ("pattern", Json.Text.write (Text.Utf8.ofString p.text)),
    ("case_sensitive", Json.writeBool p.caseSensitive),
    ("wildcard", Json.writeBool p.wildcard),
    ("max_cells", Json.writeInteger p.maxCells)]

/-- The limits there are: integers of 64 bits. -/
def limit? (n : Int) : Option Nat :=
  if 0 ≤ n ∧ n < 0x10000000000000000 then some n.toNat else none

def readLimit (s : Bytes) : Json.Result Nat := Json.readInteger "usize" limit? s

/-- Reads a part of a pattern that must not have been read before. -/
def readOnce {α : Type} (key : String) (before? : Option α) (value : Bytes → Json.Result α)
    (put : α → Fields) (s : Bytes) : Json.Result Fields :=
  if before?.isSome then .error (.mismatch (.duplicateField key))
  else (Json.memberValue value s).map fun r => (put r.1, r.2)

/-- Reads the member of a key; a key that is none of the four does not count. -/
def readMember (f : Fields) (key : String) (s : Bytes) : Json.Result Fields :=
  if key = "pattern" then
    readOnce key f.text? Json.readText (fun a => { f with text? := some a }) s
  else if key = "case_sensitive" then
    readOnce key f.caseSensitive? Json.readBool (fun a => { f with caseSensitive? := some a }) s
  else if key = "wildcard" then
    readOnce key f.wildcard? Json.readBool (fun a => { f with wildcard? := some a }) s
  else if key = "max_cells" then
    readOnce key f.maxCells? readLimit (fun a => { f with maxCells? := some a }) s
  else
    Json.memberValue (fun s => (Json.skipValue s).map fun rest => (f, rest)) s

/-- Reads the members of an object behind its brace. -/
def readObject (s : Bytes) : Json.Result Pattern :=
  match Json.members readMember Fields.none s with
  | .error e => .error e
  | .ok (f, rest) =>
    match f.text? with
    | some text => .ok (f.pattern text, rest)
    | none => .error (.mismatch (.missingField "pattern"))

/-- Reads the next element of an array, if there is one. -/
def readElement {α : Type} (first : Bool) (value : Bytes → Json.Result α) (s : Bytes) :
    Json.Result (Option α) :=
  match Json.nextItem? first s with
  | .error e => .error e
  | .ok none => .ok (none, s)
  | .ok (some t) => (value t).map fun r => (some r.1, r.2)

/-- Reads the elements of an array behind its bracket. -/
def readArray (s : Bytes) : Json.Result Pattern :=
  match readElement true Json.readText s with
  | .error e => .error e
  | .ok (none, _) => .error (.mismatch (.tooShort 0 expectedLength))
  | .ok (some text, s) =>
    match readElement false Json.readBool s with
    | .error e => .error e
    | .ok (caseSensitive?, s) =>
      match readElement false Json.readBool s with
      | .error e => .error e
      | .ok (wildcard?, s) =>
        match readElement false readLimit s with
        | .error e => .error e
        | .ok (maxCells?, s) =>
          (Json.close Byte.rightBracket s).map fun rest =>
            (Fields.pattern ⟨some text, caseSensitive?, wildcard?, maxCells?⟩ text, rest)

def readJson (s : Bytes) : Json.Result Pattern :=
  match Json.skipBlank s with
  | [] => .error .endOfText
  | b :: rest =>
    if b = Byte.leftBracket then readArray rest
    else if b = Byte.leftBrace then readObject rest
    else .error (Json.wrongType expected b rest)

def ofJson (s : Bytes) : Except Json.Error Pattern := Json.document readJson s

/-! ## Binary -/

def writeBinary (p : Pattern) : Bytes :=
  Binary.writeBytes (Text.Utf8.ofString p.text) ++ Binary.writeBool p.caseSensitive
    ++ Binary.writeBool p.wildcard ++ Binary.writeUnsigned Binary.lengthWidth p.maxCells

/-- Reads bytes that are text. -/
def readTextBinary (s : Bytes) : Binary.Result String :=
  match Binary.readBytes s with
  | .error e => .error e
  | .ok (bs, rest) =>
    match Text.Utf8.toString? bs with
    | some text => .ok (text, rest)
    | none => .error .invalidText

def readBinary (s : Bytes) : Binary.Result Pattern :=
  match readTextBinary s with
  | .error e => .error e
  | .ok (text, s) =>
    match Binary.readBool s with
    | .error e => .error e
    | .ok (caseSensitive, s) =>
      match Binary.readBool s with
      | .error e => .error e
      | .ok (wildcard, s) =>
        (Binary.readUnsigned Binary.lengthWidth s).map fun r =>
          (Pattern.ofText text caseSensitive wildcard r.1, r.2)

def ofBinary (s : Bytes) : Except Binary.Error Pattern := Binary.document readBinary s

end Bytewise.Interchange.Patterns
