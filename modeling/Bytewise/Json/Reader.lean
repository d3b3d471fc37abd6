/-
# Bytewise.Json.Reader -- values of a JSON text

Readers for a value of a known type.  Where a value of another type stands, the
error says which (`wrongType`): scalars are read first, and their own faults come
before the mismatch, while an array or an object is not looked into.

`items` and `members` read what is in an array and in an object; neither allows a
comma behind the last element.  `document` reads a whole text, which holds one
value and white space.
-/
import Bytewise.Json.Skip

namespace Bytewise.Json

set_option autoImplicit false

open Interchange (Found Mismatch)

/-! ## Scalars -/

/-- The word behind its first letter, as a value of some type. -/
def wordFound (found : Found) (expected : String) (letters rest : Bytes) : Error :=
  match word letters rest with
  | .error e => e
  | .ok _ => .mismatch (.type found expected)

/-- The error for a value that starts with `b` and is not of the type expected. -/
def wrongType (expected : String) (b : UInt8) (rest : Bytes) : Error :=
  if b = Byte.ofChar 'n' then wordFound .null expected [0x75, 0x6c, 0x6c] rest
  else if b = Byte.ofChar 't' then wordFound (.boolean true) expected [0x72, 0x75, 0x65] rest
  else if b = Byte.ofChar 'f' then
    wordFound (.boolean false) expected [0x61, 0x6c, 0x73, 0x65] rest
  else if b = Byte.doubleQuote then
    match Text.read rest with
    | .error e => e
    | .ok (text, _) => .mismatch (.type (.text text) expected)
  else if Number.starts b then
    match Number.read b rest with
    | .error e => e
    | .ok (n, _) => .mismatch (.type n.found expected)
  else if b = Byte.leftBracket then .mismatch (.type .sequence expected)
  else if b = Byte.leftBrace then .mismatch (.type .map expected)
  else .malformed

def readBool (s : Bytes) : Result Bool :=
  match skipBlank s with
  | [] => .error .endOfText
  | b :: rest =>
    if b = Byte.ofChar 't' then (word [0x72, 0x75, 0x65] rest).map fun rest => (true, rest)
    else if b = Byte.ofChar 'f' then
      (word [0x61, 0x6c, 0x73, 0x65] rest).map fun rest => (false, rest)
    else .error (wrongType "a boolean" b rest)

def readText (s : Bytes) : Result String :=
  match skipBlank s with
  | [] => .error .endOfText
  | b :: rest =>
    if b = Byte.doubleQuote then Text.read rest else .error (wrongType "a string" b rest)

/-- Reads an integer of a type, which `ofInt?` makes of integers in its range. -/
def readInteger {α : Type} (typeName : String) (ofInt? : Int → Option α) (s : Bytes) : Result α :=
  match skipBlank s with
  | [] => .error .endOfText
  | b :: rest =>
    if Number.starts b then
      match Number.read b rest with
      | .error e => .error e
      | .ok (.float x, _) => .error (.mismatch (.type (.float x) typeName))
      | .ok (.integer n, after) =>
        match ofInt? n with
        | some a => .ok (a, after)
        | none => .error (.mismatch (.value (.integer n) typeName))
    else .error (wrongType typeName b rest)

/-! ## Arrays -/

/-- The next element of an array, if there is one; `first` says that none came before. -/
def nextItem? (first : Bool) (s : Bytes) : Except Error (Option Bytes) :=
  match skipBlank s with
  | [] => .error .endOfText
  | b :: rest =>
    if b = Byte.rightBracket then .ok none
    else if first then .ok (some (b :: rest))
    else if b = Byte.comma then
      match skipBlank rest with
      | [] => .error .endOfText
      | c :: rest => if c = Byte.rightBracket then .error .malformed else .ok (some (c :: rest))
    else .error .malformed

/-- Takes one byte behind white space. -/
def close (b : UInt8) (s : Bytes) : Except Error Bytes :=
  match skipBlank s with
  | [] => .error .endOfText
  | c :: rest => if c = b then .ok rest else .error .malformed

/-- Reads at most `fuel` elements and the closing bracket. -/
def itemsFrom {α : Type} (item : Bytes → Result α) : Nat → Bool → Bytes → Result (List α)
  | 0, _, _ => .error .malformed
  | fuel + 1, first, s =>
    match nextItem? first s with
    | .error e => .error e
    | .ok none => (close Byte.rightBracket s).map fun rest => ([], rest)
    | .ok (some t) =>
      match item t with
      | .error e => .error e
      | .ok (a, after) => (itemsFrom item fuel false after).map fun r => (a :: r.1, r.2)

/-- Reads the elements of an array behind its bracket.  Each takes at least one byte, so there are
fewer than bytes. -/
def items {α : Type} (item : Bytes → Result α) (s : Bytes) : Result (List α) :=
  itemsFrom item (s.length + 1) true s

/-- Reads an array. -/
def readSequence {α : Type} (item : Bytes → Result α) (s : Bytes) : Result (List α) :=
  match skipBlank s with
  | [] => .error .endOfText
  | b :: rest =>
    if b = Byte.leftBracket then items item rest
    else .error (wrongType "a sequence" b rest)

/-! ## Objects -/

/-- The next key of an object behind its opening quote, if there is one. -/
def nextKey? (first : Bool) (s : Bytes) : Except Error (Option Bytes) :=
  match skipBlank s with
  | [] => .error .endOfText
  | b :: rest =>
    if b = Byte.rightBrace then .ok none
    else if first then
      if b = Byte.doubleQuote then .ok (some rest) else .error .malformed
    else if b = Byte.comma then
      match skipBlank rest with
      | [] => .error .endOfText
      | c :: rest => if c = Byte.doubleQuote then .ok (some rest) else .error .malformed
    else .error .malformed

/-- Reads at most `fuel` members and the closing brace. -/
def membersFrom {σ : Type} (member : σ → String → Bytes → Result σ) :
    Nat → Bool → σ → Bytes → Result σ
  | 0, _, _, _ => .error .malformed
  | fuel + 1, first, state, s =>
    match nextKey? first s with
    | .error e => .error e
    | .ok none => (close Byte.rightBrace s).map fun rest => (state, rest)
    | .ok (some t) =>
      match Text.read t with
      | .error e => .error e
      | .ok (key, t) =>
        match member state key t with
        | .error e => .error e
        | .ok (state, after) => membersFrom member fuel false state after

/-- Reads the members of an object behind its brace; `member` is given what was read so far, the
key, and the bytes behind the key.  Each takes at least one byte, so there are fewer than bytes. -/
def members {σ : Type} (member : σ → String → Bytes → Result σ) (state : σ) (s : Bytes) :
    Result σ :=
  membersFrom member (s.length + 1) true state s

/-- Reads the value of a member, behind its colon. -/
def memberValue {α : Type} (value : Bytes → Result α) (s : Bytes) : Result α :=
  match close Byte.colon s with
  | .error e => .error e
  | .ok rest => value rest

/-! ## Texts -/

/-- Reads a whole text. -/
def document {α : Type} (value : Bytes → Result α) (s : Bytes) : Except Error α :=
  match value s with
  | .error e => .error e
  | .ok (a, rest) => if skipBlank rest = [] then .ok a else .error .malformed

end Bytewise.Json
