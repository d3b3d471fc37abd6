/-
# Bytewise.Text.Utf8 -- text as bytes and back

`encode` writes characters in UTF-8.  Reading goes one byte at a time: between
characters a byte is a character of its own, a lead byte that owes continuation
bytes (`Owed`), or no part of UTF-8; a lead byte also narrows what the first
continuation byte may be, which rules out overlong forms, surrogates and values
above U+10FFFF.

`pieces` reads any bytes.  Where a character breaks off, the bytes of it that
were read are one piece without a character, and reading goes on at the byte
that did not fit; so is a byte that starts none.  From it:

* `decode?` gives the text of well-formed bytes and refuses any other;
* `lossy` writes U+FFFD for every piece that is no character.
-/
import Bytewise.Byte

namespace Bytewise.Text.Utf8

set_option autoImplicit false

def encode (cs : List Char) : Bytes := cs.flatMap String.utf8EncodeChar

/-- The bytes of a text. -/
def ofString (s : String) : Bytes := encode s.toList

/-- A character that still owes `count + 1` continuation bytes, the next of them between `low` and
`high`; `value` holds the bits read so far. -/
structure Owed where
  value : Nat
  count : Nat
  low : UInt8
  high : UInt8
  deriving DecidableEq, Repr

/-- How a byte reads between characters. -/
inductive Start
  | char (c : Char)
  | lead (owed : Owed)
  | none
  deriving DecidableEq

/-- The value that a byte adds: what is below the marker, a multiple of `bound`. -/
def payload (b : UInt8) (bound : Nat) : Nat := b.toNat % bound

def start (b : UInt8) : Start :=
  if b ≤ 0x7f then .char (Char.ofNat b.toNat)
  else if 0xc2 ≤ b ∧ b ≤ 0xdf then .lead ⟨payload b 32, 0, 0x80, 0xbf⟩
  else if b = 0xe0 then .lead ⟨payload b 16, 1, 0xa0, 0xbf⟩
  else if b = 0xed then .lead ⟨payload b 16, 1, 0x80, 0x9f⟩
  else if 0xe1 ≤ b ∧ b ≤ 0xef then .lead ⟨payload b 16, 1, 0x80, 0xbf⟩
  else if b = 0xf0 then .lead ⟨payload b 8, 2, 0x90, 0xbf⟩
  else if 0xf1 ≤ b ∧ b ≤ 0xf3 then .lead ⟨payload b 8, 2, 0x80, 0xbf⟩
  else if b = 0xf4 then .lead ⟨payload b 8, 2, 0x80, 0x8f⟩
  else .none

/-- The bits of a character after one more continuation byte. -/
def Owed.next (o : Owed) (b : UInt8) : Nat := o.value * 64 + payload b 64

/-- Cuts bytes into characters and pieces that are none. -/
def piecesFrom : Option Owed → Bytes → List (Option Char)
  | none, [] => []
  | some _, [] => [none]
  | owed?, b :: rest =>
    match owed? with
    | some o =>
      if o.low ≤ b ∧ b ≤ o.high then
        match o.count with
        | 0 => some (Char.ofNat (o.next b)) :: piecesFrom none rest
        | count + 1 => piecesFrom (some ⟨o.next b, count, 0x80, 0xbf⟩) rest
      else
        match start b with
        | .char c => none :: some c :: piecesFrom none rest
        | .lead o => none :: piecesFrom (some o) rest
        | .none => none :: none :: piecesFrom none rest
    | none =>
      match start b with
      | .char c => some c :: piecesFrom none rest
      | .lead o => piecesFrom (some o) rest
      | .none => none :: piecesFrom none rest

def pieces (bs : Bytes) : List (Option Char) := piecesFrom none bs

def decode? (bs : Bytes) : Option (List Char) := (pieces bs).mapM id

/-- Are the bytes well-formed? -/
def isValid (bs : Bytes) : Bool := (decode? bs).isSome

/-- The text of well-formed bytes. -/
def toString? (bs : Bytes) : Option String := (decode? bs).map String.ofList

/-- U+FFFD stands for what is no character. -/
def replacement : Char := Char.ofNat 0xfffd

def lossy (bs : Bytes) : String := String.ofList ((pieces bs).map (·.getD replacement))

end Bytewise.Text.Utf8
