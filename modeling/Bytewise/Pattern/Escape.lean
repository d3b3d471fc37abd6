/-
# Bytewise.Pattern.Escape -- the byte behind a backslash

`decode c rest` reads the escape whose first byte after the backslash is `c` and
gives the byte it stands for and what follows it:

* `n r t f b` are line feed, carriage return, tab, form feed and backspace;
* `x` takes up to two hexadecimal digits, and stands for itself without any;
* one to three octal digits are a number, taken modulo 256;
* any other byte stands for itself.

What follows is never longer than `rest` (`length_decode_le`).
-/
import Bytewise.Byte

namespace Bytewise.Pattern.Escape

set_option autoImplicit false

/-- Reads at most `n` digits onto `value`, in the base whose digits `digit?` knows. -/
def digits (base : Nat) (digit? : UInt8 → Option Nat) : Nat → Nat → Bytes → Nat × Bytes
  | n + 1, value, b :: rest =>
    match digit? b with
    | some d => digits base digit? n (value * base + d) rest
    | none => (value, b :: rest)
  | _, value, rest => (value, rest)

theorem length_digits_le (base : Nat) (digit? : UInt8 → Option Nat) (n value : Nat) (s : Bytes) :
    (digits base digit? n value s).2.length ≤ s.length := by
  induction n generalizing value s with
  | zero => simp [digits]
  | succ n ih =>
    cases s with
    | nil => simp [digits]
    | cons b rest =>
      cases h : digit? b with
      | none => simp [digits, h]
      | some d => simpa [digits, h] using Nat.le_succ_of_le (ih (value * base + d) rest)

/-- The escapes that have a name. -/
def named? (c : UInt8) : Option UInt8 :=
  if c = Byte.ofChar 'n' then some 0x0a
  else if c = Byte.ofChar 'r' then some 0x0d
  else if c = Byte.ofChar 't' then some 0x09
  else if c = Byte.ofChar 'f' then some 0x0c
  else if c = Byte.ofChar 'b' then some 0x08
  else none

def decode (c : UInt8) (rest : Bytes) : UInt8 × Bytes :=
  match named? c, Byte.octalValue? c with
  | some b, _ => (b, rest)
  | none, some d =>
    let (value, rest) := digits 8 Byte.octalValue? 2 d rest
    (UInt8.ofNat value, rest)
  | none, none =>
    if c = Byte.ofChar 'x' then
      match rest with
      | [] => (c, rest)
      | b :: _ =>
        if (Byte.hexValue? b).isSome then
          let (value, rest) := digits 16 Byte.hexValue? 2 0 rest
          (UInt8.ofNat value, rest)
        else (c, rest)
    else (c, rest)

theorem length_decode_le (c : UInt8) (rest : Bytes) : (decode c rest).2.length ≤ rest.length := by
  unfold decode
  split
  · simp
  · exact length_digits_le ..
  · split
    · split
      · simp
      · split
        · exact length_digits_le ..
        · simp
    · simp

end Bytewise.Pattern.Escape
