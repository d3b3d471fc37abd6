/-
# Bytewise.Json.Text -- strings of a JSON text

A string stands between double quotes.  Control bytes do not stand in it, and
the escapes are `\" \\ \/ \b \f \n \r \t` and `\u` with four hexadecimal digits,
where a character above U+FFFF is written as two surrogates.  The bytes that
come of it must be UTF-8.

`read` and `readValid` read a string behind its opening quote, as text and as
bytes, and `write` writes one.  `skip` passes over a string and looks at neither
surrogates nor UTF-8.
-/
import Bytewise.Json.Error
import Bytewise.Text.Utf8

namespace Bytewise.Json.Text

set_option autoImplicit false

open Bytewise.Text (Utf8.encode)

/-- The byte an escape of one letter stands for. -/
def plainEscape? (c : UInt8) : Option UInt8 :=
  if c = Byte.doubleQuote ∨ c = Byte.backslash ∨ c = Byte.ofChar '/' then some c
  else if c = Byte.ofChar 'b' then some 0x08
  else if c = Byte.ofChar 'f' then some 0x0c
  else if c = Byte.ofChar 'n' then some 0x0a
  else if c = Byte.ofChar 'r' then some 0x0d
  else if c = Byte.ofChar 't' then some 0x09
  else none

/-- Reads four hexadecimal digits.  Fewer than four bytes are the end of the text, whatever they
are. -/
def fourDigits : Bytes → Result Nat
  | a :: b :: c :: d :: rest =>
    match Byte.hexValue? a, Byte.hexValue? b, Byte.hexValue? c, Byte.hexValue? d with
    | some a, some b, some c, some d => .ok (((a * 16 + b) * 16 + c) * 16 + d, rest)
    | _, _, _, _ => .error .malformed
  | _ => .error .endOfText

def isLead (n : Nat) : Bool := 0xd800 ≤ n && n ≤ 0xdbff

def isTrail (n : Nat) : Bool := 0xdc00 ≤ n && n ≤ 0xdfff

/-- The code point of two surrogates. -/
def joinSurrogates (lead trail : Nat) : Nat := 0x10000 + (lead - 0xd800) * 0x400 + (trail - 0xdc00)

/-- Reads the code point behind `\u`. -/
def codePoint (s : Bytes) : Result Nat :=
  match fourDigits s with
  | .error e => .error e
  | .ok (n, s) =>
    if isTrail n then .error .malformed
    else if isLead n then
      match word [Byte.backslash, Byte.ofChar 'u'] s with
      | .error e => .error e
      | .ok s =>
        match fourDigits s with
        | .error e => .error e
        | .ok (m, s) => if isTrail m then .ok (joinSurrogates n m, s) else .error .malformed
    else .ok (n, s)

/-- Reads an escape behind its backslash. -/
def escape : Bytes → Result Bytes
  | [] => .error .endOfText
  | c :: rest =>
    if c = Byte.ofChar 'u' then
      (codePoint rest).map fun r => (Utf8.encode [Char.ofNat r.1], r.2)
    else
      match plainEscape? c with
      | some b => .ok ([b], rest)
      | none => .error .malformed

/-- Passes over an escape behind its backslash. -/
def skipEscape : Bytes → Except Error Bytes
  | [] => .error .endOfText
  | c :: rest =>
    if c = Byte.ofChar 'u' then (fourDigits rest).map (·.2)
    else
      match plainEscape? c with
      | some _ => .ok rest
      | none => .error .malformed

/-! ## Reading consumes -/

theorem length_fourDigits {s : Bytes} {r : Nat × Bytes} (h : fourDigits s = .ok r) :
    r.2.length < s.length := by
  unfold fourDigits at h
  split at h
  · split at h
    · obtain rfl := Except.ok.inj h
      simp only [List.length_cons]
      omega
    · cases h
  · cases h

theorem length_word_le {w s rest : Bytes} (h : word w s = .ok rest) :
    rest.length ≤ s.length := by
  fun_induction word w s with
  | case1 s => obtain rfl := Except.ok.inj h; exact Nat.le_refl _
  | case2 => cases h
  | case3 ws b t ih =>
    have := ih h
    simp only [List.length_cons]
    omega
  | case4 => cases h

theorem length_codePoint {s : Bytes} {r : Nat × Bytes} (h : codePoint s = .ok r) :
    r.2.length < s.length := by
  unfold codePoint at h
  split at h
  · cases h
  · rename_i n s₁ h₁
    have l₁ := length_fourDigits h₁
    split at h
    · cases h
    · split at h
      · split at h
        · cases h
        · rename_i s₂ h₂
          have l₂ := length_word_le h₂
          split at h
          · cases h
          · rename_i m s₃ h₃
            have l₃ := length_fourDigits h₃
            split at h
            · obtain rfl := Except.ok.inj h
              simp only at *
              omega
            · cases h
      · obtain rfl := Except.ok.inj h
        exact l₁

theorem length_escape {s : Bytes} {r : Bytes × Bytes} (h : escape s = .ok r) :
    r.2.length < s.length := by
  cases s with
  | nil => cases h
  | cons c rest =>
    simp only [escape] at h
    split at h
    · cases hc : codePoint rest with
      | error e => simp [hc, Except.map] at h
      | ok p =>
        have := length_codePoint hc
        simp only [hc, Except.map, Except.ok.injEq] at h
        subst h
        simp only [List.length_cons]
        omega
    · split at h
      · obtain rfl := Except.ok.inj h
        simp
      · cases h

theorem length_skipEscape {s rest : Bytes} (h : skipEscape s = .ok rest) :
    rest.length < s.length := by
  cases s with
  | nil => cases h
  | cons c t =>
    simp only [skipEscape] at h
    split at h
    · cases hf : fourDigits t with
      | error e => simp [hf, Except.map] at h
      | ok p =>
        have := length_fourDigits hf
        simp only [hf, Except.map, Except.ok.injEq] at h
        subst h
        simp only [List.length_cons]
        omega
    · split at h
      · obtain rfl := Except.ok.inj h
        simp
      · cases h

/-! ## Whole strings -/

/-- The bytes of a string up to its closing quote. -/
def readBytes : Bytes → Result Bytes
  | [] => .error .endOfText
  | b :: rest =>
    if b = Byte.doubleQuote then .ok ([], rest)
    else if b = Byte.backslash then
      match _h : escape rest with
      | .error e => .error e
      | .ok (bs, after) => (readBytes after).map fun r => (bs ++ r.1, r.2)
    else if b < 0x20 then .error .malformed
    else (readBytes rest).map fun r => (b :: r.1, r.2)
  termination_by s => s.length
  decreasing_by
    · have := length_escape _h
      simp only [List.length_cons] at *
      omega
    · simp

/-- Reads a string behind its opening quote as bytes, which are UTF-8. -/
def readValid (s : Bytes) : Result Bytes :=
  match readBytes s with
  | .error e => .error e
  | .ok (bs, rest) => if Text.Utf8.isValid bs then .ok (bs, rest) else .error .malformed

/-- Reads a string behind its opening quote. -/
def read (s : Bytes) : Result String :=
  (readValid s).map fun r => ((Text.Utf8.toString? r.1).getD "", r.2)

/-- Passes over a string behind its opening quote. -/
def skip : Bytes → Except Error Bytes
  | [] => .error .endOfText
  | b :: rest =>
    if b = Byte.doubleQuote then .ok rest
    else if b = Byte.backslash then
      match _h : skipEscape rest with
      | .error e => .error e
      | .ok after => skip after
    else if b < 0x20 then .error .malformed
    else skip rest
  termination_by s => s.length
  decreasing_by
    · have := length_skipEscape _h
      simp only [List.length_cons] at *
      omega
    · simp

theorem length_skip {s rest : Bytes} (h : skip s = .ok rest) : rest.length < s.length := by
  fun_induction skip s with
  | case1 => cases h
  | case2 =>
    obtain rfl := Except.ok.inj h
    simp
  | case3 => cases h
  | case4 t after hs _ ih =>
    have := length_skipEscape hs
    have := ih h
    simp only [List.length_cons]
    omega
  | case5 => cases h
  | case6 b t hb hs hc ih =>
    have := ih h
    simp only [List.length_cons]
    omega

/-! ## Writing -/

/-- How a byte of a string is written. -/
def writeByte (b : UInt8) : Bytes :=
  if b = Byte.doubleQuote ∨ b = Byte.backslash then [Byte.backslash, b]
  else if b = 0x08 then [Byte.backslash, Byte.ofChar 'b']
  else if b = 0x0c then [Byte.backslash, Byte.ofChar 'f']
  else if b = 0x0a then [Byte.backslash, Byte.ofChar 'n']
  else if b = 0x0d then [Byte.backslash, Byte.ofChar 'r']
  else if b = 0x09 then [Byte.backslash, Byte.ofChar 't']
  else if b < 0x20 then
    [Byte.backslash, Byte.ofChar 'u', Byte.zero, Byte.zero, Byte.hexDigit (b.toNat / 16),
      Byte.hexDigit (b.toNat % 16)]
  else [b]

/-- Writes bytes as a string; they ought to be UTF-8. -/
def write (bs : Bytes) : Bytes := Byte.doubleQuote :: (bs.flatMap writeByte ++ [Byte.doubleQuote])

end Bytewise.Json.Text
