/-
# Bytewise.Proofs.Json.Text -- which texts are strings

`Spelled body bs`: between double quotes, the body stands for the bytes `bs`.  A byte
stands for itself, or an escape stands for one byte or for a character (`Escape`), and
a character may be written as two surrogates (`Point`).  The reader of strings reads
exactly these (`readBytes_eq_ok_iff`), as long as what they stand for is a text
(`readValid_eq_ok_iff`).

Every string is written in one of its spellings (`spelled_write`): a byte is written
as itself, or as an escape that stands for it (`writeByte_cases`).
-/
import Bytewise.Proofs.Byte.Digit
import Bytewise.Proofs.Json.Document
import Bytewise.Proofs.Outcome
import Bytewise.Proofs.Text.Utf8

namespace Bytewise.Json.Text

set_option autoImplicit false

variable {b : UInt8} {n : Nat} {s bs rest : Bytes}

def letterU : UInt8 := Byte.ofChar 'u'

/-! ## Spellings -/

/-- Four hexadecimal digits of either case. -/
inductive Hex : Bytes → Nat → Prop
  | four {a b c d : UInt8} {i j k l : Nat} (first : Byte.Hexadecimal a i)
      (second : Byte.Hexadecimal b j) (third : Byte.Hexadecimal c k)
      (fourth : Byte.Hexadecimal d l) : Hex [a, b, c, d] (((i * 16 + j) * 16 + k) * 16 + l)

/-- What stands behind `\u` for a code point: its digits, or those of its two surrogates. -/
inductive Point : Bytes → Nat → Prop
  | one {w : Bytes} {n : Nat} (hex : Hex w n) (noTrail : isTrail n = false)
      (noLead : isLead n = false) : Point w n
  | pair {w w' : Bytes} {n m : Nat} (hex : Hex w n) (hex' : Hex w' m) (lead : isLead n = true)
      (trail : isTrail m = true) : Point (w ++ Byte.backslash :: letterU :: w') (joinSurrogates n m)

/-- What stands behind a backslash, and the bytes that it stands for. -/
inductive Escape : Bytes → Bytes → Prop
  | letter {c b : UInt8} (plain : plainEscape? c = some b) : Escape [c] [b]
  | point {w : Bytes} {n : Nat} (point : Point w n) :
      Escape (letterU :: w) (Text.Utf8.encode [Char.ofNat n])

/-- What stands between the quotes of a string, and the bytes that it stands for. -/
inductive Spelled : Bytes → Bytes → Prop
  | nil : Spelled [] []
  | plain {b : UInt8} {body bs : Bytes} (quote : b ≠ Byte.doubleQuote)
      (backslash : b ≠ Byte.backslash) (control : ¬ b < 0x20) (behind : Spelled body bs) :
      Spelled (b :: body) (b :: bs)
  | escape {letters first body bs : Bytes} (escape : Escape letters first)
      (behind : Spelled body bs) :
      Spelled (Byte.backslash :: (letters ++ body)) (first ++ bs)

/-! ## Escapes are read -/

theorem fourDigits_eq_ok_iff : fourDigits s = .ok (n, rest) ↔ ∃ w, s = w ++ rest ∧ Hex w n := by
  constructor
  · intro read
    rw [fourDigits.eq_def] at read
    split at read
    · rename_i a b c d rest'
      split at read
      · rename_i i j k l first second third fourth
        obtain ⟨rfl, rfl⟩ := Prod.mk.inj (Except.ok.inj read)
        rw [Byte.hexValue?_eq_some_iff] at first second third fourth
        exact ⟨[a, b, c, d], rfl, .four first second third fourth⟩
      · cases read
    · cases read
  · rintro ⟨_, rfl, first, second, third, fourth⟩
    rw [← Byte.hexValue?_eq_some_iff] at first second third fourth
    simp [fourDigits, first, second, third, fourth]

theorem codePoint_eq_ok_iff : codePoint s = .ok (n, rest) ↔ ∃ w, s = w ++ rest ∧ Point w n := by
  constructor
  · intro read
    rw [codePoint] at read
    split at read
    · cases read
    · rename_i m s₁ first
      obtain ⟨w, rfl, hex⟩ := fourDigits_eq_ok_iff.1 first
      split at read
      · cases read
      rename_i noTrail
      split at read
      · rename_i lead
        split at read
        · cases read
        rename_i s₂ marked
        obtain rfl := word_eq_ok_iff.1 marked
        split at read
        · cases read
        rename_i m' s₃ second
        obtain ⟨w', rfl, hex'⟩ := fourDigits_eq_ok_iff.1 second
        split at read
        · rename_i trail
          obtain ⟨rfl, rfl⟩ := Prod.mk.inj (Except.ok.inj read)
          exact ⟨w ++ Byte.backslash :: letterU :: w', by simp [letterU], .pair hex hex' lead trail⟩
        · cases read
      · rename_i noLead
        obtain ⟨rfl, rfl⟩ := Prod.mk.inj (Except.ok.inj read)
        exact ⟨w, rfl, .one hex (by simpa using noTrail) (by simpa using noLead)⟩
  · rintro ⟨w, rfl, point⟩
    cases point with
    | one hex noTrail noLead =>
        rw [codePoint, fourDigits_eq_ok_iff.2 ⟨_, rfl, hex⟩]
        simp [noTrail, noLead]
    | @pair w w' n m hex hex' lead trail =>
        have noTrail : isTrail n = false := by
          simp only [isLead, isTrail, Bool.and_eq_true, decide_eq_true_eq] at lead ⊢
          simp
          omega
        have marked : word [Byte.backslash, Byte.ofChar 'u'] (Byte.backslash :: letterU :: w' ++ rest) =
            .ok (w' ++ rest) := word_eq_ok_iff.2 rfl
        rw [codePoint, List.append_assoc, fourDigits_eq_ok_iff.2 ⟨_, rfl, hex⟩]
        simp only [noTrail, lead, marked, fourDigits_eq_ok_iff.2 ⟨_, rfl, hex'⟩, trail, if_true]
        rfl

theorem escape_eq_ok_iff :
    escape s = .ok (bs, rest) ↔ ∃ letters, s = letters ++ rest ∧ Escape letters bs := by
  constructor
  · intro read
    cases s with
    | nil => cases read
    | cons c s =>
        rw [escape] at read
        split at read
        · subst c
          obtain ⟨⟨n, after⟩, pointRead, same⟩ := map_eq_ok_iff.1 read
          obtain ⟨rfl, rfl⟩ := Prod.mk.inj same
          obtain ⟨w, rfl, point⟩ := codePoint_eq_ok_iff.1 pointRead
          exact ⟨letterU :: w, rfl, .point point⟩
        · split at read
          · rename_i b plain
            obtain ⟨rfl, rfl⟩ := Prod.mk.inj (Except.ok.inj read)
            exact ⟨[c], rfl, .letter plain⟩
          · cases read
  · rintro ⟨letters, rfl, escapes⟩
    cases escapes with
    | @letter c b plain =>
        have other : c ≠ Byte.ofChar 'u' := by
          rintro rfl
          revert plain
          simp [show plainEscape? (Byte.ofChar 'u') = none by decide]
        rw [List.singleton_append, escape, if_neg other, plain]
    | @point w n point =>
        rw [List.cons_append, escape, letterU, if_pos rfl, codePoint_eq_ok_iff.2 ⟨w, rfl, point⟩]
        rfl

/-! ## Strings are read -/

theorem readBytes_escape {letters first : Bytes} (escapes : Escape letters first) (after : Bytes) :
    readBytes (Byte.backslash :: (letters ++ after)) =
      (readBytes after).map fun r => (first ++ r.1, r.2) := by
  have read : escape (letters ++ after) = .ok (first, after) :=
    escape_eq_ok_iff.2 ⟨letters, rfl, escapes⟩
  rw [readBytes, if_neg (by decide), if_pos rfl]
  split
  · rename_i failed
    rw [read] at failed
    cases failed
  · rename_i first' after' read'
    rw [read, Except.ok.injEq, Prod.mk.injEq] at read'
    obtain ⟨rfl, rfl⟩ := read'
    rfl

/-- The reader reads up to a closing quote, and what is before it spells the bytes. -/
theorem readBytes_eq_ok_iff :
    readBytes s = .ok (bs, rest) ↔
      ∃ body, s = body ++ Byte.doubleQuote :: rest ∧ Spelled body bs := by
  constructor
  · intro read
    fun_induction readBytes s generalizing bs with
    | case1 => cases read
    | case2 s =>
        obtain ⟨rfl, rfl⟩ := Prod.mk.inj (Except.ok.inj read)
        exact ⟨[], rfl, .nil⟩
    | case3 => cases read
    | case4 s first after escapeRead _ ih =>
        obtain ⟨⟨bs', rest'⟩, behind, same⟩ := map_eq_ok_iff.1 read
        obtain ⟨rfl, rfl⟩ := Prod.mk.inj same
        obtain ⟨letters, rfl, escapes⟩ := escape_eq_ok_iff.1 escapeRead
        obtain ⟨body, rfl, spelled⟩ := ih behind
        exact ⟨Byte.backslash :: (letters ++ body), by simp, .escape escapes spelled⟩
    | case5 => cases read
    | case6 b s quote backslash control ih =>
        obtain ⟨⟨bs', rest'⟩, behind, same⟩ := map_eq_ok_iff.1 read
        obtain ⟨rfl, rfl⟩ := Prod.mk.inj same
        obtain ⟨body, rfl, spelled⟩ := ih behind
        exact ⟨b :: body, rfl, .plain quote backslash control spelled⟩
  · rintro ⟨body, rfl, spelled⟩
    induction spelled with
    | nil => simp [readBytes]
    | plain quote backslash control _ ih =>
        rw [List.cons_append, readBytes, if_neg quote, if_neg backslash, if_neg control, ih]
        rfl
    | escape escapes _ ih =>
        rw [List.cons_append, List.append_assoc, readBytes_escape escapes, ih]
        rfl

theorem readValid_eq_ok_iff :
    readValid s = .ok (bs, rest) ↔
      ∃ body text, s = body ++ Byte.doubleQuote :: rest ∧ Spelled body bs ∧
        Text.Utf8.ofString text = bs := by
  rw [readValid]
  constructor
  · intro read
    split at read
    · cases read
    · rename_i bs' rest' bytesRead
      split at read
      · rename_i valid
        obtain ⟨rfl, rfl⟩ := Prod.mk.inj (Except.ok.inj read)
        obtain ⟨body, rfl, spelled⟩ := readBytes_eq_ok_iff.1 bytesRead
        obtain ⟨text, written⟩ := Text.Utf8.isValid_iff.1 valid
        exact ⟨body, text, rfl, spelled, written⟩
      · cases read
  · rintro ⟨body, text, rfl, spelled, written⟩
    rw [readBytes_eq_ok_iff.2 ⟨body, rfl, spelled⟩]
    simp [Text.Utf8.isValid_iff.2 ⟨text, written⟩]

/-! ## Strings are written -/

/-- A control byte in hexadecimal is no surrogate, and it is a character of one byte. -/
theorem escape_control (control : b < 0x20) :
    Escape [letterU, Byte.zero, Byte.zero, Byte.hexDigit (b.toNat / 16),
      Byte.hexDigit (b.toNat % 16)] [b] := by
  have small : b.toNat < 0x20 := by simpa [UInt8.lt_iff_toNat_lt] using control
  have zero : Byte.Hexadecimal Byte.zero 0 := by decide
  have high := Byte.hexadecimal_hexDigit (show b.toNat / 16 < 16 by omega)
  have low := Byte.hexadecimal_hexDigit (show b.toNat % 16 < 16 by omega)
  have hex := Hex.four zero zero high low
  have value : ((0 * 16 + 0) * 16 + b.toNat / 16) * 16 + b.toNat % 16 = b.toNat := by omega
  rw [value] at hex
  have point : Point [Byte.zero, Byte.zero, Byte.hexDigit (b.toNat / 16),
      Byte.hexDigit (b.toNat % 16)] b.toNat :=
    .one hex (by simp [isTrail]; omega) (by simp [isLead]; omega)
  have char : Text.Utf8.encode [Char.ofNat b.toNat] = [b] := by
    rw [Text.Utf8.encode_cons, Text.Utf8.encode_one (by omega)]
    rfl
  rw [← char]
  exact .point point

/-- A byte is written as an escape that stands for it, or it stands for itself. -/
theorem writeByte_cases (b : UInt8) :
    (∃ letters, writeByte b = Byte.backslash :: letters ∧ Escape letters [b]) ∨
    (writeByte b = [b] ∧ b ≠ Byte.doubleQuote ∧ b ≠ Byte.backslash ∧ ¬ b < 0x20) := by
  unfold writeByte
  split
  · rename_i special
    refine .inl ⟨[b], rfl, .letter ?_⟩
    rcases special with rfl | rfl <;> rfl
  rename_i ordinary
  -- Five control bytes have a letter of their own.
  iterate 5
    split
    · subst b
      exact .inl ⟨_, rfl, .letter rfl⟩
  split
  · rename_i control
    exact .inl ⟨_, rfl, escape_control control⟩
  · rename_i control
    rw [not_or] at ordinary
    exact .inr ⟨rfl, ordinary.1, ordinary.2, control⟩

theorem spelled_write (bs : Bytes) : Spelled (bs.flatMap writeByte) bs := by
  induction bs with
  | nil => exact .nil
  | cons b bs ih =>
      rw [List.flatMap_cons]
      rcases writeByte_cases b with ⟨letters, written, escapes⟩ | ⟨written, quote, backslash, control⟩
      · rw [written]
        exact .escape escapes ih
      · rw [written]
        exact .plain quote backslash control ih

end Bytewise.Json.Text
