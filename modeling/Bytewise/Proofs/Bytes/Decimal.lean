/-
# Bytewise.Proofs.Bytes.Decimal -- which bytes are numbers

`Decimal`, `Signed` and `Unsigned` say what a number looks like, of any length and with
any number of leading zeros, and which number it is.  `digits?` reads decimals up to its
limit (`digits?_eq_some_iff`), and each sign has the limit of its end of the range, so
the readers with a sign read what is in range, and nothing else
(`signed?_eq_some_iff`, `unsigned?_eq_some_iff`).  White space may be around it
(`toInt64?_eq_some_iff`, `toUInt64?_eq_some_iff`).

What `Numeral.integer` writes is a number, and no other one (`signed_integer`,
`Signed.unique`).
-/
import Mathlib.Data.List.Induction
import Bytewise.Bytes.Decimal
import Bytewise.Proofs.Bytes.Blank
import Bytewise.Proofs.Text.Numeral

namespace Bytewise.Bytes

set_option autoImplicit false

open Text (Numeral.value Numeral.decimal Numeral.integer)

/-- One or more decimal digits, and the number that they are. -/
inductive Decimal : Bytes → Nat → Prop
  | digit {b : UInt8} (digit : Byte.isDigit b = true) : Decimal [b] (b.toNat - Byte.zero.toNat)
  | more {s : Bytes} {b : UInt8} {n : Nat} (before : Decimal s n) (digit : Byte.isDigit b = true) :
      Decimal (s ++ [b]) (n * 10 + (b.toNat - Byte.zero.toNat))

/-- A decimal behind a plus sign, a minus sign, or none. -/
inductive Signed : Bytes → Int → Prop
  | digits {s : Bytes} {n : Nat} (decimal : Decimal s n) : Signed s n
  | plus {s : Bytes} {n : Nat} (decimal : Decimal s n) : Signed (Byte.plus :: s) n
  | minus {s : Bytes} {n : Nat} (decimal : Decimal s n) : Signed (Byte.hyphen :: s) (-n)

/-- A decimal behind a plus sign, or none. -/
inductive Unsigned : Bytes → Nat → Prop
  | digits {s : Bytes} {n : Nat} (decimal : Decimal s n) : Unsigned s n
  | plus {s : Bytes} {n : Nat} (decimal : Decimal s n) : Unsigned (Byte.plus :: s) n

variable {s core : Bytes} {b : UInt8} {limit m n : Nat} {i j : Int}

/-! ## Digits -/

/-- The values of digits. -/
def digitValues (s : Bytes) : List Nat := s.map fun b => b.toNat - Byte.zero.toNat

/-- A number is read off its digits from left to right. -/
theorem decimal_iff :
    Decimal s n ↔
      s ≠ [] ∧ (∀ b ∈ s, Byte.isDigit b = true) ∧ Numeral.value 10 (digitValues s) = n := by
  constructor
  · intro decimal
    induction decimal with
    | @digit b digit =>
        refine ⟨List.cons_ne_nil _ _, List.forall_mem_singleton.2 digit, ?_⟩
        show 0 * 10 + (b.toNat - Byte.zero.toNat) = _
        rw [Nat.zero_mul, Nat.zero_add]
    | @more s b n _ digit ih =>
        obtain ⟨-, digits, value⟩ := ih
        refine ⟨List.append_ne_nil_of_right_ne_nil _ (List.cons_ne_nil _ _), ?_, ?_⟩
        · exact List.forall_mem_append.2 ⟨digits, List.forall_mem_singleton.2 digit⟩
        · rw [digitValues, List.map_append, List.map_singleton, Text.Numeral.value_concat]
          rw [← value, digitValues]
  · rintro ⟨some, digits, rfl⟩
    induction s using List.reverseRecOn with
    | nil => exact absurd rfl some
    | append_singleton s b ih =>
        rw [List.forall_mem_append, List.forall_mem_singleton] at digits
        rw [digitValues, List.map_append, List.map_singleton, Text.Numeral.value_concat]
        by_cases first : s = []
        · subst first
          show Decimal [b] (0 * 10 + _)
          rw [Nat.zero_mul, Nat.zero_add]
          exact .digit digits.2
        · exact .more (ih first digits.1) digits.2

theorem Decimal.isDigit (decimal : Decimal s n) : ∀ b ∈ s, Byte.isDigit b = true :=
  (decimal_iff.1 decimal).2.1

theorem Decimal.unique (decimal : Decimal s n) (decimal' : Decimal s m) : n = m :=
  (decimal_iff.1 decimal).2.2.symm.trans (decimal_iff.1 decimal').2.2

theorem not_decimal_nil : ¬ Decimal [] n := fun decimal => (decimal_iff.1 decimal).1 rfl

theorem not_decimal_cons (other : Byte.isDigit b = false) : ¬ Decimal (b :: s) n := fun decimal =>
  Bool.false_ne_true (other.symm.trans (decimal.isDigit b List.mem_cons_self))

/-- Digits are read as the number they are, up to the limit. -/
theorem digits?_eq_some_iff : digits? limit s = some n ↔ Decimal s n ∧ n ≤ limit := by
  rw [digits?, decimal_iff, Text.Numeral.value?_eq (by decide)]
  show (if s ≠ [] ∧ s.all Byte.isDigit = true then
    (if Numeral.value 10 (digitValues s) ≤ limit then some (Numeral.value 10 (digitValues s))
      else none) else none) = some n ↔ _
  rw [Option.ite_none_right_eq_some, Option.ite_none_right_eq_some, List.all_eq_true,
    Option.some.injEq]
  constructor
  · rintro ⟨⟨some, digits⟩, small, rfl⟩
    exact ⟨⟨some, digits, rfl⟩, small⟩
  · rintro ⟨⟨some, digits, rfl⟩, small⟩
    exact ⟨⟨some, digits⟩, small, rfl⟩

/-! ## Signs -/

theorem not_signed_nil : ¬ Signed [] i := by
  rintro ⟨decimal⟩
  exact not_decimal_nil decimal

theorem signed_hyphen_iff : Signed (Byte.hyphen :: s) i ↔ ∃ n : Nat, Decimal s n ∧ i = -n := by
  constructor
  · intro signed
    cases signed with
    | digits decimal => exact absurd decimal (not_decimal_cons (by decide))
    | minus decimal => exact ⟨_, decimal, rfl⟩
  · rintro ⟨n, decimal, rfl⟩
    exact .minus decimal

theorem signed_plus_iff : Signed (Byte.plus :: s) i ↔ ∃ n : Nat, Decimal s n ∧ i = n := by
  constructor
  · intro signed
    cases signed with
    | digits decimal => exact absurd decimal (not_decimal_cons (by decide))
    | plus decimal => exact ⟨_, decimal, rfl⟩
  · rintro ⟨n, decimal, rfl⟩
    exact .plus decimal

theorem signed_iff (hyphen : b ≠ Byte.hyphen) (plus : b ≠ Byte.plus) :
    Signed (b :: s) i ↔ ∃ n : Nat, Decimal (b :: s) n ∧ i = n := by
  constructor
  · intro signed
    cases signed with
    | digits decimal => exact ⟨_, decimal, rfl⟩
    | plus => exact absurd rfl plus
    | minus => exact absurd rfl hyphen
  · rintro ⟨n, decimal, rfl⟩
    exact .digits decimal

/-- Bytes are at most one number. -/
theorem Signed.unique (signed : Signed s i) (signed' : Signed s j) : i = j := by
  cases s with
  | nil => exact absurd signed not_signed_nil
  | cons b s =>
      by_cases hyphen : b = Byte.hyphen
      · subst hyphen
        obtain ⟨n, decimal, rfl⟩ := signed_hyphen_iff.1 signed
        obtain ⟨m, decimal', rfl⟩ := signed_hyphen_iff.1 signed'
        rw [decimal.unique decimal']
      by_cases plus : b = Byte.plus
      · subst plus
        obtain ⟨n, decimal, rfl⟩ := signed_plus_iff.1 signed
        obtain ⟨m, decimal', rfl⟩ := signed_plus_iff.1 signed'
        rw [decimal.unique decimal']
      · obtain ⟨n, decimal, rfl⟩ := (signed_iff hyphen plus).1 signed
        obtain ⟨m, decimal', rfl⟩ := (signed_iff hyphen plus).1 signed'
        rw [decimal.unique decimal']

/-- The limit of a number without a minus sign is one above. -/
theorem map_ofNat_digits?_eq_some_iff :
    (digits? limit s).map Int.ofNat = some i ↔ (∃ n : Nat, Decimal s n ∧ i = n) ∧ i ≤ limit := by
  simp only [Option.map_eq_some_iff, digits?_eq_some_iff, Int.ofNat_eq_natCast]
  constructor
  · rintro ⟨n, ⟨decimal, small⟩, rfl⟩
    exact ⟨⟨n, decimal, rfl⟩, by omega⟩
  · rintro ⟨⟨n, decimal, rfl⟩, small⟩
    exact ⟨n, ⟨decimal, by omega⟩, rfl⟩

/-- The limit of a number with a minus sign is one below. -/
theorem map_neg_digits?_eq_some_iff :
    ((digits? limit s).map fun n => -Int.ofNat n) = some i ↔
      (∃ n : Nat, Decimal s n ∧ i = -n) ∧ -limit ≤ i := by
  simp only [Option.map_eq_some_iff, digits?_eq_some_iff, Int.ofNat_eq_natCast]
  constructor
  · rintro ⟨n, ⟨decimal, small⟩, rfl⟩
    exact ⟨⟨n, decimal, rfl⟩, by omega⟩
  · rintro ⟨⟨n, decimal, rfl⟩, small⟩
    exact ⟨n, ⟨decimal, by omega⟩, rfl⟩

theorem signed?_eq_some_iff :
    signed? s = some i ↔ Signed s i ∧ -0x8000000000000000 ≤ i ∧ i ≤ 0x7fffffffffffffff := by
  cases s with
  | nil => exact iff_of_false nofun fun signed => not_signed_nil signed.1
  | cons b s =>
      rw [signed?]
      by_cases hyphen : b = Byte.hyphen
      · subst hyphen
        rw [if_pos rfl, map_neg_digits?_eq_some_iff, signed_hyphen_iff]
        refine and_congr_right ?_
        rintro ⟨n, -, rfl⟩
        exact ⟨fun low => ⟨low, by omega⟩, And.left⟩
      rw [if_neg hyphen]
      by_cases plus : b = Byte.plus
      · subst plus
        rw [if_pos rfl, map_ofNat_digits?_eq_some_iff, signed_plus_iff]
        refine and_congr_right ?_
        rintro ⟨n, -, rfl⟩
        exact ⟨fun high => ⟨by omega, high⟩, And.right⟩
      · rw [if_neg plus, map_ofNat_digits?_eq_some_iff, signed_iff hyphen plus]
        refine and_congr_right ?_
        rintro ⟨n, -, rfl⟩
        exact ⟨fun high => ⟨by omega, high⟩, And.right⟩

theorem unsigned?_eq_some_iff :
    unsigned? s = some n ↔ Unsigned s n ∧ n ≤ 0xffffffffffffffff := by
  cases s with
  | nil =>
      refine iff_of_false nofun ?_
      rintro ⟨⟨decimal⟩, -⟩
      exact not_decimal_nil decimal
  | cons b s =>
      rw [unsigned?]
      by_cases plus : b = Byte.plus
      · subst plus
        rw [if_pos rfl, digits?_eq_some_iff]
        refine and_congr_left fun _ => ⟨.plus, fun unsigned => ?_⟩
        cases unsigned with
        | digits decimal => exact absurd decimal (not_decimal_cons (by decide))
        | plus decimal => exact decimal
      · rw [if_neg plus, digits?_eq_some_iff]
        refine and_congr_left fun _ => ⟨.digits, fun unsigned => ?_⟩
        cases unsigned with
        | digits decimal => exact decimal
        | plus => exact absurd rfl plus

theorem Unsigned.signed (unsigned : Unsigned s n) : Signed s n := by
  cases unsigned with
  | digits decimal => exact .digits decimal
  | plus decimal => exact .plus decimal

/-! ## White space around it -/

theorem notMem_blanks_of_isDigit (digit : Byte.isDigit b = true) : b ∉ Byte.blanks := by
  intro blank
  have none : Byte.blanks.all (fun b => !Byte.isDigit b) = true := by decide
  have other := List.all_eq_true.1 none b blank
  rw [digit] at other
  exact Bool.false_ne_true other

theorem Decimal.isWord (decimal : Decimal s n) : IsWord s :=
  ⟨(decimal_iff.1 decimal).1, fun b mem => notMem_blanks_of_isDigit (decimal.isDigit b mem)⟩

/-- There is no white space in a number. -/
theorem Signed.isWord (signed : Signed s i) : IsWord s := by
  have behind : ∀ {sign : UInt8} {s : Bytes} {n : Nat}, sign ∉ Byte.blanks → Decimal s n →
      IsWord (sign :: s) := fun free decimal =>
    ⟨List.cons_ne_nil _ _, List.forall_mem_cons.2 ⟨free, decimal.isWord.2⟩⟩
  cases signed with
  | digits decimal => exact decimal.isWord
  | plus decimal => exact behind (by decide) decimal
  | minus decimal => exact behind (by decide) decimal

theorem toInt64?_eq_some_iff :
    toInt64? s = some i ↔
      (∃ core, Padded core s ∧ Signed core i) ∧
        -0x8000000000000000 ≤ i ∧ i ≤ 0x7fffffffffffffff := by
  rw [toInt64?, signed?_eq_some_iff]
  refine and_congr_left fun _ => ⟨fun signed => ⟨s.strip, (trimmed_strip s).2, signed⟩, ?_⟩
  rintro ⟨core, padded, signed⟩
  rwa [padded.strip_eq signed.isWord.trimmed]

/-- The least number is in range, and the one below it is not. -/
example :
    toInt64? [0x20, 0x2d, 0x39, 0x32, 0x32, 0x33, 0x33, 0x37, 0x32, 0x30, 0x33, 0x36, 0x38, 0x35, 0x34,
      0x37, 0x37, 0x35, 0x38, 0x30, 0x38, 0x0a] = some (-0x8000000000000000) ∧
    toInt64? [0x20, 0x2d, 0x39, 0x32, 0x32, 0x33, 0x33, 0x37, 0x32, 0x30, 0x33, 0x36, 0x38, 0x35, 0x34,
      0x37, 0x37, 0x35, 0x38, 0x30, 0x39, 0x0a] = none := by
  decide

theorem toUInt64?_eq_some_iff :
    toUInt64? s = some n ↔
      (∃ core, Padded core s ∧ Unsigned core n) ∧ n ≤ 0xffffffffffffffff := by
  rw [toUInt64?, unsigned?_eq_some_iff]
  refine and_congr_left fun _ => ⟨fun unsigned => ⟨s.strip, (trimmed_strip s).2, unsigned⟩, ?_⟩
  rintro ⟨core, padded, unsigned⟩
  rwa [padded.strip_eq unsigned.signed.isWord.trimmed]

/-! ## Written numbers -/

theorem decimal_decimal (n : Nat) : Decimal (Numeral.decimal n) n := by
  refine decimal_iff.2 ⟨?_, fun b mem => Text.Numeral.isDigit_of_mem_decimal mem, ?_⟩
  · obtain ⟨b, s, split, -⟩ := Text.Numeral.exists_decimal_eq_cons n
    rw [split]
    exact List.cons_ne_nil _ _
  · have values : digitValues (Numeral.decimal n) = Text.Numeral.digits 10 n := by
      rw [digitValues, Text.Numeral.decimal, List.map_map]
      refine (List.map_congr_left fun d mem => ?_).trans (List.map_id _)
      have small : d < 10 := Text.Numeral.lt_of_mem_digits (by decide) mem
      rw [Function.comp_apply, Byte.toNat_hexDigit small, Nat.add_sub_cancel_left, id]
    rw [values, Text.Numeral.value_digits]

theorem signed_integer (i : Int) : Signed (Numeral.integer i) i := by
  cases i with
  | ofNat n => exact .digits (decimal_decimal n)
  | negSucc n => exact .minus (decimal_decimal (n + 1))

/-- A number that fits is read back, whatever white space is around it. -/
theorem toInt64?_of_padded (padded : Padded (Numeral.integer i) s)
    (low : -0x8000000000000000 ≤ i) (high : i ≤ 0x7fffffffffffffff) : toInt64? s = some i :=
  toInt64?_eq_some_iff.2 ⟨⟨_, padded, signed_integer i⟩, low, high⟩

/-- As an unsigned one only if it is not negative. -/
theorem toUInt64?_of_padded (padded : Padded (Numeral.integer i) s)
    (high : i ≤ 0xffffffffffffffff) : toUInt64? s = some n ↔ (n : Int) = i := by
  rw [toUInt64?, padded.strip_eq (signed_integer i).isWord.trimmed, unsigned?_eq_some_iff]
  constructor
  · rintro ⟨unsigned, -⟩
    exact unsigned.signed.unique (signed_integer i)
  · rintro rfl
    exact ⟨.digits (decimal_decimal n), by omega⟩

end Bytewise.Bytes
