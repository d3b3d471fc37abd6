/-
# Bytewise.Proofs.Byte.Digit -- digits and their values

`Octal b d` and `Hexadecimal b d` say by the ranges of the digits which byte
stands for which value; `octalValue?` and `hexValue?` read exactly these
(`octalValue?_eq_some_iff`, `hexValue?_eq_some_iff`).  A digit that `hexDigit`
writes is one of them; below ten it is a decimal digit, and its byte is its
value above that of zero.  Two hexadecimal digits are a byte (`ofNat_digits`).
-/
import Bytewise.Proofs.Byte.Case

namespace Bytewise.Byte

set_option autoImplicit false

variable {b : UInt8} {d n : Nat}

/-! ## Values -/

/-- The byte is the octal digit of this value. -/
def Octal (b : UInt8) (d : Nat) : Prop := d < 8 ∧ b.toNat = 0x30 + d

/-- The byte is the hexadecimal digit of this value, of either case. -/
def Hexadecimal (b : UInt8) (d : Nat) : Prop :=
  (d < 10 ∧ b.toNat = 0x30 + d) ∨
    (10 ≤ d ∧ d < 16 ∧ (b.toNat = 0x41 + (d - 10) ∨ b.toNat = 0x61 + (d - 10)))

instance (b : UInt8) (d : Nat) : Decidable (Octal b d) :=
  inferInstanceAs (Decidable (_ ∧ _))

instance (b : UInt8) (d : Nat) : Decidable (Hexadecimal b d) :=
  inferInstanceAs (Decidable ((_ ∧ _) ∨ (_ ∧ _ ∧ _)))

theorem octalValue?_eq_some_iff : octalValue? b = some d ↔ Octal b d := by
  simp only [octalValue?, Octal, Bool.and_eq_true, decide_eq_true_eq, UInt8.le_iff_toNat_le,
    UInt8.reduceToNat]
  split <;> simp only [Option.some.injEq, reduceCtorEq, false_iff] <;> omega

theorem hexValue?_eq_some_iff : hexValue? b = some d ↔ Hexadecimal b d := by
  simp only [hexValue?, isDigit_iff, Hexadecimal, Bool.and_eq_true, decide_eq_true_eq,
    UInt8.le_iff_toNat_le, UInt8.reduceToNat]
  repeat' split
  all_goals simp only [Option.some.injEq, reduceCtorEq, false_iff]
  all_goals omega

theorem octalValue?_eq_none_iff : octalValue? b = none ↔ ∀ d, ¬ Octal b d := by
  simp only [Option.eq_none_iff_forall_ne_some, ne_eq, octalValue?_eq_some_iff]

theorem hexValue?_eq_none_iff : hexValue? b = none ↔ ∀ d, ¬ Hexadecimal b d := by
  simp only [Option.eq_none_iff_forall_ne_some, ne_eq, hexValue?_eq_some_iff]

instance (b : UInt8) : Decidable (∀ d, ¬ Octal b d) := decidable_of_iff _ octalValue?_eq_none_iff

/-! ## Digits that are written -/

theorem hexadecimal_hexDigit (small : n < 16) : Hexadecimal (hexDigit n) n := by
  have all : ∀ n < 16, Hexadecimal (hexDigit n) n := by decide
  exact all n small

theorem toNat_hexDigit (small : n < 10) : (hexDigit n).toNat = zero.toNat + n := by
  have all : ∀ n < 10, (hexDigit n).toNat = zero.toNat + n := by decide
  exact all n small

theorem isDigit_hexDigit (small : n < 10) : isDigit (hexDigit n) = true := by
  have all : ∀ n < 10, isDigit (hexDigit n) = true := by decide
  exact all n small

theorem hexDigit_sub_zero (digit : isDigit b = true) :
    hexDigit (b.toNat - zero.toNat) = b := by
  have range := isDigit_iff.1 digit
  show hexDigit (b.toNat - 0x30) = b
  rw [hexDigit, if_pos (by omega), Nat.add_sub_cancel' range.1, UInt8.ofNat_toNat]

/-- A byte is its two hexadecimal digits. -/
theorem ofNat_digits (b : UInt8) : UInt8.ofNat (b.toNat / 16 * 16 + b.toNat % 16) = b := by
  rw [Nat.div_add_mod', UInt8.ofNat_toNat]

end Bytewise.Byte
