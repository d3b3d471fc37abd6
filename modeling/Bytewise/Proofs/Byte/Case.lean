/-
# Bytewise.Proofs.Byte.Case -- letters and their cases, as numbers

The case maps of a byte said of its value, where they are two shifts by 32 and
otherwise nothing (`toNat_toLower`, `toNat_toUpper`).  From these:

* `fold_eq_iff` and `fold_eq_fold_iff`: what a byte folds to and which bytes fold
  alike, by the ranges of the letters (`Lowered`, `Alike`);
* `toLower_eq_iff`: a lower-case letter is what it and its upper case fold to;
* `eq_or_isLower_of_toLower_eq`: two bytes that fold alike are the same byte or
  the same letter;
* `isWord_toLower`: words do not depend on case.
-/
import Bytewise.Byte

namespace Bytewise.Byte

set_option autoImplicit false

variable {a b c : UInt8}

theorem isUpper_iff : isUpper b = true ↔ 0x41 ≤ b.toNat ∧ b.toNat ≤ 0x5a := by
  simp [isUpper, UInt8.le_iff_toNat_le]

theorem isLower_iff : isLower b = true ↔ 0x61 ≤ b.toNat ∧ b.toNat ≤ 0x7a := by
  simp [isLower, UInt8.le_iff_toNat_le]

theorem isDigit_iff : isDigit b = true ↔ 0x30 ≤ b.toNat ∧ b.toNat ≤ 0x39 := by
  simp [isDigit, UInt8.le_iff_toNat_le]

theorem isWord_iff_toNat :
    isWord b = true ↔ (0x41 ≤ b.toNat ∧ b.toNat ≤ 0x5a) ∨ (0x61 ≤ b.toNat ∧ b.toNat ≤ 0x7a) ∨
      (0x30 ≤ b.toNat ∧ b.toNat ≤ 0x39) ∨ b.toNat = 0x5f := by
  have line : b = underscore ↔ b.toNat = 0x5f := UInt8.toNat_inj.symm
  simp only [isWord, isLetter, Bool.or_eq_true, isUpper_iff, isLower_iff, isDigit_iff, beq_iff_eq,
    line]
  omega

/-! ## The other case -/

theorem toNat_toLower (b : UInt8) :
    (toLower b).toNat = if 0x41 ≤ b.toNat ∧ b.toNat ≤ 0x5a then b.toNat + 0x20 else b.toNat := by
  by_cases upper : isUpper b = true
  · have range := isUpper_iff.1 upper
    rw [toLower, if_pos upper, if_pos range, UInt8.toNat_add]
    show (b.toNat + 0x20) % 256 = b.toNat + 0x20
    omega
  · rw [toLower, if_neg upper, if_neg (mt isUpper_iff.2 upper)]

theorem toNat_toUpper (b : UInt8) :
    (toUpper b).toNat = if 0x61 ≤ b.toNat ∧ b.toNat ≤ 0x7a then b.toNat - 0x20 else b.toNat := by
  by_cases lower : isLower b = true
  · have range := isLower_iff.1 lower
    have enough : (0x20 : UInt8) ≤ b := by
      rw [UInt8.le_iff_toNat_le]
      show 0x20 ≤ b.toNat
      omega
    rw [toUpper, if_pos lower, if_pos range, UInt8.toNat_sub_of_le _ _ enough]
    rfl
  · rw [toUpper, if_neg lower, if_neg (mt isLower_iff.2 lower)]

/-- `Lowered b c`: an upper-case letter has its lower case 32 places further on, and any other byte
is its own. -/
def Lowered (b c : UInt8) : Prop :=
  if 0x41 ≤ b.toNat ∧ b.toNat ≤ 0x5a then c.toNat = b.toNat + 0x20 else c = b

theorem toLower_eq_iff_lowered : toLower b = c ↔ Lowered b c := by
  rw [Lowered, ← UInt8.toNat_inj, ← UInt8.toNat_inj, toNat_toLower]
  split <;> exact eq_comm

theorem fold_eq_iff {caseSensitive : Bool} :
    fold caseSensitive b = c ↔ if caseSensitive then b = c else Lowered b c := by
  cases caseSensitive with
  | true => exact Iff.rfl
  | false => exact toLower_eq_iff_lowered

/-- The same byte or, where case is ignored, the two cases of a letter. -/
def Alike (caseSensitive : Bool) (a b : UInt8) : Prop :=
  a = b ∨ (caseSensitive = false ∧
    ((0x41 ≤ a.toNat ∧ a.toNat ≤ 0x5a ∧ b.toNat = a.toNat + 0x20) ∨
      (0x41 ≤ b.toNat ∧ b.toNat ≤ 0x5a ∧ a.toNat = b.toNat + 0x20)))

instance (caseSensitive : Bool) (a b : UInt8) : Decidable (Alike caseSensitive a b) :=
  inferInstanceAs (Decidable (a = b ∨ (caseSensitive = false ∧ (_ ∨ _))))

theorem fold_eq_fold_iff {caseSensitive : Bool} :
    fold caseSensitive a = fold caseSensitive b ↔ Alike caseSensitive a b := by
  cases caseSensitive with
  | true => simp [fold, Alike]
  | false =>
      show toLower a = toLower b ↔ _
      simp only [Alike, true_and, ← UInt8.toNat_inj, toNat_toLower]
      split <;> split <;> omega

theorem alike_refl (caseSensitive : Bool) (b : UInt8) : Alike caseSensitive b b := .inl rfl

/-- Two bytes fold to a lower-case letter: itself and its upper case. -/
theorem toLower_eq_iff (lower : isLower c = true) : toLower b = c ↔ b = c ∨ b = toUpper c := by
  rw [isLower_iff] at lower
  rw [← UInt8.toNat_inj, ← UInt8.toNat_inj, ← UInt8.toNat_inj, toNat_toLower, toNat_toUpper]
  split <;> omega

theorem eq_or_isLower_of_toLower_eq (same : toLower a = toLower b) :
    a = b ∨ isLower (toLower b) = true := by
  rw [← UInt8.toNat_inj, toNat_toLower, toNat_toLower] at same
  rw [← UInt8.toNat_inj, isLower_iff, toNat_toLower]
  by_cases upper : 0x41 ≤ b.toNat ∧ b.toNat ≤ 0x5a
  · rw [if_pos upper]
    omega
  · rw [if_neg upper] at same ⊢
    split at same <;> omega

theorem isWord_toLower (b : UInt8) : isWord (toLower b) = isWord b := by
  rw [Bool.eq_iff_iff, isWord_iff_toNat, isWord_iff_toNat, toNat_toLower]
  split <;> omega

end Bytewise.Byte
