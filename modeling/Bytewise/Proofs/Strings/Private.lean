/-
# Bytewise.Proofs.Strings.Private -- strings that share nothing

`Private` is what strings would be without any sharing: every name has bytes of
its own, or nothing for null.  `Derivation.result`, `Change.result` and
`Edit.result` say what each operation makes of such bytes, with sums that do not
wrap around, and `Private.apply` puts it under the one name that the edit is about.

The bytes are made here in a way of their own (`Plain`): a number is its digits in
base ten, the case of a letter is 32 places away, what is left without white space at
the ends is the longest part that has none there, and the simple form is the words with
a space between any two.  One lemma for each says that strings come to the same
(`Plain.integer_eq`, `Plain.upper_eq`, `Plain.lower_eq`, `Plain.strip_eq`,
`Plain.simplify_eq`).
-/
import Mathlib.Data.List.Infix
import Mathlib.Data.List.MinMax
import Mathlib.Data.Nat.Digits.Defs
import Mathlib.Logic.Function.Basic
import Bytewise.Proofs.Byte.Case
import Bytewise.Proofs.Bytes.Blank
import Bytewise.Proofs.Text.Numeral
import Bytewise.Strings.Store

namespace Bytewise.Strings

set_option autoImplicit false

open Shared (maxBytes)

/-! ## Bytes in a way of their own -/

namespace Plain

/-- The decimal digits of a number, the first digit first. -/
def decimal (n : Nat) : Bytes :=
  if n = 0 then [0x30] else (Nat.digits 10 n).reverse.map fun d => UInt8.ofNat (0x30 + d)

/-- The decimal digits of an integer, behind a hyphen if it is negative. -/
def integer (n : Int) : Bytes := if n < 0 then 0x2d :: decimal n.natAbs else decimal n.natAbs

def upper (b : UInt8) : UInt8 :=
  if 0x61 ≤ b.toNat ∧ b.toNat ≤ 0x7a then UInt8.ofNat (b.toNat - 0x20) else b

def lower (b : UInt8) : UInt8 :=
  if 0x41 ≤ b.toNat ∧ b.toNat ≤ 0x5a then UInt8.ofNat (b.toNat + 0x20) else b

/-- White space: what is from the tab to the carriage return, and the space. -/
def White (b : UInt8) : Prop := (0x09 ≤ b.toNat ∧ b.toNat ≤ 0x0d) ∨ b.toNat = 0x20

instance : DecidablePred White := fun _ => inferInstanceAs (Decidable (_ ∨ _))

/-- All parts of bytes, from any place to any place behind it. -/
def parts (own : Bytes) : List Bytes := own.tails.flatMap List.inits

/-- The bytes neither begin nor end with white space. -/
def Bare (part : Bytes) : Prop :=
  (∀ b ∈ part.head?, ¬ White b) ∧ ∀ b ∈ part.getLast?, ¬ White b

instance : DecidablePred Bare := fun _ => inferInstanceAs (Decidable (_ ∧ _))

/-- The longest part that neither begins nor ends with white space. -/
def strip (own : Bytes) : Bytes :=
  (((parts own).filter fun part => Bare part).argmax List.length).getD []

/-- What is between white space, with one space between any two of the words. -/
def simplify (own : Bytes) : Bytes :=
  [0x20].intercalate ((own.splitOnP White).filter (· ≠ []))

theorem digits_eq {n : Nat} (pos : 0 < n) :
    Text.Numeral.digits 10 n = (Nat.digits 10 n).reverse := by
  induction n using Nat.strongRecOn with
  | ind n ih =>
      rcases Nat.lt_or_ge n 10 with small | large
      · rw [Text.Numeral.digits_of_lt small, Nat.digits_of_lt 10 n (by omega) small]
        rfl
      · rw [Text.Numeral.digits_of_le (by decide) large, Nat.digits_def' (by decide) pos,
          List.reverse_cons, ih (n / 10) (by omega) (by omega)]

theorem decimal_eq (n : Nat) : decimal n = Text.Numeral.decimal n := by
  rw [decimal]
  split
  · rename_i zero
    rw [zero, Text.Numeral.decimal, Text.Numeral.digits_of_lt (by decide)]
    rfl
  · rename_i some
    rw [Text.Numeral.decimal, ← digits_eq (Nat.pos_of_ne_zero some)]
    refine List.map_congr_left fun d digit => ?_
    have small : d < 10 := Text.Numeral.lt_of_mem_digits (by decide) digit
    rw [Byte.hexDigit, if_pos small]

theorem integer_eq (n : Int) : integer n = numberBytes n := by
  cases n with
  | ofNat n =>
      have nonneg : ¬ Int.ofNat n < 0 := Int.not_lt.2 (Int.natCast_nonneg n)
      rw [integer, if_neg nonneg]
      exact decimal_eq n
  | negSucc n =>
      rw [integer, if_pos (Int.negSucc_lt_zero n)]
      exact congrArg (Byte.hyphen :: ·) (decimal_eq (n + 1))

theorem upper_eq (b : UInt8) : upper b = Byte.toUpper b := by
  rw [← UInt8.toNat_inj, Byte.toNat_toUpper, upper]
  split
  · rw [UInt8.toNat_ofNat']
    omega
  · rfl

theorem lower_eq (b : UInt8) : lower b = Byte.toLower b := by
  rw [← UInt8.toNat_inj, Byte.toNat_toLower, lower]
  split
  · rw [UInt8.toNat_ofNat']
    omega
  · rfl

theorem white_iff {b : UInt8} : White b ↔ b ∈ Byte.blanks := by
  simp only [White, Byte.blanks, List.mem_cons, List.not_mem_nil, or_false, ← UInt8.toNat_inj]
  show _ ↔ b.toNat = 9 ∨ b.toNat = 10 ∨ b.toNat = 11 ∨ b.toNat = 12 ∨ b.toNat = 13 ∨ b.toNat = 32
  omega

theorem bare_iff {part : Bytes} : Bare part ↔ part.Trimmed := by
  simp only [Bare, Bytes.Trimmed, white_iff]

theorem mem_parts_iff {own part : Bytes} : part ∈ parts own ↔ part <:+: own := by
  simp only [parts, List.mem_flatMap, List.mem_tails, List.mem_inits, and_comm,
    List.infix_iff_prefix_suffix]

/-- Of the trimmed parts, the longest holds every other one. -/
theorem strip_eq (own : Bytes) : strip own = own.strip := by
  have bare : Bare own.strip := bare_iff.2 own.trimmed_strip.1
  have among : own.strip ∈ (parts own).filter fun part => Bare part :=
    List.mem_filter.2 ⟨mem_parts_iff.2 own.strip_isInfix, decide_eq_true bare⟩
  rw [strip]
  cases longest : ((parts own).filter fun part => Bare part).argmax List.length with
  | none =>
      rw [List.argmax_eq_none.1 longest] at among
      exact absurd among List.not_mem_nil
  | some part =>
      obtain ⟨inside, bare⟩ := List.mem_filter.1 (List.argmax_mem longest)
      have kept := Bytes.isInfix_strip (mem_parts_iff.1 inside)
        (bare_iff.1 (of_decide_eq_true bare))
      exact kept.eq_of_length (Nat.le_antisymm kept.length_le
        (List.le_of_mem_argmax among longest))

theorem fields_eq (own : Bytes) : Bytes.fields own = own.splitOnP White := by
  induction own with
  | nil => rfl
  | cons b own ih =>
      rw [List.splitOnP_cons_eq_if_modifyHead, ← ih, Bytes.fields]
      have blank : Byte.isBlank b = true ↔ White b := Byte.isBlank_iff.trans white_iff.symm
      by_cases white : White b
      · rw [if_pos (blank.2 white), if_pos (decide_eq_true white)]
      · rw [if_neg (mt blank.1 white), if_neg (by simpa using white)]
        cases cut : Bytes.fields own with
        | nil => exact absurd (ih.symm.trans cut) (List.splitOnP_ne_nil _ _)
        | cons w ws => rfl

theorem simplify_eq (own : Bytes) : simplify own = own.simplify := by
  rw [simplify, ← fields_eq, Bytes.simplify, Bytes.unwords_eq_intercalate]
  rfl

end Plain

/-! ## Strings that share nothing -/

/-- The bytes under every name; nothing stands for null. -/
abbrev Private := String → Option Bytes

/-- What comes of a derivation from `own?`, which has the bytes `own`. -/
def Derivation.result (own? : Option Bytes) (derivation : Derivation) : Option Bytes :=
  let own := own?.getD []
  match derivation with
  | .copy => own?
  | .left length => own?.map fun _ => own.take length
  | .right length => own?.map fun _ => own.drop (own.length - length)
  | .mid i length? =>
    if i ≤ own.length then own?.map fun _ => (own.drop i).take (length?.getD own.length) else none
  | .upper => some (own.map Plain.upper)
  | .lower => some (own.map Plain.lower)
  | .strip => own?.map fun _ => Plain.strip own
  | .simplify => some (Plain.simplify own)
  | .leftJustify width fill cut =>
    if own.length < width then some (own ++ List.replicate (width - own.length) fill)
    else own?.map fun _ => if cut then own.take width else own
  | .rightJustify width fill cut =>
    if own.length < width then some (List.replicate (width - own.length) fill ++ own)
    else own?.map fun _ => if cut then own.take width else own

/-- What a change makes of `own?`, which has the bytes `own`.  Replacing is a question of what a
needle finds, and is left to the needle here. -/
def Change.result (own? : Option Bytes) (change : Change) : Option Bytes :=
  let own := own?.getD []
  match change with
  | .replace needle replacement =>
    let (spans, bytes) := needle.replace replacement own
    if spans = [] then own? else some bytes
  | .replaceRange i length bytes =>
    if i ≤ own.length then some (own.take i ++ bytes ++ own.drop (min (i + length) own.length))
    else own?
  | .insert i bytes =>
    if i ≤ own.length then some (own.take i ++ bytes ++ own.drop i)
    else some (own ++ List.replicate (i - own.length) 0x20 ++ bytes)
  | .append bytes => some (own ++ bytes)
  | .remove i length =>
    if i ≤ own.length then own?.map fun _ => own.take i ++ own.drop (min (i + length) own.length)
    else own?
  | .truncate length => own?.map fun _ => own.take length
  | .fill c none => own?.map fun _ => List.replicate own.length c
  | .fill c (some length) => some (List.replicate length c)
  | .setNumber n => some (Plain.integer n)

/-- The name that an edit is about. -/
def Edit.target : Edit → String
  | .create name _ | .ofNumber name _ | .derive name _ _ | .drop name | .change name _ => name

/-- What the target of an edit has afterwards. -/
def Edit.result (p : Private) : Edit → Option Bytes
  | .create _ bytes? => bytes?
  | .ofNumber _ n => some (Plain.integer n)
  | .derive _ source derivation => derivation.result (p source)
  | .drop _ => none
  | .change name op => op.result (p name)

/-- The bytes that come of an edit are not too many for a block of memory. -/
def Edit.Fits (p : Private) (edit : Edit) : Prop := ((edit.result p).getD []).length ≤ maxBytes

instance (p : Private) (edit : Edit) : Decidable (edit.Fits p) :=
  inferInstanceAs (Decidable (_ ≤ _))

namespace Private

def empty : Private := fun _ => none

def apply (p : Private) (edit : Edit) : Private := Function.update p edit.target (edit.result p)

def run (p : Private) (edits : List Edit) : Private := edits.foldl apply p

/-- The bytes that come of each edit, one after the other, fit. -/
def RunFits (p : Private) : List Edit → Prop
  | [] => True
  | edit :: rest => edit.Fits p ∧ (p.apply edit).RunFits rest

/-- All bytes fit into a block of memory. -/
def Within (p : Private) : Prop := ∀ name, ((p name).getD []).length ≤ maxBytes

instance decidableRunFits : (p : Private) → (edits : List Edit) → Decidable (p.RunFits edits)
  | _, [] => inferInstanceAs (Decidable True)
  | p, edit :: rest =>
    have := decidableRunFits (p.apply edit) rest
    inferInstanceAs (Decidable (_ ∧ _))

theorem within_empty : empty.Within := fun _ => Nat.zero_le _

theorem Within.apply {p : Private} (within : p.Within) {edit : Edit} (fits : edit.Fits p) :
    (p.apply edit).Within := by
  intro name
  by_cases same : name = edit.target
  · rw [Private.apply, same, Function.update_self]
    exact fits
  · rw [Private.apply, Function.update_of_ne same]
    exact within name

end Private

end Bytewise.Strings
