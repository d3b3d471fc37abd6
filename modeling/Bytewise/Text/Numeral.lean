/-
# Bytewise.Text.Numeral -- numbers in digits

`decimal` and `hexadecimal` write a natural number without leading zeros and
`integer` writes a sign where it is needed, as bytes.  `value` reads digits back:
`value_digits` says that it undoes `digits`.  `value?` reads digits up to a limit
and stops where the number exceeds it.
-/
import Bytewise.Byte

namespace Bytewise.Text.Numeral

set_option autoImplicit false

/-- The digits of a number in a base above one, the last digit first. -/
def digitsRev (base n : Nat) : List Nat :=
  if _h : 2 ≤ base ∧ base ≤ n then n % base :: digitsRev base (n / base) else [n]
  termination_by n
  decreasing_by exact Nat.div_lt_self (by omega) (by omega)

def digits (base n : Nat) : List Nat := (digitsRev base n).reverse

/-- The number whose digits follow those of `n`. -/
def valueFrom (base n : Nat) (ds : List Nat) : Nat := ds.foldl (fun n d => n * base + d) n

def value (base : Nat) (ds : List Nat) : Nat := valueFrom base 0 ds

/-- As `valueFrom`, but nothing as soon as the number exceeds the limit. -/
def valueFrom? (base limit n : Nat) : List Nat → Option Nat
  | [] => some n
  | d :: ds => if n * base + d ≤ limit then valueFrom? base limit (n * base + d) ds else none

/-- The number of digits that is at most `limit`; a larger one is not worked out. -/
def value? (base limit : Nat) (ds : List Nat) : Option Nat := valueFrom? base limit 0 ds

theorem le_valueFrom {base : Nat} (h : 0 < base) (n : Nat) (ds : List Nat) :
    n ≤ valueFrom base n ds := by
  induction ds generalizing n with
  | nil => exact Nat.le_refl _
  | cons d ds ih =>
    have step : n ≤ n * base + d := Nat.le_add_right_of_le (Nat.le_mul_of_pos_right n h)
    exact Nat.le_trans step (ih (n * base + d))

theorem valueFrom?_eq {base : Nat} (h : 0 < base) (limit n : Nat) (ds : List Nat)
    (fits : n ≤ limit) :
    valueFrom? base limit n ds =
      if valueFrom base n ds ≤ limit then some (valueFrom base n ds) else none := by
  induction ds generalizing n with
  | nil => simp [valueFrom?, valueFrom, fits]
  | cons d ds ih =>
    have next : valueFrom base n (d :: ds) = valueFrom base (n * base + d) ds := rfl
    by_cases hd : n * base + d ≤ limit
    · rw [valueFrom?, if_pos hd, ih _ hd, next]
    · have := le_valueFrom h (n * base + d) ds
      rw [valueFrom?, if_neg hd, next, if_neg (by omega)]

theorem value?_eq {base : Nat} (h : 0 < base) (limit : Nat) (ds : List Nat) :
    value? base limit ds = if value base ds ≤ limit then some (value base ds) else none :=
  valueFrom?_eq h limit 0 ds (Nat.zero_le limit)

theorem value_digits (base n : Nat) : value base (digits base n) = n := by
  fun_induction digitsRev base n with
  | case1 n h ih =>
    simp only [value, valueFrom, digits] at ih ⊢
    rw [digitsRev, dif_pos h, List.reverse_cons, List.foldl_append, ih]
    simpa [Nat.mul_comm] using Nat.div_add_mod n base
  | case2 n h =>
    rw [digits, digitsRev, dif_neg h]
    simp [value, valueFrom]

/-- A number in decimal. -/
def decimal (n : Nat) : Bytes := (digits 10 n).map Byte.hexDigit

/-- A number in hexadecimal, with lower-case letters. -/
def hexadecimal (n : Nat) : Bytes := (digits 16 n).map Byte.hexDigit

/-- An integer in decimal: a minus sign goes before the digits of a negative one. -/
def integer : Int → Bytes
  | .ofNat n => decimal n
  | .negSucc n => Byte.hyphen :: decimal (n + 1)

end Bytewise.Text.Numeral
