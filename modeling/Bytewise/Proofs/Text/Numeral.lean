/-
# Bytewise.Proofs.Text.Numeral -- the digits of a number

Digits are below the base (`lt_of_mem_digits`), and the first one is zero for zero
only (`exists_digits_eq_cons`); every such list is the digits of its value
(`digits_value`).
-/
import Mathlib.Data.List.Induction
import Bytewise.Proofs.Byte.Digit
import Bytewise.Text.Numeral

namespace Bytewise.Text.Numeral

set_option autoImplicit false

variable {base n d : Nat}

theorem digits_of_lt (small : n < base) : digits base n = [n] := by
  rw [digits, digitsRev, dif_neg (by omega)]
  rfl

theorem digits_of_le (two : 2 ≤ base) (large : base ≤ n) :
    digits base n = digits base (n / base) ++ [n % base] := by
  rw [digits, digitsRev, dif_pos ⟨two, large⟩, List.reverse_cons]
  rfl

theorem lt_of_mem_digits (two : 2 ≤ base) (mem : d ∈ digits base n) : d < base := by
  induction n using Nat.strongRecOn with
  | ind n ih =>
      rcases Nat.lt_or_ge n base with small | large
      · rw [digits_of_lt small, List.mem_singleton] at mem
        omega
      · rw [digits_of_le two large, List.mem_append, List.mem_singleton] at mem
        rcases mem with before | rfl
        · exact ih (n / base) (Nat.div_lt_self (by omega) two) before
        · exact Nat.mod_lt n (by omega)

/-- There is a first digit, which is zero for zero only. -/
theorem exists_digits_eq_cons (two : 2 ≤ base) (pos : 0 < n) :
    ∃ d ds, digits base n = d :: ds ∧ 0 < d := by
  induction n using Nat.strongRecOn with
  | ind n ih =>
      rcases Nat.lt_or_ge n base with small | large
      · exact ⟨n, [], digits_of_lt small, pos⟩
      · have first := ih (n / base) (Nat.div_lt_self pos two) (Nat.div_pos large (by omega))
        obtain ⟨d, ds, split, positive⟩ := first
        exact ⟨d, ds ++ [n % base], by rw [digits_of_le two large, split, List.cons_append],
          positive⟩

/-- The digits of a number are those of one without a leading zero. -/
theorem digits_eq_cons_cons {ds : List Nat} {d' : Nat} (two : 2 ≤ base)
    (split : digits base n = d :: d' :: ds) : d ≠ 0 := by
  rcases Nat.eq_zero_or_pos n with rfl | pos
  · rw [digits_of_lt (by omega)] at split
    cases split
  · obtain ⟨_, _, split', positive⟩ := exists_digits_eq_cons two pos
    rw [split', List.cons.injEq] at split
    omega

theorem digits_ne_nil : digits base n ≠ [] := by
  rw [digits, digitsRev]
  split <;> simp

theorem value_concat (ds : List Nat) (d : Nat) :
    value base (ds ++ [d]) = value base ds * base + d := by
  simp [value, valueFrom, List.foldl_append]

/-- Digits without a leading zero are the digits of their value. -/
theorem digits_value (two : 2 ≤ base) {ds : List Nat} (below : ∀ d ∈ ds, d < base) (some : ds ≠ [])
    (leading : ∀ d rest, ds ≠ 0 :: d :: rest) : digits base (value base ds) = ds := by
  induction ds using List.reverseRecOn with
  | nil => exact absurd rfl some
  | append_singleton ds d ih =>
      have last : d < base := below d (by simp)
      rw [value_concat]
      cases ds with
      | nil => simp [value, valueFrom, digits_of_lt last]
      | cons first ds =>
          have before : digits base (value base (first :: ds)) = first :: ds := by
            refine ih (fun e mem => below e (List.mem_append_left _ mem)) (List.cons_ne_nil _ _) ?_
            intro e rest same
            exact leading e (rest ++ [d]) (by rw [same]; rfl)
          -- were the value zero, its digits would be a single zero, which then leads
          have positive : 0 < value base (first :: ds) := by
            rcases Nat.eq_zero_or_pos (value base (first :: ds)) with zero | positive
            · rw [zero, digits_of_lt (by omega)] at before
              obtain ⟨rfl, rfl⟩ := List.cons.inj before
              exact absurd rfl (leading d [])
            · exact positive
          have large : base ≤ value base (first :: ds) * base + d :=
            Nat.le_add_right_of_le (Nat.le_mul_of_pos_left base positive)
          rw [digits_of_le two large, Nat.add_comm, Nat.add_mul_div_right _ _ (by omega),
            Nat.add_mul_mod_self_right, Nat.div_eq_of_lt last, Nat.mod_eq_of_lt last, Nat.zero_add,
            before]

/-- All digits but the first stand for at least a whole base each. -/
theorem length_digits_le (two : 2 ≤ base) (n : Nat) : (digits base n).length ≤ n / base + 1 := by
  induction n using Nat.strongRecOn with
  | ind n ih =>
      rcases Nat.lt_or_ge n base with small | large
      · rw [digits_of_lt small]
        exact Nat.le_add_left 1 _
      · have some : 0 < n / base := Nat.div_pos large (by omega)
        have fewer : n / base / base < n / base := Nat.div_lt_self some two
        have before := ih (n / base) (Nat.div_lt_self (by omega) two)
        rw [digits_of_le two large, List.length_append, List.length_singleton]
        omega

/-! ## In decimal -/

theorem length_integer_le (i : Int) : (integer i).length ≤ i.natAbs / 10 + 2 := by
  cases i with
  | ofNat n =>
      show (decimal n).length ≤ n / 10 + 2
      rw [decimal, List.length_map]
      exact Nat.le_succ_of_le (length_digits_le (by decide) n)
  | negSucc n =>
      show (decimal (n + 1)).length + 1 ≤ (n + 1) / 10 + 2
      rw [decimal, List.length_map]
      exact Nat.succ_le_succ (length_digits_le (by decide) (n + 1))

theorem isDigit_of_mem_decimal {b : UInt8} (mem : b ∈ decimal n) : Byte.isDigit b = true := by
  obtain ⟨d, digit, rfl⟩ := List.mem_map.1 mem
  exact Byte.isDigit_hexDigit (lt_of_mem_digits (by decide) digit)

theorem exists_decimal_eq_cons (n : Nat) :
    ∃ b s, decimal n = b :: s ∧ Byte.isDigit b = true := by
  obtain ⟨b, s, split⟩ := List.exists_cons_of_ne_nil (l := decimal n)
    (by simpa [decimal] using digits_ne_nil)
  exact ⟨b, s, split, isDigit_of_mem_decimal (n := n) (by simp [split])⟩

end Bytewise.Text.Numeral
