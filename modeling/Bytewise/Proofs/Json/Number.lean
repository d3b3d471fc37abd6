/-
# Bytewise.Proofs.Json.Number -- which texts are integers

An integer of 64 bits has one text, the one that it is written as.  It is read where
no number goes on behind it (`Ends`), and nothing else is read as an integer.  This
is said of each part of a number in turn, of its digits (`digits_eq_iff`), of a
number without a point and an exponent (`parts_eq_iff`), of its value
(`readUnsigned_eq_iff`) and of its sign (`read_eq_iff`).  A reader of integers of
some type reads the texts of the integers that the type makes something of
(`readInteger_eq_ok_iff`).
-/
import Bytewise.Json.Writer
import Bytewise.Proofs.Byte.Case
import Bytewise.Proofs.Json.Document
import Bytewise.Proofs.Outcome
import Bytewise.Proofs.Text.Numeral

namespace Bytewise.Json

set_option autoImplicit false

variable {n : Nat} {i : Int} {b : UInt8} {s t rest : Bytes} {ds : List Nat}

namespace Number

/-! ## Where numbers end -/

/-- No digit comes first. -/
def NoDigit (rest : Bytes) : Prop := ∀ b ∈ rest.head?, Byte.isDigit b = false

/-- No number goes on in the bytes. -/
structure Ends (rest : Bytes) : Prop where
  noDigit : NoDigit rest
  noFraction : rest.head? ≠ some Byte.dot
  noExponent : rest.head? ≠ some (Byte.ofChar 'e') ∧ rest.head? ≠ some (Byte.ofChar 'E')

theorem ends_cons (stop : Byte.isDigit b = false ∧ b ≠ Byte.dot ∧ b ≠ Byte.ofChar 'e' ∧
    b ≠ Byte.ofChar 'E') (rest : Bytes) : Ends (b :: rest) := by
  obtain ⟨digit, dot, lower, upper⟩ := stop
  refine ⟨?_, by simpa using dot, by simpa using lower, by simpa using upper⟩
  rintro _ ⟨⟩
  exact digit

/-- No number goes on in white space. -/
theorem ends_blank (blank : isBlank b = true) (rest : Bytes) : Ends (b :: rest) := by
  simp only [isBlank, Bool.or_eq_true, beq_iff_eq] at blank
  rcases blank with ((rfl | rfl) | rfl) | rfl <;> exact ends_cons (by decide) rest

theorem ends_of_blank {w : Bytes} (blank : Blank w) (stop : Byte.isDigit b = false ∧ b ≠ Byte.dot ∧
    b ≠ Byte.ofChar 'e' ∧ b ≠ Byte.ofChar 'E') (rest : Bytes) : Ends (w ++ b :: rest) := by
  cases w with
  | nil => exact ends_cons stop rest
  | cons c w => exact ends_blank (blank c List.mem_cons_self) _

/-! ## Digits -/

/-- Digits are the values of the bytes up to the first that is none. -/
theorem digits_eq_iff :
    digits s = (ds, rest) ↔
      s = ds.map Byte.hexDigit ++ rest ∧ (∀ d ∈ ds, d < 10) ∧ NoDigit rest := by
  constructor
  · intro read
    obtain ⟨rfl, rfl⟩ := Prod.mk.inj read
    obtain ⟨split, all, stop⟩ := divide_eq_iff.1 ⟨rfl, rfl⟩
    refine ⟨split.trans ?_, ?_, stop⟩
    · rw [List.map_map, List.map_congr_left (g := id), List.map_id]
      intro b mem
      exact Byte.hexDigit_sub_zero (all b mem)
    · intro d value
      obtain ⟨b, mem, rfl⟩ := List.mem_map.1 value
      have range := Byte.isDigit_iff.1 (all b mem)
      have zero : Byte.zero.toNat = 0x30 := rfl
      omega
  · rintro ⟨split, below, stop⟩
    have all : ∀ b ∈ ds.map Byte.hexDigit, Byte.isDigit b = true := by
      intro b digit
      obtain ⟨d, mem, rfl⟩ := List.mem_map.1 digit
      exact Byte.isDigit_hexDigit (below d mem)
    obtain ⟨taken, left⟩ := divide_eq_iff.2 ⟨split, all, stop⟩
    rw [digits, taken, left, List.map_map, List.map_congr_left (g := id), List.map_id]
    intro d mem
    rw [Function.comp_apply, Byte.toNat_hexDigit (below d mem)]
    exact Nat.add_sub_cancel_left _ _

/-- Digits without a leading zero are a number in decimal. -/
theorem whole_eq_ok_iff :
    whole s = .ok (ds, rest) ↔
      ∃ n, ds = Text.Numeral.digits 10 n ∧ s = Text.Numeral.decimal n ++ rest ∧ NoDigit rest := by
  constructor
  · intro read
    rw [whole] at read
    split at read
    · cases read
    · rename_i leading
      rw [someDigits] at read
      split at read
      · cases read
      · rename_i some
        obtain ⟨rfl, below, stop⟩ := digits_eq_iff.1 (Except.ok.inj read)
        have nonempty : ds ≠ [] := by
          rintro rfl
          exact some rest (Except.ok.inj read)
        have first : ∀ d later, ds ≠ 0 :: d :: later := by
          rintro d later rfl
          refine leading d later rest ?_
          rw [someDigits, Except.ok.inj read]
        have digits := Text.Numeral.digits_value (by decide) below nonempty first
        refine ⟨Text.Numeral.value 10 ds, digits.symm, ?_, stop⟩
        rw [Text.Numeral.decimal, digits]
  · rintro ⟨n, rfl, rfl, stop⟩
    have below : ∀ d ∈ Text.Numeral.digits 10 n, d < 10 :=
      fun d mem => Text.Numeral.lt_of_mem_digits (by decide) mem
    have read := digits_eq_iff.2 ⟨rfl, below, stop⟩
    have some : someDigits (Text.Numeral.decimal n ++ rest) =
        .ok (Text.Numeral.digits 10 n, rest) := by
      obtain ⟨d, later, split⟩ : ∃ d later, Text.Numeral.digits 10 n = d :: later :=
        List.exists_cons_of_ne_nil Text.Numeral.digits_ne_nil
      rw [someDigits, Text.Numeral.decimal, read, split]
    rw [whole, some]
    split
    · rename_i d later rest' leading
      rw [Except.ok.injEq, Prod.mk.injEq] at leading
      exact absurd rfl (Text.Numeral.digits_eq_cons_cons (by decide) leading.1)
    · rfl

theorem fraction_eq_none_iff :
    fraction s = .ok (none, rest) ↔ s = rest ∧ s.head? ≠ some Byte.dot := by
  cases s with
  | nil => simp [fraction]
  | cons b s =>
      by_cases dot : b = Byte.dot
      · cases read : someDigits s <;> simp [fraction, dot, read, Except.map]
      · simp [fraction, dot]

theorem exponent_eq_none_iff :
    exponent s = .ok (none, rest) ↔ s = rest ∧
      s.head? ≠ some (Byte.ofChar 'e') ∧ s.head? ≠ some (Byte.ofChar 'E') := by
  cases s with
  | nil => simp [exponent]
  | cons b s =>
      have plain : ((b :: s).head? ≠ some (Byte.ofChar 'e') ∧
          (b :: s).head? ≠ some (Byte.ofChar 'E')) ↔
            ¬ (b = Byte.ofChar 'e' ∨ b = Byte.ofChar 'E') := by
        simp [not_or]
      rw [plain]
      by_cases mark : b = Byte.ofChar 'e' ∨ b = Byte.ofChar 'E'
      · cases read : someDigits (exponentSign s).2 <;> simp [exponent, mark, read, Except.map]
      · simp [exponent, mark]

/-- A number without a point and without an exponent is in decimal, up to where it ends. -/
theorem parts_eq_iff :
    parts s = .ok (⟨ds, none, none⟩, rest) ↔
      ∃ n, ds = Text.Numeral.digits 10 n ∧ s = Text.Numeral.decimal n ++ rest ∧ Ends rest := by
  constructor
  · intro read
    rw [parts] at read
    split at read
    · cases read
    · rename_i whole₀ s₁ wholeRead
      split at read
      · cases read
      · rename_i fraction₀ s₂ fractionRead
        obtain ⟨⟨exponent₀, s₃⟩, exponentRead, same⟩ := map_eq_ok_iff.1 read
        simp only [Prod.mk.injEq, Parts.mk.injEq] at same
        obtain ⟨⟨rfl, rfl, rfl⟩, rfl⟩ := same
        obtain ⟨rfl, noExponent⟩ := exponent_eq_none_iff.1 exponentRead
        obtain ⟨rfl, noFraction⟩ := fraction_eq_none_iff.1 fractionRead
        obtain ⟨n, digits, split, noDigit⟩ := whole_eq_ok_iff.1 wholeRead
        exact ⟨n, digits, split, noDigit, noFraction, noExponent⟩
  · rintro ⟨n, rfl, rfl, ends⟩
    rw [parts, whole_eq_ok_iff.2 ⟨n, rfl, rfl, ends.noDigit⟩]
    simp only [fraction_eq_none_iff.2 ⟨rfl, ends.noFraction⟩,
      exponent_eq_none_iff.2 ⟨rfl, ends.noExponent⟩, Except.map]

/-! ## Values -/

/-- The integer of a value and a sign; minus zero is none. -/
def Signed (negative : Bool) (n : Nat) (i : Int) : Prop :=
  if negative = true then 0 < n ∧ n ≤ 0x8000000000000000 ∧ i = -(n : Int)
  else n ≤ maxUnsigned ∧ i = n

theorem ofParts?_eq_iff {negative : Bool} {p : Parts} :
    ofParts? negative p = some (.integer i) ↔ integer? negative p = some i := by
  rw [ofParts?]
  cases integer? negative p with
  | none => cases magnitude? p <;> simp
  | some j => simp

theorem integer?_eq_some_iff {negative : Bool} {p : Parts} :
    integer? negative p = some i ↔ p.fraction = none ∧ p.exponent = none ∧
      Signed negative (Text.Numeral.value 10 p.whole) i := by
  obtain ⟨whole, _ | fraction, _ | exponent⟩ := p
  · have max : maxUnsigned = 0xffffffffffffffff := rfl
    simp only [integer?, Option.isSome_none, Bool.or_self, Bool.false_eq_true, if_false,
      Text.Numeral.value?_eq (show 0 < 10 by decide), true_and, Signed]
    generalize Text.Numeral.value 10 whole = n
    by_cases fits : n ≤ maxUnsigned
    · rw [if_pos fits]
      cases negative with
      | false => simp [fits, eq_comm]
      | true =>
          by_cases small : 0 < n ∧ n ≤ 0x8000000000000000
          · simp [small, eq_comm]
          · simp only [small, if_true, if_false]
            constructor
            · intro impossible
              cases impossible
            · rintro ⟨positive, bound, -⟩
              exact absurd ⟨positive, bound⟩ small
    · rw [if_neg fits]
      constructor
      · intro impossible
        cases impossible
      · intro signed
        split at signed <;> omega
  · simp [integer?]
  · simp [integer?]
  · simp [integer?]

theorem readUnsigned_eq_iff {negative : Bool} :
    readUnsigned negative s = .ok (.integer i, rest) ↔
      ∃ n, s = Text.Numeral.decimal n ++ rest ∧ Ends rest ∧ Signed negative n i := by
  rw [readUnsigned]
  constructor
  · intro read
    split at read
    · cases read
    · rename_i p rest' partsRead
      split at read
      · rename_i number made
        obtain ⟨rfl, rfl⟩ := Prod.mk.inj (Except.ok.inj read)
        obtain ⟨noFraction, noExponent, signed⟩ := integer?_eq_some_iff.1 (ofParts?_eq_iff.1 made)
        obtain ⟨whole, fraction, exponent⟩ := p
        obtain rfl : fraction = none := noFraction
        obtain rfl : exponent = none := noExponent
        obtain ⟨n, rfl, rfl, ends⟩ := parts_eq_iff.1 partsRead
        rw [Text.Numeral.value_digits] at signed
        exact ⟨n, rfl, ends, signed⟩
      · cases read
  · rintro ⟨n, rfl, ends, signed⟩
    have made : ofParts? negative ⟨Text.Numeral.digits 10 n, none, none⟩ = some (.integer i) := by
      rw [ofParts?_eq_iff, integer?_eq_some_iff, Text.Numeral.value_digits]
      exact ⟨rfl, rfl, signed⟩
    rw [parts_eq_iff.2 ⟨n, rfl, rfl, ends⟩]
    simp only [made]

/-- The text of a natural number starts with a digit, which is no sign. -/
theorem exists_decimal_append (n : Nat) (rest : Bytes) :
    ∃ b s, Text.Numeral.decimal n ++ rest = b :: s ∧ Byte.isDigit b = true ∧ b ≠ Byte.hyphen := by
  obtain ⟨b, s, split, digit⟩ := Text.Numeral.exists_decimal_eq_cons n
  refine ⟨b, s ++ rest, by rw [split, List.cons_append], digit, ?_⟩
  rintro rfl
  revert digit
  decide

/-- What is read as an integer is the text of an integer of 64 bits. -/
theorem read_eq_iff :
    read b s = .ok (.integer i, rest) ↔ b :: s = Text.Numeral.integer i ++ rest ∧ Ends rest ∧
      -0x8000000000000000 ≤ i ∧ i ≤ maxUnsigned := by
  rw [read]
  by_cases sign : b = Byte.hyphen
  · subst sign
    rw [if_pos rfl, readUnsigned_eq_iff]
    constructor
    · rintro ⟨n, rfl, ends, positive, bound, rfl⟩
      obtain ⟨m, rfl⟩ := Nat.exists_eq_succ_of_ne_zero (Nat.ne_of_gt positive)
      refine ⟨rfl, ends, by omega, by omega⟩
    · rintro ⟨split, ends, low, high⟩
      cases i with
      | ofNat n =>
          obtain ⟨b, t, split', -, unsigned⟩ := exists_decimal_append n rest
          rw [Text.Numeral.integer, split'] at split
          exact absurd (List.cons.inj split).1.symm unsigned
      | negSucc n =>
          refine ⟨n + 1, (List.cons.inj split).2, ends, n.succ_pos, by omega, rfl⟩
  · rw [if_neg sign, readUnsigned_eq_iff]
    constructor
    · rintro ⟨n, split, ends, bound, rfl⟩
      exact ⟨split, ends, by omega, by omega⟩
    · rintro ⟨split, ends, low, high⟩
      cases i with
      | ofNat n => exact ⟨n, split, ends, by simpa using high, rfl⟩
      | negSucc n => exact absurd (List.cons.inj split).1 sign

/-- The text of an integer starts like a number. -/
theorem exists_integer_append (i : Int) (rest : Bytes) :
    ∃ b s, Text.Numeral.integer i ++ rest = b :: s ∧ starts b = true := by
  cases i with
  | ofNat n =>
      obtain ⟨b, s, split, digit, -⟩ := exists_decimal_append n rest
      exact ⟨b, s, split, by simp [starts, digit]⟩
  | negSucc n => exact ⟨_, _, rfl, by decide⟩

end Number

/-- What starts like a number is no white space and closes nothing. -/
theorem not_isBlank_of_starts (starts : Number.starts b = true) :
    isBlank b = false ∧ b ≠ Byte.rightBracket := by
  simp only [Number.starts, Bool.or_eq_true, beq_iff_eq] at starts
  rcases starts with rfl | digit
  · decide
  · rw [Byte.isDigit_iff] at digit
    have ne : ∀ c : UInt8, c.toNat < 0x30 ∨ 0x39 < c.toNat → b ≠ c := by
      rintro c outside rfl
      omega
    simp [isBlank, ne, Byte.rightBracket]

/-- An integer type reads white space and the text of an integer that it has a value for. -/
theorem readInteger_eq_ok_iff {α : Type} {typeName : String} {ofInt? : Int → Option α} {a : α} :
    readInteger typeName ofInt? s = .ok (a, rest) ↔
      ∃ w i, Blank w ∧ s = w ++ (writeInteger i ++ rest) ∧ Number.Ends rest ∧
        -0x8000000000000000 ≤ i ∧ i ≤ Number.maxUnsigned ∧ ofInt? i = some a := by
  rw [readInteger]
  constructor
  · intro read
    split at read
    · cases read
    · rename_i b t skipped
      obtain ⟨w, blank, rfl, -⟩ := skipBlank_eq_cons_iff.1 skipped
      split at read
      · split at read
        · cases read
        · cases read
        · rename_i i after numberRead
          obtain ⟨split, ends, low, high⟩ := Number.read_eq_iff.1 numberRead
          split at read
          · rename_i a' made
            obtain ⟨rfl, rfl⟩ := Prod.mk.inj (Except.ok.inj read)
            exact ⟨w, i, blank, by rw [split, writeInteger], ends, low, high, made⟩
          · cases read
      · cases read
  · rintro ⟨w, i, blank, rfl, ends, low, high, made⟩
    obtain ⟨b, t, split, starts⟩ := Number.exists_integer_append i rest
    have read := Number.read_eq_iff.2 ⟨split.symm, ends, low, high⟩
    rw [skipBlank_append blank, writeInteger, split,
      skipBlank_of_solid (not_isBlank_of_starts starts).1]
    simp only [starts, read, made, if_true]

end Bytewise.Json
