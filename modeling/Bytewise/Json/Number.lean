/-
# Bytewise.Json.Number -- numbers of a JSON text

A number is an integer when it has neither a point nor an exponent and fits into
64 bits, unsigned, or signed with a minus sign; all others are doubles, and so is
minus zero.

A double is made from the first digits, as many as fit into 64 bits
(`absorb`), and a power of ten: by one division or multiplication with the
rounded power (`scaled?`), which need not give the nearest double.  A power
beyond the range of doubles divides in steps, and one that is too large is an
error, unless all digits are zero.

`skip` passes over a number without a look at its size.
-/
import Bytewise.Json.Error

namespace Bytewise.Json

set_option autoImplicit false

open Text (Double Ratio)

inductive Number
  | integer (n : Int)
  | float (x : Double)
  deriving DecidableEq, Repr

namespace Number

def found : Number → Interchange.Found
  | .integer n => .integer n
  | .float x => .float x

/-! ## The parts of a number -/

/-- The digits of a number as they stand in the text. -/
structure Parts where
  whole : List Nat
  /-- The digits behind a point, if there is one. -/
  fraction : Option (List Nat)
  /-- The sign and the digits of an exponent, if there is one. -/
  exponent : Option (Bool × List Nat)
  deriving DecidableEq, Repr

/-- The digits at the start of the text. -/
def digits (s : Bytes) : List Nat × Bytes :=
  ((s.takeWhile Byte.isDigit).map fun b => b.toNat - Byte.zero.toNat, s.dropWhile Byte.isDigit)

/-- At least one digit. -/
def someDigits (s : Bytes) : Result (List Nat) :=
  match digits s with
  | ([], _) => .error (unexpected s)
  | r => .ok r

/-- A zero, or digits that do not start with one. -/
def whole (s : Bytes) : Result (List Nat) :=
  match someDigits s with
  | .ok (0 :: _ :: _, _) => .error .malformed
  | r => r

/-- A point and digits, or nothing. -/
def fraction (s : Bytes) : Result (Option (List Nat)) :=
  match s with
  | [] => .ok (none, s)
  | b :: rest =>
    if b = Byte.dot then (someDigits rest).map fun r => (some r.1, r.2) else .ok (none, s)

/-- The sign of an exponent: is it positive? -/
def exponentSign (s : Bytes) : Bool × Bytes :=
  match s with
  | [] => (true, s)
  | b :: rest =>
    if b = Byte.plus then (true, rest)
    else if b = Byte.hyphen then (false, rest)
    else (true, s)

/-- An exponent, or nothing. -/
def exponent (s : Bytes) : Result (Option (Bool × List Nat)) :=
  match s with
  | [] => .ok (none, s)
  | b :: rest =>
    if b = Byte.ofChar 'e' ∨ b = Byte.ofChar 'E' then
      (someDigits (exponentSign rest).2).map fun r => (some ((exponentSign rest).1, r.1), r.2)
    else .ok (none, s)

/-- The parts of a number behind its sign. -/
def parts (s : Bytes) : Result Parts :=
  match whole s with
  | .error e => .error e
  | .ok (w, s) =>
    match fraction s with
    | .error e => .error e
    | .ok (f, s) => (exponent s).map fun r => (⟨w, f, r.1⟩, r.2)

/-! ## Their value -/

/-- The largest number of 64 bits. -/
def maxUnsigned : Nat := 0xffffffffffffffff

/-- The largest exponent of 32 bits. -/
def maxExponent : Nat := 0x7fffffff

/-- Puts digits behind a number as long as it fits into 64 bits; the second part says how many
digits are left over. -/
def absorb (n : Nat) : List Nat → Nat × Nat
  | [] => (n, 0)
  | d :: ds => if n * 10 + d ≤ maxUnsigned then absorb (n * 10 + d) ds else (n, ds.length + 1)

/-- Keeps an exponent within 32 bits. -/
def clamp (e : Int) : Int := max (-0x80000000) (min e maxExponent)

/-- Divides by ten to the 308 as long as the power of ten left is no double. -/
def reduced (x : Double) : Nat → Int → Double × Int
  | 0, e => (x, e)
  | steps + 1, e =>
    if e < -308 ∧ x.isZero = false then
      reduced ((x.div? (Double.tenTo 308)).getD .zero) steps (e + 308)
    else (x, e)

/-- A number of 64 bits times a power of ten; nothing where that is too large. -/
def scaled? (n : Nat) (e : Int) : Option Double :=
  let x := (Double.round? (.ofNat n)).getD .zero
  let (x, e) := reduced x 4 e
  if x.isZero then some x
  else if e < 0 then x.div? (Double.tenTo e.natAbs)
  else if e ≤ 308 then x.mul? (Double.tenTo e.natAbs)
  else none

/-- The digits of a number, as far as they fit into 64 bits, and the power of ten they stand at. -/
def significand (p : Parts) : Nat × Int :=
  let (n, left) := absorb 0 p.whole
  match p.fraction with
  | none => (n, left)
  | some ds =>
    let (n, ignored) := absorb n ds
    (n, (left : Int) - ((ds.length - ignored : Nat) : Int))

/-- The double of the parts of a number, without a sign. -/
def magnitude? (p : Parts) : Option Double :=
  let (n, e) := significand p
  match p.exponent with
  | none => scaled? n e
  | some (positive, ds) =>
    match Text.Numeral.value? 10 maxExponent ds with
    | none => if n ≠ 0 ∧ positive = true then none else some .zero
    | some shift => scaled? n (clamp (if positive then e + shift else e - shift))

/-- Is the number an integer of 64 bits?  Minus zero is none. -/
def integer? (negative : Bool) (p : Parts) : Option Int :=
  if p.fraction.isSome || p.exponent.isSome then none
  else
    match Text.Numeral.value? 10 maxUnsigned p.whole with
    | none => none
    | some n =>
      if negative then if 0 < n ∧ n ≤ 0x8000000000000000 then some (-n) else none else some n

/-- The number of the parts, if it is not too large. -/
def ofParts? (negative : Bool) (p : Parts) : Option Number :=
  match integer? negative p with
  | some n => some (.integer n)
  | none => (magnitude? p).map fun x => .float (if negative then x.negate else x)

/-- Reads the number behind a sign. -/
def readUnsigned (negative : Bool) (s : Bytes) : Result Number :=
  match parts s with
  | .error e => .error e
  | .ok (p, rest) =>
    match ofParts? negative p with
    | some n => .ok (n, rest)
    | none => .error .malformed

/-- Can a number start with the byte? -/
def starts (b : UInt8) : Bool := b == Byte.hyphen || Byte.isDigit b

/-- Reads the number that starts with `b`. -/
def read (b : UInt8) (rest : Bytes) : Result Number :=
  if b = Byte.hyphen then readUnsigned true rest else readUnsigned false (b :: rest)

/-- Passes over the number that starts with `b`.  Whatever is wrong with it, it is malformed. -/
def skip (b : UInt8) (rest : Bytes) : Except Error Bytes :=
  match parts (if b = Byte.hyphen then rest else b :: rest) with
  | .ok (_, rest) => .ok rest
  | .error _ => .error .malformed

/-! ## Reading consumes -/

theorem length_someDigits {s : Bytes} {r : List Nat × Bytes} (h : someDigits s = .ok r) :
    r.2.length < s.length := by
  have total :
      (s.takeWhile Byte.isDigit).length + (s.dropWhile Byte.isDigit).length = s.length := by
    rw [← List.length_append, List.takeWhile_append_dropWhile]
  unfold someDigits at h
  split at h
  · cases h
  · rename_i none
    obtain rfl := Except.ok.inj h
    have : s.takeWhile Byte.isDigit ≠ [] := by
      intro empty
      exact none (s.dropWhile Byte.isDigit) (by simp [digits, empty])
    have := List.length_pos_iff.mpr this
    simp only [digits]
    omega

theorem length_whole {s : Bytes} {r : List Nat × Bytes} (h : whole s = .ok r) :
    r.2.length < s.length := by
  unfold whole at h
  split at h
  · cases h
  · exact length_someDigits h

theorem length_fraction_le {s : Bytes} {r : Option (List Nat) × Bytes} (h : fraction s = .ok r) :
    r.2.length ≤ s.length := by
  cases s with
  | nil => obtain rfl := Except.ok.inj h; exact Nat.le_refl _
  | cons b rest =>
    simp only [fraction] at h
    split at h
    · cases hd : someDigits rest with
      | error e => simp [hd, Except.map] at h
      | ok p =>
        have := length_someDigits hd
        simp only [hd, Except.map, Except.ok.injEq] at h
        subst h
        simp only [List.length_cons]
        omega
    · obtain rfl := Except.ok.inj h; exact Nat.le_refl _

theorem length_exponentSign_le (s : Bytes) : (exponentSign s).2.length ≤ s.length := by
  unfold exponentSign
  repeat' split
  all_goals simp

theorem length_exponent_le {s : Bytes} {r : Option (Bool × List Nat) × Bytes}
    (h : exponent s = .ok r) : r.2.length ≤ s.length := by
  cases s with
  | nil => obtain rfl := Except.ok.inj h; exact Nat.le_refl _
  | cons b rest =>
    simp only [exponent] at h
    split at h
    · cases hd : someDigits (exponentSign rest).2 with
      | error e => simp [hd, Except.map] at h
      | ok p =>
        have := length_someDigits hd
        have := length_exponentSign_le rest
        simp only [hd, Except.map, Except.ok.injEq] at h
        subst h
        simp only [List.length_cons]
        omega
    · obtain rfl := Except.ok.inj h; exact Nat.le_refl _

theorem length_parts {s : Bytes} {r : Parts × Bytes} (h : parts s = .ok r) :
    r.2.length < s.length := by
  unfold parts at h
  split at h
  · cases h
  · rename_i w s₁ hw
    split at h
    · cases h
    · rename_i f s₂ hf
      cases he : exponent s₂ with
      | error e => simp [he, Except.map] at h
      | ok p =>
        have := length_whole hw
        have := length_fraction_le hf
        have := length_exponent_le he
        simp only [he, Except.map, Except.ok.injEq] at h
        subst h
        simp only at *
        omega

theorem length_skip_le {b : UInt8} {rest after : Bytes} (h : skip b rest = .ok after) :
    after.length ≤ rest.length := by
  unfold skip at h
  split at h
  · rename_i p t hp
    obtain rfl := Except.ok.inj h
    have := length_parts hp
    split at this <;> simp only [List.length_cons] at * <;> omega
  · cases h

end Number

end Bytewise.Json
