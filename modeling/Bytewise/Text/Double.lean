/-
# Bytewise.Text.Double -- double-precision numbers and their shortest decimals

A finite double is a sign, a mantissa below 2^53 and an exponent of two that is
at least -1074.  All arithmetic is exact: a number is a ratio of naturals, and
`round?` takes the nearest double, of two the one with the even mantissa, and
nothing where the number is too large.

`shortest` gives the shortest decimal that rounds to a double.  The decimals
that do form an interval around it; the coarsest decimal grid with a point in
the interval wins, and of two points of it the nearer, or the even one.

`Double.text` is positional from 1e-5 up to and not including 1e16 (`style`),
always with a point, and has an exponent with its sign elsewhere.
-/
import Bytewise.Text.Numeral

namespace Bytewise.Text

set_option autoImplicit false

/-- A ratio of naturals; the denominator is not zero. -/
structure Ratio where
  num : Nat
  den : Nat
  deriving DecidableEq, Repr

namespace Ratio

def ofNat (n : Nat) : Ratio := ⟨n, 1⟩

/-- The ratio times a power of a base. -/
def scale (r : Ratio) (base : Nat) : Int → Ratio
  | .ofNat n => ⟨r.num * Nat.pow base n, r.den⟩
  | .negSucc n => ⟨r.num, r.den * Nat.pow base (n + 1)⟩

def mul (r s : Ratio) : Ratio := ⟨r.num * s.num, r.den * s.den⟩

def div (r s : Ratio) : Ratio := ⟨r.num * s.den, r.den * s.num⟩

/-- The distance of two ratios. -/
def distance (r s : Ratio) : Ratio :=
  ⟨(r.num * s.den - s.num * r.den) + (s.num * r.den - r.num * s.den), r.den * s.den⟩

def le (r s : Ratio) : Bool := r.num * s.den ≤ s.num * r.den

def lt (r s : Ratio) : Bool := r.num * s.den < s.num * r.den

/-- The natural below. -/
def floor (r : Ratio) : Nat := r.num / r.den

/-- The nearest natural, of two the even one. -/
def nearest (r : Ratio) : Nat :=
  let n := r.floor
  let twice := 2 * (r.num - n * r.den)
  if twice < r.den then n
  else if r.den < twice then n + 1
  else if n % 2 = 0 then n
  else n + 1

end Ratio

/-- A finite double: `mantissa` times two to the `exponent`, with a sign. -/
structure Double where
  negative : Bool
  mantissa : Nat
  exponent : Int
  deriving DecidableEq, Repr

namespace Double

def mantissaBits : Nat := 53

/-- No mantissa reaches this. -/
def mantissaBound : Nat := 0x20000000000000

def minExponent : Int := -1074
def maxExponent : Int := 971

def zero : Double := ⟨false, 0, minExponent⟩

def isZero (x : Double) : Bool := x.mantissa == 0

def negate (x : Double) : Double := { x with negative := !x.negative }

/-- How large a double is. -/
def magnitude (x : Double) : Ratio := (Ratio.ofNat x.mantissa).scale 2 x.exponent

/-- The least exponent at which the whole part of the ratio fits into a mantissa. -/
def exponentFor (r : Ratio) : Int :=
  let guess : Int := (r.num.log2 : Int) - (r.den.log2 : Int) - mantissaBits
  let fitted := if (r.scale 2 (-guess)).floor < mantissaBound then guess else guess + 1
  max fitted minExponent

/-- The double nearest to a ratio, if there is none too large. -/
def round? (r : Ratio) : Option Double :=
  if r.num = 0 then some zero
  else
    let e := exponentFor r
    let m := (r.scale 2 (-e)).nearest
    let (m, e) := if m = mantissaBound then (m / 2, e + 1) else (m, e)
    if e ≤ maxExponent then some ⟨false, m, e⟩ else none

/-- Ten to the power of `n`, rounded. -/
def tenTo (n : Nat) : Double := (round? (Ratio.ofNat (Nat.pow 10 n))).getD zero

def mul? (x y : Double) : Option Double := round? (x.magnitude.mul y.magnitude)

def div? (x y : Double) : Option Double := round? (x.magnitude.div y.magnitude)

/-! ## Shortest decimals -/

/-- The least and the greatest number that round to a double that is not zero. -/
def interval (x : Double) : Ratio × Ratio :=
  let quarter (n : Nat) : Ratio := (Ratio.ofNat n).scale 2 (x.exponent - 2)
  let m := 4 * x.mantissa
  let below := if 2 * x.mantissa = mantissaBound ∧ minExponent < x.exponent then 1 else 2
  (quarter (m - below), quarter (m + 2))

/-- Does the decimal `n` times ten to the `k` round to the double?  The ends of its interval do
when the mantissa is even. -/
def admits (x : Double) (n : Nat) (k : Int) : Bool :=
  let d := (Ratio.ofNat n).scale 10 k
  let (lo, hi) := x.interval
  if x.mantissa % 2 = 0 then lo.le d && d.le hi else lo.lt d && d.lt hi

/-- The point of the grid of ten to the `k` that rounds to the double and is nearest to it; of two
that are equally near, the even one. -/
def onGrid? (x : Double) (k : Int) : Option Nat :=
  let low := (x.magnitude.scale 10 (-k)).floor
  let far (n : Nat) : Ratio := ((Ratio.ofNat n).scale 10 k).distance x.magnitude
  match 0 < low && x.admits low k, x.admits (low + 1) k with
  | true, true =>
    if (far (low + 1)).lt (far low) then some (low + 1)
    else if (far low).lt (far (low + 1)) then some low
    else if low % 2 = 0 then some low
    else some (low + 1)
  | true, false => some low
  | false, true => some (low + 1)
  | false, false => none

/-- The coarsest grid with a point that rounds to the double, among `count` grids from ten to the
`k` down. -/
def onGrids (x : Double) : Nat → Int → Nat × Int
  | 0, k => (0, k)
  | count + 1, k =>
    match x.onGrid? k with
    | some n => (n, k)
    | none => onGrids x count (k - 1)

/-- The shortest decimal that rounds to a double that is not zero: a natural and a power of ten. -/
def shortest (x : Double) : Nat × Int := onGrids x 700 310

/-! ## Notation -/

/-- How a decimal is written. -/
structure Style where
  /-- The exponents of the leading digit for which the decimal is positional. -/
  least : Int
  greatest : Int
  deriving DecidableEq, Repr

/-- Positional from 1e-5 up to 1e15 and the sixteen digits behind it. -/
def style : Style := ⟨-5, 15⟩

/-- The exponent of an exponential notation, with its sign. -/
def exponentText (e : Int) : Bytes :=
  Byte.ofChar 'e' :: (if e < 0 then Byte.hyphen else Byte.plus) :: Numeral.decimal e.natAbs

/-- Digits `ds`, the first of which has the exponent `e`, without trailing zeros. -/
def written (ds : Bytes) (e : Int) : Bytes :=
  if style.least ≤ e ∧ e ≤ style.greatest then
    match e with
    | .ofNat n =>
      let whole := ds.take (n + 1) ++ List.replicate (n + 1 - ds.length) Byte.zero
      let rest := ds.drop (n + 1)
      whole ++ Byte.dot :: (if rest = [] then [Byte.zero] else rest)
    | .negSucc n => Byte.zero :: Byte.dot :: (List.replicate n Byte.zero ++ ds)
  else
    match ds with
    | [] => []
    | [d] => d :: exponentText e
    | d :: rest => d :: Byte.dot :: (rest ++ exponentText e)

/-- A decimal without the zeros at its end. -/
def dropZeros (ds : Bytes) : Bytes := (ds.reverse.dropWhile (· == Byte.zero)).reverse

/-- The shortest text that reads back as the double. -/
def text (x : Double) : Bytes :=
  let sign := if x.negative then [Byte.hyphen] else []
  if x.isZero then sign ++ [Byte.zero, Byte.dot, Byte.zero]
  else
    let (n, k) := x.shortest
    let ds := Numeral.decimal n
    sign ++ written (dropZeros ds) (k + ds.length - 1)

end Double

end Bytewise.Text
