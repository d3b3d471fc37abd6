/-
# Bytewise.Proofs.Json.Value -- which texts are values

`Formed part s`: the bytes are a value, or one of the parts that arrays and objects are
made of.  Words, numbers of any size, strings with any escapes, arrays and objects are
values, with white space wherever it may stand.

`skipFrom` passes over each part to its last byte and no further (`Formed.passes`).
What this means for a part is said by `Passes`, and it is shown for one constructor
after the other: a value is passed over in any frame, if no number goes on behind it;
what follows an opening or an entry is passed over up to where its frame is closed.
-/
import Bytewise.Proofs.Json.Number
import Bytewise.Proofs.Json.Text

namespace Bytewise.Json

set_option autoImplicit false

variable {b : UInt8} {s w v rest : Bytes}

/-! ## Numbers -/

namespace Number

/-- Nothing but digits, and at least one. -/
structure SomeDigits (s : Bytes) : Prop where
  nonempty : s ≠ []
  digits : ∀ b ∈ s, Byte.isDigit b = true

/-- What stands behind the whole part of a number. -/
inductive Fraction : Bytes → Prop
  | absent : Fraction []
  | point {s : Bytes} (digits : SomeDigits s) : Fraction (Byte.dot :: s)

/-- What stands behind the digits of a number. -/
inductive Exponent : Bytes → Prop
  | absent : Exponent []
  | power {mark : UInt8} {sign s : Bytes} (marked : mark = Byte.ofChar 'e' ∨ mark = Byte.ofChar 'E')
      (signed : sign = [] ∨ sign = [Byte.plus] ∨ sign = [Byte.hyphen]) (digits : SomeDigits s) :
      Exponent (mark :: (sign ++ s))

/-- A number, of any size. -/
inductive Written : Bytes → Prop
  | unsigned {n : Nat} {f e : Bytes} (fraction : Fraction f) (exponent : Exponent e) :
      Written (Text.Numeral.decimal n ++ (f ++ e))
  | negative {n : Nat} {f e : Bytes} (fraction : Fraction f) (exponent : Exponent e) :
      Written (Byte.hyphen :: (Text.Numeral.decimal n ++ (f ++ e)))

theorem SomeDigits.read (some : SomeDigits s) (stop : NoDigit rest) :
    ∃ ds, someDigits (s ++ rest) = .ok (ds, rest) := by
  obtain ⟨taken, left⟩ := divide_eq_iff.2 ⟨rfl, some.digits, stop⟩
  rw [someDigits, Number.digits, taken, left]
  cases s with
  | nil => exact absurd rfl some.nonempty
  | cons b s => exact ⟨_, rfl⟩

theorem SomeDigits.head (some : SomeDigits s) : ∃ b s', s = b :: s' ∧ Byte.isDigit b = true := by
  cases s with
  | nil => exact absurd rfl some.nonempty
  | cons b s => exact ⟨b, s, rfl, some.digits b List.mem_cons_self⟩

theorem Fraction.read (f : Fraction s) (stop : NoDigit rest) (end_ : rest.head? ≠ some Byte.dot) :
    ∃ ds, fraction (s ++ rest) = .ok (ds, rest) := by
  cases f with
  | absent => exact ⟨_, fraction_eq_none_iff.2 ⟨rfl, end_⟩⟩
  | point digits =>
      obtain ⟨ds, read⟩ := digits.read stop
      rw [List.cons_append, fraction, if_pos rfl, read]
      exact ⟨_, rfl⟩

/-- A sign is read, and digits have none. -/
theorem SomeDigits.exponentSign (some : SomeDigits s) {sign : Bytes}
    (signed : sign = [] ∨ sign = [Byte.plus] ∨ sign = [Byte.hyphen]) (rest : Bytes) :
    (exponentSign (sign ++ s ++ rest)).2 = s ++ rest := by
  rcases signed with rfl | rfl | rfl
  · obtain ⟨b, s, rfl, digit⟩ := some.head
    have other : b ≠ Byte.plus ∧ b ≠ Byte.hyphen := by
      constructor <;> rintro rfl <;> revert digit <;> decide
    rw [List.nil_append, List.cons_append, Number.exponentSign, if_neg other.1, if_neg other.2]
  · rfl
  · rfl

theorem Exponent.read (e : Exponent s) (ends : Ends rest) :
    ∃ x, exponent (s ++ rest) = .ok (x, rest) := by
  cases e with
  | absent => exact ⟨_, exponent_eq_none_iff.2 ⟨rfl, ends.noExponent⟩⟩
  | power marked signed digits =>
      obtain ⟨ds, read⟩ := digits.read ends.noDigit
      rw [List.cons_append, exponent, if_pos marked, digits.exponentSign signed, read]
      exact ⟨_, rfl⟩

theorem Exponent.stops (e : Exponent s) (ends : Ends rest) :
    NoDigit (s ++ rest) ∧ (s ++ rest).head? ≠ some Byte.dot := by
  cases e with
  | absent => exact ⟨ends.noDigit, ends.noFraction⟩
  | power marked _ _ =>
      rcases marked with rfl | rfl <;> constructor <;> simp [NoDigit] <;> decide

theorem Fraction.stops (f : Fraction s) (stop : NoDigit rest) : NoDigit (s ++ rest) := by
  cases f with
  | absent => exact stop
  | point digits =>
      rintro _ ⟨⟩
      decide

theorem exists_parts {n : Nat} {f e : Bytes} (fraction₀ : Fraction f) (exponent₀ : Exponent e)
    (ends : Ends rest) :
    ∃ p, parts (Text.Numeral.decimal n ++ (f ++ e) ++ rest) = .ok (p, rest) := by
  obtain ⟨noDigit, noFraction⟩ := exponent₀.stops ends
  obtain ⟨ds, fractionRead⟩ := fraction₀.read noDigit noFraction
  obtain ⟨x, exponentRead⟩ := exponent₀.read ends
  have wholeRead := whole_eq_ok_iff.2 ⟨n, rfl, rfl, fraction₀.stops noDigit⟩
  refine ⟨⟨Text.Numeral.digits 10 n, ds, x⟩, ?_⟩
  rw [List.append_assoc, List.append_assoc, parts, wholeRead]
  simp only [fractionRead, exponentRead, Except.map]

/-- A number is passed over where no number goes on behind it. -/
theorem Written.skip (written : Written v) :
    ∃ b s, v = b :: s ∧ starts b = true ∧ ∀ rest, Ends rest → Number.skip b (s ++ rest) = .ok rest := by
  cases written with
  | @unsigned n f e fraction exponent =>
      obtain ⟨b, s, split, digit, unsigned⟩ := exists_decimal_append n (f ++ e)
      refine ⟨b, s, split, by simp [starts, digit], fun rest ends => ?_⟩
      obtain ⟨p, read⟩ := exists_parts (n := n) fraction exponent ends
      rw [Number.skip, if_neg unsigned, ← List.cons_append, ← split, read]
  | @negative n f e fraction exponent =>
      refine ⟨_, _, rfl, by decide, fun rest ends => ?_⟩
      obtain ⟨p, read⟩ := exists_parts (n := n) fraction exponent ends
      rw [Number.skip, if_pos rfl, read]

theorem ne_of_starts {c : UInt8} (starts : Number.starts b = true) (stops : Number.starts c = false) :
    b ≠ c := by
  rintro rfl
  exact Bool.false_ne_true (stops.symm.trans starts)

theorem written_integer (i : Int) : Written (Text.Numeral.integer i) := by
  cases i with
  | ofNat n =>
      have written := Written.unsigned (n := n) .absent .absent
      rwa [List.append_nil, List.append_nil] at written
  | negSucc n =>
      have written := Written.negative (n := n + 1) .absent .absent
      rwa [List.append_nil, List.append_nil] at written

end Number

/-! ## Strings -/

namespace Text

/-- What stands behind a backslash where nobody looks at surrogates. -/
inductive AnyEscape : Bytes → Prop
  | letter {c b : UInt8} (plain : plainEscape? c = some b) : AnyEscape [c]
  | digits {w : Bytes} {n : Nat} (hex : Hex w n) : AnyEscape (letterU :: w)

/-- What stands between the quotes of a string, whether or not it is a text. -/
inductive Quoted : Bytes → Prop
  | nil : Quoted []
  | plain {b : UInt8} {body : Bytes} (quote : b ≠ Byte.doubleQuote)
      (backslash : b ≠ Byte.backslash) (control : ¬ b < 0x20) (behind : Quoted body) :
      Quoted (b :: body)
  | escape {letters body : Bytes} (escape : AnyEscape letters) (behind : Quoted body) :
      Quoted (Byte.backslash :: (letters ++ body))

/-- What spells bytes may stand between quotes. -/
theorem Spelled.quoted {body bs : Bytes} (spelled : Spelled body bs) : Quoted body := by
  induction spelled with
  | nil => exact .nil
  | plain quote backslash control _ ih => exact .plain quote backslash control ih
  | escape escapes _ ih =>
      cases escapes with
      | letter plain => exact .escape (.letter plain) ih
      | point point =>
          cases point with
          | one hex _ _ => exact .escape (.digits hex) ih
          | pair hex hex' _ _ => simpa using Quoted.escape (.digits hex) (.escape (.digits hex') ih)

theorem AnyEscape.skip {letters : Bytes} (escapes : AnyEscape letters) (after : Bytes) :
    skipEscape (letters ++ after) = .ok after := by
  cases escapes with
  | @letter c b plain =>
      have other : c ≠ Byte.ofChar 'u' := by
        rintro rfl
        revert plain
        simp [show plainEscape? (Byte.ofChar 'u') = none by decide]
      rw [List.singleton_append, skipEscape, if_neg other, plain]
  | digits hex =>
      rw [List.cons_append, skipEscape, letterU, if_pos rfl, fourDigits_eq_ok_iff.2 ⟨_, rfl, hex⟩]
      rfl

theorem Quoted.skip {body : Bytes} (quoted : Quoted body) (rest : Bytes) :
    Text.skip (body ++ Byte.doubleQuote :: rest) = .ok rest := by
  induction quoted with
  | nil => rw [List.nil_append, Text.skip, if_pos rfl]
  | plain quote backslash control _ ih =>
      rw [List.cons_append, Text.skip, if_neg quote, if_neg backslash, if_neg control, ih]
  | escape escapes _ ih =>
      rw [List.cons_append, List.append_assoc, Text.skip, if_neg (by decide), if_pos rfl]
      split
      · rename_i failed
        rw [escapes.skip] at failed
        cases failed
      · rename_i after skipped
        rw [escapes.skip] at skipped
        obtain rfl := Except.ok.inj skipped
        exact ih

end Text

/-! ## Values -/

def Frame.opening : Frame → UInt8
  | .array => Byte.leftBracket
  | .object => Byte.leftBrace

/-- What texts are made of: values, the entries of a frame, and what stands in a frame behind its
opening and behind an entry, up to its closing byte. -/
inductive Part
  | value
  | entry (f : Frame)
  | inside (f : Frame)
  | behind (f : Frame)

/-- The texts of values and of their parts. -/
inductive Formed : Part → Bytes → Prop
  | null : Formed .value [0x6e, 0x75, 0x6c, 0x6c]
  | bool (b : Bool) : Formed .value (writeBool b)
  | number {v : Bytes} (written : Number.Written v) : Formed .value v
  | string {body : Bytes} (quoted : Text.Quoted body) :
      Formed .value (Byte.doubleQuote :: (body ++ [Byte.doubleQuote]))
  | frame {f : Frame} {s : Bytes} (inside : Formed (.inside f) s) : Formed .value (f.opening :: s)
  | item {v : Bytes} (value : Formed .value v) : Formed (.entry .array) v
  | member {body w w' v : Bytes} (quoted : Text.Quoted body) (blank : Blank w) (blank' : Blank w')
      (value : Formed .value v) :
      Formed (.entry .object)
        (Byte.doubleQuote :: (body ++ Byte.doubleQuote :: (w ++ Byte.colon :: (w' ++ v))))
  | empty {f : Frame} {w : Bytes} (blank : Blank w) : Formed (.inside f) (w ++ [f.closing])
  | first {f : Frame} {w text s : Bytes} (blank : Blank w) (entry : Formed (.entry f) text)
      (behind : Formed (.behind f) s) : Formed (.inside f) (w ++ (text ++ s))
  | close {f : Frame} {w : Bytes} (blank : Blank w) : Formed (.behind f) (w ++ [f.closing])
  | comma {f : Frame} {w w' text s : Bytes} (blank : Blank w) (blank' : Blank w')
      (entry : Formed (.entry f) text) (behind : Formed (.behind f) s) :
      Formed (.behind f) (w ++ Byte.comma :: (w' ++ (text ++ s)))

abbrev Value (v : Bytes) : Prop := Formed .value v

/-! ## Steps of `skipFrom` -/

section

variable {f : Frame} {stack : List Frame}

theorem skipFrom_beforeValue (skipped : skipBlank s = b :: rest) :
    skipFrom .beforeValue stack s =
      if b = Byte.leftBracket then skipFrom .opened (.array :: stack) rest
      else if b = Byte.leftBrace then skipFrom .opened (.object :: stack) rest
      else (skipScalar b rest).bind (skipFrom .afterValue stack) := by
  rw [skipFrom]
  split
  · rename_i empty
    cases skipped.symm.trans empty
  · rename_i found
    cases skipped.symm.trans found
    cases skipScalar b rest <;> rfl

theorem skipFrom_opened (skipped : skipBlank s = b :: rest) :
    skipFrom .opened (f :: stack) s =
      if b = f.closing then skipFrom .afterValue stack rest
      else (f.skipKey (b :: rest)).bind (skipFrom .beforeValue (f :: stack)) := by
  rw [skipFrom]
  split
  · rename_i empty
    cases skipped.symm.trans empty
  · rename_i found
    cases skipped.symm.trans found
    cases f.skipKey (b :: rest) <;> rfl

theorem skipFrom_afterValue (skipped : skipBlank s = b :: rest) :
    skipFrom .afterValue (f :: stack) s =
      if b = f.closing then skipFrom .afterValue stack rest
      else if b = Byte.comma then (f.skipKey rest).bind (skipFrom .beforeValue (f :: stack))
      else .error .malformed := by
  rw [skipFrom]
  split
  · rename_i empty
    cases skipped.symm.trans empty
  · rename_i found
    cases skipped.symm.trans found
    cases f.skipKey rest <;> rfl

theorem skipFrom_done : skipFrom .afterValue [] s = .ok s := by
  rw [skipFrom]

theorem Frame.isBlank_closing (f : Frame) : isBlank f.closing = false := by
  cases f <;> rfl

/-- The byte may be the first of a word, a number or a string: it opens no frame and closes no array. -/
structure Scalar (b : UInt8) : Prop where
  solid : isBlank b = false
  array : b ≠ Byte.leftBracket
  object : b ≠ Byte.leftBrace
  closing : b ≠ Byte.rightBracket

theorem scalar_of_starts (starts : Number.starts b = true) : Scalar b where
  solid := (not_isBlank_of_starts starts).1
  array := Number.ne_of_starts starts (by decide)
  object := Number.ne_of_starts starts (by decide)
  closing := (not_isBlank_of_starts starts).2

theorem skipFrom_scalar (scalar : Scalar b) (skipped : skipScalar b s = .ok rest) (blank : Blank w) :
    skipFrom .beforeValue stack (w ++ b :: s) = skipFrom .afterValue stack rest := by
  rw [skipFrom_beforeValue (skipBlank_eq_cons blank scalar.solid s), if_neg scalar.array,
    if_neg scalar.object, skipped]
  rfl

end

/-! ## Parts are passed over -/

/-- An entry of the frame may start so: not with white space, and not with the closing byte. -/
def Frame.Opens (f : Frame) (s : Bytes) : Prop :=
  ∃ b u, s = b :: u ∧ isBlank b = false ∧ b ≠ f.closing

/-- The part is passed over, whatever frames it stands in.  A number ends only where none goes on
behind it, so what may end with one is passed over in front of such bytes. -/
def Passes : Part → Bytes → Prop
  | .value, v => Frame.array.Opens v ∧ ∀ stack w rest, Blank w → Number.Ends rest →
      skipFrom .beforeValue stack (w ++ (v ++ rest)) = skipFrom .afterValue stack rest
  | .entry f, s => f.Opens s ∧ ∀ stack w rest, Blank w → Number.Ends rest →
      (f.skipKey (w ++ (s ++ rest))).bind (skipFrom .beforeValue (f :: stack)) =
        skipFrom .afterValue (f :: stack) rest
  | .inside f, s => ∀ stack rest,
      skipFrom .opened (f :: stack) (s ++ rest) = skipFrom .afterValue stack rest
  | .behind f, s => (∀ rest, Number.Ends (s ++ rest)) ∧ ∀ stack rest,
      skipFrom .afterValue (f :: stack) (s ++ rest) = skipFrom .afterValue stack rest

theorem passes_scalar (scalar : Scalar b)
    (skipped : ∀ rest, Number.Ends rest → skipScalar b (s ++ rest) = .ok rest) :
    Passes .value (b :: s) :=
  ⟨⟨b, s, rfl, scalar.solid, scalar.closing⟩, fun _ _ rest blank ends =>
    skipFrom_scalar scalar (skipped rest ends) blank⟩

theorem skipScalar_number (starts : Number.starts b = true) (s : Bytes) :
    skipScalar b s = Number.skip b s := by
  have other : ∀ {c}, Number.starts c = false → b ≠ c := Number.ne_of_starts starts
  rw [skipScalar, if_neg (other (by decide)), if_neg (other (by decide)), if_neg (other (by decide)),
    if_neg (other (by decide)), if_pos starts]

theorem passes_number (written : Number.Written v) : Passes .value v := by
  obtain ⟨b, s, rfl, starts, skipped⟩ := written.skip
  refine passes_scalar (scalar_of_starts starts) fun rest ends => ?_
  rw [skipScalar_number starts, skipped rest ends]

theorem scalar_quote : Scalar Byte.doubleQuote := ⟨by decide, by decide, by decide, by decide⟩

theorem skipScalar_quote {body : Bytes} (quoted : Text.Quoted body) (rest : Bytes) :
    skipScalar Byte.doubleQuote (body ++ [Byte.doubleQuote] ++ rest) = .ok rest := by
  rw [List.append_assoc]
  exact quoted.skip rest

theorem exists_bool (b : Bool) :
    ∃ c s, writeBool b = c :: s ∧ Scalar c ∧ ∀ rest, skipScalar c (s ++ rest) = .ok rest := by
  cases b with
  | true =>
      exact ⟨_, _, rfl, ⟨by decide, by decide, by decide, by decide⟩, fun _ => word_eq_ok_iff.2 rfl⟩
  | false =>
      exact ⟨_, _, rfl, ⟨by decide, by decide, by decide, by decide⟩, fun _ => word_eq_ok_iff.2 rfl⟩

theorem passes_bool (b : Bool) : Passes .value (writeBool b) := by
  obtain ⟨c, s, split, scalar, skipped⟩ := exists_bool b
  rw [split]
  exact passes_scalar scalar fun rest _ => skipped rest

/-- The opening byte of a frame, in front of what passes inside of it. -/
theorem passes_frame {f : Frame} (inside : Passes (.inside f) s) : Passes .value (f.opening :: s) := by
  refine ⟨⟨_, s, rfl, by cases f <;> rfl, by cases f <;> decide⟩, fun stack w rest blank _ => ?_⟩
  have solid : isBlank f.opening = false := by cases f <;> rfl
  rw [List.cons_append, skipFrom_beforeValue (skipBlank_eq_cons blank solid _), ← inside stack rest]
  cases f <;> rfl

theorem passes_item (value : Passes .value v) : Passes (.entry .array) v :=
  ⟨value.1, fun stack w rest blank ends => value.2 (.array :: stack) w rest blank ends⟩

theorem skipKey_member {body w' : Bytes} (quoted : Text.Quoted body) (blank : Blank w)
    (blank' : Blank w') (s : Bytes) :
    skipKey (w ++ Byte.doubleQuote :: (body ++ Byte.doubleQuote :: (w' ++ Byte.colon :: s))) = .ok s := by
  rw [skipKey, skipBlank_eq_cons blank (by decide)]
  simp only [quoted.skip, skipBlank_eq_cons blank' (show isBlank Byte.colon = false by decide), if_true]

theorem passes_member {body w' : Bytes} (quoted : Text.Quoted body) (blank : Blank w)
    (blank' : Blank w') (value : Passes .value v) :
    Passes (.entry .object)
      (Byte.doubleQuote :: (body ++ Byte.doubleQuote :: (w ++ Byte.colon :: (w' ++ v)))) := by
  refine ⟨⟨_, _, rfl, by decide, by decide⟩, fun stack w₀ rest blank₀ ends => ?_⟩
  have key := skipKey_member quoted blank₀ blank (w' ++ (v ++ rest))
  simp only [Frame.skipKey, List.cons_append, List.append_assoc, key]
  exact value.2 (.object :: stack) w' rest blank' ends

theorem passes_empty (f : Frame) (blank : Blank w) : Passes (.inside f) (w ++ [f.closing]) := by
  intro stack rest
  rw [List.append_assoc, List.singleton_append,
    skipFrom_opened (skipBlank_eq_cons blank f.isBlank_closing rest), if_pos rfl]

theorem passes_first {f : Frame} {text : Bytes} (blank : Blank w) (entry : Passes (.entry f) text)
    (behind : Passes (.behind f) s) : Passes (.inside f) (w ++ (text ++ s)) := by
  obtain ⟨⟨b, u, rfl, solid, other⟩, passed⟩ := entry
  intro stack rest
  have here := passed stack [] (s ++ rest) blank_nil (behind.1 rest)
  rw [List.append_assoc, List.append_assoc, List.cons_append,
    skipFrom_opened (skipBlank_eq_cons blank solid _), if_neg other, ← behind.2 stack rest, ← here]
  rfl

theorem passes_close (f : Frame) (blank : Blank w) : Passes (.behind f) (w ++ [f.closing]) := by
  constructor
  · intro rest
    rw [List.append_assoc]
    exact Number.ends_of_blank blank (by cases f <;> decide) rest
  · intro stack rest
    rw [List.append_assoc, List.singleton_append,
      skipFrom_afterValue (skipBlank_eq_cons blank f.isBlank_closing rest), if_pos rfl]

theorem passes_comma {f : Frame} {w' text : Bytes} (blank : Blank w) (blank' : Blank w')
    (entry : Passes (.entry f) text) (behind : Passes (.behind f) s) :
    Passes (.behind f) (w ++ Byte.comma :: (w' ++ (text ++ s))) := by
  have comma : Byte.comma ≠ f.closing := by cases f <;> decide
  constructor
  · intro rest
    rw [List.append_assoc]
    exact Number.ends_of_blank blank (by decide) _
  · intro stack rest
    have here := entry.2 stack w' (s ++ rest) blank' (behind.1 rest)
    rw [List.append_assoc, List.cons_append, List.append_assoc, List.append_assoc,
      skipFrom_afterValue (skipBlank_eq_cons blank (by decide) _), if_neg comma, if_pos rfl, here,
      behind.2 stack rest]

/-- Every part is passed over, by induction on how it is made. -/
theorem Formed.passes {part : Part} (formed : Formed part s) : Passes part s := by
  induction formed with
  | null =>
      exact passes_scalar ⟨by decide, by decide, by decide, by decide⟩ fun _ _ => word_eq_ok_iff.2 rfl
  | bool b => exact passes_bool b
  | number written => exact passes_number written
  | string quoted => exact passes_scalar scalar_quote fun rest _ => skipScalar_quote quoted rest
  | frame _ inside => exact passes_frame inside
  | item _ value => exact passes_item value
  | member quoted blank blank' _ value => exact passes_member quoted blank blank' value
  | empty blank => exact passes_empty _ blank
  | first blank _ _ entry behind => exact passes_first blank entry behind
  | close blank => exact passes_close _ blank
  | comma blank blank' _ _ entry behind => exact passes_comma blank blank' entry behind

/-- A value is passed over, where no number goes on behind it. -/
theorem skipValue_value (value : Value v) (blank : Blank w) (ends : Number.Ends rest) :
    skipValue (w ++ (v ++ rest)) = .ok rest := by
  rw [skipValue, value.passes.2 [] w rest blank ends, skipFrom_done]

end Bytewise.Json
