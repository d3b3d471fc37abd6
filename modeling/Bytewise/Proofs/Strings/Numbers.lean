/-
# Bytewise.Proofs.Strings.Numbers -- numbers in strings

Which bytes are read as numbers is in `Proofs.Bytes.Decimal`.  A number put into a
string is written there whatever the string was before (`contents?_setNumber`): it has
far fewer digits than a block of memory has bytes (`length_numberBytes_le`), so there is
room for it.  Therefore it is read back.
-/
import Bytewise.Proofs.Bytes.Decimal
import Bytewise.Proofs.Strings.Agreement

namespace Bytewise.Strings

set_option autoImplicit false

open Bytes (Padded Signed Unsigned toInt64? toUInt64?)
open Shared (Heap Holdings maxBytes)

variable {s : Store} {n : Int}

theorem length_numberBytes_le (low : -0x8000000000000000 ≤ n) (high : n ≤ 0x7fffffffffffffff) :
    (numberBytes n).length ≤ maxBytes := by
  have few := Text.Numeral.length_integer_le n
  rw [numberBytes, show maxBytes = 0x7fffffffffffffff from rfl]
  omega

theorem contents?_ofNumber (counted : s.Counted []) (name : String) (n : Int) :
    (apply s (.ofNumber name n)).store.contents? name = some (numberBytes n) :=
  (counted.bind_alloc name (numberBytes n)).shows

theorem contents?_setNumber (counted : s.Counted []) (name : String)
    (fits : (numberBytes n).length ≤ maxBytes) :
    (apply s (.change name (.setNumber n))).store.contents? name = some (numberBytes n) := by
  have room : s.heap.resize? (s.handle name) (numberBytes n).length ≠ none :=
    Heap.resize?_ne_none _ (fits_byte_iff.2 fits)
  obtain ⟨made, done⟩ : ∃ made, s.heap.store? (s.handle name) (numberBytes n) = some made := by
    rw [← Option.ne_none_iff_exists', Heap.store?, Ne, Option.map_eq_none_iff]
    exact room
  show (attempt s name (s.heap.store? (s.handle name) (numberBytes n)) _).store.contents? name = _
  rw [done]
  exact (counted.writes_update ((counted.focus name).store? done)).toChanges.shows

/-- **Numbers are read if they are decimals in range, and read back if they were written.**  Bytes
are a signed number if they are one or more digits behind a sign or none, with white space around
it or none, and the number lies in the range of 64 bits; all other bytes are none.  For an unsigned
number there is no minus sign.  What is written of a signed number of 64 bits, into a new string or
over any other one, is read as this number, with any white space around it, and as an unsigned one
just if it is not negative. -/
theorem decimals_read :
    (∀ s n, toInt64? s = some n ↔
      (∃ core, Padded core s ∧ Signed core n) ∧
        -0x8000000000000000 ≤ n ∧ n ≤ 0x7fffffffffffffff) ∧
    (∀ s n, toUInt64? s = some n ↔
      (∃ core, Padded core s ∧ Unsigned core n) ∧ n ≤ 0xffffffffffffffff) ∧
    ∀ n : Int, -0x8000000000000000 ≤ n → n ≤ 0x7fffffffffffffff →
      (∀ s, Padded (numberBytes n) s →
        toInt64? s = some n ∧ ∀ m : Nat, toUInt64? s = some m ↔ (m : Int) = n) ∧
      ∀ edits name,
        let store := run Holdings.empty edits
        (apply store (.ofNumber name n)).store.contents? name = some (numberBytes n) ∧
        (apply store (.change name (.setNumber n))).store.contents? name =
          some (numberBytes n) := by
  refine ⟨fun s n => Bytes.toInt64?_eq_some_iff, fun s n => Bytes.toUInt64?_eq_some_iff,
    fun n low high => ⟨fun s padded => ?read, fun edits name => ?written⟩⟩
  case read =>
    have high' : n ≤ 0xffffffffffffffff := by omega
    exact ⟨Bytes.toInt64?_of_padded padded low high,
      fun m => Bytes.toUInt64?_of_padded padded high'⟩
  case written =>
    have counted := counted_run Holdings.counted_empty edits
    exact ⟨contents?_ofNumber counted name n,
      contents?_setNumber counted name (length_numberBytes_le low high)⟩

end Bytewise.Strings
