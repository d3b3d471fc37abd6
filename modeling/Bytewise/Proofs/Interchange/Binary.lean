/-
# Bytewise.Proofs.Interchange.Binary -- binary codes are read back, and say where they end

What is written in binary can stand in front of anything: it is read back to its last
byte and no further, and nothing that is cut off of it goes unnoticed (`Delimited`).
So no code is the beginning of the code of something else.

Lengths and limits take eight bytes, and so are below 2^64, as those of every string,
array and pattern are.  A cell is written as its bits, which say which cell it is
(`Bitwise`).  A pattern is written without its program; that it comes back too is
because a pattern is what its settings compile to.
-/
import Bytewise.Interchange.Arrays
import Bytewise.Interchange.Patterns
import Bytewise.Interchange.Strings
import Bytewise.Proofs.Binary.Delimited
import Bytewise.Proofs.Pattern.Freshness
import Bytewise.Proofs.Shared.Counting
import Bytewise.Proofs.Text.Utf8

namespace Bytewise.Interchange

set_option autoImplicit false

open Binary (Decodes andThen decodes_bool decodes_bytes decodes_nothing decodes_sequence
  decodes_unsigned)
open Pattern (Settings)
open Shared (Cell Handle Heap Storable)

/-- The lengths and limits there are: integers of 64 bits. -/
def InRange (n : Nat) : Prop := n < 0x10000000000000000

instance (n : Nat) : Decidable (InRange n) := inferInstanceAs (Decidable (_ < _))

theorem InRange.lt_capacity {n : Nat} (inRange : InRange n) :
    n < Binary.capacity Binary.lengthWidth := inRange

/-- The codes of values of a size that can be written, and what is read from them. -/
structure Delimited {α β : Type} (Sized : α → Prop) (write : α → Bytes)
    (read : Bytes → Except Binary.Error β) (Shows : β → α → Prop) : Prop where
  /-- A code is read back, whatever is behind it. -/
  whole : ∀ a, Sized a → ∀ rest, ∃ b, read (write a ++ rest) = .ok b ∧ Shows b a
  /-- A code that is cut off anywhere is not read. -/
  cut : ∀ a, Sized a → ∀ front back, front ++ back = write a → back ≠ [] →
    read front = .error .endOfInput
  /-- No code starts with the code of another value. -/
  distinct : ∀ a a', Sized a → Sized a' → write a <+: write a' → a = a'

/-- It is enough that a reader decodes what is written as a value of its own, from which may be made
whatever shows what was written. -/
theorem Delimited.of_decodes {α β γ : Type} {Sized : α → Prop} {write : α → Bytes}
    {read : Bytes → Except Binary.Error β} {Shows : β → α → Prop} {reader : Bytes → Binary.Result γ}
    (value : α → γ) (make : γ → β)
    (decodes : ∀ a, Sized a → Decodes reader (write a) (value a))
    (injective : Function.Injective value)
    (reads : ∀ s, read s = (Binary.document reader s).map make)
    (shown : ∀ a, Shows (make (value a)) a) : Delimited Sized write read Shows where
  whole a sized rest := by
    refine ⟨make (value a), ?_, shown a⟩
    rw [reads, (decodes a sized).document]
    rfl
  cut a sized front back split missing := by
    rw [reads, (decodes a sized).document_cut split missing]
    rfl
  distinct a a' sized sized' starts :=
    injective ((decodes a sized).eq_of_starts (decodes a' sized') starts)

/-! ## Cells -/

/-- The bits of a cell fit into its width and say which cell it is. -/
structure Bitwise (α : Type) [Cell α] : Prop where
  small : ∀ c : α, Cell.toBits c < Binary.capacity (Storable.width α)
  back : ∀ c : α, Cell.ofBits (Cell.toBits c) = c

theorem bitwise_uint8 : Bitwise UInt8 := ⟨UInt8.toNat_lt, fun _ => UInt8.ofNat_toNat⟩

theorem bitwise_uint16 : Bitwise UInt16 := ⟨UInt16.toNat_lt, fun _ => UInt16.ofNat_toNat⟩

theorem bitwise_uint32 : Bitwise UInt32 := ⟨UInt32.toNat_lt, fun _ => UInt32.ofNat_toNat⟩

theorem bitwise_uint64 : Bitwise UInt64 := ⟨UInt64.toNat_lt, fun _ => UInt64.ofNat_toNat⟩

theorem bitwise_int16 : Bitwise Int16 where
  small c := c.toUInt16.toNat_lt
  back c := by
    show (UInt16.ofNat c.toUInt16.toNat).toInt16 = c
    rw [UInt16.ofNat_toNat, Int16.toInt16_toUInt16]

/-! ## Arrays -/

namespace Arrays

variable {α : Type} [Cell α]

theorem decodes_cell (bitwise : Bitwise α) (c : α) : Decodes readCell (writeCell c) c := by
  have read := (decodes_unsigned (bitwise.small c)).map (Cell.ofBits (α := α))
  rwa [bitwise.back] at read

/-- A new block of a heap shows cells if they are in it, it has one handle, and the others show what
they did before. -/
def IsNew (h : Heap α) (made : Heap α × Handle) (cells : List α) : Prop :=
  made.1.cells made.2 = cells ∧ made.1.refs made.2 = 1 ∧
    ∀ y, y ≠ made.2 → made.1.contents? y = h.contents? y

omit [Cell α] in
theorem isNew_alloc (h : Heap α) (cells : List α) : IsNew h (h.alloc cells) cells := by
  refine ⟨?_, Heap.refs_alloc_self h cells, fun y other => Heap.contents?_alloc_of_ne _ other⟩
  rw [Heap.cells_eq, Heap.contents?_alloc_self]
  rfl

/-- Arrays are read back into a new block of any heap. -/
def CodesDelimited (α : Type) [Cell α] : Prop :=
  ∀ h : Heap α,
    Delimited (fun cells : List α => InRange cells.length) writeBinary (ofBinary h) (IsNew h)

theorem delimited (bitwise : Bitwise α) : CodesDelimited α := by
  intro h
  refine .of_decodes id h.alloc (fun cells sized => ?_) Function.injective_id (fun _ => rfl)
    (isNew_alloc h)
  exact decodes_sequence sized.lt_capacity fun c _ => decodes_cell bitwise c

end Arrays

/-! ## Byte strings -/

theorem Strings.delimited :
    Delimited (fun s : Bytes => InRange s.length) Strings.writeBinary Strings.ofBinary
      fun read s => read = s :=
  .of_decodes id id (fun _ sized => decodes_bytes sized.lt_capacity) Function.injective_id
    (fun _ => (congrFun Except.map_id _).symm) fun _ => rfl

/-! ## Patterns -/

namespace Patterns

/-- The settings that a pattern can have. -/
def Sized (s : Settings) : Prop :=
  InRange (Text.Utf8.ofString s.text).length ∧ InRange s.maxCells

theorem readTextBinary_eq :
    readTextBinary = andThen Binary.readBytes fun bs s =>
      match Text.Utf8.toString? bs with
      | some text => .ok (text, s)
      | none => .error .invalidText := by
  funext s
  rw [readTextBinary, andThen]
  cases Binary.readBytes s <;> rfl

theorem decodes_text {text : String} (sized : InRange (Text.Utf8.ofString text).length) :
    Decodes readTextBinary (Binary.writeBytes (Text.Utf8.ofString text)) text := by
  rw [readTextBinary_eq, ← List.append_nil (Binary.writeBytes _)]
  refine (decodes_bytes sized.lt_capacity).andThen ?_
  rw [Text.Utf8.toString?_eq_some_iff.2 rfl]
  exact decodes_nothing text

theorem readBinary_eq :
    readBinary = andThen readTextBinary fun text => andThen Binary.readBool fun caseSensitive =>
      andThen Binary.readBool fun wildcard s =>
        (Binary.readUnsigned Binary.lengthWidth s).map fun r =>
          (Pattern.ofText text caseSensitive wildcard r.1, r.2) := by
  funext s
  rw [readBinary, andThen]
  cases readTextBinary s with
  | error e => rfl
  | ok r =>
      obtain ⟨text, s⟩ := r
      simp only [andThen]
      cases Binary.readBool s with
      | error e => rfl
      | ok r =>
          obtain ⟨caseSensitive, s⟩ := r
          simp only []
          cases Binary.readBool s <;> rfl

/-- Of a pattern its settings are written. -/
theorem writeBinary_fresh (s : Settings) :
    writeBinary s.fresh = Binary.writeBytes (Text.Utf8.ofString s.text) ++
      Binary.writeBool s.caseSensitive ++ Binary.writeBool s.wildcard ++
      Binary.writeUnsigned Binary.lengthWidth s.maxCells := by
  rw [writeBinary, Settings.fresh, Pattern.text_ofText, Pattern.caseSensitive_ofText,
    Pattern.wildcard_ofText, Pattern.maxCells_ofText]

theorem decodes_settings {s : Settings} (sized : Sized s) :
    Decodes readBinary (writeBinary s.fresh) s.fresh := by
  rw [readBinary_eq, writeBinary_fresh, List.append_assoc, List.append_assoc]
  refine (decodes_text sized.1).andThen ((decodes_bool _).andThen ((decodes_bool _).andThen ?_))
  exact (decodes_unsigned sized.2.lt_capacity).map _

theorem fresh_injective : Function.Injective Settings.fresh := by
  rintro ⟨_, _, _, _⟩ ⟨_, _, _, _⟩ same
  obtain ⟨rfl, rfl, rfl, rfl⟩ := Pattern.ofText_inj.1 same
  rfl

theorem delimited :
    Delimited Sized (fun s => writeBinary s.fresh) ofBinary fun p s => p = s.fresh :=
  .of_decodes Settings.fresh id (fun _ sized => decodes_settings sized) fresh_injective
    (fun _ => (congrFun Except.map_id _).symm) fun _ => rfl

end Patterns

/-- **Binary codes are read back, and say where they end.**  This holds of every byte string, of every
array of cells of the five types, which is read into a new block with one handle, and of every
pattern, which is read with its program or its error, whether or not its text compiles.  Whatever
stands behind a code, it is read as what was written; a code from which anything at the end is
missing is never read; and where a code starts with another one or is the same, both are codes of
the same value. -/
theorem binary_delimited :
    Delimited (fun s : Bytes => InRange s.length) Strings.writeBinary Strings.ofBinary
      (fun read s => read = s) ∧
    Arrays.CodesDelimited UInt8 ∧ Arrays.CodesDelimited UInt16 ∧ Arrays.CodesDelimited UInt32 ∧
    Arrays.CodesDelimited UInt64 ∧ Arrays.CodesDelimited Int16 ∧
    Delimited Patterns.Sized (fun s => Patterns.writeBinary s.fresh) Patterns.ofBinary
      fun p s => p = s.fresh :=
  ⟨Strings.delimited, Arrays.delimited bitwise_uint8, Arrays.delimited bitwise_uint16,
    Arrays.delimited bitwise_uint32, Arrays.delimited bitwise_uint64,
    Arrays.delimited bitwise_int16, Patterns.delimited⟩

/-- The pattern `[`, which has no program, in front of one more byte, and without its last byte. -/
theorem binary_delimited_unclosed :
    Patterns.Sized ⟨"[", true, false, 5⟩ ∧
    Patterns.ofBinary ([1, 0, 0, 0, 0, 0, 0, 0, 0x5b, 1, 0, 5, 0, 0, 0, 0, 0, 0, 0] ++ [0xff]) =
      .ok (.ofText "[" true false 5) ∧
    Patterns.ofBinary [1, 0, 0, 0, 0, 0, 0, 0, 0x5b, 1, 0, 5, 0, 0, 0, 0, 0, 0] =
      .error .endOfInput := by
  have sized : Patterns.Sized ⟨"[", true, false, 5⟩ := ⟨by decide, by decide⟩
  have code : Patterns.writeBinary (Settings.fresh ⟨"[", true, false, 5⟩) =
      [1, 0, 0, 0, 0, 0, 0, 0, 0x5b, 1, 0, 5, 0, 0, 0, 0, 0, 0, 0] := by
    rw [Patterns.writeBinary_fresh]
    decide
  obtain ⟨-, -, -, -, -, -, patterns⟩ := binary_delimited
  obtain ⟨_, read, rfl⟩ := patterns.whole _ sized [0xff]
  rw [code] at read
  exact ⟨sized, read, patterns.cut _ sized _ [0] (by rw [code]; rfl) (List.cons_ne_nil _ _)⟩

end Bytewise.Interchange
