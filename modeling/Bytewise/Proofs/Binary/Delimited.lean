/-
# Bytewise.Proofs.Binary.Delimited -- codes that say where they end

A reader decodes a code (`Decodes`) if it gives the value and all that is behind the
code, and finds the input at its end where the code is cut off anywhere.  Such codes
can be put one after the other (`Decodes.andThen`), also where the first value says
how the rest is to be read, as a length does.  So every part of the binary layout
decodes: integers (`decodes_unsigned`), truth values (`decodes_bool`), bytes
(`decodes_bytes`) and sequences (`decodes_sequence`).

No code that is decoded is the beginning of another one (`Decodes.eq_of_starts`).
-/
import Bytewise.Binary.Codec
import Bytewise.Proofs.Outcome

namespace Bytewise.Binary

set_option autoImplicit false

variable {α β : Type} {read : Bytes → Result α} {next : α → Bytes → Result β}
  {code code' : Bytes} {a a' : α} {b : β}

/-- The reader takes the whole code for the value, whatever is behind it, and misses what is cut off
of it. -/
structure Decodes (read : Bytes → Result α) (code : Bytes) (a : α) : Prop where
  whole : ∀ rest, read (code ++ rest) = .ok (a, rest)
  cut : ∀ {front back}, front ++ back = code → back ≠ [] → read front = .error .endOfInput

/-! ## One code after the other -/

/-- Reads a value, and then what this value announces. -/
def andThen (read : Bytes → Result α) (next : α → Bytes → Result β) (s : Bytes) : Result β :=
  match read s with
  | .error e => .error e
  | .ok (a, rest) => next a rest

theorem Decodes.andThen (first : Decodes read code a) (second : Decodes (next a) code' b) :
    Decodes (andThen read next) (code ++ code') b where
  whole rest := by
    rw [Binary.andThen, List.append_assoc, first.whole]
    exact second.whole rest
  cut {front back} split missing := by
    rw [Binary.andThen]
    rcases List.append_eq_append_iff.1 split with ⟨more, rfl, rfl⟩ | ⟨more, rfl, rfl⟩
    · -- The cut is in the first code, or right behind it.
      by_cases inside : more = []
      · subst inside
        have whole := first.whole []
        rw [List.append_nil, List.append_nil] at whole
        rw [whole]
        exact second.cut rfl missing
      · rw [first.cut rfl inside]
    · rw [first.whole]
      exact second.cut rfl missing

theorem Decodes.map (decodes : Decodes read code a) (f : α → β) :
    Decodes (fun s => (read s).map fun r => (f r.1, r.2)) code (f a) where
  whole rest := by
    rw [decodes.whole]
    rfl
  cut split missing := by
    rw [decodes.cut split missing]
    rfl

/-- Nothing is read where nothing is written. -/
theorem decodes_nothing (a : α) : Decodes (fun s => .ok (a, s)) [] a where
  whole _ := rfl
  cut split missing := absurd (List.append_eq_nil_iff.1 split).2 missing

/-! ## The parts of the layout -/

/-- How many naturals fit into `width` bytes. -/
def capacity : Nat → Nat
  | 0 => 1
  | width + 1 => 256 * capacity width

theorem decodes_unsigned {width n : Nat} (fits : n < capacity width) :
    Decodes (readUnsigned width) (writeUnsigned width n) n := by
  induction width generalizing n with
  | zero =>
      obtain rfl := Nat.lt_one_iff.1 fits
      exact decodes_nothing 0
  | succ width ih =>
      have higher := ih (n := n / 256) (Nat.div_lt_of_lt_mul fits)
      have lowest : (UInt8.ofNat n).toNat = n % 256 := UInt8.toNat_ofNat
      constructor
      · intro rest
        rw [writeUnsigned, List.cons_append, readUnsigned, higher.whole]
        simp only [Except.map, lowest, Nat.mod_add_div]
      · intro front back split missing
        cases front with
        | nil => rfl
        | cons b front =>
            rw [readUnsigned, higher.cut (List.cons.inj split).2 missing]
            rfl

theorem decodes_bool (b : Bool) : Decodes readBool (writeBool b) b where
  whole rest := by cases b <;> rfl
  cut {front back} split missing := by
    cases front with
    | nil => rfl
    | cons c front =>
        have behind : front ++ back = [] := (List.cons.inj split).2
        exact absurd (List.append_eq_nil_iff.1 behind).2 missing

theorem decodes_take (s : Bytes) : Decodes (take s.length) s s where
  whole rest := by simp [take]
  cut {front back} split missing := by
    have positive := List.length_pos_iff.2 missing
    subst split
    rw [take, if_neg]
    rw [List.length_append]
    omega

theorem readBytes_eq : readBytes = andThen (readUnsigned lengthWidth) take := by
  funext s
  rw [readBytes, andThen]
  cases readUnsigned lengthWidth s <;> rfl

theorem decodes_bytes {s : Bytes} (fits : s.length < capacity lengthWidth) :
    Decodes readBytes (writeBytes s) s := by
  rw [readBytes_eq]
  exact (decodes_unsigned fits).andThen (decodes_take s)

theorem decodes_items {item : Bytes → Result α} {write : α → Bytes} {as : List α}
    (each : ∀ a ∈ as, Decodes item (write a) a) :
    Decodes (items item as.length) (as.map write).flatten as := by
  induction as with
  | nil => exact decodes_nothing []
  | cons a as ih =>
      have later := ih fun a member => each a (List.mem_cons_of_mem _ member)
      exact (each a List.mem_cons_self).andThen (later.map (a :: ·))

theorem readSequence_eq (item : Bytes → Result α) :
    readSequence item = andThen (readUnsigned lengthWidth) (items item) := by
  funext s
  rw [readSequence, andThen]
  cases readUnsigned lengthWidth s <;> rfl

theorem decodes_sequence {item : Bytes → Result α} {write : α → Bytes} {as : List α}
    (fits : as.length < capacity lengthWidth) (each : ∀ a ∈ as, Decodes item (write a) a) :
    Decodes (readSequence item) (writeSequence (as.map write)) as := by
  rw [writeSequence, List.length_map, readSequence_eq]
  exact (decodes_unsigned fits).andThen (decodes_items each)

/-! ## Whole inputs -/

theorem Decodes.document (decodes : Decodes read code a) (rest : Bytes) :
    document read (code ++ rest) = .ok a := by
  rw [Binary.document, decodes.whole]
  rfl

theorem Decodes.document_cut (decodes : Decodes read code a) {front back : Bytes}
    (split : front ++ back = code) (missing : back ≠ []) :
    Binary.document read front = .error .endOfInput := by
  rw [Binary.document, decodes.cut split missing]
  rfl

/-- A code that another one starts with is the code of the same value. -/
theorem Decodes.eq_of_starts (decodes : Decodes read code a) (decodes' : Decodes read code' a')
    (starts : code <+: code') : a = a' := by
  obtain ⟨rest, rfl⟩ := starts
  have whole := decodes'.whole []
  rw [List.append_nil, decodes.whole, Except.ok.injEq, Prod.mk.injEq] at whole
  exact whole.1

end Bytewise.Binary
