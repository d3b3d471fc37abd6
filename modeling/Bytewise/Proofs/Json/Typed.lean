/-
# Bytewise.Proofs.Json.Typed -- reading a value of a type

A reader for a type knows some values, and each of them in some texts (`Takes`).  In
front of what is none of these it fails; it never stops anywhere else than where the
value is over, which is where it would be passed over (`skipValue`).  So what it makes
of a well-formed value depends on the text of the value only (`Takes.eq_ok_iff`).

Readers of this kind are those of texts (`takes_text`), of truth values (`takes_bool`)
and of integers of some range (`takes_integer`).
-/
import Bytewise.Proofs.Json.Value

namespace Bytewise.Json

set_option autoImplicit false

variable {α : Type} {item : Bytes → Result α} {Item : Bytes → α → Prop} {a : α}
  {b : UInt8} {s w v rest after : Bytes}

/-! ## Values of a type -/

/-- The reader reads white space and the text of a value, if no number goes on behind it; and it reads
nothing else. -/
structure Takes (item : Bytes → Result α) (Item : Bytes → α → Prop) : Prop where
  value : ∀ {v a}, Item v a → Value v
  reads : ∀ {w v rest a}, Blank w → Item v a → Number.Ends rest →
    item (w ++ (v ++ rest)) = .ok (a, rest)
  sound : ∀ {s rest a}, item s = .ok (a, rest) → skipValue s = .ok rest ∧
    ∃ w v, Blank w ∧ s = w ++ (v ++ rest) ∧ Item v a

/-- White space in front of a value is told from it. -/
theorem Value.skipBlank (value : Value v) (blank : Blank w) (s : Bytes) :
    Json.skipBlank (w ++ (v ++ s)) = v ++ s := by
  obtain ⟨⟨b, u, rfl, solid, -⟩, -⟩ := value.passes
  exact skipBlank_eq_cons blank solid (u ++ s)

/-- A value that stands in front of `rest` is read to its end, or not at all. -/
theorem Takes.eq_ok_iff (takes : Takes item Item) (value : Value v) (blank : Blank w)
    (ends : Number.Ends rest) :
    item (w ++ (v ++ rest)) = .ok (a, after) ↔ Item v a ∧ after = rest := by
  constructor
  · intro read
    obtain ⟨skipped, w', v', blank', split, typed⟩ := takes.sound read
    obtain rfl : after = rest :=
      Except.ok.inj (skipped.symm.trans (skipValue_value value blank ends))
    have same : v ++ after = v' ++ after := by
      rw [← value.skipBlank blank, split, (takes.value typed).skipBlank blank']
    rw [List.append_cancel_right same]
    exact ⟨typed, rfl⟩
  · rintro ⟨typed, rfl⟩
    exact takes.reads blank typed ends

theorem skipValue_scalar (scalar : Scalar b) (skipped : skipScalar b s = .ok rest) (blank : Blank w) :
    skipValue (w ++ b :: s) = .ok rest := by
  rw [skipValue, skipFrom_scalar scalar skipped blank, skipFrom_done]

/-! ## Texts -/

/-- A string in any spelling of the text. -/
inductive TextOf : Bytes → String → Prop
  | spelled {body : Bytes} {text : String}
      (spelled : Text.Spelled body (Text.Utf8.ofString text)) :
      TextOf (Byte.doubleQuote :: (body ++ [Byte.doubleQuote])) text

theorem Text.read_eq_ok_iff {text : String} :
    Text.read s = .ok (text, rest) ↔
      ∃ body, s = body ++ Byte.doubleQuote :: rest ∧ Spelled body (Text.Utf8.ofString text) := by
  rw [Text.read, map_eq_ok_iff]
  constructor
  · rintro ⟨⟨bs, rest'⟩, read, same⟩
    obtain ⟨body, text', rfl, spelled, rfl⟩ := readValid_eq_ok_iff.1 read
    rw [Text.Utf8.toString?_eq_some_iff.2 rfl] at same
    obtain ⟨rfl, rfl⟩ := Prod.mk.inj same
    exact ⟨body, rfl, spelled⟩
  · rintro ⟨body, rfl, spelled⟩
    refine ⟨_, readValid_eq_ok_iff.2 ⟨body, text, rfl, spelled, rfl⟩, ?_⟩
    rw [Text.Utf8.toString?_eq_some_iff.2 rfl]
    rfl

theorem takes_text : Takes readText TextOf where
  value := by
    rintro _ text ⟨spelled⟩
    exact .string spelled.quoted
  reads := by
    rintro w _ rest text blank ⟨spelled⟩ -
    rw [List.cons_append, readText, skipBlank_eq_cons blank (by decide)]
    exact Text.read_eq_ok_iff.2 ⟨_, List.append_assoc _ _ _, spelled⟩
  sound := by
    intro s rest text read
    rw [readText] at read
    split at read
    · cases read
    · rename_i b t skipped
      obtain ⟨w, blank, rfl, -⟩ := skipBlank_eq_cons_iff.1 skipped
      split at read
      · subst b
        obtain ⟨body, rfl, spelled⟩ := Text.read_eq_ok_iff.1 read
        refine ⟨skipValue_scalar scalar_quote (spelled.quoted.skip rest) blank, w, _, blank, ?_,
          .spelled spelled⟩
        rw [List.cons_append, List.append_assoc]
        rfl
      · cases read

/-! ## Truth values -/

/-- The word of a truth value. -/
def BoolOf (v : Bytes) (c : Bool) : Prop := v = writeBool c

theorem readBool_eq_ok_iff {c : Bool} :
    readBool s = .ok (c, rest) ↔ ∃ w, Blank w ∧ s = w ++ (writeBool c ++ rest) := by
  rw [readBool]
  constructor
  · intro read
    split at read
    · cases read
    · rename_i b t skipped
      obtain ⟨w, blank, rfl, -⟩ := skipBlank_eq_cons_iff.1 skipped
      split at read
      · obtain ⟨rest', found, same⟩ := map_eq_ok_iff.1 read
        obtain ⟨rfl, rfl⟩ := Prod.mk.inj same
        subst b
        exact ⟨w, blank, by rw [word_eq_ok_iff.1 found]; rfl⟩
      · split at read
        · obtain ⟨rest', found, same⟩ := map_eq_ok_iff.1 read
          obtain ⟨rfl, rfl⟩ := Prod.mk.inj same
          subst b
          exact ⟨w, blank, by rw [word_eq_ok_iff.1 found]; rfl⟩
        · cases read
  · rintro ⟨w, blank, rfl⟩
    cases c with
    | true =>
        have found : word [0x72, 0x75, 0x65] ([0x72, 0x75, 0x65] ++ rest) = .ok rest :=
          word_eq_ok_iff.2 rfl
        rw [writeBool, if_pos rfl, List.cons_append, skipBlank_eq_cons blank (by decide)]
        exact congrArg (Except.map fun rest => (true, rest)) found
    | false =>
        have found : word [0x61, 0x6c, 0x73, 0x65] ([0x61, 0x6c, 0x73, 0x65] ++ rest) = .ok rest :=
          word_eq_ok_iff.2 rfl
        rw [writeBool, if_neg (by decide), List.cons_append, skipBlank_eq_cons blank (by decide)]
        exact congrArg (Except.map fun rest => (false, rest)) found

theorem takes_bool : Takes readBool BoolOf where
  value := by
    rintro _ c rfl
    exact .bool c
  reads := by
    rintro w _ rest c blank rfl -
    exact readBool_eq_ok_iff.2 ⟨w, blank, rfl⟩
  sound := by
    intro s rest c read
    obtain ⟨w, blank, rfl⟩ := readBool_eq_ok_iff.1 read
    obtain ⟨b, u, split, scalar, skipped⟩ := exists_bool c
    refine ⟨?_, w, _, blank, rfl, rfl⟩
    rw [split]
    exact skipValue_scalar scalar (skipped rest) blank

/-! ## Integers -/

/-- The text of an integer of 64 bits that the type makes the value of. -/
inductive IntegerOf (ofInt? : Int → Option α) : Bytes → α → Prop
  | written {i : Int} {a : α} (low : -0x8000000000000000 ≤ i) (high : i ≤ Number.maxUnsigned)
      (made : ofInt? i = some a) : IntegerOf ofInt? (writeInteger i) a

theorem value_integer (i : Int) : Value (writeInteger i) := .number (Number.written_integer i)

theorem takes_integer (typeName : String) (ofInt? : Int → Option α) :
    Takes (readInteger typeName ofInt?) (IntegerOf ofInt?) where
  value := by
    rintro _ a ⟨-, -, -⟩
    exact value_integer _
  reads := by
    rintro w _ rest a blank ⟨low, high, made⟩ ends
    exact readInteger_eq_ok_iff.2 ⟨w, _, blank, rfl, ends, low, high, made⟩
  sound := by
    intro s rest a read
    obtain ⟨w, i, blank, rfl, ends, low, high, made⟩ := readInteger_eq_ok_iff.1 read
    exact ⟨skipValue_value (value_integer i) blank ends, w, _, blank, rfl, .written low high made⟩

end Bytewise.Json
