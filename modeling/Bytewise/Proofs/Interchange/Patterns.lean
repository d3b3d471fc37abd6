/-
# Bytewise.Proofs.Interchange.Patterns -- patterns are read from every layout in JSON

A pattern is read from an object by its keys, and from an array by position.

* Reading one more member of an object adds to what has been read before (`Collects`),
  and members with other keys add nothing.  Each of the four parts is there once or not
  at all (`Once`), and because this can be said of any number of members
  (`once_append_iff`), one member after the other is the same as all of them
  (`steps_collects_iff`): their order does not count.
* Reading one more element of an array takes the text of the next part, if there is one,
  and leaves the others (`exists_later`); so each part is in its place (`Listed`).

Either way the pattern is a new one of what was read, with the usual values for what was
not.  What is written is one of these objects (`collects_written`).
-/
import Bytewise.Proofs.Interchange.Binary
import Bytewise.Proofs.Json.Object
import Bytewise.Proofs.Json.Sequence

namespace Bytewise.Interchange

set_option autoImplicit false

open Pattern (Settings)

namespace Patterns

open Json (Blank BoolOf Members ObjectOf Steps Takes TakesMembers TextOf Value)

/-! ## Limits -/

/-- The text of a limit. -/
def LimitOf (v : Bytes) (n : Nat) : Prop := v = Json.writeInteger n ∧ InRange n

theorem integerOf_limit?_iff {v : Bytes} {n : Nat} : Json.IntegerOf limit? v n ↔ LimitOf v n := by
  constructor
  · rintro @⟨i, _, -, -, made⟩
    rw [limit?] at made
    split at made
    · rename_i range
      obtain rfl := Option.some.inj made
      refine ⟨?_, by rw [InRange]; omega⟩
      rw [Int.toNat_of_nonneg range.1]
    · cases made
  · rintro ⟨rfl, inRange⟩
    rw [InRange] at inRange
    refine .written (by omega) (by rw [Json.Number.maxUnsigned]; omega) ?_
    rw [limit?, if_pos (by omega), Int.toNat_natCast]

theorem takes_limit : Takes readLimit LimitOf := by
  have takes := Json.takes_integer "usize" limit?
  have same : Json.IntegerOf limit? = LimitOf := by
    funext v n
    exact propext integerOf_limit?_iff
  rwa [same] at takes

/-! ## Parts that are there once or not at all -/

section

variable {α : Type} {Item : Bytes → α → Prop} {a? b? : Option α} {vs vs' : List Bytes} {v : Bytes}

/-- What is known of a part, before and after the texts of values for it.  A part that is known is
given no other value. -/
inductive Once (Item : Bytes → α → Prop) : Option α → List Bytes → Option α → Prop
  | kept (a? : Option α) : Once Item a? [] a?
  | read {v : Bytes} {a : α} (typed : Item v a) : Once Item none [v] (some a)

theorem once_nil_iff : Once Item a? [] b? ↔ b? = a? := by
  constructor
  · rintro ⟨⟩
    rfl
  · rintro rfl
    exact .kept _

theorem once_singleton_iff : Once Item a? [v] b? ↔ a? = none ∧ ∃ a, Item v a ∧ b? = some a := by
  constructor
  · rintro ⟨⟩
    exact ⟨rfl, _, ‹_›, rfl⟩
  · rintro ⟨rfl, a, typed, rfl⟩
    exact .read typed

theorem once_append_iff :
    Once Item a? (vs ++ vs') b? ↔ ∃ between, Once Item a? vs between ∧ Once Item between vs' b? := by
  constructor
  · intro once
    generalize joined : vs ++ vs' = all at once
    cases once with
    | kept =>
        obtain ⟨rfl, rfl⟩ := List.append_eq_nil_iff.1 joined
        exact ⟨a?, .kept _, .kept _⟩
    | read typed =>
        rcases List.append_eq_singleton_iff.1 joined with ⟨rfl, rfl⟩ | ⟨rfl, rfl⟩
        · exact ⟨none, .kept _, .read typed⟩
        · exact ⟨_, .read typed, .kept _⟩
  · rintro ⟨between, here, later⟩
    cases here with
    | kept => exact later
    | read typed =>
        cases later with
        | kept => exact .read typed

theorem Once.length_le (once : Once Item a? vs b?) : vs.length ≤ 1 := by
  cases once <;> simp

end

/-! ## Objects -/

/-- The texts of the values of a key. -/
def valuesOf (key : String) (ms : List (String × Bytes)) : List Bytes :=
  (ms.filter fun m => m.1 = key).map Prod.snd

theorem valuesOf_self (key : String) (v : Bytes) : valuesOf key [(key, v)] = [v] := by
  simp [valuesOf]

theorem valuesOf_other {key key' : String} (other : key' ≠ key) (v : Bytes) :
    valuesOf key [(key', v)] = [] := by
  simp [valuesOf, other]

theorem valuesOf_cons (key : String) (m : String × Bytes) (ms : List (String × Bytes)) :
    valuesOf key (m :: ms) = valuesOf key [m] ++ valuesOf key ms := by
  rw [valuesOf, ← List.singleton_append, List.filter_append, List.map_append, valuesOf, valuesOf]

/-- What is known of the four parts, before and after some members. -/
structure Collects (f : Fields) (ms : List (String × Bytes)) (f' : Fields) : Prop where
  text : Once TextOf f.text? (valuesOf "pattern" ms) f'.text?
  caseSensitive : Once BoolOf f.caseSensitive? (valuesOf "case_sensitive" ms) f'.caseSensitive?
  wildcard : Once BoolOf f.wildcard? (valuesOf "wildcard" ms) f'.wildcard?
  maxCells : Once LimitOf f.maxCells? (valuesOf "max_cells" ms) f'.maxCells?

variable {f f' : Fields} {ms : List (String × Bytes)}

theorem collects_iff : Collects f ms f' ↔
    Once TextOf f.text? (valuesOf "pattern" ms) f'.text? ∧
    Once BoolOf f.caseSensitive? (valuesOf "case_sensitive" ms) f'.caseSensitive? ∧
    Once BoolOf f.wildcard? (valuesOf "wildcard" ms) f'.wildcard? ∧
    Once LimitOf f.maxCells? (valuesOf "max_cells" ms) f'.maxCells? :=
  ⟨fun ⟨text, caseSensitive, wildcard, maxCells⟩ => ⟨text, caseSensitive, wildcard, maxCells⟩,
    fun ⟨text, caseSensitive, wildcard, maxCells⟩ => ⟨text, caseSensitive, wildcard, maxCells⟩⟩

theorem collects_nil_iff : Collects f [] f' ↔ f' = f := by
  obtain ⟨text?, caseSensitive?, wildcard?, maxCells?⟩ := f
  obtain ⟨text?', caseSensitive?', wildcard?', maxCells?'⟩ := f'
  simp only [collects_iff, valuesOf, List.filter_nil, List.map_nil, once_nil_iff, Fields.mk.injEq]

theorem collects_cons_iff {m : String × Bytes} :
    Collects f (m :: ms) f' ↔ ∃ between, Collects f [m] between ∧ Collects between ms f' := by
  constructor
  · rintro ⟨text, caseSensitive, wildcard, maxCells⟩
    rw [valuesOf_cons, once_append_iff] at text caseSensitive wildcard maxCells
    obtain ⟨text?, text, text'⟩ := text
    obtain ⟨caseSensitive?, caseSensitive, caseSensitive'⟩ := caseSensitive
    obtain ⟨wildcard?, wildcard, wildcard'⟩ := wildcard
    obtain ⟨maxCells?, maxCells, maxCells'⟩ := maxCells
    exact ⟨⟨text?, caseSensitive?, wildcard?, maxCells?⟩, ⟨text, caseSensitive, wildcard, maxCells⟩,
      ⟨text', caseSensitive', wildcard', maxCells'⟩⟩
  · rintro ⟨between, here, later⟩
    constructor <;> rw [valuesOf_cons, once_append_iff]
    · exact ⟨_, here.text, later.text⟩
    · exact ⟨_, here.caseSensitive, later.caseSensitive⟩
    · exact ⟨_, here.wildcard, later.wildcard⟩
    · exact ⟨_, here.maxCells, later.maxCells⟩

/-- One member after the other adds what all of them add. -/
theorem steps_collects_iff : Steps (fun f m f' => Collects f [m] f') f ms f' ↔ Collects f ms f' := by
  induction ms generalizing f with
  | nil => rw [Json.steps_nil_iff, collects_nil_iff]
  | cons m ms ih =>
      rw [Json.steps_cons_iff, collects_cons_iff]
      simp only [ih]

theorem readOnce_eq_ok_iff {α : Type} {value : Bytes → Json.Result α} {Item : Bytes → α → Prop}
    (takes : Takes value Item) (key : String) {before? : Option α} {put : α → Fields}
    {w w' v rest after : Bytes} (blank : Blank w) (blank' : Blank w') (formed : Value v)
    (ends : Json.Number.Ends rest) :
    readOnce key before? value put (w ++ Byte.colon :: (w' ++ (v ++ rest))) = .ok (f', after) ↔
      (before? = none ∧ ∃ a, Item v a ∧ f' = put a) ∧ after = rest := by
  rw [readOnce, Json.memberValue_eq value blank]
  cases before? with
  | some a => simp
  | none =>
      simp only [Option.isSome_none, Bool.false_eq_true, if_false, map_eq_ok_iff, true_and]
      constructor
      · rintro ⟨⟨a, rest'⟩, read, same⟩
        obtain ⟨rfl, rfl⟩ := Prod.mk.inj same
        obtain ⟨typed, rfl⟩ := (takes.eq_ok_iff formed blank' ends).1 read
        exact ⟨⟨a, typed, rfl⟩, rfl⟩
      · rintro ⟨⟨a, typed, rfl⟩, rfl⟩
        exact ⟨_, (takes.eq_ok_iff formed blank' ends).2 ⟨typed, rfl⟩, rfl⟩

/-- A member is read and adds what it says, or it is not read: its key is that of a part which is
known, or its value is none of such a part. -/
theorem takesMembers_readMember : TakesMembers readMember fun f m f' => Collects f [m] f' := by
  constructor
  intro f f' key w w' v rest after blank blank' formed ends
  obtain ⟨text?, caseSensitive?, wildcard?, maxCells?⟩ := f
  obtain ⟨text?', caseSensitive?', wildcard?', maxCells?'⟩ := f'
  simp only [readMember, collects_iff]
  -- a key is that of one part at most, and the other parts stay as they are
  split_ifs with text caseSensitive wildcard maxCells
  · rw [readOnce_eq_ok_iff Json.takes_text key blank blank' formed ends, text]
    grind [valuesOf_self, valuesOf_other, once_nil_iff, once_singleton_iff]
  · rw [readOnce_eq_ok_iff Json.takes_bool key blank blank' formed ends, caseSensitive]
    grind [valuesOf_self, valuesOf_other, once_nil_iff, once_singleton_iff]
  · rw [readOnce_eq_ok_iff Json.takes_bool key blank blank' formed ends, wildcard]
    grind [valuesOf_self, valuesOf_other, once_nil_iff, once_singleton_iff]
  · rw [readOnce_eq_ok_iff takes_limit key blank blank' formed ends, maxCells]
    grind [valuesOf_self, valuesOf_other, once_nil_iff, once_singleton_iff]
  · rw [Json.memberValue_eq _ blank, Json.skipValue_value formed blank' ends]
    grind [valuesOf_other, once_nil_iff, Except.map]

/-- The parts that have been read, where the text is one of them, make the pattern. -/
def Makes (f : Fields) (p : Pattern) : Prop :=
  ∃ text, f.text? = some text ∧
    p = .ofText text (f.caseSensitive?.getD true) (f.wildcard?.getD false) (f.maxCells?.getD 1024)

theorem exists_makes_iff {Read : Fields → Prop} {p : Pattern} :
    (∃ f, Read f ∧ Makes f p) ↔ ∃ text caseSensitive? wildcard? maxCells?,
      Read ⟨some text, caseSensitive?, wildcard?, maxCells?⟩ ∧
      p = .ofText text (caseSensitive?.getD true) (wildcard?.getD false) (maxCells?.getD 1024) := by
  constructor
  · rintro ⟨⟨_, caseSensitive?, wildcard?, maxCells?⟩, read, text, rfl, rfl⟩
    exact ⟨text, caseSensitive?, wildcard?, maxCells?, read, rfl⟩
  · rintro ⟨text, caseSensitive?, wildcard?, maxCells?, read, rfl⟩
    exact ⟨_, read, text, rfl, rfl⟩

theorem readObject_eq_ok_iff {s rest after : Bytes} {p : Pattern} (members : Members true s ms) :
    readObject (s ++ rest) = .ok (p, after) ↔
      (∃ f, Collects Fields.none ms f ∧ Makes f p) ∧ after = rest := by
  have all : ∀ f' after', Json.members readMember Fields.none (s ++ rest) = .ok (f', after') ↔
      Collects Fields.none ms f' ∧ after' = rest := by
    intro f' after'
    rw [takesMembers_readMember.members_eq_ok_iff members, steps_collects_iff]
  rw [readObject]
  constructor
  · intro read
    split at read
    · cases read
    · rename_i f rest' membersRead
      obtain ⟨collects, rfl⟩ := (all f rest').1 membersRead
      split at read
      · rename_i text found
        obtain ⟨rfl, rfl⟩ := Prod.mk.inj (Except.ok.inj read)
        exact ⟨⟨f, collects, text, found, rfl⟩, rfl⟩
      · cases read
  · rintro ⟨⟨f, collects, text, found, rfl⟩, rfl⟩
    rw [(all f after).2 ⟨collects, rfl⟩]
    simp only [found]
    rfl

/-! ## Arrays -/

/-- The elements of an array are the texts of values. -/
def IsValue (text v : Bytes) : Prop := text = v ∧ Value v

section

variable {α : Type} {item : Bytes → Json.Result α} {Item : Bytes → α → Prop} {a? : Option α}
  {s t rest : Bytes} {vs : List Bytes} {first : Bool}

theorem opens_of_value {v : Bytes} (formed : Value v) : Json.Opens v := formed.passes.1

/-- Where an element stands next, it is read to its end, or not at all. -/
theorem readElement_eq_ok_iff (takes : Takes item Item) {v later : Bytes} (formed : Value v)
    (ends : Json.Number.Ends later) (next : Json.nextItem? first s = .ok (some (v ++ later))) :
    readElement first item s = .ok (a?, t) ↔ Option.Rel Item (some v) a? ∧ t = later := by
  have read : ∀ a after, item (v ++ later) = .ok (a, after) ↔ Item v a ∧ after = later :=
    fun a after => takes.eq_ok_iff formed Json.blank_nil ends
  rw [readElement, next]
  simp only [map_eq_ok_iff]
  constructor
  · rintro ⟨⟨a, after⟩, here, same⟩
    obtain ⟨rfl, rfl⟩ := Prod.mk.inj same
    obtain ⟨typed, rfl⟩ := (read a after).1 here
    exact ⟨.some typed, rfl⟩
  · rintro ⟨⟨typed⟩, rfl⟩
    exact ⟨_, (read _ t).2 ⟨typed, rfl⟩, rfl⟩

/-- Where the array ends, no element is read. -/
theorem readElement_close (next : Json.nextItem? first s = .ok none) :
    readElement first item s = .ok (a?, t) ↔ Option.Rel Item none a? ∧ t = s := by
  rw [readElement, next]
  constructor
  · intro read
    obtain ⟨rfl, rfl⟩ := Prod.mk.inj (Except.ok.inj read)
    exact ⟨.none, rfl⟩
  · rintro ⟨⟨⟩, rfl⟩
    rfl

/-- Behind an element the next one is read, if there is one, and the others are left. -/
theorem exists_later (takes : Takes item Item) (later : Json.Later IsValue s vs) (rest : Bytes) :
    ∃ s', Json.Later IsValue s' vs.tail ∧ ∀ a? t,
      readElement false item (s ++ rest) = .ok (a?, t) ↔ Option.Rel Item vs[0]? a? ∧ t = s' ++ rest := by
  cases later with
  | @close w blank =>
      have next := Json.nextItem?_rightBracket blank false rest
      refine ⟨_, .close blank, fun a? t => ?_⟩
      rw [readElement_close (by simpa using next)]
      rfl
  | @comma w w' text later v vs blank blank' element behind =>
      obtain ⟨rfl, formed⟩ := element
      have next := Json.nextItem?_later blank blank' ((opens_of_value formed).append (later ++ rest))
      exact ⟨later, behind, fun a? t =>
        readElement_eq_ok_iff takes formed (behind.ends rest) (by simpa using next)⟩

/-- Behind the opening bracket too. -/
theorem exists_later_of_elements (takes : Takes item Item) (elements : Json.Elements IsValue s vs)
    (rest : Bytes) :
    ∃ s', Json.Later IsValue s' vs.tail ∧ ∀ a? t,
      readElement true item (s ++ rest) = .ok (a?, t) ↔ Option.Rel Item vs[0]? a? ∧ t = s' ++ rest := by
  cases elements with
  | @close w blank =>
      have next := Json.nextItem?_rightBracket blank true rest
      refine ⟨_, .close blank, fun a? t => ?_⟩
      rw [readElement_close (by simpa using next)]
      rfl
  | @first w text later v vs blank element behind =>
      obtain ⟨rfl, formed⟩ := element
      have next := Json.nextItem?_first blank ((opens_of_value formed).append (later ++ rest))
      exact ⟨later, behind, fun a? t =>
        readElement_eq_ok_iff takes formed (behind.ends rest) (by simpa using next)⟩

theorem close_later_iff (later : Json.Later IsValue s vs) :
    Json.close Byte.rightBracket (s ++ rest) = .ok t ↔ vs = [] ∧ t = rest := by
  cases later with
  | @close w blank =>
      have closed : Json.close Byte.rightBracket (w ++ Byte.rightBracket :: rest) = .ok rest :=
        (Json.close_eq_ok_iff (by decide)).2 ⟨w, blank, rfl⟩
      rw [List.append_assoc, List.singleton_append, closed, Except.ok.injEq, eq_comm]
      simp
  | @comma w w' text later v vs blank blank' element behind =>
      rw [List.append_assoc, List.cons_append, Json.close, Json.skipBlank_eq_cons blank (by decide)]
      simp [Byte.comma, Byte.rightBracket]

end

/-- Each part is in its place, if there are so many elements. -/
structure Listed (vs : List Bytes) (f : Fields) : Prop where
  text : Option.Rel TextOf vs[0]? f.text?
  caseSensitive : Option.Rel BoolOf vs[1]? f.caseSensitive?
  wildcard : Option.Rel BoolOf vs[2]? f.wildcard?
  maxCells : Option.Rel LimitOf vs[3]? f.maxCells?
  few : vs.length ≤ 4

theorem readArray_eq_ok_iff {s rest after : Bytes} {vs : List Bytes} {p : Pattern}
    (elements : Json.Elements IsValue s vs) :
    readArray (s ++ rest) = .ok (p, after) ↔ (∃ f, Listed vs f ∧ Makes f p) ∧ after = rest := by
  obtain ⟨s₁, later₁, text⟩ := exists_later_of_elements Json.takes_text elements rest
  obtain ⟨s₂, later₂, caseSensitive⟩ := exists_later Json.takes_bool later₁ rest
  obtain ⟨s₃, later₃, wildcard⟩ := exists_later Json.takes_bool later₂ rest
  obtain ⟨s₄, later₄, maxCells⟩ := exists_later takes_limit later₃ rest
  have few : vs.tail.tail.tail.tail = [] ↔ vs.length ≤ 4 := by
    rw [← List.length_eq_zero_iff]
    simp only [List.length_tail]
    omega
  -- where there is no element left, the ones behind it are not there either, and nothing is read
  simp only [List.getElem?_tail] at caseSensitive wildcard maxCells
  rw [readArray]
  constructor
  · intro read
    split at read
    · cases read
    · cases read
    rename_i text₀ t₁ textRead
    obtain ⟨text₁, rfl⟩ := (text _ _).1 textRead
    split at read
    · cases read
    rename_i caseSensitive? t₂ caseSensitiveRead
    obtain ⟨caseSensitive₁, rfl⟩ := (caseSensitive _ _).1 caseSensitiveRead
    split at read
    · cases read
    rename_i wildcard? t₃ wildcardRead
    obtain ⟨wildcard₁, rfl⟩ := (wildcard _ _).1 wildcardRead
    split at read
    · cases read
    rename_i maxCells? t₄ maxCellsRead
    obtain ⟨maxCells₁, rfl⟩ := (maxCells _ _).1 maxCellsRead
    obtain ⟨rest', closed, same⟩ := map_eq_ok_iff.1 read
    obtain ⟨rfl, rfl⟩ := Prod.mk.inj same
    obtain ⟨none_left, rfl⟩ := (close_later_iff later₄).1 closed
    exact ⟨⟨⟨some text₀, caseSensitive?, wildcard?, maxCells?⟩,
      ⟨text₁, caseSensitive₁, wildcard₁, maxCells₁, few.1 none_left⟩, text₀, rfl, rfl⟩, rfl⟩
  · rintro ⟨⟨⟨_, caseSensitive?, wildcard?, maxCells?⟩,
      ⟨text₁, caseSensitive₁, wildcard₁, maxCells₁, few₁⟩, text₀, rfl, rfl⟩, rfl⟩
    rw [(text _ _).2 ⟨text₁, rfl⟩]
    simp only [(caseSensitive _ _).2 ⟨caseSensitive₁, rfl⟩, (wildcard _ _).2 ⟨wildcard₁, rfl⟩,
      (maxCells _ _).2 ⟨maxCells₁, rfl⟩, (close_later_iff later₄).2 ⟨few.2 few₁, rfl⟩]
    rfl

/-- The text of an array, with white space around it. -/
inductive ArrayOf : Bytes → List Bytes → Prop
  | brackets {w w' s : Bytes} {vs : List Bytes} (blank : Blank w) (blank' : Blank w')
      (elements : Json.Elements IsValue s vs) : ArrayOf (w ++ Byte.leftBracket :: (s ++ w')) vs

/-! ## Whole texts -/

section

variable {json w s : Bytes} {vs : List Bytes} {p : Pattern}

theorem readJson_object (blank : Blank w) (s : Bytes) :
    readJson (w ++ Byte.leftBrace :: s) = readObject s := by
  rw [readJson, Json.skipBlank_eq_cons blank (by decide)]
  rfl

theorem readJson_array (blank : Blank w) (s : Bytes) :
    readJson (w ++ Byte.leftBracket :: s) = readArray s := by
  rw [readJson, Json.skipBlank_eq_cons blank (by decide)]
  rfl

theorem ofJson_object_iff (object : ObjectOf json ms) :
    ofJson json = .ok p ↔ ∃ f, Collects Fields.none ms f ∧ Makes f p := by
  obtain ⟨blank, blank', members⟩ := object
  simp only [ofJson, Json.document_eq_ok_iff, readJson_object blank, readObject_eq_ok_iff members]
  constructor
  · rintro ⟨_, ⟨read, rfl⟩, -⟩
    exact read
  · intro read
    exact ⟨_, ⟨read, rfl⟩, blank'⟩

theorem ofJson_array_iff (array : ArrayOf json vs) :
    ofJson json = .ok p ↔ ∃ f, Listed vs f ∧ Makes f p := by
  obtain ⟨blank, blank', elements⟩ := array
  simp only [ofJson, Json.document_eq_ok_iff, readJson_array blank, readArray_eq_ok_iff elements]
  constructor
  · rintro ⟨_, ⟨read, rfl⟩, -⟩
    exact read
  · intro read
    exact ⟨_, ⟨read, rfl⟩, blank'⟩

/-- An object is not read if its text is missing, or one of its parts is there twice. -/
theorem exists_error_of_object (object : ObjectOf json ms)
    (wrong : valuesOf "pattern" ms = [] ∨
      ∃ key ∈ ["pattern", "case_sensitive", "wildcard", "max_cells"], 1 < (valuesOf key ms).length) :
    ∃ e, ofJson json = .error e := by
  cases read : ofJson json with
  | error e => exact ⟨e, rfl⟩
  | ok p =>
      obtain ⟨f, ⟨text, caseSensitive, wildcard, maxCells⟩, _, found, -⟩ :=
        (ofJson_object_iff object).1 read
      rcases wrong with missing | ⟨key, known, twice⟩
      · rw [missing, once_nil_iff, found] at text
        cases text
      · have once : (valuesOf key ms).length ≤ 1 := by
          simp only [List.mem_cons, List.not_mem_nil, or_false] at known
          rcases known with rfl | rfl | rfl | rfl
          · exact text.length_le
          · exact caseSensitive.length_le
          · exact wildcard.length_le
          · exact maxCells.length_le
        omega

end

/-! ## What is written -/

/-- The members that a pattern of the settings is written with. -/
def membersOf (s : Settings) : List (String × Bytes) := [
  ("pattern", Json.Text.write (Text.Utf8.ofString s.text)),
  ("case_sensitive", Json.writeBool s.caseSensitive),
  ("wildcard", Json.writeBool s.wildcard),
  ("max_cells", Json.writeInteger s.maxCells)]

theorem textOf_write (text : String) : TextOf (Json.Text.write (Text.Utf8.ofString text)) text :=
  .spelled (Json.Text.spelled_write _)

theorem writeJson_eq (s : Settings) : writeJson s.fresh = Json.writeObject (membersOf s) := by
  rw [writeJson, Settings.fresh, Pattern.text_ofText, Pattern.caseSensitive_ofText,
    Pattern.wildcard_ofText, Pattern.maxCells_ofText, membersOf]

theorem objectOf_writeJson (s : Settings) : ObjectOf (writeJson s.fresh) (membersOf s) := by
  rw [writeJson_eq]
  refine Json.objectOf_write fun m member => ?_
  simp only [membersOf, List.mem_cons, List.not_mem_nil, or_false] at member
  rcases member with rfl | rfl | rfl | rfl
  · exact Json.takes_text.value (textOf_write s.text)
  · exact .bool _
  · exact .bool _
  · exact Json.value_integer s.maxCells

theorem collects_written {s : Settings} (inRange : InRange s.maxCells) :
    Collects Fields.none (membersOf s)
      ⟨some s.text, some s.caseSensitive, some s.wildcard, some s.maxCells⟩ where
  text := .read (textOf_write s.text)
  caseSensitive := .read rfl
  wildcard := .read rfl
  maxCells := .read ⟨rfl, inRange⟩

end Patterns

/-- **Patterns survive JSON in every layout.**  A well-formed object is read exactly if it has a text
under `pattern` and at most one value, of the right kind, under each of `case_sensitive`, `wildcard`
and `max_cells`; in which order, in which spelling and between which other members, does not count.
A well-formed array is read exactly if its elements are these four in their order, of which the last
ones may be missing.  Either way what is read is a new pattern of the text and the other parts, with
`true`, `false` and 1024 for those that are missing.  An object without a text, or with two values
for one of the parts, is an error.  A pattern is written as such an object, and the same pattern is
read back: text, flags, limit, program and error. -/
theorem pattern_json_layouts :
    (∀ json ms, Json.ObjectOf json ms → ∀ p, Patterns.ofJson json = .ok p ↔
      ∃ text caseSensitive? wildcard? maxCells?,
        Patterns.Collects Patterns.Fields.none ms
          ⟨some text, caseSensitive?, wildcard?, maxCells?⟩ ∧
        p = .ofText text (caseSensitive?.getD true) (wildcard?.getD false) (maxCells?.getD 1024)) ∧
    (∀ json vs, Patterns.ArrayOf json vs → ∀ p, Patterns.ofJson json = .ok p ↔
      ∃ text caseSensitive? wildcard? maxCells?,
        Patterns.Listed vs ⟨some text, caseSensitive?, wildcard?, maxCells?⟩ ∧
        p = .ofText text (caseSensitive?.getD true) (wildcard?.getD false) (maxCells?.getD 1024)) ∧
    (∀ json ms, Json.ObjectOf json ms →
      (Patterns.valuesOf "pattern" ms = [] ∨
        ∃ key ∈ ["pattern", "case_sensitive", "wildcard", "max_cells"],
          1 < (Patterns.valuesOf key ms).length) →
      ∃ e, Patterns.ofJson json = .error e) ∧
    ∀ s : Settings, InRange s.maxCells →
      (∃ ms, Json.ObjectOf (Patterns.writeJson s.fresh) ms ∧
        Patterns.Collects Patterns.Fields.none ms
          ⟨some s.text, some s.caseSensitive, some s.wildcard, some s.maxCells⟩) ∧
      Patterns.ofJson (Patterns.writeJson s.fresh) = .ok s.fresh := by
  refine ⟨fun json ms object p => ?_, fun json vs array p => ?_,
    fun json ms object => Patterns.exists_error_of_object object, fun s inRange => ⟨?_, ?_⟩⟩
  · rw [Patterns.ofJson_object_iff object, Patterns.exists_makes_iff]
  · rw [Patterns.ofJson_array_iff array, Patterns.exists_makes_iff]
  · exact ⟨_, Patterns.objectOf_writeJson s, Patterns.collects_written inRange⟩
  · rw [Patterns.ofJson_object_iff (Patterns.objectOf_writeJson s)]
    exact ⟨_, Patterns.collects_written inRange, s.text, rfl, rfl⟩

/-- `{"max_cells":4,"x":[{}],"pattern":"["}`: a limit, a member that does not count, and a text that
does not compile. -/
theorem pattern_json_layouts_unknown_member :
    ∃ ms, Json.ObjectOf (Json.writeObject ms) ms ∧ ms.map Prod.fst = ["max_cells", "x", "pattern"] ∧
      Patterns.ofJson (Json.writeObject ms) = .ok (.ofText "[" true false 4) := by
  have nested : Json.Value [0x5b, 0x7b, 0x7d, 0x5d] :=
    .frame (f := .array) (.first (w := []) Json.blank_nil
      (.item (.frame (f := .object) (.empty (w := []) Json.blank_nil)))
      (.close (w := []) Json.blank_nil))
  have values : ∀ m ∈ [("max_cells", Json.writeInteger 4), ("x", [0x5b, 0x7b, 0x7d, 0x5d]),
      ("pattern", Json.Text.write (Text.Utf8.ofString "["))], Json.Value m.2 := by
    simp only [List.forall_mem_cons]
    exact ⟨Json.value_integer 4, nested, Json.takes_text.value (Patterns.textOf_write "["), nofun⟩
  have object := Json.objectOf_write values
  obtain ⟨objects, -⟩ := pattern_json_layouts
  refine ⟨_, object, rfl, (objects _ _ object _).2 ⟨"[", none, none, some 4, ?_, rfl⟩⟩
  exact ⟨.read (Patterns.textOf_write "["), .kept _, .kept _, .read ⟨rfl, by decide⟩⟩

end Bytewise.Interchange
