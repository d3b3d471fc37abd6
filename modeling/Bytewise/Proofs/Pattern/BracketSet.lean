/-
# Bytewise.Proofs.Pattern.BracketSet -- the bytes that a bracket expression lists

Behind its `[`, a bracket expression is an optional `^`, members, and the `]` that
closes it (`Grammar.Bracketed`).  What the members list is said of the items that
they make up together, from left to right (`Arranged`): white space, a byte, or a
byte with a `-` and one more member behind it.  So a `-` makes a range only right
after a byte that is not the upper end of another one, and only where a member
follows.

* `exists_arranged`: members make up items, whatever they are;
* `mem_collect_iff`: the set that is collected from members holds the bytes that
  their items list;
* `bracket_denotes`: where a bracket expression ends, which set it stands for,
  and that it is refused just for having no end.
-/
import Bytewise.Proofs.ByteSet.Membership
import Bytewise.Proofs.Pattern.Parsing

namespace Bytewise.Pattern

set_option autoImplicit false

namespace Grammar

/-- What follows the `[` of a bracket expression, up to its `]`: members, and whether a `^` comes
before them. -/
inductive Bracketed : Bool → Bytes → Bytes → List Bracket.Member → Prop
  | listed {word after : Bytes} {ms : List Bracket.Member} :
      word.head? ≠ some Byte.caret → Listed word after ms → Bracketed false word after ms
  | negated {word after : Bytes} {ms : List Bracket.Member} :
      Listed word after ms → Bracketed true (Byte.caret :: word) after ms

end Grammar

namespace Bracket

/-! ## Items -/

/-- What members list together. -/
inductive Item
  | single (b : UInt8)
  | blank
  | range (low high : UInt8)
  /-- What looks like a range with white space for its upper end. -/
  | rangeToBlank (low : UInt8)
  deriving DecidableEq, Repr

/-- The item lists the byte.  The lower end of a range is a byte of its own, listed also where the
ends are the wrong way round. -/
def Item.Lists : Item → UInt8 → Prop
  | .single c, b => b = c
  | .blank, b => b ∈ Byte.blanks
  | .range low high, b => b = low ∨ (low ≤ b ∧ b ≤ high)
  | .rangeToBlank low, b => b = low ∨ b = Byte.hyphen ∨ b ∈ Byte.blanks

instance : (item : Item) → (b : UInt8) → Decidable (item.Lists b)
  | .single c, b => inferInstanceAs (Decidable (b = c))
  | .blank, b => inferInstanceAs (Decidable (b ∈ Byte.blanks))
  | .range low high, b => inferInstanceAs (Decidable (b = low ∨ (low ≤ b ∧ b ≤ high)))
  | .rangeToBlank low, b =>
    inferInstanceAs (Decidable (b = low ∨ b = Byte.hyphen ∨ b ∈ Byte.blanks))

def Lists (items : List Item) (b : UInt8) : Prop := ∃ item ∈ items, item.Lists b

instance (items : List Item) (b : UInt8) : Decidable (Lists items b) :=
  inferInstanceAs (Decidable (∃ item ∈ items, item.Lists b))

theorem not_lists_nil {b : UInt8} : ¬ Lists [] b := by simp [Lists]

theorem lists_cons_iff {item : Item} {items : List Item} {b : UInt8} :
    Lists (item :: items) b ↔ item.Lists b ∨ Lists items b := by
  simp [Lists]

/-- The first of the members is a plain `-`, and not the last. -/
def Joins (ms : List Member) : Prop := ∃ m rest, ms = .byte Byte.hyphen false :: m :: rest

/-- `Arranged ms items`: from left to right, the members make up the items. -/
inductive Arranged : List Member → List Item → Prop
  | nil : Arranged [] []
  | blank {ms : List Member} {items : List Item} :
      Arranged ms items → Arranged (.blank :: ms) (.blank :: items)
  | single {b : UInt8} {escaped : Bool} {ms : List Member} {items : List Item} :
      ¬ Joins ms → Arranged ms items → Arranged (.byte b escaped :: ms) (.single b :: items)
  | range {low high : UInt8} {escaped escaped' : Bool} {ms : List Member} {items : List Item} :
      Arranged ms items →
      Arranged (.byte low escaped :: .byte Byte.hyphen false :: .byte high escaped' :: ms)
        (.range low high :: items)
  | rangeToBlank {low : UInt8} {escaped : Bool} {ms : List Member} {items : List Item} :
      Arranged ms items →
      Arranged (.byte low escaped :: .byte Byte.hyphen false :: .blank :: ms)
        (.rangeToBlank low :: items)

theorem exists_arranged : ∀ ms : List Member, ∃ items, Arranged ms items
  | [] => ⟨[], .nil⟩
  | .blank :: ms => by
      obtain ⟨items, arranged⟩ := exists_arranged ms
      exact ⟨_, .blank arranged⟩
  | .byte b escaped :: ms => by
      by_cases joins : Joins ms
      · obtain ⟨m, rest, rfl⟩ := joins
        obtain ⟨items, arranged⟩ := exists_arranged rest
        cases m with
        | byte high escaped' => exact ⟨_, .range arranged⟩
        | blank => exact ⟨_, .rangeToBlank arranged⟩
      · obtain ⟨items, arranged⟩ := exists_arranged ms
        exact ⟨_, .single joins arranged⟩

/-! ## Collecting -/

section

variable {b c : UInt8} {set : ByteSet} {pending : Pending} {ms : List Member} {items : List Item}

/-- Where an item starts, no range is under way, and none is started by the item itself. -/
def Fresh (pending : Pending) (ms : List Member) : Prop :=
  pending = .nothing ∨ ((∃ low, pending = .low low) ∧ ¬ Joins ms)

theorem fresh_nothing (ms : List Member) : Fresh .nothing ms := .inl rfl

theorem fresh_low (low : UInt8) (apart : ¬ Joins ms) : Fresh (.low low) ms := .inr ⟨⟨low, rfl⟩, apart⟩

theorem step_blank (fresh : Fresh pending ms) :
    step (pending, set) .blank = (.nothing, set.insertAll Byte.blanks) := by
  rcases fresh with rfl | ⟨⟨low, rfl⟩, -⟩ <;> rfl

/-- A byte is added and may start a range, unless it is a `-` that comes last. -/
theorem step_byte {escaped : Bool} (fresh : Fresh pending (.byte c escaped :: ms)) :
    step (pending, set) (.byte c escaped) = (.low c, set.insert c) ∨
      (ms = [] ∧ c = Byte.hyphen ∧ ∃ low, step (pending, set) (.byte c escaped) = (.range low, set)) := by
  rcases fresh with rfl | ⟨⟨low, rfl⟩, apart⟩
  · exact .inl rfl
  · by_cases hyphen : c = Byte.hyphen ∧ escaped = false
    · refine .inr ⟨?_, hyphen.1, low, if_pos hyphen⟩
      obtain ⟨rfl, rfl⟩ := hyphen
      cases ms with
      | nil => rfl
      | cons m rest => exact absurd ⟨m, rest, rfl⟩ apart
    · exact .inl (if_neg hyphen)

theorem mem_insertRange_iff {low high : UInt8} :
    b ∈ set.insertRange low high ↔ (low ≤ b ∧ b ≤ high) ∨ b ∈ set := by
  rw [ByteSet.insertRange, ByteSet.mem_insertAll_iff, ByteSet.mem_span_iff, UInt8.le_iff_toNat_le,
    UInt8.le_iff_toNat_le]

/-- What is collected from where an item starts. -/
theorem mem_finish_foldl_iff (arranged : Arranged ms items) (fresh : Fresh pending ms) :
    b ∈ finish (ms.foldl step (pending, set)) ↔ b ∈ set ∨ Lists items b := by
  induction arranged generalizing pending set with
  | nil =>
      have same : finish (pending, set) = set := by
        rcases fresh with rfl | ⟨⟨low, rfl⟩, -⟩ <;> rfl
      rw [List.foldl_nil, same, or_iff_left not_lists_nil]
  | blank _ ih =>
      have own : b ∈ set.insertAll Byte.blanks ↔ b ∈ set ∨ Item.blank.Lists b := by
        rw [ByteSet.mem_insertAll_iff, or_comm, Item.Lists]
      rw [List.foldl_cons, step_blank fresh, ih (fresh_nothing _), own, or_assoc, lists_cons_iff]
  | @single c escaped ms items apart behind ih =>
      have own : b ∈ set.insert c ↔ b ∈ set ∨ (Item.single c).Lists b := by
        rw [ByteSet.mem_insert_iff, or_comm, Item.Lists]
      rw [List.foldl_cons]
      rcases step_byte fresh with added | ⟨rfl, rfl, low, last⟩
      · rw [added, ih (fresh_low c apart), own, or_assoc, lists_cons_iff]
      · cases behind
        rw [last, List.foldl_nil, finish, own, lists_cons_iff, or_iff_left not_lists_nil]
  | @range low high escaped escaped' ms items _ ih =>
      have added : step (pending, set) (.byte low escaped) = (.low low, set.insert low) :=
        (step_byte fresh).resolve_right fun last => List.cons_ne_nil _ _ last.1
      have own : b ∈ (set.insert low).insertRange low high ↔
          b ∈ set ∨ (Item.range low high).Lists b := by
        rw [mem_insertRange_iff, ByteSet.mem_insert_iff, Item.Lists, ← or_assoc, or_comm,
          or_comm (b := b = low)]
      rw [List.foldl_cons, added, List.foldl_cons, List.foldl_cons]
      show b ∈ finish (ms.foldl step (.nothing, (set.insert low).insertRange low high)) ↔ _
      rw [ih (fresh_nothing ms), own, or_assoc, lists_cons_iff]
  | @rangeToBlank low escaped ms items _ ih =>
      have added : step (pending, set) (.byte low escaped) = (.low low, set.insert low) :=
        (step_byte fresh).resolve_right fun last => List.cons_ne_nil _ _ last.1
      have own : b ∈ ((set.insert low).insert Byte.hyphen).insertAll Byte.blanks ↔
          b ∈ set ∨ (Item.rangeToBlank low).Lists b := by
        rw [ByteSet.mem_insertAll_iff, ByteSet.mem_insert_iff, ByteSet.mem_insert_iff, Item.Lists]
        grind
      rw [List.foldl_cons, added, List.foldl_cons, List.foldl_cons]
      show b ∈ finish (ms.foldl step
        (.nothing, ((set.insert low).insert Byte.hyphen).insertAll Byte.blanks)) ↔ _
      rw [ih (fresh_nothing ms), own, or_assoc, lists_cons_iff]

theorem mem_collect_iff (arranged : Arranged ms items) : b ∈ collect ms ↔ Lists items b := by
  rw [collect, mem_finish_foldl_iff arranged (fresh_nothing ms),
    or_iff_right ByteSet.not_mem_empty]

end

/-! ## Sets -/

/-- The byte is listed, where case is ignored in one of its cases; behind a `^`, it is one of the
others. -/
def Denotes (caseSensitive negated : Bool) (items : List Item) (b : UInt8) : Prop :=
  if negated then ¬ ∃ a, Byte.Alike caseSensitive a b ∧ Lists items a
  else ∃ a, Byte.Alike caseSensitive a b ∧ Lists items a

section

variable {caseSensitive negated : Bool} {b : UInt8} {ms : List Member} {items : List Item}

theorem mem_toSet_iff (arranged : Arranged ms items) :
    b ∈ toSet caseSensitive ms ↔ ∃ a, Byte.Alike caseSensitive a b ∧ Lists items a := by
  simp only [← Byte.fold_eq_fold_iff]
  cases caseSensitive with
  | true => simp [toSet, mem_collect_iff arranged, Byte.fold]
  | false =>
      simp only [toSet, ByteSet.mem_foldCase_iff, mem_collect_iff arranged, Byte.fold,
        Bool.false_eq_true, if_false]
      exact exists_congr fun a => and_comm

/-- The set of a bracket expression. -/
def setOf (caseSensitive negated : Bool) (ms : List Member) : ByteSet :=
  if negated then (toSet caseSensitive ms).negate else toSet caseSensitive ms

theorem mem_setOf_iff (arranged : Arranged ms items) :
    b ∈ setOf caseSensitive negated ms ↔ Denotes caseSensitive negated items b := by
  cases negated with
  | false => exact mem_toSet_iff arranged
  | true => exact ByteSet.mem_negate_iff.trans (not_congr (mem_toSet_iff arranged))

end

end Bracket

/-! ## Bracket expressions in a text -/

open Grammar (Bracketed BracketText)
open Pattern.Bracket (Arranged Denotes setOf)

theorem bracketText_iff {caseSensitive : Bool} {word after : Bytes} {set : ByteSet} :
    BracketText caseSensitive word after set ↔
      ∃ negated ms, Bracketed negated word after ms ∧ set = setOf caseSensitive negated ms := by
  constructor
  · rintro (⟨notCaret, listed⟩ | listed)
    · exact ⟨false, _, .listed notCaret listed, rfl⟩
    · exact ⟨true, _, .negated listed, rfl⟩
  · rintro ⟨_, _, ⟨notCaret, listed⟩ | listed, rfl⟩
    · exact .listed notCaret listed
    · exact .negated listed

theorem Grammar.Bracketed.text {negated : Bool} {word after : Bytes} {ms : List Bracket.Member}
    (bracketed : Bracketed negated word after ms) (caseSensitive : Bool) :
    BracketText caseSensitive word after (setOf caseSensitive negated ms) :=
  bracketText_iff.2 ⟨negated, ms, bracketed, rfl⟩

/-- Some `]` in the text closes the `[` before it. -/
def Closed (rest : Bytes) : Prop :=
  ∃ negated word after ms, rest = word ++ after ∧ Bracketed negated word after ms

theorem not_closed_iff (caseSensitive : Bool) {rest : Bytes} :
    ¬ Closed rest ↔
      ∀ word after set, rest = word ++ after → ¬ BracketText caseSensitive word after set := by
  constructor
  · intro unclosed word after set split bracket
    obtain ⟨negated, ms, bracketed, -⟩ := bracketText_iff.1 bracket
    exact unclosed ⟨negated, word, after, ms, split, bracketed⟩
  · rintro none ⟨negated, word, after, ms, split, bracketed⟩
    exact none word after _ split (bracketed.text caseSensitive)

section

variable (caseSensitive : Bool) (before : Bytes)

theorem scanFrom_bracket {word after : Bytes} {negated : Bool} {ms : List Bracket.Member}
    (bracketed : Bracketed negated word after ms) :
    Token.scanFrom caseSensitive before.isEmpty (Byte.leftBracket :: (word ++ after)) =
      (Byte.leftBracket :: (word ++ after), .ok (.atom (.set (setOf caseSensitive negated ms)))) ::
        Token.scanFrom caseSensitive false after := by
  have lexeme : Grammar.Lexeme caseSensitive before (Byte.leftBracket :: word) after _ :=
    .bracket (bracketed.text caseSensitive)
  have scanned := Token.scanFrom_lexeme lexeme
  have later : (before ++ Byte.leftBracket :: word).isEmpty = false := by simp
  rwa [later, List.cons_append] at scanned

theorem scanFrom_unclosed_iff {rest : Bytes} :
    Token.scanFrom caseSensitive before.isEmpty (Byte.leftBracket :: rest) =
        [(Byte.leftBracket :: rest, .error .unterminatedBracket)] ↔ ¬ Closed rest := by
  constructor
  · rintro scanned ⟨negated, word, after, ms, rfl, bracketed⟩
    rw [scanFrom_bracket caseSensitive before bracketed] at scanned
    simp at scanned
  · intro unclosed
    exact Token.scanFrom_fault
      (Token.read_eq_error_iff.2 (.inl ⟨rfl, rfl, (not_closed_iff caseSensitive).1 unclosed⟩))

end

/-- **A bracket expression stands for exactly the bytes that it lists.**  A `[` is refused just if
no `]` closes it, and, where a pattern is read up to it, at its own place.  Otherwise it is read as
a set, up to and with the `]` that closes it: its members make up items, and the set holds the
bytes that these list, in either case where case is ignored, or all others behind a `^`. -/
theorem bracket_denotes (caseSensitive : Bool) (before rest : Bytes) :
    let here := Byte.leftBracket :: rest
    (Token.scanFrom caseSensitive before.isEmpty here = [(here, .error .unterminatedBracket)] ↔
      ¬ Closed rest) ∧
    (¬ Closed rest → ∀ tokens,
      Grammar.Reads caseSensitive [] (before ++ here) tokens before here →
      Grammar.Attached tokens →
      parse caseSensitive (before ++ here) = .error (before.length, .unterminatedBracket)) ∧
    ∀ negated word after ms, rest = word ++ after → Bracketed negated word after ms →
      ∃ set,
        Token.scanFrom caseSensitive before.isEmpty here =
          (here, .ok (.atom (.set set))) :: Token.scanFrom caseSensitive false after ∧
        Token.position (before ++ here) after = before.length + 1 + word.length ∧
        (∃ items, Arranged ms items) ∧
        ∀ items, Arranged ms items → ∀ b, b ∈ set ↔ Denotes caseSensitive negated items b := by
  intro here
  refine ⟨scanFrom_unclosed_iff caseSensitive before, ?refused, ?read⟩
  case refused =>
    intro unclosed tokens reads attached
    exact parse_eq_error reads attached
      (.unterminatedBracket ((not_closed_iff caseSensitive).1 unclosed))
  case read =>
    rintro negated word after ms rfl bracketed
    refine ⟨setOf caseSensitive negated ms, scanFrom_bracket caseSensitive before bracketed, ?_,
      Bracket.exists_arranged ms, fun items arranged b => Bracket.mem_setOf_iff arranged⟩
    simp only [Token.position, here, List.length_append, List.length_cons]
    omega

/-- In `x[^]-a-c\s]z` without regard to case, `]` is the lower end of a range up to `a`, the `-`
behind it is a byte, and so is `c`; the complement holds `b`, but not `A`, `-` or a space. -/
theorem bracket_denotes_negated :
    ∃ set, Token.scanFrom false false [0x5b, 0x5e, 0x5d, 0x2d, 0x61, 0x2d, 0x63, 0x5c, 0x73, 0x5d, 0x7a] =
        ([0x5b, 0x5e, 0x5d, 0x2d, 0x61, 0x2d, 0x63, 0x5c, 0x73, 0x5d, 0x7a], .ok (.atom (.set set))) ::
          Token.scanFrom false false [0x7a] ∧
      0x62 ∈ set ∧ 0x41 ∉ set ∧ 0x2d ∉ set ∧ 0x20 ∉ set := by
  have members : Grammar.Members [0x2d, 0x61, 0x2d, 0x63, 0x5c, 0x73] [0x5d, 0x7a]
      [.byte 0x2d false, .byte 0x61 false, .byte 0x2d false, .byte 0x63 false, .blank] :=
    .plain (by decide) (by decide) (.plain (by decide) (by decide) (.plain (by decide) (by decide)
      (.plain (by decide) (by decide) (.blank (.nil _)))))
  have bracketed := Bracketed.negated (.bracketFirst members)
  have arranged : Arranged
      [.byte 0x5d false, .byte 0x2d false, .byte 0x61 false, .byte 0x2d false, .byte 0x63 false, .blank]
      [.range 0x5d 0x61, .single 0x2d, .single 0x63, .blank] := by
    refine .range (.single ?_ (.single ?_ (.blank .nil)))
    · simp [Bracket.Joins]
      decide
    · simp [Bracket.Joins]
  obtain ⟨-, -, read⟩ := bracket_denotes false [0x78]
    [0x5e, 0x5d, 0x2d, 0x61, 0x2d, 0x63, 0x5c, 0x73, 0x5d, 0x7a]
  obtain ⟨set, scanned, -, -, denotes⟩ := read true _ [0x7a] _ rfl bracketed
  have mem := denotes _ arranged
  have outside : ∀ a, Bracket.Lists [.range 0x5d 0x61, .single 0x2d, .single 0x63, .blank] a →
      a ∉ set := by
    intro a lists inside
    exact (mem a).1 inside ⟨a, Byte.alike_refl false a, lists⟩
  refine ⟨set, scanned, (mem 0x62).2 ?_, fun inside => ?_, outside 0x2d (by decide),
    outside 0x20 (by decide)⟩
  · rintro ⟨a, alike, lists⟩
    have fold : Byte.toLower a = Byte.toLower 0x62 := Byte.fold_eq_fold_iff.2 alike
    rcases (Byte.toLower_eq_iff (by decide)).1 fold with rfl | rfl
    · exact absurd lists (by decide)
    · exact absurd lists (by decide)
  · exact (mem 0x41).1 inside ⟨0x61, by decide, by decide⟩

end Bytewise.Pattern
