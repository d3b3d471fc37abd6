/-
# Bytewise.Proofs.Bytes.Blank -- words, and the form with single spaces

`HasWords s ws` cuts bytes into words with white space between any two of them, and
perhaps at either end.  Every string is cut so in one way, which `words` finds
(`hasWords_iff`).

Joined by single spaces, words are words again: so `simplify` gives a string the one
form that depends on its words only (`words_simplify`), where white space is nowhere
but between two words, and there it is one space (`unwords_eq_append_blank`).

`strip` takes off all that may be taken off at the ends: no part of the string that
begins and ends otherwise reaches further (`isInfix_strip`).
-/
import Bytewise.Bytes.Blank

namespace Bytewise

set_option autoImplicit false

namespace Byte

theorem isBlank_iff {b : UInt8} : isBlank b = true ↔ b ∈ blanks := List.contains_iff_mem

end Byte

namespace Bytes

/-- There is nothing but white space. -/
def AllBlank (s : Bytes) : Prop := ∀ b ∈ s, b ∈ Byte.blanks

/-- The bytes neither begin nor end with white space. -/
def Trimmed (s : Bytes) : Prop :=
  (∀ b ∈ s.head?, b ∉ Byte.blanks) ∧ ∀ b ∈ s.getLast?, b ∉ Byte.blanks

/-- The bytes are `core` with white space before and behind it, or none. -/
def Padded (core s : Bytes) : Prop :=
  ∃ front back, AllBlank front ∧ AllBlank back ∧ s = front ++ core ++ back

/-- One or more bytes without white space. -/
def IsWord (w : Bytes) : Prop := w ≠ [] ∧ ∀ b ∈ w, b ∉ Byte.blanks

/-- The words come one after the other, with white space between two of them. -/
inductive Spaced : List Bytes → Bytes → Prop
  | one {w : Bytes} (word : IsWord w) : Spaced [w] w
  | cons {w gap s : Bytes} {ws : List Bytes} (word : IsWord w) (apart : gap ≠ [])
      (blank : AllBlank gap) (later : Spaced ws s) : Spaced (w :: ws) (w ++ gap ++ s)

/-- The bytes are the words, with white space between them and perhaps at the ends. -/
inductive HasWords : Bytes → List Bytes → Prop
  | blank {s : Bytes} (blank : AllBlank s) : HasWords s []
  | spaced {core s : Bytes} {ws : List Bytes} (padded : Padded core s) (spaced : Spaced ws core) :
      HasWords s ws

variable {s w core front back gap : Bytes} {ws : List Bytes} {b : UInt8}

theorem allBlank_nil : AllBlank [] := fun _ mem => absurd mem List.not_mem_nil

theorem allBlank_cons_iff : AllBlank (b :: s) ↔ b ∈ Byte.blanks ∧ AllBlank s := List.forall_mem_cons

theorem allBlank_append_iff : AllBlank (s ++ w) ↔ AllBlank s ∧ AllBlank w := List.forall_mem_append

theorem allBlank_reverse_iff : AllBlank s.reverse ↔ AllBlank s :=
  forall_congr' fun _ => by rw [List.mem_reverse]

theorem padded_self (s : Bytes) : Padded s s :=
  ⟨[], [], allBlank_nil, allBlank_nil, (List.append_nil s).symm⟩

theorem Padded.trans {t : Bytes} (inner : Padded core s) (outer : Padded s t) : Padded core t := by
  obtain ⟨front, back, before, behind, rfl⟩ := inner
  obtain ⟨front', back', before', behind', rfl⟩ := outer
  refine ⟨front' ++ front, back ++ back', allBlank_append_iff.2 ⟨before', before⟩,
    allBlank_append_iff.2 ⟨behind, behind'⟩, ?_⟩
  simp only [List.append_assoc]

theorem Padded.allBlank (padded : Padded core s) (blank : AllBlank core) : AllBlank s := by
  obtain ⟨front, back, before, behind, rfl⟩ := padded
  exact allBlank_append_iff.2 ⟨allBlank_append_iff.2 ⟨before, blank⟩, behind⟩

theorem IsWord.trimmed (word : IsWord w) : Trimmed w :=
  ⟨fun b first => word.2 b (List.mem_of_mem_head? first),
    fun b last => word.2 b (List.mem_of_mem_getLast? last)⟩

theorem Spaced.isWord (spaced : Spaced ws s) : ∀ w ∈ ws, IsWord w := by
  induction spaced with
  | one word => exact List.forall_mem_singleton.2 word
  | cons word _ _ _ ih => exact List.forall_mem_cons.2 ⟨word, ih⟩

theorem Spaced.words_ne_nil (spaced : Spaced ws s) : ws ≠ [] := by
  cases spaced <;> exact List.cons_ne_nil _ _

theorem Spaced.ne_nil (spaced : Spaced ws s) : s ≠ [] := by
  cases spaced with
  | one word => exact word.1
  | cons word =>
      exact List.append_ne_nil_of_left_ne_nil (List.append_ne_nil_of_left_ne_nil word.1 _) _

/-- White space is only between the words. -/
theorem Spaced.trimmed (spaced : Spaced ws s) : Trimmed s := by
  induction spaced with
  | one word => exact word.trimmed
  | @cons w gap s ws word _ _ later ih =>
      constructor
      · intro b first
        rw [List.append_assoc, List.head?_append, List.head?_eq_some_head word.1,
          Option.some_or, ← List.head?_eq_some_head word.1] at first
        exact word.trimmed.1 b first
      · intro b last
        rw [List.getLast?_append, List.getLast?_eq_some_getLast later.ne_nil, Option.some_or,
          ← List.getLast?_eq_some_getLast later.ne_nil] at last
        exact ih.2 b last

theorem HasWords.isWord (has : HasWords s ws) : ∀ w ∈ ws, IsWord w := by
  cases has with
  | blank => exact fun w mem => absurd mem List.not_mem_nil
  | spaced _ spaced => exact spaced.isWord

/-- More white space at the ends makes no difference to the words. -/
theorem HasWords.pad (has : HasWords core ws) (padded : Padded core s) : HasWords s ws := by
  cases has with
  | blank blank => exact .blank (padded.allBlank blank)
  | spaced inner spaced => exact .spaced (inner.trans padded) spaced

/-! ## Finding the words -/

theorem fields_cons_of_blank (blank : b ∈ Byte.blanks) (s : Bytes) :
    fields (b :: s) = [] :: fields s := by
  rw [fields, if_pos (Byte.isBlank_iff.2 blank)]

/-- What begins with bytes other than white space begins with a field that they begin. -/
theorem fields_append (free : ∀ b ∈ w, b ∉ Byte.blanks) {f : Bytes} {fs : List Bytes}
    (rest : fields s = f :: fs) : fields (w ++ s) = (w ++ f) :: fs := by
  induction w with
  | nil => exact rest
  | cons b w ih =>
      rw [List.forall_mem_cons] at free
      rw [List.cons_append, fields, if_neg (mt Byte.isBlank_iff.1 free.1), ih free.2]
      rfl

theorem words_cons_of_blank (blank : b ∈ Byte.blanks) (s : Bytes) : words (b :: s) = words s := by
  rw [words, fields_cons_of_blank blank]
  rfl

theorem words_append_of_blank (blank : AllBlank gap) (s : Bytes) : words (gap ++ s) = words s := by
  induction gap with
  | nil => rfl
  | cons b gap ih =>
      rw [allBlank_cons_iff] at blank
      rw [List.cons_append, words_cons_of_blank blank.1, ih blank.2]

theorem words_of_blank (blank : AllBlank s) : words s = [] := by
  have none := words_append_of_blank blank []
  rw [List.append_nil] at none
  exact none

theorem words_of_isWord (word : IsWord w) : words w = [w] := by
  have one := fields_append (s := []) word.2 rfl
  rw [List.append_nil] at one
  rw [words, one]
  exact List.filter_cons_of_pos (decide_eq_true word.1)

/-- A word ends where white space begins. -/
theorem words_append_blank_cons (word : IsWord w) (blank : b ∈ Byte.blanks) (s : Bytes) :
    words (w ++ b :: s) = w :: words s := by
  have first := fields_append word.2 (fields_cons_of_blank blank s)
  rw [List.append_nil] at first
  rw [words, first]
  exact List.filter_cons_of_pos (decide_eq_true word.1)

theorem Spaced.words_append (spaced : Spaced ws core) (behind : AllBlank back) :
    words (core ++ back) = ws := by
  induction spaced with
  | @one w word =>
      cases back with
      | nil => rw [List.append_nil, words_of_isWord word]
      | cons b back =>
          rw [allBlank_cons_iff] at behind
          rw [words_append_blank_cons word behind.1, words_of_blank behind.2]
  | @cons w gap s ws word apart blank _ ih =>
      obtain ⟨b, gap, rfl⟩ := List.exists_cons_of_ne_nil apart
      rw [allBlank_cons_iff] at blank
      rw [List.append_assoc, List.append_assoc, List.cons_append,
        words_append_blank_cons word blank.1, words_append_of_blank blank.2, ih]

theorem HasWords.words_eq (has : HasWords s ws) : s.words = ws := by
  cases has with
  | blank blank => exact words_of_blank blank
  | spaced padded spaced =>
      obtain ⟨front, back, before, behind, rfl⟩ := padded
      rw [List.append_assoc, words_append_of_blank before, spaced.words_append behind]

/-- Another byte begins a word of its own, or a longer first word, or lies before the words. -/
theorem exists_hasWords (s : Bytes) : ∃ ws, HasWords s ws := by
  induction s with
  | nil => exact ⟨[], .blank allBlank_nil⟩
  | cons b s ih =>
      obtain ⟨ws, has⟩ := ih
      by_cases blank : b ∈ Byte.blanks
      · have single : AllBlank [b] := List.forall_mem_singleton.2 blank
        exact ⟨ws, has.pad ⟨[b], [], single, allBlank_nil, (List.append_nil _).symm⟩⟩
      have word : ∀ w : Bytes, (∀ c ∈ w, c ∉ Byte.blanks) → IsWord (b :: w) := fun w free =>
        ⟨List.cons_ne_nil _ _, List.forall_mem_cons.2 ⟨blank, free⟩⟩
      have single : IsWord [b] := word [] fun c mem => absurd mem List.not_mem_nil
      have pads : ∀ {core back : Bytes}, AllBlank back → Padded core (core ++ back) :=
        fun behind => ⟨[], _, allBlank_nil, behind, rfl⟩
      cases has with
      | blank behind => exact ⟨[[b]], .spaced (pads behind) (.one single)⟩
      | spaced padded spaced =>
          obtain ⟨front, back, before, behind, rfl⟩ := padded
          cases front with
          | cons c front =>
              exact ⟨[b] :: ws, .spaced (pads behind)
                (.cons single (List.cons_ne_nil _ _) before spaced)⟩
          | nil =>
              cases spaced with
              | one first => exact ⟨_, .spaced (pads behind) (.one (word _ first.2))⟩
              | cons first apart inner later =>
                  exact ⟨_, .spaced (pads behind) (.cons (word _ first.2) apart inner later)⟩

theorem hasWords_words (s : Bytes) : HasWords s s.words := by
  obtain ⟨ws, has⟩ := exists_hasWords s
  rwa [has.words_eq]

theorem hasWords_iff : HasWords s ws ↔ s.words = ws :=
  ⟨HasWords.words_eq, fun same => same ▸ hasWords_words s⟩

/-! ## Single spaces -/

theorem unwords_cons_cons (w v : Bytes) (ws : List Bytes) :
    unwords (w :: v :: ws) = w ++ Byte.space :: unwords (v :: ws) := rfl

theorem unwords_eq_intercalate (ws : List Bytes) :
    unwords ws = [Byte.space].intercalate ws := by
  induction ws with
  | nil => rfl
  | cons w ws ih =>
      cases ws with
      | nil => exact List.intercalate_singleton.symm
      | cons v ws =>
          rw [unwords_cons_cons, ih, List.intercalate_cons_cons, List.append_assoc]
          rfl

theorem spaced_unwords (word : IsWord w) (words : ∀ v ∈ ws, IsWord v) :
    Spaced (w :: ws) (unwords (w :: ws)) := by
  induction ws generalizing w with
  | nil => exact .one word
  | cons v ws ih =>
      rw [List.forall_mem_cons] at words
      have space : AllBlank [Byte.space] := List.forall_mem_singleton.2 (by decide)
      have cut : unwords (w :: v :: ws) = w ++ [Byte.space] ++ unwords (v :: ws) := by
        rw [unwords_cons_cons, List.append_assoc]
        rfl
      rw [cut]
      exact .cons word (List.cons_ne_nil _ _) space (ih words.1 words.2)

theorem hasWords_unwords (words : ∀ w ∈ ws, IsWord w) : HasWords (unwords ws) ws := by
  cases ws with
  | nil => exact .blank allBlank_nil
  | cons w ws =>
      rw [List.forall_mem_cons] at words
      exact .spaced (padded_self _) (spaced_unwords words.1 words.2)

theorem trimmed_unwords (words : ∀ w ∈ ws, IsWord w) : Trimmed (unwords ws) := by
  cases ws with
  | nil => exact ⟨nofun, nofun⟩
  | cons w ws =>
      rw [List.forall_mem_cons] at words
      exact (spaced_unwords words.1 words.2).trimmed

/-- Words take no more room joined by single spaces. -/
theorem Spaced.length_unwords_le (spaced : Spaced ws s) : (unwords ws).length ≤ s.length := by
  induction spaced with
  | one word => exact Nat.le_refl _
  | @cons w gap s ws word apart blank later ih =>
      obtain ⟨v, ws, rfl⟩ := List.exists_cons_of_ne_nil later.words_ne_nil
      have some := List.length_pos_iff.2 apart
      rw [unwords_cons_cons, List.length_append, List.length_cons, List.length_append,
        List.length_append]
      omega

theorem HasWords.length_unwords_le (has : HasWords s ws) : (unwords ws).length ≤ s.length := by
  cases has with
  | blank => exact Nat.zero_le _
  | spaced padded spaced =>
      obtain ⟨front, back, -, -, rfl⟩ := padded
      have joined := spaced.length_unwords_le
      rw [List.length_append, List.length_append]
      omega

theorem length_simplify_le (s : Bytes) : s.simplify.length ≤ s.length :=
  (hasWords_words s).length_unwords_le

/-- White space among joined words is the space between two of them. -/
theorem unwords_eq_append_blank (words : ∀ w ∈ ws, IsWord w) (blank : b ∈ Byte.blanks)
    (cut : unwords ws = front ++ b :: back) :
    b = Byte.space ∧ ∃ before behind : List Bytes, before ≠ [] ∧ behind ≠ [] ∧
      ws = before ++ behind ∧ front = unwords before ∧ back = unwords behind := by
  induction ws generalizing front with
  | nil => exact absurd cut.symm (List.append_ne_nil_of_right_ne_nil _ (List.cons_ne_nil _ _))
  | cons w ws ih =>
      rw [List.forall_mem_cons] at words
      have inside : ∀ rest, w ≠ front ++ b :: rest := by
        rintro rest rfl
        exact words.1.2 b (List.mem_append_right _ List.mem_cons_self) blank
      cases ws with
      | nil => exact absurd cut (inside back)
      | cons v ws =>
          rw [unwords_cons_cons, List.append_eq_append_iff] at cut
          rcases cut with ⟨rest, rfl, cut⟩ | ⟨rest, split, cut⟩
          · cases rest with
            | nil =>
                obtain ⟨rfl, rfl⟩ := List.cons.inj cut
                exact ⟨rfl, [w], v :: ws, List.cons_ne_nil _ _, List.cons_ne_nil _ _, rfl,
                  List.append_nil w, rfl⟩
            | cons c rest =>
                rw [List.cons_append, List.cons.injEq] at cut
                obtain ⟨rfl, cut⟩ := cut
                obtain ⟨space, before, behind, some, some', split, rfl, rfl⟩ := ih words.2 cut
                obtain ⟨u, before, rfl⟩ := List.exists_cons_of_ne_nil some
                exact ⟨space, w :: u :: before, behind, List.cons_ne_nil _ _, some',
                  congrArg (w :: ·) split, rfl, rfl⟩
          · cases rest with
            | nil =>
                obtain ⟨rfl, rfl⟩ := List.cons.inj cut
                refine ⟨rfl, [w], v :: ws, List.cons_ne_nil _ _, List.cons_ne_nil _ _, rfl, ?_, rfl⟩
                rw [split, List.append_nil]
                rfl
            | cons c rest =>
                obtain ⟨rfl, -⟩ := List.cons.inj cut
                exact absurd split (inside rest)

theorem words_simplify (s : Bytes) : s.simplify.words = s.words :=
  (hasWords_unwords (hasWords_words s).isWord).words_eq

theorem simplify_simplify (s : Bytes) : s.simplify.simplify = s.simplify :=
  congrArg unwords (words_simplify s)

theorem simplify_eq_iff {t : Bytes} : s.simplify = t.simplify ↔ s.words = t.words := by
  constructor
  · intro same
    rw [← words_simplify s, same, words_simplify]
  · exact congrArg unwords

/-! ## The ends -/

/-- Where a byte stays, all behind it does. -/
theorem dropWhile_append_cons (free : b ∉ Byte.blanks) (front back : Bytes) :
    (front ++ b :: back).dropWhile Byte.isBlank = front.dropWhile Byte.isBlank ++ b :: back := by
  have stays : (b :: back).dropWhile Byte.isBlank = b :: back :=
    List.dropWhile_cons_of_neg (mt Byte.isBlank_iff.1 free)
  rw [List.dropWhile_append]
  split
  · rename_i gone
    rw [stays, List.isEmpty_iff.1 gone, List.nil_append]
  · rfl

theorem dropWhile_eq_nil_iff : s.dropWhile Byte.isBlank = [] ↔ AllBlank s := by
  induction s with
  | nil => exact iff_of_true rfl allBlank_nil
  | cons b s ih =>
      rw [allBlank_cons_iff, ← ih, ← Byte.isBlank_iff]
      cases blank : Byte.isBlank b with
      | true => rw [List.dropWhile_cons_of_pos blank, and_iff_right rfl]
      | false =>
          rw [List.dropWhile_cons_of_neg (ne_true_of_eq_false blank)]
          exact iff_of_false (List.cons_ne_nil _ _) fun both => Bool.false_ne_true both.1

/-- Around a part that begins and ends otherwise, white space goes off the ends. -/
theorem strip_append (trimmed : Trimmed w) (some : w ≠ []) (front back : Bytes) :
    strip (front ++ w ++ back) =
      front.dropWhile Byte.isBlank ++ w ++ (back.reverse.dropWhile Byte.isBlank).reverse := by
  obtain ⟨b, rest, first⟩ := List.exists_cons_of_ne_nil some
  have head : b ∉ Byte.blanks := trimmed.1 b (by rw [first]; rfl)
  have last : w.getLast some ∉ Byte.blanks := trimmed.2 _ (List.getLast?_eq_some_getLast some)
  have left : (front ++ w ++ back).dropWhile Byte.isBlank =
      front.dropWhile Byte.isBlank ++ w ++ back := by
    rw [first, List.append_assoc, List.append_assoc, List.cons_append, dropWhile_append_cons head]
  have turned : w.reverse = w.getLast some :: w.dropLast.reverse :=
    (congrArg List.reverse (List.dropLast_concat_getLast some)).symm.trans List.reverse_append
  rw [strip, left, List.reverse_append, List.reverse_append, turned, List.cons_append,
    dropWhile_append_cons last, ← List.cons_append, ← turned, List.reverse_append,
    List.reverse_append, List.reverse_reverse, List.reverse_reverse]

theorem strip_of_blank (blank : AllBlank s) : s.strip = [] := by
  rw [strip, dropWhile_eq_nil_iff.2 blank]
  rfl

theorem Padded.strip_eq (padded : Padded core s) (trimmed : Trimmed core) : s.strip = core := by
  obtain ⟨front, back, before, behind, rfl⟩ := padded
  by_cases some : core = []
  · subst some
    rw [List.append_nil, strip_of_blank (allBlank_append_iff.2 ⟨before, behind⟩)]
  · rw [strip_append trimmed some, dropWhile_eq_nil_iff.2 before,
      dropWhile_eq_nil_iff.2 (allBlank_reverse_iff.2 behind), List.nil_append, List.reverse_nil,
      List.append_nil]

theorem strip_of_trimmed (trimmed : Trimmed s) : s.strip = s := (padded_self s).strip_eq trimmed

/-- Bytes are trimmed ones between white space. -/
theorem exists_padded (s : Bytes) : ∃ core, Trimmed core ∧ Padded core s := by
  obtain ⟨ws, has⟩ := exists_hasWords s
  cases has with
  | blank blank =>
      have whole : s = s ++ [] ++ [] := by rw [List.append_nil, List.append_nil]
      exact ⟨[], ⟨nofun, nofun⟩, s, [], blank, allBlank_nil, whole⟩
  | spaced padded spaced => exact ⟨_, spaced.trimmed, padded⟩

/-- What is taken off is white space at the ends, and all there is of it. -/
theorem trimmed_strip (s : Bytes) : Trimmed s.strip ∧ Padded s.strip s := by
  obtain ⟨core, trimmed, padded⟩ := exists_padded s
  rw [padded.strip_eq trimmed]
  exact ⟨trimmed, padded⟩

theorem strip_isInfix (s : Bytes) : s.strip <:+: s := by
  obtain ⟨front, back, -, -, whole⟩ := (trimmed_strip s).2
  exact ⟨front, back, whole.symm⟩

/-- No part that begins and ends otherwise than with white space reaches further. -/
theorem isInfix_strip (part : w <:+: s) (trimmed : Trimmed w) : w <:+: s.strip := by
  by_cases some : w = []
  · rw [some]
    exact List.nil_infix
  · obtain ⟨front, back, rfl⟩ := part
    rw [strip_append trimmed some]
    exact ⟨_, _, rfl⟩

theorem strip_eq_nil_iff : s.strip = [] ↔ AllBlank s := by
  constructor
  · intro none
    have padded := (trimmed_strip s).2
    rw [none] at padded
    exact padded.allBlank allBlank_nil
  · exact strip_of_blank

theorem words_strip (s : Bytes) : s.strip.words = s.words :=
  ((hasWords_words s.strip).pad (trimmed_strip s).2).words_eq.symm

/-- Without white space at the ends there is none but between the words. -/
theorem strip_eq_nil_or_spaced (s : Bytes) : s.strip = [] ∨ Spaced s.words s.strip := by
  obtain ⟨ws, has⟩ := exists_hasWords s
  rw [has.words_eq]
  cases has with
  | blank blank => exact .inl (strip_of_blank blank)
  | spaced padded spaced =>
      rw [padded.strip_eq spaced.trimmed]
      exact .inr spaced

end Bytes

end Bytewise
