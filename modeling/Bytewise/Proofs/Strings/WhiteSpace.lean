/-
# Bytewise.Proofs.Strings.WhiteSpace -- one form for strings with the same words

What `strip` and `simplify` make of bytes is in `Proofs.Bytes.Blank`, and what replacing
runs of white space makes of them in `Proofs.Needle.BlankRuns`.  Here are the strings of a
store: whatever has been done to it, a derived string shows what comes of the bytes of its
source (`cells_derive_strip`, `cells_derive_simplify`), and so does a string after
replacing in it (`cells_replace`).  So both ways to the form with single spaces end at the
same bytes, from a null string too.
-/
import Bytewise.Proofs.Needle.BlankRuns
import Bytewise.Proofs.Strings.Agreement

namespace Bytewise.Strings

set_option autoImplicit false

open Bytes (AllBlank HasWords Trimmed)
open Shared (Holdings)

variable {s : Store}

theorem cells_derive_strip (counted : s.Counted []) (target source : String) :
    (apply s (.derive target source .strip)).store.cells target = Bytes.strip (s.cells source) := by
  have shows := (changes_bindDerived counted target source
    (derive (s.isNull source) (s.cells source) .strip)).shows
  show (bindDerived s target source _).cells target = _
  rw [Holdings.cells_eq, shows, derive]
  split
  · rename_i null
    rw [Holdings.cells_eq, Holdings.contents?_eq_none_iff.2 (Holdings.isNull_iff.1 null)]
    rfl
  · rfl

theorem cells_derive_simplify (counted : s.Counted []) (target source : String) :
    (apply s (.derive target source .simplify)).store.cells target =
      Bytes.simplify (s.cells source) := by
  have shows := (changes_bindDerived counted target source
    (derive (s.isNull source) (s.cells source) .simplify)).shows
  show (bindDerived s target source _).cells target = _
  rw [Holdings.cells_eq, shows]
  rfl

theorem cells_replace (counted : s.Counted []) (name : String) (needle : Needle)
    (replacement : Bytes) :
    (apply s (.change name (.replace needle replacement))).store.cells name =
      (needle.replace replacement (s.cells name)).2 := by
  show Holdings.cells (if (needle.replace replacement (s.cells name)).1 = [] then
    (⟨s, .nothing, []⟩ : Outcome) else
    edited s name fun _ => (needle.replace replacement (s.cells name)).2).store name = _
  split
  · rename_i none
    exact (Needle.replace_of_no_span none).symm
  · have writes : s.Writes [] name (some (needle.replace replacement (s.cells name)).2)
        (s.run name fun h x => h.edit x fun _ => (needle.replace replacement (s.cells name)).2) :=
      counted.run fun held => held.edit fun _ => (needle.replace replacement (s.cells name)).2
    rw [edited, Holdings.cells_eq, writes.toChanges.shows]
    rfl

/-- **Strings with the same words have one simple form.**  The words of bytes are all that is
between their white space, and `simplify` joins them by single spaces.  It gives bytes that neither
begin nor end with white space, that have the same words, and where the only white space is a space
between two words; simplifying them once more changes nothing, and two strings come to the same
exactly if they have the same words.  Taking white space off the ends before makes no difference,
and then a pattern may do the rest, under any limit of cells that it fits into: putting a space for
each run of white space it finds gives the same bytes.

To take white space off the ends is to keep the longest part that neither begins nor ends with it;
nothing is taken off twice, and nothing is left of white space alone.  Strings of a store come to
the same bytes, whatever was done to the store before. -/
theorem simplify_normal_form :
    (∀ s : Bytes,
      (∀ ws, HasWords s ws ↔ s.words = ws) ∧
      s.simplify = [Byte.space].intercalate s.words ∧
      Trimmed s.simplify ∧
      (∀ front b back, s.simplify = front ++ b :: back → b ∈ Byte.blanks →
        b = Byte.space ∧ ∃ before behind, before ≠ [] ∧ behind ≠ [] ∧ s.words = before ++ behind ∧
          front = [Byte.space].intercalate before ∧ back = [Byte.space].intercalate behind) ∧
      HasWords s.simplify s.words ∧
      s.simplify.simplify = s.simplify ∧
      (∀ t : Bytes, s.simplify = t.simplify ↔ s.words = t.words) ∧
      s.strip.simplify = s.simplify ∧
      ∀ caseSensitive maxCells, 37 ≤ maxCells →
        ((Needle.pattern (.ofText "\\s+" caseSensitive false maxCells)).replace [Byte.space]
          s.strip).2 = s.simplify) ∧
    (∀ s : Bytes,
      s.strip <:+: s ∧ Trimmed s.strip ∧
      (∀ part, part <:+: s → Trimmed part → part <:+: s.strip ∧ part.length ≤ s.strip.length) ∧
      s.strip.strip = s.strip ∧
      (s.strip = [] ↔ AllBlank s)) ∧
    ∀ edits target source,
      let store := run Holdings.empty edits
      let stripped := (apply store (.derive target source .strip)).store
      stripped.cells target = Bytes.strip (store.cells source) ∧
      (apply store (.derive target source .simplify)).store.cells target =
        Bytes.simplify (store.cells source) ∧
      ∀ caseSensitive maxCells, 37 ≤ maxCells →
        let pattern : Needle := .pattern (.ofText "\\s+" caseSensitive false maxCells)
        (apply stripped (.change target (.replace pattern [Byte.space]))).store.cells target =
          Bytes.simplify (store.cells source) := by
  refine ⟨fun s => ?form, fun s => ?ends, fun edits target source => ?store⟩
  case form =>
    have words := (Bytes.hasWords_words s).isWord
    refine ⟨fun ws => Bytes.hasWords_iff, Bytes.unwords_eq_intercalate _,
      Bytes.trimmed_unwords words, ?between, Bytes.hasWords_unwords words, s.simplify_simplify,
      fun t => Bytes.simplify_eq_iff, congrArg Bytes.unwords s.words_strip,
      fun caseSensitive maxCells enough => Needle.replace_blankRuns_strip enough s⟩
    intro front b back cut blank
    obtain ⟨space, before, behind, some, some', split, first, second⟩ :=
      Bytes.unwords_eq_append_blank words blank cut
    rw [Bytes.unwords_eq_intercalate] at first second
    exact ⟨space, before, behind, some, some', split, first, second⟩
  case ends =>
    refine ⟨s.strip_isInfix, s.trimmed_strip.1, fun part inside trimmed => ?_,
      Bytes.strip_of_trimmed s.trimmed_strip.1, Bytes.strip_eq_nil_iff⟩
    have kept := Bytes.isInfix_strip inside trimmed
    exact ⟨kept, kept.length_le⟩
  case store =>
    have counted := counted_run Holdings.counted_empty edits
    have counted' := counted_run counted [.derive target source .strip]
    refine ⟨cells_derive_strip counted target source, cells_derive_simplify counted target source,
      fun caseSensitive maxCells enough => ?_⟩
    have stripped := cells_derive_strip counted target source
    have replaced := cells_replace counted' target
      (.pattern (.ofText "\\s+" caseSensitive false maxCells)) [Byte.space]
    have simplified : ((Needle.pattern (.ofText "\\s+" caseSensitive false maxCells)).replace
        [Byte.space] (Bytes.strip (Holdings.cells (run Holdings.empty edits) source))).2 =
          Bytes.simplify (Holdings.cells (run Holdings.empty edits) source) :=
      Needle.replace_blankRuns_strip enough _
    rw [← stripped] at simplified
    exact replaced.trans simplified

end Bytewise.Strings
