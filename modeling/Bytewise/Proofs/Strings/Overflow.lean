/-
# Bytewise.Proofs.Strings.Overflow -- what becomes of results that are too long

The bytes that an edit starts from and those that it brings along are in memory
before it, and fit there together (`Edit.InMemory`).  So its result is too long only
by a number: the position of an insertion, or the width or the length to which a
string is filled up (`Edit.reach`).

* `Edit.fits_iff`: the result fits exactly if that number does;
* `reply_apply`: what an edit replies is known from whether its result fits; only
  where it does not is there an overflow;
* `store_apply_of_not_fits`: a result that does not fit changes nothing, unless it is
  that of an insertion;
* `writes_overflow`: an insertion that overflows leaves its string on a block of its
  own, which a null string did not have, and a shared one had to copy;
* `within_apply`, `within_run`: all strings fit after an edit, and after a run, as they
  did before.

An edit that searches for a pattern runs it, and that comes to an answer everywhere
(`Pattern.exists_run_of_compile`).
-/
import Bytewise.Proofs.Bytes.Blank
import Bytewise.Proofs.Needle.Replacing
import Bytewise.Proofs.Pattern.Walk
import Bytewise.Proofs.Strings.Agreement

namespace Bytewise.Strings

set_option autoImplicit false

open Shared (Handle Heap Holdings maxBytes)

/-! ## What an edit asks for -/

/-- How many bytes a change of `own` brings along; a replacement counts for each span that makes way
for it. -/
def Change.given (own : Bytes) : Change → Nat
  | .replace needle replacement => (needle.replace replacement own).1.length * replacement.length
  | .replaceRange _ _ bytes | .insert _ bytes | .append bytes => bytes.length
  | .setNumber n => (Plain.integer n).length
  | .remove _ _ | .truncate _ | .fill _ _ => 0

/-- How many bytes an edit starts from and brings along. -/
def Edit.given (p : Private) : Edit → Nat
  | .create _ bytes? => (bytes?.getD []).length
  | .ofNumber _ n => (Plain.integer n).length
  | .derive _ source _ => ((p source).getD []).length
  | .drop _ => 0
  | .change name op => ((p name).getD []).length + op.given ((p name).getD [])

/-- The bytes that an edit starts from and brings along fit into a block of memory together. -/
def Edit.InMemory (p : Private) (edit : Edit) : Prop := edit.given p ≤ maxBytes

instance (p : Private) (edit : Edit) : Decidable (edit.InMemory p) :=
  inferInstanceAs (Decidable (_ ≤ _))

/-- Up to where a derivation fills up. -/
def Derivation.reach : Derivation → Nat
  | .leftJustify width _ _ | .rightJustify width _ _ => width
  | _ => 0

/-- Up to where a change fills up, with what it then puts behind. -/
def Change.reach : Change → Nat
  | .insert i bytes => i + bytes.length
  | .fill _ length? => length?.getD 0
  | _ => 0

/-- Up to where an edit fills up, with what it then puts behind. -/
def Edit.reach : Edit → Nat
  | .derive _ _ derivation => derivation.reach
  | .change _ op => op.reach
  | _ => 0

/-- What an edit replies, by whether its result fits. -/
def Edit.replies (fits : Bool) : Edit → Reply
  | .change _ (.truncate _) | .change _ (.fill _ _) => .flag fits
  | _ => if fits then .nothing else .overflow

/-! ## How long results are -/

/-- What is no longer than what is there has been filled up to nowhere. -/
theorem max_eq_max_zero {m n : Nat} (le : n ≤ m) : max m n = max m 0 := by omega

/-- A part of bytes is no longer than they are. -/
theorem length_part_le {own? : Option Bytes} {part : Bytes}
    (le : part.length ≤ (own?.getD []).length) :
    ((own?.map fun _ => part).getD []).length ≤ (own?.getD []).length := by
  cases own? with
  | none => exact Nat.le_refl _
  | some own => exact le

theorem max_length_justified {own? : Option Bytes} {width : Nat} {cut : Bool} {filled : Bytes}
    (length : (own?.getD []).length < width → filled.length = width) :
    max (own?.getD []).length
        ((if (own?.getD []).length < width then some filled
          else own?.map fun _ =>
            if cut then (own?.getD []).take width else own?.getD []).getD []).length =
      max (own?.getD []).length width := by
  split
  · rename_i shorter
    rw [Option.getD_some, length shorter]
  · rename_i enough
    have part : (if cut then (own?.getD []).take width else own?.getD []).length ≤
        (own?.getD []).length := by
      split
      · exact (List.take_sublist _ _).length_le
      · exact Nat.le_refl _
    have := length_part_le part
    omega

/-- A derived string is no longer than its source, unless it is filled up. -/
theorem max_length_derived (own? : Option Bytes) (derivation : Derivation) :
    max (own?.getD []).length ((derivation.result own?).getD []).length =
      max (own?.getD []).length derivation.reach := by
  cases derivation with
  | copy => exact max_eq_max_zero (Nat.le_refl _)
  | left length => exact max_eq_max_zero (length_part_le (List.take_sublist _ _).length_le)
  | right length => exact max_eq_max_zero (length_part_le (List.drop_sublist _ _).length_le)
  | mid i length? =>
      refine max_eq_max_zero ?_
      rw [Derivation.result]
      split
      · exact length_part_le ((List.take_sublist _ _).trans (List.drop_sublist _ _)).length_le
      · exact Nat.zero_le _
  | upper => exact max_eq_max_zero (Nat.le_of_eq (List.length_map Plain.upper))
  | lower => exact max_eq_max_zero (Nat.le_of_eq (List.length_map Plain.lower))
  | strip =>
      refine max_eq_max_zero (length_part_le ?_)
      rw [Plain.strip_eq]
      exact (Bytes.strip_isInfix _).length_le
  | simplify =>
      refine max_eq_max_zero ?_
      rw [Derivation.result, Option.getD_some, Plain.simplify_eq]
      exact Bytes.length_simplify_le _
  | leftJustify width fill cut =>
      refine max_length_justified fun shorter => ?_
      rw [List.length_append, List.length_replicate]
      omega
  | rightJustify width fill cut =>
      refine max_length_justified fun shorter => ?_
      rw [List.length_append, List.length_replicate]
      omega

/-- Changed bytes are no more than there were and were brought along, unless they are filled up. -/
theorem max_length_changed (own? : Option Bytes) (op : Change) :
    max ((own?.getD []).length + op.given (own?.getD [])) ((op.result own?).getD []).length =
      max ((own?.getD []).length + op.given (own?.getD [])) op.reach := by
  cases op with
  | replace needle replacement =>
      refine max_eq_max_zero ?_
      show ((if (needle.replace replacement (own?.getD [])).1 = [] then own?
        else some (needle.replace replacement (own?.getD [])).2).getD []).length ≤ _
      split
      · exact Nat.le_add_right _ _
      · exact Needle.length_replace_le needle replacement _
  | replaceRange i length bytes =>
      refine max_eq_max_zero ?_
      rw [Change.result, Change.given]
      split
      · rw [Option.getD_some, List.length_append, List.length_append, List.length_take,
          List.length_drop]
        omega
      · exact Nat.le_add_right _ _
  | insert i bytes =>
      have result : (Change.insert i bytes).result own? =
          some (Bytes.splice (Bytes.padTo (own?.getD []) i) i 0 bytes) := by
        rw [splice_padTo, apply_ite some]
        rfl
      rw [result, Option.getD_some, length_splice_padTo, Change.given, Change.reach]
      omega
  | append bytes => exact max_eq_max_zero (Nat.le_of_eq List.length_append)
  | remove i length =>
      refine max_eq_max_zero ?_
      rw [Change.result, Change.given, Nat.add_zero]
      split
      · refine length_part_le ?_
        rw [List.length_append, List.length_take, List.length_drop]
        omega
      · exact Nat.le_refl _
  | truncate length =>
      exact max_eq_max_zero (length_part_le (List.take_sublist _ _).length_le)
  | fill c length? =>
      cases length? with
      | none => exact max_eq_max_zero (length_part_le (Nat.le_of_eq List.length_replicate))
      | some length =>
          rw [Change.result, Option.getD_some, List.length_replicate]
          rfl
  | setNumber n => exact max_eq_max_zero (Nat.le_add_left _ _)

/-- Next to what an edit starts from and brings along, its result is as long as it reaches far.  It
may well be shorter than those are, so this is said of the maxima. -/
theorem max_length_result (p : Private) (edit : Edit) :
    max (edit.given p) ((edit.result p).getD []).length = max (edit.given p) edit.reach := by
  cases edit with
  | create name bytes? => exact max_eq_max_zero (Nat.le_refl _)
  | ofNumber name n => exact max_eq_max_zero (Nat.le_refl _)
  | derive name source derivation => exact max_length_derived (p source) derivation
  | drop name => rfl
  | change name op => exact max_length_changed (p name) op

/-- Of bytes that are in memory, only a number can ask for too many. -/
theorem Edit.fits_iff {p : Private} {edit : Edit} (inMemory : edit.InMemory p) :
    edit.Fits p ↔ edit.reach ≤ maxBytes := by
  have length := max_length_result p edit
  rw [Edit.InMemory] at inMemory
  rw [Edit.Fits]
  omega

/-! ## Replies -/

theorem leftPart_ne_tooLong (own : Bytes) (length : Nat) : leftPart own length ≠ .tooLong := by
  rw [leftPart]
  split <;> simp

theorem rightPart_ne_tooLong (own : Bytes) (length : Nat) : rightPart own length ≠ .tooLong := by
  rw [rightPart]
  split <;> simp

theorem midPart_ne_tooLong (own : Bytes) (i : Nat) (length? : Option Nat) :
    midPart own i length? ≠ .tooLong := by
  rw [midPart]
  split
  · simp
  · dsimp only
    split <;> simp

theorem justify_eq_tooLong_iff {own : Bytes} (had : own.length ≤ maxBytes) (width : Nat)
    (cut : Bool) (fillUp : Nat → Bytes) :
    justify own width cut fillUp = .tooLong ↔ maxBytes < width := by
  rw [justify]
  split
  · split
    · rename_i room
      exact iff_of_false (by simp) (Nat.not_lt.2 room)
    · rename_i lacking
      exact iff_of_true rfl (Nat.lt_of_not_le lacking)
  · have narrow : ¬ maxBytes < width := by omega
    split
    · exact iff_of_false (leftPart_ne_tooLong own width) narrow
    · exact iff_of_false (by simp) narrow

/-- A derivation overflows exactly if it is to fill up to where memory does not reach. -/
theorem derive_eq_tooLong_iff {own : Bytes} (had : own.length ≤ maxBytes) (isNull : Bool)
    (derivation : Derivation) :
    derive isNull own derivation = .tooLong ↔ maxBytes < derivation.reach := by
  cases derivation with
  | copy => exact iff_of_false nofun (Nat.not_lt_zero _)
  | left length => exact iff_of_false (leftPart_ne_tooLong own length) (Nat.not_lt_zero _)
  | right length => exact iff_of_false (rightPart_ne_tooLong own length) (Nat.not_lt_zero _)
  | mid i length? => exact iff_of_false (midPart_ne_tooLong own i length?) (Nat.not_lt_zero _)
  | upper => exact iff_of_false nofun (Nat.not_lt_zero _)
  | lower => exact iff_of_false nofun (Nat.not_lt_zero _)
  | strip =>
      refine iff_of_false ?_ (Nat.not_lt_zero _)
      rw [derive]
      split <;> exact nofun
  | simplify => exact iff_of_false nofun (Nat.not_lt_zero _)
  | leftJustify width fill cut =>
      rw [derive, justify_eq_tooLong_iff had]
      rfl
  | rightJustify width fill cut =>
      rw [derive, justify_eq_tooLong_iff had]
      rfl

section

variable {s : Store} {name : String} {edit : Edit} {op : Change}

theorem reply_attempt (s : Store) (name : String) (changed? : Option (Heap UInt8 × Handle))
    (size : Nat) : (attempt s name changed? size).reply = .flag changed?.isSome := by
  cases changed? <;> rfl

/-- What a derivation starts from fits. -/
theorem length_source_le {source : String} {derivation : Derivation}
    (inMemory : (Edit.derive name source derivation).InMemory s.contents?) :
    (s.cells source).length ≤ maxBytes := by
  rw [Holdings.cells_eq]
  exact inMemory

/-- What a change starts from and brings along fits. -/
theorem length_own_le (inMemory : (Edit.change name op).InMemory s.contents?) :
    (s.cells name).length + op.given (s.cells name) ≤ maxBytes := by
  rw [Holdings.cells_eq]
  exact inMemory

/-- Filling to a length works where the length fits. -/
theorem isSome_fill? (had : (s.cells name).length ≤ maxBytes) (c : UInt8) (length? : Option Nat) :
    (s.heap.fill? (s.handle name) c length?).isSome =
      decide ((Change.fill c length?).reach ≤ maxBytes) := by
  cases length? with
  | none => rfl
  | some length =>
      have lacking : s.heap.resize? (s.handle name) length = none ↔ ¬ length ≤ maxBytes :=
        (Heap.resize?_eq_none_iff (fits_byte_iff.2 had)).trans (not_congr fits_byte_iff)
      rw [Heap.fill?, Option.isSome_map, Bool.eq_iff_iff, decide_eq_true_iff, Change.reach,
        Option.getD_some, Option.isSome_iff_ne_none, ne_eq, lacking, Decidable.not_not]

theorem isSome_truncate? (had : (s.cells name).length ≤ maxBytes) (length : Nat) :
    (s.heap.truncate? (s.handle name) length).isSome = true := by
  by_cases shorter : length < (s.cells name).length
  · have room : s.heap.resize? (s.handle name) length ≠ none :=
      Heap.resize?_ne_none _ (fits_byte_iff.2 (Nat.le_trans (Nat.le_of_lt shorter) had))
    rw [Heap.truncate?_of_lt shorter]
    exact Option.isSome_iff_ne_none.2 room
  · rw [Heap.truncate?_of_le (Nat.le_of_not_lt shorter)]
    rfl

theorem reply_applyChange (inMemory : (Edit.change name op).InMemory s.contents?) :
    (applyChange s name op).reply =
      (Edit.change name op).replies (decide (op.reach ≤ maxBytes)) := by
  have had := length_own_le inMemory
  have own : (s.cells name).length ≤ maxBytes := Nat.le_of_add_right_le had
  cases op with
  | replace needle replacement =>
      show (if (needle.replace replacement (s.cells name)).1 = [] then
        (⟨s, .nothing, []⟩ : Outcome) else
        edited s name fun _ => (needle.replace replacement (s.cells name)).2).reply = .nothing
      split <;> rfl
  | replaceRange i length bytes =>
      rw [applyChange]
      split <;> rfl
  | insert i bytes =>
      rw [Change.given] at had
      rw [applyChange]
      split
      · have fits : i + bytes.length ≤ maxBytes := by omega
        rw [Change.reach, decide_eq_true fits]
        rfl
      · have lacking : ¬ i + bytes.length ≤ maxBytes := by omega
        rw [Change.reach, decide_eq_false lacking]
        rfl
  | append bytes => rfl
  | remove i length =>
      rw [applyChange]
      split
      · split <;> rfl
      · rfl
  | truncate length =>
      rw [applyChange, reply_attempt, isSome_truncate? own]
      rfl
  | fill c length? =>
      rw [applyChange, reply_attempt, isSome_fill? own]
      rfl
  | setNumber n => rfl

/-- Whether the result fits is all that a reply depends on. -/
theorem reply_apply (inMemory : edit.InMemory s.contents?) :
    (apply s edit).reply = edit.replies (decide (edit.Fits s.contents?)) := by
  rw [show decide (edit.Fits s.contents?) = decide (edit.reach ≤ maxBytes) from
    decide_eq_decide.2 (Edit.fits_iff inMemory)]
  cases edit with
  | create name bytes? => cases bytes? <;> rfl
  | ofNumber name n => rfl
  | derive name source derivation =>
      have tooLong := derive_eq_tooLong_iff (length_source_le inMemory) (s.isNull source) derivation
      show (if derive (s.isNull source) (s.cells source) derivation = .tooLong then Reply.overflow
        else .nothing) = if decide (derivation.reach ≤ maxBytes) then .nothing else .overflow
      by_cases fits : derivation.reach ≤ maxBytes
      · rw [if_neg (mt tooLong.1 (Nat.not_lt.2 fits)), if_pos (decide_eq_true fits)]
      · rw [if_pos (tooLong.2 (Nat.lt_of_not_le fits)), decide_eq_false fits]
        rfl
  | drop name => rfl
  | change name op => exact reply_applyChange inMemory

/-! ## Stores -/

/-- A result that does not fit changes nothing, unless it is that of an insertion. -/
theorem store_apply_of_not_fits (inMemory : edit.InMemory s.contents?)
    (tooLong : ¬ edit.Fits s.contents?)
    (other : ∀ name i bytes, edit ≠ .change name (.insert i bytes)) :
    (apply s edit).store = s := by
  have far : ¬ edit.reach ≤ maxBytes := mt (Edit.fits_iff inMemory).2 tooLong
  cases edit with
  | derive name source derivation =>
      have nothing := (derive_eq_tooLong_iff (length_source_le inMemory) (s.isNull source)
        derivation).2 (Nat.lt_of_not_le far)
      show bindDerived s name source (derive (s.isNull source) (s.cells source) derivation) = s
      rw [nothing]
      rfl
  | change name op =>
      cases op with
      | insert i bytes => exact absurd rfl (other name i bytes)
      | fill c length? =>
          have failed := isSome_fill? (Nat.le_of_add_right_le (length_own_le inMemory)) c length?
          have lacking : ¬ (Change.fill c length?).reach ≤ maxBytes := far
          rw [decide_eq_false lacking, Option.isSome_eq_false_iff,
            Option.isNone_iff_eq_none] at failed
          show (attempt s name (s.heap.fill? (s.handle name) c length?) _).store = s
          rw [failed]
          rfl
      | _ => exact absurd (Nat.zero_le _) far
  | _ => exact absurd (Nat.zero_le _) far

section

variable {i : Nat} {bytes : Bytes}
  (inMemory : (Edit.change name (.insert i bytes)).InMemory s.contents?)
  (tooLong : ¬ (Edit.change name (.insert i bytes)).Fits s.contents?)

include inMemory tooLong

theorem store_insert_of_not_fits :
    (apply s (.change name (.insert i bytes))).store =
      s.run name fun h x => h.edit x fun old => filledUp old i := by
  have far : ¬ i + bytes.length ≤ maxBytes := mt (Edit.fits_iff inMemory).2 tooLong
  have lacking : ¬ max i (s.cells name).length + bytes.length ≤ maxBytes := by omega
  rw [apply, applyChange, if_neg lacking]
  rfl

/-- An insertion that overflows has put its string on a block of its own before. -/
theorem writes_overflow (counted : s.Counted []) :
    s.Writes [] name (some (filledUp (s.cells name) i))
      (apply s (.change name (.insert i bytes))).store := by
  have writes : s.Writes [] name (some (filledUp (s.cells name) i))
      (s.run name fun h x => h.edit x fun old => filledUp old i) :=
    counted.run fun held => held.edit _
  rwa [store_insert_of_not_fits inMemory tooLong]

/-- A string that is alone with its block keeps it. -/
theorem handle_overflow (one : s.refs name = 1) :
    (apply s (.change name (.insert i bytes))).store.handle name = s.handle name := by
  rw [store_insert_of_not_fits inMemory tooLong, Holdings.run, Holdings.handle_update_self,
    Heap.edit, Heap.own_of_refs_eq_one one]

end

theorem length_filledUp_le {own : Bytes} (had : own.length ≤ maxBytes) (i : Nat) :
    (filledUp own i).length ≤ maxBytes := by
  rw [filledUp]
  split
  · rw [length_padTo]
    omega
  · exact had

/-- No edit makes a string that does not fit, whether it overflows or not. -/
theorem within_apply (counted : s.Counted []) (within : Private.Within s.contents?)
    (inMemory : edit.InMemory s.contents?) :
    Private.Within (apply s edit).store.contents? := by
  obtain ⟨contents?, changes, made⟩ := becomes_apply counted edit
  intro other
  by_cases same : other = edit.target
  · subst same
    -- where the result does not fit, what the target then has is known from how it was refused
    by_cases fits : edit.Fits s.contents?
    · rw [changes.shows, made within fits]
      exact fits
    by_cases insertion : ∃ name i bytes, edit = .change name (.insert i bytes)
    · obtain ⟨name, i, bytes, rfl⟩ := insertion
      have shows := (writes_overflow inMemory fits counted).shows
      show ((Holdings.contents? _ name).getD []).length ≤ maxBytes
      rw [shows]
      exact length_filledUp_le (Nat.le_of_add_right_le (length_own_le inMemory)) i
    · rw [store_apply_of_not_fits inMemory fits fun name i bytes same =>
        insertion ⟨name, i, bytes, same⟩]
      exact within edit.target
  · rw [changes.frame other same]
    exact within other

end

/-! ## Runs -/

/-- The bytes that each edit starts from and brings along are in memory, one edit after another. -/
def RunInMemory (s : Store) : List Edit → Prop
  | [] => True
  | edit :: rest => edit.InMemory s.contents? ∧ RunInMemory (apply s edit).store rest

instance decidableRunInMemory : (s : Store) → (edits : List Edit) →
    Decidable (RunInMemory s edits)
  | _, [] => inferInstanceAs (Decidable True)
  | s, edit :: rest =>
    have := decidableRunInMemory (apply s edit).store rest
    inferInstanceAs (Decidable (_ ∧ _))

/-- All strings fit after a run, as they do after each edit. -/
theorem within_run {s : Store} (counted : s.Counted []) (within : Private.Within s.contents?)
    {edits : List Edit} (inMemory : RunInMemory s edits) :
    Private.Within (Holdings.contents? (run s edits)) := by
  induction edits generalizing s with
  | nil => exact within
  | cons edit rest ih =>
      obtain ⟨contents?, changes, -⟩ := becomes_apply counted edit
      exact ih changes.counted (within_apply counted within inMemory.1) inMemory.2

/-- **A result that is too long is known by a number, and only an insertion leaves a trace of it.**
After any run of edits of bytes that are in memory, whatever has overflowed on the way, every string
fits into memory.  From there, a result fits exactly if the number does that the edit is given.  A
result that fits is made, and no edit overflows then; one that does not is refused by filling, and
overflows everywhere else.

Nothing but the target of an edit changes, and where the result does not fit not even that, unless
it is that of an insertion.  Then the string has the bytes it had, filled up to the position if that
is inside memory; it is not null, and has a block of its own, which it had before if it was alone.
And no search for a pattern goes wrong, in these bytes or any others. -/
theorem run_refuses_too_long {edits : List Edit} (inMemory : RunInMemory Holdings.empty edits) :
    let s := run Holdings.empty edits
    Private.Within s.contents? ∧
    (∀ edit, edit.InMemory s.contents? →
      let after := apply s edit
      (edit.Fits s.contents? ↔ edit.reach ≤ maxBytes) ∧
      after.reply = edit.replies (decide (edit.Fits s.contents?)) ∧
      (edit.Fits s.contents? →
        after.store.contents? edit.target = edit.result s.contents?) ∧
      (∀ name, name ≠ edit.target → after.store.contents? name = s.contents? name ∧
        after.store.handle name = s.handle name) ∧
      (¬ edit.Fits s.contents? → (∀ name i bytes, edit ≠ .change name (.insert i bytes)) →
        after.store = s) ∧
      (¬ edit.Fits s.contents? → ∀ name i bytes, edit = .change name (.insert i bytes) →
        after.store.contents? name = some (filledUp (s.cells name) i) ∧
        s.Exclusive after.store name ∧
        (s.refs name = 1 → s.Still after.store))) ∧
    ∀ text caseSensitive wildcard maxCells p,
      Pattern.compile text caseSensitive wildcard maxCells = .ok p →
      ∀ (subject : Subject) (i : Nat), i ≤ subject.size →
        ∃ found, p.run subject i = .ok found := by
  intro s
  have counted : s.Counted [] := counted_run Holdings.counted_empty edits
  have within : Private.Within s.contents? :=
    within_run Holdings.counted_empty Private.within_empty inMemory
  refine ⟨within, fun edit held => ?_,
    fun _ _ _ _ _ compiled _ _ inside => Pattern.exists_run_of_compile compiled inside⟩
  obtain ⟨contents?, changes, made⟩ := becomes_apply counted edit
  refine ⟨Edit.fits_iff held, reply_apply held, ?made, ?frame, ?refused, ?insertion⟩
  case made =>
    intro fits
    rw [changes.shows, made within fits]
  case frame =>
    intro name other
    exact ⟨changes.frame name other, changes.handle_eq name other⟩
  case refused =>
    intro tooLong other
    exact store_apply_of_not_fits held tooLong other
  case insertion =>
    rintro tooLong name i bytes rfl
    have writes := writes_overflow held tooLong counted
    have exclusive := writes.exclusive counted
    exact ⟨writes.shows, exclusive,
      fun one => exclusive.still one (handle_overflow held tooLong one)⟩

/-- After an insertion into `c` has overflowed, `c` has a block of its own, and a second one leaves
it there.  Neither filling up to 2⁶³ bytes nor filling `b` with as many moves anything. -/
theorem run_refuses_too_long_again :
    let edits : List Edit :=
      [.create "b" (some [0x61, 0x62]), .derive "c" "b" .copy,
        .change "c" (.insert 0x8000000000000000 [0x78])]
    let s := run Holdings.empty edits
    let insertion : Edit := .change "c" (.insert 0x7fffffffffffffff [0x78])
    let justified : Edit := .derive "d" "b" (.rightJustify 0x8000000000000000 0x20 false)
    let filled : Edit := .change "b" (.fill 0x20 (some 0x8000000000000000))
    RunInMemory Holdings.empty edits ∧
    ((apply s insertion).reply = .overflow ∧ s.Still (apply s insertion).store) ∧
    ((apply s justified).reply = .overflow ∧ (apply s justified).store = s) ∧
    (apply s filled).reply = .flag false ∧ (apply s filled).store = s := by
  intro edits s insertion justified filled
  have inMemory : RunInMemory Holdings.empty edits := by decide
  obtain ⟨-, applied, -⟩ := run_refuses_too_long inMemory
  have tooLong : ∀ edit : Edit, edit.InMemory s.contents? → ¬ edit.reach ≤ maxBytes →
      ¬ edit.Fits s.contents? := fun edit held => mt (applied edit held).1.1
  have farInsertion := tooLong insertion (by decide) (by decide)
  have farJustified := tooLong justified (by decide) (by decide)
  have farFilled := tooLong filled (by decide) (by decide)
  obtain ⟨-, replyInsertion, -, -, -, left⟩ := applied insertion (by decide)
  obtain ⟨-, replyJustified, -, -, keptJustified, -⟩ := applied justified (by decide)
  obtain ⟨-, replyFilled, -, -, keptFilled, -⟩ := applied filled (by decide)
  rw [decide_eq_false farInsertion] at replyInsertion
  rw [decide_eq_false farJustified] at replyJustified
  rw [decide_eq_false farFilled] at replyFilled
  refine ⟨inMemory, ⟨replyInsertion, ?_⟩, ⟨replyJustified, keptJustified farJustified nofun⟩,
    replyFilled, keptFilled farFilled fun _ _ _ same => nomatch (Edit.change.inj same).2⟩
  exact (left farInsertion "c" _ _ rfl).2.2 (by decide)

/-- An insertion at 2⁶³ overflows, and so does filling up to as many bytes.  After the insertion
a null string is empty and not null, and one that shared its block does not share it any more. -/
theorem insert_overflow_detaches :
    let s := run Holdings.empty
      [.create "a" none, .create "b" (some [0x61, 0x62]), .derive "c" "b" .copy]
    let null : Edit := .change "a" (.insert 0x8000000000000000 [0x78])
    let shared : Edit := .change "c" (.insert 0x8000000000000000 [0x78])
    let justified : Edit := .derive "d" "b" (.leftJustify 0x8000000000000000 0x20 false)
    (¬ null.Fits s.contents? ∧ (apply s null).reply = .overflow ∧
      s.contents? "a" = none ∧ (apply s null).store.contents? "a" = some []) ∧
    (¬ shared.Fits s.contents? ∧ (apply s shared).reply = .overflow ∧
      (s.refs "b", s.refs "c") = (2, 2) ∧
      ((apply s shared).store.refs "b", (apply s shared).store.refs "c") = (1, 1)) ∧
    ¬ justified.Fits s.contents? ∧ (apply s justified).reply = .overflow := by
  intro s null shared justified
  have tooLong : ∀ edit : Edit, edit.InMemory s.contents? → ¬ edit.reach ≤ maxBytes →
      ¬ edit.Fits s.contents? := fun edit held => mt (Edit.fits_iff held).1
  refine ⟨⟨tooLong null (by decide) (by decide), ?_⟩, ⟨tooLong shared (by decide) (by decide), ?_⟩,
    tooLong justified (by decide) (by decide), ?_⟩
  · decide
  · decide
  · decide

end Bytewise.Strings
