/-
# Bytewise.Proofs.Strings.Agreement -- shared strings are as good as private bytes

Shared strings go on showing what private ones have, however the edits make them
share their bytes.

* `shown_derive`: unless it would be too long, a derived string is the private one;
* `becomes_apply`: whatever becomes of an edit of shared strings, it changes what
  its target shows and nothing else, and where the result fits into memory it is
  the private one;
* `Agrees.apply`, `Agrees.run`: so the agreement is kept by an edit, and by a run;
* `Agrees.cut`: the three parts that a string is cut into are the whole.
-/
import Bytewise.Proofs.Shared.Agreement
import Bytewise.Proofs.Shared.Exclusive
import Bytewise.Proofs.Strings.Private

namespace Bytewise.Strings

set_option autoImplicit false

open Shared (Handle Heap Holdings maxBytes)

/-! ## Cutting and joining bytes -/

theorem slice_eq {own : Bytes} (i length : Nat) :
    own.slice i length = (own.drop i).take length := by
  rw [Bytes.slice, Bytes.spanEnd, List.drop_take, List.take_eq_take_iff, List.length_drop]
  omega

/-- The part before a span, the span, and what is left behind it are the whole. -/
theorem cut_eq {own : Bytes} {i : Nat} (inside : i ≤ own.length) (length : Nat) :
    own.take i ++ (own.drop i).take length ++
      own.drop (own.length - (own.length - min (i + length) own.length)) = own := by
  have stop : own.length - (own.length - min (i + length) own.length) =
      min (i + length) own.length := by
    omega
  have before : own.take (i + length) = own.take (min (i + length) own.length) := by
    rw [List.take_eq_take_iff]
    omega
  rw [stop, ← List.take_add, before, List.take_append_drop]

theorem length_padTo (own : Bytes) (i : Nat) : (own.padTo i).length = max i own.length := by
  rw [Bytes.padTo, List.length_append, List.length_replicate]
  omega

theorem spanEnd_padTo (own : Bytes) (i : Nat) : (own.padTo i).spanEnd i 0 = i := by
  rw [Bytes.spanEnd, length_padTo]
  omega

theorem splice_padTo (own : Bytes) (i : Nat) (bytes : Bytes) :
    (own.padTo i).splice i 0 bytes =
      if i ≤ own.length then own.take i ++ bytes ++ own.drop i
      else own ++ List.replicate (i - own.length) 0x20 ++ bytes := by
  rw [Bytes.splice, spanEnd_padTo]
  split
  · rename_i inside
    rw [Bytes.padTo, Nat.sub_eq_zero_of_le inside, List.replicate_zero, List.append_nil]
  · rename_i behind
    have whole : (own.padTo i).length ≤ i := by
      rw [length_padTo]
      omega
    rw [List.take_of_length_le whole, List.drop_eq_nil_of_le whole, List.append_nil, Bytes.padTo]
    rfl

theorem length_splice_padTo (own : Bytes) (i : Nat) (bytes : Bytes) :
    ((own.padTo i).splice i 0 bytes).length = max i own.length + bytes.length := by
  rw [Bytes.splice, spanEnd_padTo, List.length_append, List.length_append, List.length_take,
    List.length_drop, length_padTo]
  omega

/-! ## Derivations -/

/-- What a derived string shows, where `source?` is derived from and `before?` is replaced. -/
def Derived.shown (source? before? : Option Bytes) : Derived → Option Bytes
  | .same => source?
  | .null => none
  | .fresh bytes => some bytes
  | .tooLong => before?

section

variable (source? before? : Option Bytes)

theorem shown_leftPart (length : Nat) :
    (leftPart (source?.getD []) length).shown source? before? =
      source?.map fun _ => (source?.getD []).take length := by
  cases source? with
  | none => rfl
  | some own =>
      rw [leftPart]
      split
      · rename_i whole
        exact congrArg some (List.take_of_length_le whole).symm
      · rfl

theorem shown_rightPart (length : Nat) :
    (rightPart (source?.getD []) length).shown source? before? =
      source?.map fun _ => (source?.getD []).drop ((source?.getD []).length - length) := by
  cases source? with
  | none => rfl
  | some own =>
      rw [rightPart]
      split
      · rename_i whole
        rw [Nat.sub_eq_zero_of_le whole]
        rfl
      · rfl

theorem shown_midPart (i : Nat) (length? : Option Nat) :
    (midPart (source?.getD []) i length?).shown source? before? =
      (Derivation.mid i length?).result source? := by
  cases source? with
  | none =>
      show (midPart [] i length?).shown none before? = if i ≤ 0 then none else none
      rw [ite_self]
      cases i with
      | zero => simp [midPart, Bytes.spanEnd, Derived.shown]
      | succ i => rfl
  | some own =>
      show (midPart own i length?).shown _ _ =
        if i ≤ own.length then some ((own.drop i).take (length?.getD own.length)) else none
      rw [midPart]
      by_cases inside : i ≤ own.length
      · rw [if_neg (Nat.not_lt.2 inside), if_pos inside]
        dsimp only
        split
        · rename_i whole
          obtain ⟨rfl, reaches⟩ := whole
          have enough : own.length ≤ length?.getD own.length := by
            rw [Bytes.spanEnd, Nat.zero_add] at reaches
            omega
          rw [List.drop_zero, List.take_of_length_le enough]
          rfl
        · exact congrArg some (slice_eq i _)
      · rw [if_pos (Nat.lt_of_not_le inside), if_neg inside]
        rfl

theorem shown_justify (width : Nat) (cut : Bool) (fillUp : Nat → Bytes)
    (fits : (source?.getD []).length < width → width ≤ maxBytes) :
    (justify (source?.getD []) width cut fillUp).shown source? before? =
      if (source?.getD []).length < width then some (fillUp (width - (source?.getD []).length))
      else source?.map fun _ =>
        if cut then (source?.getD []).take width else source?.getD [] := by
  rw [justify]
  split
  · rename_i shorter
    rw [if_pos (fits shorter)]
    rfl
  · by_cases cuts : width < (source?.getD []).length ∧ cut = true
    · rw [if_pos cuts, shown_leftPart, if_pos cuts.2]
    · rw [if_neg cuts]
      cases source? with
      | none => rfl
      | some own =>
          refine congrArg some ?_
          split
          · rename_i cutting
            have whole : own.length ≤ width := Nat.le_of_not_lt fun longer => cuts ⟨longer, cutting⟩
            exact (List.take_of_length_le whole).symm
          · rfl

/-- Unless it would be too long, a derived string is the private one. -/
theorem shown_derive {derivation : Derivation}
    (fits : ((derivation.result source?).getD []).length ≤ maxBytes) :
    (derive source?.isNone (source?.getD []) derivation).shown source? before? =
      derivation.result source? := by
  cases derivation with
  | copy => rfl
  | left length => exact shown_leftPart source? before? length
  | right length => exact shown_rightPart source? before? length
  | mid i length? => exact shown_midPart source? before? i length?
  | upper => exact congrArg some (List.map_congr_left fun b _ => (Plain.upper_eq b).symm)
  | lower => exact congrArg some (List.map_congr_left fun b _ => (Plain.lower_eq b).symm)
  | strip =>
      rw [Derivation.result, Plain.strip_eq]
      cases source? <;> rfl
  | simplify => exact congrArg some (Plain.simplify_eq _).symm
  | leftJustify width fill cut =>
      refine shown_justify source? before? width cut
        (fun missing => source?.getD [] ++ List.replicate missing fill) fun shorter => ?_
      rw [Derivation.result, if_pos shorter, Option.getD_some, List.length_append,
        List.length_replicate] at fits
      omega
  | rightJustify width fill cut =>
      refine shown_justify source? before? width cut
        (fun missing => List.replicate missing fill ++ source?.getD []) fun shorter => ?_
      rw [Derivation.result, if_pos shorter, Option.getD_some, List.length_append,
        List.length_replicate] at fits
      omega

end

/-! ## Changes -/

section

variable {s : Store} {name : String} {result : Option Bytes}

/-- Only the name has changed, to what it has in `result` where that fits into memory. -/
def Becomes (s : Store) (name : String) (result : Option Bytes) (t : Store) : Prop :=
  ∃ contents?, s.Changes [] name contents? t ∧
    (Private.Within s.contents? → (result.getD []).length ≤ maxBytes → contents? = result)

theorem becomes_of_changes {t : Store} (changes : s.Changes [] name result t) :
    Becomes s name result t :=
  ⟨result, changes, fun _ _ => rfl⟩

theorem becomes_edited (counted : s.Counted []) {op : Bytes → Bytes}
    (made : some (op (s.cells name)) = result) :
    Becomes s name result (edited s name op).store := by
  have writes : s.Writes [] name (some (op (s.cells name))) (s.run name fun h x => h.edit x op) :=
    counted.run fun held => held.edit op
  exact becomes_of_changes (made ▸ writes.toChanges)

theorem becomes_self (counted : s.Counted []) (same : s.contents? name = result) :
    Becomes s name result s :=
  becomes_of_changes (same ▸ counted.rests_self.changes name)

theorem fits_byte_iff {length : Nat} : Shared.fits UInt8 length ↔ length ≤ maxBytes := by
  rw [Shared.fits, show Shared.Storable.width UInt8 = 1 from rfl, Nat.mul_one]

/-- A string that is changed as an array of bytes. -/
theorem becomes_array (counted : s.Counted []) (change : Shared.Arrays.Change UInt8)
    (source : ∀ source, change = .store source → (result.getD []).length ≤ maxBytes →
      (source.list s.contents?).length ≤ maxBytes)
    (made : (result.getD []).length ≤ maxBytes →
      change.result s.contents? (s.contents? name) = result) :
    Becomes s name result (Shared.Arrays.applyChange s name change).1 := by
  refine ⟨_, counted.changes name change, fun within fits => ?_⟩
  rw [← Shared.result_eq, made fits]
  · rw [fits_byte_iff, Holdings.cells_eq]
    exact within name
  · intro source' same
    exact fits_byte_iff.2 (source source' same fits)

theorem store_attempt (s : Store) (name : String) (changed? : Option (Heap UInt8 × Handle))
    (size : Nat) (warning : Shared.Warning) :
    (attempt s name changed? size).store = (Shared.Arrays.attempt s name changed? warning).1 := by
  cases changed? <;> rfl

theorem becomes_insert (counted : s.Counted []) (i : Nat) (bytes : Bytes) :
    Becomes s name ((Change.insert i bytes).result (s.contents? name))
      (applyChange s name (.insert i bytes)).store := by
  have result : (Change.insert i bytes).result (s.contents? name) =
      some (Bytes.splice (Bytes.padTo (s.cells name) i) i 0 bytes) := by
    rw [splice_padTo, Holdings.cells_eq, apply_ite some]
    rfl
  rw [result, applyChange]
  split
  · exact becomes_edited counted rfl
  · rename_i tooLong
    -- the bytes are detached, and perhaps filled up
    have detached : Becomes s name (some (filledUp (s.cells name) i))
        (edited s name fun old => filledUp old i).store :=
      becomes_edited counted rfl
    obtain ⟨contents?, changes, -⟩ := detached
    refine ⟨contents?, changes, fun _ fits => absurd ?_ tooLong⟩
    rwa [Option.getD_some, length_splice_padTo] at fits

/-- Bytes that are the same as before leave a null string null. -/
theorem eq_map_of_same {own? : Option Bytes} {bytes : Bytes} (same : own?.getD [] = bytes) :
    own? = own?.map fun _ => bytes := by
  cases own? with
  | none => rfl
  | some own => exact congrArg some same

theorem becomes_remove (counted : s.Counted []) (i length : Nat) :
    Becomes s name ((Change.remove i length).result (s.contents? name))
      (applyChange s name (.remove i length)).store := by
  have cells : (s.contents? name).getD [] = s.cells name := (s.cells_eq name).symm
  rw [Change.result, cells, applyChange]
  by_cases inside : i ≤ (s.cells name).length
  · rw [if_pos inside, if_pos inside]
    split
    · rename_i nonempty
      refine becomes_edited counted ?_
      cases shown : s.contents? name with
      | none =>
          -- there is nothing to remove from a null string
          rw [← cells, shown] at nonempty
          exact absurd nonempty (Nat.not_lt.2 (Nat.le_trans (Nat.min_le_right _ _) (Nat.zero_le i)))
      | some own => exact congrArg some (congrArg (· ++ _) (List.append_nil _))
    · rename_i empty
      have stop : min (i + length) (s.cells name).length = i := by
        rw [Bytes.spanEnd] at empty
        omega
      refine becomes_self counted (eq_map_of_same ?_)
      rw [stop, List.take_append_drop, cells]
  · rw [if_neg inside, if_neg inside]
    exact becomes_self counted rfl

theorem becomes_applyChange (counted : s.Counted []) (name : String) (change : Change) :
    Becomes s name (change.result (s.contents? name)) (applyChange s name change).store := by
  have cells : (s.contents? name).getD [] = s.cells name := (s.cells_eq name).symm
  cases change with
  | replace needle replacement =>
      rw [Change.result, cells]
      show Becomes s name _ (if (needle.replace replacement (s.cells name)).1 = [] then
        (⟨s, .nothing, []⟩ : Outcome) else
        edited s name fun _ => (needle.replace replacement (s.cells name)).2).store
      dsimp only
      split
      · exact becomes_self counted rfl
      · exact becomes_edited counted rfl
  | replaceRange i length bytes =>
      rw [Change.result, cells, applyChange]
      by_cases inside : i ≤ (s.cells name).length
      · rw [if_pos inside, if_pos inside]
        exact becomes_edited counted rfl
      · rw [if_neg inside, if_neg inside]
        exact becomes_self counted rfl
  | insert i bytes => exact becomes_insert counted i bytes
  | append bytes =>
      rw [Change.result, cells]
      exact becomes_edited counted rfl
  | remove i length => exact becomes_remove counted i length
  | truncate length =>
      rw [applyChange, store_attempt _ _ _ _ (.notResized length)]
      refine becomes_array counted (.truncate length) (fun _ same => by cases same) fun _ => ?_
      cases s.contents? name <;> rfl
  | fill c length? =>
      rw [applyChange, store_attempt _ _ _ _ (.notResized (length?.getD 0))]
      refine becomes_array counted (.fill c length?) (fun _ same => by cases same) fun fits => ?_
      cases length? with
      | none =>
          cases s.contents? name with
          | none => rfl
          | some own => exact congrArg some List.map_const'
      | some length =>
          refine if_pos (fits_byte_iff.2 ?_)
          simpa [Change.result] using fits
  | setNumber n =>
      rw [Change.result, Plain.integer_eq]
      show Becomes s name _ (attempt s name _ _).store
      rw [store_attempt _ _ _ _ (.notResized (numberBytes n).length)]
      refine becomes_array counted (.store (.cells (numberBytes n))) ?_ fun _ => rfl
      intro source same fits
      cases same
      exact fits

/-! ## Edits -/

theorem changes_bindDerived (counted : s.Counted []) (name source : String) (derived : Derived) :
    s.Changes [] name (derived.shown (s.contents? source) (s.contents? name))
      (bindDerived s name source derived) := by
  cases derived with
  | same => exact counted.bind_share name source
  | null => exact counted.bind_null name
  | fresh bytes => exact counted.bind_alloc name bytes
  | tooLong => exact counted.rests_self.changes name

theorem becomes_derive (counted : s.Counted []) (name source : String) (derivation : Derivation) :
    Becomes s name (derivation.result (s.contents? source))
      (apply s (.derive name source derivation)).store := by
  have null : s.isNull source = (s.contents? source).isNone := by
    rw [Bool.eq_iff_iff, Holdings.isNull_iff, Option.isNone_iff_eq_none,
      Holdings.contents?_eq_none_iff]
  refine ⟨_, changes_bindDerived counted name source _, fun _ fits => ?_⟩
  rw [null, Holdings.cells_eq]
  exact shown_derive _ _ fits

/-- Whatever becomes of an edit, it is a change of its target alone. -/
theorem becomes_apply (counted : s.Counted []) (edit : Edit) :
    Becomes s edit.target (edit.result s.contents?) (apply s edit).store := by
  cases edit with
  | create name bytes? =>
      cases bytes? with
      | none => exact becomes_of_changes (counted.bind_null name)
      | some bytes => exact becomes_of_changes (counted.bind_alloc name bytes)
  | ofNumber name n =>
      rw [Edit.result, Plain.integer_eq]
      exact becomes_of_changes (counted.bind_alloc name (numberBytes n))
  | derive name source derivation => exact becomes_derive counted name source derivation
  | drop name => exact becomes_of_changes (counted.drop name)
  | change name op => exact becomes_applyChange counted name op

end

/-! ## Runs -/

/-- The strings show what the private ones have, and that fits into memory. -/
structure Agrees (s : Store) (p : Private) : Prop where
  counted : s.Counted []
  contents?_eq : ∀ name, s.contents? name = p name
  within : p.Within

variable {s : Store} {p : Private}

theorem agrees_empty : Agrees Holdings.empty Private.empty where
  counted := Holdings.counted_empty
  contents?_eq := fun _ => rfl
  within := Private.within_empty

theorem Agrees.apply (agrees : Agrees s p) {edit : Edit} (fits : edit.Fits p) :
    Agrees (Strings.apply s edit).store (p.apply edit) := by
  obtain rfl : s.contents? = p := funext agrees.contents?_eq
  obtain ⟨contents?, changes, made⟩ := becomes_apply agrees.counted edit
  obtain rfl := made agrees.within fits
  refine ⟨changes.counted, fun name => ?_, agrees.within.apply fits⟩
  by_cases same : name = edit.target
  · rw [Private.apply, same, Function.update_self]
    exact changes.shows
  · rw [Private.apply, Function.update_of_ne same]
    exact changes.frame name same

theorem counted_run (counted : s.Counted []) (edits : List Edit) : (run s edits).Counted [] := by
  induction edits generalizing s with
  | nil => exact counted
  | cons edit rest ih =>
      obtain ⟨contents?, changes, -⟩ := becomes_apply counted edit
      exact ih changes.counted

/-- Every run keeps the agreement, as each edit does. -/
theorem Agrees.run (agrees : Agrees s p) {edits : List Edit} (fits : p.RunFits edits) :
    Agrees (Strings.run s edits) (p.run edits) := by
  induction edits generalizing s p with
  | nil => exact agrees
  | cons edit rest ih => exact ih (agrees.apply fits.1) fits.2

/-- A derivation that takes a part, which is null for a null string, gives that part. -/
theorem Agrees.cells_part (agrees : Agrees s p) (target : String) {source : String}
    {derivation : Derivation} {part : Bytes}
    (result : derivation.result (p source) = (p source).map fun _ => part)
    (le : part.length ≤ (s.cells source).length) :
    (Strings.apply s (.derive target source derivation)).store.cells target = part := by
  rw [Holdings.cells_eq, agrees.contents?_eq] at le
  have made : (derivation.result (p source)).getD [] = part := by
    rw [result]
    cases own : p source with
    | none =>
        rw [own] at le
        exact (List.eq_nil_of_length_eq_zero (Nat.le_zero.1 le)).symm
    | some own => rfl
  have fits : Edit.Fits p (.derive target source derivation) := by
    show ((derivation.result (p source)).getD []).length ≤ maxBytes
    rw [made]
    exact Nat.le_trans le (agrees.within source)
  have shows := (agrees.apply fits).contents?_eq target
  rw [Private.apply, Edit.target, Function.update_self] at shows
  rw [Holdings.cells_eq, shows]
  exact made

/-- A string is cut into three at any place inside. -/
theorem Agrees.cut (agrees : Agrees s p) (target source : String) {i : Nat}
    (inside : i ≤ (s.cells source).length) (length : Nat) :
    (Strings.apply s (.derive target source (.left i))).store.cells target ++
      (Strings.apply s (.derive target source (.mid i (some length)))).store.cells target ++
      (Strings.apply s (.derive target source
        (.right ((s.cells source).length - min (i + length) (s.cells source).length)))).store.cells
          target = s.cells source := by
  have own : (p source).getD [] = s.cells source := by
    rw [Holdings.cells_eq, agrees.contents?_eq]
  have left : ∀ n, (Derivation.left n).result (p source) =
      (p source).map fun _ => (s.cells source).take n := fun n => own ▸ rfl
  have right : ∀ n, (Derivation.right n).result (p source) =
      (p source).map fun _ => (s.cells source).drop ((s.cells source).length - n) :=
    fun n => own ▸ rfl
  have mid : (Derivation.mid i (some length)).result (p source) =
      (p source).map fun _ => ((s.cells source).drop i).take length := by
    rw [Derivation.result, own, if_pos inside]
    rfl
  rw [agrees.cells_part target (left _) (List.length_take_le' _ _),
    agrees.cells_part target mid ?_, agrees.cells_part target (right _) ?_]
  · exact cut_eq inside length
  · rw [List.length_drop]
    omega
  · rw [List.length_take, List.length_drop]
    omega

/-- **Shared strings behave as private bytes.**  After any run of edits whose results fit into
memory, every name shows the bytes that it has where nothing is shared.  From there, any edit
leaves all names but its target what they show, and even on the block they were on; a string is
the whole of its left part, the span behind it and its right part, for a span of any length; and
the count of every name is the number of names on its block. -/
theorem run_shows_own_bytes (edits : List Edit) (fits : Private.empty.RunFits edits) :
    let s := run Holdings.empty edits
    let p := Private.empty.run edits
    (∀ name, s.contents? name = p name) ∧
    (∀ name, s.cells name = (p name).getD []) ∧
    (∀ edit name, name ≠ edit.target →
      (apply s edit).store.contents? name = s.contents? name ∧
        (apply s edit).store.handle name = s.handle name) ∧
    (∀ target source i length, i ≤ (s.cells source).length →
      (apply s (.derive target source (.left i))).store.cells target ++
        (apply s (.derive target source (.mid i (some length)))).store.cells target ++
        (apply s (.derive target source (.right
          ((s.cells source).length - min (i + length) (s.cells source).length)))).store.cells
            target = s.cells source) ∧
    s.Exact := by
  intro s p
  have agrees : Agrees s p := agrees_empty.run fits
  refine ⟨agrees.contents?_eq, fun name => ?_, fun edit name other => ?_,
    fun target source i length inside => agrees.cut target source inside length,
    agrees.counted.exact⟩
  · rw [Holdings.cells_eq, agrees.contents?_eq]
  · obtain ⟨contents?, changes, -⟩ := becomes_apply agrees.counted edit
    exact ⟨changes.frame name other, changes.handle_eq name other⟩

/-- A copy is edited with a span that reaches behind the end by far, and the string that it is a
copy of shows what it did; a part from behind the end is null.  What a string was without white
space at its ends, and in its simple form, is shown after a number has been written over it. -/
theorem run_shows_own_bytes_copy :
    let edits : List Edit :=
      [.create "a" (some [0x61, 0x62, 0x63]), .derive "b" "a" .copy,
        .change "b" (.replaceRange 1 0xffffffffffffffff [0x78]),
        .change "b" (.insert 4 [0x79]), .derive "c" "b" (.mid 0xffffffffffffffff none),
        .derive "d" "b" (.rightJustify 7 0x09 false), .derive "e" "d" .strip,
        .derive "f" "d" .simplify, .change "d" (.setNumber (-205))]
    let s := run Holdings.empty edits
    Private.empty.RunFits edits ∧
    s.contents? "a" = some [0x61, 0x62, 0x63] ∧
    s.contents? "b" = some [0x61, 0x78, 0x20, 0x20, 0x79] ∧
    s.contents? "c" = none ∧
    s.contents? "d" = some [0x2d, 0x32, 0x30, 0x35] ∧
    s.contents? "e" = some [0x61, 0x78, 0x20, 0x20, 0x79] ∧
    s.contents? "f" = some [0x61, 0x78, 0x20, 0x79] := by
  intro edits s
  have fits : Private.empty.RunFits edits := by decide +kernel
  have shows := (run_shows_own_bytes edits fits).1
  refine ⟨fits, ?_, ?_, ?_, ?_, ?_, ?_⟩
  all_goals
    rw [shows]
    decide +kernel

end Bytewise.Strings
