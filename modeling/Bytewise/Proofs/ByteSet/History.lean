/-
# Bytewise.Proofs.ByteSet.History -- a history of a bitmap is one of a set

`members` reads a bitmap as a set: byte `b` is a member when bit `b % 16` of word
`b / 16` is on.  `Edit.result` says what each change makes of a set, without any
words, and a history makes the same of the bitmap (`members_run`), wherever it starts.

The questions are about the members too:

* `size_eq_ncard`: the bits that are on are as many as the members, for the bytes are the
  positions of the bits, word after word (`countP_bits`);
* `isEmpty_iff`, `eq_iff_members_eq`: no words differ where no members do;
* `isLeast_foldCase`: folding closes a set under the other case (`OtherCase`) with as
  few bytes as possible.
-/
import Mathlib.Data.Set.Card
import Bytewise.Proofs.ByteSet.Membership

namespace Bytewise

set_option autoImplicit false

/-! ## The other case of a letter -/

namespace Byte

/-- The second byte is the first one, a letter, in its other case. -/
inductive OtherCase : UInt8 → UInt8 → Prop
  | lower {b : UInt8} (upper : isUpper b = true) : OtherCase b (b + 0x20)
  | upper {b : UInt8} (lower : isLower b = true) : OtherCase b (b - 0x20)

variable {a b : UInt8}

/-- The other case of a letter stands 32 places further on, or that far back. -/
theorem otherCase_iff : OtherCase a b ↔
    (0x41 ≤ a.toNat ∧ a.toNat ≤ 0x5a ∧ b.toNat = a.toNat + 0x20) ∨
      (0x41 ≤ b.toNat ∧ b.toNat ≤ 0x5a ∧ a.toNat = b.toNat + 0x20) := by
  constructor
  · intro other
    cases other with
    | lower upper =>
        have range := isUpper_iff.1 upper
        have folded : toLower a = a + 0x20 := if_pos upper
        refine .inl ⟨range.1, range.2, ?_⟩
        rw [← folded, toNat_toLower, if_pos range]
    | upper lower =>
        have range := isLower_iff.1 lower
        have raised : toUpper a = a - 0x20 := if_pos lower
        rw [← raised, toNat_toUpper, if_pos range]
        omega
  · rintro (⟨low, high, value⟩ | ⟨low, high, value⟩)
    · have upper := isUpper_iff.2 ⟨low, high⟩
      have folded : toLower a = a + 0x20 := if_pos upper
      have same : b = a + 0x20 := by
        rw [← folded, ← UInt8.toNat_inj, toNat_toLower, if_pos ⟨low, high⟩, value]
      exact same ▸ .lower upper
    · have lower : isLower a = true := isLower_iff.2 (by omega)
      have raised : toUpper a = a - 0x20 := if_pos lower
      have same : b = a - 0x20 := by
        rw [← raised, ← UInt8.toNat_inj, toNat_toUpper, if_pos (isLower_iff.1 lower)]
        omega
      exact same ▸ .upper lower

/-- Two bytes fold alike if they are one byte, or one letter in both cases. -/
theorem toLower_eq_toLower_iff : toLower a = toLower b ↔ a = b ∨ OtherCase a b := by
  have alike : fold false a = fold false b ↔ Alike false a b := fold_eq_fold_iff
  refine alike.trans ?_
  rw [Alike, otherCase_iff, and_iff_right rfl]

end Byte

namespace ByteSet

open Byte (OtherCase)

variable {s t : ByteSet} {b : UInt8}

/-! ## Members -/

/-- The bytes whose bits are on. -/
def members (s : ByteSet) : Set UInt8 :=
  {b | (s.words.get (index b)).toNat.testBit (b.toNat % 16) = true}

theorem mem_members_iff : b ∈ s.members ↔ b ∈ s := mem_iff.symm

/-- What a change makes of a set of bytes. -/
def Edit.result (m : Set UInt8) : Edit → Set UInt8
  | .insert b => m ∪ {b}
  | .insertRange lo hi => m ∪ {b | lo ≤ b ∧ b ≤ hi}
  | .insertAll bs => m ∪ {b | b ∈ bs}
  | .negate => mᶜ
  | .foldCase => m ∪ {b | ∃ a ∈ m, OtherCase a b}

theorem members_apply (s : ByteSet) (edit : Edit) :
    (s.apply edit).members = edit.result s.members := by
  ext b
  cases edit with
  | insert c =>
      rw [mem_members_iff, apply, mem_insert_iff, or_comm]
      exact or_congr_left mem_members_iff.symm
  | insertRange lo hi =>
      rw [mem_members_iff, apply, insertRange, mem_insertAll_iff, mem_span_iff, or_comm]
      exact or_congr_left mem_members_iff.symm
  | insertAll bs =>
      rw [mem_members_iff, apply, mem_insertAll_iff, or_comm]
      exact or_congr_left mem_members_iff.symm
  | negate =>
      rw [mem_members_iff, apply, mem_negate_iff]
      exact not_congr mem_members_iff.symm
  | foldCase =>
      rw [mem_members_iff, apply, mem_foldCase_iff]
      simp only [Byte.toLower_eq_toLower_iff, and_or_left, exists_or, exists_eq_right,
        ← mem_members_iff]
      rfl

/-- What a history makes of the bitmap, it makes of the set. -/
theorem members_run (s : ByteSet) (edits : List Edit) :
    (edits.foldl apply s).members = edits.foldl Edit.result s.members := by
  induction edits generalizing s with
  | nil => rfl
  | cons edit edits ih => rw [List.foldl_cons, ih, members_apply, List.foldl_cons]

theorem eq_iff_members_eq : s = t ↔ s.members = t.members := by
  constructor
  · exact congrArg members
  · intro same
    refine ext fun b => ?_
    rw [← mem_members_iff, same, mem_members_iff]

theorem members_empty : empty.members = ∅ :=
  Set.eq_empty_iff_forall_notMem.2 fun _ member => not_mem_empty (mem_members_iff.1 member)

theorem isEmpty_iff : s.isEmpty = true ↔ s.members = ∅ := by
  rw [← members_empty, ← eq_iff_members_eq]
  constructor
  · intro zero
    obtain ⟨words⟩ := s
    refine congrArg ByteSet.mk (Vector.ext fun i inside => ?_)
    simpa [isEmpty, empty] using Vector.all_eq_true.1 zero i inside
  · rintro rfl
    simp [isEmpty, empty]

/-! ## Size -/

/-- The bits that are on in a list of words, word after word. -/
theorem countP_bits (words : List UInt16) :
    (List.range (words.length * 16)).countP
        (fun k => (words.getD (k / 16) 0).toNat.testBit (k % 16)) =
      (words.map popCount).sum := by
  induction words with
  | nil => rfl
  | cons w words ih =>
      have first : (List.range 16).countP
          (fun k => ((w :: words).getD (k / 16) 0).toNat.testBit (k % 16)) = popCount w := by
        refine List.countP_congr fun k inside => ?_
        have below := List.mem_range.1 inside
        rw [Nat.div_eq_of_lt below, Nat.mod_eq_of_lt below, List.getD_cons_zero]
      have later : (fun k => ((w :: words).getD (k / 16) 0).toNat.testBit (k % 16)) ∘ (16 + ·) =
          fun k => (words.getD (k / 16) 0).toNat.testBit (k % 16) := by
        funext k
        have word : (16 + k) / 16 = k / 16 + 1 := by omega
        have bit : (16 + k) % 16 = k % 16 := by omega
        rw [Function.comp_apply, word, bit, List.getD_cons_succ]
      rw [List.length_cons, Nat.succ_mul, Nat.add_comm, List.range_add, List.countP_append, first,
        List.countP_map, later, ih, List.map_cons, List.sum_cons]

theorem nodup_span (lo hi : UInt8) : (span lo hi).Nodup := by
  have := hi.toNat_lt
  refine List.Nodup.map_on (fun m small n small' same => ?_) List.nodup_range'
  rw [List.mem_range'_1] at small small'
  have value : ∀ k < 256, (UInt8.ofNat k).toNat = k := fun k below =>
    UInt8.toNat_ofNat_of_lt' below
  rw [← value m (by omega), same, value n (by omega)]

theorem length_toList (s : ByteSet) : s.toList.length = s.size := by
  have bits : (s.words.toList.map popCount).sum = s.size := by
    rw [size, ← Vector.foldl_toList, List.sum_eq_foldl, List.foldl_map]
  have words : s.words.toList.length = 16 := Vector.length_toList
  have all : span 0 255 = (List.range (16 * 16)).map UInt8.ofNat := by
    rw [List.range_eq_range']
    rfl
  rw [← bits, ← countP_bits, words, toList, ← List.countP_eq_length_filter, all, List.countP_map]
  refine List.countP_congr fun k inside => ?_
  have below : k < 256 := List.mem_range.1 inside
  have value : (UInt8.ofNat k).toNat = k := UInt8.toNat_ofNat_of_lt' below
  have word : k / 16 < s.words.toList.length := by omega
  rw [Function.comp_apply, contains_eq, List.getD_eq_getElem?_getD, List.getElem?_eq_getElem word,
    Option.getD_some, Vector.getElem_toList, get_index]
  simp only [index, value]
  rfl

/-- A set has as many members as bits that are on. -/
theorem size_eq_ncard (s : ByteSet) : s.size = s.members.ncard := by
  have listed : s.members = (s.toList.toFinset : Set UInt8) := by
    ext b
    rw [mem_members_iff, List.coe_toFinset]
    exact mem_toList_iff.symm
  have distinct : s.toList.Nodup := (nodup_span 0 255).filter _
  rw [listed, Set.ncard_coe_finset, List.toFinset_card_of_nodup distinct, length_toList]

/-! ## Case -/

/-- A set that holds every letter in both cases or in none. -/
def CaseClosed (m : Set UInt8) : Prop := ∀ a b, OtherCase a b → a ∈ m → b ∈ m

theorem caseBlind_iff_caseClosed : s.CaseBlind ↔ CaseClosed s.members := by
  constructor
  · intro blind a b other member
    rw [mem_members_iff] at member ⊢
    exact (blind a b (Byte.toLower_eq_toLower_iff.2 (.inr other))).1 member
  · intro closed
    have half : ∀ a b, Byte.toLower a = Byte.toLower b → a ∈ s → b ∈ s := by
      intro a b same member
      rcases Byte.toLower_eq_toLower_iff.1 same with rfl | other
      · exact member
      · exact mem_members_iff.1 (closed a b other (mem_members_iff.2 member))
    exact fun a b same => ⟨half a b same, half b a same.symm⟩

/-- Folding gives the least closed set above the members. -/
theorem isLeast_foldCase (s : ByteSet) :
    IsLeast {m | s.members ⊆ m ∧ CaseClosed m} s.foldCase.members := by
  have folded : s.foldCase.members = s.members ∪ {b | ∃ a ∈ s.members, OtherCase a b} :=
    members_apply s .foldCase
  refine ⟨⟨?_, caseBlind_iff_caseClosed.1 s.caseBlind_foldCase⟩, ?_⟩
  · rw [folded]
    exact Set.subset_union_left
  · rintro m ⟨above, closed⟩
    rw [folded]
    refine Set.union_subset above ?_
    rintro b ⟨a, member, other⟩
    exact closed a b other (above member)

theorem negate_negate (s : ByteSet) : s.negate.negate = s :=
  ext fun _ => by rw [mem_negate_iff, mem_negate_iff, not_not]

/-- **A bitmap is a set of bytes.**  It starts out empty, or with the white-space bytes, and
whatever is done to it is done to the set of its members: bytes are added one by one, from one byte
up to another, or as they are listed; the set is complemented; or the other case of each letter is
added.  Membership, size, emptiness and equality are those of the set.  Complementing twice
changes nothing, folding gives the least set that is closed under the other case, and on
closed sets it does not matter which of the two comes first. -/
theorem run_members :
    (empty.members = ∅ ∧ (default : ByteSet).members = ∅ ∧
      blank.members = {9, 10, 11, 12, 13, 32}) ∧
    (∀ (s : ByteSet) (edits : List Edit),
      (edits.foldl apply s).members = edits.foldl Edit.result s.members) ∧
    (∀ s : ByteSet,
      (∀ b, s.contains b = true ↔ b ∈ s.members) ∧
      s.size = s.members.ncard ∧
      (s.isEmpty = true ↔ s.members = ∅) ∧
      ∀ t : ByteSet, s = t ↔ s.members = t.members) ∧
    ∀ s : ByteSet,
      s.negate.negate = s ∧
      IsLeast {m | s.members ⊆ m ∧ CaseClosed m} s.foldCase.members ∧
      (CaseClosed s.members → s.negate.foldCase = s.foldCase.negate) := by
  refine ⟨⟨members_empty, members_empty, ?blanks⟩, members_run, fun s => ?questions,
    fun s => ?cases⟩
  case blanks =>
    ext b
    rw [mem_members_iff, mem_blank_iff]
    simp [Byte.blanks]
  case questions =>
    exact ⟨fun b => mem_members_iff.symm, s.size_eq_ncard, isEmpty_iff, fun t => eq_iff_members_eq⟩
  case cases =>
    refine ⟨s.negate_negate, s.isLeast_foldCase, fun closed => ?_⟩
    have blind := caseBlind_iff_caseClosed.2 closed
    rw [blind.foldCase_eq, blind.negate.foldCase_eq]

end ByteSet

end Bytewise
