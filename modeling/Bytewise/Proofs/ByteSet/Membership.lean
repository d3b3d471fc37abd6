/-
# Bytewise.Proofs.ByteSet.Membership -- sets of bytes by their members

A byte stands in a set when its bit is on: bit `b % 16` of word `b / 16`
(`contains_eq`).  No two bytes share a bit, so each change of the words is a
change of the members, and from here on the words do not matter:

* `mem_insert_iff`, `mem_insertAll_iff`, `mem_negate_iff`: members added, and
  the complement;
* `ext`: sets with the same members are the same, so a set is the list of its
  members (`ofList_toList`);
* `mem_foldCase_iff`: folding adds every byte that is a member in another case;
* `CaseBlind`: a set that does not tell the cases of a letter apart.  Folding
  makes any set one (`caseBlind_foldCase`), and its complement is one too
  (`CaseBlind.negate`).
-/
import Bytewise.ByteSet
import Bytewise.Proofs.Byte.Case

namespace Bytewise.ByteSet

set_option autoImplicit false

variable {s t : ByteSet} {a b c : UInt8}

/-! ## Bits -/

theorem get_index (s : ByteSet) (b : UInt8) :
    s.words.get (index b) = getElem s.words (index b).val (index b).isLt :=
  rfl

theorem toBitVec_mask (b : UInt8) : (mask b).toBitVec = BitVec.twoPow 16 (b.toNat % 16) := by
  have below : b.toNat % 16 < 16 := Nat.mod_lt _ (by decide)
  simp [mask, BitVec.twoPow_eq, Nat.mod_eq_of_lt below]

theorem contains_eq (s : ByteSet) (b : UInt8) :
    s.contains b = (s.words.get (index b)).toBitVec.getLsbD (b.toNat % 16) := by
  have below : b.toNat % 16 < 16 := Nat.mod_lt _ (by decide)
  have nonzero : ∀ w : UInt16, (w != 0) = (w.toBitVec != 0#16) := by
    intro w
    rw [Bool.eq_iff_iff, bne_iff_ne, bne_iff_ne, ne_eq, ne_eq, UInt16.eq_iff_toBitVec_eq]
    rfl
  show (s.words.get (index b) &&& mask b != 0) = _
  rw [nonzero, UInt16.toBitVec_and, toBitVec_mask, BitVec.and_twoPow]
  cases (s.words.get (index b)).toBitVec.getLsbD (b.toNat % 16) with
  | false => simp
  | true =>
      have on : BitVec.twoPow 16 (b.toNat % 16) ≠ 0#16 := by
        intro zero
        have := congrArg (BitVec.getLsbD · (b.toNat % 16)) zero
        simp [below] at this
      simp [on]

theorem mem_iff : b ∈ s ↔ (s.words.get (index b)).toBitVec.getLsbD (b.toNat % 16) = true := by
  rw [← contains_eq]
  rfl

/-- A byte is known by its word and its bit. -/
theorem eq_of_index_eq (word : index a = index b) (bit : a.toNat % 16 = b.toNat % 16) : a = b := by
  have quotient : a.toNat / 16 = b.toNat / 16 := congrArg Fin.val word
  exact UInt8.toNat_inj.1 (by omega)

/-! ## Members -/

theorem not_mem_empty : b ∉ empty := by
  rw [mem_iff, get_index]
  simp [empty]

theorem mem_insert_iff : b ∈ s.insert c ↔ b = c ∨ b ∈ s := by
  rw [mem_iff, mem_iff, get_index, get_index]
  by_cases word : index c = index b
  · have bit : c.toNat % 16 = b.toNat % 16 ↔ b = c :=
      ⟨fun same => (eq_of_index_eq word same).symm, fun same => same ▸ rfl⟩
    have below : c.toNat % 16 < 16 := Nat.mod_lt _ (by decide)
    simp only [insert, word, Fin.getElem_fin, Vector.getElem_set_self, UInt16.toBitVec_or,
      toBitVec_mask, BitVec.getLsbD_or, BitVec.getLsbD_twoPow, Bool.or_eq_true, Bool.and_eq_true,
      decide_eq_true_eq, below, true_and, bit]
    exact or_comm
  · have other : b ≠ c := fun same => word (same ▸ rfl)
    have place : (index c).val ≠ (index b).val := fun same => word (Fin.ext same)
    simp [insert, Vector.getElem_set_ne, place, other]

theorem mem_insertAll_iff {bs : Bytes} : b ∈ s.insertAll bs ↔ b ∈ bs ∨ b ∈ s := by
  unfold insertAll
  induction bs generalizing s with
  | nil => simp
  | cons c bs ih =>
      rw [List.foldl_cons, ih, mem_insert_iff, List.mem_cons, or_left_comm, or_assoc]

theorem mem_negate_iff : b ∈ s.negate ↔ b ∉ s := by
  have below : b.toNat % 16 < 16 := Nat.mod_lt _ (by decide)
  rw [mem_iff, mem_iff, get_index, get_index]
  simp [negate, below]

theorem mem_ofList_iff {bs : Bytes} : b ∈ ofList bs ↔ b ∈ bs := by
  simp [ofList, mem_insertAll_iff, not_mem_empty]

theorem mem_blank_iff : b ∈ blank ↔ b ∈ Byte.blanks := mem_ofList_iff

/-- Every bit of the words is the bit of some byte. -/
theorem exists_bit {i j : Nat} (word : i < 16) (bit : j < 16) :
    ∃ b : UInt8, (index b).val = i ∧ b.toNat % 16 = j := by
  have value : (UInt8.ofNat (i * 16 + j)).toNat = i * 16 + j :=
    UInt8.toNat_ofNat_of_lt' (by show _ < 256; omega)
  refine ⟨UInt8.ofNat (i * 16 + j), ?_, ?_⟩
  · show (UInt8.ofNat (i * 16 + j)).toNat / 16 = i
    omega
  · omega

/-- Two sets with the same members are the same. -/
theorem ext (same : ∀ b, b ∈ s ↔ b ∈ t) : s = t := by
  obtain ⟨u⟩ := s
  obtain ⟨v⟩ := t
  have words : u = v := by
    refine Vector.ext fun i word => ?_
    rw [UInt16.eq_iff_toBitVec_eq]
    refine BitVec.eq_of_getLsbD_eq fun j bit => ?_
    obtain ⟨b, rfl, rfl⟩ := exists_bit word bit
    have both := same b
    rwa [mem_iff, mem_iff, ← Bool.eq_iff_iff] at both
  rw [words]

theorem mem_span_iff {lo hi : UInt8} : b ∈ span lo hi ↔ lo.toNat ≤ b.toNat ∧ b.toNat ≤ hi.toNat := by
  have := hi.toNat_lt
  simp only [span, List.mem_map, List.mem_range'_1]
  constructor
  · rintro ⟨n, range, rfl⟩
    have below : n < UInt8.size := by
      show n < 256
      omega
    rw [UInt8.toNat_ofNat_of_lt' below]
    omega
  · intro range
    exact ⟨b.toNat, by omega, UInt8.ofNat_toNat⟩

theorem mem_toList_iff : b ∈ s.toList ↔ b ∈ s := by
  have bound : b ∈ span 0 255 := mem_span_iff.2 ⟨Nat.zero_le _, Nat.le_of_lt_succ b.toNat_lt⟩
  simp only [toList, List.mem_filter, bound, true_and]
  rfl

theorem ofList_toList (s : ByteSet) : ofList s.toList = s :=
  ext fun _ => mem_ofList_iff.trans mem_toList_iff

open Classical in
/-- There is a set with any members. -/
theorem exists_members (members : UInt8 → Prop) : ∃ s : ByteSet, ∀ b, b ∈ s ↔ members b := by
  refine ⟨ofList ((span 0 255).filter fun b => members b), fun b => ?_⟩
  have bound : b ∈ span 0 255 := mem_span_iff.2 ⟨Nat.zero_le _, Nat.le_of_lt_succ b.toNat_lt⟩
  simp [mem_ofList_iff, bound]

/-! ## Folding -/

/-- One letter is folded: its two cases are members if one of them was. -/
theorem mem_foldLetter_iff (lower : Byte.isLower c = true) :
    b ∈ s.foldLetter c ↔ b ∈ s ∨ (Byte.toLower b = c ∧ ∃ a ∈ s, Byte.toLower a = c) := by
  have present : (∃ a ∈ s, Byte.toLower a = c) ↔ c ∈ s ∨ Byte.toUpper c ∈ s := by
    simp [Byte.toLower_eq_iff lower, and_or_left, exists_or]
  rw [present, Byte.toLower_eq_iff lower, foldLetter]
  by_cases either : c ∈ s ∨ Byte.toUpper c ∈ s
  · have test : (s.contains c || s.contains (Byte.toUpper c)) = true := by
      rw [Bool.or_eq_true]
      exact either
    simp only [if_pos test, mem_insert_iff, either, and_true]
    rw [or_left_comm, ← or_assoc, or_comm]
  · have test : ¬ (s.contains c || s.contains (Byte.toUpper c)) = true := by
      rw [Bool.or_eq_true]
      exact either
    rw [if_neg test]
    simp [either]

theorem mem_foldl_foldLetter_iff {letters : Bytes}
    (lower : ∀ c ∈ letters, Byte.isLower c = true) :
    b ∈ letters.foldl foldLetter s ↔
      b ∈ s ∨ (Byte.toLower b ∈ letters ∧ ∃ a ∈ s, Byte.toLower a = Byte.toLower b) := by
  induction letters generalizing s with
  | nil => simp
  | cons c letters ih =>
      obtain ⟨first, later⟩ := List.forall_mem_cons.1 lower
      -- what a member folds to is what some member of `s` folds to
      have same : (∃ a ∈ s.foldLetter c, Byte.toLower a = Byte.toLower b) ↔
          ∃ a ∈ s, Byte.toLower a = Byte.toLower b := by
        constructor
        · rintro ⟨a, member, folds⟩
          rcases (mem_foldLetter_iff first).1 member with old | ⟨rfl, a', old, folds'⟩
          · exact ⟨a, old, folds⟩
          · exact ⟨a', old, folds'.trans folds⟩
        · rintro ⟨a, member, folds⟩
          exact ⟨a, (mem_foldLetter_iff first).2 (.inl member), folds⟩
      rw [List.foldl_cons, ih later, same, mem_foldLetter_iff first, List.mem_cons]
      constructor
      · rintro ((old | ⟨rfl, found⟩) | ⟨letter, found⟩)
        · exact .inl old
        · exact .inr ⟨.inl rfl, found⟩
        · exact .inr ⟨.inr letter, found⟩
      · rintro (old | ⟨rfl | letter, found⟩)
        · exact .inl (.inl old)
        · exact .inl (.inr ⟨rfl, found⟩)
        · exact .inr ⟨letter, found⟩

/-- Folding adds the other case of each letter, and nothing else. -/
theorem mem_foldCase_iff : b ∈ s.foldCase ↔ ∃ a ∈ s, Byte.toLower a = Byte.toLower b := by
  have letters : ∀ c, c ∈ span 0x61 0x7a ↔ Byte.isLower c = true := fun c =>
    mem_span_iff.trans Byte.isLower_iff.symm
  rw [foldCase, mem_foldl_foldLetter_iff fun c member => (letters c).1 member, letters]
  constructor
  · rintro (member | ⟨-, found⟩)
    · exact ⟨b, member, rfl⟩
    · exact found
  · rintro ⟨a, member, folds⟩
    rcases Byte.eq_or_isLower_of_toLower_eq folds with rfl | letter
    · exact .inl member
    · exact .inr ⟨letter, a, member, folds⟩

/-- The set does not tell the two cases of a letter apart. -/
def CaseBlind (s : ByteSet) : Prop := ∀ a b, Byte.toLower a = Byte.toLower b → (a ∈ s ↔ b ∈ s)

theorem caseBlind_foldCase (s : ByteSet) : s.foldCase.CaseBlind := by
  intro a b same
  rw [mem_foldCase_iff, mem_foldCase_iff, same]

theorem CaseBlind.negate (blind : s.CaseBlind) : s.negate.CaseBlind := by
  intro a b same
  rw [mem_negate_iff, mem_negate_iff, blind a b same]

/-- Folding changes nothing where the cases of a letter are not told apart. -/
theorem CaseBlind.foldCase_eq (blind : s.CaseBlind) : s.foldCase = s := by
  refine ext fun b => mem_foldCase_iff.trans ⟨?_, fun member => ⟨b, member, rfl⟩⟩
  rintro ⟨a, member, same⟩
  exact (blind a b same).1 member

theorem isLower_toLower_of_blank {c : UInt8} (member : c ∈ Byte.blanks) :
    Byte.isLower (Byte.toLower c) = false := by
  have none : Byte.blanks.all (fun c => !Byte.isLower (Byte.toLower c)) = true := by decide
  simpa using List.all_eq_true.1 none c member

theorem caseBlind_blank : blank.CaseBlind := by
  intro a b same
  rcases Byte.eq_or_isLower_of_toLower_eq same with rfl | letter
  · rfl
  · rw [mem_blank_iff, mem_blank_iff]
    constructor
    · intro member
      simp [← same, isLower_toLower_of_blank member] at letter
    · intro member
      simp [isLower_toLower_of_blank member] at letter

end Bytewise.ByteSet
