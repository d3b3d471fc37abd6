/-
# Bytewise.Proofs.Positions -- the first position with an answer

A search asks one position after the other, and takes the first answer it gets.
Over the positions from `start` on that is `List.findSome?` on a range.
-/
namespace Bytewise

set_option autoImplicit false

variable {β : Type} {answer : Nat → Option β} {start count : Nat}

theorem findSome?_range'_eq_none_iff :
    (List.range' start count).findSome? answer = none ↔
      ∀ j, start ≤ j → j < start + count → answer j = none := by
  simp only [List.findSome?_eq_none_iff, List.mem_range'_1, and_imp]

theorem findSome?_range'_eq_some_iff {b : β} :
    (List.range' start count).findSome? answer = some b ↔
      ∃ i, start ≤ i ∧ i < start + count ∧ (∀ j, start ≤ j → j < i → answer j = none) ∧
        answer i = some b := by
  rw [List.findSome?_eq_some_iff]
  constructor
  · rintro ⟨before, i, behind, split, found, nothing⟩
    obtain ⟨k, few, rfl, later⟩ := List.range'_eq_append_iff.1 split
    obtain ⟨rfl, more, -⟩ := List.range'_eq_cons_iff.1 later.symm
    refine ⟨start + k * 1, by omega, by omega, fun j above below => nothing j ?_, found⟩
    exact List.mem_range'_1.2 ⟨above, by omega⟩
  · rintro ⟨i, above, below, nothing, found⟩
    refine ⟨List.range' start (i - start), i, List.range' (i + 1) (start + count - (i + 1)), ?_,
      found, fun j earlier => ?_⟩
    · rw [← List.range'_succ, show i = start + (i - start) by omega, Nat.add_sub_cancel_left,
        List.range'_append_1]
      congr 1
      omega
    · obtain ⟨low, high⟩ := List.mem_range'_1.1 earlier
      exact nothing j low (by omega)

/-- Last positions that give no answer may be left out. -/
theorem findSome?_range'_add {more : Nat}
    (behind : ∀ j, start + count ≤ j → j < start + count + more → answer j = none) :
    (List.range' start (count + more)).findSome? answer =
      (List.range' start count).findSome? answer := by
  rw [← List.range'_append_1, List.findSome?_append, findSome?_range'_eq_none_iff.2 behind,
    Option.or_none]

end Bytewise
