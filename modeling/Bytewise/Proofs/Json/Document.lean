/-
# Bytewise.Proofs.Json.Document -- white space and whole texts

White space is passed over up to the first byte that is none (`skipBlank_eq_cons_iff`)
or to the end (`skipBlank_eq_nil_iff`).  A text is a value with white space behind it
(`document_eq_ok_iff`).
-/
import Mathlib.Data.List.TakeWhile
import Bytewise.Json.Reader

namespace Bytewise.Json

set_option autoImplicit false

variable {s t w : Bytes} {b : UInt8}

/-- A text is divided where the bytes of a class end. -/
theorem divide_eq_iff {p : UInt8 → Bool} :
    s.takeWhile p = w ∧ s.dropWhile p = t ↔
      s = w ++ t ∧ (∀ b ∈ w, p b = true) ∧ ∀ b ∈ t.head?, p b = false := by
  constructor
  · rintro ⟨rfl, rfl⟩
    refine ⟨List.takeWhile_append_dropWhile.symm, fun b mem => List.mem_takeWhile_imp mem, ?_⟩
    intro b head
    have stop := List.head?_dropWhile_not p s
    rw [head] at stop
    simpa using stop
  · rintro ⟨rfl, all, stop⟩
    have here : t.takeWhile p = [] ∧ t.dropWhile p = t := by
      cases t with
      | nil => exact ⟨rfl, rfl⟩
      | cons b t => simp [stop b rfl]
    rw [List.takeWhile_append_of_pos all, List.dropWhile_append_of_pos all, here.1, here.2,
      List.append_nil]
    exact ⟨rfl, rfl⟩

/-- Nothing but white space. -/
def Blank (w : Bytes) : Prop := ∀ b ∈ w, isBlank b = true

theorem blank_nil : Blank [] := nofun

theorem Blank.append (blank : Blank w) (blank' : Blank t) : Blank (w ++ t) := by
  intro b mem
  rcases List.mem_append.1 mem with before | behind
  · exact blank b before
  · exact blank' b behind

theorem skipBlank_append (blank : Blank w) (s : Bytes) : skipBlank (w ++ s) = skipBlank s :=
  List.dropWhile_append_of_pos blank

theorem skipBlank_of_solid (solid : isBlank b = false) (s : Bytes) :
    skipBlank (b :: s) = b :: s := by
  simp [skipBlank, solid]

theorem skipBlank_eq_nil_iff : skipBlank s = [] ↔ Blank s := List.dropWhile_eq_nil_iff

/-- What is passed over is white space, and the byte behind it is none. -/
theorem skipBlank_eq_cons_iff :
    skipBlank s = b :: t ↔ ∃ w, Blank w ∧ s = w ++ b :: t ∧ isBlank b = false := by
  constructor
  · intro skipped
    obtain ⟨split, blank, solid⟩ := divide_eq_iff.1 ⟨rfl, skipped⟩
    exact ⟨_, blank, split, solid b rfl⟩
  · rintro ⟨w, blank, rfl, solid⟩
    rw [skipBlank_append blank, skipBlank_of_solid solid]

theorem skipBlank_eq_cons (blank : Blank w) (solid : isBlank b = false) (s : Bytes) :
    skipBlank (w ++ b :: s) = b :: s :=
  skipBlank_eq_cons_iff.2 ⟨w, blank, rfl, solid⟩

theorem word_eq_ok_iff : word w s = .ok t ↔ s = w ++ t := by
  induction w generalizing s with
  | nil => simp [word]
  | cons b w ih =>
      cases s with
      | nil => simp [word]
      | cons c s =>
          by_cases same : c = b
          · simp [word, same, ih]
          · simp [word, same]

/-- A text is read if it is a value and white space. -/
theorem document_eq_ok_iff {α : Type} {value : Bytes → Result α} {a : α} :
    document value s = .ok a ↔ ∃ rest, value s = .ok (a, rest) ∧ Blank rest := by
  rw [document]
  constructor
  · intro read
    split at read
    · cases read
    · rename_i a' rest valued
      split at read
      · rename_i none
        obtain rfl := Except.ok.inj read
        exact ⟨rest, valued, skipBlank_eq_nil_iff.1 none⟩
      · cases read
  · rintro ⟨rest, valued, blank⟩
    simp [valued, skipBlank_eq_nil_iff.2 blank]

theorem close_eq_ok_iff (solid : isBlank b = false) :
    close b s = .ok t ↔ ∃ w, Blank w ∧ s = w ++ b :: t := by
  rw [close]
  constructor
  · intro closed
    split at closed
    · cases closed
    · rename_i c rest skipped
      split at closed
      · obtain rfl := Except.ok.inj closed
        subst c
        obtain ⟨w, blank, rfl, -⟩ := skipBlank_eq_cons_iff.1 skipped
        exact ⟨w, blank, rfl⟩
      · cases closed
  · rintro ⟨w, blank, rfl⟩
    rw [skipBlank_append blank, skipBlank_of_solid solid]
    exact if_pos rfl

end Bytewise.Json
