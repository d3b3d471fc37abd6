/-
# Bytewise.Subject -- bytes that are searched

A subject is a list of bytes looked at by position.  It is kept in two pieces,
so that a replacement need not move what lies behind it: `front` is all there is
before some position, and the rest is `back` from `skipped` on.

* `toList` is the view: `size_eq` and `get?_eq` say what a subject shows in terms
  of it;
* `splice` replaces a span by other bytes, as `toList_splice` says of the view,
  for every span that does not start inside `front`.
-/
import Bytewise.Byte

namespace Bytewise

set_option autoImplicit false

structure Subject where
  front : Array UInt8
  back : Array UInt8
  skipped : Nat
  deriving DecidableEq, Repr

namespace Subject

def ofBytes (s : Bytes) : Subject := ⟨#[], s.toArray, 0⟩

def toList (s : Subject) : Bytes := s.front.toList ++ s.back.toList.drop s.skipped

@[inline]
def size (s : Subject) : Nat := s.front.size + (s.back.size - s.skipped)

/-- The byte at a position. -/
@[inline]
def get? (s : Subject) (i : Nat) : Option UInt8 :=
  if i < s.front.size then s.front[i]? else s.back[s.skipped + (i - s.front.size)]?

/-- Puts `t` in the place of `length` bytes at `i`; a span that reaches behind the end is cut at
the end. -/
def splice (s : Subject) (i length : Nat) (t : Bytes) : Subject :=
  let start := s.skipped + (i - s.front.size)
  ⟨(s.front ++ s.back.extract s.skipped start) ++ t, s.back, start + length⟩

/-! ## The view -/

theorem toList_ofBytes (s : Bytes) : (ofBytes s).toList = s := by simp [ofBytes, toList]

theorem size_eq (s : Subject) : s.size = s.toList.length := by simp [size, toList]

theorem get?_eq (s : Subject) (i : Nat) : s.get? i = s.toList[i]? := by
  by_cases h : i < s.front.size
  · simp [get?, toList, h, List.getElem?_append_left]
  · have h : s.front.size ≤ i := Nat.le_of_not_gt h
    simp [get?, toList, Nat.not_lt.mpr h, List.getElem?_append_right, h]

theorem toList_splice (s : Subject) (i length : Nat) (t : Bytes) (h : s.front.size ≤ i) :
    (s.splice i length t).toList = s.toList.take i ++ t ++ s.toList.drop (i + length) := by
  have front : s.front.toList.length ≤ i := by simpa using h
  have behind : s.front.toList.length ≤ i + length := Nat.le_add_right_of_le front
  have skip : s.skipped + (i - s.front.size) + length = s.skipped + (i + length - s.front.size) := by
    omega
  simp [splice, toList, List.take_append, List.drop_append, List.take_of_length_le front,
    List.drop_eq_nil_of_le behind, skip]

end Subject

end Bytewise
