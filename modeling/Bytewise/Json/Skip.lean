/-
# Bytewise.Json.Skip -- passing over a value

`skipValue` passes over one value of any kind and checks no more than its form.
It keeps a stack of the arrays and objects it is inside of (`Frame`), so values
may nest as deeply as they like, and it stands in one of three places
(`Place`): before a value, right behind the opening of a frame, or behind a
value.
-/
import Bytewise.Json.Number
import Bytewise.Json.Text

namespace Bytewise.Json

set_option autoImplicit false

inductive Frame
  | array
  | object
  deriving DecidableEq, Repr

def Frame.closing : Frame → UInt8
  | .array => Byte.rightBracket
  | .object => Byte.rightBrace

inductive Place
  | beforeValue
  | opened
  | afterValue
  deriving DecidableEq, Repr

/-- How many places can follow without a byte being taken. -/
def Place.rank : Place → Nat
  | .opened => 1
  | .beforeValue => 0
  | .afterValue => 0

/-- Passes over a scalar that starts with `b`. -/
def skipScalar (b : UInt8) (rest : Bytes) : Except Error Bytes :=
  if b = Byte.ofChar 'n' then word [0x75, 0x6c, 0x6c] rest
  else if b = Byte.ofChar 't' then word [0x72, 0x75, 0x65] rest
  else if b = Byte.ofChar 'f' then word [0x61, 0x6c, 0x73, 0x65] rest
  else if b = Byte.doubleQuote then Text.skip rest
  else if Number.starts b then Number.skip b rest
  else .error .malformed

/-- Passes over a key and the colon behind it. -/
def skipKey (s : Bytes) : Except Error Bytes :=
  match skipBlank s with
  | [] => .error .endOfText
  | b :: rest =>
    if b = Byte.doubleQuote then
      match Text.skip rest with
      | .error e => .error e
      | .ok rest =>
        match skipBlank rest with
        | [] => .error .endOfText
        | c :: rest => if c = Byte.colon then .ok rest else .error .malformed
    else .error .malformed

/-- What comes before a value in a frame: a key in an object, nothing in an array. -/
def Frame.skipKey : Frame → Bytes → Except Error Bytes
  | .array, s => .ok s
  | .object, s => Json.skipKey s

/-! ## Skipping consumes -/

theorem length_skipScalar {b : UInt8} {rest after : Bytes} (h : skipScalar b rest = .ok after) :
    after.length ≤ rest.length := by
  unfold skipScalar at h
  split at h
  · exact Text.length_word_le h
  split at h
  · exact Text.length_word_le h
  split at h
  · exact Text.length_word_le h
  split at h
  · exact Nat.le_of_lt (Text.length_skip h)
  split at h
  · exact Number.length_skip_le h
  · cases h

theorem length_skipKey {s after : Bytes} (h : skipKey s = .ok after) :
    after.length < s.length := by
  have hs := length_skipBlank_le s
  unfold skipKey at h
  split at h
  · cases h
  · rename_i b rest hb
    rw [hb] at hs
    split at h
    · split at h
      · cases h
      · rename_i t ht
        have := Text.length_skip ht
        have hr := length_skipBlank_le t
        split at h
        · cases h
        · rename_i c u hc
          rw [hc] at hr
          split at h
          · obtain rfl := Except.ok.inj h
            simp only [List.length_cons] at *
            omega
          · cases h
    · cases h

theorem Frame.length_skipKey_le {frame : Frame} {s after : Bytes}
    (h : frame.skipKey s = .ok after) : after.length ≤ s.length := by
  cases frame with
  | array => obtain rfl := Except.ok.inj h; exact Nat.le_refl _
  | object => exact Nat.le_of_lt (Json.length_skipKey h)

/-! ## Values -/

/-- Passes over values until the outermost one is complete, from a place inside the frames of the
stack.  In an opened frame the first frame of the stack is the one just opened. -/
def skipFrom (place : Place) (stack : List Frame) (s : Bytes) : Except Error Bytes :=
  match place, stack with
  | .beforeValue, stack =>
    match _h : skipBlank s with
    | [] => .error .endOfText
    | b :: rest =>
      if b = Byte.leftBracket then skipFrom .opened (.array :: stack) rest
      else if b = Byte.leftBrace then skipFrom .opened (.object :: stack) rest
      else
        match _hs : skipScalar b rest with
        | .error e => .error e
        | .ok after => skipFrom .afterValue stack after
  | .opened, [] => .error .malformed
  | .opened, frame :: stack =>
    match _h : skipBlank s with
    | [] => .error .endOfText
    | b :: rest =>
      if b = frame.closing then skipFrom .afterValue stack rest
      else
        match _hs : frame.skipKey (b :: rest) with
        | .error e => .error e
        | .ok after => skipFrom .beforeValue (frame :: stack) after
  | .afterValue, [] => .ok s
  | .afterValue, frame :: stack =>
    match _h : skipBlank s with
    | [] => .error .endOfText
    | b :: rest =>
      if b = frame.closing then skipFrom .afterValue stack rest
      else if b = Byte.comma then
        match _hs : frame.skipKey rest with
        | .error e => .error e
        | .ok after => skipFrom .beforeValue (frame :: stack) after
      else .error .malformed
  termination_by (s.length, place.rank)
  decreasing_by
    all_goals
      have hle := length_skipBlank_le s
      simp only [_h, List.length_cons] at hle
    · exact .left _ _ (by omega)
    · exact .left _ _ (by omega)
    · have := length_skipScalar _hs
      exact .left _ _ (by omega)
    · exact .left _ _ (by omega)
    · have := Frame.length_skipKey_le _hs
      simp only [List.length_cons] at this
      rcases Nat.lt_or_eq_of_le (Nat.le_trans this hle) with hlt | heq
      · exact .left _ _ hlt
      · rw [heq]
        exact .right _ (by simp [Place.rank])
    · exact .left _ _ (by omega)
    · have := Frame.length_skipKey_le _hs
      exact .left _ _ (by omega)

def skipValue (s : Bytes) : Except Error Bytes := skipFrom .beforeValue [] s

end Bytewise.Json
